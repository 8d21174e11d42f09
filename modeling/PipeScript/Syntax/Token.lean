import PipeScript.Syntax.Program
import PipeScript.Text.Letter
import PipeScript.Text.Digit

/-!
# Tokens

A script is cut into words, keywords, quoted texts, arrows and braces; blanks and comments stand
between them. The cut depends on the characters alone: a keyword goes before a word, and a word or a
quoted text is as long as it can be.

A keyword is written in any letter case, where the letter `i` may also be its dotted capital or
dotless form, and no word character follows it.
-/

namespace PipeScript.Syntax

/-- A token with its spelling. -/
inductive Token
  | keyword (k : Keyword) (spelling : List Char)
  | word (spelling : List Char)
  | quoted (spelling : List Char)
  | arrow
  | openBrace
  | closeBrace
deriving DecidableEq, Repr

namespace Token

/-- The characters of the token. -/
def spelling : Token → List Char
  | keyword _ s => s
  | word s => s
  | quoted s => s
  | arrow => ['-', '>']
  | openBrace => ['\x7b']
  | closeBrace => ['\x7d']

end Token

/-- Is the character layout between tokens? -/
def isLayout (c : Char) : Bool :=
  c == ' ' || c == '\t' || c == Char.ofNat 0x0c || c == '\r' || c == '\n'

/-- May the character start a word? -/
def isWordStart (c : Char) : Bool := c.isAlpha || c == '_'

/-- May the character continue a word? -/
def isWordPart (c : Char) : Bool := c.isAlphanum || c == '_'

/-- Does the character spell the letter of a keyword? -/
def spells (letter c : Char) : Bool :=
  c.toLower == letter || (letter == 'i' && (c.val.toNat == 0x130 || c.val.toNat == 0x131))

/-- The characters that spell a word's letters at the start of the text, if they do. -/
def spelt? : List Char → List Char → Option (List Char)
  | [], _ => some []
  | _ :: _, [] => none
  | letter :: letters, c :: rest =>
    if spells letter c then (spelt? letters rest).map (c :: ·) else none

/-- Does the text start with no word character? -/
def atWordEnd : List Char → Bool
  | [] => true
  | c :: _ => !Text.isWord c

/-- The spelling of a keyword at the start of the text. -/
def keywordAt? (s : List Char) (k : Keyword) : Option (List Char) :=
  (spelt? k.spelling.toList s).filter fun t => atWordEnd (s.drop t.length)

/-- The characters after an opening quotation mark up to the closing one. A backslash takes the next
character with it, which may not be a newline. -/
def quotedBody? (mark : Char) : List Char → Option (List Char)
  | [] => none
  | '\\' :: c :: rest => if c = '\n' then none else (quotedBody? mark rest).map ('\\' :: c :: ·)
  | c :: rest =>
    if c = mark then some [c] else if c = '\\' then none else (quotedBody? mark rest).map (c :: ·)

/-- The token at the start of the text. -/
def tokenAt? (s : List Char) : Option Token :=
  match s with
  | [] => none
  | c :: rest =>
    match [Keyword.parallel, .forEach, .guard].findSome? fun k =>
        (keywordAt? s k).map (Token.keyword k ·) with
    | some t => some t
    | none =>
      if isWordStart c then some (.word (c :: rest.takeWhile isWordPart))
      else if c = '"' || c = '\'' then (quotedBody? c rest).map fun body => .quoted (c :: body)
      else if c = '\x7b' then some .openBrace
      else if c = '\x7d' then some .closeBrace
      else if c = '-' && rest.head? == some '>' then some .arrow
      else none

/-- A token and the offset at which it starts. -/
structure Lexeme where
  token : Token
  offset : Nat
deriving DecidableEq, Repr

/-- The tokens of a text, as far as it can be cut, and the character at which the cut is stuck, if
there is one. -/
structure Lexed where
  lexemes : List Lexeme
  stuck : Option (Char × Nat)
deriving DecidableEq, Repr

/-- Put a token in front. -/
def Lexed.cons (l : Lexeme) (r : Lexed) : Lexed := { r with lexemes := l :: r.lexemes }

/-- Cut the text that stands at an offset, after passing over `skip` characters that belong to a
token or comment already found. -/
def lexFrom : (offset skip : Nat) → List Char → Lexed
  | _, _, [] => ⟨[], none⟩
  | offset, skip + 1, _ :: rest => lexFrom (offset + 1) skip rest
  | offset, 0, c :: rest =>
    if isLayout c then lexFrom (offset + 1) 0 rest
    else if c = '#' then lexFrom (offset + 1) (rest.takeWhile (· != '\n')).length rest
    else
      match tokenAt? (c :: rest) with
      | none => ⟨[], some (c, offset)⟩
      | some t => (lexFrom (offset + 1) (t.spelling.length - 1) rest).cons ⟨t, offset⟩

/-- Cut a text into tokens. -/
def lex (s : List Char) : Lexed := lexFrom 0 0 s

/-- The characters that a quoted text means: the ones between the marks, where a backslash gives the
next character, or a newline, tab or carriage return for `n`, `t` and `r`. -/
def unescape : List Char → List Char
  | [] => []
  | '\\' :: c :: rest =>
    (if c = 'n' then '\n' else if c = 't' then '\t' else if c = 'r' then '\r' else c)
      :: unescape rest
  | c :: rest => c :: unescape rest

/-- The meaning of a quoted text with its marks. -/
def unquote (spelling : List Char) : String := String.ofList (unescape (spelling.drop 1).dropLast)

end PipeScript.Syntax
