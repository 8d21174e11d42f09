import PipeScript.Json
import PipeScript.Text.Position
import PipeScript.WholeNumber

/-!
# Reading JSON

A strict reader: one value, with blanks around it, and nothing after it. Beyond the standard it
knows the numbers `NaN`, `Infinity` and `-Infinity`. Control characters are refused in strings. A
refusal says what was expected and where.

Answers of services and records of the cache are read under different limits, which are set out in a
`Dialect`: how deep values may nest, how long whole numbers may be, and whether half of a surrogate
pair may stand alone.

The functions take fuel, and twice the length of the text is always enough, because of any two calls
inside each other at least one reads a character.
-/

namespace PipeScript.Json

/-- What is wrong with a text that is no JSON. -/
inductive Problem
  | expectedValue
  | expectedName
  | expectedColon
  | expectedComma
  | unterminatedString
  | controlCharacter
  | badEscape
  | badUnicodeEscape
  | loneSurrogate
  | extraData
  | byteOrderMark
  /-- A whole number with more digits than are converted. -/
  | longInteger (digits : Nat)
  /-- An array or an object inside too many others. -/
  | tooDeep (container : String)
deriving DecidableEq, Repr

/-- A problem, with the text from where it was found. -/
structure Refusal where
  problem : Problem
  rest : List Char
deriving DecidableEq, Repr

/-- The words for a problem. -/
def Problem.message : Problem → String
  | expectedValue => "Expecting value"
  | expectedName => "Expecting property name enclosed in double quotes"
  | expectedColon => "Expecting ':' delimiter"
  | expectedComma => "Expecting ',' delimiter"
  | unterminatedString => "Unterminated string starting at"
  | controlCharacter => "Invalid control character at"
  | badEscape => "Invalid \\escape"
  | badUnicodeEscape => "Invalid \\uXXXX escape"
  | loneSurrogate => "Lone surrogate"
  | extraData => "Extra data"
  | byteOrderMark => "Unexpected UTF-8 BOM (decode using utf-8-sig)"
  | longInteger _ => "Number too long"
  | tooDeep _ => "Too deep"

/-- The refusal of a text, in words, with the place. -/
def Refusal.message (s : List Char) (r : Refusal) : String :=
  let offset := s.length - r.rest.length
  let place := Text.Position.ofOffset s offset
  s!"{r.problem.message}: line {place.line} column {place.column} (char {offset})"

/-- The limits under which a text is read. -/
structure Dialect where
  /-- May half of a surrogate pair stand alone? -/
  loneHalves : Bool
  /-- How many arrays and objects may be open at once. -/
  depthLimit : Nat
  /-- Does an array or object without elements count as open? -/
  countsEmpty : Bool
  /-- Are the digits before the point counted also of numbers that are not whole? -/
  countsAll : Bool
  /-- How many digits may be counted. -/
  digitLimit : Nat := WholeNumber.digitLimit

/-- How answers of services are read: only the digits of whole numbers are counted. -/
def answerDialect : Dialect where
  loneHalves := true
  depthLimit := 960
  countsEmpty := true
  countsAll := false

/-- How records are read: the digits before the point of any number are counted. -/
def recordDialect : Dialect where
  loneHalves := false
  depthLimit := 200
  countsEmpty := false
  countsAll := true

/-- Is the character a blank of the format? -/
def isSpace (c : Char) : Bool := c == ' ' || c == '\t' || c == '\n' || c == '\r'

/-- The text from its first character that is no blank. -/
def skipSpace (s : List Char) : List Char := s.dropWhile isSpace

/-- The value of a hexadecimal digit. -/
def hexValue? (c : Char) : Option Nat :=
  if '0' ≤ c && c ≤ '9' then some (c.toNat - 48)
  else if 'a' ≤ c && c ≤ 'f' then some (c.toNat - 87)
  else if 'A' ≤ c && c ≤ 'F' then some (c.toNat - 55)
  else none

/-- The value of four hexadecimal digits, and what follows them. Something has to follow, because
the string in which they stand is still open. -/
def readHex4? : List Char → Option (Nat × List Char)
  | a :: b :: c :: d :: e :: rest => do
    let a ← hexValue? a
    let b ← hexValue? b
    let c ← hexValue? c
    let d ← hexValue? d
    pure (a * 4096 + b * 256 + c * 16 + d, e :: rest)
  | _ => none

/-- The character of a one-letter escape. -/
def shortEscape? : Char → Option Char
  | '"' => some '"'
  | '\\' => some '\\'
  | '/' => some '/'
  | 'b' => some (Char.ofNat 0x08)
  | 'f' => some (Char.ofNat 0x0c)
  | 'n' => some '\n'
  | 'r' => some '\r'
  | 't' => some '\t'
  | _ => none

/-- The code point of a `\u` escape, given what stands after the `u`: a high half is joined with the
escape of a low half after it. -/
def readUnicodeEscape (dialect : Dialect) (s : List Char) : Except Refusal (Nat × List Char) :=
  match readHex4? s with
  | none => .error ⟨.badUnicodeEscape, 'u' :: s⟩
  | some (n, rest) =>
    if !Text.isHalf n then .ok (n, rest)
    else
      let alone : Except Refusal (Nat × List Char) :=
        if dialect.loneHalves then .ok (n, rest) else .error ⟨.loneSurrogate, s⟩
      match rest with
      | '\\' :: 'u' :: more =>
        match readHex4? more with
        | some (m, rest') =>
          if n < 0xdc00 && 0xdc00 ≤ m && m < 0xe000 then
            .ok (0x10000 + (n - 0xd800) * 0x400 + (m - 0xdc00), rest')
          else alone
        | none => alone
      | _ => alone

/-- The code points of the rest of a string up to its closing quotation mark. `opening` is the text
from the mark that opened it, for the report of a string without end. -/
def readString (dialect : Dialect) (opening : List Char) :
    Nat → List Char → Except Refusal (List Nat × List Char)
  | 0, _ => .error ⟨.unterminatedString, opening⟩
  | _ + 1, [] => .error ⟨.unterminatedString, opening⟩
  | fuel + 1, c :: rest =>
    if c = '"' then .ok ([], rest)
    else if c = '\\' then
      match rest with
      | [] => .error ⟨.unterminatedString, opening⟩
      | 'u' :: more =>
        (readUnicodeEscape dialect more).bind fun (n, rest') =>
          (readString dialect opening fuel rest').map fun (ns, tail) => (n :: ns, tail)
      | e :: rest' =>
        match shortEscape? e with
        | none => .error ⟨.badEscape, c :: rest⟩
        | some d =>
          (readString dialect opening fuel rest').map fun (ns, tail) => (d.toNat :: ns, tail)
    else if c.val.toNat < 0x20 then .error ⟨.controlCharacter, c :: rest⟩
    else (readString dialect opening fuel rest).map fun (ns, tail) => (c.toNat :: ns, tail)

/-- The string of a row of code points. -/
def ofPoints (points : List Nat) : Json :=
  if points.any Text.isHalf then broken points else string (String.ofList (points.map Char.ofNat))

/-- The name of a field by its code points. -/
def nameOfPoints (points : List Nat) : FieldName :=
  if points.any Text.isHalf then .broken points
  else .text (String.ofList (points.map Char.ofNat))

/-- The digits of a number's fraction with the point, and what follows; nothing if none stands
there. -/
def readFraction (s : List Char) : List Char × List Char :=
  match s with
  | '.' :: rest =>
    let ds := rest.takeWhile Text.isAsciiDigit
    if ds.isEmpty then ([], s) else (ds, rest.dropWhile Text.isAsciiDigit)
  | _ => ([], s)

/-- A number's power of ten, and what follows; nothing if none stands there. -/
def readPower (s : List Char) : Option Int × List Char :=
  match s with
  | c :: rest =>
    if c == 'e' || c == 'E' then
      let (negative, after) := Binary64.readSign rest
      let ds := after.takeWhile Text.isAsciiDigit
      if ds.isEmpty then (none, s)
      else
        let n : Int := Binary64.digitsValue ds
        (some (if negative then -n else n), after.dropWhile Text.isAsciiDigit)
    else (none, s)
  | [] => (none, s)

/-- A number, given its sign and what follows the sign, if one stands there. -/
def readNumber (dialect : Dialect) (negative : Bool) (s : List Char) :
    Option (Except Refusal (Json × List Char)) :=
  let run := match s with
    | '0' :: _ => ['0']
    | _ => s.takeWhile Text.isAsciiDigit
  if run.isEmpty then none
  else
    let (fraction, rest) := readFraction (s.drop run.length)
    let (power, tail) := readPower rest
    let whole := fraction.isEmpty && power.isNone
    if (whole || dialect.countsAll) && dialect.digitLimit < run.length then
      some (.error ⟨.longInteger run.length, s⟩)
    else if whole then
      let n : Int := Binary64.digitsValue run
      some (.ok (int (if negative then -n else n), tail))
    else
      some (.ok (number (Binary64.ofDecimal negative (Binary64.digitsValue (run ++ fraction))
        (power.getD 0 - fraction.length)), tail))

/-- The text after a given beginning. -/
def after? (word : String) (s : List Char) : Option (List Char) :=
  if word.toList.isPrefixOf s then some (s.drop word.length) else none

/-- A value that is written as a word. -/
def readWord? (s : List Char) : Option (Json × List Char) :=
  (after? "null" s).map (null, ·)
    <|> (after? "true" s).map (bool true, ·)
    <|> (after? "false" s).map (bool false, ·)
    <|> (after? "NaN" s).map (number (.nan false), ·)
    <|> (after? "Infinity" s).map (number (.infinite false), ·)
    <|> (after? "-Infinity" s).map (number (.infinite true), ·)

/-- A value that is neither string, array nor object. -/
def readPlain (dialect : Dialect) (s : List Char) : Except Refusal (Json × List Char) :=
  match readWord? s with
  | some r => .ok r
  | none =>
    let r := match s with
      | '-' :: rest => readNumber dialect true rest
      | _ => readNumber dialect false s
    r.getD (.error ⟨.expectedValue, s⟩)

mutual

/-- A value at the start of the text, and what follows it. `room` more arrays and objects may be
opened around what is read inside. -/
def readValue (dialect : Dialect) : Nat → Nat → List Char → Except Refusal (Json × List Char)
  | 0, _, s => .error ⟨.expectedValue, s⟩
  | fuel + 1, room, s =>
    match s with
    | '"' :: rest =>
      (readString dialect s fuel rest).map fun (ns, tail) => (ofPoints ns, tail)
    | '[' :: rest =>
      if dialect.countsEmpty && room == 0 then .error ⟨.tooDeep "array", s⟩
      else
        match skipSpace rest with
        | ']' :: tail => .ok (array [], tail)
        | inside =>
          if room == 0 then .error ⟨.tooDeep "array", s⟩
          else
            (readItems dialect fuel (room - 1) inside).map fun (items, tail) => (array items, tail)
    | '\x7b' :: rest =>
      if dialect.countsEmpty && room == 0 then .error ⟨.tooDeep "object", s⟩
      else
        match skipSpace rest with
        | '\x7d' :: tail => .ok (object [], tail)
        | inside =>
          if room == 0 then .error ⟨.tooDeep "object", s⟩
          else
            (readFields dialect fuel (room - 1) inside).map fun (fields, tail) =>
              (object (distinctFields fields), tail)
    | _ => readPlain dialect s

/-- The items of an array up to its closing bracket. -/
def readItems (dialect : Dialect) : Nat → Nat → List Char → Except Refusal (List Json × List Char)
  | 0, _, s => .error ⟨.expectedValue, s⟩
  | fuel + 1, room, s =>
    (readValue dialect fuel room s).bind fun (v, rest) =>
      match skipSpace rest with
      | ']' :: tail => .ok ([v], tail)
      | ',' :: more =>
        (readItems dialect fuel room (skipSpace more)).map fun (vs, tail) => (v :: vs, tail)
      | other => .error ⟨.expectedComma, other⟩

/-- The fields of an object up to its closing brace. -/
def readFields (dialect : Dialect) :
    Nat → Nat → List Char → Except Refusal (Fields × List Char)
  | 0, _, s => .error ⟨.expectedName, s⟩
  | fuel + 1, room, s =>
    match s with
    | '"' :: inside =>
      (readString dialect s fuel inside).bind fun (name, rest) =>
        match skipSpace rest with
        | ':' :: after =>
          (readValue dialect fuel room (skipSpace after)).bind fun (v, rest) =>
            let f := (nameOfPoints name, v)
            match skipSpace rest with
            | '\x7d' :: tail => .ok ([f], tail)
            | ',' :: more =>
              (readFields dialect fuel room (skipSpace more)).map fun (fs, tail) => (f :: fs, tail)
            | other => .error ⟨.expectedComma, other⟩
        | other => .error ⟨.expectedColon, other⟩
    | _ => .error ⟨.expectedName, s⟩

end

/-- The value that a text is. A byte order mark at its start is refused as such. -/
def read (dialect : Dialect) (s : List Char) : Except Refusal Json :=
  if s.head? = some (Char.ofNat 0xfeff) then .error ⟨.byteOrderMark, s⟩
  else
    (readValue dialect (2 * s.length + 2) dialect.depthLimit (skipSpace s)).bind fun (v, rest) =>
      match skipSpace rest with
      | [] => .ok v
      | other => .error ⟨.extraData, other⟩

end PipeScript.Json
