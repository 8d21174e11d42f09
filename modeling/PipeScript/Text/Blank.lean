/-!
# Blank characters and trimming

Scripts, conditions and loop items are trimmed of blank characters. The class is the one of
bidirectional types "whitespace", "segment separator" and "paragraph separator" together with the
space separators: besides the usual ASCII blanks it holds the four information separators
`U+001C` to `U+001F`.
-/

namespace PipeScript.Text

/-- Is the character blank? -/
def isBlank (c : Char) : Bool :=
  let n := c.val.toNat
  (0x09 ≤ n && n ≤ 0x0d) || (0x1c ≤ n && n ≤ 0x20) || n == 0x85 || n == 0xa0 || n == 0x1680
    || (0x2000 ≤ n && n ≤ 0x200a) || n == 0x2028 || n == 0x2029 || n == 0x202f || n == 0x205f
    || n == 0x3000

/-- The text without the leading and trailing characters of a class. -/
def stripWhere (p : Char → Bool) (s : List Char) : List Char :=
  ((s.dropWhile p).reverse.dropWhile p).reverse

/-- The text without leading and trailing blanks. -/
def trim (s : List Char) : List Char := stripWhere isBlank s

/-- Does the text hold nothing but blanks? -/
def isBlankText (s : List Char) : Bool := s.all isBlank

/-- Either kind of quotation mark. -/
def isQuoteMark (c : Char) : Bool := c == '"' || c == '\''

/-- The text without surrounding blanks and then without surrounding quotation marks. -/
def bare (s : List Char) : List Char := stripWhere isQuoteMark (trim s)

end PipeScript.Text
