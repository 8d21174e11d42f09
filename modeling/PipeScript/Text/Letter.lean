import PipeScript.Text.Bounds
import PipeScript.Text.Letter.Table

/-!
# Letters, numbers and word characters

Letters and numbers of all scripts, and the word characters made of them and the underscore. A
keyword ends where no word character follows.
-/

namespace PipeScript.Text

/-- Is the character a letter or a number of any script? -/
def isAlphanumeric (c : Char) : Bool :=
  let n := c.val.toNat
  if n < 128 then c.isAlphanum else inBounds alphanumericBounds n

/-- Is the character part of a word? -/
def isWord (c : Char) : Bool := c == '_' || isAlphanumeric c

end PipeScript.Text
