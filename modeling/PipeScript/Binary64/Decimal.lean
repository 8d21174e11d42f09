import PipeScript.Binary64
import PipeScript.Text.Blank
import PipeScript.Text.Digit

/-!
# Reading decimal numerals

A numeral is an optional sign, digits with an optional point among or beside them, and an optional
power of ten; the names `inf`, `infinity` and `nan` are numerals too, in any letter case. The digits
may be those of any script, single underscores may stand between two digits, and blanks around the
numeral are passed over. The value is the number nearest to the numeral.
-/

namespace PipeScript.Binary64

open PipeScript.Text

/-- May the character stand beside a numeral? The information separators may not. -/
def isMargin (c : Char) : Bool := isBlank c && !(0x1c ≤ c.val.toNat && c.val.toNat ≤ 0x1f)

/-- The character with a decimal digit of another script replaced by the ASCII one. -/
def asciiDigit (c : Char) : Char :=
  match digitValue? c with
  | some d => Char.ofNat (48 + d)
  | none => c

/-- Does each underscore stand between two digits? The flag says whether a digit stands before. -/
def underscoresOk (afterDigit : Bool) : List Char → Bool
  | [] => true
  | ['_'] => false
  | '_' :: c :: rest => afterDigit && isAsciiDigit c && underscoresOk true rest
  | c :: rest => underscoresOk (isAsciiDigit c) rest

/-- A numeral's characters, ready to be read: trimmed, in ASCII digits and without underscores. -/
def plainNumeral? (s : List Char) : Option (List Char) :=
  let t := (stripWhere isMargin s).map asciiDigit
  if underscoresOk false t then some (t.filter (· != '_')) else none

/-- The sign, and what follows it. -/
def readSign : List Char → Bool × List Char
  | '-' :: rest => (true, rest)
  | '+' :: rest => (false, rest)
  | rest => (false, rest)

/-- The number that a row of ASCII digits spells. -/
def digitsValue (ds : List Char) : Nat := ds.foldl (fun n d => n * 10 + (d.toNat - 48)) 0

/-- The power of ten, if one is written well up to the end of the text. -/
def readExponent? : List Char → Option Int
  | [] => some 0
  | c :: rest =>
    if c == 'e' || c == 'E' then
      let (negative, ds) := readSign rest
      if ds.isEmpty || !ds.all isAsciiDigit then none
      else some (if negative then -(digitsValue ds : Int) else digitsValue ds)
    else none

/-- The number nearest to `m · 10^e`. Exponents far outside the format are decided without computing
the power. -/
def ofDecimal (negative : Bool) (m : Nat) (e : Int) : Binary64 :=
  if m = 0 then finite negative 0
  else if e < 0 then
    let k := e.natAbs
    -- A quotient below a quarter of a unit rounds to zero.
    if m.log2 + 1080 < 3 * k then finite negative 0 else ofRatio negative m (tenPow k)
  else if 400 < e then infinite negative
  else ofRatio negative (m * tenPow e.toNat) 1

/-- The number that an unsigned numeral in ASCII digits means. -/
def readMagnitude? (negative : Bool) (s : List Char) : Option Binary64 :=
  let word := s.map Char.toLower
  if word == "inf".toList || word == "infinity".toList then some (infinite negative)
  else if word == "nan".toList then some (nan negative)
  else
    let whole := s.takeWhile isAsciiDigit
    let rest := s.dropWhile isAsciiDigit
    let fraction := match rest with
      | '.' :: r => r.takeWhile isAsciiDigit
      | _ => []
    let tail := match rest with
      | '.' :: r => r.dropWhile isAsciiDigit
      | r => r
    if whole.isEmpty && fraction.isEmpty then none
    else (readExponent? tail).map fun e =>
      ofDecimal negative (digitsValue (whole ++ fraction)) (e - fraction.length)

/-- The number that a numeral in ASCII digits means, with nothing beside it and no underscores. -/
def readPlain? (s : List Char) : Option Binary64 := readMagnitude? (readSign s).1 (readSign s).2

/-- The number that a numeral means. -/
def read? (s : List Char) : Option Binary64 := (plainNumeral? s).bind readPlain?

/-- The number that a string means as a numeral. -/
def ofString? (s : String) : Option Binary64 := read? s.toList

end PipeScript.Binary64
