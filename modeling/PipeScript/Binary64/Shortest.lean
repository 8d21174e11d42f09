import PipeScript.Binary64

/-!
# Shortest decimal text

A finite number is written with the fewest significant digits that read back as the same number; of
the numerals with that many digits the nearest one is taken. The value lies between two points of
each decimal grid, so the search looks at those two neighbours on the grid of one digit, then of
two, and so on; seventeen digits always suffice. How digits and exponent are laid out is a matter of
the format that is written, given by a `Layout`.
-/

namespace PipeScript.Binary64

/-- A decimal `digits · 10^exponent`, with the digits most significant first. -/
structure Decimal where
  digits : List Char
  exponent : Int
deriving DecidableEq, Repr

namespace Shortest

/-- Twice the distance from a quantity of units to the neighbours' midpoints, below and above, as
numbers of units. -/
def gaps (u : Nat) : Nat × Nat :=
  let above := twoPow (surplusBits u)
  let below := if u = twoPow u.log2 && 1 < above then above / 2 else above
  (below, above)

/-- Does the quantity `num / den` of units read back as `u` units? -/
def readsBack (u num den : Nat) : Bool :=
  let (below, above) := gaps u
  -- A midpoint itself goes to the even neighbour.
  let even := u / twoPow (surplusBits u) % 2 == 0
  let low := (2 * u - below) * den
  let high := (2 * u + above) * den
  if even then low ≤ 2 * num && 2 * num ≤ high else low < 2 * num && 2 * num < high

/-- The exponent of the leading decimal digit of a positive quantity of units. -/
def leadingExponent (u : Nat) : Int :=
  ((Nat.toDigits 10 (u * tenPow 400 / unitsPerOne)).length : Int) - 401

/-- The grid point of step `10^k` nearest to `u` units among those that read back. -/
def onGrid? (u : Nat) (k : Int) : Option Nat :=
  -- `u` units are `num / den` steps of the grid.
  let num := if k < 0 then u * tenPow k.natAbs else u
  let den := if k < 0 then unitsPerOne else unitsPerOne * tenPow k.toNat
  let q := num / den
  let back (n : Nat) : Bool :=
    if k < 0 then readsBack u (n * unitsPerOne) (tenPow k.natAbs)
    else readsBack u (n * unitsPerOne * tenPow k.toNat) 1
  let low := q != 0 && back q
  let high := back (q + 1)
  if low && high then
    let r := 2 * (num % den)
    some (if r < den then q else if den < r then q + 1 else q + q % 2)
  else if low then some q
  else if high then some (q + 1)
  else none

/-- The first grid with a hit, from `count` digits on. -/
def search (u : Nat) (lead : Int) : Nat → Nat → Decimal
  | count, 0 => ⟨[], lead - count⟩
  | count, tries + 1 =>
    let k := lead - count + 1
    match onGrid? u k with
    | some n => ⟨Nat.toDigits 10 n, k⟩
    | none => search u lead (count + 1) tries

/-- Drop zeros at the end, raising the exponent instead. -/
def dropZeros (d : Decimal) : Decimal :=
  let zeros := (d.digits.reverse.takeWhile (· == '0')).length
  ⟨d.digits.take (d.digits.length - zeros), d.exponent + zeros⟩

end Shortest

/-- The shortest decimal that reads back as a positive quantity of units. -/
def shortest (u : Nat) : Decimal :=
  Shortest.dropZeros (Shortest.search u (Shortest.leadingExponent u) 1 17)

/-- How a shortest decimal is laid out. -/
structure Layout where
  /-- Positional for leading digits with an exponent of at least this. -/
  leastPlain : Int
  /-- Positional for leading digits with an exponent below this. -/
  plainLimit : Int
  /-- Whether a positive exponent carries its sign. -/
  plusSign : Bool
  /-- The least number of digits of an exponent. -/
  exponentDigits : Nat
  /-- The text of an infinite number. -/
  infiniteText : Bool → String
  /-- The text of `nan`. -/
  nanText : String

/-- The characters of an exponent. -/
def Layout.exponentText (layout : Layout) (e : Int) : List Char :=
  let ds := Nat.toDigits 10 e.natAbs
  let sign := if e < 0 then ['-'] else if layout.plusSign then ['+'] else []
  'e' :: sign ++ List.replicate (layout.exponentDigits - ds.length) '0' ++ ds

/-- A positive decimal in its layout. -/
def Layout.decimalText (layout : Layout) (d : Decimal) : List Char :=
  let lead := d.exponent + d.digits.length - 1
  if layout.leastPlain ≤ lead && lead < layout.plainLimit then
    if lead < 0 then '0' :: '.' :: List.replicate (lead.natAbs - 1) '0' ++ d.digits
    else
      let whole := lead.toNat + 1
      if d.digits.length ≤ whole then
        d.digits ++ List.replicate (whole - d.digits.length) '0' ++ ['.', '0']
      else d.digits.take whole ++ '.' :: d.digits.drop whole
  else
    match d.digits with
    | [c] => c :: layout.exponentText lead
    | c :: rest => c :: '.' :: rest ++ layout.exponentText lead
    | [] => []

/-- The shortest text of a number in a layout. -/
def Layout.text (layout : Layout) : Binary64 → String
  | nan _ => layout.nanText
  | infinite s => layout.infiniteText s
  | finite s u =>
    let body := if u = 0 then ['0', '.', '0'] else layout.decimalText (shortest u)
    String.ofList (if s then '-' :: body else body)

/-- How a number is shown as a value: positional from `1e-4` to below `1e16`. -/
def displayLayout : Layout where
  leastPlain := -4
  plainLimit := 16
  plusSign := true
  exponentDigits := 2
  infiniteText s := if s then "-inf" else "inf"
  nanText := "nan"

/-- How a number is written in a JSON record: positional from `1e-5` to below `1e16`. -/
def recordLayout : Layout where
  leastPlain := -5
  plainLimit := 16
  plusSign := true
  exponentDigits := 1
  infiniteText _ := "null"
  nanText := "null"

end PipeScript.Binary64
