/-!
# UTF-8

Texts are stored as UTF-8 bytes. Reading refuses every byte sequence that is not the encoding of a
text, and says which bytes are at fault: a byte that starts no character, a character whose next
byte does not continue it, or a character that the end of the data cuts short.
-/

namespace PipeScript.Text.Utf8

/-- What is wrong with a byte sequence. -/
inductive Flaw
  | badStart
  | badContinuation
  | cutShort
deriving DecidableEq, Repr

/-- The bytes from position `start` to before `stop`, the first of them `byte`, encode nothing. -/
structure Error where
  flaw : Flaw
  byte : UInt8
  start : Nat
  stop : Nat
deriving DecidableEq, Repr

/-- The bytes of one character. -/
def encodeChar (c : Char) : List UInt8 :=
  let n := c.val.toNat
  if n < 0x80 then [n.toUInt8]
  else if n < 0x800 then [(0xc0 + n / 64).toUInt8, (0x80 + n % 64).toUInt8]
  else if n < 0x10000 then
    [(0xe0 + n / 4096).toUInt8, (0x80 + n / 64 % 64).toUInt8, (0x80 + n % 64).toUInt8]
  else
    [(0xf0 + n / 262144).toUInt8, (0x80 + n / 4096 % 64).toUInt8, (0x80 + n / 64 % 64).toUInt8,
      (0x80 + n % 64).toUInt8]

/-- The bytes of a text. -/
def encode (s : List Char) : List UInt8 := s.flatMap encodeChar

/-- Does the byte continue a character? -/
def isTail (b : UInt8) : Bool := 0x80 ≤ b && b ≤ 0xbf

/-- May the byte stand second in a character that starts with `lead`? Sequences that encode a value
in more bytes than needed, a surrogate, or a value above the last character are refused here. -/
def isSecond (lead b : UInt8) : Bool :=
  isTail b && (lead != 0xe0 || 0xa0 ≤ b) && (lead != 0xed || b < 0xa0)
    && (lead != 0xf0 || 0x90 ≤ b) && (lead != 0xf4 || b < 0x90)

/-- The six low bits of a continuing byte. -/
def tailBits (b : UInt8) : Nat := b.toNat % 64

/-- Read the bytes that stand at position `pos`. -/
def decodeFrom (pos : Nat) : List UInt8 → Except Error (List Char)
  | [] => .ok []
  | a :: rest =>
    let fault (flaw : Flaw) (size : Nat) : Except Error (List Char) :=
      .error { flaw := flaw, byte := a, start := pos, stop := pos + size }
    if a < 0x80 then (decodeFrom (pos + 1) rest).map (Char.ofNat a.toNat :: ·)
    else if a < 0xc2 || 0xf5 ≤ a then fault .badStart 1
    else match rest with
      | [] => fault .cutShort 1
      | b :: rest =>
        if !isSecond a b then fault .badContinuation 1
        else if a < 0xe0 then
          (decodeFrom (pos + 2) rest).map (Char.ofNat (a.toNat % 32 * 64 + tailBits b) :: ·)
        else match rest with
          | [] => fault .cutShort 2
          | c :: rest =>
            if !isTail c then fault .badContinuation 2
            else if a < 0xf0 then
              (decodeFrom (pos + 3) rest).map
                (Char.ofNat (a.toNat % 16 * 4096 + tailBits b * 64 + tailBits c) :: ·)
            else match rest with
              | [] => fault .cutShort 3
              | d :: rest =>
                if !isTail d then fault .badContinuation 3
                else
                  (decodeFrom (pos + 4) rest).map
                    (Char.ofNat (a.toNat % 8 * 262144 + tailBits b * 4096 + tailBits c * 64
                      + tailBits d) :: ·)

/-- Read bytes as a text. -/
def decode (bytes : List UInt8) : Except Error (List Char) := decodeFrom 0 bytes

/-- How the flaw is named in a message. -/
def Flaw.message : Flaw → String
  | .badStart => "invalid start byte"
  | .badContinuation => "invalid continuation byte"
  | .cutShort => "unexpected end of data"

end PipeScript.Text.Utf8
