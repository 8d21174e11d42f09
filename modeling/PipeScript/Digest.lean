import PipeScript.Text.Quoted

/-!
# Digests

The 256-bit digest of FIPS 180-4, by which cache files are named. A message is padded to whole
blocks of 64 bytes; each block is expanded to 64 words and mixed into eight words of state.
-/

namespace PipeScript.Digest

/-- The words mixed in at each of the 64 rounds: the first bits of the cube roots of the primes. -/
def roundWords : List UInt32 := [
  0x428a2f98, 0x71374491, 0xb5c0fbcf, 0xe9b5dba5, 0x3956c25b, 0x59f111f1, 0x923f82a4, 0xab1c5ed5,
  0xd807aa98, 0x12835b01, 0x243185be, 0x550c7dc3, 0x72be5d74, 0x80deb1fe, 0x9bdc06a7, 0xc19bf174,
  0xe49b69c1, 0xefbe4786, 0x0fc19dc6, 0x240ca1cc, 0x2de92c6f, 0x4a7484aa, 0x5cb0a9dc, 0x76f988da,
  0x983e5152, 0xa831c66d, 0xb00327c8, 0xbf597fc7, 0xc6e00bf3, 0xd5a79147, 0x06ca6351, 0x14292967,
  0x27b70a85, 0x2e1b2138, 0x4d2c6dfc, 0x53380d13, 0x650a7354, 0x766a0abb, 0x81c2c92e, 0x92722c85,
  0xa2bfe8a1, 0xa81a664b, 0xc24b8b70, 0xc76c51a3, 0xd192e819, 0xd6990624, 0xf40e3585, 0x106aa070,
  0x19a4c116, 0x1e376c08, 0x2748774c, 0x34b0bcb5, 0x391c0cb3, 0x4ed8aa4a, 0x5b9cca4f, 0x682e6ff3,
  0x748f82ee, 0x78a5636f, 0x84c87814, 0x8cc70208, 0x90befffa, 0xa4506ceb, 0xbef9a3f7, 0xc67178f2]

/-- The state before the first block: the first bits of the square roots of the primes. -/
def initialState : List UInt32 := [
  0x6a09e667, 0xbb67ae85, 0x3c6ef372, 0xa54ff53a, 0x510e527f, 0x9b05688c, 0x1f83d9ab, 0x5be0cd19]

/-- A word rotated to the right. -/
def rotate (n : UInt32) (x : UInt32) : UInt32 := (x >>> n) ||| (x <<< (32 - n))

/-- The bytes of a number, most significant first. -/
def bytesOf (count n : Nat) : List UInt8 :=
  match count with
  | 0 => []
  | c + 1 => bytesOf c (n / 256) ++ [(n % 256).toUInt8]

/-- The message with the end mark, zeros up to whole blocks, and its length in bits. -/
def padded (message : List UInt8) : List UInt8 :=
  let n := message.length
  message ++ 0x80 :: List.replicate ((119 - n % 64) % 64) 0 ++ bytesOf 8 (8 * n)

/-- Bytes as words, most significant byte first. -/
def wordsOf : List UInt8 → List UInt32
  | a :: b :: c :: d :: rest =>
    ((a.toUInt32 <<< 24) ||| (b.toUInt32 <<< 16) ||| (c.toUInt32 <<< 8) ||| d.toUInt32)
      :: wordsOf rest
  | _ => []

/-- The words in groups of sixteen; `count` bounds the number of groups. -/
def blocksOf : Nat → List UInt32 → List (List UInt32)
  | 0, _ => []
  | count + 1, ws => if ws.isEmpty then [] else ws.take 16 :: blocksOf count (ws.drop 16)

/-- The next word of the expansion, from those before it, the last one first. -/
def nextWord (before : List UInt32) : UInt32 :=
  let w2 := before.getD 1 0
  let w7 := before.getD 6 0
  let w15 := before.getD 14 0
  let w16 := before.getD 15 0
  let s0 := rotate 7 w15 ^^^ rotate 18 w15 ^^^ (w15 >>> 3)
  let s1 := rotate 17 w2 ^^^ rotate 19 w2 ^^^ (w2 >>> 10)
  w16 + s0 + w7 + s1

/-- The words of a block, the last one first, with `count` more words in front. -/
def expand : Nat → List UInt32 → List UInt32
  | 0, ws => ws
  | count + 1, ws => expand count (nextWord ws :: ws)

/-- One round: mix a word of the block and a round word into the state. -/
def round (state : List UInt32) (w : UInt32 × UInt32) : List UInt32 :=
  match state with
  | [a, b, c, d, e, f, g, h] =>
    let s1 := rotate 6 e ^^^ rotate 11 e ^^^ rotate 25 e
    let choice := (e &&& f) ^^^ ((~~~ e) &&& g)
    let t1 := h + s1 + choice + w.1 + w.2
    let s0 := rotate 2 a ^^^ rotate 13 a ^^^ rotate 22 a
    let majority := (a &&& b) ^^^ (a &&& c) ^^^ (b &&& c)
    [t1 + s0 + majority, a, b, c, d + t1, e, f, g]
  | other => other

/-- Mix a block into the state. -/
def compress (state block : List UInt32) : List UInt32 :=
  let ws := (expand 48 block.reverse).reverse
  List.zipWith (· + ·) state ((roundWords.zip ws).foldl round state)

/-- The eight words of a message's digest. -/
def words (message : List UInt8) : List UInt32 :=
  let ws := wordsOf (padded message)
  (blocksOf ws.length ws).foldl compress initialState

/-- The digest in 64 hexadecimal digits. -/
def hex (message : List UInt8) : List Char :=
  (words message).flatMap fun w => Text.hexDigits 8 w.toNat

end PipeScript.Digest
