import Moo.Text.Quoted

/-!
# SHA-256

A message is padded to blocks of 64 bytes; each block is expanded to a schedule of 64 words and
mixed into a state of eight words. The digest is the state in hexadecimal, so it always has 64
lower-case hexadecimal digits.

The hash of a source is the digest of its bytes in UTF-8. Sources are texts of Unicode characters,
which have such bytes; half of a surrogate pair has none, and there would be no hash.
-/

namespace Moo.Digest

structure State where
  a : UInt32
  b : UInt32
  c : UInt32
  d : UInt32
  e : UInt32
  f : UInt32
  g : UInt32
  h : UInt32
  deriving DecidableEq, Repr

def State.start : State :=
  ⟨0x6a09e667, 0xbb67ae85, 0x3c6ef372, 0xa54ff53a, 0x510e527f, 0x9b05688c, 0x1f83d9ab, 0x5be0cd19⟩

def roundConstants : List UInt32 :=
  [0x428a2f98, 0x71374491, 0xb5c0fbcf, 0xe9b5dba5, 0x3956c25b, 0x59f111f1, 0x923f82a4, 0xab1c5ed5,
   0xd807aa98, 0x12835b01, 0x243185be, 0x550c7dc3, 0x72be5d74, 0x80deb1fe, 0x9bdc06a7, 0xc19bf174,
   0xe49b69c1, 0xefbe4786, 0x0fc19dc6, 0x240ca1cc, 0x2de92c6f, 0x4a7484aa, 0x5cb0a9dc, 0x76f988da,
   0x983e5152, 0xa831c66d, 0xb00327c8, 0xbf597fc7, 0xc6e00bf3, 0xd5a79147, 0x06ca6351, 0x14292967,
   0x27b70a85, 0x2e1b2138, 0x4d2c6dfc, 0x53380d13, 0x650a7354, 0x766a0abb, 0x81c2c92e, 0x92722c85,
   0xa2bfe8a1, 0xa81a664b, 0xc24b8b70, 0xc76c51a3, 0xd192e819, 0xd6990624, 0xf40e3585, 0x106aa070,
   0x19a4c116, 0x1e376c08, 0x2748774c, 0x34b0bcb5, 0x391c0cb3, 0x4ed8aa4a, 0x5b9cca4f, 0x682e6ff3,
   0x748f82ee, 0x78a5636f, 0x84c87814, 0x8cc70208, 0x90befffa, 0xa4506ceb, 0xbef9a3f7, 0xc67178f2]

def rotate (x n : UInt32) : UInt32 := (x >>> n) ||| (x <<< (32 - n))

/-- Extend a schedule by `count` words, each made from four of the sixteen before it. -/
def extend : (count : Nat) → Array UInt32 → Array UInt32
  | 0, ws => ws
  | count + 1, ws =>
    let at' (back : Nat) : UInt32 := ws.getD (ws.size - back) 0
    let x := at' 15
    let y := at' 2
    let s0 := rotate x 7 ^^^ rotate x 18 ^^^ (x >>> 3)
    let s1 := rotate y 17 ^^^ rotate y 19 ^^^ (y >>> 10)
    extend count (ws.push (at' 16 + s0 + at' 7 + s1))

def round (s : State) (k w : UInt32) : State :=
  let s1 := rotate s.e 6 ^^^ rotate s.e 11 ^^^ rotate s.e 25
  let choice := (s.e &&& s.f) ^^^ (~~~s.e &&& s.g)
  let t1 := s.h + s1 + choice + k + w
  let s0 := rotate s.a 2 ^^^ rotate s.a 13 ^^^ rotate s.a 22
  let majority := (s.a &&& s.b) ^^^ (s.a &&& s.c) ^^^ (s.b &&& s.c)
  ⟨t1 + (s0 + majority), s.a, s.b, s.c, s.d + t1, s.e, s.f, s.g⟩

/-- Mix the sixteen words of a block into the state. -/
def absorb (s : State) (block : List UInt32) : State :=
  let schedule := (extend 48 block.toArray).toList
  let t := (roundConstants.zip schedule).foldl (fun s (k, w) => round s k w) s
  ⟨s.a + t.a, s.b + t.b, s.c + t.c, s.d + t.d, s.e + t.e, s.f + t.f, s.g + t.g, s.h + t.h⟩

/-- The lowest `count` bytes of a number, most significant first. -/
def bytes : (count : Nat) → (n : Nat) → List UInt8
  | 0, _ => []
  | count + 1, n => bytes count (n / 256) ++ [UInt8.ofNat n]

/-- The message followed by a one bit, zeros up to 8 bytes short of a whole block, and its length in
bits. -/
def pad (message : List UInt8) : List UInt8 :=
  let size := message.length
  message ++ 0x80 :: (List.replicate ((119 - size % 64) % 64) 0 ++ bytes 8 (8 * size))

def words : List UInt8 → List UInt32
  | a :: b :: c :: d :: rest =>
    (a.toUInt32 <<< 24 ||| b.toUInt32 <<< 16 ||| c.toUInt32 <<< 8 ||| d.toUInt32) :: words rest
  | _ => []

/-- Mix in one block after the other; `count` bounds the blocks. -/
def absorbAll : (count : Nat) → State → List UInt32 → State
  | 0, s, _ => s
  | count + 1, s, ws =>
    if ws.isEmpty then s else absorbAll count (absorb s (ws.take 16)) (ws.drop 16)

def State.toHex (s : State) : List Char :=
  [s.a, s.b, s.c, s.d, s.e, s.f, s.g, s.h].flatMap fun w => Text.hex 8 w.toNat

/-- The SHA-256 digest of bytes, in hexadecimal. -/
def sha256 (message : List UInt8) : String :=
  let ws := words (pad message)
  String.ofList (absorbAll ws.length State.start ws).toHex

theorem length_toHex (s : State) : s.toHex.length = 64 := by
  have h : ∀ w n, (Text.hex w n).length = w := by
    intro w
    induction w with
    | zero => intro n; rfl
    | succ w ih => intro n; simp [Text.hex, ih]
  simp [State.toHex, h]

end Moo.Digest
