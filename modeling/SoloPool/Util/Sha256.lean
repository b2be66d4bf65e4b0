import SoloPool.Util.Bytes

/-! The portable transform of the vendored SHA-256 implementation. -/

namespace erikslund.util.sha256

def Ch (x y z : UInt32) : UInt32 := z ^^^ (x &&& (y ^^^ z))

def Maj (x y z : UInt32) : UInt32 := (x &&& y) ||| (z &&& (x ||| y))

def rotr (x n : UInt32) : UInt32 := x >>> n ||| x <<< (32 - n)

def Sigma0 (x : UInt32) : UInt32 := rotr x 2 ^^^ rotr x 13 ^^^ rotr x 22

def Sigma1 (x : UInt32) : UInt32 := rotr x 6 ^^^ rotr x 11 ^^^ rotr x 25

def sigma0 (x : UInt32) : UInt32 := rotr x 7 ^^^ rotr x 18 ^^^ x >>> 3

def sigma1 (x : UInt32) : UInt32 := rotr x 17 ^^^ rotr x 19 ^^^ x >>> 10

structure State where
  a : UInt32
  b : UInt32
  c : UInt32
  d : UInt32
  e : UInt32
  f : UInt32
  g : UInt32
  h : UInt32

def Initialize : State :=
  ⟨0x6a09e667, 0xbb67ae85, 0x3c6ef372, 0xa54ff53a, 0x510e527f, 0x9b05688c, 0x1f83d9ab, 0x5be0cd19⟩

/-- One round; the register renaming between consecutive calls is part of it. -/
def Round (s : State) (k : UInt32) : State :=
  let t1 := s.h + Sigma1 s.e + Ch s.e s.f s.g + k
  let t2 := Sigma0 s.a + Maj s.a s.b s.c
  ⟨t1 + t2, s.a, s.b, s.c, s.d + t1, s.e, s.f, s.g⟩

def roundConstants : List UInt32 := [
  0x428a2f98, 0x71374491, 0xb5c0fbcf, 0xe9b5dba5, 0x3956c25b, 0x59f111f1, 0x923f82a4, 0xab1c5ed5,
  0xd807aa98, 0x12835b01, 0x243185be, 0x550c7dc3, 0x72be5d74, 0x80deb1fe, 0x9bdc06a7, 0xc19bf174,
  0xe49b69c1, 0xefbe4786, 0x0fc19dc6, 0x240ca1cc, 0x2de92c6f, 0x4a7484aa, 0x5cb0a9dc, 0x76f988da,
  0x983e5152, 0xa831c66d, 0xb00327c8, 0xbf597fc7, 0xc6e00bf3, 0xd5a79147, 0x06ca6351, 0x14292967,
  0x27b70a85, 0x2e1b2138, 0x4d2c6dfc, 0x53380d13, 0x650a7354, 0x766a0abb, 0x81c2c92e, 0x92722c85,
  0xa2bfe8a1, 0xa81a664b, 0xc24b8b70, 0xc76c51a3, 0xd192e819, 0xd6990624, 0xf40e3585, 0x106aa070,
  0x19a4c116, 0x1e376c08, 0x2748774c, 0x34b0bcb5, 0x391c0cb3, 0x4ed8aa4a, 0x5b9cca4f, 0x682e6ff3,
  0x748f82ee, 0x78a5636f, 0x84c87814, 0x8cc70208, 0x90befffa, 0xa4506ceb, 0xbef9a3f7, 0xc67178f2]

/-- The message schedule, produced from the sixteen words still needed. -/
def schedule : Nat → List UInt32 → List UInt32
  | 0, _ => []
  | n + 1, w =>
    w.headD 0 :: schedule n (w.tail ++ [w.headD 0 + (sigma1 (w.getD 14 0) + w.getD 9 0 + sigma0 (w.getD 1 0))])

/-- `ReadBE32` over a whole chunk. -/
def words : Bytes → List UInt32
  | a :: b :: c :: d :: rest =>
    (a.toUInt32 <<< 24 ||| b.toUInt32 <<< 16 ||| c.toUInt32 <<< 8 ||| d.toUInt32) :: words rest
  | _ => []

def TransformBlock (s : State) (chunk : Bytes) : State :=
  let r := (List.zipWith (· + ·) roundConstants (schedule 64 (words chunk))).foldl Round s
  ⟨s.a + r.a, s.b + r.b, s.c + r.c, s.d + r.d, s.e + r.e, s.f + r.f, s.g + r.g, s.h + r.h⟩

def Transform : Nat → State → Bytes → State
  | 0, s, _ => s
  | blocks + 1, s, data => Transform blocks (TransformBlock s (data.take 64)) (data.drop 64)

/-- The bytes `Finalize` appends: `0x80`, zeros up to 56 modulo 64, and the bit length. -/
def padding (size : Nat) : Bytes :=
  0x80 :: List.replicate ((119 - size % 64) % 64) 0 ++ Radix.be 8 (size * 8)

def State.output (s : State) : Hash256 :=
  ⟨[s.a, s.b, s.c, s.d, s.e, s.f, s.g, s.h].flatMap (fun word => Radix.be 4 word.toNat), by simp⟩

end erikslund.util.sha256

namespace erikslund.util

def sha256 (data : Bytes) : Hash256 :=
  let padded := data ++ sha256.padding data.length
  (sha256.Transform (padded.length / 64) sha256.Initialize padded).output

def sha256d (data : Bytes) : Hash256 := sha256 (sha256 data).val

example : sha256 [0x61, 0x62, 0x63] = ⟨[
    0xba, 0x78, 0x16, 0xbf, 0x8f, 0x01, 0xcf, 0xea, 0x41, 0x41, 0x40, 0xde, 0x5d, 0xae, 0x22, 0x23,
    0xb0, 0x03, 0x61, 0xa3, 0x96, 0x17, 0x7a, 0x9c, 0xb4, 0x10, 0xff, 0x61, 0xf2, 0x00, 0x15, 0xad], rfl⟩ := by
  decide +kernel

end erikslund.util
