/-
Two digests of byte strings, executable: SHA-256 and 64-bit xxHash with seed
zero.  Both are written over lists and 32- or 64-bit words so that the kernel
can evaluate them on short inputs.
-/
import ShardProxy.Lib.ByteField

namespace Digest

open ByteField

section Sha256

def roundConstants : List UInt32 := [
  0x428a2f98, 0x71374491, 0xb5c0fbcf, 0xe9b5dba5, 0x3956c25b, 0x59f111f1, 0x923f82a4,
  0xab1c5ed5, 0xd807aa98, 0x12835b01, 0x243185be, 0x550c7dc3, 0x72be5d74, 0x80deb1fe,
  0x9bdc06a7, 0xc19bf174, 0xe49b69c1, 0xefbe4786, 0x0fc19dc6, 0x240ca1cc, 0x2de92c6f,
  0x4a7484aa, 0x5cb0a9dc, 0x76f988da, 0x983e5152, 0xa831c66d, 0xb00327c8, 0xbf597fc7,
  0xc6e00bf3, 0xd5a79147, 0x06ca6351, 0x14292967, 0x27b70a85, 0x2e1b2138, 0x4d2c6dfc,
  0x53380d13, 0x650a7354, 0x766a0abb, 0x81c2c92e, 0x92722c85, 0xa2bfe8a1, 0xa81a664b,
  0xc24b8b70, 0xc76c51a3, 0xd192e819, 0xd6990624, 0xf40e3585, 0x106aa070, 0x19a4c116,
  0x1e376c08, 0x2748774c, 0x34b0bcb5, 0x391c0cb3, 0x4ed8aa4a, 0x5b9cca4f, 0x682e6ff3,
  0x748f82ee, 0x78a5636f, 0x84c87814, 0x8cc70208, 0x90befffa, 0xa4506ceb, 0xbef9a3f7,
  0xc67178f2]

def rotr32 (x n : UInt32) : UInt32 :=
  (x >>> n) ||| (x <<< (32 - n))

/-- The eight working variables. -/
structure Working where
  a : UInt32
  b : UInt32
  c : UInt32
  d : UInt32
  e : UInt32
  f : UInt32
  g : UInt32
  h : UInt32

def initial : Working :=
  ⟨0x6a09e667, 0xbb67ae85, 0x3c6ef372, 0xa54ff53a, 0x510e527f, 0x9b05688c, 0x1f83d9ab,
    0x5be0cd19⟩

/-- One round, with the round constant and the message word already added. -/
def round (v : Working) (word : UInt32) : Working :=
  let sum1 := rotr32 v.e 6 ^^^ rotr32 v.e 11 ^^^ rotr32 v.e 25
  let choice := (v.e &&& v.f) ^^^ (~~~v.e &&& v.g)
  let temp := v.h + sum1 + choice + word
  let sum0 := rotr32 v.a 2 ^^^ rotr32 v.a 13 ^^^ rotr32 v.a 22
  let majority := (v.a &&& v.b) ^^^ (v.a &&& v.c) ^^^ (v.b &&& v.c)
  ⟨temp + (sum0 + majority), v.a, v.b, v.c, v.d + temp, v.e, v.f, v.g⟩

/-- The message schedule, from the window of the next sixteen words. -/
def schedule : Nat → List UInt32 → List UInt32
  | 0, _ => []
  | rounds + 1, window =>
      let w1 := window.getD 1 0
      let w14 := window.getD 14 0
      let small0 := rotr32 w1 7 ^^^ rotr32 w1 18 ^^^ (w1 >>> 3)
      let small1 := rotr32 w14 17 ^^^ rotr32 w14 19 ^^^ (w14 >>> 10)
      let word := window.getD 0 0 + small0 + window.getD 9 0 + small1
      window.headD 0 :: schedule rounds (window.tail ++ [word])

def compress (v : Working) (block : Bytes) : Working :=
  let words := schedule 64 ((List.range 16).map fun i => uint32At block (4 * i))
  let out := (List.zipWith (· + ·) roundConstants words).foldl round v
  ⟨v.a + out.a, v.b + out.b, v.c + out.c, v.d + out.d, v.e + out.e, v.f + out.f,
    v.g + out.g, v.h + out.h⟩

/-- The message with its padding and its length in bits. -/
def padded (message : Bytes) : Bytes :=
  message ++ [0x80] ++ List.replicate ((119 - message.length % 64) % 64) 0 ++
    spellNat 8 (8 * message.length)

def digestWords (message : Bytes) : Working :=
  let blocks := padded message
  (List.range (blocks.length / 64)).foldl
    (fun v i => compress v (field blocks (64 * i) 64)) initial

def sha256 (message : Bytes) : FixedBytes 32 :=
  let v := digestWords message
  FixedBytes.copy 32
    ([v.a, v.b, v.c, v.d, v.e, v.f, v.g, v.h].flatMap fun word => spellNat 4 word.toNat)

end Sha256

section XxHash

def prime1 : UInt64 := 0x9E3779B185EBCA87
def prime2 : UInt64 := 0xC2B2AE3D27D4EB4F
def prime3 : UInt64 := 0x165667B19E3779F9
def prime4 : UInt64 := 0x85EBCA77C2B2AE63
def prime5 : UInt64 := 0x27D4EB2F165667C5

def rotl64 (x n : UInt64) : UInt64 :=
  (x <<< n) ||| (x >>> (64 - n))

/-- The little-endian words at an offset. -/
def littleNat (raw : Bytes) (off width : Nat) : Nat :=
  readNat (field raw off width).reverse

def lane (acc input : UInt64) : UInt64 :=
  rotl64 (acc + input * prime2) 31 * prime1

def mergeLane (acc value : UInt64) : UInt64 :=
  (acc ^^^ lane 0 value) * prime1 + prime4

/-- One 32-byte stripe into the four accumulators. -/
def stripe (accs : UInt64 × UInt64 × UInt64 × UInt64) (raw : Bytes) (off : Nat) :
    UInt64 × UInt64 × UInt64 × UInt64 :=
  let word (i : Nat) := UInt64.ofNat (littleNat raw (off + 8 * i) 8)
  (lane accs.1 (word 0), lane accs.2.1 (word 1), lane accs.2.2.1 (word 2),
    lane accs.2.2.2 (word 3))

/-- The accumulators of a long input folded to one word, or the short start. -/
def gather (raw : Bytes) : UInt64 :=
  if raw.length < 32 then prime5
  else
    let (v1, v2, v3, v4) := (List.range (raw.length / 32)).foldl
      (fun accs i => stripe accs raw (32 * i)) (prime1 + prime2, prime2, 0, 0 - prime1)
    let joined := rotl64 v1 1 + rotl64 v2 7 + rotl64 v3 12 + rotl64 v4 18
    mergeLane (mergeLane (mergeLane (mergeLane joined v1) v2) v3) v4

def tail8 (acc : UInt64) (raw : Bytes) (off : Nat) : UInt64 :=
  rotl64 (acc ^^^ lane 0 (UInt64.ofNat (littleNat raw off 8))) 27 * prime1 + prime4

def tail4 (acc : UInt64) (raw : Bytes) (off : Nat) : UInt64 :=
  rotl64 (acc ^^^ UInt64.ofNat (littleNat raw off 4) * prime1) 23 * prime2 + prime3

def tail1 (acc : UInt64) (byte : UInt8) : UInt64 :=
  rotl64 (acc ^^^ byte.toUInt64 * prime5) 11 * prime1

def avalanche (acc : UInt64) : UInt64 :=
  let acc := (acc ^^^ (acc >>> 33)) * prime2
  let acc := (acc ^^^ (acc >>> 29)) * prime3
  acc ^^^ (acc >>> 32)

def xxh64 (raw : Bytes) : UInt64 :=
  let acc := gather raw + UInt64.ofNat raw.length
  let start := raw.length / 32 * 32
  let eights := raw.length % 32 / 8
  let acc := (List.range eights).foldl (fun acc i => tail8 acc raw (start + 8 * i)) acc
  let start := start + 8 * eights
  let fours := raw.length % 8 / 4
  let acc := (List.range fours).foldl (fun acc i => tail4 acc raw (start + 4 * i)) acc
  avalanche ((raw.drop (start + 4 * fours)).foldl tail1 acc)

end XxHash

end Digest
