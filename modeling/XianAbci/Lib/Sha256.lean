import Mathlib

/-!
# SHA-256

`sha256` over byte lists, following FIPS 180-4, with 32-bit words as `Nat`s below `2 ^ 32`. No proof
looks inside it: what is needed of the hash is stated as a hypothesis on the inputs that occur. It
is written to be evaluated by the kernel, so that a digest can be computed on a concrete input.
-/

abbrev Bytes := List UInt8

namespace Sha256

abbrev Word := Nat

def wordMod : Nat := 4294967296

def rotr (x : Word) (n : Nat) : Word := (x >>> n) ||| ((x <<< (32 - n)) % wordMod)

def addWord (x y : Word) : Word := (x + y) % wordMod

def roundConstants : List Word :=
  [0x428a2f98, 0x71374491, 0xb5c0fbcf, 0xe9b5dba5, 0x3956c25b, 0x59f111f1, 0x923f82a4, 0xab1c5ed5,
   0xd807aa98, 0x12835b01, 0x243185be, 0x550c7dc3, 0x72be5d74, 0x80deb1fe, 0x9bdc06a7, 0xc19bf174,
   0xe49b69c1, 0xefbe4786, 0x0fc19dc6, 0x240ca1cc, 0x2de92c6f, 0x4a7484aa, 0x5cb0a9dc, 0x76f988da,
   0x983e5152, 0xa831c66d, 0xb00327c8, 0xbf597fc7, 0xc6e00bf3, 0xd5a79147, 0x06ca6351, 0x14292967,
   0x27b70a85, 0x2e1b2138, 0x4d2c6dfc, 0x53380d13, 0x650a7354, 0x766a0abb, 0x81c2c92e, 0x92722c85,
   0xa2bfe8a1, 0xa81a664b, 0xc24b8b70, 0xc76c51a3, 0xd192e819, 0xd6990624, 0xf40e3585, 0x106aa070,
   0x19a4c116, 0x1e376c08, 0x2748774c, 0x34b0bcb5, 0x391c0cb3, 0x4ed8aa4a, 0x5b9cca4f, 0x682e6ff3,
   0x748f82ee, 0x78a5636f, 0x84c87814, 0x8cc70208, 0x90befffa, 0xa4506ceb, 0xbef9a3f7, 0xc67178f2]

/-- The eight chaining words. -/
structure Chain where
  (a b c d e f g h : Word)

def initial : Chain :=
  ⟨0x6a09e667, 0xbb67ae85, 0x3c6ef372, 0xa54ff53a, 0x510e527f, 0x9b05688c, 0x1f83d9ab, 0x5be0cd19⟩

def smallSigma0 (x : Word) : Word := rotr x 7 ^^^ rotr x 18 ^^^ (x >>> 3)

def smallSigma1 (x : Word) : Word := rotr x 17 ^^^ rotr x 19 ^^^ (x >>> 10)

def bigSigma0 (x : Word) : Word := rotr x 2 ^^^ rotr x 13 ^^^ rotr x 22

def bigSigma1 (x : Word) : Word := rotr x 6 ^^^ rotr x 11 ^^^ rotr x 25

def choose (x y z : Word) : Word := (x &&& y) ^^^ ((x ^^^ 0xffffffff) &&& z)

def majority (x y z : Word) : Word := (x &&& y) ^^^ (x &&& z) ^^^ (y &&& z)

/-- `n` further words of the message schedule, the latest word first. -/
def extend : Nat → List Word → List Word
  | 0, ws => ws
  | n + 1, ws =>
    extend n (addWord (addWord (smallSigma1 (ws.getD 1 0)) (ws.getD 6 0))
      (addWord (smallSigma0 (ws.getD 14 0)) (ws.getD 15 0)) :: ws)

def schedule (block : List Word) : List Word := (extend 48 block.reverse).reverse

def round (s : Chain) (k w : Word) : Chain :=
  let t1 := addWord (addWord (addWord s.h (bigSigma1 s.e)) (addWord (choose s.e s.f s.g) k)) w
  let t2 := addWord (bigSigma0 s.a) (majority s.a s.b s.c)
  ⟨addWord t1 t2, s.a, s.b, s.c, addWord s.d t1, s.e, s.f, s.g⟩

def Chain.add (s t : Chain) : Chain :=
  ⟨addWord s.a t.a, addWord s.b t.b, addWord s.c t.c, addWord s.d t.d,
   addWord s.e t.e, addWord s.f t.f, addWord s.g t.g, addWord s.h t.h⟩

def compress (s : Chain) (block : List Word) : Chain :=
  s.add ((roundConstants.zip (schedule block)).foldl (fun s p => round s p.1 p.2) s)

end Sha256

/-- `x.to_bytes(n, "big")`, for `x` below `256 ^ n`. -/
def toBytesBig : Nat → Nat → Bytes
  | 0, _ => []
  | n + 1, x => UInt8.ofNat (x >>> (8 * n)) :: toBytesBig n x

/-- `int.from_bytes(b, "big")`. -/
def fromBytesBig (b : Bytes) : Nat := b.foldl (fun n x => 256 * n + x.toNat) 0

namespace Sha256

def pad (msg : Bytes) : Bytes :=
  msg ++ 0x80 :: List.replicate ((119 - msg.length % 64) % 64) 0 ++ toBytesBig 8 (8 * msg.length)

def words : Bytes → List Word
  | a :: b :: c :: d :: rest =>
    (a.toNat <<< 24 ||| b.toNat <<< 16 ||| c.toNat <<< 8 ||| d.toNat) :: words rest
  | _ => []

def blocks : Nat → List Word → List (List Word)
  | 0, _ => []
  | n + 1, ws => ws.take 16 :: blocks n (ws.drop 16)

def Chain.digest (s : Chain) : Bytes :=
  [s.a, s.b, s.c, s.d, s.e, s.f, s.g, s.h].flatMap (toBytesBig 4)

end Sha256

open Sha256 in
/-- `hashlib.sha256(msg).digest()`. -/
@[irreducible] def sha256 (msg : Bytes) : Bytes :=
  let ws := words (pad msg)
  ((blocks (ws.length / 16) ws).foldl compress initial).digest

example : sha256 [0x61, 0x62, 0x63] =
    [0xba, 0x78, 0x16, 0xbf, 0x8f, 0x01, 0xcf, 0xea, 0x41, 0x41, 0x40, 0xde, 0x5d, 0xae, 0x22, 0x23,
     0xb0, 0x03, 0x61, 0xa3, 0x96, 0x17, 0x7a, 0x9c, 0xb4, 0x10, 0xff, 0x61, 0xf2, 0x00, 0x15, 0xad] := by
  decide +kernel
