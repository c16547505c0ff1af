/- ID: Substrate/Library/Sha2
   digest: SHA-256 on lists of bytes, on natural numbers below 2^32 so that it can be evaluated. -/

import Substrate.Library.Framing

set_option autoImplicit false
set_option relaxedAutoImplicit false

namespace Substrate.Library.Sha2

open Substrate.Library.Framing (beBytes)

/-- The first 32 bits of the fractional parts of the cube roots of the first 64 primes. -/
def roundConstants : List Nat :=
  [0x428a2f98, 0x71374491, 0xb5c0fbcf, 0xe9b5dba5, 0x3956c25b, 0x59f111f1,
   0x923f82a4, 0xab1c5ed5, 0xd807aa98, 0x12835b01, 0x243185be, 0x550c7dc3,
   0x72be5d74, 0x80deb1fe, 0x9bdc06a7, 0xc19bf174, 0xe49b69c1, 0xefbe4786,
   0x0fc19dc6, 0x240ca1cc, 0x2de92c6f, 0x4a7484aa, 0x5cb0a9dc, 0x76f988da,
   0x983e5152, 0xa831c66d, 0xb00327c8, 0xbf597fc7, 0xc6e00bf3, 0xd5a79147,
   0x06ca6351, 0x14292967, 0x27b70a85, 0x2e1b2138, 0x4d2c6dfc, 0x53380d13,
   0x650a7354, 0x766a0abb, 0x81c2c92e, 0x92722c85, 0xa2bfe8a1, 0xa81a664b,
   0xc24b8b70, 0xc76c51a3, 0xd192e819, 0xd6990624, 0xf40e3585, 0x106aa070,
   0x19a4c116, 0x1e376c08, 0x2748774c, 0x34b0bcb5, 0x391c0cb3, 0x4ed8aa4a,
   0x5b9cca4f, 0x682e6ff3, 0x748f82ee, 0x78a5636f, 0x84c87814, 0x8cc70208,
   0x90befffa, 0xa4506ceb, 0xbef9a3f7, 0xc67178f2]

/-- The first 32 bits of the fractional parts of the square roots of the first 8 primes. -/
def initial : List Nat :=
  [0x6a09e667, 0xbb67ae85, 0x3c6ef372, 0xa54ff53a,
   0x510e527f, 0x9b05688c, 0x1f83d9ab, 0x5be0cd19]

def word (n : Nat) : Nat := n % 4294967296

def rotr (n x : Nat) : Nat := word ((x >>> n) ||| (x <<< (32 - n)))

def smallSigma0 (x : Nat) : Nat := rotr 7 x ^^^ rotr 18 x ^^^ (x >>> 3)

def smallSigma1 (x : Nat) : Nat := rotr 17 x ^^^ rotr 19 x ^^^ (x >>> 10)

def bigSigma0 (x : Nat) : Nat := rotr 2 x ^^^ rotr 13 x ^^^ rotr 22 x

def bigSigma1 (x : Nat) : Nat := rotr 6 x ^^^ rotr 11 x ^^^ rotr 25 x

def choose (x y z : Nat) : Nat := (x &&& y) ^^^ ((4294967295 - x) &&& z)

def majority (x y z : Nat) : Nat := (x &&& y) ^^^ (x &&& z) ^^^ (y &&& z)

/-- The next word of the message schedule from the last sixteen. -/
def nextWord (window : List Nat) : Nat :=
  word (smallSigma1 (window.getD 14 0) + window.getD 9 0 + smallSigma0 (window.getD 1 0) +
    window.getD 0 0)

/-- The rounds of one block: eight working words and the last sixteen schedule words. -/
def rounds : List Nat → List Nat → List Nat → List Nat
  | [], _, working => working
  | k :: ks, window, [a, b, c, d, e, f, g, h] =>
      let t1 := h + bigSigma1 e + choose e f g + k + window.getD 0 0
      let t2 := bigSigma0 a + majority a b c
      rounds ks (window.tail ++ [nextWord window]) [word (t1 + t2), a, b, c, word (d + t1), e, f, g]
  | _ :: _, _, working => working

def compress (state block : List Nat) : List Nat :=
  List.zipWith (fun x y => word (x + y)) state (rounds roundConstants block state)

/-- Four bytes to a word, most significant first. -/
def toWords : List UInt8 → List Nat
  | a :: b :: c :: d :: rest =>
      (a.toNat * 16777216 + b.toNat * 65536 + c.toNat * 256 + d.toNat) :: toWords rest
  | _ => []

/-- The message, a one bit, zeros up to a block boundary and the length in bits. -/
def pad (message : List UInt8) : List UInt8 :=
  message ++ (0x80 :: List.replicate ((119 - message.length % 64) % 64) 0) ++
    beBytes 8 (8 * message.length)

/-- Compress block after block. -/
def absorb : Nat → List Nat → List Nat → List Nat
  | 0, state, _ => state
  | blocks + 1, state, words => absorb blocks (compress state (words.take 16)) (words.drop 16)

def sha256Words (message : List UInt8) : List Nat :=
  let words := toWords (pad message)
  absorb (words.length / 16) initial words

def sha256 (message : List UInt8) : Vector UInt8 32 :=
  let bytes := (sha256Words message).flatMap (beBytes 4)
  Vector.ofFn fun i => bytes.getD i.val 0

end Substrate.Library.Sha2
