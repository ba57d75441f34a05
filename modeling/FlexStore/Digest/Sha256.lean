import Mathlib.Data.BitVec

/-!
# SHA-256

The digest of FIPS 180-4 over a list of bytes, as the standard library computes it,
and its lowercase hexadecimal spelling. Everything is structurally recursive, so the
digest of a concrete text evaluates in the kernel.
-/

namespace Digest

abbrev Word := BitVec 32

structure Sha256State where
  a : Word
  b : Word
  c : Word
  d : Word
  e : Word
  f : Word
  g : Word
  h : Word

namespace Sha256

def roundConstants : List Word :=
  [0x428a2f98, 0x71374491, 0xb5c0fbcf, 0xe9b5dba5, 0x3956c25b, 0x59f111f1, 0x923f82a4, 0xab1c5ed5,
   0xd807aa98, 0x12835b01, 0x243185be, 0x550c7dc3, 0x72be5d74, 0x80deb1fe, 0x9bdc06a7, 0xc19bf174,
   0xe49b69c1, 0xefbe4786, 0x0fc19dc6, 0x240ca1cc, 0x2de92c6f, 0x4a7484aa, 0x5cb0a9dc, 0x76f988da,
   0x983e5152, 0xa831c66d, 0xb00327c8, 0xbf597fc7, 0xc6e00bf3, 0xd5a79147, 0x06ca6351, 0x14292967,
   0x27b70a85, 0x2e1b2138, 0x4d2c6dfc, 0x53380d13, 0x650a7354, 0x766a0abb, 0x81c2c92e, 0x92722c85,
   0xa2bfe8a1, 0xa81a664b, 0xc24b8b70, 0xc76c51a3, 0xd192e819, 0xd6990624, 0xf40e3585, 0x106aa070,
   0x19a4c116, 0x1e376c08, 0x2748774c, 0x34b0bcb5, 0x391c0cb3, 0x4ed8aa4a, 0x5b9cca4f, 0x682e6ff3,
   0x748f82ee, 0x78a5636f, 0x84c87814, 0x8cc70208, 0x90befffa, 0xa4506ceb, 0xbef9a3f7, 0xc67178f2]

def initial : Sha256State where
  a := 0x6a09e667
  b := 0xbb67ae85
  c := 0x3c6ef372
  d := 0xa54ff53a
  e := 0x510e527f
  f := 0x9b05688c
  g := 0x1f83d9ab
  h := 0x5be0cd19

def bigSigma0 (x : Word) : Word := x.rotateRight 2 ^^^ x.rotateRight 13 ^^^ x.rotateRight 22
def bigSigma1 (x : Word) : Word := x.rotateRight 6 ^^^ x.rotateRight 11 ^^^ x.rotateRight 25
def smallSigma0 (x : Word) : Word := x.rotateRight 7 ^^^ x.rotateRight 18 ^^^ (x >>> 3)
def smallSigma1 (x : Word) : Word := x.rotateRight 17 ^^^ x.rotateRight 19 ^^^ (x >>> 10)

/-- One message byte as the low byte of a word. -/
def wordOfByte (b : UInt8) : Word := BitVec.ofNat 32 b.toNat

/-- The big-endian word that starts a list of bytes. -/
def wordOfBytes (bytes : List UInt8) : Word :=
  (bytes.take 4).foldl (fun w b => (w <<< 8) ||| wordOfByte b) 0

/-- The message followed by a one bit, zeros and its length in bits, a whole number of
64-byte blocks. -/
def pad (message : List UInt8) : List UInt8 :=
  let size := message.length
  let lengthByte (i : Nat) : UInt8 := UInt8.ofNat ((8 * size) >>> (8 * (7 - i)))
  message ++ [0x80] ++ List.replicate ((119 - size % 64) % 64) 0 ++
    (List.range 8).map lengthByte

/-- The sixteen words of a block extended to the sixty-four that the rounds consume. -/
def schedule (block : List UInt8) : List Word :=
  let first := (List.range 16).map fun i => wordOfBytes (block.drop (4 * i))
  (List.range 48).foldl
    (fun w i => w ++ [smallSigma1 (w.getD (i + 14) 0) + w.getD (i + 9) 0 +
      smallSigma0 (w.getD (i + 1) 0) + w.getD i 0])
    first

def round (s : Sha256State) (kw : Word × Word) : Sha256State :=
  let t1 := s.h + bigSigma1 s.e + ((s.e &&& s.f) ^^^ (~~~s.e &&& s.g)) + kw.1 + kw.2
  let t2 := bigSigma0 s.a + ((s.a &&& s.b) ^^^ (s.a &&& s.c) ^^^ (s.b &&& s.c))
  { a := t1 + t2, b := s.a, c := s.b, d := s.c, e := s.d + t1, f := s.e, g := s.f, h := s.g }

def compress (s : Sha256State) (block : List UInt8) : Sha256State :=
  let t := (roundConstants.zip (schedule block)).foldl round s
  { a := s.a + t.a, b := s.b + t.b, c := s.c + t.c, d := s.d + t.d,
    e := s.e + t.e, f := s.f + t.f, g := s.g + t.g, h := s.h + t.h }

end Sha256

open Sha256 in
/-- `sha256.Sum256`. -/
def sha256 (message : List UInt8) : BitVec 256 :=
  let padded := pad message
  let s := (List.range (padded.length / 64)).foldl
    (fun s i => compress s ((padded.drop (64 * i)).take 64)) initial
  s.a ++ s.b ++ s.c ++ s.d ++ s.e ++ s.f ++ s.g ++ s.h

def hexDigit (n : Nat) : Char := Char.ofNat (if n < 10 then 48 + n else 87 + n)

/-- `hex.EncodeToString` of a digest: 64 lowercase digits, most significant first. -/
def hex (digest : BitVec 256) : String :=
  String.ofList ((List.range 64).map fun i => hexDigit ((digest >>> (4 * (63 - i))).toNat % 16))

example : sha256 [0x61, 0x62, 0x63] =
    0xba7816bf8f01cfea414140de5dae2223b00361a396177a9cb410ff61f20015ad := by
  decide +kernel

end Digest
