/-!
The SHA-256 digest. A message is padded to whole blocks of 16 words of 32 bits; each block is
expanded to 64 words that are mixed into a state of eight words.
-/

namespace Regroup.Digest

/-- The bytes of a message, the bit that ends it, zeros, and the length in bits in `lengthBytes`
bytes, to a multiple of `blockBytes`. -/
def pad (blockBytes lengthBytes : Nat) (message : List UInt8) : List UInt8 :=
  let used := message.length + 1 + lengthBytes
  let zeros := (blockBytes - used % blockBytes) % blockBytes
  let bits := message.length * 8
  let byte (i : Nat) : UInt8 := UInt8.ofNat (bits >>> (8 * i))
  message ++ 0x80 :: List.replicate zeros 0 ++ (List.range lengthBytes).reverse.map byte

/-- A number from bytes, the most significant first. -/
def natOfBytes (bytes : List UInt8) : Nat := bytes.foldl (fun n b => n * 256 + b.toNat) 0

/-- The list in pieces of a length. -/
def pieces {α : Type} (size : Nat) (xs : List α) : List (List α) :=
  (List.range (xs.length / size)).map fun i => (xs.drop (i * size)).take size

def hexDigits (width n : Nat) : List Char :=
  let digits := Nat.toDigits 16 n
  List.replicate (width - digits.length) '0' ++ digits

namespace Sha256

def roundWords : List UInt32 :=
  [ 0x428a2f98, 0x71374491, 0xb5c0fbcf, 0xe9b5dba5, 0x3956c25b, 0x59f111f1, 0x923f82a4, 0xab1c5ed5,
    0xd807aa98, 0x12835b01, 0x243185be, 0x550c7dc3, 0x72be5d74, 0x80deb1fe, 0x9bdc06a7, 0xc19bf174,
    0xe49b69c1, 0xefbe4786, 0x0fc19dc6, 0x240ca1cc, 0x2de92c6f, 0x4a7484aa, 0x5cb0a9dc, 0x76f988da,
    0x983e5152, 0xa831c66d, 0xb00327c8, 0xbf597fc7, 0xc6e00bf3, 0xd5a79147, 0x06ca6351, 0x14292967,
    0x27b70a85, 0x2e1b2138, 0x4d2c6dfc, 0x53380d13, 0x650a7354, 0x766a0abb, 0x81c2c92e, 0x92722c85,
    0xa2bfe8a1, 0xa81a664b, 0xc24b8b70, 0xc76c51a3, 0xd192e819, 0xd6990624, 0xf40e3585, 0x106aa070,
    0x19a4c116, 0x1e376c08, 0x2748774c, 0x34b0bcb5, 0x391c0cb3, 0x4ed8aa4a, 0x5b9cca4f, 0x682e6ff3,
    0x748f82ee, 0x78a5636f, 0x84c87814, 0x8cc70208, 0x90befffa, 0xa4506ceb, 0xbef9a3f7, 0xc67178f2 ]

structure State where
  a : UInt32
  b : UInt32
  c : UInt32
  d : UInt32
  e : UInt32
  f : UInt32
  g : UInt32
  h : UInt32

def initial : State :=
  ⟨0x6a09e667, 0xbb67ae85, 0x3c6ef372, 0xa54ff53a, 0x510e527f, 0x9b05688c, 0x1f83d9ab, 0x5be0cd19⟩

def State.words (s : State) : List UInt32 := [s.a, s.b, s.c, s.d, s.e, s.f, s.g, s.h]

def State.add (s t : State) : State :=
  ⟨s.a + t.a, s.b + t.b, s.c + t.c, s.d + t.d, s.e + t.e, s.f + t.f, s.g + t.g, s.h + t.h⟩

def rotate (x : UInt32) (n : UInt32) : UInt32 := (x >>> n) ||| (x <<< (32 - n))

/-- The schedule in reverse, extended by one word. -/
def extend (rev : List UInt32) : List UInt32 :=
  let word (i : Nat) : UInt32 := rev.getD i 0
  let x := word 14
  let y := word 1
  let s0 := rotate x 7 ^^^ rotate x 18 ^^^ (x >>> 3)
  let s1 := rotate y 17 ^^^ rotate y 19 ^^^ (y >>> 10)
  (word 15 + s0 + word 6 + s1) :: rev

def schedule (block : List UInt8) : List UInt32 :=
  let start := (pieces 4 block).map fun b => UInt32.ofNat (natOfBytes b)
  ((List.range 48).foldl (fun rev _ => extend rev) start.reverse).reverse

def mix (s : State) (kw : UInt32 × UInt32) : State :=
  let s1 := rotate s.e 6 ^^^ rotate s.e 11 ^^^ rotate s.e 25
  let choice := (s.e &&& s.f) ^^^ ((~~~s.e) &&& s.g)
  let t1 := s.h + s1 + choice + kw.1 + kw.2
  let s0 := rotate s.a 2 ^^^ rotate s.a 13 ^^^ rotate s.a 22
  let majority := (s.a &&& s.b) ^^^ (s.a &&& s.c) ^^^ (s.b &&& s.c)
  ⟨t1 + s0 + majority, s.a, s.b, s.c, s.d + t1, s.e, s.f, s.g⟩

def compress (s : State) (block : List UInt8) : State :=
  s.add ((roundWords.zip (schedule block)).foldl mix s)

end Sha256

/-- The digest of bytes, as lower-case hexadecimal digits. -/
def sha256 (message : List UInt8) : String :=
  let s := (pieces 64 (pad 64 8 message)).foldl Sha256.compress Sha256.initial
  String.ofList (s.words.flatMap fun w => hexDigits 8 w.toNat)

/-- The digest of the encoding of a text. -/
def sha256Text (s : String) : String := sha256 s.toUTF8.toList

end Regroup.Digest
