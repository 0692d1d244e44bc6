import AlmightyReview.Lib.Text
import Mathlib.Data.List.GetD

/-!
# SHA-256

The hash function of FIPS 180-4 on lists of bytes, with 32-bit words as natural numbers below
`2 ^ 32`. `Sha256.hexdigest` is the digest as 64 lowercase hexadecimal digits, `Sha256.digest` as 32
bytes, and `Sha256.hmac` the code of a message under a key.

Nothing is assumed of the functions but their shape (`length_hexdigest`, `mem_hexdigest`,
`length_hmac`, `hmac_lt`); two inputs may have one digest.
-/

namespace Sha256

/-! ## Words -/

def add (x y : Nat) : Nat := (x + y) % 2 ^ 32
def rotr (n x : Nat) : Nat := (x >>> n ||| x <<< (32 - n)) % 2 ^ 32
def sigma0 (x : Nat) : Nat := rotr 7 x ^^^ rotr 18 x ^^^ x >>> 3
def sigma1 (x : Nat) : Nat := rotr 17 x ^^^ rotr 19 x ^^^ x >>> 10
def bigSigma0 (x : Nat) : Nat := rotr 2 x ^^^ rotr 13 x ^^^ rotr 22 x
def bigSigma1 (x : Nat) : Nat := rotr 6 x ^^^ rotr 11 x ^^^ rotr 25 x
def ch (x y z : Nat) : Nat := (x &&& y) ^^^ ((2 ^ 32 - 1 - x) &&& z)
def maj (x y z : Nat) : Nat := (x &&& y) ^^^ (x &&& z) ^^^ (y &&& z)

/-- The round constants. -/
def k : List Nat :=
  [0x428a2f98, 0x71374491, 0xb5c0fbcf, 0xe9b5dba5, 0x3956c25b, 0x59f111f1, 0x923f82a4, 0xab1c5ed5,
   0xd807aa98, 0x12835b01, 0x243185be, 0x550c7dc3, 0x72be5d74, 0x80deb1fe, 0x9bdc06a7, 0xc19bf174,
   0xe49b69c1, 0xefbe4786, 0x0fc19dc6, 0x240ca1cc, 0x2de92c6f, 0x4a7484aa, 0x5cb0a9dc, 0x76f988da,
   0x983e5152, 0xa831c66d, 0xb00327c8, 0xbf597fc7, 0xc6e00bf3, 0xd5a79147, 0x06ca6351, 0x14292967,
   0x27b70a85, 0x2e1b2138, 0x4d2c6dfc, 0x53380d13, 0x650a7354, 0x766a0abb, 0x81c2c92e, 0x92722c85,
   0xa2bfe8a1, 0xa81a664b, 0xc24b8b70, 0xc76c51a3, 0xd192e819, 0xd6990624, 0xf40e3585, 0x106aa070,
   0x19a4c116, 0x1e376c08, 0x2748774c, 0x34b0bcb5, 0x391c0cb3, 0x4ed8aa4a, 0x5b9cca4f, 0x682e6ff3,
   0x748f82ee, 0x78a5636f, 0x84c87814, 0x8cc70208, 0x90befffa, 0xa4506ceb, 0xbef9a3f7, 0xc67178f2]

/-! ## Blocks -/

/-- The eight words of the hash value. -/
structure State where
  a : Nat
  b : Nat
  c : Nat
  d : Nat
  e : Nat
  f : Nat
  g : Nat
  h : Nat

def initial : State :=
  ⟨0x6a09e667, 0xbb67ae85, 0x3c6ef372, 0xa54ff53a, 0x510e527f, 0x9b05688c, 0x1f83d9ab, 0x5be0cd19⟩

/-- The message schedule, newest word first: `n` more words. -/
def schedule : Nat → List Nat → List Nat
  | 0, w => w
  | n + 1, w =>
    schedule n (add (add (sigma1 (w.getD 1 0)) (w.getD 6 0))
      (add (sigma0 (w.getD 14 0)) (w.getD 15 0)) :: w)

/-- One round, with its constant and its word of the schedule. -/
def round (s : State) (kw : Nat × Nat) : State :=
  let t₁ := s.h + bigSigma1 s.e + ch s.e s.f s.g + kw.1 + kw.2
  let t₂ := bigSigma0 s.a + maj s.a s.b s.c
  ⟨add t₁ t₂, s.a, s.b, s.c, add s.d t₁, s.e, s.f, s.g⟩

/-- The hash value after one block of 16 words. -/
def compress (s : State) (block : List Nat) : State :=
  let r := (k.zip (schedule 48 block.reverse).reverse).foldl round s
  ⟨add s.a r.a, add s.b r.b, add s.c r.c, add s.d r.d,
   add s.e r.e, add s.f r.f, add s.g r.g, add s.h r.h⟩

/-- The hash value after `n` blocks. -/
def blocks : Nat → State → List Nat → State
  | 0, s, _ => s
  | n + 1, s, words => blocks n (compress s (words.take 16)) (words.drop 16)

/-! ## Bytes -/

/-- `n` as `i` bytes, the highest first. -/
def bigEndian (n : Nat) : Nat → List Nat
  | 0 => []
  | i + 1 => (n >>> (8 * i)) % 256 :: bigEndian n i

/-- The message with its padding: a multiple of 64 bytes. -/
def pad (m : List Nat) : List Nat :=
  m ++ 0x80 :: List.replicate ((119 - m.length % 64) % 64) 0 ++ bigEndian (8 * m.length) 8

/-- Four bytes a word. -/
def toWords : List Nat → List Nat
  | a :: b :: c :: d :: m => (a <<< 24 ||| b <<< 16 ||| c <<< 8 ||| d) :: toWords m
  | _ => []

def hexDigits : List Char :=
  ['0', '1', '2', '3', '4', '5', '6', '7', '8', '9', 'a', 'b', 'c', 'd', 'e', 'f']

def hexDigit (n : Nat) : Char := hexDigits.getD n '0'

/-- A word as eight digits. -/
def hexWord (n : Nat) : List Char :=
  [28, 24, 20, 16, 12, 8, 4, 0].map fun i => hexDigit ((n >>> i) % 16)

/-- `hashlib.sha256(m).hexdigest()`. -/
def hexdigest (m : List Nat) : List Char :=
  let p := pad m
  let s := blocks (p.length / 64) initial (toWords p)
  [s.a, s.b, s.c, s.d, s.e, s.f, s.g, s.h].flatMap hexWord

/-- `hashlib.sha256(m).digest()`. -/
def digest (m : List Nat) : List Nat :=
  let p := pad m
  let s := blocks (p.length / 64) initial (toWords p)
  [s.a, s.b, s.c, s.d, s.e, s.f, s.g, s.h].flatMap fun w => bigEndian w 4

/-- A key in a block: a long one is hashed. -/
def keyBlock (key : List Nat) : List Nat :=
  let short := if 64 < key.length then digest key else key
  short ++ List.replicate (64 - short.length) 0

/-- `hmac.new(key, m, hashlib.sha256).digest()`. -/
def hmac (key m : List Nat) : List Nat :=
  digest ((keyBlock key).map (· ^^^ 0x5c) ++ digest ((keyBlock key).map (· ^^^ 0x36) ++ m))

theorem length_hmac (key m : List Nat) : (hmac key m).length = 32 := rfl

theorem bigEndian_lt {n i b : Nat} (h : b ∈ bigEndian n i) : b < 256 := by
  induction i with
  | zero => cases h
  | succ i ih =>
    rcases List.mem_cons.mp h with rfl | h
    · exact Nat.mod_lt _ (by decide)
    · exact ih h

theorem hmac_lt {key m : List Nat} {b : Nat} (h : b ∈ hmac key m) : b < 256 := by
  obtain ⟨w, -, hw⟩ := List.mem_flatMap.mp h
  exact bigEndian_lt hw

theorem length_hexdigest (m : List Nat) : (hexdigest m).length = 64 := rfl

theorem hexDigit_mem (n : Nat) : hexDigit n ∈ hexDigits := by
  unfold hexDigit
  by_cases h : n < hexDigits.length
  · rw [List.getD_eq_getElem _ _ h]
    exact List.getElem_mem h
  · rw [List.getD_eq_default _ _ (by omega)]
    decide

theorem mem_hexdigest {m : List Nat} {c : Char} (h : c ∈ hexdigest m) : c ∈ hexDigits := by
  obtain ⟨w, -, hw⟩ := List.mem_flatMap.mp h
  obtain ⟨i, -, rfl⟩ := List.mem_map.mp hw
  exact hexDigit_mem _

set_option maxRecDepth 100000 in
example : hexdigest ("abc".toList.map Char.toNat) =
    "ba7816bf8f01cfea414140de5dae2223b00361a396177a9cb410ff61f20015ad".toList := by
  decide +kernel

set_option maxRecDepth 100000 in
example : hmac ("key".toList.map Char.toNat) ("message".toList.map Char.toNat) =
    [0x6e, 0x9e, 0xf2, 0x9b, 0x75, 0xff, 0xfc, 0x5b, 0x7a, 0xba, 0xe5, 0x27, 0xd5, 0x8f, 0xda, 0xdb,
     0x2f, 0xe4, 0x2e, 0x72, 0x19, 0x01, 0x19, 0x76, 0x91, 0x73, 0x43, 0x06, 0x5f, 0x58,
     0xed, 0x4a] := by
  decide +kernel

end Sha256
