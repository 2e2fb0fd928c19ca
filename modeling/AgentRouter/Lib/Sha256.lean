import AgentRouter.Lib.Base64
import AgentRouter.Lib.Text

/-!
# Sha256: the hash function SHA-256

`sum256` is Go's `sha256.Sum256`.  The message is padded to whole blocks of 64 bytes, and each
block is mixed into a state of eight words in 64 rounds.  The rounds see the words of the block
through a window of the last 16 words, which each of them moves by one.

    (sum256 msg).length = 32   (length_sum256)
    (hex bs).length = 2 * |bs|   (length_hex)
    hex bs = hex bs' → bs = bs'   (hex_injective)
-/

namespace AgentRouter.Sha256

open List Text

/-! ## Words -/

def rotateRight (x n : UInt32) : UInt32 := x >>> n ||| x <<< (32 - n)

def smallSigma0 (x : UInt32) : UInt32 := rotateRight x 7 ^^^ rotateRight x 18 ^^^ x >>> 3

def smallSigma1 (x : UInt32) : UInt32 := rotateRight x 17 ^^^ rotateRight x 19 ^^^ x >>> 10

def bigSigma0 (x : UInt32) : UInt32 := rotateRight x 2 ^^^ rotateRight x 13 ^^^ rotateRight x 22

def bigSigma1 (x : UInt32) : UInt32 := rotateRight x 6 ^^^ rotateRight x 11 ^^^ rotateRight x 25

def choose (x y z : UInt32) : UInt32 := (x &&& y) ^^^ (~~~x &&& z)

def majority (x y z : UInt32) : UInt32 := (x &&& y) ^^^ (x &&& z) ^^^ (y &&& z)

/-- The words of a text, most significant byte first. -/
def wordsOf : Bytes → List UInt32
  | a :: b :: c :: d :: rest =>
    (a.toUInt32 <<< 24 ||| b.toUInt32 <<< 16 ||| c.toUInt32 <<< 8 ||| d.toUInt32) :: wordsOf rest
  | _ => []

def bytesOf (w : UInt32) : Bytes :=
  [(w >>> 24).toUInt8, (w >>> 16).toUInt8, (w >>> 8).toUInt8, w.toUInt8]

/-! ## Blocks -/

structure State where
  a : UInt32
  b : UInt32
  c : UInt32
  d : UInt32
  e : UInt32
  f : UInt32
  g : UInt32
  h : UInt32

def initial : State :=
  ⟨0x6a09e667, 0xbb67ae85, 0x3c6ef372, 0xa54ff53a, 0x510e527f, 0x9b05688c, 0x1f83d9ab, 0x5be0cd19⟩

def roundConstants : List UInt32 :=
  [0x428a2f98, 0x71374491, 0xb5c0fbcf, 0xe9b5dba5, 0x3956c25b, 0x59f111f1, 0x923f82a4, 0xab1c5ed5,
   0xd807aa98, 0x12835b01, 0x243185be, 0x550c7dc3, 0x72be5d74, 0x80deb1fe, 0x9bdc06a7, 0xc19bf174,
   0xe49b69c1, 0xefbe4786, 0x0fc19dc6, 0x240ca1cc, 0x2de92c6f, 0x4a7484aa, 0x5cb0a9dc, 0x76f988da,
   0x983e5152, 0xa831c66d, 0xb00327c8, 0xbf597fc7, 0xc6e00bf3, 0xd5a79147, 0x06ca6351, 0x14292967,
   0x27b70a85, 0x2e1b2138, 0x4d2c6dfc, 0x53380d13, 0x650a7354, 0x766a0abb, 0x81c2c92e, 0x92722c85,
   0xa2bfe8a1, 0xa81a664b, 0xc24b8b70, 0xc76c51a3, 0xd192e819, 0xd6990624, 0xf40e3585, 0x106aa070,
   0x19a4c116, 0x1e376c08, 0x2748774c, 0x34b0bcb5, 0x391c0cb3, 0x4ed8aa4a, 0x5b9cca4f, 0x682e6ff3,
   0x748f82ee, 0x78a5636f, 0x84c87814, 0x8cc70208, 0x90befffa, 0xa4506ceb, 0xbef9a3f7, 0xc67178f2]

def State.round (s : State) (word : UInt32) : State :=
  let t := s.h + bigSigma1 s.e + choose s.e s.f s.g + word
  ⟨t + (bigSigma0 s.a + majority s.a s.b s.c), s.a, s.b, s.c, s.d + t, s.e, s.f, s.g⟩

/-- The word that comes after a window of 16 words. -/
def nextWord (window : List UInt32) : UInt32 :=
  smallSigma1 (window.getD 14 0) + window.getD 9 0 + smallSigma0 (window.getD 1 0) +
    window.getD 0 0

/-- One round for each constant. -/
def State.rounds : List UInt32 → List UInt32 → State → State
  | [], _, s => s
  | k :: ks, window, s =>
    rounds ks (window.tail ++ [nextWord window]) (s.round (k + window.headD 0))

def State.add (s t : State) : State :=
  ⟨s.a + t.a, s.b + t.b, s.c + t.c, s.d + t.d, s.e + t.e, s.f + t.f, s.g + t.g, s.h + t.h⟩

def State.block (s : State) (words : List UInt32) : State :=
  s.add (s.rounds roundConstants words)

/-- The next `n` blocks. -/
def State.blocks (s : State) (words : List UInt32) : Nat → State
  | 0 => s
  | n + 1 => (s.block (words.take 16)).blocks (words.drop 16) n

def State.bytes (s : State) : Bytes :=
  [s.a, s.b, s.c, s.d, s.e, s.f, s.g, s.h].flatMap bytesOf

/-! ## Messages -/

/-- A one bit, zeros up to the last eight bytes of a block, and the length in bits. -/
def padding (length : Nat) : Bytes :=
  128 :: List.replicate ((119 - length % 64) % 64) 0 ++
    bytesOf (.ofNat (8 * length / 2 ^ 32)) ++ bytesOf (.ofNat (8 * length))

def sum256 (msg : Bytes) : Bytes :=
  let words := wordsOf (msg ++ padding msg.length)
  (initial.blocks words (words.length / 16)).bytes

/-- Two digits for each byte, as `%x` writes them. -/
def hex (bs : Bytes) : List Char :=
  bs.flatMap fun b => [Nat.digitChar (b.toNat / 16), Nat.digitChar (b.toNat % 16)]

/-- `hex.DecodeString`. -/
def unhex : List Char → Option Bytes
  | [] => some []
  | [_] => none
  | a :: b :: rest => do
    let high ← hexValue a.toNat
    let low ← hexValue b.toNat
    let bs ← unhex rest
    some (.ofNat (high * 16 + low) :: bs)

/-! ## Lemmas -/

theorem length_sum256 (msg : Bytes) : (sum256 msg).length = 32 := rfl

/-- The sum of `abc`. -/
example : sum256 [97, 98, 99] =
    [0xba, 0x78, 0x16, 0xbf, 0x8f, 0x01, 0xcf, 0xea, 0x41, 0x41, 0x40, 0xde, 0x5d, 0xae, 0x22, 0x23,
     0xb0, 0x03, 0x61, 0xa3, 0x96, 0x17, 0x7a, 0x9c, 0xb4, 0x10, 0xff, 0x61, 0xf2, 0x00, 0x15, 0xad] := by
  decide +kernel

theorem length_hex (bs : Bytes) : (hex bs).length = 2 * bs.length := by
  induction bs with
  | nil => rfl
  | cons b bs ih =>
    rw [hex, flatMap_cons, length_append, ← hex]
    simp only [length_cons, length_nil]
    omega

theorem hexValue_digitChar : ∀ n < 16, hexValue (Nat.digitChar n).toNat = some n := by decide

theorem unhex_hex (bs : Bytes) : unhex (hex bs) = some bs := by
  induction bs with
  | nil => rfl
  | cons b bs ih =>
    have hb := b.toNat_lt
    show unhex (Nat.digitChar (b.toNat / 16) :: Nat.digitChar (b.toNat % 16) :: hex bs) = _
    rw [unhex, hexValue_digitChar _ (by omega), hexValue_digitChar _ (by omega), ih]
    simp only [Option.bind_eq_bind, Option.bind_some, Nat.div_add_mod', UInt8.ofNat_toNat]

theorem hex_injective {as bs : Bytes} (h : hex as = hex bs) : as = bs := by
  have has := unhex_hex as
  rw [h, unhex_hex] at has
  exact (Option.some.inj has).symm

theorem mem_hex {bs : Bytes} {c : Char} (h : c ∈ hex bs) : ∃ n < 16, Nat.digitChar n = c := by
  obtain ⟨b, -, hc⟩ := mem_flatMap.mp h
  have hb := b.toNat_lt
  rcases mem_pair.mp hc with rfl | rfl
  · exact ⟨_, by omega, rfl⟩
  · exact ⟨_, by omega, rfl⟩

theorem toLower_of_mem_hex {bs : Bytes} {c : Char} (h : c ∈ hex bs) : c.toLower = c := by
  have hdigit : ∀ n < 16, (Nat.digitChar n).toLower = Nat.digitChar n := by decide
  obtain ⟨n, hn, rfl⟩ := mem_hex h
  exact hdigit n hn

end AgentRouter.Sha256
