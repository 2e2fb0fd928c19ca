import Mathlib.Data.List.Basic

/-!
# Base64: the standard encoding with padding

`encode` and `decode` are Go's `base64.StdEncoding`.  Three bytes become four letters; a rest of
one or two bytes is padded with `=`.  The decoder skips line breaks and does not look at the bits
that a padded letter has left over.

    decode (encode bs) = some bs   (decode_encode)
    the letters of an encoding are letters, digits, + / and =  (mem_encode)
-/

namespace AgentRouter

/-- A Go string or `[]byte`. -/
abbrev Bytes : Type := List UInt8

namespace Base64

/-- The letter for a value below 64. -/
def digit (n : Nat) : UInt8 :=
  if n < 26 then .ofNat (65 + n)
  else if n < 52 then .ofNat (97 + (n - 26))
  else if n < 62 then .ofNat (48 + (n - 52))
  else if n = 62 then 43
  else 47

def value (c : UInt8) : Option Nat :=
  if 65 ≤ c.toNat ∧ c.toNat ≤ 90 then some (c.toNat - 65)
  else if 97 ≤ c.toNat ∧ c.toNat ≤ 122 then some (c.toNat - 97 + 26)
  else if 48 ≤ c.toNat ∧ c.toNat ≤ 57 then some (c.toNat - 48 + 52)
  else if c = 43 then some 62
  else if c = 47 then some 63
  else none

def pad : UInt8 := 61

def encode : Bytes → Bytes
  | [] => []
  | [a] => [digit (a.toNat / 4), digit (a.toNat % 4 * 16), pad, pad]
  | [a, b] =>
    [digit (a.toNat / 4), digit (a.toNat % 4 * 16 + b.toNat / 16), digit (b.toNat % 16 * 4), pad]
  | a :: b :: c :: rest =>
    digit (a.toNat / 4) :: digit (a.toNat % 4 * 16 + b.toNat / 16) ::
      digit (b.toNat % 16 * 4 + c.toNat / 64) :: digit (c.toNat % 64) :: encode rest

/-- Four letters at a time; padding only stands in the last four. -/
def decodeQuanta : Bytes → Option Bytes
  | [] => some []
  | a :: b :: c :: d :: rest => do
    let va ← value a
    let vb ← value b
    let first : UInt8 := .ofNat (va * 4 + vb / 16)
    if c = pad then
      if d = pad ∧ rest = [] then some [first] else none
    else
      let vc ← value c
      let second : UInt8 := .ofNat (vb % 16 * 16 + vc / 4)
      if d = pad then
        if rest = [] then some [first, second] else none
      else
        let vd ← value d
        let bytes ← decodeQuanta rest
        some (first :: second :: .ofNat (vc % 4 * 64 + vd) :: bytes)
  | _ => none

def isLineBreak (c : UInt8) : Bool := c = 10 || c = 13

def decode (s : Bytes) : Option Bytes := decodeQuanta (s.filter fun c => !isLineBreak c)

/-! ## Lemmas -/

/-! ### The four parts of three bytes -/

section

variable (a b c : UInt8)

@[simp] theorem first_lt : a.toNat / 4 < 64 := by
  have ha := a.toNat_lt
  omega

@[simp] theorem second_lt : a.toNat % 4 * 16 + b.toNat / 16 < 64 := by
  have hb := b.toNat_lt
  omega

@[simp] theorem third_lt : b.toNat % 16 * 4 + c.toNat / 64 < 64 := by
  have hc := c.toNat_lt
  omega

@[simp] theorem second_last_lt : a.toNat % 4 * 16 < 64 := by omega

@[simp] theorem third_last_lt : b.toNat % 16 * 4 < 64 := by omega

@[simp] theorem fourth_lt : c.toNat % 64 < 64 := by omega

theorem first_byte : a.toNat / 4 * 4 + (a.toNat % 4 * 16 + b.toNat / 16) / 16 = a.toNat := by
  have hb := b.toNat_lt
  omega

theorem first_byte_last : a.toNat / 4 * 4 + a.toNat % 4 * 16 / 16 = a.toNat := by omega

theorem second_byte : (a.toNat % 4 * 16 + b.toNat / 16) % 16 * 16 +
    (b.toNat % 16 * 4 + c.toNat / 64) / 4 = b.toNat := by
  have hb := b.toNat_lt
  have hc := c.toNat_lt
  omega

theorem second_byte_last : (a.toNat % 4 * 16 + b.toNat / 16) % 16 * 16 + b.toNat % 16 * 4 / 4 = b.toNat := by
  have hb := b.toNat_lt
  omega

theorem third_byte : (b.toNat % 16 * 4 + c.toNat / 64) % 4 * 64 + c.toNat % 64 = c.toNat := by
  have hc := c.toNat_lt
  omega

end

theorem value_digit : ∀ n < 64, value (digit n) = some n := by decide

theorem digit_ne : ∀ n < 64, digit n ≠ pad ∧ isLineBreak (digit n) = false := by decide

/-- A letter of the alphabet or the padding. -/
def IsLetter (c : UInt8) : Prop := c = pad ∨ ∃ n < 64, c = digit n

@[simp] theorem isLetter_pad : IsLetter pad := .inl rfl

@[simp] theorem isLetter_digit {n : Nat} (h : n < 64) : IsLetter (digit n) := .inr ⟨n, h, rfl⟩

theorem mem_encode (bs : Bytes) : ∀ c ∈ encode bs, IsLetter c := by
  induction bs using encode.induct with
  | case1 | case2 a | case3 a b => simp [encode]
  | case4 a b c rest ih => simpa [encode] using ih

theorem isLineBreak_of_isLetter {c : UInt8} (h : IsLetter c) : isLineBreak c = false := by
  rcases h with rfl | ⟨n, hn, rfl⟩
  · rfl
  · exact (digit_ne n hn).2

theorem filter_isLineBreak {s : Bytes} (h : ∀ c ∈ s, isLineBreak c = false) :
    s.filter (fun c => !isLineBreak c) = s := by
  rw [List.filter_eq_self]
  intro c hc
  rw [h c hc]
  rfl

theorem decodeQuanta_encode (bs : Bytes) : decodeQuanta (encode bs) = some bs := by
  induction bs using encode.induct with
  | case1 => rfl
  | case2 a =>
    simp only [encode, decodeQuanta, value_digit, first_lt, second_last_lt, Option.bind_eq_bind,
      Option.bind_some, first_byte_last, UInt8.ofNat_toNat, and_self, if_true]
  | case3 a b =>
    simp only [encode, decodeQuanta, value_digit, first_lt, second_lt, third_last_lt, digit_ne,
      Option.bind_eq_bind, Option.bind_some, first_byte, second_byte_last, UInt8.ofNat_toNat, if_true,
      if_false]
  | case4 a b c rest ih =>
    simp only [encode, decodeQuanta, value_digit, first_lt, second_lt, third_lt, fourth_lt, digit_ne,
      ih, Option.bind_eq_bind, Option.bind_some, first_byte, second_byte, third_byte,
      UInt8.ofNat_toNat, if_false]

theorem decode_encode (bs : Bytes) : decode (encode bs) = some bs := by
  have hbreaks : ∀ c ∈ encode bs, isLineBreak c = false := fun c hc =>
    isLineBreak_of_isLetter (mem_encode bs c hc)
  rw [decode, filter_isLineBreak hbreaks, decodeQuanta_encode]

theorem encode_eq_nil_iff {bs : Bytes} : encode bs = [] ↔ bs = [] := by
  constructor
  · intro h
    have hd := decodeQuanta_encode bs
    rw [h] at hd
    cases hd
    rfl
  · rintro rfl
    rfl

end Base64

end AgentRouter
