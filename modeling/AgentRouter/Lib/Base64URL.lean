import AgentRouter.Lib.Base64

/-!
# Base64URL: the URL encoding without padding

`encode` and `decode` are Go's `base64.RawURLEncoding`: `-` and `_` stand in the place of `+` and
`/`, and a rest of one or two bytes becomes two or three letters.  Like all decoders of the package
that are not strict, this one skips line breaks, and it does not look at the bits that the last
letter has left over.  So a text that it accepts need not be an encoding:

    decode (encode bs) = some bs   (decode_encode)
    if decode s = some bs then: s = encode bs ↔ s has no line break and no bit left over is set
      (encode_eq_iff)
-/

namespace AgentRouter.Base64URL

open Base64 (isLineBreak filter_isLineBreak first_lt second_lt second_last_lt third_lt third_last_lt
  fourth_lt first_byte first_byte_last second_byte second_byte_last third_byte)

/-- The letter for a value below 64. -/
def digit (n : Nat) : UInt8 := if n = 62 then 45 else if n = 63 then 95 else Base64.digit n

def value (c : UInt8) : Option Nat :=
  if c = 45 then some 62
  else if c = 95 then some 63
  else if c = 43 ∨ c = 47 then none
  else Base64.value c

def encode : Bytes → Bytes
  | [] => []
  | [a] => [digit (a.toNat / 4), digit (a.toNat % 4 * 16)]
  | [a, b] => [digit (a.toNat / 4), digit (a.toNat % 4 * 16 + b.toNat / 16), digit (b.toNat % 16 * 4)]
  | a :: b :: c :: rest =>
    digit (a.toNat / 4) :: digit (a.toNat % 4 * 16 + b.toNat / 16) ::
      digit (b.toNat % 16 * 4 + c.toNat / 64) :: digit (c.toNat % 64) :: encode rest

/-- Four letters at a time; two or three may be left at the end, one may not. -/
def decodeQuanta : Bytes → Option Bytes
  | [] => some []
  | [_] => none
  | [a, b] => do
    let va ← value a
    let vb ← value b
    some [.ofNat (va * 4 + vb / 16)]
  | [a, b, c] => do
    let va ← value a
    let vb ← value b
    let vc ← value c
    some [.ofNat (va * 4 + vb / 16), .ofNat (vb % 16 * 16 + vc / 4)]
  | a :: b :: c :: d :: rest => do
    let va ← value a
    let vb ← value b
    let vc ← value c
    let vd ← value d
    let bytes ← decodeQuanta rest
    some (.ofNat (va * 4 + vb / 16) :: .ofNat (vb % 16 * 16 + vc / 4) ::
      .ofNat (vc % 4 * 64 + vd) :: bytes)

def decode (s : Bytes) : Option Bytes := decodeQuanta (s.filter fun c => !isLineBreak c)

/-- The bits of the last letter that belong to no byte. -/
def spareBits : Bytes → Nat
  | [_, b] => (value b).getD 0 % 16
  | [_, _, c] => (value c).getD 0 % 4
  | _ :: _ :: _ :: _ :: rest => spareBits rest
  | _ => 0

/-! ## Lemmas -/

theorem value_digit : ∀ n < 64, value (digit n) = some n := by decide

theorem isLineBreak_digit : ∀ n < 64, isLineBreak (digit n) = false := by decide

theorem digit_of_value {c : UInt8} {n : Nat} (h : value c = some n) : n < 64 ∧ digit n = c := by
  have hall : ∀ k < 256, ∀ n ∈ value (.ofNat k), n < 64 ∧ digit n = .ofNat k := by decide +kernel
  have hc := hall c.toNat c.toNat_lt
  rw [UInt8.ofNat_toNat] at hc
  exact hc n h

theorem mem_encode {bs : Bytes} : ∀ x ∈ encode bs, ∃ n < 64, digit n = x := by
  have hdigit : ∀ n < 64, ∃ n' < 64, digit n' = digit n := fun n h => ⟨n, h, rfl⟩
  induction bs using encode.induct with
  | case1 => simp [encode]
  | case2 a | case3 a b => simp [encode, hdigit]
  | case4 a b c rest ih => simpa [encode, hdigit] using ih

variable (bs : Bytes)

theorem isLineBreak_of_mem_encode : ∀ c ∈ encode bs, isLineBreak c = false := by
  intro c hc
  obtain ⟨n, hn, rfl⟩ := mem_encode c hc
  exact isLineBreak_digit n hn

theorem decodeQuanta_encode : decodeQuanta (encode bs) = some bs := by
  induction bs using encode.induct with
  | case1 => rfl
  | case2 a =>
    simp only [encode, decodeQuanta, value_digit, first_lt, second_last_lt, Option.bind_eq_bind,
      Option.bind_some, first_byte_last, UInt8.ofNat_toNat]
  | case3 a b =>
    simp only [encode, decodeQuanta, value_digit, first_lt, second_lt, third_last_lt,
      Option.bind_eq_bind, Option.bind_some, first_byte, second_byte_last, UInt8.ofNat_toNat]
  | case4 a b c rest ih =>
    simp only [encode, decodeQuanta, value_digit, first_lt, second_lt, third_lt, fourth_lt, ih,
      Option.bind_eq_bind, Option.bind_some, first_byte, second_byte, third_byte, UInt8.ofNat_toNat]

theorem decode_encode : decode (encode bs) = some bs := by
  rw [decode, filter_isLineBreak (isLineBreak_of_mem_encode bs), decodeQuanta_encode]

/-! ## Texts that are no encodings -/

/-- `UInt8.toNat_ofNat_of_lt'` with the bound as a numeral. -/
theorem toNat_ofNat {n : Nat} (h : n < 256) : (UInt8.ofNat n).toNat = n :=
  UInt8.toNat_ofNat_of_lt' h

theorem spareBits_encode : spareBits (encode bs) = 0 := by
  induction bs using encode.induct with
  | case1 => rfl
  | case2 a | case3 a b =>
    rw [encode, spareBits, value_digit _ (by omega), Option.getD_some]
    omega
  | case4 a b c rest ih =>
    exact ih

theorem encode_of_decodeQuanta (s : Bytes) {bs : Bytes} (h : decodeQuanta s = some bs)
    (hspare : spareBits s = 0) : encode bs = s := by
  induction s using decodeQuanta.induct generalizing bs with
  | case1 =>
    cases h
    rfl
  | case2 c => cases h
  | case3 a b =>
    simp only [decodeQuanta, Option.bind_eq_bind, Option.bind_eq_some_iff, Option.some.injEq] at h
    obtain ⟨va, ha, vb, hb, rfl⟩ := h
    obtain ⟨hva, rfl⟩ := digit_of_value ha
    obtain ⟨hvb, rfl⟩ := digit_of_value hb
    rw [spareBits, hb, Option.getD_some] at hspare
    rw [encode, toNat_ofNat (by omega), show (va * 4 + vb / 16) / 4 = va by omega,
      show (va * 4 + vb / 16) % 4 * 16 = vb by omega]
  | case4 a b c =>
    simp only [decodeQuanta, Option.bind_eq_bind, Option.bind_eq_some_iff, Option.some.injEq] at h
    obtain ⟨va, ha, vb, hb, vc, hc, rfl⟩ := h
    obtain ⟨hva, rfl⟩ := digit_of_value ha
    obtain ⟨hvb, rfl⟩ := digit_of_value hb
    obtain ⟨hvc, rfl⟩ := digit_of_value hc
    rw [spareBits, hc, Option.getD_some] at hspare
    rw [encode, toNat_ofNat (by omega), toNat_ofNat (by omega),
      show (va * 4 + vb / 16) / 4 = va by omega,
      show (va * 4 + vb / 16) % 4 * 16 + (vb % 16 * 16 + vc / 4) / 16 = vb by omega,
      show (vb % 16 * 16 + vc / 4) % 16 * 4 = vc by omega]
  | case5 a b c d rest ih =>
    simp only [decodeQuanta, Option.bind_eq_bind, Option.bind_eq_some_iff, Option.some.injEq] at h
    obtain ⟨va, ha, vb, hb, vc, hc, vd, hd, bytes, hbytes, rfl⟩ := h
    obtain ⟨hva, rfl⟩ := digit_of_value ha
    obtain ⟨hvb, rfl⟩ := digit_of_value hb
    obtain ⟨hvc, rfl⟩ := digit_of_value hc
    obtain ⟨hvd, rfl⟩ := digit_of_value hd
    rw [encode, toNat_ofNat (by omega), toNat_ofNat (by omega),
      toNat_ofNat (by omega), ih hbytes hspare,
      show (va * 4 + vb / 16) / 4 = va by omega,
      show (va * 4 + vb / 16) % 4 * 16 + (vb % 16 * 16 + vc / 4) / 16 = vb by omega,
      show (vb % 16 * 16 + vc / 4) % 16 * 4 + (vc % 4 * 64 + vd) / 64 = vc by omega,
      show (vc % 4 * 64 + vd) % 64 = vd by omega]

theorem encode_eq_iff {s bs : Bytes} (h : decode s = some bs) :
    encode bs = s ↔ (∀ c ∈ s, isLineBreak c = false) ∧ spareBits s = 0 := by
  constructor
  · rintro rfl
    exact ⟨isLineBreak_of_mem_encode bs, spareBits_encode bs⟩
  · rintro ⟨hbreaks, hspare⟩
    rw [decode, filter_isLineBreak hbreaks] at h
    exact encode_of_decodeQuanta s h hspare

end AgentRouter.Base64URL
