import Mathlib.Algebra.Group.Nat.Defs
import Mathlib.Data.List.Basic

/-!
# Text: the string operations of the sources

Strings are Lean strings.  `splitOn sep s` is `strings.Split` with a one-letter
separator, `atoi` is `strconv.Atoi` on a 64-bit platform, `Nat.repr` is `%d`.
A decimal never contains a separator that is not a digit, so a name that ends in
`sep ++ %d` gives the number back (`repr_inj_of_suffix`), and a name all of whose
parts are free of `sep` splits into exactly those parts (`splitOn_cons`).
-/

namespace AgentRouter.Text

open List

/-! ## Splitting -/

/-- `strings.Split(s, sep)` for a one-letter separator. -/
def splitOn (sep : Char) (s : String) : List String :=
  (s.toList.splitOn sep).map String.ofList

/-- `s` has no letter `sep`. -/
def Free (sep : Char) (s : String) : Prop := sep ∉ s.toList

instance (sep : Char) (s : String) : Decidable (Free sep s) := inferInstanceAs (Decidable (_ ∉ _))

variable {sep : Char}

theorem splitOn_free {s : String} (h : Free sep s) : splitOn sep s = [s] := by
  unfold splitOn
  rw [splitOn_eq_singleton h]
  simp

theorem splitOn_intercalate {s : String} {parts : List String} (hne : parts ≠ [])
    (hfree : ∀ part ∈ parts, Free sep part)
    (hs : s.toList = [sep].intercalate (parts.map String.toList)) : splitOn sep s = parts := by
  have hparts : ∀ l ∈ parts.map String.toList, sep ∉ l := List.forall_mem_map.mpr hfree
  rw [splitOn, hs, List.splitOn_intercalate sep hparts (by simpa using hne)]
  simp [Function.comp_def]

theorem splitOn_ne_nil (sep : Char) (s : String) : splitOn sep s ≠ [] := by
  unfold splitOn
  rw [ne_eq, map_eq_nil_iff]
  exact List.splitOn_ne_nil sep s.toList

theorem splitOn_injective (sep : Char) : Function.Injective (splitOn sep) := by
  intro s t h
  have hparts : s.toList.splitOn sep = t.toList.splitOn sep :=
    map_injective_iff.mpr (fun a b => String.ofList_inj.mp) h
  have hjoin (l : List Char) : [sep].intercalate (l.splitOn sep) = l := intercalate_splitOn sep
  apply String.toList_injective
  rw [← hjoin s.toList, hparts, hjoin]

theorem splitOn_append (sep : Char) (a b : String) :
    splitOn sep (a ++ String.singleton sep ++ b) = splitOn sep a ++ splitOn sep b := by
  unfold splitOn
  have h : (a ++ String.singleton sep ++ b).toList = a.toList ++ sep :: b.toList := by simp
  rw [h, splitOn_append_cons_self, map_append]

theorem splitOn_cons {a : String} (b : String) (h : Free sep a) :
    splitOn sep (a ++ String.singleton sep ++ b) = a :: splitOn sep b := by
  rw [splitOn_append, splitOn_free h]
  rfl

/-- Two texts joined by a separator can only be the same when they are split at the same
place, or when one left part ends at an earlier separator of the text. -/
theorem append_sep_eq_iff (sep : Char) (a b c d : String) :
    a ++ String.singleton sep ++ b = c ++ String.singleton sep ++ d ↔ (a = c ∧ b = d) ∨
      (∃ m, c = a ++ String.singleton sep ++ m ∧ b = m ++ String.singleton sep ++ d) ∨
      ∃ m, a = c ++ String.singleton sep ++ m ∧ d = m ++ String.singleton sep ++ b := by
  constructor
  · intro h
    have hl : a.toList ++ sep :: b.toList = c.toList ++ sep :: d.toList := by
      simpa using congrArg String.toList h
    -- the text that reaches further has the separator of the other inside
    have hside : ∀ {a b c d : String} {m : List Char}, c.toList = a.toList ++ m →
        sep :: b.toList = m ++ sep :: d.toList → a = c ∧ b = d ∨
          ∃ m, c = a ++ String.singleton sep ++ m ∧ b = m ++ String.singleton sep ++ d := by
      intro a b c d m hc hb
      cases m with
      | nil =>
        simp only [append_nil, nil_append, List.cons.injEq, true_and] at hc hb
        exact .inl ⟨String.toList_injective hc.symm, String.toList_injective hb⟩
      | cons x m =>
        simp only [cons_append, List.cons.injEq] at hb
        obtain ⟨rfl, hb⟩ := hb
        refine .inr ⟨String.ofList m, String.toList_injective ?_, String.toList_injective ?_⟩
        · simp [hc]
        · simp [hb]
    rcases append_eq_append_iff.mp hl with ⟨m, hc, hb⟩ | ⟨m, ha, hd⟩
    · exact (hside hc hb).imp_right .inl
    · exact (hside ha hd).imp (fun h => ⟨h.1.symm, h.2.symm⟩) .inr
  · rintro (⟨rfl, rfl⟩ | ⟨m, rfl, rfl⟩ | ⟨m, rfl, rfl⟩)
    · rfl
    · apply String.toList_injective
      simp
    · apply String.toList_injective
      simp

/-! ## Letters -/

/-- `%q` for text without letters to escape. -/
def quoted (s : String) : String := "\"" ++ s ++ "\""

/-- `strings.ToLower` on ASCII text. -/
def toLower (s : String) : String := String.ofList (s.toList.map Char.toLower)

/-- `strings.HasPrefix(s, p)`. -/
def startsWith (s p : String) : Bool := p.toList.isPrefixOf s.toList

/-- `strings.HasSuffix(s, p)`. -/
def endsWith (s p : String) : Bool := p.toList.isSuffixOf s.toList

/-- `strings.TrimSuffix(s, p)`. -/
def trimSuffix (s p : String) : String :=
  if endsWith s p then String.ofList (s.toList.take (s.length - p.length)) else s

/-- `strings.TrimPrefix(s, p)`. -/
def trimPrefix (s p : String) : String :=
  if startsWith s p then String.ofList (s.toList.drop p.length) else s

theorem trimPrefix_append (p s : String) : trimPrefix (p ++ s) p = s := by
  unfold trimPrefix startsWith
  rw [String.toList_append, if_pos (List.isPrefixOf_iff_prefix.mpr (prefix_append _ _)),
    ← String.length_toList, drop_left, String.ofList_toList]

theorem charToLower_of_not_upper {c : Char} (h : ¬ (c.val ≥ 'A'.val ∧ c.val ≤ 'Z'.val)) : c.toLower = c := by
  unfold Char.toLower
  rw [dif_neg h]

theorem charToLower_toLower (c : Char) : c.toLower.toLower = c.toLower := by
  apply charToLower_of_not_upper
  unfold Char.toLower
  split
  next h =>
    simp only [ge_iff_le, UInt32.le_iff_toNat_le] at h ⊢
    simp at h ⊢
    omega
  next h => exact h

theorem toLower_toLower (s : String) : toLower (toLower s) = toLower s := by
  have h : Char.toLower ∘ Char.toLower = Char.toLower := funext charToLower_toLower
  simp [toLower, h]

theorem toLower_append (a b : String) : toLower (a ++ b) = toLower a ++ toLower b := by
  simp [toLower]

/-- `unicode.IsSpace`. -/
def isSpace (c : Char) : Bool :=
  c ∈ ['\t', '\n', '\x0b', '\x0c', '\r', ' ', '\u0085', '\u00a0', '\u1680', '\u2028', '\u2029',
    '\u202f', '\u205f', '\u3000'] || (0x2000 ≤ c.toNat && c.toNat ≤ 0x200a)

/-- `strings.TrimSpace`. -/
def trimSpace (s : String) : String :=
  String.ofList ((s.toList.dropWhile isSpace).reverse.dropWhile isSpace).reverse

/-! ## Decimals -/

theorem free_repr (h : sep.isDigit = false) (n : Nat) : Free sep n.repr := by
  intro hm
  rw [Nat.toList_repr] at hm
  have := Nat.isDigit_of_mem_toDigits (by decide) (by decide) hm
  rw [h] at this
  cases this

theorem free_slash_repr (n : Nat) : Free '/' n.repr := free_repr (by decide) n

theorem splitOn_getLast_repr (h : sep.isDigit = false) (a : String) (n : Nat) :
    (splitOn sep (a ++ String.singleton sep ++ n.repr)).getLast? = some n.repr := by
  rw [splitOn_append, splitOn_free (free_repr h n), getLast?_append]
  rfl

theorem repr_inj {i j : Nat} (h : i.repr = j.repr) : i = j := by
  have hd : Nat.toDigits 10 i = Nat.toDigits 10 j := by
    rw [← Nat.toList_repr, ← Nat.toList_repr, h]
  have hv := congrArg (fun ds => Nat.ofDigitChars 10 ds 0) hd
  simpa only [Nat.ofDigitChars_ten_toDigits] using hv

/-- Two names with the same separator in front of a closing decimal carry the
same number. -/
theorem repr_inj_of_suffix (h : sep.isDigit = false) {a b : String} {i j : Nat}
    (he : a ++ String.singleton sep ++ i.repr = b ++ String.singleton sep ++ j.repr) : i = j := by
  have h1 := splitOn_getLast_repr h a i
  rw [he, splitOn_getLast_repr h b j] at h1
  exact (repr_inj (Option.some.inj h1)).symm

/-- The value of a non-empty list of decimal digits. -/
def digitsVal (ds : List Char) : Option Nat :=
  if ds ≠ [] ∧ ds.all Char.isDigit then some (Nat.ofDigitChars 10 ds 0) else none

theorem digitsVal_toDigits (n : Nat) : digitsVal (Nat.toDigits 10 n) = some n := by
  unfold digitsVal
  rw [if_pos, Nat.ofDigitChars_ten_toDigits]
  refine ⟨Nat.toDigits_ne_nil, ?_⟩
  rw [all_eq_true]
  exact fun c hc => Nat.isDigit_of_mem_toDigits (by decide) (by decide) hc

/-- `strconv.ParseInt(s, 10, w)`: an optional sign and decimal digits, within a
signed integer of `w` bits. -/
def parseInt (w : Nat) (s : String) : Option Int :=
  match s.toList with
  | '-' :: ds => (digitsVal ds).bind fun n => if n ≤ 2 ^ (w - 1) then some (-(n : Int)) else none
  | '+' :: ds => (digitsVal ds).bind fun n => if n < 2 ^ (w - 1) then some (n : Int) else none
  | ds => (digitsVal ds).bind fun n => if n < 2 ^ (w - 1) then some (n : Int) else none

/-- `strconv.Atoi`, for a 64-bit `int`. -/
def atoi (s : String) : Option Int := parseInt 64 s

theorem atoi_repr {n : Nat} (hn : n < 2 ^ 63) : atoi n.repr = some (n : Int) := by
  have hd : ∀ c ∈ n.repr.toList, c.isDigit = true := by
    rw [Nat.toList_repr]
    exact fun c hc => Nat.isDigit_of_mem_toDigits (by decide) (by decide) hc
  unfold atoi parseInt
  split
  · next ds hds =>
    rw [hds] at hd
    exact absurd (hd '-' mem_cons_self) (by decide)
  · next ds hds =>
    rw [hds] at hd
    exact absurd (hd '+' mem_cons_self) (by decide)
  · rw [Nat.toList_repr, digitsVal_toDigits]
    have hlt : n < 2 ^ (64 - 1) := hn
    simp only [Option.bind_some, if_pos hlt]

/-! ## Texts that are put together -/

def nonEmpty (texts : List String) : List String := texts.filter (· ≠ "")

theorem join_map_filter {α : Type} {f : α → String} {p : α → Bool}
    (h : ∀ a, ¬ p a = true → f a = "") (l : List α) :
    String.join ((l.filter p).map f) = String.join (l.map f) := by
  induction l with
  | nil => rfl
  | cons a l ih =>
    rw [map_cons, String.join_cons, ← ih]
    by_cases ha : p a = true
    · rw [filter_cons_of_pos ha, map_cons, String.join_cons]
    · rw [filter_cons_of_neg ha, h a ha, String.empty_append]

theorem join_map_empty {α : Type} (l : List α) : String.join (l.map fun _ => "") = "" := by
  rw [← join_map_filter (p := fun _ => false) fun _ _ => rfl, filter_false]
  rfl

theorem join_nonEmpty (ts : List String) : String.join (nonEmpty ts) = String.join ts := by
  simpa [nonEmpty] using join_map_filter (f := id) (p := (· ≠ "")) (by simp) ts

theorem join_eq_empty_iff {ts : List String} (h : ∀ t ∈ ts, t ≠ "") : String.join ts = "" ↔ ts = [] := by
  cases ts with
  | nil => simp
  | cons t ts =>
    simp only [String.join_cons, String.append_eq_empty_iff, reduceCtorEq, iff_false]
    exact fun hjoin => h t mem_cons_self hjoin.1

/-- The value of a hexadecimal digit in either case, from its code. -/
def hexValue (code : Nat) : Option Nat :=
  if 48 ≤ code ∧ code ≤ 57 then some (code - 48)
  else if 97 ≤ code ∧ code ≤ 102 then some (code - 87)
  else if 65 ≤ code ∧ code ≤ 70 then some (code - 55)
  else none

/-! ## Bytes -/

/-- The bytes of a Go string. -/
def utf8 (s : String) : List UInt8 := s.toByteArray.data.toList

theorem utf8_append (s t : String) : utf8 (s ++ t) = utf8 s ++ utf8 t := by
  simp [utf8, String.toByteArray_append]

theorem utf8_inj {s t : String} : utf8 s = utf8 t ↔ s = t := by
  unfold utf8
  rw [Array.toList_inj, ← ByteArray.ext_iff, String.toByteArray_inj]

theorem utf8_eq_flatMap (s : String) : utf8 s = s.toList.flatMap String.utf8EncodeChar := by
  have h := String.toByteArray_ofList (l := s.toList)
  rw [String.ofList_toList] at h
  rw [utf8, h, List.utf8Encode, data_toByteArray]

theorem toNat_of_mem_utf8EncodeChar {c : Char} {b : UInt8} (h : b ∈ String.utf8EncodeChar c)
    (hb : b.toNat < 128) : c.toNat = b.toNat := by
  have hofNat {n : Nat} (hn : n < 256) : (UInt8.ofNat n).toNat = n := UInt8.toNat_ofNat_of_lt hn
  have hlarge {l : List Nat} (hl : ∀ n ∈ l, 128 ≤ n ∧ n < 256) : b ∉ l.map UInt8.ofNat := by
    intro hmem
    obtain ⟨n, hn, rfl⟩ := mem_map.mp hmem
    obtain ⟨hle, hlt⟩ := hl n hn
    rw [hofNat hlt] at hb
    omega
  have hc : c.val.toNat = c.toNat := rfl
  simp only [String.utf8EncodeChar] at h
  split at h
  · rw [mem_singleton] at h
    rw [h, hofNat (by omega)]
    exact hc.symm
  -- a longer encoding has only large bytes
  exfalso
  split at h
  · exact hlarge (l := [_, _]) (by simp; omega) h
  split at h
  · exact hlarge (l := [_, _, _]) (by simp; omega) h
  · exact hlarge (l := [_, _, _, _]) (by simp; omega) h

theorem notMem_utf8 {c : Char} {s : String} {b : UInt8} (hb : b.toNat < 128)
    (hc : b.toNat = c.toNat) (h : Free c s) : b ∉ utf8 s := by
  intro hmem
  rw [utf8_eq_flatMap, mem_flatMap] at hmem
  obtain ⟨d, hd, hmem⟩ := hmem
  have hdc : d = c := Char.toNat_inj.mp ((toNat_of_mem_utf8EncodeChar hmem hb).trans hc)
  exact h (hdc ▸ hd)

end AgentRouter.Text
