import Mathlib.Data.List.Basic
import Mathlib.Data.List.Infix

/-!
# Cut: taking a sequence apart at a separator

The operations of Go's `strings` package that look for a separator, on lists of any kind of
letters: `cut` is `strings.Cut`, `cutEither` cuts at the first of two separators, `cutLast` cuts at the last
occurrence of a one-letter separator and `cutAtLast` at that of any separator, `splitN` is
`strings.SplitN`.  A part in which the separator cannot be found comes back as it was put in:

    sep ∉ a → cut [sep] (a ++ sep :: b) = some (a, b)   (cut_singleton)
    sep does not start inside a → cut sep (a ++ sep ++ b) = some (a, b)   (cut_append)
    sep ∉ b → cutLast sep (a ++ sep :: b) = some (a, b)   (cutLast_append)
-/

namespace AgentRouter.Cut

open List

variable {α : Type} [DecidableEq α]

/-- What stands before the first occurrence of `sep` and what follows it. -/
def cut (sep : List α) : List α → Option (List α × List α)
  | [] => if sep = [] then some ([], []) else none
  | x :: xs =>
    if sep.isPrefixOf (x :: xs) then some ([], (x :: xs).drop sep.length)
    else (cut sep xs).map fun r => (x :: r.1, r.2)

/-- `Contains` of the packages `strings` and `bytes`. -/
def contains (s sub : List α) : Bool := (cut sub s).isSome

/-- What stands before the last occurrence of `sep` and what follows it. -/
def cutLast (sep : α) : List α → Option (List α × List α)
  | [] => none
  | x :: xs =>
    match cutLast sep xs with
    | some r => some (x :: r.1, r.2)
    | none => if x = sep then some ([], xs) else none

/-- What stands before the last occurrence of a separator of any length and what follows it. -/
def cutAtLast (sep s : List α) : Option (List α × List α) :=
  (cut sep.reverse s.reverse).map fun r => (r.2.reverse, r.1.reverse)

/-- The cut at the separator that occurs first; at the second one if both start at one place. -/
def cutEither (sep sep' s : List α) : Option (List α × List α) :=
  match cut sep s, cut sep' s with
  | some r, some r' => if r.1.length < r'.1.length then some r else some r'
  | some r, none => some r
  | none, r' => r'

/-- At most `n` parts; the last one is not looked into. -/
def splitN (sep : List α) : Nat → List α → List (List α)
  | 0, _ => []
  | 1, s => [s]
  | n + 1, s =>
    match cut sep s with
    | none => [s]
    | some (a, b) => a :: splitN sep n b

/-! ## Lemmas -/

variable {sep : α} {a : List α}

/-- `sep` starts in `a ++ sep ++ b` before the end of `a` only if it fits into `a` followed by all
of `sep` but its last letter. -/
theorem cut_append {sep : List α} (b : List α) (hsep : sep ≠ []) (h : ¬ sep <:+: a ++ sep.dropLast) :
    cut sep (a ++ sep ++ b) = some (a, b) := by
  induction a with
  | nil =>
    obtain ⟨x, xs, rfl⟩ := exists_cons_of_ne_nil hsep
    rw [nil_append, cons_append, cut, if_pos]
    · rw [← cons_append, drop_left]
    · rw [List.isPrefixOf_iff_prefix]
      exact prefix_append _ _
  | cons x a ih =>
    have ha : ¬ sep <:+: a ++ sep.dropLast := fun ha => h (ha.trans (suffix_cons x _).isInfix)
    rw [cons_append, cons_append, cut, if_neg, ih ha]
    · rfl
    · intro hprefix
      rw [List.isPrefixOf_iff_prefix] at hprefix
      have hlong : (x :: a) ++ sep.dropLast <+: x :: (a ++ sep ++ b) := by
        rw [← cons_append, ← cons_append, append_assoc, prefix_append_right_inj]
        exact (List.dropLast_prefix sep).trans (prefix_append _ _)
      have hle : sep.length ≤ ((x :: a) ++ sep.dropLast).length := by
        rw [length_append, length_dropLast, length_cons]
        omega
      exact h (prefix_of_prefix_length_le hprefix hlong hle).isInfix

theorem cut_cons_append {x : α} (sep b : List α) (h : x ∉ a) :
    cut (x :: sep) (a ++ x :: b) =
      if sep.isPrefixOf b then some (a, b.drop sep.length)
      else (cut (x :: sep) b).map fun r => (a ++ x :: r.1, r.2) := by
  induction a with
  | nil =>
    rw [nil_append, cut]
    simp
  | cons y a ih =>
    have hy : x ≠ y := fun hy => h (hy ▸ mem_cons_self)
    have ha : x ∉ a := fun ha => h (mem_cons_of_mem _ ha)
    rw [cons_append, cut, if_neg (by simp [hy]), ih ha]
    split
    · rfl
    · rw [Option.map_map]
      rfl

theorem cut_singleton (b : List α) (h : sep ∉ a) : cut [sep] (a ++ sep :: b) = some (a, b) := by
  rw [cut_cons_append [] b h]
  simp

variable {b : List α}

theorem cutAtLast_append {x : α} (sep a : List α) (h : x ∉ b) :
    cutAtLast (sep ++ [x]) (a ++ (sep ++ x :: b)) = some (a, b) := by
  have hrev : (a ++ (sep ++ x :: b)).reverse = b.reverse ++ x :: (sep.reverse ++ a.reverse) := by
    simp
  rw [cutAtLast, hrev, reverse_append, reverse_singleton, singleton_append,
    cut_cons_append _ _ (by simpa using h)]
  simp

theorem cut_eq_some {sep s : List α} (h : cut sep s = some (a, b)) : s = a ++ sep ++ b := by
  induction s generalizing a with
  | nil =>
    rw [cut] at h
    split at h
    next hnil =>
      cases h
      rw [hnil]
      rfl
    · cases h
  | cons x xs ih =>
    rw [cut] at h
    split at h
    next hprefix =>
      cases h
      obtain ⟨t, ht⟩ := List.isPrefixOf_iff_prefix.mp hprefix
      rw [← ht, drop_left, nil_append]
    next =>
      rw [Option.map_eq_some_iff] at h
      obtain ⟨⟨a', b'⟩, hcut, heq⟩ := h
      cases heq
      rw [ih hcut]
      rfl

/-- The first occurrence is found: none starts earlier. -/
theorem not_infix_of_cut {sep s : List α} (hsep : sep ≠ []) (h : cut sep s = some (a, b)) :
    ¬ sep <:+: a ++ sep.dropLast := by
  induction s generalizing a with
  | nil =>
    rw [cut, if_neg hsep] at h
    cases h
  | cons x xs ih =>
    rw [cut] at h
    split at h
    next =>
      cases h
      intro hinfix
      have hle := hinfix.length_le
      have hpos := length_pos_iff.mpr hsep
      rw [nil_append, length_dropLast] at hle
      omega
    next hprefix =>
      obtain ⟨⟨a', b'⟩, hcut, heq⟩ := Option.map_eq_some_iff.mp h
      cases heq
      intro hinfix
      rw [cons_append, infix_cons_iff] at hinfix
      rcases hinfix with hstart | hlater
      · refine hprefix (List.isPrefixOf_iff_prefix.mpr (hstart.trans ?_))
        rw [cut_eq_some hcut, ← cons_append, ← cons_append, ← cons_append,
          append_assoc, prefix_append_right_inj]
        exact (List.dropLast_prefix sep).trans (prefix_append _ _)
      · exact ih hcut hlater

theorem cut_eq_some_iff {sep s : List α} (hsep : sep ≠ []) :
    cut sep s = some (a, b) ↔ s = a ++ sep ++ b ∧ ¬ sep <:+: a ++ sep.dropLast := by
  constructor
  · intro h
    exact ⟨cut_eq_some h, not_infix_of_cut hsep h⟩
  · rintro ⟨rfl, h⟩
    exact cut_append b hsep h

theorem cut_eq_none_iff {sep s : List α} (hsep : sep ≠ []) : cut sep s = none ↔ ¬ sep <:+: s := by
  constructor
  · intro h hinfix
    induction s with
    | nil => exact hsep (infix_nil.mp hinfix)
    | cons x xs ih =>
      rw [cut] at h
      split at h
      next => cases h
      next hprefix =>
        rw [Option.map_eq_none_iff] at h
        rcases infix_cons_iff.mp hinfix with hstart | hlater
        · exact hprefix (List.isPrefixOf_iff_prefix.mpr hstart)
        · exact ih h hlater
  · intro h
    cases hcut : cut sep s with
    | none => rfl
    | some r =>
      have hs := cut_eq_some (show cut sep s = some (r.1, r.2) from hcut)
      exact absurd ⟨r.1, r.2, hs.symm⟩ h

/-! ## One of two separators -/

variable {r : List α × List α}

theorem cutEither_cases {sep sep' s : List α} (h : cutEither sep sep' s = some r) :
    (cut sep s = some r ∧ ∀ r', cut sep' s = some r' → r.1.length < r'.1.length) ∨
      (cut sep' s = some r ∧ ∀ r', cut sep s = some r' → r.1.length ≤ r'.1.length) := by
  unfold cutEither at h
  split at h
  next r₁ r₂ h₁ h₂ =>
    split at h
    next hlt =>
      cases h
      refine .inl ⟨h₁, fun r' hr' => ?_⟩
      cases h₂.symm.trans hr'
      exact hlt
    next hle =>
      cases h
      refine .inr ⟨h₂, fun r' hr' => ?_⟩
      cases h₁.symm.trans hr'
      exact Nat.le_of_not_lt hle
  next r₁ h₁ h₂ =>
    cases h
    exact .inl ⟨h₁, fun r' hr' => absurd (h₂.symm.trans hr') (by simp)⟩
  next h₁ => exact .inr ⟨h, fun r' hr' => absurd (h₁.symm.trans hr') (by simp)⟩

theorem cutEither_of_left {sep sep' s : List α} (h : cut sep s = some r)
    (hfirst : ∀ r', cut sep' s = some r' → r.1.length < r'.1.length) :
    cutEither sep sep' s = some r := by
  unfold cutEither
  rw [h]
  cases h' : cut sep' s with
  | none => rfl
  | some r' => exact if_pos (hfirst r' h')

theorem cutEither_of_right {sep sep' s : List α} (h : cut sep' s = some r)
    (hfirst : ∀ r', cut sep s = some r' → r.1.length ≤ r'.1.length) :
    cutEither sep sep' s = some r := by
  unfold cutEither
  rw [h]
  cases h' : cut sep s with
  | none => rfl
  | some r' => exact if_neg (Nat.not_lt.mpr (hfirst r' h'))

/-- A separator that comes only with what follows the text starts behind any other one in the text,
unless it holds that one. -/
theorem length_lt_of_cut_append {sep sep' s more a' b' : List α} (hsep : sep ≠ [])
    (hin : ¬ sep' <:+: sep) (h : cut sep s = none) (h' : cut sep' s = some (a', b'))
    (hmore : cut sep (s ++ more) = some (a, b)) : a'.length < a.length := by
  have hs := cut_eq_some h'
  have hlong := cut_eq_some hmore
  -- `sep` ends in what follows, since it does not occur in `s`
  have hend : s.length < (a ++ sep).length := by
    refine Nat.lt_of_not_le fun hle => (cut_eq_none_iff hsep).mp h ?_
    have hprefix : a ++ sep <+: s := by
      refine prefix_of_prefix_length_le ?_ (prefix_append s more) hle
      exact hlong ▸ prefix_append _ b
    exact (suffix_append a sep).isInfix.trans hprefix.isInfix
  by_contra hle
  -- so all of `sep'` lies in it, if it does not start before `sep`
  have heq : a ++ (sep ++ b) = a' ++ (sep' ++ (b' ++ more)) := by
    rw [← append_assoc, ← hlong, hs]
    simp only [append_assoc]
  have hstart : a <+: a' :=
    prefix_of_prefix_length_le (prefix_append a (sep ++ b)) (heq ▸ prefix_append a' _) (Nat.le_of_not_lt hle)
  obtain ⟨p, rfl⟩ := hstart
  have htail : sep ++ b = p ++ sep' ++ (b' ++ more) := by
    rw [append_assoc] at heq ⊢
    exact append_cancel_left heq
  have hlength : (p ++ sep').length ≤ sep.length := by
    simp only [hs, length_append] at hend ⊢
    omega
  have hwithin : p ++ sep' <+: sep :=
    prefix_of_prefix_length_le (htail ▸ prefix_append _ _) (prefix_append sep b) hlength
  exact hin ((suffix_append p sep').isInfix.trans hwithin.isInfix)

/-! ## Separators at a seam

A separator does not lie across the seam of two texts if the letter on one side of the seam is
not one of its letters. -/

def StartsOutside (sep s : List α) : Prop := ∀ c, s.head? = some c → c ∉ sep

def EndsOutside (sep s : List α) : Prop := ∀ c, s.getLast? = some c → c ∉ sep

omit [DecidableEq α] in
theorem infix_append_of_startsOutside {sep s t : List α} (ht : StartsOutside sep t)
    (h : sep <:+: s ++ t) : sep <:+: s ∨ sep <:+: t := by
  rcases infix_append_iff.mp h with h | h | ⟨u, v, rfl, hu, hv⟩
  · exact .inl h
  · exact .inr h
  · cases v with
    | nil =>
      rw [append_nil]
      exact .inl hu.isInfix
    | cons c v =>
      obtain ⟨t, rfl⟩ := hv
      exact absurd (mem_append_right u mem_cons_self) (ht c rfl)

variable {parts : List (List α)}

omit [DecidableEq α] in
theorem not_infix_flatten {sep : List α} (hsep : sep ≠ [])
    (h : ∀ part ∈ parts, StartsOutside sep part ∧ ¬ sep <:+: part) :
    StartsOutside sep parts.flatten ∧ ¬ sep <:+: parts.flatten := by
  induction parts with
  | nil => exact ⟨fun c hc => absurd hc (by simp), fun hin => hsep (infix_nil.mp hin)⟩
  | cons part parts ih =>
    obtain ⟨hstarts, hin⟩ := h part mem_cons_self
    obtain ⟨hrest, hno⟩ := ih fun q hq => h q (mem_cons_of_mem part hq)
    constructor
    · cases part with
      | nil => exact hrest
      | cons c part => exact hstarts
    · intro hinfix
      rcases infix_append_of_startsOutside hrest hinfix with hinfix | hinfix
      · exact hin hinfix
      · exact hno hinfix

omit [DecidableEq α] in
theorem infix_append_of_endsOutside {sep s t : List α} (hs : EndsOutside sep s)
    (h : sep <:+: s ++ t) : sep <:+: s ∨ sep <:+: t := by
  rcases infix_append_iff.mp h with h | h | ⟨u, v, rfl, hu, hv⟩
  · exact .inl h
  · exact .inr h
  · rcases eq_nil_or_concat' u with rfl | ⟨u, c, rfl⟩
    · exact .inr hv.isInfix
    · obtain ⟨s, rfl⟩ := hu
      have hlast : (s ++ (u ++ [c])).getLast? = some c := by
        rw [← append_assoc, getLast?_concat]
      exact absurd (mem_append_left v (mem_append_right u mem_cons_self)) (hs c hlast)

theorem cutLast_of_notMem (h : sep ∉ b) : cutLast sep b = none := by
  induction b with
  | nil => rfl
  | cons x b ih =>
    have hx : x ≠ sep := fun hx => h (hx ▸ mem_cons_self)
    have hb : sep ∉ b := fun hb => h (mem_cons_of_mem _ hb)
    rw [cutLast, ih hb]
    exact if_neg hx

theorem cutLast_append (a : List α) (h : sep ∉ b) : cutLast sep (a ++ sep :: b) = some (a, b) := by
  induction a with
  | nil =>
    rw [nil_append, cutLast, cutLast_of_notMem h]
    exact if_pos rfl
  | cons x a ih =>
    rw [cons_append, cutLast, ih]

theorem splitN_three (c : List α) (ha : sep ∉ a) (hb : sep ∉ b) :
    splitN [sep] 3 (a ++ sep :: (b ++ sep :: c)) = [a, b, c] := by
  simp only [splitN, cut_singleton _ ha, cut_singleton _ hb]

theorem cut_singleton_iff {s : List α} : cut [sep] s = some (a, b) ↔ s = a ++ sep :: b ∧ sep ∉ a := by
  rw [cut_eq_some_iff (by simp)]
  simp [singleton_infix_iff]

theorem splitN_eq_cons_iff {n : Nat} {s : List α} (hparts : parts ≠ []) :
    splitN [sep] (n + 2) s = a :: parts ↔
      ∃ b, s = a ++ sep :: b ∧ sep ∉ a ∧ splitN [sep] (n + 1) b = parts := by
  rw [splitN.eq_3 _ _ _ (by simp)]
  constructor
  · intro h
    split at h
    · cases h
      exact absurd rfl hparts
    · next b hcut =>
      cases h
      obtain ⟨hs, ha⟩ := cut_singleton_iff.mp hcut
      exact ⟨b, hs, ha, rfl⟩
  · rintro ⟨b, hs, ha, rfl⟩
    rw [cut_singleton_iff.mpr ⟨hs, ha⟩]

theorem splitN_two_iff {s : List α} : splitN [sep] 2 s = [a, b] ↔ s = a ++ sep :: b ∧ sep ∉ a := by
  rw [splitN_eq_cons_iff (by simp)]
  constructor
  · rintro ⟨b', rfl, ha, hb⟩
    cases hb
    exact ⟨rfl, ha⟩
  · rintro ⟨rfl, ha⟩
    exact ⟨b, rfl, ha, rfl⟩

/-! ## Joined parts -/

omit [DecidableEq α] in
theorem flatMap_append_sep (sep : List α) (parts : List (List α)) (h : parts ≠ []) :
    (parts.flatMap fun part => part ++ sep) = sep.intercalate parts ++ sep := by
  induction parts with
  | nil => exact absurd rfl h
  | cons part parts ih =>
    rw [flatMap_cons]
    by_cases hnil : parts = []
    · subst hnil
      simp
    · rw [ih hnil, intercalate_cons_of_ne_nil hnil]
      simp

omit [DecidableEq α] in
theorem notMem_intercalate {x : α} (hsep : x ≠ sep) (h : ∀ part ∈ parts, x ∉ part) :
    x ∉ [sep].intercalate parts := by
  induction parts with
  | nil => simp
  | cons part parts ih =>
    by_cases hnil : parts = []
    · subst hnil
      simpa using h
    · rw [intercalate_cons_of_ne_nil hnil]
      simp only [mem_append, mem_singleton, not_or]
      exact ⟨⟨h part mem_cons_self, hsep⟩, ih fun q hq => h q (mem_cons_of_mem _ hq)⟩

omit [DecidableEq α] in
theorem not_of_mem_splitOnP {p : α → Bool} {l part : List α} (h : part ∈ l.splitOnP p) :
    ∀ x ∈ part, p x = false := by
  induction l generalizing part with
  | nil =>
    rw [splitOnP_nil, mem_singleton] at h
    simp [h]
  | cons a l ih =>
    rw [splitOnP_cons_eq_if_modifyHead] at h
    by_cases ha : p a = true
    · rw [if_pos ha] at h
      rcases mem_cons.mp h with rfl | h
      · simp
      · exact ih h
    · obtain ⟨front, parts, hl⟩ := exists_cons_of_ne_nil (splitOnP_ne_nil p l)
      rw [if_neg ha, hl] at h
      rcases mem_cons.mp h with rfl | h
      · exact forall_mem_cons.mpr ⟨by simpa using ha, ih (hl ▸ mem_cons_self)⟩
      · exact ih (hl ▸ mem_cons_of_mem front h)

theorem notMem_of_mem_splitOn {l part : List α} (h : part ∈ l.splitOn sep) : sep ∉ part := by
  intro hmem
  simpa using not_of_mem_splitOnP h sep hmem

end AgentRouter.Cut
