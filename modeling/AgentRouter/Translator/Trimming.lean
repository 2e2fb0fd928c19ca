import AgentRouter.Translator.SSE

/-!
# Trimming: what `bytes.TrimSpace` takes away

`dropWords` takes words off the front.  If no word is the start of another one there is only one
way to do that, so any way to write the input as words and a rest that starts with none of them
is the one `dropWords` finds:

    ws.flatten ++ t, no word starts t  →  dropWords leaves t   (dropWords_eq)

The spaces are such words, read forwards and backwards, and what is known of both sides of a text
with a letter that is not part of any space follows (trimSpace_append_solid).
-/

namespace AgentRouter.SSE

open List

/-! ## Words -/

section

variable {words : List Bytes}

/-- No word is empty, and none is the start of another one. -/
structure PrefixCode (words : List Bytes) : Prop where
  nonempty : ∀ w ∈ words, w ≠ []
  eq_of_isPrefix : ∀ v ∈ words, ∀ w ∈ words, v <+: w → v = w

/-- No word stands at the front. -/
def Blocked (words : List Bytes) (t : Bytes) : Prop := ∀ w ∈ words, ¬ w <+: t

variable {t : Bytes}

theorem dropWords_of_blocked (h : Blocked words t) (fuel : Nat) : dropWords words fuel t = t := by
  cases fuel with
  | zero => rfl
  | succ fuel =>
    have hfind : (words.find? fun w => w.isPrefixOf t) = none := by
      rw [find?_eq_none]
      intro w hw hfront
      exact h w hw (List.isPrefixOf_iff_prefix.mp hfront)
    rw [dropWords, hfind]

theorem dropWords_append (hcode : PrefixCode words) {w : Bytes} (hw : w ∈ words) (t : Bytes)
    (fuel : Nat) : dropWords words (fuel + 1) (w ++ t) = dropWords words fuel t := by
  have hfind : (words.find? fun v => v.isPrefixOf (w ++ t)) = some w := by
    cases hf : words.find? fun v => v.isPrefixOf (w ++ t) with
    | none =>
      rw [find?_eq_none] at hf
      exact absurd (List.isPrefixOf_iff_prefix.mpr (prefix_append w t)) (hf w hw)
    | some v =>
      have hv := mem_of_find?_eq_some hf
      have hfound : v.isPrefixOf (w ++ t) = true :=
        find?_some (p := fun v : Bytes => v.isPrefixOf (w ++ t)) hf
      have hfront := List.isPrefixOf_iff_prefix.mp hfound
      rcases List.prefix_or_prefix_of_prefix hfront (prefix_append w t) with hvw | hwv
      · rw [hcode.eq_of_isPrefix v hv w hw hvw]
      · rw [hcode.eq_of_isPrefix w hw v hv hwv]
  rw [dropWords, hfind]
  dsimp only
  rw [drop_left]

variable {ws : List Bytes}

theorem dropWords_eq (hcode : PrefixCode words) (hws : ∀ w ∈ ws, w ∈ words) (ht : Blocked words t)
    {fuel : Nat} (hfuel : (ws.flatten ++ t).length ≤ fuel) :
    dropWords words fuel (ws.flatten ++ t) = t := by
  induction ws generalizing fuel with
  | nil => exact dropWords_of_blocked ht fuel
  | cons w ws ih =>
    have hw := hws w mem_cons_self
    have hpos := length_pos_iff.mpr (hcode.nonempty w hw)
    rw [flatten_cons, append_assoc, length_append] at hfuel
    obtain ⟨fuel, rfl⟩ : ∃ n, fuel = n + 1 := ⟨fuel - 1, by omega⟩
    rw [flatten_cons, append_assoc, dropWords_append hcode hw]
    exact ih (fun v hv => hws v (mem_cons_of_mem w hv)) (by omega)

theorem exists_words (hcode : PrefixCode words) (s : Bytes) :
    ∃ (ws : List Bytes) (t : Bytes), (∀ w ∈ ws, w ∈ words) ∧ Blocked words t ∧ s = ws.flatten ++ t := by
  induction hn : s.length using Nat.strongRecOn generalizing s with
  | ind n ih =>
    by_cases hblocked : Blocked words s
    · exact ⟨[], s, fun _ hw => (not_mem_nil hw).elim, hblocked, rfl⟩
    · unfold Blocked at hblocked
      push Not at hblocked
      obtain ⟨w, hw, t, rfl⟩ := hblocked
      have hpos := length_pos_iff.mpr (hcode.nonempty w hw)
      rw [length_append] at hn
      obtain ⟨ws, u, hws, hu, rfl⟩ := ih t.length (by omega) t rfl
      refine ⟨w :: ws, u, forall_mem_cons.mpr ⟨hw, hws⟩, hu, ?_⟩
      rw [flatten_cons, append_assoc]

/-- All words off the front. -/
def strip (words : List Bytes) (s : Bytes) : Bytes := dropWords words s.length s

section

variable (hcode : PrefixCode words)
include hcode

theorem strip_eq (hws : ∀ w ∈ ws, w ∈ words) (ht : Blocked words t) : strip words (ws.flatten ++ t) = t :=
  dropWords_eq hcode hws ht (Nat.le_refl _)

theorem strip_isSuffix (s : Bytes) : strip words s <:+ s := by
  obtain ⟨ws, t, hws, ht, rfl⟩ := exists_words hcode s
  rw [strip_eq hcode hws ht]
  exact suffix_append _ _

theorem strip_word_append {w : Bytes} (hw : w ∈ words) (s : Bytes) :
    strip words (w ++ s) = strip words s := by
  obtain ⟨ws, t, hws, ht, rfl⟩ := exists_words hcode s
  have hall : ∀ v ∈ w :: ws, v ∈ words := forall_mem_cons.mpr ⟨hw, hws⟩
  have hcons := strip_eq hcode hall ht
  rw [flatten_cons, append_assoc] at hcons
  rw [hcons, strip_eq hcode hws ht]

theorem strip_letters_append {u : Bytes} (hu : ∀ c ∈ u, [c] ∈ words) (s : Bytes) :
    strip words (u ++ s) = strip words s := by
  induction u with
  | nil => rfl
  | cons c u ih =>
    have hc := strip_word_append hcode (hu c mem_cons_self) (u ++ s)
    exact hc.trans (ih fun d hd => hu d (mem_cons_of_mem c hd))

variable {c : UInt8}

theorem strip_append_solid (hc : ∀ w ∈ words, c ∉ w) (u v : Bytes) :
    strip words (u ++ c :: v) = strip words u ++ c :: v := by
  obtain ⟨ws, t, hws, ht, rfl⟩ := exists_words hcode u
  have hblocked : Blocked words (t ++ c :: v) := by
    intro w hw hfront
    rcases List.prefix_or_prefix_of_prefix hfront (prefix_append t (c :: v)) with
      hshort | hlong
    · exact ht w hw hshort
    · -- the word goes beyond `t`, so the letter is in it
      obtain ⟨x, rfl⟩ := hlong
      rw [prefix_append_right_inj] at hfront
      cases x with
      | nil =>
        rw [append_nil] at hw
        exact ht t hw prefix_rfl
      | cons d x =>
        obtain ⟨rfl, -⟩ := cons_prefix_cons.mp hfront
        exact hc _ hw (mem_append_right t mem_cons_self)
  rw [append_assoc, strip_eq hcode hws hblocked, strip_eq hcode hws ht]

end

end

/-! ## Spaces -/

theorem prefixCode_spaces : PrefixCode spaces := ⟨by decide, by decide⟩

theorem prefixCode_reverse_spaces : PrefixCode (spaces.map List.reverse) :=
  ⟨by decide, by decide⟩

/-- A letter that is in no space. -/
def Solid (c : UInt8) : Prop := ∀ w ∈ spaces, c ∉ w

instance (c : UInt8) : Decidable (Solid c) := inferInstanceAs (Decidable (∀ w ∈ spaces, c ∉ w))

/-- A text of spaces that are one byte each. -/
def White (s : Bytes) : Prop := ∀ c ∈ s, [c] ∈ spaces

instance (s : Bytes) : Decidable (White s) := List.decidableBAll (fun c => [c] ∈ spaces) s

theorem white_nil : White [] := by
  intro c hc
  cases hc

variable {s : Bytes}

theorem White.left (h : White (s ++ t)) : White s := fun c hc =>
  h c (mem_append_left t hc)

theorem White.right (h : White (s ++ t)) : White t := fun c hc =>
  h c (mem_append_right s hc)

theorem trimLeftSpace_append_solid (hc : Solid c) (u v : Bytes) :
    trimLeftSpace (u ++ c :: v) = trimLeftSpace u ++ c :: v :=
  strip_append_solid prefixCode_spaces hc u v

theorem trimLeftSpace_white_append (hs : White s) (t : Bytes) : trimLeftSpace (s ++ t) = trimLeftSpace t :=
  strip_letters_append prefixCode_spaces hs t

theorem trimLeftSpace_of_white (hs : White s) : trimLeftSpace s = [] := by
  have h := trimLeftSpace_white_append hs []
  rw [append_nil] at h
  exact h

theorem trimRightSpace_eq (s : Bytes) :
    trimRightSpace s = (strip (spaces.map List.reverse) s.reverse).reverse := by
  unfold trimRightSpace strip
  rw [length_reverse]

theorem trimRightSpace_append_solid (hc : Solid c) (u v : Bytes) :
    trimRightSpace (u ++ c :: v) = u ++ c :: trimRightSpace v := by
  have hrev : ∀ w ∈ spaces.map List.reverse, c ∉ w := by
    refine forall_mem_map.mpr fun v hv => ?_
    rw [mem_reverse]
    exact hc v hv
  rw [trimRightSpace_eq, trimRightSpace_eq, reverse_append, reverse_cons,
    append_assoc, singleton_append, strip_append_solid prefixCode_reverse_spaces hrev, reverse_append,
    reverse_cons, reverse_reverse, append_assoc, singleton_append]

theorem trimRightSpace_append_white (t : Bytes) (hs : White s) :
    trimRightSpace (t ++ s) = trimRightSpace t := by
  have hrev : ∀ c ∈ s.reverse, [c] ∈ spaces.map List.reverse := by
    intro c hc
    exact mem_map.mpr ⟨[c], hs c (mem_reverse.mp hc), rfl⟩
  rw [trimRightSpace_eq, trimRightSpace_eq, reverse_append,
    strip_letters_append prefixCode_reverse_spaces hrev]

theorem trimRightSpace_of_white (hs : White s) : trimRightSpace s = [] :=
  trimRightSpace_append_white [] hs

/-- A text that ends with no space. -/
def Ended (s : Bytes) : Prop := ∀ w ∈ spaces, ¬ w <:+ s

theorem ended_nil : Ended [] := by
  intro w hw hsuffix
  exact prefixCode_spaces.nonempty w hw (suffix_nil.mp hsuffix)

theorem trimRightSpace_of_ended (hs : Ended s) : trimRightSpace s = s := by
  have hblocked : Blocked (spaces.map List.reverse) s.reverse := by
    intro w hw hfront
    obtain ⟨v, hv, rfl⟩ := mem_map.mp hw
    exact hs v hv <| reverse_prefix.mp hfront
  rw [trimRightSpace_eq, strip, dropWords_of_blocked hblocked, reverse_reverse]

theorem trimRightSpace_isPrefix (s : Bytes) : trimRightSpace s <+: s := by
  rw [trimRightSpace_eq, ← reverse_suffix, reverse_reverse]
  exact strip_isSuffix prefixCode_reverse_spaces _

theorem trimSpace_append_solid (hc : Solid c) (u v : Bytes) :
    trimSpace (u ++ c :: v) = trimLeftSpace u ++ c :: trimRightSpace v := by
  unfold trimSpace
  rw [trimLeftSpace_append_solid hc, trimRightSpace_append_solid hc]

theorem trimSpace_of_white (hs : White s) : trimSpace s = [] := by
  unfold trimSpace
  rw [trimLeftSpace_of_white hs]
  rfl

theorem trimSpace_white_append (hs : White s) (t : Bytes) : trimSpace (s ++ t) = trimSpace t := by
  unfold trimSpace
  rw [trimLeftSpace_white_append hs]

theorem trimSpace_append_white (hc : Solid c) (hs : c ∈ s) (ht : White t) :
    trimSpace (s ++ t) = trimSpace s := by
  obtain ⟨u, v, rfl⟩ := append_of_mem hs
  rw [append_assoc, cons_append, trimSpace_append_solid hc, trimSpace_append_solid hc,
    trimRightSpace_append_white v ht]

theorem trimSpace_isInfix (s : Bytes) : trimSpace s <:+: s := by
  have hleft : trimLeftSpace s <:+ s := strip_isSuffix prefixCode_spaces s
  exact (trimRightSpace_isPrefix (trimLeftSpace s)).isInfix.trans hleft.isInfix

end AgentRouter.SSE
