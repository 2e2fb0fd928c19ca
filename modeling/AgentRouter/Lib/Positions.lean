import Mathlib.Data.List.Basic

/-!
# Positions: when a selection keeps the positions of a list

Two loops over one list, where the second also skips the entries that fail `p`,
stay aligned exactly when nothing that fails `p` stands before something that
passes it:

    (∀ k x, (l.filter p)[k]? = some x → l[k]? = some x) ↔ l.Pairwise (fun a b => p b → p a)
      (filter_aligned_iff_pairwise)

A loop that ends behind the first entry that satisfies `p` goes through the whole list
exactly when no entry but the last satisfies `p` (throughFirst_eq_self_iff).
-/

namespace AgentRouter.Positions

open List

variable {α : Type}

/-- The selection by `p` leaves every selected entry at its position. -/
def Aligned (p : α → Bool) (l : List α) : Prop :=
  ∀ (k : Nat) (x : α), (l.filter p)[k]? = some x → l[k]? = some x

theorem filter_aligned_iff_pairwise (p : α → Bool) (l : List α) :
    Aligned p l ↔ l.Pairwise fun a b => p b = true → p a = true := by
  induction l with
  | nil => simp [Aligned]
  | cons a l ih =>
    rw [pairwise_cons]
    by_cases ha : p a = true
    · -- a selected head: both lists move on by one
      have hshift : Aligned p (a :: l) ↔ Aligned p l := by
        unfold Aligned
        rw [filter_cons_of_pos ha]
        constructor
        · intro h k x hk
          exact h (k + 1) x hk
        · intro h k x hk
          cases k with
          | zero => exact hk
          | succ k => exact h k x hk
      rw [hshift, ih]
      simp [ha]
    · -- a skipped head: nothing behind it may be selected
      constructor
      · intro h
        have hnil : l.filter p = [] := by
          cases hf : l.filter p with
          | nil => rfl
          | cons x rest =>
            have hx : (a :: l)[0]? = some x := h 0 x (by rw [filter_cons_of_neg ha, hf]; rfl)
            have hax : a = x := Option.some.inj hx
            have hpx : p x = true := (mem_filter.mp (hf ▸ mem_cons_self)).2
            exact absurd (hax ▸ hpx) ha
        have hall : ∀ b ∈ l, ¬ p b = true := filter_eq_nil_iff.mp hnil
        refine ⟨fun b hb hpb => absurd hpb (hall b hb), ?_⟩
        exact pairwise_of_forall_mem_list fun x _ b hb hpb => absurd hpb (hall b hb)
      · rintro ⟨h, -⟩ k x hk
        rw [filter_cons_of_neg ha] at hk
        have hx := mem_filter.mp (mem_of_getElem? hk)
        exact absurd (h x hx.1 hx.2) ha

/-! ## Up to the first hit -/

section

variable {α β : Type}

/-- The elements up to the first one that satisfies `p`, that one included. -/
def throughFirst (p : α → Bool) : List α → List α
  | [] => []
  | x :: xs => if p x then [x] else x :: throughFirst p xs

variable (p : α → Bool)

theorem throughFirst_initialSegment (l : List α) : throughFirst p l <+: l := by
  induction l with
  | nil => exact prefix_rfl
  | cons x xs ih =>
    rw [throughFirst]
    split
    · exact ⟨xs, rfl⟩
    · exact cons_prefix_cons.mpr ⟨rfl, ih⟩

theorem throughFirst_eq_self_iff (l : List α) : throughFirst p l = l ↔ ∀ x ∈ l.dropLast, p x = false := by
  induction l with
  | nil => simp [throughFirst]
  | cons x xs ih =>
    rw [throughFirst]
    cases xs with
    | nil => cases p x <;> simp [throughFirst]
    | cons y ys =>
      by_cases hx : p x = true
      · rw [if_pos hx]
        constructor
        · intro h
          cases h
        · intro h
          rw [h x mem_cons_self] at hx
          cases hx
      · rw [if_neg hx, List.cons.injEq, ih]
        simp [hx]

theorem map_throughFirst_eq_iff (f : α → β) (l : List α) :
    (throughFirst p l).map f = l.map f ↔ ∀ x ∈ l.dropLast, p x = false := by
  rw [← throughFirst_eq_self_iff]
  constructor
  · intro h
    have hlen := congrArg List.length h
    rw [length_map, length_map] at hlen
    exact (throughFirst_initialSegment p l).eq_of_length hlen
  · intro h
    rw [h]

end

/-! ## Changing one entry -/

theorem map_modify {β : Type} {f : α → α} {g : α → β} {f' : β → β} (h : ∀ a, g (f a) = f' (g a))
    (l : List α) (i : Nat) : (l.modify i f).map g = (l.map g).modify i f' := by
  apply ext_getElem?
  intro j
  rw [getElem?_map, getElem?_modify, getElem?_modify, getElem?_map]
  cases l[j]? with
  | none => rfl
  | some a =>
    by_cases hij : i = j
    · simp [hij, h]
    · simp [hij]

theorem map_modify_of_comp {β : Type} {f : α → α} {g : α → β} (h : ∀ a, g (f a) = g a)
    (l : List α) (i : Nat) : (l.modify i f).map g = l.map g := by
  rw [map_modify (show ∀ a, g (f a) = id (g a) from h), modify_id]

theorem modify_concat (l : List α) (a : α) (f : α → α) : (l ++ [a]).modify l.length f = l ++ [f a] :=
  modifyTailIdx_add (List.modifyHead f) 0 l [a]

theorem map_mapIdx_of_comp {β γ : Type} {f : Nat → α → β} {g : β → γ} {g' : α → γ}
    (h : ∀ k a, g (f k a) = g' a) (l : List α) : (l.mapIdx f).map g = l.map g' := by
  apply ext_getElem?
  intro k
  rw [getElem?_map, getElem?_mapIdx, getElem?_map]
  cases l[k]? with
  | none => rfl
  | some a => exact congrArg some (h k a)

/-! ## Two selections from one list -/

/-- A selection that takes no more than another is the same only if it takes the same of each
element. -/
theorem filterMap_eq_filterMap_iff {β : Type} {f g : α → Option β}
    (h : ∀ a, f a = none → g a = none) (l : List α) :
    l.filterMap f = l.filterMap g ↔ ∀ a ∈ l, f a = g a := by
  have hshort : ∀ l : List α, (l.filterMap g).length ≤ (l.filterMap f).length := by
    intro l
    rw [length_filterMap_eq_countP, length_filterMap_eq_countP]
    refine countP_mono_left fun a _ hg => ?_
    cases hf : f a with
    | none => simp [h a hf] at hg
    | some b => rfl
  induction l with
  | nil => simp
  | cons a l ih =>
    rw [forall_mem_cons]
    cases hf : f a with
    | none =>
      have hg := h a hf
      rw [filterMap_cons_none hf, filterMap_cons_none hg, hg]
      exact ih.trans (and_iff_right rfl).symm
    | some b =>
      rw [filterMap_cons_some hf]
      cases hg : g a with
      | none =>
        rw [filterMap_cons_none hg]
        constructor
        · intro heq
          have hlen := congrArg List.length heq
          have hle := hshort l
          rw [length_cons] at hlen
          omega
        · rintro ⟨heq, -⟩
          cases heq
      | some b' =>
        rw [filterMap_cons_some hg, List.cons.injEq, Option.some.injEq]
        exact and_congr_right' ih

end AgentRouter.Positions
