import Mathlib.Algebra.GroupWithZero.Nat
import Mathlib.Algebra.Order.BigOperators.Group.List
import Mathlib.Algebra.Order.Group.Nat
import Mathlib.Data.List.Forall2

/-!
# Grouping: a sequence that is made of one group for each item

`Grouped R items out` says that `out` is cut into groups, one for each item and in their order, such
that each item is related to its group.  If an item weighs as much as its group, and what is made of
an item weighs less where it is not related to it, there is no other way to cut the sequence that
would make up for this:

    Grouped R items (items.flatMap f)  ↔  every item is related to what is made of it
      (grouped_flatMap_iff)
-/

namespace AgentRouter

open List

variable {α β : Type}

def Grouped (R : α → List β → Prop) (items : List α) (out : List β) : Prop :=
  ∃ groups : List (List β), out = groups.flatten ∧ List.Forall₂ R items groups

variable {R : α → List β → Prop} {items : List α} {out : List β}

namespace Grouped

theorem nil : Grouped R [] [] := ⟨[], rfl, .nil⟩

theorem cons {a : α} {g : List β} (ha : R a g) (h : Grouped R items out) :
    Grouped R (a :: items) (g ++ out) := by
  obtain ⟨groups, rfl, hgroups⟩ := h
  exact ⟨g :: groups, rfl, .cons ha hgroups⟩

theorem singleton {a : α} (ha : R a out) : Grouped R [a] out := by
  have h := cons ha (nil (R := R))
  rwa [append_nil] at h

theorem flatMap {f : α → List β} (h : ∀ a ∈ items, R a (f a)) : Grouped R items (items.flatMap f) := by
  induction items with
  | nil => exact nil
  | cons a items ih =>
    exact cons (h a mem_cons_self) (ih fun a' ha' => h a' (mem_cons_of_mem a ha'))

theorem sum_eq {w : α → Nat} {v : β → Nat} (hweight : ∀ a g, R a g → (g.map v).sum = w a)
    (h : Grouped R items out) : (out.map v).sum = (items.map w).sum := by
  obtain ⟨groups, rfl, hgroups⟩ := h
  induction hgroups with
  | nil => rfl
  | @cons a group items groups ha _ ih =>
    rw [flatten_cons, map_append, sum_append, ih, hweight a group ha, map_cons, sum_cons]

end Grouped

/-- Sums of terms of which none is greater are the same only if the terms are. -/
theorem sum_map_eq_iff {f g : α → Nat} {l : List α} (hle : ∀ x ∈ l, f x ≤ g x) :
    (l.map f).sum = (l.map g).sum ↔ ∀ x ∈ l, g x = f x := by
  induction l with
  | nil => simp
  | cons x l ih =>
    have hhead := hle x mem_cons_self
    have htail := ih fun y hy => hle y (mem_cons_of_mem x hy)
    have hsum : (l.map f).sum ≤ (l.map g).sum :=
      sum_le_sum fun y hy => hle y (mem_cons_of_mem x hy)
    rw [forall_mem_cons, ← htail, map_cons, map_cons, sum_cons, sum_cons]
    omega

theorem sum_map_flatMap (v : β → Nat) (f : α → List β) (items : List α) :
    ((items.flatMap f).map v).sum = (items.map fun a => ((f a).map v).sum).sum := by
  rw [map_flatMap, flatMap_def, sum_flatten, map_map]
  rfl

/-- A group that does not suit its item weighs less: then no other groups do either. -/
theorem grouped_flatMap_iff {f : α → List β} {w : α → Nat} {v : β → Nat}
    (hweight : ∀ a g, R a g → (g.map v).sum = w a)
    (hlight : ∀ a, ¬ R a (f a) → ((f a).map v).sum < w a) (items : List α) :
    Grouped R items (items.flatMap f) ↔ ∀ a ∈ items, R a (f a) := by
  have hle : ∀ a, ((f a).map v).sum ≤ w a := by
    intro a
    by_cases ha : R a (f a)
    · exact Nat.le_of_eq (hweight a (f a) ha)
    · exact Nat.le_of_lt (hlight a ha)
  constructor
  · intro h a ha
    have hsum := h.sum_eq hweight
    rw [sum_map_flatMap] at hsum
    have heq : w a = ((f a).map v).sum := (sum_map_eq_iff fun a _ => hle a).mp hsum a ha
    by_contra hno
    have hlt := hlight a hno
    omega
  · intro h
    exact Grouped.flatMap h

end AgentRouter
