import Mathlib.Data.List.Forall2

/-!
# Results: loops that stop at the first error

A Go loop that returns on the first error is `List.mapM` in `Except`; wrapping the
error with a context is `Except.mapError`.
-/

namespace AgentRouter.Results

open List

variable {α β ε ε' : Type} {r : Except ε α}

theorem mapError_eq_ok {f : ε → ε'} {a : α} : r.mapError f = .ok a ↔ r = .ok a := by
  cases r with
  | error e | ok b => simp [Except.mapError]

theorem map_eq_ok {f : α → β} {y : β} (h : r.map f = .ok y) : ∃ x, r = .ok x ∧ y = f x := by
  cases r with
  | error e => cases h
  | ok x =>
    cases h
    exact ⟨x, rfl, rfl⟩

theorem map_isOk {f : α → β} : (∃ b, r.map f = .ok b) ↔ ∃ a, r = .ok a := by
  cases r with
  | error e | ok a => simp [Except.map]

variable {f : α → Except ε β}

theorem bind_eq_ok {y : β} (h : (r >>= f) = .ok y) : ∃ x, r = .ok x ∧ f x = .ok y := by
  cases r with
  | error e => cases h
  | ok x => exact ⟨x, rfl, h⟩

variable {ys : List β}

theorem forall₂_of_mapM_eq_ok (xs : List α) (h : xs.mapM f = .ok ys) :
    List.Forall₂ (fun x y => f x = .ok y) xs ys := by
  induction xs generalizing ys with
  | nil =>
    cases h
    exact .nil
  | cons x xs ih =>
    rw [mapM_cons] at h
    obtain ⟨y, hy, h⟩ := bind_eq_ok h
    obtain ⟨zs, hzs, h⟩ := bind_eq_ok h
    cases h
    exact .cons hy (ih hzs)

theorem exists_of_forall₂ {R : α → β → Prop} {xs : List α} (h : List.Forall₂ R xs ys) :
    ∀ y ∈ ys, ∃ x ∈ xs, R x y := by
  induction h with
  | nil => simp
  | cons hx _ ih =>
    intro y hy
    rcases mem_cons.mp hy with rfl | hy
    · exact ⟨_, mem_cons_self, hx⟩
    · obtain ⟨x, hmem, hxy⟩ := ih y hy
      exact ⟨x, mem_cons_of_mem _ hmem, hxy⟩

theorem mem_mapM {xs : List α} (h : xs.mapM f = .ok ys) :
    (∀ y ∈ ys, ∃ x ∈ xs, f x = .ok y) ∧ ∀ x ∈ xs, ∃ y ∈ ys, f x = .ok y := by
  have hall := forall₂_of_mapM_eq_ok xs h
  exact ⟨exists_of_forall₂ hall, exists_of_forall₂ hall.flip⟩

end AgentRouter.Results
