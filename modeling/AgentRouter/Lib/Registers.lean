import Mathlib.Data.List.Basic

/-!
# Registers: values that the last write decides

Each register `f` is written by some of the elements of a list: `w f a` is what the element `a` writes
to it.  A program that goes through the list and keeps its registers in a state of its own ends with
the last writes:

    Rep s r  →  Rep (l.foldl step s) (fun f => lastOf (w f) (r f) l)   (represents_foldl)

if one step for an element stands for its writes.
-/

namespace AgentRouter.Registers

open List

variable {α β φ σ : Type}

/-- The last write, or the value before all of them. -/
def lastOf (w : α → Option β) (d : β) (l : List α) : β := (l.filterMap w).getLast?.getD d

def write (w : φ → α → Option β) (r : φ → β) (a : α) : φ → β := fun f => (w f a).getD (r f)

theorem lastOf_cons (w : α → Option β) (d : β) (a : α) (l : List α) :
    lastOf w d (a :: l) = lastOf w ((w a).getD d) l := by
  cases hw : w a with
  | none => rw [lastOf, filterMap_cons_none hw, Option.getD_none, lastOf]
  | some v =>
    rw [lastOf, filterMap_cons_some hw, Option.getD_some, lastOf, getLast?_cons, Option.getD_some]

theorem lastOf_append (w : α → Option β) (d : β) (l l' : List α) :
    lastOf w d (l ++ l') = lastOf w (lastOf w d l) l' := by
  induction l generalizing d with
  | nil => rfl
  | cons a l ih => rw [cons_append, lastOf_cons, ih, lastOf_cons]

theorem represents_foldl (w : φ → α → Option β) (Rep : σ → (φ → β) → Prop) {step : σ → α → σ}
    {l : List α} (hstep : ∀ a ∈ l, ∀ s r, Rep s r → Rep (step s a) (write w r a)) {s : σ}
    {r : φ → β} (h : Rep s r) : Rep (l.foldl step s) (fun f => lastOf (w f) (r f) l) := by
  induction l generalizing s r with
  | nil => exact h
  | cons a l ih =>
    simp only [foldl_cons, lastOf_cons]
    exact ih (fun a' ha' => hstep a' (mem_cons_of_mem a ha')) (hstep a mem_cons_self s r h)

end AgentRouter.Registers
