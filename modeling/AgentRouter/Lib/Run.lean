import Mathlib.Logic.Basic

/-!
# Run: states reached step by step

`Run step init s`: the system that starts in `init` and makes steps can be in `s`.
An invariant of the first state that each step keeps holds of every such `s`.
-/

namespace AgentRouter

variable {σ α : Type}

inductive Run (step : σ → α → σ → Prop) (init : σ) : σ → Prop
  | start : Run step init init
  | next {s s' : σ} (a : α) : Run step init s → step s a s' → Run step init s'

variable {step : σ → α → σ → Prop}

theorem Run.invariant {init : σ} (Inv : σ → Prop) (h0 : Inv init)
    (hstep : ∀ s a s', Inv s → step s a s' → Inv s') {s : σ} (h : Run step init s) : Inv s := by
  induction h with
  | start => exact h0
  | next a _ hs ih => exact hstep _ a _ ih hs

theorem Run.foldl {init s : σ} {f : σ → α → σ} (actions : List α)
    (h : ∀ a ∈ actions, ∀ s, step s a (f s a)) (hrun : Run step init s) :
    Run step init (actions.foldl f s) := by
  induction actions generalizing s with
  | nil => exact hrun
  | cons a rest ih =>
    exact ih (fun b hb => h b (List.mem_cons_of_mem _ hb)) (.next a hrun (h a List.mem_cons_self s))

end AgentRouter
