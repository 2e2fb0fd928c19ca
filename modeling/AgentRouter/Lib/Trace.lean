import Mathlib.Data.Nat.Find

/-!
# Trace: systems that run on for ever

A `Trace` is an infinite sequence of states with the action that leads from each to the next.  What
holds at one point and is kept by the steps holds from there on (`Trace.from_on`); what is kept until
something happens still holds when it happens first (`exists_of_kept_until`).  A system that goes
through the same actions round by round is one (`Trace.ofRounds`).
-/

namespace AgentRouter

variable {σ α : Type}

structure Trace (step : σ → α → Option σ) (init : σ) where
  state : Nat → σ
  label : Nat → α
  start : state 0 = init
  next : ∀ n, step (state n) (label n) = some (state (n + 1))

/-! ## Rules -/

theorem Trace.from_on {P : Nat → Prop} {i : Nat} (hi : P i) (hnext : ∀ n, i ≤ n → P n → P (n + 1))
    {j : Nat} (hj : i ≤ j) : P j := by
  induction j, hj using Nat.le_induction with
  | base => exact hi
  | succ n hn ih => exact hnext n hn ih

theorem exists_of_kept_until {P Q : Nat → Prop} {i : Nat} (hi : P i)
    (hkeep : ∀ n, i ≤ n → P n → ¬ Q n → P (n + 1)) (hQ : ∃ n, i ≤ n ∧ Q n) :
    ∃ n, i ≤ n ∧ P n ∧ Q n := by
  classical
  -- the first time that `Q` holds
  obtain ⟨hle, hfirst⟩ := Nat.find_spec hQ
  have hbefore : ∀ n, i ≤ n → n ≤ Nat.find hQ → P n := by
    intro n hn
    refine Trace.from_on (P := fun n => n ≤ Nat.find hQ → P n) (fun _ => hi) ?_ hn
    intro m hm ih hlt
    refine hkeep m hm (ih (by omega)) ?_
    intro hQm
    exact Nat.find_min hQ (show m < Nat.find hQ by omega) ⟨hm, hQm⟩
  exact ⟨Nat.find hQ, hle, hbefore _ hle (Nat.le_refl _), hfirst⟩

/-! ## Rounds -/

variable {step : σ → α → Option σ} {p : Nat} (g : Nat → Nat → σ) (actions : Nat → α)

/-- `g k r` is the state in round `k` before its action `r`. -/
structure Rounds (step : σ → α → Option σ) (p : Nat) (g : Nat → Nat → σ) (actions : Nat → α) :
    Prop where
  pos : 0 < p
  inside : ∀ k r, r + 1 < p → step (g k r) (actions r) = some (g k (r + 1))
  last : ∀ k r, r + 1 = p → step (g k r) (actions r) = some (g (k + 1) 0)

def Trace.ofRounds (h : Rounds step p g actions) : Trace step (g 0 0) where
  state n := g (n / p) (n % p)
  label n := actions (n % p)
  start := by rw [Nat.zero_div, Nat.zero_mod]
  next n := by
    have hpos := h.pos
    have hmod := Nat.mod_lt n hpos
    have hsucc : n + 1 = p * (n / p) + (n % p + 1) := by
      have hn := Nat.div_add_mod n p
      omega
    have hdiv : (n + 1) / p = n / p + (n % p + 1) / p := by
      conv_lhs => rw [hsucc]
      exact Nat.mul_add_div hpos _ _
    have hrest : (n + 1) % p = (n % p + 1) % p := by
      conv_lhs => rw [hsucc]
      exact Nat.mul_add_mod _ _ _
    rw [hdiv, hrest]
    by_cases hr : n % p + 1 < p
    · rw [Nat.div_eq_of_lt hr, Nat.mod_eq_of_lt hr]
      exact h.inside _ _ hr
    · have hend : n % p + 1 = p := by omega
      have hlast := h.last (n / p) (n % p) hend
      rw [hend, Nat.div_self hpos, Nat.mod_self]
      exact hlast

end AgentRouter
