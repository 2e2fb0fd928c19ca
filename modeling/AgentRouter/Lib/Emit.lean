import Mathlib.Data.List.Basic

/-!
# Emit: loops that write while they go

A loop body changes a state, writes something, and may fail; the loop ends at the first failure
and what was written until then stays written (`Outcome`).  `runAll` is such a loop over a list
and `accepted` the elements before the one that failed.

    runAll step s (xs ++ ys) = (runAll step s xs).andThen (runAll step · ys)   (runAll_append)

An invariant of the state, the elements so far and the output so far is proved one step at a
time (`runAll_invariant`).  A loop whose body cannot fail is `writeAll`.
-/

namespace AgentRouter.Emit

open List

/-- The state after a loop or the error that ended it, and what was written. -/
structure Outcome (ε σ ω : Type) where
  result : Except ε σ
  out : List ω

namespace Outcome

variable {ε σ τ υ ω : Type}

/-- Nothing written. -/
def silent (s : σ) : Outcome ε σ ω := ⟨.ok s, []⟩

/-- Goes on unless there was an error. -/
def andThen (o : Outcome ε σ ω) (k : σ → Outcome ε τ ω) : Outcome ε τ ω :=
  match o.result with
  | .ok s => ⟨(k s).result, o.out ++ (k s).out⟩
  | .error e => ⟨.error e, o.out⟩

/-- The same outcome with another view of the state. -/
def map (f : σ → τ) (o : Outcome ε σ ω) : Outcome ε τ ω := ⟨o.result.map f, o.out⟩

@[simp] theorem andThen_ok (s : σ) (out : List ω) (k : σ → Outcome ε τ ω) :
    (⟨.ok s, out⟩ : Outcome ε σ ω).andThen k = ⟨(k s).result, out ++ (k s).out⟩ := rfl

@[simp] theorem andThen_silent (o : Outcome ε σ ω) : o.andThen silent = o := by
  obtain ⟨result, out⟩ := o
  cases result with
  | error e => rfl
  | ok s => rw [andThen_ok, silent, append_nil]

theorem andThen_assoc (o : Outcome ε σ ω) (k : σ → Outcome ε τ ω) (k' : τ → Outcome ε υ ω) :
    (o.andThen k).andThen k' = o.andThen fun s => (k s).andThen k' := by
  obtain ⟨result, out⟩ := o
  cases result with
  | error e => rfl
  | ok s =>
    rw [andThen_ok, andThen_ok]
    cases hk : k s with
    | mk result' out' =>
      cases result' with
      | error e => rfl
      | ok t => rw [andThen_ok, andThen_ok, append_assoc]

theorem map_andThen (f : σ → τ) (o : Outcome ε σ ω) (k : τ → Outcome ε υ ω) :
    (o.map f).andThen k = o.andThen fun s => k (f s) := by
  obtain ⟨result, out⟩ := o
  cases result with
  | error e => rfl
  | ok s => rfl

theorem andThen_map (f : τ → υ) (o : Outcome ε σ ω) (k : σ → Outcome ε τ ω) :
    (o.andThen k).map f = o.andThen fun s => (k s).map f := by
  obtain ⟨result, out⟩ := o
  cases result with
  | error e => rfl
  | ok s => rfl

end Outcome

open Outcome

variable {α β ε σ ω : Type}

/-! ## Loops that cannot fail -/

def writeAll (step : σ → α → σ × List ω) : σ → List α → σ × List ω
  | s, [] => (s, [])
  | s, x :: xs =>
    let r := step s x
    ((writeAll step r.1 xs).1, r.2 ++ (writeAll step r.1 xs).2)

theorem writeAll_append (step : σ → α → σ × List ω) (s : σ) (xs ys : List α) :
    writeAll step s (xs ++ ys) =
      ((writeAll step (writeAll step s xs).1 ys).1,
        (writeAll step s xs).2 ++ (writeAll step (writeAll step s xs).1 ys).2) := by
  induction xs generalizing s with
  | nil => rfl
  | cons x xs ih =>
    rw [cons_append, writeAll, ih, writeAll]
    rw [append_assoc]

/-! ## Loops -/

def runAll (step : σ → α → Outcome ε σ ω) : σ → List α → Outcome ε σ ω
  | s, [] => silent s
  | s, x :: xs => (step s x).andThen fun s => runAll step s xs

/-- The elements before the first one that failed. -/
def accepted (step : σ → α → Outcome ε σ ω) : σ → List α → List α
  | _, [] => []
  | s, x :: xs =>
    match (step s x).result with
    | .ok s => x :: accepted step s xs
    | .error _ => []

/-- The elements before the first one that is not accepted after those before it. -/
def takeAccepted (accepts : List α → α → Bool) : List α → List α → List α
  | _, [] => []
  | before, x :: xs =>
    if accepts before x then x :: takeAccepted accepts (before ++ [x]) xs else []

variable {step : σ → α → Outcome ε σ ω}

@[simp] theorem runAll_nil (s : σ) : runAll step s [] = silent s := rfl

theorem runAll_cons (s : σ) (x : α) (xs : List α) :
    runAll step s (x :: xs) = (step s x).andThen fun s => runAll step s xs := rfl

theorem runAll_singleton (s : σ) (x : α) : runAll step s [x] = step s x := andThen_silent _

theorem runAll_append (s : σ) (xs ys : List α) :
    runAll step s (xs ++ ys) = (runAll step s xs).andThen fun s => runAll step s ys := by
  induction xs generalizing s with
  | nil => rfl
  | cons x xs ih =>
    rw [cons_append, runAll_cons, runAll_cons, andThen_assoc]
    simp only [ih]

theorem runAll_filterMap {step' : σ → β → Outcome ε σ ω} {f : β → Option α}
    (h : ∀ s y, step' s y = (f y).elim (silent s) (step s)) (s : σ) (ys : List β) :
    runAll step' s ys = runAll step s (ys.filterMap f) := by
  induction ys generalizing s with
  | nil => rfl
  | cons y ys ih =>
    rw [runAll_cons, h, filterMap_cons]
    cases f y with
    | none => exact ih s
    | some x =>
      rw [runAll_cons, Option.elim_some]
      simp only [ih]

/-- Elements that leave the state alone and write nothing that counts need not be there. -/
theorem runAll_filter {υ : Type} {keep : α → Bool} (view : List ω → List υ)
    (hview : ∀ out out', view (out ++ out') = view out ++ view out')
    (hskip : ∀ s x, keep x = false → (step s x).result = .ok s ∧ view (step s x).out = [])
    (s : σ) (xs : List α) :
    (runAll step s xs).result = (runAll step s (xs.filter keep)).result ∧
      view (runAll step s xs).out = view (runAll step s (xs.filter keep)).out := by
  induction xs generalizing s with
  | nil => exact ⟨rfl, rfl⟩
  | cons x xs ih =>
    rw [runAll_cons]
    cases hkeep : keep x with
    | false =>
      obtain ⟨hresult, hout⟩ := hskip s x hkeep
      rw [filter_cons_of_neg (by simp [hkeep])]
      cases hstep : step s x with
      | mk result out =>
        rw [hstep] at hresult hout
        cases hresult
        rw [andThen_ok, hview, hout]
        exact ih s
    | true =>
      rw [filter_cons_of_pos hkeep, runAll_cons]
      obtain ⟨result, out⟩ := step s x
      cases result with
      | error e => exact ⟨rfl, rfl⟩
      | ok s' =>
        rw [andThen_ok, andThen_ok, hview, hview, (ih s').2]
        exact ⟨(ih s').1, rfl⟩

theorem accepted_of_ok {s s' : σ} {x : α} (xs : List α) (h : (step s x).result = .ok s') :
    accepted step s (x :: xs) = x :: accepted step s' xs := by
  simp only [accepted, h]

theorem accepted_of_error {s : σ} {x : α} {e : ε} (xs : List α)
    (h : (step s x).result = .error e) : accepted step s (x :: xs) = [] := by
  simp only [accepted, h]

theorem accepted_eq_self_iff (step : σ → α → Outcome ε σ ω) (s : σ) (xs : List α) :
    accepted step s xs = xs ↔ ∃ s', (runAll step s xs).result = .ok s' := by
  induction xs generalizing s with
  | nil => exact ⟨fun _ => ⟨s, rfl⟩, fun _ => rfl⟩
  | cons x xs ih =>
    rw [runAll_cons]
    cases hstep : step s x with
    | mk result written =>
      have hresult : (step s x).result = result := by rw [hstep]
      cases result with
      | error e =>
        rw [accepted_of_error xs hresult]
        constructor
        · intro h
          cases h
        · rintro ⟨s', h⟩
          cases h
      | ok s' =>
        rw [accepted_of_ok xs hresult, List.cons.injEq, ih s']
        simp

theorem accepted_eq_takeAccepted (Inv : σ → List α → Prop) {accepts : List α → α → Bool}
    {xs : List α} {s₀ : σ} (start : Inv s₀ [])
    (ok : ∀ s s' x before after, before ++ x :: after = xs → Inv s before →
      (step s x).result = .ok s' → Inv s' (before ++ [x]))
    (iff : ∀ s x before after, before ++ x :: after = xs → Inv s before →
      (accepts before x = true ↔ ∃ s', (step s x).result = .ok s')) :
    accepted step s₀ xs = takeAccepted accepts [] xs := by
  have key : ∀ (after before : List α) (s : σ), before ++ after = xs → Inv s before →
      accepted step s after = takeAccepted accepts before after := by
    intro after
    induction after with
    | nil => exact fun _ _ _ _ => rfl
    | cons x after ih =>
      intro before s hxs hinv
      rw [takeAccepted]
      cases hstep : (step s x).result with
      | error e =>
        rw [accepted_of_error after hstep, if_neg]
        intro haccepts
        obtain ⟨s', hs'⟩ := (iff s x before after hxs hinv).mp haccepts
        rw [hs'] at hstep
        cases hstep
      | ok s' =>
        rw [accepted_of_ok after hstep, if_pos ((iff s x before after hxs hinv).mpr ⟨s', hstep⟩)]
        have hnext := ih (before ++ [x]) s'
          (by rw [append_assoc, singleton_append, hxs]) (ok s s' x before after hxs hinv hstep)
        rw [hnext]
  exact key xs [] s₀ rfl start

theorem runAll_invariant (Inv : σ → List α → List ω → Prop) (Failed : List α → List ω → Prop)
    {xs : List α} {s₀ : σ} (start : Inv s₀ [] [])
    (ok : ∀ s s' x before after out, before ++ x :: after = xs → Inv s before out →
      (step s x).result = .ok s' → Inv s' (before ++ [x]) (out ++ (step s x).out))
    (fail : ∀ s x e before after out, before ++ x :: after = xs → Inv s before out →
      (step s x).result = .error e → Failed before (out ++ (step s x).out)) :
    (∀ s, (runAll step s₀ xs).result = .ok s → Inv s xs (runAll step s₀ xs).out ∧ accepted step s₀ xs = xs) ∧
    ∀ e, (runAll step s₀ xs).result = .error e → Failed (accepted step s₀ xs) (runAll step s₀ xs).out := by
  -- The elements that are left go on from any state reached by those before them.
  have key : ∀ (after before : List α) (s : σ) (out : List ω), before ++ after = xs → Inv s before out →
      (∀ s', (runAll step s after).result = .ok s' →
        Inv s' xs (out ++ (runAll step s after).out) ∧ accepted step s after = after) ∧
      ∀ e, (runAll step s after).result = .error e →
        Failed (before ++ accepted step s after) (out ++ (runAll step s after).out) := by
    intro after
    induction after with
    | nil =>
      intro before s out hxs hinv
      rw [append_nil] at hxs
      subst hxs
      constructor
      · intro s' hs'
        cases hs'
        exact ⟨by rwa [runAll_nil, silent, append_nil], rfl⟩
      · intro e he
        cases he
    | cons x after ih =>
      intro before s out hxs hinv
      rw [runAll_cons]
      cases hstep : step s x with
      | mk result written =>
        cases result with
        | error e =>
          have hresult : (step s x).result = .error e := by rw [hstep]
          have hfailed := fail s x e before after out hxs hinv hresult
          rw [hstep] at hfailed
          rw [accepted_of_error after hresult, append_nil]
          refine ⟨fun s' hs' => ?_, fun e' _ => hfailed⟩
          cases hs'
        | ok s' =>
          have hresult : (step s x).result = .ok s' := by rw [hstep]
          have hinv' := ok s s' x before after out hxs hinv hresult
          rw [hstep] at hinv'
          have hrest := ih (before ++ [x]) s' (out ++ written)
            (by rw [append_assoc, singleton_append, hxs]) hinv'
          rw [accepted_of_ok after hresult]
          simp only [append_assoc, singleton_append, List.cons.injEq, true_and] at hrest ⊢
          exact hrest
  exact key xs [] s₀ [] rfl start

end AgentRouter.Emit
