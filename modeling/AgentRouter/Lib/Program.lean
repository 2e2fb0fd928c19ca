import Mathlib.Order.Defs.Unbundled

/-!
# Program: state changes with early exit

A controller function reads and writes a state as it goes and may stop with an error; what it
has written by then stays.  `Prog σ ε α` is such a function, and `exec` gives its result and
the state it leaves.

`Within R m s` says that `m`, started in `s`, moves the state by the relation `R`.  When `R`
is reflexive and transitive the rules below reduce this to the single writes:

    Within R (m >>= f) s  ⇐  Within R m s  and  Within R (f a) s' for the result a and the state s' of m
      (within_bind)
    Within R (modify g) s  ↔  R s (g s)   (within_modify)
-/

namespace AgentRouter.Program

/-- A function that changes a state and can fail. -/
abbrev Prog (σ ε α : Type) : Type := ExceptT ε (StateM σ) α

variable {σ ε α β : Type}

/-- The result and the state afterwards. -/
def exec (m : Prog σ ε α) (s : σ) : Except ε α × σ := m.run.run s

/-- `fmt.Errorf("%s: %w", text, err)` around every error of `m`. -/
def wrap (text : String) (m : Prog σ String α) : Prog σ String α :=
  ExceptT.adapt (fun e => text ++ ": " ++ e) m

/-! ## What a program returns -/

@[simp] theorem exec_get (s : σ) : exec (get : Prog σ ε σ) s = (.ok s, s) := rfl

@[simp] theorem exec_modify (g : σ → σ) (s : σ) : exec (modify g : Prog σ ε PUnit) s = (.ok ⟨⟩, g s) := rfl

theorem exec_bind (m : Prog σ ε α) (f : α → Prog σ ε β) (s : σ) :
    exec (m >>= f) s =
      match exec m s with
      | (.ok a, s') => exec (f a) s'
      | (.error e, s') => (.error e, s') := by
  unfold exec
  rw [ExceptT.run_bind, StateT.run_bind]
  rcases m.run.run s with ⟨r | a, s'⟩ <;> rfl

theorem exec_wrap (text : String) (m : Prog σ String α) (s : σ) :
    exec (wrap text m) s = ((exec m s).1.mapError (text ++ ": " ++ ·), (exec m s).2) := rfl

/-! ## Where a program can move the state -/

/-- `m`, started in `s`, moves the state by `R`. -/
def Within (R : σ → σ → Prop) (m : Prog σ ε α) (s : σ) : Prop := R s (exec m s).2

variable {R : σ → σ → Prop}

theorem within_modify {g : σ → σ} {s : σ} : Within R (modify g : Prog σ ε PUnit) s ↔ R s (g s) := Iff.rfl

theorem within_wrap {text : String} {m : Prog σ String α} {s : σ} :
    Within R (wrap text m) s ↔ Within R m s := by
  unfold Within
  rw [exec_wrap]

theorem within_get_bind {f : σ → Prog σ ε β} {s : σ} : Within R (get >>= f) s ↔ Within R (f s) s := by
  rfl

section

variable [Std.Refl R]

theorem within_pure (a : α) (s : σ) : Within R (pure a : Prog σ ε α) s := refl_of R s

theorem within_throw (e : ε) (s : σ) : Within R (throw e : Prog σ ε α) s := refl_of R s

end

theorem within_bind [IsTrans σ R] {m : Prog σ ε α} {f : α → Prog σ ε β} {s : σ}
    (hm : Within R m s) (hf : ∀ a s', exec m s = (.ok a, s') → Within R (f a) s') :
    Within R (m >>= f) s := by
  unfold Within at hm ⊢
  rw [exec_bind]
  rcases h : exec m s with ⟨e | a, s'⟩
  · rw [h] at hm
    exact hm
  · rw [h] at hm
    exact trans_of R hm (hf a s' h)

end AgentRouter.Program
