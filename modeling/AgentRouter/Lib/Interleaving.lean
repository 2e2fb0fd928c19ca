import AgentRouter.Lib.Run

/-!
# Interleaving: one process writes, another one reads

Two processes with a shared memory.  The steps of the writer change the memory, those of the reader
only look at it; nothing is fixed about whose turn it is.  An invariant of the writer and the memory
holds in all interleavings if the writer keeps it.  One that is also about the reader holds if the
reader keeps it and the writer does not disturb it:

    I is kept by the writer,  J by the reader and by the writer  →  I and J in every run   (invariant)

`exec` makes the steps of a list of events.
-/

namespace AgentRouter.Interleaving

variable {μ ω ρ α β : Type}

structure State (μ ω ρ : Type) where
  memory : μ
  writer : ω
  reader : ρ

inductive Event (α β : Type) where
  | write (a : α)
  | read (b : β)

variable (write : μ → ω → α → Option (μ × ω)) (read : μ → ρ → β → ρ)

/-- One step of one of the two. -/
def Step (s : State μ ω ρ) (e : Event α β) (s' : State μ ω ρ) : Prop :=
  match e with
  | .write a => ∃ r, write s.memory s.writer a = some r ∧ s' = ⟨r.1, r.2, s.reader⟩
  | .read b => s' = ⟨s.memory, s.writer, read s.memory s.reader b⟩

/-- The steps of a list of events, as far as the writer can make them. -/
def exec (s : State μ ω ρ) : List (Event α β) → Option (State μ ω ρ)
  | [] => some s
  | .write a :: es =>
    match write s.memory s.writer a with
    | none => none
    | some r => exec ⟨r.1, r.2, s.reader⟩ es
  | .read b :: es => exec ⟨s.memory, s.writer, read s.memory s.reader b⟩ es

variable {write read}

theorem run_of_exec {init s s' : State μ ω ρ} {es : List (Event α β)}
    (h : Run (Step write read) init s) (hexec : exec write read s es = some s') :
    Run (Step write read) init s' := by
  induction es generalizing s with
  | nil =>
    cases hexec
    exact h
  | cons e es ih =>
    cases e with
    | write a =>
      rw [exec] at hexec
      split at hexec
      · cases hexec
      · next r hr => exact ih (.next (.write a) h ⟨r, hr, rfl⟩) hexec
    | read b => exact ih (.next (.read b) h rfl) hexec

theorem invariant {I : μ → ω → Prop} {J : μ → ω → ρ → Prop} {init : State μ ω ρ}
    (hI0 : I init.memory init.writer) (hJ0 : J init.memory init.writer init.reader)
    (hwriter : ∀ m w a r, I m w → write m w a = some r → I r.1 r.2)
    (hstable : ∀ m w a r x, I m w → J m w x → write m w a = some r → J r.1 r.2 x)
    (hreader : ∀ m w b x, I m w → J m w x → J m w (read m x b)) {s : State μ ω ρ}
    (h : Run (Step write read) init s) :
    I s.memory s.writer ∧ J s.memory s.writer s.reader := by
  refine h.invariant (fun s => I s.memory s.writer ∧ J s.memory s.writer s.reader) ⟨hI0, hJ0⟩ ?_
  rintro s (a | b) s' ⟨hI, hJ⟩ hstep
  · obtain ⟨r, hr, rfl⟩ := hstep
    exact ⟨hwriter _ _ a r hI hr, hstable _ _ a r _ hI hJ hr⟩
  · obtain rfl := hstep
    exact ⟨hI, hreader _ _ b _ hI hJ⟩

end AgentRouter.Interleaving
