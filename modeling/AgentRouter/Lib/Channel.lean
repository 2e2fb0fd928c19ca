import AgentRouter.Lib.Run
import Mathlib.Data.List.Basic

/-!
# Channel: several senders, one receiver

Each sender puts the elements of its stream on one channel, in order; nothing else is
fixed about who sends when.  `Received streams l`: the receiver can have taken exactly
`l` from the channel when all senders are done.

    seen from one sender, the receiver gets the sender's stream   (filter_of_received)
-/

namespace AgentRouter.Channel

open List

variable {ι α : Type} [DecidableEq ι]

structure State (ι α : Type) where
  /-- what each sender still has to send. -/
  pending : ι → List α
  sent : List α

/-- One send. -/
def Step (s : State ι α) (i : ι) (s' : State ι α) : Prop :=
  ∃ x xs, s.pending i = x :: xs ∧ s' = ⟨Function.update s.pending i xs, s.sent ++ [x]⟩

def Received (streams : ι → List α) (l : List α) : Prop :=
  ∃ s, Run Step ⟨streams, []⟩ s ∧ (∀ i, s.pending i = []) ∧ s.sent = l

/-- What was sent and what is pending make up the stream of each sender; `sender` tells
where an element comes from. -/
theorem filter_sent_append_pending {streams : ι → List α} {sender : α → ι}
    (hsender : ∀ i, ∀ x ∈ streams i, sender x = i) {s : State ι α}
    (h : Run Step ⟨streams, []⟩ s) (i : ι) :
    (s.sent.filter fun x => sender x = i) ++ s.pending i = streams i := by
  refine h.invariant (fun s => ∀ i, (s.sent.filter fun x => sender x = i) ++ s.pending i =
    streams i) (fun i => rfl) ?_ i
  rintro s j s' hs ⟨x, xs, hp, rfl⟩ i
  have hx : sender x = j := by
    apply hsender j x
    rw [← hs j, hp]
    exact mem_append_right _ mem_cons_self
  rw [← hs i, filter_append, append_assoc]
  dsimp only
  by_cases hi : i = j
  · subst hi
    rw [Function.update_self, hp, filter_cons_of_pos (by simp [hx])]
    rfl
  · rw [Function.update_of_ne hi, filter_cons_of_neg (by simpa [hx] using Ne.symm hi)]
    rfl

theorem filter_of_received {streams : ι → List α} {sender : α → ι}
    (hsender : ∀ i, ∀ x ∈ streams i, sender x = i) {l : List α} (h : Received streams l) (i : ι) :
    l.filter (fun x => sender x = i) = streams i := by
  obtain ⟨s, hrun, hdone, rfl⟩ := h
  have hall := filter_sent_append_pending hsender hrun i
  rw [hdone i, append_nil] at hall
  exact hall

end AgentRouter.Channel
