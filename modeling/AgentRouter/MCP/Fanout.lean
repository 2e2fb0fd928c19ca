import AgentRouter.Lib.Run
import Mathlib.Logic.Function.Basic

/-!
# Fanout: `notifications/roots/list_changed` for all backends

`sendToAllBackends` sends a request to each backend of a session from a goroutine of its own; the
events of the answers go to one channel, which is closed when all goroutines are done.
`handleNotificationsRootsListChanged` expects no events and waits for the channel to be closed by
receiving from it once.  An event ends that wait as well:

    the handler returns only after all sends have finished, in every interleaving
      ↔  no backend sends an event   (returns_after_all_sends_iff)
-/

namespace AgentRouter.MCPProxy

/-! ## The goroutines -/

structure Fanout where
  /-- the events that each send is still to put on the channel. -/
  pending : String → Nat
  finished : String → Bool
  /-- the number of events on the channel `backendMsgs`. -/
  buffered : Nat
  closed : Bool
  /-- the handler has returned. -/
  returned : Bool

inductive FanoutAction where
  | event (backend : String)
  | finish (backend : String)
  | close
  | receive

/-- `sendToAllBackends` makes a channel for 200 events and starts a goroutine for each backend. -/
def Fanout.start (events : String → Nat) : Fanout := ⟨events, fun _ => false, 0, false, false⟩

def Fanout.step (backends : List String) (s : Fanout) : FanoutAction → Option Fanout
  | .event b =>
    if b ∈ backends ∧ s.finished b = false ∧ 0 < s.pending b ∧ s.buffered < 200 then
      some { s with pending := Function.update s.pending b (s.pending b - 1),
                    buffered := s.buffered + 1 }
    else none
  | .finish b =>
    if b ∈ backends ∧ s.finished b = false ∧ s.pending b = 0 then
      some { s with finished := Function.update s.finished b true }
    else none
  -- after `wg.Wait`
  | .close =>
    if (∀ b ∈ backends, s.finished b = true) ∧ s.closed = false then some { s with closed := true }
    else none
  -- the handler's one receive, of an event or because the channel is closed
  | .receive =>
    if s.returned = false ∧ (0 < s.buffered ∨ s.closed = true) then
      some { s with buffered := s.buffered - 1, returned := true }
    else none

/-- The states that the goroutines and the handler can reach. -/
def Fanout.Reachable (backends : List String) (events : String → Nat) : Fanout → Prop :=
  Run (fun s a s' => s.step backends a = some s') (.start events)

/-! ## Lemmas -/

/-- Without events the handler waits for the channel to be closed. -/
structure Fanout.Quiet (backends : List String) (s : Fanout) : Prop where
  pending : ∀ b ∈ backends, s.pending b = 0
  buffered : s.buffered = 0
  closed : s.closed = true → ∀ b ∈ backends, s.finished b = true
  returned : s.returned = true → s.closed = true

theorem Fanout.Quiet.step {backends : List String} {s s' : Fanout} {a : FanoutAction}
    (h : s.Quiet backends) (hstep : s.step backends a = some s') : s'.Quiet backends := by
  cases a with
  | event b =>
    obtain ⟨⟨hb, -, hpos, -⟩, -⟩ := Option.ite_none_right_eq_some.mp hstep
    have hzero := h.pending b hb
    omega
  | finish b =>
    obtain ⟨-, hs⟩ := Option.ite_none_right_eq_some.mp hstep
    cases hs
    refine ⟨h.pending, h.buffered, fun hclosed b' hb' => ?_, h.returned⟩
    by_cases hbb : b' = b
    · rw [hbb]
      exact Function.update_self ..
    · exact (Function.update_of_ne hbb ..).trans (h.closed hclosed b' hb')
  | close =>
    obtain ⟨⟨hall, -⟩, hs⟩ := Option.ite_none_right_eq_some.mp hstep
    cases hs
    exact ⟨h.pending, h.buffered, fun _ => hall, fun _ => rfl⟩
  | receive =>
    obtain ⟨⟨-, hready⟩, hs⟩ := Option.ite_none_right_eq_some.mp hstep
    cases hs
    have hbuffered := h.buffered
    have hclosed : s.closed = true := hready.resolve_left (by omega)
    exact ⟨h.pending, by show s.buffered - 1 = 0; omega, h.closed, fun _ => hclosed⟩

/-! ## Top theorem -/

theorem returns_after_all_sends_iff (backends : List String) (events : String → Nat) :
    (∀ s, Fanout.Reachable backends events s → s.returned = true →
        ∀ b ∈ backends, s.finished b = true) ↔
      ∀ b ∈ backends, events b = 0 := by
  constructor
  · intro h b hb
    by_contra hevents
    -- the first event of `b` ends the wait of the handler
    have hevent : ∃ s, (Fanout.start events).step backends (.event b) = some s ∧
        s.buffered = 1 ∧ s.returned = false ∧ s.finished b = false :=
      ⟨_, if_pos ⟨hb, rfl, Nat.pos_of_ne_zero hevents, Nat.succ_pos 199⟩, rfl, rfl, rfl⟩
    obtain ⟨s, hs, hbuffered, hwaiting, hb'⟩ := hevent
    have hreceive : s.step backends .receive =
        some { s with buffered := s.buffered - 1, returned := true } :=
      if_pos ⟨hwaiting, .inl (by omega)⟩
    have hfinished := h _ (.next .receive (.next (.event b) .start hs) hreceive) rfl b hb
    exact absurd (hb'.symm.trans hfinished) (by decide)
  · intro h s hs hreturned
    have hquiet : s.Quiet backends :=
      hs.invariant (Fanout.Quiet backends) ⟨h, rfl, by simp [Fanout.start], by simp [Fanout.start]⟩
        fun s a s' hs => hs.step
    exact hquiet.closed (hquiet.returned hreturned)

/-- One of two backends sends an event; neither send has finished when the handler returns. -/
theorem returns_before_sends :
    ∃ s, Fanout.Reachable ["a", "b"] (fun b => if b = "a" then 1 else 0) s ∧ s.returned = true ∧
      s.finished "a" = false ∧ s.finished "b" = false :=
  ⟨_, .next .receive (.next (.event "a") .start rfl) rfl, rfl, rfl, rfl⟩

end AgentRouter.MCPProxy
