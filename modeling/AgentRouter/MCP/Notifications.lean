import AgentRouter.Lib.Trace
import AgentRouter.MCP.EventIDs

/-!
# Notifications: configuration changes on a notification stream

`LoadConfig` signals a change of the tools by closing a channel and putting a new one in its place.
The loop of `streamNotifications` asks for the channel each time it comes to its `select`, and holds
it only while it waits there.  A signal that falls into the handling of something else closes a
channel that nobody waits for, and one that comes together with another event can lose against it:

    a notification is written after a signal
      ↔  the loop is about to write one, or this signal or a later one finds the loop waiting and
         is what the `select` takes next   (notified_after_iff)

What the loop writes is what `streamNotifications` makes of the cases it selects (written_eq).
-/

namespace AgentRouter.MCPSession

open MCPEvents List

variable {ρ μ : Type}

/-! ## The signaler -/

/-- The channels are numbered in the order in which they are made: `notify` is the current one, and
those before it are closed. -/
structure MultiWatcherSignaler where
  notify : Nat

def MultiWatcherSignaler.watch (m : MultiWatcherSignaler) : Nat := m.notify

def MultiWatcherSignaler.signal (m : MultiWatcherSignaler) : MultiWatcherSignaler := ⟨m.notify + 1⟩

@[simp] def MultiWatcherSignaler.isClosed (m : MultiWatcherSignaler) (ch : Nat) : Bool := ch < m.notify

/-! ## The loop -/

inductive LoopPc (ρ μ : Type) where
  | top
  /-- in the `select`, with the channel that `Watch` returned. -/
  | waiting (ch : Nat)
  | handling (sel : Selected ρ μ)
  | returned

structure LoopState (ρ μ : Type) where
  signaler : MultiWatcherSignaler
  pc : LoopPc ρ μ
  /-- `backendMsgs` is not nil. -/
  backendMsgs : Bool
  sessions : GoMap Bytes CompositeSessionEntry
  written : List (Written μ)

/-- The steps of the system. -/
inductive Action (ρ μ : Type) where
  | loadConfig (toolsChanged : Bool)
  | watch
  | select (sel : Selected ρ μ)
  | handle

/-- The cases a `select` can take: a nil channel never is ready. -/
def LoopState.ready (s : LoopState ρ μ) (ch : Nat) : Selected ρ μ → Bool
  | .backendMsg _ _ => s.backendMsgs
  | .backendsDone => s.backendMsgs
  | .toolChange => s.signaler.isClosed ch
  | .heartbeat => true
  | .done => true

@[simp] def Selected.isBackendsDone : Selected ρ μ → Bool
  | .backendsDone => true
  | _ => false

section

variable (crypto : SessionCrypto ρ) (modify : Bytes → μ → μ)

def LoopState.handled (s : LoopState ρ μ) (sel : Selected ρ μ) : LoopState ρ μ where
  signaler := s.signaler
  pc := if sel.isDone then .returned else .top
  backendMsgs := if sel.isBackendsDone then false else s.backendMsgs
  sessions := (handleSelected crypto modify s.sessions sel).2
  written := s.written ++ (handleSelected crypto modify s.sessions sel).1

def loopStep (s : LoopState ρ μ) : Action ρ μ → Option (LoopState ρ μ)
  | .loadConfig toolsChanged =>
    some { s with signaler := if toolsChanged then s.signaler.signal else s.signaler }
  | .watch =>
    match s.pc with
    | .top => some { s with pc := .waiting s.signaler.watch }
    | _ => none
  | .select sel =>
    match s.pc with
    | .waiting ch => if s.ready ch sel then some { s with pc := .handling sel } else none
    | _ => none
  | .handle =>
    match s.pc with
    | .handling sel => some (s.handled crypto modify sel)
    | _ => none

/-- The loop starts when the first ping is out. -/
def loopStart (signaler : MultiWatcherSignaler) (sessions : GoMap Bytes CompositeSessionEntry) :
    LoopState ρ μ :=
  ⟨signaler, .top, true, sessions, [.ping]⟩

end

/-! ## Lemmas -/

section

variable {crypto : SessionCrypto ρ} {modify : Bytes → μ → μ}

theorem loopStep_cases {s s' : LoopState ρ μ} {a : Action ρ μ} (h : loopStep crypto modify s a = some s') :
    (∃ toolsChanged, a = .loadConfig toolsChanged ∧
      s' = { s with signaler := if toolsChanged then s.signaler.signal else s.signaler }) ∨
    (a = .watch ∧ s.pc = .top ∧ s' = { s with pc := .waiting s.signaler.notify }) ∨
    (∃ sel ch, a = .select sel ∧ s.pc = .waiting ch ∧ s.ready ch sel = true ∧
      s' = { s with pc := .handling sel }) ∨
    ∃ sel, a = .handle ∧ s.pc = .handling sel ∧ s' = s.handled crypto modify sel := by
  cases a with
  | loadConfig toolsChanged => exact .inl ⟨toolsChanged, rfl, (Option.some.inj h).symm⟩
  | watch =>
    simp only [loopStep] at h
    split at h
    next hpc => exact .inr (.inl ⟨rfl, hpc, (Option.some.inj h).symm⟩)
    · cases h
  | select sel =>
    simp only [loopStep] at h
    split at h
    next ch hpc =>
      split at h
      next hready => exact .inr (.inr (.inl ⟨sel, ch, rfl, hpc, hready, (Option.some.inj h).symm⟩))
      · cases h
    · cases h
  | handle =>
    simp only [loopStep] at h
    split at h
    next sel hpc => exact .inr (.inr (.inr ⟨sel, rfl, hpc, (Option.some.inj h).symm⟩))
    · cases h

variable {sessions : GoMap Bytes CompositeSessionEntry} {sel : Selected ρ μ}

theorem toolListChanged_mem (h : .toolListChanged ∈ (handleSelected crypto modify sessions sel).1) :
    sel = .toolChange := by
  cases sel with
  | toolChange => rfl
  | backendMsg d e | backendsDone | heartbeat | done => simp [handleSelected] at h

variable {init : LoopState ρ μ} (t : Trace (loopStep crypto modify) init) {i j : Nat}

theorem written_grows (hij : i ≤ j) : ∃ new, (t.state j).written = (t.state i).written ++ new := by
  refine Trace.from_on (P := fun j => ∃ new, (t.state j).written = (t.state i).written ++ new)
    ⟨[], (append_nil _).symm⟩ ?_ hij
  intro n _ ih
  obtain ⟨new, hnew⟩ := ih
  rcases loopStep_cases (t.next n) with ⟨c, -, h⟩ | ⟨-, -, h⟩ | ⟨sel, ch, -, -, -, h⟩ | ⟨sel, -, -, h⟩
  · exact ⟨new, by rw [h]; exact hnew⟩
  · exact ⟨new, by rw [h]; exact hnew⟩
  · exact ⟨new, by rw [h]; exact hnew⟩
  · refine ⟨new ++ (handleSelected crypto modify (t.state n).sessions sel).1, ?_⟩
    rw [h, ← append_assoc, ← hnew]
    rfl

/-! ### What the loop writes -/

/-- What an action handles. -/
def LoopState.handledBy (s : LoopState ρ μ) : Action ρ μ → Option (Selected ρ μ)
  | .handle =>
    match s.pc with
    | .handling sel => some sel
    | _ => none
  | _ => none

/-- The cases that have been handled before point `n`. -/
def handledBefore : Nat → List (Selected ρ μ)
  | 0 => []
  | n + 1 => handledBefore n ++ ((t.state n).handledBy (t.label n)).toList

/-- The sessions after some cases. -/
def sessionsAfter (crypto : SessionCrypto ρ) (modify : Bytes → μ → μ) :
    GoMap Bytes CompositeSessionEntry → List (Selected ρ μ) → GoMap Bytes CompositeSessionEntry
  | sessions, [] => sessions
  | sessions, sel :: rest =>
    sessionsAfter crypto modify (handleSelected crypto modify sessions sel).2 rest

variable {selected : List (Selected ρ μ)}

theorem streamLoop_concat (crypto : SessionCrypto ρ) (modify : Bytes → μ → μ)
    (sessions : GoMap Bytes CompositeSessionEntry) (h : ∀ sel ∈ selected, sel.isDone = false)
    (sel : Selected ρ μ) :
    streamLoop crypto modify sessions (selected ++ [sel]) =
        streamLoop crypto modify sessions selected ++
          (handleSelected crypto modify (sessionsAfter crypto modify sessions selected) sel).1 ∧
      sessionsAfter crypto modify sessions (selected ++ [sel]) =
        (handleSelected crypto modify (sessionsAfter crypto modify sessions selected) sel).2 := by
  induction selected generalizing sessions with
  | nil => cases sel <;> exact ⟨rfl, rfl⟩
  | cons first rest ih =>
    have hfirst : ¬ first.isDone = true := by
      rw [h first mem_cons_self]
      simp
    obtain ⟨hloop, hsessions⟩ := ih (handleSelected crypto modify sessions first).2
      fun sel hsel => h sel (mem_cons_of_mem first hsel)
    refine ⟨?_, hsessions⟩
    rw [cons_append, streamLoop, streamLoop, if_neg hfirst, if_neg hfirst, hloop, append_assoc]
    rfl

/-- The state of the loop, from the cases it has handled. -/
structure Handled (crypto : SessionCrypto ρ) (modify : Bytes → μ → μ)
    (sessions : GoMap Bytes CompositeSessionEntry) (s : LoopState ρ μ)
    (selected : List (Selected ρ μ)) : Prop where
  written : s.written = streamNotifications crypto modify sessions selected
  running : s.pc ≠ .returned → (∀ sel ∈ selected, sel.isDone = false) ∧
    s.sessions = sessionsAfter crypto modify sessions selected

theorem Handled.handled {s : LoopState ρ μ} (h : Handled crypto modify sessions s selected)
    (hpc : s.pc = .handling sel) :
    Handled crypto modify sessions (s.handled crypto modify sel) (selected ++ [sel]) := by
  obtain ⟨hgoing, hsessions⟩ := h.running (by rw [hpc]; simp)
  obtain ⟨hloop, hafter⟩ := streamLoop_concat crypto modify sessions hgoing sel
  constructor
  · rw [streamNotifications, hloop, LoopState.handled, h.written, hsessions]
    rfl
  · intro hreturned
    have hdone : sel.isDone = false := by
      by_contra hdone
      exact hreturned (if_pos (by simpa using hdone))
    exact ⟨forall_mem_append.mpr ⟨hgoing, forall_mem_singleton.mpr hdone⟩,
      by rw [LoopState.handled, hafter, hsessions]⟩

/-- The steps of the system write what `streamNotifications` makes of the cases selected. -/
theorem written_eq {signaler : MultiWatcherSignaler}
    (t : Trace (loopStep crypto modify) (loopStart signaler sessions)) (n : Nat) :
    (t.state n).written = streamNotifications crypto modify sessions (handledBefore t n) := by
  have hinv : Handled crypto modify sessions (t.state n) (handledBefore t n) := by
    induction n with
    | zero =>
      rw [t.start]
      exact ⟨rfl, fun _ => ⟨fun _ h => (not_mem_nil h).elim, rfl⟩⟩
    | succ n ih =>
      have hskip : (t.state n).handledBy (t.label n) = none →
          handledBefore t (n + 1) = handledBefore t n := by
        intro hnone
        rw [handledBefore, hnone, Option.toList_none, append_nil]
      rcases loopStep_cases (t.next n) with ⟨c, ha, hs⟩ | ⟨ha, hpc, hs⟩ | ⟨sel, ch, ha, hpc, -, hs⟩ |
        ⟨sel, ha, hpc, hs⟩
      · rw [hskip (by rw [ha]; rfl), hs]
        exact ⟨ih.written, ih.running⟩
      · rw [hskip (by rw [ha]; rfl), hs]
        exact ⟨ih.written, fun _ => ih.running (by rw [hpc]; simp)⟩
      · rw [hskip (by rw [ha]; rfl), hs]
        exact ⟨ih.written, fun _ => ih.running (by rw [hpc]; simp)⟩
      · have hby : (t.state n).handledBy (t.label n) = some sel := by
          rw [ha, LoopState.handledBy, hpc]
        rw [handledBefore, hby, hs]
        exact ih.handled hpc
  exact hinv.written

/-- The next notification is for a signal that comes after the first `k`. -/
def LoopState.Behind (s : LoopState ρ μ) (k : Nat) : Prop :=
  match s.pc with
  | .waiting ch => k ≤ ch ∧ ch ≤ s.signaler.notify
  | .handling .toolChange => k < s.signaler.notify
  | _ => k ≤ s.signaler.notify

def LoopState.told (s : LoopState ρ μ) : Nat := s.written.countP (· matches .toolListChanged)

theorem LoopState.Behind.step {s s' : LoopState ρ μ} {a : Action ρ μ} {k : Nat}
    (hb : s.Behind (k + s.told)) (h : loopStep crypto modify s a = some s') :
    s'.Behind (k + s'.told) := by
  unfold LoopState.Behind at hb ⊢
  rcases loopStep_cases h with ⟨c, -, rfl⟩ | ⟨-, hpc, rfl⟩ | ⟨sel, ch, -, hpc, hready, rfl⟩ |
    ⟨sel, -, hpc, rfl⟩
  · have hle : s.signaler.notify ≤ (if c then s.signaler.signal else s.signaler).notify := by
      cases c <;> simp [MultiWatcherSignaler.signal]
    dsimp only [LoopState.told] at hb ⊢
    split at hb <;> omega
  · rw [hpc] at hb
    exact ⟨hb, Nat.le_refl _⟩
  · rw [hpc] at hb
    cases sel with
    | toolChange => exact Nat.lt_of_le_of_lt hb.1 (of_decide_eq_true hready)
    | _ => exact hb.1.trans hb.2
  · rw [hpc] at hb
    cases sel <;> simpa [LoopState.handled, LoopState.told, handleSelected, Selected.isDone,
      ← Nat.add_assoc, Nat.add_one_le_iff] using hb

/-- However loads and steps interleave, the client gets no more notifications than there were signals
since the loop started. -/
theorem told_le_signals {signaler : MultiWatcherSignaler}
    (t : Trace (loopStep crypto modify) (loopStart signaler sessions)) (n : Nat) :
    signaler.notify + (t.state n).told ≤ (t.state n).signaler.notify := by
  have hinv : (t.state n).Behind (signaler.notify + (t.state n).told) := by
    induction n with
    | zero =>
      rw [t.start]
      exact Nat.le_refl _
    | succ n ih => exact ih.step (t.next n)
  unfold LoopState.Behind at hinv
  split at hinv <;> omega

/-! ## Signals -/

/-- A notification is written after point `i`. -/
def NotifiedAfter (i : Nat) : Prop :=
  ∃ j new, i ≤ j ∧ (t.state j).written = (t.state i).written ++ new ∧ .toolListChanged ∈ new

/-- What is handled is handled to the end. -/
def KeepsRunning : Prop :=
  ∀ n sel, (t.state n).pc = .handling sel → ∃ m, n ≤ m ∧ t.label m = .handle

/-- The signal at point `k` finds the loop waiting. -/
def FindsWaiting (k : Nat) : Prop :=
  t.label k = .loadConfig true ∧ ∃ ch, (t.state k).pc = .waiting ch

/-- Nothing is selected from point `k` up to point `j`. -/
def NoSelect (k j : Nat) : Prop := ∀ m, k < m → m < j → ∀ sel, t.label m ≠ .select sel

/-- The next case that is selected after point `k` is the tool change. -/
def TakenNext (k : Nat) : Prop :=
  ∃ j, k < j ∧ t.label j = .select .toolChange ∧ NoSelect t k j

/-- A notification is about to be written, or a signal from point `i` on is received. -/
def Received (i : Nat) : Prop :=
  (t.state i).pc = .handling .toolChange ∨ ∃ k, i ≤ k ∧ FindsWaiting t k ∧ TakenNext t k

/-- What is known of point `j` after a signal at point `i`. -/
structure Since (i j : Nat) : Prop where
  /-- if the channel the loop waits for is closed, that was a signal it waited for. -/
  waiting : ∀ ch, (t.state j).pc = .waiting ch → ch < (t.state j).signaler.notify →
    ∃ k, i ≤ k ∧ k < j ∧ FindsWaiting t k ∧ NoSelect t k j
  handling : (t.state j).pc = .handling .toolChange → Received t i
  written : ∀ new, (t.state j).written = (t.state i).written ++ new → .toolListChanged ∈ new →
    Received t i

theorem NoSelect.succ {k j : Nat} (h : NoSelect t k j) (hj : ∀ sel, t.label j ≠ .select sel) :
    NoSelect t k (j + 1) := by
  intro m hkm hmj sel
  by_cases hm : m = j
  · rw [hm]
    exact hj sel
  · exact h m hkm (by omega) sel

theorem since_signal {i : Nat} (hi : t.label i = .loadConfig true) : Since t i (i + 1) := by
  have hstep := t.next i
  rw [hi] at hstep
  have hstate := (Option.some.inj hstep).symm
  constructor
  · intro ch hpc _
    rw [hstate] at hpc
    refine ⟨i, Nat.le_refl i, Nat.lt_succ_self i, ⟨hi, ch, hpc⟩, ?_⟩
    intro m hm hm'
    omega
  · intro hpc
    rw [hstate] at hpc
    exact .inl hpc
  · intro new hnew hmem
    rw [hstate] at hnew
    have hnil : new = [] := by simpa using hnew
    rw [hnil] at hmem
    cases hmem

theorem Since.written_kept (h : Since t i j)
    (hw : (t.state (j + 1)).written = (t.state j).written) (new : List (Written μ))
    (hnew : (t.state (j + 1)).written = (t.state i).written ++ new)
    (hmem : .toolListChanged ∈ new) : Received t i := by
  rw [hw] at hnew
  exact h.written new hnew hmem

theorem since_handled (hij : i ≤ j) (h : Since t i j)
    (hpc : (t.state j).pc = .handling sel)
    (hs : t.state (j + 1) = (t.state j).handled crypto modify sel) : Since t i (j + 1) := by
  have hnext : (t.state (j + 1)).pc = .returned ∨ (t.state (j + 1)).pc = .top := by
    rw [hs]
    exact ite_eq_or_eq _ _ _
  constructor
  · intro ch hpc'
    rcases hnext with hnext | hnext
    · rw [hnext] at hpc'
      cases hpc'
    · rw [hnext] at hpc'
      cases hpc'
  · intro hpc'
    rcases hnext with hnext | hnext
    · rw [hnext] at hpc'
      cases hpc'
    · rw [hnext] at hpc'
      cases hpc'
  · intro new hnew hmem
    obtain ⟨old, hold⟩ := written_grows t hij
    have hsplit : new = old ++ (handleSelected crypto modify (t.state j).sessions sel).1 := by
      rw [hs, LoopState.handled, hold, append_assoc] at hnew
      exact (append_cancel_left hnew).symm
    rw [hsplit, mem_append] at hmem
    rcases hmem with hmem | hmem
    · exact h.written old hold hmem
    · rw [toolListChanged_mem hmem] at hpc
      exact h.handling hpc

theorem since_step (hij : i ≤ j) (h : Since t i j) : Since t i (j + 1) := by
  rcases loopStep_cases (t.next j) with ⟨c, ha, hs⟩ | ⟨ha, hpc, hs⟩ | ⟨sel, ch, ha, hpc, hready, hs⟩ |
    ⟨sel, ha, hpc, hs⟩
  · -- a configuration is loaded
    refine ⟨?_, ?_, h.written_kept t (by rw [hs])⟩
    · intro ch hpc hclosed
      rw [hs] at hpc hclosed
      cases c with
      | true =>
        refine ⟨j, hij, Nat.lt_succ_self j, ⟨ha, ch, hpc⟩, ?_⟩
        intro m hm hm'
        omega
      | false =>
        obtain ⟨k, hik, hkj, hfinds, hno⟩ := h.waiting ch hpc hclosed
        exact ⟨k, hik, by omega, hfinds, hno.succ t fun sel => by rw [ha]; simp⟩
    · intro hpc
      rw [hs] at hpc
      exact h.handling hpc
  · -- the channel that `Watch` returns is open
    refine ⟨?_, ?_, h.written_kept t (by rw [hs])⟩
    · intro ch hpc' hclosed
      rw [hs] at hpc' hclosed
      obtain rfl : (t.state j).signaler.notify = ch := by simpa using hpc'
      exact absurd hclosed (Nat.lt_irrefl _)
    · intro hpc'
      rw [hs] at hpc'
      cases hpc'
  · -- something is selected
    refine ⟨?_, ?_, h.written_kept t (by rw [hs])⟩
    · intro ch' hpc'
      rw [hs] at hpc'
      cases hpc'
    · intro hpc'
      rw [hs] at hpc'
      obtain rfl : sel = .toolChange := by simpa using hpc'
      have hclosed : ch < (t.state j).signaler.notify := by
        simpa [LoopState.ready] using hready
      obtain ⟨k, hik, hkj, hfinds, hno⟩ := h.waiting ch hpc hclosed
      exact .inr ⟨k, hik, hfinds, j, hkj, ha, hno⟩
  · exact since_handled t hij h hpc hs

theorem written_of_handling (hrun : KeepsRunning t) {n : Nat} (hpc : (t.state n).pc = .handling .toolChange) :
    ∃ j, n ≤ j ∧ (t.state (j + 1)).written = (t.state j).written ++ [.toolListChanged] := by
  have hkept : ∀ m, n ≤ m → (t.state m).pc = .handling .toolChange → ¬ t.label m = .handle →
      (t.state (m + 1)).pc = .handling .toolChange := by
    intro m _ hpc hnot
    rcases loopStep_cases (t.next m) with ⟨c, -, hs⟩ | ⟨-, hpc', -⟩ | ⟨sel, ch, -, hpc', -⟩ | ⟨sel, ha, -⟩
    · rw [hs]
      exact hpc
    · rw [hpc] at hpc'
      cases hpc'
    · rw [hpc] at hpc'
      cases hpc'
    · exact absurd ha hnot
  obtain ⟨j, hj, hpcj, ha⟩ := exists_of_kept_until hpc hkept (hrun n .toolChange hpc)
  refine ⟨j, hj, ?_⟩
  have hstep := t.next j
  rw [ha] at hstep
  simp only [loopStep, hpcj] at hstep
  rw [← Option.some.inj hstep]
  rfl

theorem notifiedAfter_of_handling (hrun : KeepsRunning t) {i n : Nat} (hin : i ≤ n)
    (hpc : (t.state n).pc = .handling .toolChange) : NotifiedAfter t i := by
  obtain ⟨j, hj, hwritten⟩ := written_of_handling t hrun hpc
  obtain ⟨new, hnew⟩ := written_grows t (show i ≤ j by omega)
  refine ⟨j + 1, new ++ [.toolListChanged], by omega, ?_, by simp⟩
  rw [hwritten, hnew, append_assoc]

theorem handling_of_select {j : Nat} (h : t.label j = .select sel) :
    (t.state (j + 1)).pc = .handling sel := by
  rcases loopStep_cases (t.next j) with ⟨c, ha, -⟩ | ⟨ha, -⟩ | ⟨sel', ch, ha, -, -, hs⟩ | ⟨sel', ha, -⟩
  · rw [h] at ha
    cases ha
  · rw [h] at ha
    cases ha
  · rw [h] at ha
    cases ha
    rw [hs]
  · rw [h] at ha
    cases ha

/-! ## Top theorem -/

theorem notified_after_iff (hrun : KeepsRunning t) {i : Nat} (hi : t.label i = .loadConfig true) :
    NotifiedAfter t i ↔ Received t i := by
  constructor
  · rintro ⟨j, new, hij, hwritten, hmem⟩
    by_cases hj : j = i
    · have hnil : new = [] := by
        rw [hj] at hwritten
        simpa using hwritten
      rw [hnil] at hmem
      cases hmem
    · have hsince : Since t i j :=
        Trace.from_on (since_signal t hi) (fun n hn => since_step t (by omega)) (by omega)
      exact hsince.written new hwritten hmem
  · rintro (hpc | ⟨k, hik, -, j, hkj, hselect, -⟩)
    · exact notifiedAfter_of_handling t hrun (Nat.le_refl i) hpc
    · exact notifiedAfter_of_handling t hrun (show i ≤ j + 1 by omega) (handling_of_select t hselect)

end

/-! ### Two streams -/

/-- The tools change in every round while the loop waits, and the signal is what it selects. -/
def servedRound (k r : Nat) : LoopState UInt8 Unit where
  signaler := ⟨if r < 2 then k else k + 1⟩
  pc := if r = 0 then .top else if r < 3 then .waiting k else .handling .toolChange
  backendMsgs := true
  sessions := twoSession.perBackendSessions
  written := .ping :: List.replicate k .toolListChanged

def servedActions : Nat → Action UInt8 Unit
  | 0 => .watch
  | 1 => .loadConfig true
  | 2 => .select .toolChange
  | _ => .handle

theorem servedRounds :
    Rounds (loopStep saltedCrypto fun _ m => m) 4 servedRound servedActions where
  pos := by decide
  inside k r hr := by
    obtain rfl | rfl | rfl : r = 0 ∨ r = 1 ∨ r = 2 := by omega
    · rfl
    · rfl
    · simp [loopStep, servedRound, servedActions, LoopState.ready]
  last k r hr := by
    obtain rfl : r = 3 := by omega
    simp [loopStep, servedRound, servedActions, LoopState.handled, handleSelected, Selected.isDone, ← replicate_succ']

def servedTrace : Trace (loopStep saltedCrypto fun _ (m : Unit) => m)
    (loopStart ⟨0⟩ twoSession.perBackendSessions) :=
  .ofRounds servedRound servedActions servedRounds

theorem keepsRunning_ofRounds {g : Nat → Nat → LoopState UInt8 Unit}
    {actions : Nat → Action UInt8 Unit}
    (h : Rounds (loopStep saltedCrypto fun _ m => m) 4 g actions) (hlast : actions 3 = .handle) :
    KeepsRunning (Trace.ofRounds g actions h) := by
  intro n sel _
  refine ⟨4 * n + 3, by omega, ?_⟩
  show actions ((4 * n + 3) % 4) = .handle
  rw [show (4 * n + 3) % 4 = 3 by omega, hlast]

theorem served_signal_is_notified :
    servedTrace.label 1 = .loadConfig true ∧ NotifiedAfter servedTrace 1 := by
  refine ⟨rfl, (notified_after_iff servedTrace (keepsRunning_ofRounds servedRounds rfl) rfl).mpr ?_⟩
  refine .inr ⟨1, Nat.le_refl 1, ⟨rfl, 0, rfl⟩, 2, by decide, rfl, ?_⟩
  intro m hm hm'
  omega

/-- The tools change in every round while a heartbeat is handled. -/
def lostRound (k r : Nat) : LoopState UInt8 Unit where
  signaler := ⟨if r < 3 then k else k + 1⟩
  pc := if r = 0 then .top else if r = 1 then .waiting k else .handling .heartbeat
  backendMsgs := true
  sessions := twoSession.perBackendSessions
  written := List.replicate (k + 1) .ping

def lostActions : Nat → Action UInt8 Unit
  | 0 => .watch
  | 1 => .select .heartbeat
  | 2 => .loadConfig true
  | _ => .handle

theorem lostRounds : Rounds (loopStep saltedCrypto fun _ m => m) 4 lostRound lostActions where
  pos := by decide
  inside k r hr := by
    obtain rfl | rfl | rfl : r = 0 ∨ r = 1 ∨ r = 2 := by omega
    · rfl
    · rfl
    · rfl
  last k r hr := by
    obtain rfl : r = 3 := by omega
    simp [loopStep, lostRound, lostActions, LoopState.handled, handleSelected, Selected.isDone, ← replicate_succ']

def lostTrace : Trace (loopStep saltedCrypto fun _ (m : Unit) => m)
    (loopStart ⟨0⟩ twoSession.perBackendSessions) :=
  .ofRounds lostRound lostActions lostRounds

/-- The loop runs on for ever, and no signal ever reaches the client. -/
theorem signals_are_lost :
    KeepsRunning lostTrace ∧ (∀ n, ∃ m, n ≤ m ∧ lostTrace.label m = .watch) ∧
      (∀ n, ∃ m, n ≤ m ∧ lostTrace.label m = .loadConfig true) ∧
      ∀ i, ¬ NotifiedAfter lostTrace i := by
  refine ⟨keepsRunning_ofRounds lostRounds rfl, ?_, ?_, ?_⟩
  · intro n
    refine ⟨4 * n, by omega, ?_⟩
    show lostActions (4 * n % 4) = .watch
    rw [show 4 * n % 4 = 0 by omega]
    rfl
  · intro n
    refine ⟨4 * n + 2, by omega, ?_⟩
    show lostActions ((4 * n + 2) % 4) = .loadConfig true
    rw [show (4 * n + 2) % 4 = 2 by omega]
    rfl
  · rintro i ⟨j, new, -, hwritten, hmem⟩
    have hin : Written.toolListChanged ∈ (lostTrace.state j).written := by
      rw [hwritten]
      exact mem_append_right _ hmem
    cases eq_of_mem_replicate hin

end AgentRouter.MCPSession
