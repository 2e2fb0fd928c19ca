import Mathlib.Data.List.Range
import Mathlib.Logic.Basic

/-!
# AnthropicStream: the events of an Anthropic message stream

The translators that answer Anthropic clients write these events.  A stream is valid when it is
a `message_start`, a sequence of content blocks with the indices 0, 1, 2, …, and then a
`message_delta` and a `message_stop`; a block is one `content_block_start`, deltas that fit it,
and one `content_block_stop`.  `scan` reads a stream event by event and stops at the first one
that is out of place:

    Valid fits events  ↔  scanAll fits .start events = some .done   (valid_iff)

`foldContent` is the client's side: what the blocks of a message are after the events.
-/

namespace AgentRouter.AnthropicStream

open List

/-! ## Events -/

/-- The block of a `content_block_start`. -/
inductive BlockStart where
  | text
  | thinking
  | toolUse (id name : String)
  deriving DecidableEq

inductive Delta where
  | text (text : String)
  | thinking (thinking : String)
  | signature (signature : String)
  | inputJSON (partialJSON : String)
  deriving DecidableEq

inductive StopReason where
  | endTurn | maxTokens | stopSequence | toolUse | refusal
  deriving DecidableEq

/-- The parts of the `message_start` that are not constant. -/
structure MessageStart where
  id : String
  role : String
  model : String
  inputTokens : Int
  outputTokens : Int
  deriving DecidableEq

inductive Event where
  | messageStart (message : MessageStart)
  | contentBlockStart (index : Nat) (block : BlockStart)
  | contentBlockDelta (index : Nat) (delta : Delta)
  | contentBlockStop (index : Nat)
  | messageDelta (stopReason : StopReason) (inputTokens : Option Int) (outputTokens : Int)
  | messageStop
  deriving DecidableEq

/-! ## Valid streams -/

structure Block where
  index : Nat
  start : BlockStart
  deltas : List Delta

def Block.events (b : Block) : List Event :=
  .contentBlockStart b.index b.start ::
    (b.deltas.map (.contentBlockDelta b.index) ++ [.contentBlockStop b.index])

/-- A delta of the block's own type. -/
def fits : BlockStart → Delta → Bool
  | .text, .text _ => true
  | .thinking, .thinking _ => true
  | .thinking, .signature _ => true
  | .toolUse _ _, .inputJSON _ => true
  | _, _ => false

/-- The blocks of a message, numbered from `n`. -/
structure Numbered (fits : BlockStart → Delta → Bool) (n : Nat) (blocks : List Block) : Prop where
  indices : blocks.map (·.index) = List.range' n blocks.length
  deltas : ∀ b ∈ blocks, ∀ d ∈ b.deltas, fits b.start d = true

def Valid (fits : BlockStart → Delta → Bool) (events : List Event) : Prop :=
  ∃ (m : MessageStart) (blocks : List Block) (stopReason : StopReason) (inputTokens : Option Int)
    (outputTokens : Int),
    events = .messageStart m :: (blocks.flatMap Block.events ++
      [.messageDelta stopReason inputTokens outputTokens, .messageStop]) ∧ Numbered fits 0 blocks

/-! ## Reading a stream -/

/-- Where in a stream the next event stands. -/
inductive Phase where
  | start
  | between (next : Nat)
  | inside (index : Nat) (block : BlockStart)
  | closing
  | done
  deriving DecidableEq

def scan (fits : BlockStart → Delta → Bool) : Phase → Event → Option Phase
  | .start, .messageStart _ => some (.between 0)
  | .between n, .contentBlockStart i b => if i = n then some (.inside n b) else none
  | .between _, .messageDelta _ _ _ => some .closing
  | .inside n b, .contentBlockDelta i d =>
    if i = n ∧ fits b d = true then some (.inside n b) else none
  | .inside n _, .contentBlockStop i => if i = n then some (.between (n + 1)) else none
  | .closing, .messageStop => some .done
  | _, _ => none

def scanAll (fits : BlockStart → Delta → Bool) : Phase → List Event → Option Phase
  | p, [] => some p
  | p, e :: es => (scan fits p e).bind fun p => scanAll fits p es

section

variable {fits : BlockStart → Delta → Bool}

@[simp] theorem scanAll_nil (p : Phase) : scanAll fits p [] = some p := rfl

theorem scanAll_cons (p : Phase) (e : Event) (es : List Event) :
    scanAll fits p (e :: es) = (scan fits p e).bind fun p => scanAll fits p es := rfl

theorem scanAll_append (p : Phase) (es es' : List Event) :
    scanAll fits p (es ++ es') = (scanAll fits p es).bind fun p => scanAll fits p es' := by
  induction es generalizing p with
  | nil => rfl
  | cons e es ih =>
    rw [cons_append, scanAll_cons, scanAll_cons]
    cases scan fits p e with
    | none => rfl
    | some q => exact ih q

variable {n : Nat}

theorem scanAll_deltas {b : BlockStart} {ds : List Delta} (h : ∀ d ∈ ds, fits b d = true) :
    scanAll fits (.inside n b) (ds.map (.contentBlockDelta n)) = some (.inside n b) := by
  induction ds with
  | nil => rfl
  | cons d ds ih =>
    rw [map_cons, scanAll_cons, scan, if_pos ⟨rfl, h d mem_cons_self⟩]
    exact ih fun d hd => h d (mem_cons_of_mem _ hd)

theorem scanAll_block {b : Block} (h : ∀ d ∈ b.deltas, fits b.start d = true) :
    scanAll fits (.between b.index) b.events = some (.between (b.index + 1)) := by
  unfold Block.events
  rw [scanAll_cons, scan, if_pos rfl, Option.bind_some, scanAll_append, scanAll_deltas h]
  simp [scanAll_cons, scan]

theorem scanAll_blocks {blocks : List Block} (h : Numbered fits n blocks) :
    scanAll fits (.between n) (blocks.flatMap Block.events) = some (.between (n + blocks.length)) := by
  induction blocks generalizing n with
  | nil => rfl
  | cons b bs ih =>
    have hindices := h.indices
    rw [map_cons, length_cons, range'_succ, List.cons.injEq] at hindices
    obtain ⟨rfl, hrest⟩ := hindices
    rw [flatMap_cons, scanAll_append, scanAll_block (h.deltas b mem_cons_self),
      Option.bind_some, ih ⟨hrest, fun b hb => h.deltas b (mem_cons_of_mem _ hb)⟩,
      length_cons, Nat.add_assoc, Nat.add_comm 1]

theorem exists_deltas_of_scanAll {b : BlockStart} {es : List Event}
    (h : scanAll fits (.inside n b) es = some .done) :
    ∃ (ds : List Delta) (rest : List Event), es = ds.map (.contentBlockDelta n) ++ .contentBlockStop n :: rest ∧
      (∀ d ∈ ds, fits b d = true) ∧ scanAll fits (.between (n + 1)) rest = some .done := by
  induction es with
  | nil => cases h
  | cons e es ih =>
    rw [scanAll_cons, Option.bind_eq_some_iff] at h
    obtain ⟨p, hscan, h⟩ := h
    cases e with
    | contentBlockDelta i d =>
      rw [scan] at hscan
      split at hscan
      next hd =>
        cases hscan
        obtain ⟨rfl, hd⟩ := hd
        obtain ⟨ds, rest, rfl, hds, hrest⟩ := ih h
        exact ⟨d :: ds, rest, rfl, forall_mem_cons.mpr ⟨hd, hds⟩, hrest⟩
      · cases hscan
    | contentBlockStop i =>
      rw [scan] at hscan
      split at hscan
      next hi =>
        cases hscan
        subst hi
        exact ⟨[], es, rfl, fun d hd => absurd hd not_mem_nil, h⟩
      · cases hscan
    | _ => cases hscan

theorem exists_blocks_of_scanAll {es : List Event} (h : scanAll fits (.between n) es = some .done) :
    ∃ (blocks : List Block) (stopReason : StopReason) (inputTokens : Option Int)
      (outputTokens : Int), es = blocks.flatMap Block.events ++
      [.messageDelta stopReason inputTokens outputTokens, .messageStop] ∧
      Numbered fits n blocks := by
  induction hlen : es.length using Nat.strongRecOn generalizing n es with
  | ind len ih =>
    cases es with
    | nil => cases h
    | cons e es =>
      rw [scanAll_cons, Option.bind_eq_some_iff] at h
      obtain ⟨p, hscan, h⟩ := h
      cases e with
      | contentBlockStart i b =>
        rw [scan] at hscan
        split at hscan
        next hi =>
          cases hscan
          subst hi
          obtain ⟨ds, rest, rfl, hds, hrest⟩ := exists_deltas_of_scanAll h
          have hlt : rest.length < len := by
            rw [← hlen, length_cons, length_append, length_cons]
            omega
          obtain ⟨blocks, sr, it, ot, rfl, hnum⟩ := ih rest.length hlt hrest rfl
          refine ⟨⟨i, b, ds⟩ :: blocks, sr, it, ot, ?_, ?_, forall_mem_cons.mpr ⟨hds, hnum.deltas⟩⟩
          · simp [Block.events]
          · rw [map_cons, hnum.indices, length_cons, range'_succ]
        · cases hscan
      | messageDelta sr it ot =>
        cases hscan
        cases es with
        | nil => cases h
        | cons e es =>
          rw [scanAll_cons, Option.bind_eq_some_iff] at h
          obtain ⟨p, hscan, h⟩ := h
          cases e with
          | messageStop =>
            cases hscan
            cases es with
            | nil => exact ⟨[], sr, it, ot, rfl, rfl, fun b hb => absurd hb not_mem_nil⟩
            | cons e es => cases e <;> cases h
          | _ => cases hscan
      | _ => cases hscan

theorem valid_iff {events : List Event} : Valid fits events ↔ scanAll fits .start events = some .done := by
  constructor
  · rintro ⟨m, blocks, sr, it, ot, rfl, hnum⟩
    rw [scanAll_cons, scan, Option.bind_some, scanAll_append, scanAll_blocks hnum]
    rfl
  · intro h
    cases events with
    | nil => cases h
    | cons e es =>
      rw [scanAll_cons, Option.bind_eq_some_iff] at h
      obtain ⟨p, hscan, h⟩ := h
      cases e with
      | messageStart m =>
        cases hscan
        obtain ⟨blocks, sr, it, ot, rfl, hnum⟩ := exists_blocks_of_scanAll h
        exact ⟨m, blocks, sr, it, ot, rfl, hnum⟩
      | _ => cases hscan

instance (events : List Event) : Decidable (Valid fits events) :=
  decidable_of_iff _ valid_iff.symm

end

/-! ## The client's side -/

/-- A block as the client has it so far; the input of a tool is still a text. -/
inductive Content where
  | text (text : String)
  | thinking (thinking signature : String)
  | toolUse (id name json : String)

def BlockStart.content : BlockStart → Content
  | .text => .text ""
  | .thinking => .thinking "" ""
  | .toolUse id name => .toolUse id name ""

/-- A delta of another type is ignored. -/
def Content.append : Content → Delta → Content
  | .text t, .text t' => .text (t ++ t')
  | .thinking t g, .thinking t' => .thinking (t ++ t') g
  | .thinking t g, .signature g' => .thinking t (g ++ g')
  | .toolUse id name json, .inputJSON json' => .toolUse id name (json ++ json')
  | c, _ => c

/-- A new block goes to the end, a delta to the block with its index. -/
def foldContent (blocks : List Content) : Event → List Content
  | .contentBlockStart _ b => blocks ++ [b.content]
  | .contentBlockDelta i d => blocks.modify i (Content.append · d)
  | _ => blocks

/-- The last stop reason that was sent. -/
def stopReasonOf (events : List Event) : Option StopReason :=
  events.foldl (fun r e => match e with
    | .messageDelta sr _ _ => some sr
    | _ => r) none

end AgentRouter.AnthropicStream
