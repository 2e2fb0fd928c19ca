import AgentRouter.Translator.BedrockStream

/-!
# BedrockBlocks: the blocks of a well-formed ConverseStream

A well-formed stream is a `messageStart`, the blocks with the indices 0, 1, 2, …, a `messageStop`
and `metadata`.  A block is an optional `contentBlockStart`, deltas of one kind, and a
`contentBlockStop`.  The translator writes a `content_block_start` at once for a tool block, and
for others with the first text or reasoning delta, but only if there was a `contentBlockStart`.
It always writes the `content_block_stop`.  So the stream that comes out is valid exactly when
every block is announced:

    Valid anyDelta output ∧ startIndices output = [0, …, n - 1]
      ↔ ∀ b ∈ blocks, b.announced   (translated_blocks_valid_iff)
-/

namespace AgentRouter.BedrockStream

open AnthropicStream Emit List

/-! ## Well-formed streams -/

/-- The deltas of a block, all of one kind. -/
inductive BlockDeltas where
  | text (texts : List String)
  | toolUse (inputs : List String)
  | reasoning (contents : List ReasoningContentBlockDelta)

open BlockDeltas

/-- A block; `start` is what its `contentBlockStart` has, if there is one. -/
structure SourceBlock where
  start : Option (Option ContentBlockStart)
  deltas : BlockDeltas

def deltaEvent (index : Nat) (delta : ContentBlockDelta) : StreamEvent :=
  { noEvent with eventType := .contentBlockDelta, contentBlockIndex := index, delta := some delta }

def BlockDeltas.events (index : Nat) : BlockDeltas → List StreamEvent
  | .text ts => ts.map fun t => deltaEvent index ⟨some t, none, none⟩
  | .toolUse is => is.map fun i => deltaEvent index ⟨none, some i, none⟩
  | .reasoning rcs => rcs.map fun rc => deltaEvent index ⟨none, none, some rc⟩

def startEvent (index : Nat) (start : Option ContentBlockStart) : StreamEvent :=
  { noEvent with eventType := .contentBlockStart, contentBlockIndex := index, start := start }

def stopEvent (index : Nat) : StreamEvent :=
  { noEvent with eventType := .contentBlockStop, contentBlockIndex := index }

def SourceBlock.events (index : Nat) (b : SourceBlock) : List StreamEvent :=
  (b.start.map (startEvent index)).toList ++ b.deltas.events index ++ [stopEvent index]

/-- The events of the blocks, numbered from `n`. -/
def blockEvents : Nat → List SourceBlock → List StreamEvent
  | _, [] => []
  | n, b :: bs => b.events n ++ blockEvents (n + 1) bs

/-- A well-formed stream. -/
def wellFormed (role : String) (blocks : List SourceBlock) (reason : BedrockStopReason)
    (usage : Option TokenUsage) : List StreamEvent :=
  { noEvent with eventType := .messageStart, role := some role } ::
    (blockEvents 0 blocks ++
      [{ noEvent with eventType := .messageStop, stopReason := some reason },
        { noEvent with eventType := .metadata, usage := usage }])

/-- A block whose start is written: a tool block with its `contentBlockStart`, or another one with
`contentBlockStart` and a text or reasoning delta. -/
def SourceBlock.announced (b : SourceBlock) : Bool :=
  match b.start.map (·.bind (·.toolUse)), b.deltas with
  | some (some _), _ => true
  | some none, .text (_ :: _) => true
  | some none, .reasoning (_ :: _) => true
  | _, _ => false

/-- Any delta may be in any block. -/
def anyDelta (_ : BlockStart) (_ : Delta) : Bool := true

/-- The indices of the blocks that are started. -/
def startIndices (events : List Event) : List Nat :=
  events.filterMap fun e => match e with
    | .contentBlockStart i _ => some i
    | _ => none

/-! ## Token counts do not matter -/

/-- An event without its token counts. -/
def shape : Event → Event
  | .messageStart m => .messageStart { m with inputTokens := 0, outputTokens := 0 }
  | .messageDelta reason _ _ => .messageDelta reason none 0
  | e => e

theorem scanAll_map_shape (fits : BlockStart → Delta → Bool) (p : Phase) (es : List Event) :
    scanAll fits p (es.map shape) = scanAll fits p es := by
  induction es generalizing p with
  | nil => rfl
  | cons e es ih =>
    have hscan : scan fits p (shape e) = scan fits p e := by
      cases e with
      | messageStart m | messageDelta r i o => cases p <;> rfl
      | contentBlockStart i b | contentBlockDelta i d | contentBlockStop i | messageStop => rfl
    rw [map_cons, scanAll_cons, scanAll_cons, hscan]
    cases scan fits p e with
    | none => rfl
    | some q => exact ih q

theorem startIndices_map_shape (es : List Event) : startIndices (es.map shape) = startIndices es := by
  unfold startIndices
  rw [filterMap_map]
  congr 1
  funext e
  cases e with
  | messageStart m | contentBlockStart i b | contentBlockDelta i d | contentBlockStop i => rfl
  | messageDelta r i o | messageStop => rfl

theorem shape_convert (b : Translator) (usage usage' : Option TokenUsage) (buffer buffer' : Bytes)
    (e : StreamEvent) :
    (convertEventToAnthropicSSE { b with streamingUsage := usage, bufferedBody := buffer } e).2.map shape =
      (convertEventToAnthropicSSE
        { b with streamingUsage := usage', bufferedBody := buffer' } e).2.map shape := by
  unfold convertEventToAnthropicSSE
  cases e.eventType with
  | messageStart =>
    cases e.role with
    | none => rfl
    | some role => rfl
  | contentBlockStart =>
    rw [convertBlockStart_update, convertBlockStart_update b usage']
  | contentBlockDelta =>
    rw [convertDelta_update, convertDelta_update b usage']
  | contentBlockStop | metadata | other name => rfl
  | messageStop =>
    cases e.stopReason with
    | none => rfl
    | some reason => rfl

theorem shape_emitAll {a b : Translator} (h : a.core = b.core)
    {xs ys : List (StreamEvent × Option TokenUsage)} (hevents : xs.map (·.1) = ys.map (·.1)) :
    (emitAll a xs).map shape = (emitAll b ys).map shape := by
  rw [← forall₂_eq_eq_eq, forall₂_map_left_iff, forall₂_map_right_iff] at hevents
  induction hevents generalizing a b with
  | nil => rfl
  | @cons x y _ _ he _ ih =>
    obtain ⟨e, u⟩ := x
    obtain ⟨_, u'⟩ := y
    cases he
    have hcore : ({ a with streamingUsage := u } : Translator).core =
        ({ b with streamingUsage := u' } : Translator).core := h
    have hshape := shape_convert b u u' a.bufferedBody b.bufferedBody e
    have ha : ({ a with streamingUsage := u } : Translator) =
        { b with streamingUsage := u, bufferedBody := a.bufferedBody } := eq_update_of_core_eq hcore
    rw [← ha] at hshape
    rw [emitAll, emitAll, map_append, map_append, hshape, ih (convert_of_core_eq hcore e).1]

/-- A run over calls writes what a plain run over its events writes, token counts apart. -/
theorem shape_responseBodies {μ : Type} (decode : Framing.Decoder UInt8 μ)
    (unmarshal : μ → Option StreamEvent) (a : Translator) (pieces : List Bytes) :
    (responseBodies decode unmarshal a pieces).2.map shape =
      (convertEvents a (batches decode unmarshal a.bufferedBody pieces).flatten).2.map shape := by
  have hplain := emitAll_annotate_append a (batches decode unmarshal a.bufferedBody pieces).flatten []
  rw [append_nil, emitAll, append_nil] at hplain
  rw [responseBodies_out, ← hplain]
  refine shape_emitAll rfl ?_
  rw [map_fst_annotateBatches, map_fst_annotate]

/-! ## One block -/

theorem convertEvents_append (a : Translator) (es es' : List StreamEvent) :
    convertEvents a (es ++ es') =
      ((convertEvents (convertEvents a es).1 es').1,
        (convertEvents a es).2 ++ (convertEvents (convertEvents a es).1 es').2) :=
  writeAll_append _ a es es'

def reasoningValues (rc : ReasoningContentBlockDelta) : List Delta :=
  (if rc.text = "" then [] else [.thinking rc.text]) ++
    if rc.signature = "" then [] else [.signature rc.signature]

def BlockDeltas.values : BlockDeltas → List Delta
  | .text ts => ts.map .text
  | .toolUse is => is.map .inputJSON
  | .reasoning rcs => rcs.flatMap reasoningValues

theorem reasoningEvents_eq (n : Nat) (rc : ReasoningContentBlockDelta) :
    reasoningEvents n rc = (reasoningValues rc).map (.contentBlockDelta n) := by
  rw [reasoningValues, map_append, apply_ite (map _), apply_ite (map _)]
  rfl

theorem convertEvents_deltaEvents {α : Type} {a : Translator} {n : Nat} {delta : α → ContentBlockDelta}
    {values : α → List Delta}
    (h : ∀ x, convertDelta a n (some (delta x)) = (a, (values x).map (.contentBlockDelta n)))
    (xs : List α) :
    convertEvents a (xs.map fun x => deltaEvent n (delta x)) =
      (a, (xs.flatMap values).map (.contentBlockDelta n)) := by
  induction xs with
  | nil => rfl
  | cons x xs ih =>
    have hstep : convertEventToAnthropicSSE a (deltaEvent n (delta x)) = _ := h x
    rw [map_cons, convertEvents_cons, hstep, ih, flatMap_cons, map_append]

theorem convertEvents_toolUse (a : Translator) (n : Nat) (is : List String) :
    convertEvents a ((toolUse is).events n) = (a, (toolUse is).values.map (.contentBlockDelta n)) := by
  rw [values, map_eq_flatMap (f := Delta.inputJSON)]
  refine convertEvents_deltaEvents (fun i => ?_) is
  rfl

variable {a : Translator} (h : a.pendingBlockStart = false)

include h in
theorem convertEvents_deltas (n : Nat) (deltas : BlockDeltas) :
    convertEvents a (deltas.events n) = (a, deltas.values.map (.contentBlockDelta n)) := by
  have hflush : ∀ block, flushPendingBlockStart a block = (a, []) := by
    simp [flushPendingBlockStart, h]
  cases deltas with
  | text ts =>
    rw [values, map_eq_flatMap (f := Delta.text)]
    refine convertEvents_deltaEvents (fun t => ?_) ts
    simp [convertDelta, hflush]
  | toolUse is => exact convertEvents_toolUse a n is
  | reasoning rcs =>
    refine convertEvents_deltaEvents (fun rc => ?_) rcs
    simp [convertDelta, hflush, reasoningEvents_eq]

theorem convert_stop (a : Translator) (n : Nat) :
    convertEvents a [stopEvent n] = (a, [.contentBlockStop n]) := rfl

variable {start : Option ContentBlockStart}

theorem convert_start_tool (a : Translator) (n : Nat) {tool : ToolUseBlockStart}
    (h : start.bind (·.toolUse) = some tool) :
    convertEvents a [startEvent n start] =
      (a, [.contentBlockStart n (.toolUse tool.toolUseID tool.name)]) := by
  simp [convertEvents, writeAll, convertEventToAnthropicSSE, startEvent, convertBlockStart, h]

theorem convert_start_other (a : Translator) (n : Nat) (h : start.bind (·.toolUse) = none) :
    convertEvents a [startEvent n start] =
      ({ a with pendingBlockStart := true, pendingBlockStartIdx := n }, []) := by
  simp [convertEvents, writeAll, convertEventToAnthropicSSE, startEvent, convertBlockStart, h]

include h in
theorem convertEvents_block (n : Nat) (b : SourceBlock) :
    (b.announced = true ∧ ∃ (start : BlockStart) (ds : List Delta),
      (convertEvents a (b.events n)).2 = Block.events ⟨n, start, ds⟩ ∧
        (convertEvents a (b.events n)).1.pendingBlockStart = false) ∨
    (b.announced = false ∧ ∃ ds : List Delta,
      (convertEvents a (b.events n)).2 = ds.map (.contentBlockDelta n) ++ [.contentBlockStop n]) := by
  obtain ⟨start, deltas⟩ := b
  unfold SourceBlock.events
  cases start with
  | none =>
    refine .inr ⟨rfl, deltas.values, ?_⟩
    simp only [Option.map_none, Option.toList_none, nil_append]
    rw [convertEvents_append, convertEvents_deltas h, convert_stop]
  | some start =>
    simp only [SourceBlock.announced, Option.map_some, Option.toList_some]
    cases htool : start.bind (·.toolUse) with
    | some tool =>
      refine .inl ⟨rfl, .toolUse tool.toolUseID tool.name, deltas.values, ?_⟩
      rw [convertEvents_append, convertEvents_append, convert_start_tool a n htool, convertEvents_deltas h]
      exact ⟨rfl, h⟩
    | none =>
      rw [convertEvents_append, convertEvents_append, convert_start_other a n htool]
      -- the first delta writes the start, and the others find nothing to write
      cases deltas with
      | text ts =>
        cases ts with
        | nil => exact .inr ⟨rfl, [], rfl⟩
        | cons t ts =>
          have hevents : (text (t :: ts)).events n =
              [deltaEvent n ⟨some t, none, none⟩] ++ (text ts).events n := rfl
          refine .inl ⟨rfl, .text, (text (t :: ts)).values, ?_⟩
          rw [hevents, convertEvents_append, convertEvents_deltas rfl n (.text ts)]
          exact ⟨rfl, rfl⟩
      | toolUse is =>
        refine .inr ⟨rfl, (toolUse is).values, ?_⟩
        rw [convertEvents_toolUse]
        rfl
      | reasoning rcs =>
        cases rcs with
        | nil => exact .inr ⟨rfl, [], rfl⟩
        | cons rc rcs =>
          have hevents : (reasoning (rc :: rcs)).events n =
              [deltaEvent n ⟨none, none, some rc⟩] ++ (reasoning rcs).events n := rfl
          have hfirst : convertEvents { a with pendingBlockStart := true, pendingBlockStartIdx := n }
              [deltaEvent n ⟨none, none, some rc⟩] =
              ({ a with pendingBlockStart := false, pendingBlockStartIdx := n },
                .contentBlockStart n .thinking ::
                  ((reasoningValues rc).map (.contentBlockDelta n) ++ [])) := by
            rw [← reasoningEvents_eq]
            rfl
          refine .inl ⟨rfl, .thinking, (reasoning (rc :: rcs)).values, ?_⟩
          rw [hevents, convertEvents_append, hfirst, convertEvents_deltas rfl n (.reasoning rcs),
            convert_stop]
          simp [Block.events, values]

theorem scanAll_unannounced (n i : Nat) (ds : List Delta) :
    scanAll anyDelta (.between n) (ds.map (.contentBlockDelta i) ++ [.contentBlockStop i]) = none := by
  cases ds with
  | nil => rfl
  | cons d ds => rfl

/-! ## All blocks -/

theorem startIndices_append (es es' : List Event) :
    startIndices (es ++ es') = startIndices es ++ startIndices es' := by
  simp [startIndices]

theorem startIndices_block (b : Block) : startIndices b.events = [b.index] := by
  have hdeltas : startIndices (b.deltas.map (.contentBlockDelta b.index)) = [] := by
    unfold startIndices
    rw [filterMap_eq_nil_iff]
    intro e he
    obtain ⟨d, -, rfl⟩ := mem_map.mp he
    rfl
  have hsplit : b.events = [.contentBlockStart b.index b.start] ++
      (b.deltas.map (.contentBlockDelta b.index) ++ [.contentBlockStop b.index]) := rfl
  rw [hsplit, startIndices_append, startIndices_append, hdeltas]
  rfl

include h in
theorem scanAll_blockEvents (n : Nat) (bs : List SourceBlock) :
    scanAll anyDelta (.between n) (convertEvents a (blockEvents n bs)).2 =
      if bs.all (·.announced) = true then some (.between (n + bs.length)) else none := by
  induction bs generalizing a n with
  | nil => rfl
  | cons b bs ih =>
    rw [blockEvents, convertEvents_append, scanAll_append]
    rcases convertEvents_block h n b with ⟨hb, start, ds, hout, hpending⟩ | ⟨hb, ds, hout⟩
    · have hblock : scanAll anyDelta (.between n) (convertEvents a (b.events n)).2 =
          some (.between (n + 1)) := by
        rw [hout]
        exact scanAll_block fun _ _ => rfl
      have hlength : n + 1 + bs.length = n + (b :: bs).length := by
        rw [length_cons]
        omega
      rw [hblock, Option.bind_some, ih hpending, hlength, all_cons, hb, Bool.true_and]
    · rw [hout, scanAll_unannounced, all_cons, hb]
      rfl

include h in
theorem startIndices_blockEvents (n : Nat) {bs : List SourceBlock} (hbs : ∀ b ∈ bs, b.announced = true) :
    startIndices (convertEvents a (blockEvents n bs)).2 = List.range' n bs.length := by
  induction bs generalizing a n with
  | nil => rfl
  | cons b bs ih =>
    obtain ⟨-, start, ds, hout, hpending⟩ := (convertEvents_block h n b).resolve_right
      (by simp [hbs b mem_cons_self])
    rw [blockEvents, convertEvents_append, startIndices_append, hout, startIndices_block,
      ih hpending _ fun b hb => hbs b (mem_cons_of_mem _ hb)]
    rfl

theorem convertEvents_wellFormed (requestModel responseID role : String) (blocks : List SourceBlock)
    (reason : BedrockStopReason) (usage : Option TokenUsage) :
    ∃ (a : Translator) (m : MessageStart) (r : StopReason) (o : Int), a.pendingBlockStart = false ∧
      (convertEvents (.init requestModel responseID) (wellFormed role blocks reason usage)).2 =
        .messageStart m :: ((convertEvents a (blockEvents 0 blocks)).2 ++
          [.messageDelta r none o, .messageStop]) := by
  have ha : ∃ a : Translator, a = { Translator.init requestModel responseID with role := role } :=
    ⟨_, rfl⟩
  obtain ⟨a, ha⟩ := ha
  refine ⟨a, ⟨responseID, role, requestModel, 0, 0⟩, bedrockStopReasonToAnthropicStopReason reason,
    outputTokens (convertEvents a (blockEvents 0 blocks)).1.streamingUsage, by rw [ha]; rfl, ?_⟩
  unfold wellFormed
  rw [convertEvents_cons, convertEvents_append]
  subst ha
  rfl

/-- The stream is valid, with a start for each block, exactly when every block is announced. -/
theorem translated_blocks_valid_iff {μ : Type} {decode : Framing.Decoder UInt8 μ}
    (hstable : Framing.Stable decode) (unmarshal : μ → Option StreamEvent)
    (requestModel responseID role : String) (blocks : List SourceBlock) (reason : BedrockStopReason)
    (usage : Option TokenUsage) (pieces : List Bytes)
    (hevents : (Framing.drain decode pieces.flatten).1.filterMap unmarshal =
      wellFormed role blocks reason usage) :
    (Valid anyDelta (responseBodies decode unmarshal (.init requestModel responseID) pieces).2 ∧
      startIndices (responseBodies decode unmarshal (.init requestModel responseID) pieces).2 =
        List.range blocks.length) ↔
    ∀ b ∈ blocks, b.announced = true := by
  have hbatches : (batches decode unmarshal [] pieces).flatten =
      wellFormed role blocks reason usage := by
    have hfeed := (Framing.feed_flatten hstable [] pieces hstable.decode_nil).1
    rw [nil_append] at hfeed
    rw [← hevents, ← hfeed, filterMap_flatten]
    rfl
  have hshape := shape_responseBodies decode unmarshal (.init requestModel responseID) pieces
  change _ = (convertEvents _ (batches decode unmarshal [] pieces).flatten).2.map shape at hshape
  obtain ⟨a, m, r, o, hpending, hout⟩ :=
    convertEvents_wellFormed requestModel responseID role blocks reason usage
  rw [hbatches, hout] at hshape
  rw [valid_iff, ← scanAll_map_shape, ← startIndices_map_shape, hshape, scanAll_map_shape,
    startIndices_map_shape, ← all_eq_true]
  have hscan := scanAll_blockEvents hpending 0 blocks
  rw [scanAll_cons, scan, Option.bind_some, scanAll_append, hscan]
  cases hall : blocks.all (·.announced) with
  | false => simp
  | true =>
    have hstarts := startIndices_blockEvents hpending 0 (all_eq_true.mp hall)
    have hsplit : startIndices (.messageStart m :: ((convertEvents a (blockEvents 0 blocks)).2 ++
        [.messageDelta r none o, .messageStop])) =
        startIndices ((convertEvents a (blockEvents 0 blocks)).2 ++
          [.messageDelta r none o, .messageStop]) := rfl
    rw [hsplit, startIndices_append, hstarts, range_eq_range']
    simp [scanAll_cons, scan, startIndices]

/-! ## Streams of one block -/

def toolStartFrame : Bytes × StreamEvent :=
  (frame "contentBlockStart"
      ("\x7b\"contentBlockIndex\":0,\"start\":\x7b\"toolUse\":" ++
        "\x7b\"name\":\"f\",\"toolUseId\":\"t\"\x7d\x7d\x7d")
      [151, 238, 84, 175] [78, 245, 47, 175],
    startEvent 0 (some ⟨some ⟨"f", "t"⟩⟩))

def toolDeltaFrame : Bytes × StreamEvent :=
  (frame "contentBlockDelta"
      "\x7b\"contentBlockIndex\":0,\"delta\":\x7b\"toolUse\":\x7b\"input\":\"1\"\x7d\x7d\x7d"
      [202, 110, 234, 157] [225, 174, 57, 120],
    deltaEvent 0 ⟨none, some "1", none⟩)

def textDeltaFrame : Bytes × StreamEvent :=
  (frame "contentBlockDelta" "\x7b\"contentBlockIndex\":0,\"delta\":\x7b\"text\":\"hi\"\x7d\x7d"
      [158, 207, 244, 219] [85, 243, 239, 119],
    deltaEvent 0 ⟨some "hi", none, none⟩)

def startFrame : Bytes × StreamEvent :=
  (frame "contentBlockStart" "\x7b\"contentBlockIndex\":0\x7d" [180, 159, 123, 248]
      [120, 75, 247, 72],
    startEvent 0 none)

def stopFrame : Bytes × StreamEvent :=
  (frame "contentBlockStop" "\x7b\"contentBlockIndex\":0\x7d" [63, 153, 127, 117] [72, 4, 42, 167],
    stopEvent 0)

def unmarshalFrames : Bytes → Option StreamEvent :=
  unmarshalListed [messageStartFrame, toolStartFrame, toolDeltaFrame, textDeltaFrame, startFrame,
    stopFrame, messageStopFrame, metadataFrame]

/-- A tool block, the frames in two calls. -/
theorem tool_block_valid :
    (Framing.drain decodeFrame [messageStartFrame.1 ++ toolStartFrame.1,
        toolDeltaFrame.1 ++ stopFrame.1 ++ messageStopFrame.1 ++ metadataFrame.1].flatten).1.filterMap
      unmarshalFrames =
      wellFormed "assistant" [⟨some (some ⟨some ⟨"f", "t"⟩⟩), .toolUse ["1"]⟩] .endTurn (some ⟨7, 9, none, none⟩) ∧
    Valid anyDelta (responseBodies decodeFrame unmarshalFrames (.init "m" "id")
      [messageStartFrame.1 ++ toolStartFrame.1,
        toolDeltaFrame.1 ++ stopFrame.1 ++ messageStopFrame.1 ++ metadataFrame.1]).2 := by
  have hevents : (Framing.drain decodeFrame [messageStartFrame.1 ++ toolStartFrame.1,
      toolDeltaFrame.1 ++ stopFrame.1 ++ messageStopFrame.1 ++ metadataFrame.1].flatten).1.filterMap
      unmarshalFrames =
      wellFormed "assistant" [⟨some (some ⟨some ⟨"f", "t"⟩⟩), .toolUse ["1"]⟩] .endTurn
        (some ⟨7, 9, none, none⟩) := by
    decide +kernel
  refine ⟨hevents, ?_⟩
  exact ((translated_blocks_valid_iff stable_decodeFrame unmarshalFrames "m" "id" "assistant" _
    .endTurn _ _ hevents).mpr (by decide)).1

/-- A text block without `contentBlockStart`, and a block without deltas: the start is missing. -/
theorem unannounced_blocks_not_valid :
    ((Framing.drain decodeFrame (messageStartFrame.1 ++ textDeltaFrame.1 ++ stopFrame.1 ++
          messageStopFrame.1 ++ metadataFrame.1)).1.filterMap unmarshalFrames =
        wellFormed "assistant" [⟨none, .text ["hi"]⟩] .endTurn (some ⟨7, 9, none, none⟩) ∧
      (responseBodies decodeFrame unmarshalFrames (.init "m" "id") [messageStartFrame.1 ++
          textDeltaFrame.1 ++ stopFrame.1 ++ messageStopFrame.1 ++ metadataFrame.1]).2 =
        [.messageStart ⟨"id", "assistant", "m", 7, 0⟩, .contentBlockDelta 0 (.text "hi"),
          .contentBlockStop 0, .messageDelta .endTurn none 9, .messageStop]) ∧
    (Framing.drain decodeFrame (messageStartFrame.1 ++ startFrame.1 ++ stopFrame.1 ++
          messageStopFrame.1 ++ metadataFrame.1)).1.filterMap unmarshalFrames =
        wellFormed "assistant" [⟨some none, .text []⟩] .endTurn (some ⟨7, 9, none, none⟩) ∧
      (responseBodies decodeFrame unmarshalFrames (.init "m" "id") [messageStartFrame.1 ++
          startFrame.1 ++ stopFrame.1 ++ messageStopFrame.1 ++ metadataFrame.1]).2 =
        [.messageStart ⟨"id", "assistant", "m", 7, 0⟩, .contentBlockStop 0,
          .messageDelta .endTurn none 9, .messageStop] ∧
    ¬ Valid anyDelta [.messageStart ⟨"id", "assistant", "m", 7, 0⟩, .contentBlockDelta 0 (.text "hi"),
        .contentBlockStop 0, .messageDelta .endTurn none 9, .messageStop] ∧
      ¬ Valid anyDelta [.messageStart ⟨"id", "assistant", "m", 7, 0⟩, .contentBlockStop 0,
        .messageDelta .endTurn none 9, .messageStop] := by
  decide +kernel

end AgentRouter.BedrockStream
