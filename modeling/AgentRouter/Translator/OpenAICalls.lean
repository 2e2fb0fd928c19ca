import AgentRouter.Translator.OpenAIBlocks

/-!
# OpenAICalls: the answers of the Anthropic-to-OpenAI translator, call by call

`responseBodyStreaming` is called with each piece of the response.  A call answers with the events
that it has written, the token usage known so far and the model.  The state of the translator is a
function of the chunks that have come (`finalState_eq`), and what a call writes is what the
state has written more than before, so the calls together write what one call with all the bytes
would write, and the last of them knows the same usage and the same model:

    answers in pieces = answer of one call with all of the stream   (calls_same_as_one_call)
-/

namespace AgentRouter.OpenAIStream

open AnthropicStream Metrics SSE List

/-! ## Algorithm -/

/-- What a call of `responseBodyStreaming` returns. -/
structure Reply where
  newBody : List Event
  tokenUsage : TokenUsage
  responseModel : String

section

variable (decode : Bytes → Option Chunk)

/-- The model of the stream, or else that of the request. -/
def responseModel (s : State) : String := if s.model = "" then s.requestModel else s.model

/-- `out` starts empty in each call; the state keeps what all calls have written. -/
def responseBodyStreaming (sb : State × Bytes) (body : Bytes) (endOfStream : Bool) :
    (State × Bytes) × Reply :=
  let sb' := processBuffer decode sb.1 (sb.2 ++ body) endOfStream
  (sb', ⟨sb'.1.out.drop sb.1.out.length, sb'.1.tokenUsage, responseModel sb'.1⟩)

def repliesFrom : State × Bytes → List Bytes → Bytes → List Reply
  | sb, [], last => [(responseBodyStreaming decode sb last true).2]
  | sb, p :: ps, last =>
    let r := responseBodyStreaming decode sb p false
    r.2 :: repliesFrom r.1 ps last

/-- The calls for a stream that comes in pieces, the last of them at the end of the stream. -/
def replies (requestModel : String) (pieces : List Bytes) (last : Bytes) : List Reply :=
  repliesFrom decode (State.init requestModel, []) pieces last

end

/-! ## What is written stays written -/

theorem prefix_emit (e : Event) (s : State) : s.out <+: (emit e s).out := prefix_append _ _

section

variable (s : State)

theorem prefix_closeOtherBlock : s.out <+: (closeOtherBlock s).out := by
  unfold closeOtherBlock
  split
  · exact prefix_emit _ s
  · exact prefix_rfl

theorem prefix_handleReasoningDelta (text signature : String) :
    s.out <+: (handleReasoningDelta s text signature).out := by
  unfold handleReasoningDelta
  split
  · exact prefix_rfl
  · rw [emit_reasoningDeltas]
    refine (prefix_closeOtherBlock s).trans (List.IsPrefix.trans ?_ (prefix_append _ _))
    split
    · exact prefix_rfl
    · exact prefix_emit _ (closeOtherBlock s)

theorem prefix_handleTextDelta (text : String) : s.out <+: (handleTextDelta s text).out := by
  unfold handleTextDelta
  split
  · exact prefix_rfl
  · have hclose : s.out <+: (if s.hasThinkingBlock = true then closeThinkingBlock s else s).out := by
      split
      · exact prefix_emit _ s
      · exact prefix_rfl
    refine hclose.trans (List.IsPrefix.trans ?_ (prefix_emit _ _))
    generalize (if s.hasThinkingBlock = true then closeThinkingBlock s else s) = s'
    split
    · exact prefix_rfl
    · exact prefix_emit _ s'

theorem prefix_openToolBlock (tc : ToolCallDelta) : s.out <+: (openToolBlock s tc).out := by
  refine List.IsPrefix.trans ?_ (prefix_emit _ _)
  split
  · exact prefix_emit _ s
  · exact prefix_rfl

theorem prefix_handleToolCallDelta (tc : ToolCallDelta) : s.out <+: (handleToolCallDelta s tc).out := by
  unfold handleToolCallDelta
  split
  · rw [emitArguments_eq]
    exact prefix_append _ _
  · rw [emitArguments_eq]
    exact (prefix_openToolBlock s tc).trans (prefix_append _ _)

theorem prefix_handlePart (p : Part) : s.out <+: (handlePart s p).out := by
  cases p with
  | reasoning t g => exact prefix_handleReasoningDelta s t g
  | text t => exact prefix_handleTextDelta s t
  | tool tc => exact prefix_handleToolCallDelta s tc

end

theorem prefix_foldl {α : Type} {step : State → α → State} (h : ∀ s x, s.out <+: (step s x).out)
    (s : State) (xs : List α) : s.out <+: (xs.foldl step s).out := by
  induction xs generalizing s with
  | nil => exact prefix_rfl
  | cons x xs ih => exact (h s x).trans (ih (step s x))

theorem prefix_handleDelta (s : State) (delta : ChoiceDelta) : s.out <+: (handleDelta s delta).out := by
  rw [handleDelta_eq]
  exact prefix_foldl prefix_handlePart s _

theorem prefix_emitClosingEvents (s : State) : s.out <+: (emitClosingEvents s).out := by
  unfold emitClosingEvents
  split
  · exact prefix_rfl
  · refine List.IsPrefix.trans ?_ ((prefix_emit _ _).trans (prefix_emit _ _))
    split
    · exact prefix_emit _ s
    · exact prefix_rfl

theorem prefix_handleChunk (s : State) (chunk : Chunk) : s.out <+: (handleChunk s chunk).out := by
  unfold handleChunk
  split
  next choice _ _ =>
    unfold handleChoice handleChoiceDelta
    have hreason : ∀ (s' : State) (r : Option FinishReason), (noteFinishReason s' r).out = s'.out := by
      intro s' r
      cases r with
      | none => rfl
      | some r => rfl
    rw [hreason]
    cases choice.delta with
    | none => exact prefix_rfl
    | some delta =>
      refine List.IsPrefix.trans ?_ (prefix_handleDelta _ delta)
      split
      · exact prefix_rfl
      · exact prefix_emit _ (noteIdentity s chunk)
  next =>
    split
    · exact prefix_rfl
    next usage _ =>
      exact prefix_emitClosingEvents { noteIdentity s chunk with
        inputTokens := usage.promptTokens
        outputTokens := usage.completionTokens
        tokenUsage := extractTokenUsageFromExplicitCaching usage.promptTokens
          usage.completionTokens (some 0) (some 0) }

section

variable (decode : Bytes → Option Chunk)

theorem prefix_processEventBlock (s : State) (block : Bytes) :
    s.out <+: (processEventBlock decode s block).out := by
  unfold processEventBlock
  split
  · exact prefix_rfl
  · exact prefix_handleChunk s _

theorem prefix_processBuffer (s : State) (buffer : Bytes) (endOfStream : Bool) :
    s.out <+: (processBuffer decode s buffer endOfStream).1.out := by
  unfold processBuffer
  have hblocks := prefix_foldl (prefix_processEventBlock decode) s
    (Framing.drain (Cut.cut blankLine) buffer).1
  dsimp only
  split
  · exact hblocks
  · refine hblocks.trans ?_
    generalize (Framing.drain (Cut.cut blankLine) buffer).1.foldl (processEventBlock decode) s = s'
    have hrest : s'.out <+: (if (Framing.drain (Cut.cut blankLine) buffer).2 = [] then s'
        else processEventBlock decode s' (Framing.drain (Cut.cut blankLine) buffer).2).out := by
      split
      · exact prefix_rfl
      · exact prefix_processEventBlock decode s' _
    refine hrest.trans ?_
    generalize (if (Framing.drain (Cut.cut blankLine) buffer).2 = [] then s'
        else processEventBlock decode s' (Framing.drain (Cut.cut blankLine) buffer).2) = s''
    dsimp only [finished]
    split
    · exact prefix_rfl
    · exact prefix_emitClosingEvents _

/-! ## Calls -/

/-- Together the calls write what the state has written in the end, and the last one knows its
usage and its model. -/
theorem repliesFrom_spec (sb : State × Bytes) (pieces : List Bytes) (last : Bytes) :
    sb.1.out ++ (repliesFrom decode sb pieces last).flatMap Reply.newBody =
        (finalState decode sb pieces last).out ∧
      ((repliesFrom decode sb pieces last).getLast?.map fun r => (r.tokenUsage, r.responseModel)) =
        some ((finalState decode sb pieces last).tokenUsage,
          responseModel (finalState decode sb pieces last)) := by
  induction pieces generalizing sb with
  | nil =>
    have hgrown := prefix_processBuffer decode sb.1 (sb.2 ++ last) true
    refine ⟨?_, rfl⟩
    rw [repliesFrom, flatMap_singleton]
    exact prefix_iff_eq_append.mp hgrown
  | cons p ps ih =>
    have hgrown := prefix_processBuffer decode sb.1 (sb.2 ++ p) false
    obtain ⟨hout, hlast⟩ := ih (processBuffer decode sb.1 (sb.2 ++ p) false)
    constructor
    · have hfirst : sb.1.out ++ (responseBodyStreaming decode sb p false).2.newBody =
          (processBuffer decode sb.1 (sb.2 ++ p) false).1.out := prefix_iff_eq_append.mp hgrown
      rw [repliesFrom, flatMap_cons, ← append_assoc, hfirst]
      exact hout
    · obtain ⟨r, hr, hview⟩ := Option.map_eq_some_iff.mp hlast
      have htail : (repliesFrom decode sb (p :: ps) last).getLast? = some r := by
        rw [repliesFrom, getLast?_cons]
        exact congrArg some ((Option.getD_eq_iff).mpr (.inl hr))
      rw [htail, Option.map_some, hview]
      rfl

/-- The chunks are all that the output, the usage and the model depend on. -/
theorem replies_same_of_chunks (requestModel : String) {pieces pieces' : List Bytes}
    {last last' : Bytes}
    (h : chunksOf decode (pieces.flatten ++ last) = chunksOf decode (pieces'.flatten ++ last')) :
    (replies decode requestModel pieces last).flatMap Reply.newBody =
        (replies decode requestModel pieces' last').flatMap Reply.newBody ∧
      (replies decode requestModel pieces last).getLast?.map (fun r => (r.tokenUsage, r.responseModel)) =
        (replies decode requestModel pieces' last').getLast?.map
          fun r => (r.tokenUsage, r.responseModel) := by
  obtain ⟨hout, hlast⟩ := repliesFrom_spec decode (State.init requestModel, []) pieces last
  obtain ⟨hout', hlast'⟩ := repliesFrom_spec decode (State.init requestModel, []) pieces' last'
  rw [finalState_eq, h] at hout hlast
  rw [finalState_eq] at hout' hlast'
  exact ⟨hout.trans hout'.symm, hlast.trans hlast'.symm⟩

end

/-! ## Top theorem -/

/-- The calls for a stream in pieces write what one call with all of it writes, and the last call
reports the same usage and the same model. -/
theorem calls_same_as_one_call (decode : Bytes → Option Chunk) (requestModel : String)
    (pieces : List Bytes) (last : Bytes) :
    let cut := replies decode requestModel pieces last
    let whole := replies decode requestModel [] (pieces.flatten ++ last)
    cut.flatMap Reply.newBody = whole.flatMap Reply.newBody ∧
      cut.getLast?.map (fun r => (r.tokenUsage, r.responseModel)) =
        whole.getLast?.map fun r => (r.tokenUsage, r.responseModel) := by
  refine replies_same_of_chunks decode requestModel ?_
  rw [flatten_nil, nil_append]

end AgentRouter.OpenAIStream
