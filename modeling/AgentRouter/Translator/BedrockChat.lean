import AgentRouter.Translator.BedrockBlocks
import AgentRouter.Translator.Completion

/-!
# BedrockChat: Bedrock ConverseStream events as OpenAI chunks

`ResponseBody` takes the whole frames off its buffer and converts their events to chunks.  These
depend on the order of the events only, and the tool blocks are numbered 0, 1, 2, … by the counter
that goes up at the end of each of them (`callsFrom`).  The usage of a call is that of its last event
with usage, and the processor merges the usages of the calls with `TokenUsage.Override`.  A stream
has its usage in one event, so nothing depends on where it is cut (`replies_same`).
-/

namespace AgentRouter.BedrockChat

open BedrockStream hiding TokenUsage

open Metrics Completion OpenAIStream Emit List
open BedrockStream (StreamEvent ContentBlockDelta ReasoningContentBlockDelta ToolUseBlockStart
  BedrockStopReason unmarshalListed)

/-! ## Chunks -/

structure PromptTokensDetails where
  cachedTokens : Int
  cacheWriteTokens : Int

structure Usage where
  totalTokens : Nat
  promptTokens : Nat
  completionTokens : Nat
  promptTokensDetails : Option PromptTokensDetails

/-- `ChatCompletionResponseChunk` without its creation time. -/
structure Chunk where
  id : String
  model : String
  serviceTier : String
  choices : List Choice
  usage : Option Usage

/-- What is written: a chunk in an event of its own, or the line that ends the stream. -/
inductive Written where
  | chunk (chunk : Chunk)
  | done

/-! ## The translator -/

/-- `openAIToAWSBedrockTranslatorV1ChatCompletion` on the response side, without its buffer. -/
structure Translator where
  requestModel : String
  responseID : String
  role : String
  toolIndex : Int
  activeToolStream : Bool

def Translator.init (requestModel responseID : String) : Translator :=
  { requestModel, responseID, role := "", toolIndex := 0, activeToolStream := false }

def bedrockStopReasonToOpenAIStopReason : BedrockStopReason → FinishReason
  | .stopSequence => .stop
  | .endTurn => .stop
  | .maxTokens => .length
  | .contentFiltered => .contentFilter
  | .toolUse => .toolCalls
  | .other _ => .stop

/-- `base64.StdEncoding.EncodeToString`. -/
def base64Text (bytes : Bytes) : String :=
  String.ofList ((Base64.encode bytes).map fun c => Char.ofNat c.toNat)

@[simp] def extractUsage (usage : BedrockStream.TokenUsage) : TokenUsage :=
  extractTokenUsageFromExplicitCaching usage.inputTokens usage.outputTokens
    usage.cacheReadInputTokens usage.cacheWriteInputTokens

def count (tokens : Option UInt32) : Nat := (tokens.map (·.toNat)).getD 0

def convertUsage (usage : BedrockStream.TokenUsage) : Usage :=
  let tokenUsage := extractUsage usage
  { totalTokens := count tokenUsage.totalTokens
    promptTokens := count tokenUsage.inputTokens
    completionTokens := count tokenUsage.outputTokens
    promptTokensDetails :=
      if usage.cacheReadInputTokens ≠ none ∨ usage.cacheWriteInputTokens ≠ none then
        some ⟨usage.cacheReadInputTokens.getD 0, usage.cacheWriteInputTokens.getD 0⟩
      else none }

def newChunk (o : Translator) : Chunk :=
  { id := o.responseID, model := o.requestModel, serviceTier := "", choices := [], usage := none }

/-- A chunk with one choice. -/
def chunkOf (o : Translator) (delta : Delta) (finishReason : Option FinishReason) : Chunk :=
  { newChunk o with choices := [⟨0, delta, finishReason⟩] }

def toolDelta (o : Translator) (id : Option String) (name arguments : String) : Delta :=
  { Delta.empty with role := o.role, toolCalls := [⟨o.toolIndex, id, name, arguments⟩] }

/-- Reasoning text is a plain text, signatures and redacted content are thinking blocks. -/
def reasoningDelta (o : Translator) (rc : ReasoningContentBlockDelta) : Delta :=
  { Delta.empty with
    role := o.role
    reasoningContent := if rc.text = "" then none else some ⟨rc.text, "", ""⟩
    thinkingBlocks :=
      (if rc.signature = "" then [] else [⟨.thinking, "", rc.signature, ""⟩]) ++
        match rc.redactedContent with
        | none => []
        | some content => [⟨.redactedThinking, "", "", base64Text content⟩] }

/-- A delta with nothing in it gives a chunk without choices. -/
def convertDelta (o : Translator) (delta : ContentBlockDelta) : Chunk :=
  match delta.text, delta.toolUse, delta.reasoningContent with
  | some text, _, _ => chunkOf o { Delta.empty with role := o.role, content := some text } none
  | none, some input, _ => chunkOf o (toolDelta o none "" input) none
  | none, none, some rc => chunkOf o (reasoningDelta o rc) none
  | none, none, none => newChunk o

def convertEvent (o : Translator) (event : StreamEvent) : Translator × Option Chunk :=
  match event.eventType with
  | .metadata =>
    (o, event.usage.map fun usage =>
      { newChunk o with serviceTier := event.serviceTier.getD "", usage := some (convertUsage usage) })
  | .messageStart =>
    match event.role with
    | none => (o, none)
    | some role =>
      ({ o with role := role },
        some (chunkOf o { Delta.empty with role := role, content := some "" } none))
  | .contentBlockDelta => (o, event.delta.map (convertDelta o))
  | .contentBlockStart =>
    match event.start with
    | none => (o, none)
    | some start =>
      match start.toolUse with
      | none => (o, some (newChunk o))
      | some tool =>
        ({ o with activeToolStream := true },
          some (chunkOf o (toolDelta o (some tool.toolUseID) tool.name "") none))
  | .messageStop =>
    (o, event.stopReason.map fun reason =>
      chunkOf o { Delta.empty with role := o.role, content := some "" }
        (some (bedrockStopReasonToOpenAIStopReason reason)))
  | .contentBlockStop =>
    (if o.activeToolStream then { o with toolIndex := o.toolIndex + 1, activeToolStream := false }
      else o, none)
  | .other _ => (o, none)

/-- The loop over the events of a call: the translator, the usage and the body so far. -/
structure Progress where
  translator : Translator
  tokenUsage : TokenUsage
  newBody : List Written

def handleEvent (p : Progress) (event : StreamEvent) : Progress :=
  let r := convertEvent p.translator event
  { translator := r.1
    tokenUsage := match event.usage with
      | none => p.tokenUsage
      | some usage => extractUsage usage
    newBody := p.newBody ++ (r.2.map Written.chunk).toList }

structure Reply where
  newBody : List Written
  tokenUsage : TokenUsage
  responseModel : String

section

variable {μ : Type} (decode : Framing.Decoder UInt8 μ) (unmarshal : μ → Option StreamEvent)

/-- `ResponseBody` of a stream, with the buffer. -/
def responseBody (ob : Translator × Bytes) (body : Bytes) (endOfStream : Bool) :
    (Translator × Bytes) × Reply :=
  let r := extractAmazonEventStreamEvents decode unmarshal (ob.2 ++ body)
  let p := r.1.foldl handleEvent ⟨ob.1, .zero, []⟩
  ((p.translator, r.2),
    ⟨p.newBody ++ (if endOfStream then [.done] else []), p.tokenUsage, ob.1.requestModel⟩)

def repliesFrom : Translator × Bytes → List Bytes → Bytes → List Reply
  | ob, [], last => [(responseBody decode unmarshal ob last true).2]
  | ob, p :: ps, last =>
    let r := responseBody decode unmarshal ob p false
    r.2 :: repliesFrom r.1 ps last

/-- The calls for a stream that comes in pieces, the last of them at the end of the stream. -/
def replies (requestModel responseID : String) (pieces : List Bytes) (last : Bytes) : List Reply :=
  repliesFrom decode unmarshal (.init requestModel responseID, []) pieces last

/-- The usages in the events that each call completes. -/
def callUsages (bodies : List Bytes) : List (List BedrockStream.TokenUsage) :=
  (Framing.feed decode [] bodies).1.map fun frames =>
    (frames.filterMap unmarshal).filterMap (·.usage)

end

/-- The usage that the processor has accumulated. -/
def accumulated (replies : List Reply) : TokenUsage :=
  replies.foldl (fun u r => u.override r.tokenUsage) .zero

/-! ## Streams of blocks -/

/-- Blocks one after another: an optional start, deltas, and the stop. -/
structure Block where
  start : Option StreamEvent
  deltas : List StreamEvent
  stop : StreamEvent
  start_type : ∀ e ∈ start, e.eventType = .contentBlockStart
  deltas_type : ∀ e ∈ deltas, e.eventType = .contentBlockDelta
  stop_type : stop.eventType = .contentBlockStop

/-- An event that belongs to no block. -/
def isOutside (e : StreamEvent) : Bool :=
  match e.eventType with
  | .contentBlockStart => false
  | .contentBlockDelta => false
  | .contentBlockStop => false
  | _ => true

/-- A part of a stream of sequential blocks. -/
inductive Segment where
  | block (b : Block)
  | outside (e : StreamEvent) (h : isOutside e = true)

def Segment.events : Segment → List StreamEvent
  | .block b => b.start.toList ++ b.deltas ++ [b.stop]
  | .outside e _ => [e]

/-- What the start of a tool block says. -/
def Block.tool (b : Block) : Option ToolUseBlockStart := b.start.bind fun e => e.start.bind (·.toolUse)

/-- The input in a delta; a text goes before it. -/
def toolInput (e : StreamEvent) : Option String :=
  e.delta.bind fun d => if d.text = none then d.toolUse else none

/-- The tool calls of a block, all with one index. -/
def Block.calls (b : Block) (index : Int) : List ToolCallDelta :=
  (b.tool.map fun tool => ⟨index, some tool.toolUseID, tool.name, ""⟩).toList ++
    b.deltas.filterMap fun e => (toolInput e).map fun input => ⟨index, none, "", input⟩

/-- The tool calls of a stream whose tool blocks are numbered from `index` on. -/
def callsFrom : Int → List Segment → List ToolCallDelta
  | _, [] => []
  | index, .outside _ _ :: rest => callsFrom index rest
  | index, .block b :: rest =>
    b.calls index ++ callsFrom (if b.tool.isSome then index + 1 else index) rest

/-- The tool calls in what is written. -/
def toolCalls (written : List Written) : List ToolCallDelta :=
  written.flatMap fun w => match w with
    | .chunk c => c.choices.flatMap fun choice => choice.delta.toolCalls
    | .done => []

/-! ## Events in a row -/

def convertEvents : Translator → List StreamEvent → Translator × List Chunk :=
  writeAll fun o e => ((convertEvent o e).1, (convertEvent o e).2.toList)

@[simp] theorem convertEvents_nil (o : Translator) : convertEvents o [] = (o, []) := rfl

@[simp] theorem convertEvents_cons (o : Translator) (e : StreamEvent) (es : List StreamEvent) :
    convertEvents o (e :: es) =
      ((convertEvents (convertEvent o e).1 es).1,
        (convertEvent o e).2.toList ++ (convertEvents (convertEvent o e).1 es).2) := rfl

/-- The usage of a call, if it has one. -/
def callUsage (usages : List BedrockStream.TokenUsage) (u : TokenUsage) : TokenUsage :=
  (usages.getLast?.map extractUsage).getD u

theorem callUsage_cons (v : BedrockStream.TokenUsage) (usages : List BedrockStream.TokenUsage) (u : TokenUsage) :
    callUsage (v :: usages) u = callUsage usages (extractUsage v) := by
  unfold callUsage
  rw [getLast?_cons]
  cases usages.getLast? with
  | none => rfl
  | some w => rfl

/-- The chunks and the usage do not depend on each other. -/
theorem foldl_handleEvent (p : Progress) (events : List StreamEvent) :
    events.foldl handleEvent p =
      { translator := (convertEvents p.translator events).1
        tokenUsage := callUsage (events.filterMap (·.usage)) p.tokenUsage
        newBody := p.newBody ++ (convertEvents p.translator events).2.map .chunk } := by
  induction events generalizing p with
  | nil => simp [callUsage]
  | cons e es ih =>
    rw [foldl_cons, ih]
    simp only [handleEvent, convertEvents_cons, map_append, append_assoc, Option.toList_map]
    cases husage : e.usage with
    | none => rw [filterMap_cons_none husage]
    | some usage => rw [filterMap_cons_some husage, callUsage_cons]

theorem convertEvents_append (o : Translator) (es es' : List StreamEvent) :
    convertEvents o (es ++ es') =
      ((convertEvents (convertEvents o es).1 es').1,
        (convertEvents o es).2 ++ (convertEvents (convertEvents o es).1 es').2) :=
  writeAll_append _ o es es'

/-! ## Calls -/

section

variable {μ : Type} {decode : Framing.Decoder UInt8 μ} (hstable : Framing.Stable decode)
  (unmarshal : μ → Option StreamEvent)

/-- The events in a stream. -/
def eventsOf (decode : Framing.Decoder UInt8 μ) (unmarshal : μ → Option StreamEvent) (bytes : Bytes) :
    List StreamEvent :=
  (Framing.drain decode bytes).1.filterMap unmarshal

include hstable

/-- The body is that of all events, and each call reports the usage of its own. -/
theorem repliesFrom_spec (o : Translator) (buffer : Bytes) (pieces : List Bytes) (last : Bytes) :
    (repliesFrom decode unmarshal (o, buffer) pieces last).flatMap Reply.newBody =
        (convertEvents o (eventsOf decode unmarshal (buffer ++ pieces.flatten ++ last))).2.map .chunk ++
          [.done] ∧
      (repliesFrom decode unmarshal (o, buffer) pieces last).map Reply.tokenUsage =
        (Framing.feed decode buffer (pieces ++ [last])).1.map fun frames =>
          callUsage ((frames.filterMap unmarshal).filterMap (·.usage)) .zero := by
  induction pieces generalizing o buffer with
  | nil =>
    simp [repliesFrom, responseBody, foldl_handleEvent, eventsOf, Framing.feed]
  | cons p ps ih =>
    obtain ⟨hbody, husage⟩ := ih
      (convertEvents o (eventsOf decode unmarshal (buffer ++ p))).1 (Framing.drain decode (buffer ++ p)).2
    have hcall : (responseBody decode unmarshal (o, buffer) p false) =
        (((convertEvents o (eventsOf decode unmarshal (buffer ++ p))).1,
            (Framing.drain decode (buffer ++ p)).2),
          ⟨(convertEvents o (eventsOf decode unmarshal (buffer ++ p))).2.map .chunk,
            callUsage ((eventsOf decode unmarshal (buffer ++ p)).filterMap (·.usage)) .zero,
            o.requestModel⟩) := by
      simp [responseBody, foldl_handleEvent, eventsOf]
    have hevents : eventsOf decode unmarshal (buffer ++ (p :: ps).flatten ++ last) =
        eventsOf decode unmarshal (buffer ++ p) ++
          eventsOf decode unmarshal ((Framing.drain decode (buffer ++ p)).2 ++ ps.flatten ++ last) := by
      have hdrain := Framing.drain_append hstable (buffer ++ p) (ps.flatten ++ last)
      simp only [append_assoc] at hdrain
      simp only [eventsOf, flatten_cons, append_assoc, hdrain, filterMap_append]
    rw [repliesFrom, hcall]
    constructor
    · rw [flatMap_cons, hbody, hevents, convertEvents_append, map_append]
      exact (append_assoc _ _ _).symm
    · rw [map_cons, husage]
      rfl

end

/-! ## Usage -/

/-- With one usage in all calls, merging what the calls report gives it. -/
theorem foldl_override_calls (u : TokenUsage) {calls : List (List BedrockStream.TokenUsage)}
    (hone : calls.flatten.length ≤ 1) :
    (calls.map fun usages => callUsage usages .zero).foldl TokenUsage.override u =
      u.override (callUsage calls.flatten .zero) := by
  induction calls generalizing u with
  | nil => rfl
  | cons usages calls ih =>
    rw [flatten_cons, length_append] at hone
    rw [map_cons, foldl_cons, ih _ (by omega), flatten_cons]
    cases usages with
    | nil => rfl
    | cons v vs =>
      rw [length_cons] at hone
      have hrest : calls.flatten = [] := length_eq_zero_iff.mp (by omega)
      rw [hrest, append_nil]
      rfl

section

variable {μ : Type} {decode : Framing.Decoder UInt8 μ} (hstable : Framing.Stable decode)
  (unmarshal : μ → Option StreamEvent) (requestModel responseID : String)
include hstable

theorem flatten_callUsages (bodies : List Bytes) :
    (callUsages decode unmarshal bodies).flatten =
      (eventsOf decode unmarshal bodies.flatten).filterMap (·.usage) := by
  have hfeed := (Framing.feed_flatten hstable [] bodies hstable.decode_nil).1
  rw [nil_append] at hfeed
  rw [eventsOf, ← hfeed, filterMap_flatten, filterMap_flatten, map_map]
  rfl

theorem accumulated_replies (pieces : List Bytes) (last : Bytes)
    (hone : ((eventsOf decode unmarshal (pieces.flatten ++ last)).filterMap (·.usage)).length ≤ 1) :
    accumulated (replies decode unmarshal requestModel responseID pieces last) =
      callUsage ((eventsOf decode unmarshal (pieces.flatten ++ last)).filterMap (·.usage)) .zero := by
  have husage := (repliesFrom_spec hstable unmarshal (.init requestModel responseID) [] pieces last).2
  have hflatten := flatten_callUsages hstable unmarshal (pieces ++ [last])
  rw [flatten_append, flatten_singleton] at hflatten
  rw [← hflatten] at hone ⊢
  rw [← TokenUsage.zero_override (callUsage _ _), ← foldl_override_calls .zero hone, accumulated,
    callUsages, map_map, ← foldl_map, replies, husage]
  rfl

end

/-! ## Tool blocks -/

def Chunk.calls (c : Chunk) : List ToolCallDelta := c.choices.flatMap fun choice => choice.delta.toolCalls

theorem toolCalls_chunks (chunks : List Chunk) :
    toolCalls (chunks.map .chunk ++ [.done]) = chunks.flatMap Chunk.calls := by
  rw [toolCalls, flatMap_append, flatMap_map]
  exact append_nil _

theorem Translator.with_inactive {o : Translator} (h : o.activeToolStream = false) :
    { o with activeToolStream := false } = o := by
  rw [← h]

variable {e : StreamEvent}

theorem convertEvent_start (h : e.eventType = .contentBlockStart) (o : Translator)
    (hactive : o.activeToolStream = false) :
    (convertEvent o e).1 = { o with activeToolStream := (e.start.bind (·.toolUse)).isSome } ∧
      (convertEvent o e).2.toList.flatMap Chunk.calls =
        ((e.start.bind (·.toolUse)).map fun tool =>
          (⟨o.toolIndex, some tool.toolUseID, tool.name, ""⟩ : ToolCallDelta)).toList := by
  have hsame := Translator.with_inactive hactive
  unfold convertEvent
  rw [h]
  cases hstart : e.start with
  | none => exact ⟨hsame.symm, rfl⟩
  | some start =>
    cases htool : start.toolUse with
    | none => simp [htool, newChunk, Chunk.calls, hsame]
    | some tool => simp [htool, chunkOf, newChunk, toolDelta, Chunk.calls]

theorem convertEvent_delta (h : e.eventType = .contentBlockDelta) (o : Translator) :
    (convertEvent o e).1 = o ∧ (convertEvent o e).2.toList.flatMap Chunk.calls =
        ((toolInput e).map fun input => (⟨o.toolIndex, none, "", input⟩ : ToolCallDelta)).toList := by
  unfold convertEvent toolInput
  rw [h]
  refine ⟨rfl, ?_⟩
  cases e.delta with
  | none => rfl
  | some d =>
    obtain ⟨text, toolUse, reasoningContent⟩ := d
    cases text with
    | some text => rfl
    | none =>
      cases toolUse with
      | some input => rfl
      | none =>
        cases reasoningContent with
        | some rc | none => rfl

theorem convertEvent_outside (h : isOutside e = true) (o : Translator) :
    (convertEvent o e).1.toolIndex = o.toolIndex ∧
      (convertEvent o e).1.activeToolStream = o.activeToolStream ∧
      (convertEvent o e).2.toList.flatMap Chunk.calls = [] := by
  unfold isOutside at h
  unfold convertEvent
  split at h
  · cases h
  · cases h
  · cases h
  next hstart hdelta hstop =>
    cases htype : e.eventType with
    | contentBlockStart => exact absurd htype hstart
    | contentBlockDelta => exact absurd htype hdelta
    | contentBlockStop => exact absurd htype hstop
    | metadata =>
      cases e.usage with
      | none | some usage => exact ⟨rfl, rfl, rfl⟩
    | messageStart =>
      cases e.role with
      | none | some role => exact ⟨rfl, rfl, rfl⟩
    | messageStop =>
      cases e.stopReason with
      | none | some reason => exact ⟨rfl, rfl, rfl⟩
    | other name => exact ⟨rfl, rfl, rfl⟩

theorem convertEvents_deltas {deltas : List StreamEvent}
    (h : ∀ e ∈ deltas, e.eventType = .contentBlockDelta) (o : Translator) :
    (convertEvents o deltas).1 = o ∧
      (convertEvents o deltas).2.flatMap Chunk.calls = deltas.filterMap fun e =>
        (toolInput e).map fun input => (⟨o.toolIndex, none, "", input⟩ : ToolCallDelta) := by
  induction deltas with
  | nil => exact ⟨rfl, rfl⟩
  | cons e es ih =>
    obtain ⟨hstate, hcalls⟩ := convertEvent_delta (h e mem_cons_self) o
    obtain ⟨hstate', hcalls'⟩ := ih fun e he => h e (mem_cons_of_mem _ he)
    rw [convertEvents_cons, hstate]
    refine ⟨hstate', ?_⟩
    rw [flatMap_append, hcalls, hcalls', filterMap_cons]
    cases toolInput e with
    | none => rfl
    | some input => rfl

/-- The counter goes up at the end of a tool block and only there. -/
theorem convertEvents_block (b : Block) (o : Translator) (hactive : o.activeToolStream = false) :
    (convertEvents o (Segment.block b).events).1.toolIndex =
        (if b.tool.isSome then o.toolIndex + 1 else o.toolIndex) ∧
      (convertEvents o (Segment.block b).events).1.activeToolStream = false ∧
      (convertEvents o (Segment.block b).events).2.flatMap Chunk.calls = b.calls o.toolIndex := by
  have hstart : (convertEvents o b.start.toList).1 = { o with activeToolStream := b.tool.isSome } ∧
      (convertEvents o b.start.toList).2.flatMap Chunk.calls = (b.tool.map fun tool =>
        (⟨o.toolIndex, some tool.toolUseID, tool.name, ""⟩ : ToolCallDelta)).toList := by
    unfold Block.tool
    cases he : b.start with
    | none => exact ⟨(Translator.with_inactive hactive).symm, rfl⟩
    | some e =>
      have h := convertEvent_start (b.start_type e he) o hactive
      simpa using h
  obtain ⟨hstate, hcalls⟩ := hstart
  obtain ⟨hdeltas, hcalls'⟩ :=
    convertEvents_deltas b.deltas_type { o with activeToolStream := b.tool.isSome }
  rw [Segment.events, convertEvents_append, convertEvents_append, hstate, hdeltas]
  rw [flatMap_append, flatMap_append, hcalls, hcalls', Block.calls]
  simp only [convertEvents_cons, convertEvents_nil, convertEvent, b.stop_type]
  cases b.tool with
  | none | some tool => exact ⟨rfl, rfl, append_nil _⟩

theorem convertEvents_segments (segments : List Segment) (o : Translator)
    (hactive : o.activeToolStream = false) :
    (convertEvents o (segments.flatMap Segment.events)).2.flatMap Chunk.calls =
      callsFrom o.toolIndex segments := by
  induction segments generalizing o with
  | nil => rfl
  | cons segment rest ih =>
    rw [flatMap_cons, convertEvents_append, flatMap_append]
    cases segment with
    | block b =>
      obtain ⟨hindex, hactive', hcalls⟩ := convertEvents_block b o hactive
      rw [hcalls, ih _ hactive', hindex, callsFrom]
    | outside e h =>
      obtain ⟨hindex, hactive', hcalls⟩ := convertEvent_outside h o
      have hone : convertEvents o (Segment.outside e h).events =
          ((convertEvent o e).1, (convertEvent o e).2.toList) := by
        simp [Segment.events]
      rw [hone, ih _ (hactive'.trans hactive), hcalls, hindex]
      rfl

/-! ## Top theorem -/

/-- Calls with the pieces of a stream write the chunks of one call with all of it, and the tool
blocks in them are numbered in order.  The usages are merged to that of one call if the stream has
its usage in one event. -/
theorem replies_same {μ : Type} {decode : Framing.Decoder UInt8 μ}
    (hstable : Framing.Stable decode) (unmarshal : μ → Option StreamEvent)
    (requestModel responseID : String) (pieces : List Bytes) (last : Bytes) :
    let cut := replies decode unmarshal requestModel responseID pieces last
    let whole := replies decode unmarshal requestModel responseID [] (pieces.flatten ++ last)
    cut.flatMap Reply.newBody = whole.flatMap Reply.newBody ∧
      (∀ segments : List Segment,
        eventsOf decode unmarshal (pieces.flatten ++ last) = segments.flatMap Segment.events →
        toolCalls (cut.flatMap Reply.newBody) = callsFrom 0 segments) ∧
      (((eventsOf decode unmarshal (pieces.flatten ++ last)).filterMap (·.usage)).length ≤ 1 →
        accumulated cut = accumulated whole) := by
  intro cut whole
  have hcut := (repliesFrom_spec hstable unmarshal (.init requestModel responseID) [] pieces last).1
  have hwhole := (repliesFrom_spec hstable unmarshal (.init requestModel responseID) [] []
    (pieces.flatten ++ last)).1
  simp only [nil_append, flatten_nil] at hcut hwhole
  refine ⟨hcut.trans hwhole.symm, ?_, ?_⟩
  · intro segments hsegments
    rw [show cut.flatMap Reply.newBody = _ from hcut, toolCalls_chunks, hsegments]
    exact convertEvents_segments segments (.init requestModel responseID) rfl
  · intro hone
    have hpieces := accumulated_replies hstable unmarshal requestModel responseID pieces last hone
    have hall := accumulated_replies hstable unmarshal requestModel responseID []
      (pieces.flatten ++ last) hone
    exact hpieces.trans hall.symm

/-! ## Two tool blocks -/

/-- A usage with five tokens read from the cache. -/
def cachedUsageFrame : Bytes × StreamEvent :=
  (BedrockStream.frame "metadata"
      "\x7b\"usage\":\x7b\"inputTokens\":7,\"outputTokens\":9,\"cacheReadInputTokens\":5\x7d\x7d"
      [186, 51, 192, 226] [45, 9, 20, 183],
    { noEvent with eventType := .metadata, usage := some ⟨7, 9, some 5, none⟩ })

def unmarshalFrames : Bytes → Option StreamEvent :=
  unmarshalListed [toolStartFrame, toolDeltaFrame, stopFrame, metadataFrame, cachedUsageFrame]

def toolBlock : Block where
  start := some toolStartFrame.2
  deltas := [toolDeltaFrame.2]
  stop := stopFrame.2
  start_type := by decide
  deltas_type := by decide
  stop_type := rfl

/-- Two tool blocks in three pieces, cut inside of frames; the usage comes with the last one. -/
def toolPieces : List Bytes :=
  let bytes := toolStartFrame.1 ++ toolDeltaFrame.1 ++ stopFrame.1
  let bytes := bytes ++ bytes
  [bytes.take 20, bytes.drop 20]

theorem tool_blocks_in_pieces :
    Framing.Stable BedrockStream.decodeFrame ∧
    toolCalls ((replies BedrockStream.decodeFrame unmarshalFrames "m" "id" toolPieces
        cachedUsageFrame.1).flatMap Reply.newBody) =
      [⟨0, some "t", "f", ""⟩, ⟨0, none, "", "1"⟩, ⟨1, some "t", "f", ""⟩, ⟨1, none, "", "1"⟩] ∧
    accumulated (replies BedrockStream.decodeFrame unmarshalFrames "m" "id" toolPieces
        cachedUsageFrame.1) =
      accumulated (replies BedrockStream.decodeFrame unmarshalFrames "m" "id" []
        (toolPieces.flatten ++ cachedUsageFrame.1)) := by
  have hevents : eventsOf decodeFrame unmarshalFrames
      (toolPieces.flatten ++ cachedUsageFrame.1) =
      [Segment.block toolBlock, .block toolBlock, .outside cachedUsageFrame.2 rfl].flatMap
        Segment.events := by
    decide +kernel
  obtain ⟨-, htools, husage⟩ := replies_same stable_decodeFrame unmarshalFrames "m" "id"
    toolPieces cachedUsageFrame.1
  refine ⟨stable_decodeFrame, ?_, husage ?_⟩
  · exact (htools _ hevents).trans (by decide)
  · rw [hevents]
    decide

-- With usages in two events the merge is not that of one call: in two calls the cache count of the
-- first usage is kept, in one call it is dropped.
example :
    accumulated (replies BedrockStream.decodeFrame unmarshalFrames "m" "id" [cachedUsageFrame.1]
        metadataFrame.1) = ⟨some 7, some 9, some 16, some 5, none, none⟩ ∧
    accumulated (replies BedrockStream.decodeFrame unmarshalFrames "m" "id" []
        (cachedUsageFrame.1 ++ metadataFrame.1)) = ⟨some 7, some 9, some 16, none, none, none⟩ := by
  decide +kernel

end AgentRouter.BedrockChat
