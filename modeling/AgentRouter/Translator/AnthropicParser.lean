import AgentRouter.Lib.Emit
import AgentRouter.Translator.Completion

/-!
# AnthropicParser: Anthropic events as OpenAI chunks

`anthropicStreamParser` writes a tool call as it comes and keeps it in `activeToolCalls` until its
block stops; at the end of the stream the tool calls that are still active are written once more.
The bytes are cut into events at blank lines, so the way the stream is cut into pieces does not
matter:

    processAll decode … pieces last
      = (runAll (writeEvent o) … (eventsOf decode (pieces.flatten ++ last))).andThen …  (processAll_eq)
    pieces give the output and the usage of one call   (processAll_same_as_one_call)

JSON decoding is a parameter that gives an event for each pair of an event type and its data; an
event whose data cannot be decoded is `malformed`.  The indices of the content blocks are not
read by the parser and left out.
-/

namespace AgentRouter.AnthropicParser

open Completion Emit Metrics OpenAIStream List Framing SSE

/-! ## Events -/

/-- The `input` of a tool block; an `any` that should hold an object. -/
inductive ToolInput (ι : Type) where
  | absent
  | object (input : ι)
  | other (goType : String)
  deriving DecidableEq

inductive StartBlock (ι : Type) where
  | text
  | thinking
  | redactedThinking (data : String)
  | toolUse (id name : String) (input : ToolInput ι)
  | serverToolUse (id name : String) (input : ToolInput ι)
  | other
  deriving DecidableEq

inductive SourceDelta where
  | text (text : String)
  | thinking (thinking : String)
  | inputJSON (partialJSON : String)
  | other
  deriving DecidableEq

structure MessageUsage where
  inputTokens : Int
  outputTokens : Int
  cacheReadInputTokens : Int
  cacheCreationInputTokens : Int
  deriving DecidableEq

/-- The counts that are there and not null. -/
structure DeltaUsage where
  inputTokens : Option Int
  cacheReadInputTokens : Option Int
  cacheCreationInputTokens : Option Int
  outputTokens : Option Int
  thinkingTokens : Option Int
  deriving DecidableEq

/-- The stop reasons that are not empty. -/
inductive SourceStopReason where
  | endTurn | maxTokens | stopSequence | toolUse | pauseTurn | refusal
  | other (name : String)
  deriving DecidableEq

inductive SourceEvent (ι : Type) where
  | messageStart (id : String) (usage : MessageUsage)
  | contentBlockStart (block : StartBlock ι)
  | contentBlockDelta (delta : SourceDelta)
  | contentBlockStop
  | messageDelta (stopReason : Option SourceStopReason) (usage : DeltaUsage)
  | messageStop
  | error (type message : String)
  | ping
  | other
  | malformed (message : String)
  deriving DecidableEq

inductive StreamError where
  | failure (message : String)
  | stream (type message : String)
  | overloaded (message : String)

def StreamError.text : StreamError → String
  | .failure message => message
  | .stream type message => "anthropic stream error: " ++ type ++ " - " ++ message
  | .overloaded message =>
    "upstream overloaded mid-stream: anthropic stream error: overloaded_error - " ++ message

/-- JSON objects: their text, and those without members. -/
structure JsonObjects (ι : Type) where
  marshal : ι → String
  isEmpty : ι → Bool

/-! ## The parser -/

structure StreamingToolCall where
  id : String
  name : String
  inputJSON : String

/-- `anthropicStreamParser` without its buffer. -/
structure Parser where
  activeMessageID : String
  activeToolCalls : GoMap Int StreamingToolCall
  toolIndex : Int
  tokenUsage : TokenUsage
  stopReason : Option SourceStopReason
  requestModel : String
  sentFirstChunk : Bool

def newAnthropicStreamParser (requestModel : String) : Parser :=
  { activeMessageID := "", activeToolCalls := ∅, toolIndex := -1, tokenUsage := .zero,
    stopReason := none, requestModel := requestModel, sentFirstChunk := false }

def anthropicToOpenAIFinishReason : SourceStopReason → Except StreamError FinishReason
  | .endTurn => .ok .stop
  | .stopSequence => .ok .stop
  | .pauseTurn => .ok .stop
  | .maxTokens => .ok .length
  | .toolUse => .ok .toolCalls
  | .refusal => .ok .contentFilter
  | .other name => .error (.failure ("received invalid stop reason " ++ name))

def SourceStopReason.known : SourceStopReason → Bool
  | .other _ => false
  | _ => true

theorem finishReason_isOk (reason : SourceStopReason) :
    reason.known = true ↔ ∃ r, anthropicToOpenAIFinishReason reason = .ok r := by
  cases reason <;> simp [SourceStopReason.known, anthropicToOpenAIFinishReason]

/-- The first chunk with content or a tool call has the role. -/
def isFirst (p : Parser) (delta : Delta) : Bool :=
  !p.sentFirstChunk && (delta.content.isSome || !delta.toolCalls.isEmpty)

def constructOpenAIChatCompletionChunk (p : Parser) (delta : Delta)
    (finishReason : Option FinishReason) : Parser × Option CompletionChunk :=
  ({ p with sentFirstChunk := p.sentFirstChunk || isFirst p delta },
    some
      { id := p.activeMessageID
        model := p.requestModel
        choices :=
          [{ index := 0
             delta := { delta with role := if isFirst p delta then "assistant" else delta.role }
             finishReason := finishReason }]
        usage := none })

def contentDelta (text : String) : Delta := { Delta.empty with content := some text }

def toolCallsDelta (calls : List ToolCallDelta) : Delta := { Delta.empty with toolCalls := calls }

/-! ## Token usage -/

/-- A count that is reported and not negative. -/
def reported (count : Option Int) : Option UInt32 := (count.filter fun n => 0 ≤ n).map uint32

/-- Takes a count off if it is known and not too large. -/
def withoutTokens (n : UInt32) : Option UInt32 → UInt32
  | some c => if c ≤ n then n - c else n
  | none => n

/-- The input tokens that were counted so far, without those of the cache. -/
def baseInputTokens (u : TokenUsage) : UInt32 :=
  match u.inputTokens with
  | some n => withoutTokens (withoutTokens n u.cachedInputTokens) u.cacheCreationInputTokens
  | none => 0

def updateInputUsageFromMessageDelta (u : TokenUsage) (d : DeltaUsage) : TokenUsage :=
  let input := reported d.inputTokens
  let cacheRead := reported d.cacheReadInputTokens
  let cacheCreation := reported d.cacheCreationInputTokens
  if input = none ∧ cacheRead = none ∧ cacheCreation = none then u
  else
    { u with
      cachedInputTokens := cacheRead.or u.cachedInputTokens
      cacheCreationInputTokens := cacheCreation.or u.cacheCreationInputTokens
      inputTokens := some (input.getD (baseInputTokens u) +
        cacheRead.getD (u.cachedInputTokens.getD 0) +
        cacheCreation.getD (u.cacheCreationInputTokens.getD 0)) }

/-- The counts of a `message_delta` are totals, not increments. -/
def noteDeltaUsage (u : TokenUsage) (d : DeltaUsage) : TokenUsage :=
  let u := updateInputUsageFromMessageDelta u d
  { u with
    outputTokens := (d.outputTokens.map uint32).or u.outputTokens
    reasoningTokens := (d.thinkingTokens.map uint32).or u.reasoningTokens }

/-- The output tokens of a `message_start` are not used. -/
def noteStartUsage (u : TokenUsage) (m : MessageUsage) : TokenUsage :=
  let usage := extractTokenUsageFromExplicitCaching m.inputTokens m.outputTokens
    (some m.cacheReadInputTokens) (some m.cacheCreationInputTokens)
  { u with
    inputTokens := usage.inputTokens.or u.inputTokens
    cachedInputTokens := usage.cachedInputTokens.or u.cachedInputTokens
    cacheCreationInputTokens := usage.cacheCreationInputTokens.or u.cacheCreationInputTokens }

/-! ## Handling an event -/

section

variable {ι : Type}

/-- The arguments that come with the start of a block; `{}` counts as none. -/
def startArguments (o : JsonObjects ι) : ToolInput ι → String
  | .object input => if o.isEmpty input then "" else o.marshal input
  | _ => ""

def argsJSON (o : JsonObjects ι) : ToolInput ι → Except StreamError String
  | .other goType => .error (.failure ("unexpected tool use input type: " ++ goType))
  | input => .ok (startArguments o input)

def startToolCall (p : Parser) (id name args : String) : Parser × Option CompletionChunk :=
  let toolIndex := p.toolIndex + 1
  constructOpenAIChatCompletionChunk
    { p with
      toolIndex := toolIndex
      activeToolCalls := p.activeToolCalls.insert toolIndex ⟨id, name, args⟩ }
    (toolCallsDelta [⟨toolIndex, some id, name, args⟩]) none

def handleContentBlockStart (o : JsonObjects ι) (p : Parser) :
    StartBlock ι → Except StreamError (Parser × Option CompletionChunk)
  | .toolUse id name input => (argsJSON o input).map (startToolCall p id name)
  | .serverToolUse id name input => (argsJSON o input).map (startToolCall p id name)
  | .thinking => .ok (constructOpenAIChatCompletionChunk p (contentDelta "") none)
  | .redactedThinking _ => .ok (p, none)
  | .text => .ok (p, none)
  | .other => .ok (p, none)

def handleContentBlockDelta (p : Parser) :
    SourceDelta → Except StreamError (Parser × Option CompletionChunk)
  | .text text => .ok (constructOpenAIChatCompletionChunk p (contentDelta text) none)
  | .thinking text => .ok (constructOpenAIChatCompletionChunk p (contentDelta text) none)
  | .inputJSON partialJSON =>
    match p.activeToolCalls.lookup p.toolIndex with
    | none => .error (.failure
        ("received input_json_delta for unknown tool at index " ++ toString p.toolIndex))
    | some tool =>
      let tool := { tool with inputJSON := tool.inputJSON ++ partialJSON }
      .ok (constructOpenAIChatCompletionChunk
        { p with activeToolCalls := p.activeToolCalls.insert p.toolIndex tool }
        (toolCallsDelta [⟨p.toolIndex, none, "", partialJSON⟩]) none)
  | .other => .ok (p, none)

def handleMessageStop (p : Parser) : Except StreamError (Parser × Option CompletionChunk) :=
  let p := { p with stopReason := some (p.stopReason.getD .endTurn) }
  (anthropicToOpenAIFinishReason (p.stopReason.getD .endTurn)).map fun finishReason =>
    constructOpenAIChatCompletionChunk p .empty (some finishReason)

def handleAnthropicStreamEvent (o : JsonObjects ι) (p : Parser) :
    SourceEvent ι → Except StreamError (Parser × Option CompletionChunk)
  | .messageStart id usage =>
    .ok ({ p with activeMessageID := id, tokenUsage := noteStartUsage p.tokenUsage usage,
                  toolIndex := -1 }, none)
  | .contentBlockStart block => handleContentBlockStart o p block
  | .messageDelta stopReason usage =>
    .ok ({ p with tokenUsage := noteDeltaUsage p.tokenUsage usage,
                  stopReason := stopReason.or p.stopReason }, none)
  | .contentBlockDelta delta => handleContentBlockDelta p delta
  | .contentBlockStop => .ok ({ p with activeToolCalls := p.activeToolCalls.erase p.toolIndex }, none)
  | .messageStop => handleMessageStop p
  | .error type message => .error (.stream type message)
  | .ping => .ok (constructOpenAIChatCompletionChunk p .empty none)
  | .other => .ok (p, none)
  | .malformed message => .error (.failure message)

/-- An overload is told to the client before the stream fails. -/
def overload : StreamError → Outcome StreamError Parser Written
  | .stream type message =>
    if type = "overloaded_error" then ⟨.error (.overloaded message), [.overloaded message]⟩
    else ⟨.error (.stream type message), []⟩
  | e => ⟨.error e, []⟩

theorem overload_result (e : StreamError) : ∃ e', (overload e).result = .error e' := by
  unfold overload
  split
  · split
    · exact ⟨_, rfl⟩
    · exact ⟨_, rfl⟩
  · exact ⟨_, rfl⟩

def writeEvent (o : JsonObjects ι) (p : Parser) (e : SourceEvent ι) :
    Outcome StreamError Parser Written :=
  match handleAnthropicStreamEvent o p e with
  | .ok (p, chunk) => ⟨.ok p, chunk.toList.map .chunk⟩
  | .error e => overload e

/-! ## Blocks and buffers -/

/-- The type of an event and its data, the data lines put together. -/
def eventFields (block : Bytes) : Bytes × Bytes :=
  (lines block).foldl (fun fields line =>
    match cutSSEFieldPrefix line sseEventPrefix with
    | some after => (trimSpace after, fields.2)
    | none =>
      match cutSSEDataPrefix line with
      | some after => (fields.1, fields.2 ++ trimSpace after)
      | none => fields) ([], [])

/-- A block without a type or without data is no event. -/
def eventOf (decode : Bytes → Bytes → SourceEvent ι) (block : Bytes) : Option (SourceEvent ι) :=
  if (eventFields block).1 = [] ∨ (eventFields block).2 = [] then none
  else some (decode (eventFields block).1 (eventFields block).2)

variable (decode : Bytes → Bytes → SourceEvent ι) (o : JsonObjects ι)

def writeChunk (p : Parser) (block : Bytes) : Outcome StreamError Parser Written :=
  (eventOf decode block).elim (.silent p) (writeEvent o p)

def usageOf (u : TokenUsage) : UsageDetails :=
  { promptTokens := (u.inputTokens.getD 0).toNat
    completionTokens := (u.outputTokens.getD 0).toNat
    totalTokens := (u.totalTokens.getD 0).toNat
    cachedTokens := (u.cachedInputTokens.getD 0).toNat
    cacheWriteTokens := (u.cacheCreationInputTokens.getD 0).toNat
    reasoningTokens := (u.reasoningTokens.getD 0).toNat }

variable (order : IterOrder Int StreamingToolCall)

/-- The tool calls that are still active, with all their arguments. -/
def activeCalls (p : Parser) : List ToolCallDelta :=
  (order.visit p.activeToolCalls).map fun e => ⟨e.1, some e.2.id, e.2.name, e.2.inputJSON⟩

def finalChoices (p : Parser) : List Choice :=
  if activeCalls order p = [] then [] else [⟨0, toolCallsDelta (activeCalls order p), none⟩]

def finish (p : Parser) : Outcome StreamError Parser Written :=
  let tokenUsage := { p.tokenUsage with
    totalTokens := some (p.tokenUsage.inputTokens.getD 0 + p.tokenUsage.outputTokens.getD 0) }
  let chunk : CompletionChunk :=
    { id := p.activeMessageID, model := p.requestModel, choices := finalChoices order p,
      usage := some (usageOf tokenUsage) }
  ⟨.ok { p with tokenUsage := tokenUsage },
    (if 0 < (usageOf tokenUsage).promptTokens ∨ 0 < (usageOf tokenUsage).completionTokens ∨
        finalChoices order p ≠ [] then [.chunk chunk] else []) ++ [.done]⟩

/-- A call; the state after it is the parser and its buffer. -/
def process (pb : Parser × Bytes) (body : Bytes) (endOfStream : Bool) :
    Outcome StreamError (Parser × Bytes) Written :=
  let blocks := Framing.drain (Cut.cut blankLine) (pb.2 ++ body)
  let o' := runAll (writeChunk decode o) pb.1 blocks.1
  if endOfStream = false then o'.map fun p => (p, blocks.2)
  else
    (((o'.andThen fun p => if blocks.2 = [] then .silent p else writeChunk decode o p blocks.2).andThen
      (finish order)).map fun p => (p, []))

/-- The calls for a stream that comes in pieces, the last of them at the end of the stream. -/
def processAll (requestModel : String) (pieces : List Bytes) (last : Bytes) :
    Outcome StreamError (Parser × Bytes) Written :=
  (runAll (fun pb body => process decode o order pb body false)
    (newAnthropicStreamParser requestModel, []) pieces).andThen
      fun pb => process decode o order pb last true

/-- The events in a stream. -/
def eventsOf (bytes : Bytes) : List (SourceEvent ι) :=
  let blocks := Framing.drain (Cut.cut blankLine) bytes
  (blocks.1 ++ if blocks.2 = [] then [] else [blocks.2]).filterMap (eventOf decode)

/-! ## Bytes -/

theorem runAll_process (p : Parser) (buffer : Bytes) (pieces : List Bytes)
    (hbuffer : Cut.cut blankLine buffer = none) :
    runAll (fun pb body => process decode o order pb body false) (p, buffer) pieces =
      (runAll (writeChunk decode o) p
        (Framing.drain (Cut.cut blankLine) (buffer ++ pieces.flatten)).1).map
        fun p => (p, (Framing.drain (Cut.cut blankLine) (buffer ++ pieces.flatten)).2) := by
  have hstable : Framing.Stable (Cut.cut blankLine) := stable_cut (by decide)
  induction pieces generalizing p buffer with
  | nil =>
    rw [flatten_nil, append_nil, drain_of_none hbuffer]
    rfl
  | cons b bs ih =>
    rw [runAll_cons, process, if_pos rfl, Outcome.map_andThen, flatten_cons,
      ← append_assoc, drain_append hstable (buffer ++ b), runAll_append,
      Outcome.andThen_map]
    congr 1
    funext p'
    exact ih p' _ (decode_drain_snd hstable _)

/-- The way a stream is cut into pieces does not matter. -/
theorem processAll_eq (requestModel : String) (pieces : List Bytes) (last : Bytes) :
    processAll decode o order requestModel pieces last =
      ((runAll (writeEvent o) (newAnthropicStreamParser requestModel)
        (eventsOf decode (pieces.flatten ++ last))).andThen (finish order)).map fun p => (p, []) := by
  have hstable : Framing.Stable (Cut.cut blankLine) := stable_cut (by decide)
  unfold processAll eventsOf
  rw [runAll_process decode o order _ _ _ hstable.decode_nil, Outcome.map_andThen, nil_append]
  simp only [process, Bool.true_eq_false, if_false]
  have hskip : ∀ (p : Parser) (block : Bytes),
      writeChunk decode o p block = (eventOf decode block).elim (.silent p) (writeEvent o p) :=
    fun _ _ => rfl
  rw [← runAll_filterMap hskip, drain_append hstable pieces.flatten last,
    append_assoc, runAll_append, Outcome.andThen_assoc, Outcome.andThen_map]
  -- The last block is handled like the ones before it.
  have hlast : ∀ (p : Parser) (rest : Bytes), (if rest = [] then .silent p else writeChunk decode o p rest) =
        runAll (writeChunk decode o) p (if rest = [] then [] else [rest]) := by
    intro p rest
    split
    · rfl
    · exact (runAll_singleton p rest).symm
  simp only [hlast, ← runAll_append]

/-! ## One call or several -/

/-- The same chunk but for the order of the tool calls in a delta, which is that of a map. -/
structure SameChunk (c c' : CompletionChunk) : Prop where
  id : c.id = c'.id
  model : c.model = c'.model
  usage : c.usage = c'.usage
  choices : List.Forall₂ (fun choice choice' => choice.delta.toolCalls.Perm choice'.delta.toolCalls ∧
    choice = { choice' with delta := { choice'.delta with toolCalls := choice.delta.toolCalls } })
    c.choices c'.choices

theorem SameChunk.refl (c : CompletionChunk) : SameChunk c c :=
  ⟨rfl, rfl, rfl, forall₂_same.mpr fun _ _ => ⟨.rfl, rfl⟩⟩

inductive SameWritten : Written → Written → Prop where
  | chunk {c c' : CompletionChunk} (h : SameChunk c c') : SameWritten (.chunk c) (.chunk c')
  | overloaded (message : String) : SameWritten (.overloaded message) (.overloaded message)
  | done : SameWritten .done .done

theorem SameWritten.refl : ∀ w : Written, SameWritten w w
  | .chunk c => .chunk (.refl c)
  | .overloaded message => .overloaded message
  | .done => .done

variable (order' : IterOrder Int StreamingToolCall)

/-- The order of the active tool calls shows in the last chunk only. -/
theorem finish_same (p : Parser) :
    (finish order p).result = (finish order' p).result ∧
      List.Forall₂ SameWritten (finish order p).out (finish order' p).out := by
  have hperm : (activeCalls order p).Perm (activeCalls order' p) :=
    ((order.perm _).trans (order'.perm _).symm).map _
  refine ⟨rfl, ?_⟩
  unfold finish finalChoices
  by_cases hnil : activeCalls order' p = []
  · have hnil' : activeCalls order p = [] := perm_nil.mp (hnil ▸ hperm)
    simp only [hnil, hnil', if_true]
    exact forall₂_same.mpr fun w _ => .refl w
  · have hnil' : activeCalls order p ≠ [] := fun h => hnil (perm_nil.mp (h ▸ hperm.symm))
    simp only [hnil, hnil', if_false, ne_eq, cons_ne_nil, not_false_eq_true, or_true, if_true,
      singleton_append]
    exact .cons (.chunk ⟨rfl, rfl, rfl, .cons ⟨hperm, rfl⟩ .nil⟩) (.cons .done .nil)

/-- The events are all that the output and the token usage depend on. -/
theorem processAll_same_of_events (requestModel : String)
    {pieces pieces' : List Bytes} {last last' : Bytes}
    (h : eventsOf decode (pieces.flatten ++ last) = eventsOf decode (pieces'.flatten ++ last')) :
    List.Forall₂ SameWritten (processAll decode o order requestModel pieces last).out
        (processAll decode o order' requestModel pieces' last').out ∧
      (processAll decode o order requestModel pieces last).result.map (·.1.tokenUsage) =
        (processAll decode o order' requestModel pieces' last').result.map (·.1.tokenUsage) := by
  rw [processAll_eq, processAll_eq, h]
  obtain ⟨result, out⟩ := runAll (writeEvent o) (newAnthropicStreamParser requestModel)
    (eventsOf decode (pieces'.flatten ++ last'))
  cases result with
  | error e => exact ⟨forall₂_same.mpr fun w _ => .refl w, rfl⟩
  | ok p =>
    obtain ⟨hresult, hout⟩ := finish_same order order' p
    refine ⟨rel_append (forall₂_same.mpr fun w _ => .refl w) hout, ?_⟩
    exact congrArg (fun r => (r.map fun p => (p, ([] : Bytes))).map (·.1.tokenUsage)) hresult

/-- A stream in pieces gives the output and the token usage of one call with all of it. -/
theorem processAll_same_as_one_call (order' : IterOrder Int StreamingToolCall) (requestModel : String)
    (pieces : List Bytes) (last : Bytes) :
    let cut := processAll decode o order requestModel pieces last
    let whole := processAll decode o order' requestModel [] (pieces.flatten ++ last)
    List.Forall₂ SameWritten cut.out whole.out ∧
      cut.result.map (·.1.tokenUsage) = whole.result.map (·.1.tokenUsage) := by
  refine processAll_same_of_events decode o order order' requestModel ?_
  rw [flatten_nil, nil_append]

end

/-! ## Streams of a few events -/

/-- Objects by the text that `json.Marshal` gives for them. -/
abbrev ObjectText : Type := { s : String // s ≠ "" }

def objectTexts : JsonObjects ObjectText where
  marshal x := x.val
  isEmpty x := x.val == "\x7b\x7d"

/-- The type of an event, its data and what they mean. -/
abbrev Document (ι : Type) : Type := String × String × SourceEvent ι

/-- JSON decoding for the documents listed. -/
def decodeListed {ι : Type} (documents : List (Document ι)) (type data : Bytes) : SourceEvent ι :=
  ((documents.find? fun d => ascii d.1 == type && ascii d.2.1 == data).map fun d => d.2.2).getD
    (.malformed "unexpected end of JSON input")

def bytesOf {ι : Type} (d : Document ι) : Bytes :=
  ascii "event: " ++ ascii d.1 ++ [lineFeed] ++ ascii "data: " ++ ascii d.2.1 ++ blankLine

def messageStarts : Document ObjectText :=
  ("message_start", "\x7b\"message\":\x7b\"id\":\"m1\",\"usage\":\x7b\"input_tokens\":7\x7d\x7d\x7d",
    .messageStart "m1" ⟨7, 0, 0, 0⟩)

def toolStarts : Document ObjectText :=
  ("content_block_start", "\x7b\"content_block\":\x7b\"type\":\"tool_use\",\"id\":\"t1\"," ++
      "\"name\":\"f\",\"input\":\x7b\x7d\x7d\x7d",
    .contentBlockStart (.toolUse "t1" "f" (.object ⟨"\x7b\x7d", by decide⟩)))

/-- The arguments `{}`. -/
def argumentsCome : Document ObjectText :=
  ("content_block_delta", "\x7b\"delta\":\x7b\"type\":\"input_json_delta\"," ++
      "\"partial_json\":\"\x7b\x7d\"\x7d\x7d",
    .contentBlockDelta (.inputJSON "\x7b\x7d"))

def textStarts : Document ObjectText :=
  ("content_block_start", "\x7b\"content_block\":\x7b\"type\":\"text\",\"text\":\"\"\x7d\x7d",
    .contentBlockStart .text)

def textComes (text : String) : Document ObjectText :=
  ("content_block_delta", "\x7b\"delta\":\x7b\"type\":\"text_delta\",\"text\":\"" ++ text ++
    "\"\x7d\x7d", .contentBlockDelta (.text text))

def blockStops : Document ObjectText :=
  ("content_block_stop", "\x7b\"index\":0\x7d", .contentBlockStop)

def pings : Document ObjectText := ("ping", "\x7b\x7d", .ping)

def messageEnds : Document ObjectText :=
  ("message_delta", "\x7b\"delta\":\x7b\"stop_reason\":\"tool_use\"\x7d\x7d",
    .messageDelta (some .toolUse) ⟨none, none, none, none, none⟩)

def messageStops : Document ObjectText := ("message_stop", "\x7b\x7d", .messageStop)

end AgentRouter.AnthropicParser
