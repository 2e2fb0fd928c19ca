import AgentRouter.Translator.AnthropicParser

/-!
# AnthropicMessage: a whole message against the stream of its events

`messageToChatCompletion` converts an Anthropic message in one go.  A stream spells the same
message block by block (`SpelledBlock`), each text and each input cut into deltas in some way, and
`anthropicStreamParser` translates it event by event.  The two agree when

* the stop reason is there, and it is unknown or else
* no thinking block has a text, and at most one text block has one, and
* every tool call has an id and a text for its arguments,

and otherwise they do not (`stream_agrees_iff`): the stream writes thinking as content, it writes
all texts where the message keeps the first one, it writes tool calls without an id, and a tool
call without arguments has no JSON text in the stream.
-/

namespace AgentRouter.AnthropicParser

open Completion Emit Metrics OpenAIStream List

variable {ι : Type}

/-! ## The message -/

structure AnthropicMessage (ι : Type) where
  id : String
  role : String
  content : List (ContentBlock ι)
  stopReason : Option SourceStopReason
  usage : MessageUsage
  thinkingTokens : Int

def anthropicRoleToOpenAIRole (role : String) : Except StreamError String :=
  if role = "assistant" then .ok "assistant"
  else if role = "user" then .ok "user"
  else .error (.failure ("invalid anthropic role " ++ role))

/-- A missing stop reason is as invalid as an unknown one. -/
def messageFinishReason : Option SourceStopReason → Except StreamError FinishReason
  | some reason => anthropicToOpenAIFinishReason reason
  | none => .error (.failure "received invalid stop reason ")

@[simp] def addBlock (o : JsonObjects ι) (msg : ResponseMessage) : ContentBlock ι → ResponseMessage
  | .toolUse id name input =>
    if id = "" then msg
    else { msg with toolCalls := msg.toolCalls ++ [⟨some id, name, o.marshal input⟩] }
  | .text text => if text = "" then msg else { msg with content := msg.content.or (some text) }
  | .thinking thinking signature =>
    if thinking = "" then msg
    else { msg with reasoningContent := some (.block (some ⟨some ⟨thinking, signature⟩, ""⟩)) }
  | .redactedThinking data =>
    if data = "" then msg else { msg with reasoningContent := some (.block (some ⟨none, data⟩)) }

def messageUsage (m : AnthropicMessage ι) : TokenUsage :=
  { extractTokenUsageFromExplicitCaching m.usage.inputTokens m.usage.outputTokens
      (some m.usage.cacheReadInputTokens) (some m.usage.cacheCreationInputTokens) with
    reasoningTokens := some (uint32 m.thinkingTokens) }

def messageToChatCompletion (o : JsonObjects ι) (m : AnthropicMessage ι) (responseModel : String) :
    Except StreamError (ChatCompletion × TokenUsage) := do
  let finishReason ← messageFinishReason m.stopReason
  let role ← anthropicRoleToOpenAIRole m.role
  let message := m.content.foldl (addBlock o) ⟨⟨none, [], none, []⟩, role⟩
  .ok ({ id := m.id, model := responseModel,
         choices := [⟨0, message, some finishReason⟩],
         usage := usageOf (messageUsage m) }, messageUsage m)

/-! ## The stream that spells a message -/

/-- What JSON encoding and decoding have to do with each other; `parse` gives the value of a text
that is one object. -/
structure JsonLaws (o : JsonObjects ι) (parse : String → Option ι) : Prop where
  parse_marshal : ∀ input, parse (o.marshal input) = some input
  parse_empty : parse "" = none

/-- A start without arguments. -/
def ToolInput.isBlank (o : JsonObjects ι) : ToolInput ι → Bool
  | .absent => true
  | .object input => o.isEmpty input
  | .other _ => false

/-- An input comes with the start of its block, or with the deltas, or not at all. -/
inductive InputSpelled (o : JsonObjects ι) (parse : String → Option ι) :
    ToolInput ι → String → ι → Prop
  | atStart {input : ι} (h : o.isEmpty input = false) : InputSpelled o parse (.object input) "" input
  | inDeltas {start : ToolInput ι} {text : String} {input : ι} (hstart : start.isBlank o = true)
      (h : parse text = some input) : InputSpelled o parse start text input
  | never {start : ToolInput ι} {input : ι} (hstart : start.isBlank o = true)
      (h : o.isEmpty input = true) : InputSpelled o parse start "" input

/-- A block and the way it is streamed. -/
inductive SpelledBlock (o : JsonObjects ι) (parse : String → Option ι) where
  | text (parts : List String)
  | thinking (parts : List String) (signature : String)
  | redactedThinking (data : String)
  | toolUse (id name : String) (start : ToolInput ι) (parts : List String) (input : ι)
      (spelled : InputSpelled o parse start (String.join parts) input)

open SpelledBlock hiding text thinking

section

variable {o : JsonObjects ι} {parse : String → Option ι}

@[simp] def SpelledBlock.block : SpelledBlock o parse → ContentBlock ι
  | .text parts => .text (String.join parts)
  | .thinking parts signature => .thinking (String.join parts) signature
  | .redactedThinking data => .redactedThinking data
  | .toolUse id name _ _ input _ => .toolUse id name input

def SpelledBlock.start : SpelledBlock o parse → StartBlock ι
  | .text _ => .text
  | .thinking _ _ => .thinking
  | .redactedThinking data => .redactedThinking data
  | .toolUse id name start _ _ _ => .toolUse id name start

def SpelledBlock.deltas : SpelledBlock o parse → List SourceDelta
  | .text parts => parts.map .text
  | .thinking parts _ => parts.map .thinking
  | .redactedThinking _ => []
  | .toolUse _ _ _ parts _ _ => parts.map .inputJSON

def SpelledBlock.events (b : SpelledBlock o parse) : List (SourceEvent ι) :=
  .contentBlockStart b.start :: (b.deltas.map .contentBlockDelta ++ [.contentBlockStop])

/-- Events that say nothing about the message: pings, unknown events and deltas such as the
signature of a thinking block. -/
def SourceEvent.counts : SourceEvent ι → Bool
  | .ping => false
  | .other => false
  | .contentBlockDelta .other => false
  | _ => true

/-- The events of a whole stream, those that do not count left out. -/
def streamOf (id : String) (usage : MessageUsage) (blocks : List (SpelledBlock o parse))
    (stopReason : Option SourceStopReason) (deltaUsage : DeltaUsage) : List (SourceEvent ι) :=
  .messageStart id usage :: (blocks.flatMap SpelledBlock.events ++
    [.messageDelta stopReason deltaUsage, .messageStop])

/-! ## What it means to agree -/

/-- The client of the stream has the same text, tool calls and finish reason. -/
structure SameChoice (parse : String → Option ι) (choices : List Choice) (c : CompletionChoice) :
    Prop where
  text : textOf choices = c.message.content.getD ""
  calls : (foldCalls (callsOf choices)).map (fun f => (f.id, f.name, parse f.arguments)) =
    c.message.toolCalls.map fun t => (t.id, t.name, parse t.arguments)
  finishReason : finishReasonOf choices = c.finishReason

/-- Where the conversion fails, the stream should fail too. -/
def Agrees (parse : String → Option ι) (stream : Outcome StreamError (Parser × Bytes) Written) :
    Except StreamError (ChatCompletion × TokenUsage) → Prop
  | .ok (response, _) => (∃ pb, stream.result = .ok pb) ∧
      ∀ c ∈ response.choices, SameChoice parse (choicesAt c.index stream.out) c
  | .error _ => ∃ e, stream.result = .error e

/-- The arguments of a tool block as they are streamed. -/
def SpelledBlock.argumentText : SpelledBlock o parse → Option String
  | .toolUse _ _ start parts _ _ => some (startArguments o start ++ String.join parts)
  | _ => none

@[simp] def textsIn (content : List (ContentBlock ι)) : List String :=
  content.filterMap fun
    | .text text => if text = "" then none else some text
    | _ => none

/-- The blocks that are not translated alike on the two ways. -/
structure SameContent (blocks : List (SpelledBlock o parse)) : Prop where
  thinking : ∀ b ∈ blocks, ∀ thinking signature, b.block = .thinking thinking signature → thinking = ""
  texts : (textsIn (blocks.map SpelledBlock.block)).length ≤ 1
  ids : ∀ b ∈ blocks, ∀ id name input, b.block = .toolUse id name input → id ≠ ""
  arguments : ∀ b ∈ blocks, b.argumentText ≠ some ""

end

/-! ## Running the parser -/

/-- What the client of the first choice gets from these events. -/
structure Wrote (out : List Written) (text : String) (calls : List ToolCallDelta)
    (reason : Option FinishReason) : Prop where
  text : textOf (choicesAt 0 out) = text
  calls : callsOf (choicesAt 0 out) = calls
  reason : finishReasonOf (choicesAt 0 out) = reason

theorem wrote_nil : Wrote [] "" [] none := ⟨rfl, rfl, rfl⟩

theorem Wrote.append {out out' : List Written} {text text' : String}
    {calls calls' : List ToolCallDelta} {reason reason' : Option FinishReason}
    (h : Wrote out text calls reason) (h' : Wrote out' text' calls' reason') :
    Wrote (out ++ out') (text ++ text') (calls ++ calls') (reason'.or reason) where
  text := by rw [choicesAt_append, textOf_append, h.text, h'.text]
  calls := by rw [choicesAt_append, callsOf_append, h.calls, h'.calls]
  reason := by rw [choicesAt_append, finishReasonOf_append, h.reason, h'.reason]

theorem wrote_construct (p : Parser) (delta : Delta) (reason : Option FinishReason) :
    Wrote ((constructOpenAIChatCompletionChunk p delta reason).2.toList.map .chunk)
      (delta.content.getD "") delta.toolCalls reason where
  text := by
    simp [constructOpenAIChatCompletionChunk, choicesAt, Written.choices, Completion.textOf]
  calls := by simp [constructOpenAIChatCompletionChunk, choicesAt, Written.choices, callsOf]
  reason := by
    simp [constructOpenAIChatCompletionChunk, choicesAt, Written.choices, finishReasonOf]

/-- The parser goes through these events to `p'`. -/
def Runs (o : JsonObjects ι) (p : Parser) (events : List (SourceEvent ι)) (p' : Parser)
    (text : String) (calls : List ToolCallDelta) (reason : Option FinishReason) : Prop :=
  ∃ out, runAll (writeEvent o) p events = ⟨.ok p', out⟩ ∧ Wrote out text calls reason

/-- No tool call is active and `n` have been written. -/
structure Settled (p : Parser) (n : Nat) : Prop where
  index : p.toolIndex = n - 1
  inactive : ∀ i, p.activeToolCalls.lookup i = none

section

variable {o : JsonObjects ι} {p p' p'' : Parser} {text text' : String}
  {calls calls' : List ToolCallDelta} {reason reason' : Option FinishReason}

theorem Runs.append {events events' : List (SourceEvent ι)} (h : Runs o p events p' text calls reason)
    (h' : Runs o p' events' p'' text' calls' reason') :
    Runs o p (events ++ events') p'' (text ++ text') (calls ++ calls') (reason'.or reason) := by
  obtain ⟨out, hrun, hwrote⟩ := h
  obtain ⟨out', hrun', hwrote'⟩ := h'
  refine ⟨out ++ out', ?_, hwrote.append hwrote'⟩
  rw [runAll_append, hrun, Outcome.andThen_ok, hrun']

variable {e : SourceEvent ι}

theorem runs_of_handle {chunk : Option CompletionChunk}
    (h : handleAnthropicStreamEvent o p e = .ok (p', chunk))
    (hwrote : Wrote (chunk.toList.map .chunk) text calls reason) :
    Runs o p [e] p' text calls reason := by
  refine ⟨_, ?_, hwrote⟩
  rw [runAll_singleton, writeEvent, h]

theorem runs_silent (h : handleAnthropicStreamEvent o p e = .ok (p', none)) :
    Runs o p [e] p' "" [] none := runs_of_handle h wrote_nil

theorem runs_chunk {delta : Delta} (h : handleAnthropicStreamEvent o p e =
      .ok (constructOpenAIChatCompletionChunk p' delta reason)) :
    Runs o p [e] (constructOpenAIChatCompletionChunk p' delta reason).1 (delta.content.getD "")
      delta.toolCalls reason :=
  runs_of_handle h (wrote_construct p' delta reason)

theorem runs_texts {kind : String → SourceDelta}
    (hkind : ∀ p text, handleAnthropicStreamEvent o p (.contentBlockDelta (kind text)) =
      .ok (constructOpenAIChatCompletionChunk p (contentDelta text) none))
    (parts : List String) (p : Parser) :
    ∃ sent, Runs o p (parts.map fun t => .contentBlockDelta (kind t)) { p with sentFirstChunk := sent }
      (String.join parts) [] none := by
  induction parts generalizing p with
  | nil => exact ⟨p.sentFirstChunk, [], rfl, wrote_nil⟩
  | cons t parts ih =>
    have hfirst : Runs o p [.contentBlockDelta (kind t)] _ t [] none := runs_chunk (hkind p t)
    obtain ⟨sent, hrest⟩ := ih (constructOpenAIChatCompletionChunk p (contentDelta t) none).1
    refine ⟨sent, ?_⟩
    rw [String.join_cons]
    exact hfirst.append hrest

theorem runs_arguments (parts : List String) {tool : StreamingToolCall}
    (htool : p.activeToolCalls.lookup p.toolIndex = some tool)
    (hother : ∀ i, i ≠ p.toolIndex → p.activeToolCalls.lookup i = none) :
    ∃ p', Runs o p (parts.map fun t => .contentBlockDelta (.inputJSON t)) p' ""
        (parts.map fun t => ⟨p.toolIndex, none, "", t⟩) none ∧
      p'.toolIndex = p.toolIndex ∧ p'.stopReason = p.stopReason ∧
      ∀ i, i ≠ p.toolIndex → p'.activeToolCalls.lookup i = none := by
  induction parts generalizing p tool with
  | nil => exact ⟨p, ⟨[], rfl, wrote_nil⟩, rfl, rfl, hother⟩
  | cons t parts ih =>
    have hhandle : handleAnthropicStreamEvent o p (.contentBlockDelta (.inputJSON t)) =
        .ok (constructOpenAIChatCompletionChunk
          { p with
            activeToolCalls := p.activeToolCalls.insert p.toolIndex
              { tool with inputJSON := tool.inputJSON ++ t } }
          (toolCallsDelta [⟨p.toolIndex, none, "", t⟩]) none) := by
      rw [handleAnthropicStreamEvent, handleContentBlockDelta, htool]
    obtain ⟨q, tool', hfirst, hindex', hactive', hreason'⟩ : ∃ (q : Parser) (tool' : StreamingToolCall),
          Runs o p [.contentBlockDelta (.inputJSON t)] q "" [⟨p.toolIndex, none, "", t⟩] none ∧
          q.toolIndex = p.toolIndex ∧
          q.activeToolCalls = p.activeToolCalls.insert p.toolIndex tool' ∧
          q.stopReason = p.stopReason := ⟨_, _, runs_chunk hhandle, rfl, rfl, rfl⟩
    have hlookup : q.activeToolCalls.lookup q.toolIndex = some tool' := by
      rw [hindex', hactive', AList.lookup_insert]
    have hnone : ∀ i, i ≠ q.toolIndex → q.activeToolCalls.lookup i = none := by
      intro i hi
      rw [hindex'] at hi
      rw [hactive', AList.lookup_insert_ne hi, hother i hi]
    obtain ⟨p', hrest, hindex, hreason, hother'⟩ := ih hlookup hnone
    rw [hindex'] at hrest hindex hother'
    exact ⟨p', hfirst.append hrest, hindex, hreason.trans hreason', hother'⟩

variable {n : Nat}

theorem runs_stop (hindex : p.toolIndex = n - 1)
    (hother : ∀ i, i ≠ p.toolIndex → p.activeToolCalls.lookup i = none) :
    ∃ p', Runs o p [.contentBlockStop] p' "" [] none ∧ Settled p' n ∧ p'.stopReason = p.stopReason := by
  refine ⟨{ p with activeToolCalls := p.activeToolCalls.erase p.toolIndex }, runs_silent rfl,
    ⟨hindex, ?_⟩, rfl⟩
  intro i
  show (p.activeToolCalls.erase p.toolIndex).lookup i = none
  by_cases hi : i = p.toolIndex
  · rw [hi, AList.lookup_erase]
  · rw [AList.lookup_erase_ne hi, hother i hi]

end

/-! ## Running through the blocks -/

section

variable {o : JsonObjects ι} {parse : String → Option ι}

/-- The text a block brings to the stream. -/
@[simp] def SpelledBlock.streamText : SpelledBlock o parse → String
  | .text parts => String.join parts
  | .thinking parts _ => String.join parts
  | _ => ""

/-- The deltas of a tool block with the index `n`. -/
def SpelledBlock.callDeltas (n : Nat) : SpelledBlock o parse → List ToolCallDelta
  | .toolUse id name start parts _ _ =>
    ⟨n, some id, name, startArguments o start⟩ :: parts.map fun t => ⟨n, none, "", t⟩
  | _ => []

def SpelledBlock.callCount : SpelledBlock o parse → Nat
  | .toolUse _ _ _ _ _ _ => 1
  | _ => 0

/-- The deltas of the tool blocks, numbered from `n`. -/
def callDeltasFrom (n : Nat) : List (SpelledBlock o parse) → List ToolCallDelta
  | [] => []
  | b :: blocks => b.callDeltas n ++ callDeltasFrom (n + b.callCount) blocks

theorem InputSpelled.argsJSON_eq {start : ToolInput ι} {text : String} {input : ι}
    (h : InputSpelled o parse start text input) :
    argsJSON o start = .ok (startArguments o start) := by
  cases start with
  | absent => rfl
  | object _ => rfl
  | other goType =>
    cases h with
    | inDeltas hstart _ | never hstart _ => cases hstart

theorem runs_textBlock {p : Parser} (p₁ : Parser) {start : StartBlock ι}
    (kind : String → SourceDelta) (hp : Settled p₁ n)
    (hstart : Runs o p [.contentBlockStart start] p₁ "" [] none)
    (hreason : p₁.stopReason = p.stopReason)
    (hkind : ∀ p text, handleAnthropicStreamEvent o p (.contentBlockDelta (kind text)) = .ok (constructOpenAIChatCompletionChunk p (contentDelta text) none))
    (parts : List String) :
    ∃ p', Runs o p (.contentBlockStart start ::
        ((parts.map kind).map .contentBlockDelta ++ [.contentBlockStop])) p' (String.join parts) [] none ∧
      Settled p' n ∧ p'.stopReason = p.stopReason := by
  obtain ⟨sent, hdeltas⟩ := runs_texts hkind parts p₁
  obtain ⟨p', hstop, hsettled, hreason'⟩ := runs_stop (o := o)
    (p := { p₁ with sentFirstChunk := sent }) hp.index (fun i _ => hp.inactive i)
  refine ⟨p', ?_, hsettled, hreason'.trans hreason⟩
  have hrun := hstart.append (hdeltas.append hstop)
  rw [String.append_empty] at hrun
  rw [map_map]
  exact hrun

theorem runs_block {p : Parser} (hp : Settled p n) (b : SpelledBlock o parse) :
    ∃ p', Runs o p b.events p' b.streamText (b.callDeltas n) none ∧
      Settled p' (n + b.callCount) ∧ p'.stopReason = p.stopReason := by
  cases b with
  | text parts => exact runs_textBlock p .text hp (runs_silent rfl) rfl (fun _ _ => rfl) parts
  | thinking parts signature =>
    have hstart : Runs o p [.contentBlockStart .thinking]
        (constructOpenAIChatCompletionChunk p (contentDelta "") none).1 "" [] none := runs_chunk rfl
    exact runs_textBlock (constructOpenAIChatCompletionChunk p (contentDelta "") none).1 .thinking
      ⟨hp.index, hp.inactive⟩ hstart rfl (fun _ _ => rfl) parts
  | redactedThinking data =>
    exact runs_textBlock p .text hp (runs_silent rfl) rfl (fun _ _ => rfl) []
  | toolUse id name start parts input spelled =>
    have hindex : p.toolIndex + 1 = n := by
      have := hp.index
      omega
    have hhandle : handleAnthropicStreamEvent o p (.contentBlockStart (.toolUse id name start)) =
        .ok (startToolCall p id name (startArguments o start)) := by
      rw [handleAnthropicStreamEvent, handleContentBlockStart, spelled.argsJSON_eq]
      rfl
    obtain ⟨q, hstart, hqindex, hqactive, hqreason⟩ : ∃ q : Parser,
        Runs o p [.contentBlockStart (.toolUse id name start)] q ""
          [⟨p.toolIndex + 1, some id, name, startArguments o start⟩] none ∧
        q.toolIndex = n ∧ q.activeToolCalls =
          p.activeToolCalls.insert q.toolIndex ⟨id, name, startArguments o start⟩ ∧
        q.stopReason = p.stopReason := ⟨_, runs_chunk hhandle, hindex, rfl, rfl⟩
    have htool : q.activeToolCalls.lookup q.toolIndex = some ⟨id, name, startArguments o start⟩ := by
      rw [hqactive, AList.lookup_insert]
    have hother : ∀ i, i ≠ q.toolIndex → q.activeToolCalls.lookup i = none := by
      intro i hi
      rw [hqactive, AList.lookup_insert_ne hi, hp.inactive i]
    obtain ⟨q', hdeltas, hindex', hreason', hother'⟩ := runs_arguments parts htool hother
    have hcount : q'.toolIndex = ((n + 1 : Nat) : Int) - 1 := by
      omega
    obtain ⟨p', hstop, hsettled, hreason⟩ := runs_stop (o := o) hcount (hindex' ▸ hother')
    refine ⟨p', ?_, hsettled, hreason.trans (hreason'.trans hqreason)⟩
    have hrun := hstart.append (hdeltas.append hstop)
    rw [append_nil, hindex, hqindex] at hrun
    show Runs o p (.contentBlockStart (.toolUse id name start) ::
      ((parts.map .inputJSON).map .contentBlockDelta ++ [.contentBlockStop])) p' "" _ none
    rw [map_map]
    exact hrun

theorem runs_blocks {p : Parser} (hp : Settled p n) (blocks : List (SpelledBlock o parse)) :
    ∃ p', Runs o p (blocks.flatMap events) p'
        (String.join (blocks.map streamText)) (callDeltasFrom n blocks) none ∧
      (∃ n', Settled p' n') ∧ p'.stopReason = p.stopReason := by
  induction blocks generalizing p n with
  | nil => exact ⟨p, ⟨[], rfl, wrote_nil⟩, ⟨n, hp⟩, rfl⟩
  | cons b blocks ih =>
    obtain ⟨q, hfirst, hq, hreason⟩ := runs_block hp b
    obtain ⟨p', hrest, hp', hreason'⟩ := ih hq
    refine ⟨p', ?_, hp', hreason'.trans hreason⟩
    rw [map_cons, String.join_cons]
    exact hfirst.append hrest

theorem runs_upToStop (requestModel id : String) (usage : MessageUsage)
    (blocks : List (SpelledBlock o parse)) (stopReason : Option SourceStopReason)
    (deltaUsage : DeltaUsage) :
    ∃ p', Runs o (newAnthropicStreamParser requestModel)
        (.messageStart id usage :: (blocks.flatMap events ++ [.messageDelta stopReason deltaUsage])) p'
        (String.join (blocks.map streamText)) (callDeltasFrom 0 blocks) none ∧
      (∃ n, Settled p' n) ∧ p'.stopReason = stopReason := by
  have hstart : Runs o (newAnthropicStreamParser requestModel) [.messageStart id usage] _ "" [] none :=
    runs_silent rfl
  obtain ⟨q, hblocks, ⟨n, hq⟩, hreason⟩ := runs_blocks (n := 0)
    (p := { newAnthropicStreamParser requestModel with
      activeMessageID := id, tokenUsage := noteStartUsage .zero usage }) ⟨rfl, fun _ => rfl⟩ blocks
  obtain ⟨p', hp'⟩ : ∃ p', p' = { q with
      tokenUsage := noteDeltaUsage q.tokenUsage deltaUsage
      stopReason := stopReason.or q.stopReason } := ⟨_, rfl⟩
  have hdelta : Runs o q [.messageDelta stopReason deltaUsage] p' "" [] none := by
    rw [hp']
    exact runs_silent rfl
  refine ⟨p', ?_, ⟨n, ?_⟩, ?_⟩
  · have hrun := hstart.append (hblocks.append hdelta)
    rw [String.append_empty, append_nil] at hrun
    exact hrun
  · rw [hp']
    exact ⟨hq.index, hq.inactive⟩
  · rw [hp', hreason]
    exact Option.or_none

end

/-! ## The whole stream -/

section

variable {o : JsonObjects ι}

theorem Wrote.of_counts {out out' : List Written} {text : String} {calls : List ToolCallDelta}
    {reason : Option FinishReason} (h : Wrote out' text calls reason)
    (heq : (choicesAt 0 out).filter Choice.counts = (choicesAt 0 out').filter Choice.counts) :
    Wrote out text calls reason where
  text := by rw [← textOf_filter_counts, heq, textOf_filter_counts, h.text]
  calls := by rw [← callsOf_filter_counts, heq, callsOf_filter_counts, h.calls]
  reason := by rw [← finishReasonOf_filter_counts, heq, finishReasonOf_filter_counts, h.reason]

theorem wrote_finish (order : IterOrder Int StreamingToolCall) {p : Parser} (hp : Settled p n) :
    Wrote (finish order p).out "" [] none := by
  have hvisit : order.visit p.activeToolCalls = [] := by
    rw [eq_nil_iff_forall_not_mem]
    intro e he
    rw [order.mem_visit, hp.inactive] at he
    cases he
  have hchoices : finalChoices order p = [] := by
    simp [finalChoices, activeCalls, hvisit]
  unfold finish
  rw [hchoices]
  dsimp only
  split
  · exact ⟨rfl, rfl, rfl⟩
  · exact ⟨rfl, rfl, rfl⟩

variable {parse : String → Option ι} (decode : Bytes → Bytes → SourceEvent ι)
  (order : IterOrder Int StreamingToolCall) (requestModel : String) {pieces : List Bytes}
  {last : Bytes} {id : String} {usage : MessageUsage} {blocks : List (SpelledBlock o parse)}
  {stopReason : Option SourceStopReason} {deltaUsage : DeltaUsage}

theorem runAll_streamOf (id : String) (usage : MessageUsage) (blocks : List (SpelledBlock o parse))
    (stopReason : Option SourceStopReason) (deltaUsage : DeltaUsage) :
    ∃ p n out, Settled p n ∧ p.stopReason = stopReason ∧
      Wrote out (String.join (blocks.map streamText)) (callDeltasFrom 0 blocks) none ∧
      runAll (writeEvent o) (newAnthropicStreamParser requestModel)
          (streamOf id usage blocks stopReason deltaUsage) =
        ⟨(writeEvent o p .messageStop).result, out ++ (writeEvent o p .messageStop).out⟩ := by
  obtain ⟨p, ⟨out, hrun, hwrote⟩, ⟨n, hp⟩, hreason⟩ :=
    runs_upToStop requestModel id usage blocks stopReason deltaUsage
  refine ⟨p, n, out, hp, hreason, hwrote, ?_⟩
  have hsplit : streamOf id usage blocks stopReason deltaUsage =
      (.messageStart id usage :: (blocks.flatMap events ++
        [.messageDelta stopReason deltaUsage])) ++ [.messageStop] := by
    simp [streamOf]
  rw [hsplit, runAll_append, hrun, Outcome.andThen_ok, runAll_singleton]

theorem runAll_counts (events : List (SourceEvent ι)) (p : Parser) :
    (runAll (writeEvent o) p events).result =
        (runAll (writeEvent o) p (events.filter SourceEvent.counts)).result ∧
      (choicesAt 0 (runAll (writeEvent o) p events).out).filter Choice.counts =
        (choicesAt 0 (runAll (writeEvent o) p (events.filter SourceEvent.counts)).out).filter
          Choice.counts := by
  refine runAll_filter (fun out => (choicesAt 0 out).filter Choice.counts) ?_ ?_ p events
  · intro out out'
    rw [choicesAt_append, filter_append]
  · intro p e he
    cases e with
      | ping =>
        have hsame : (constructOpenAIChatCompletionChunk p .empty none).1 = p := by
          simp [constructOpenAIChatCompletionChunk, isFirst, Delta.empty]
        refine ⟨?_, rfl⟩
        show Except.ok (constructOpenAIChatCompletionChunk p .empty none).1 = _
        rw [hsame]
      | other => exact ⟨rfl, rfl⟩
      | contentBlockDelta delta =>
        cases delta with
        | other => exact ⟨rfl, rfl⟩
        | text _ | thinking _ | inputJSON _ => cases he
      | _ => cases he

variable (hstream : (eventsOf decode (pieces.flatten ++ last)).filter SourceEvent.counts = streamOf id usage blocks stopReason deltaUsage)

include hstream in
theorem processAll_of_known {reason : FinishReason}
    (hreason : anthropicToOpenAIFinishReason (stopReason.getD .endTurn) = .ok reason) :
    ∃ pb out, processAll decode o order requestModel pieces last = ⟨.ok pb, out⟩ ∧
      Wrote out (String.join (blocks.map streamText)) (callDeltasFrom 0 blocks) (some reason) := by
  obtain ⟨hresult, hcounts⟩ := runAll_counts (o := o) (eventsOf decode (pieces.flatten ++ last))
    (newAnthropicStreamParser requestModel)
  obtain ⟨p, n, out, hp, hpreason, hwrote, hrun⟩ :=
    runAll_streamOf requestModel id usage blocks stopReason deltaUsage
  rw [hstream, hrun] at hresult hcounts
  obtain ⟨q, hq⟩ : ∃ q, q = { p with stopReason := some (p.stopReason.getD .endTurn) } := ⟨_, rfl⟩
  have hhandle : handleAnthropicStreamEvent o p .messageStop =
      .ok (constructOpenAIChatCompletionChunk q .empty (some reason)) := by
    rw [handleAnthropicStreamEvent, handleMessageStop]
    simp only [Option.getD_some]
    rw [hpreason, hreason, hq, hpreason]
    rfl
  have hstop : writeEvent o p .messageStop =
      ⟨.ok (constructOpenAIChatCompletionChunk q .empty (some reason)).1,
        (constructOpenAIChatCompletionChunk q .empty (some reason)).2.toList.map .chunk⟩ := by
    rw [writeEvent, hhandle]
  rw [hstop] at hresult hcounts
  have hsettled : Settled (constructOpenAIChatCompletionChunk q .empty (some reason)).1 n := by
    rw [hq]
    exact ⟨hp.index, hp.inactive⟩
  have hlast : Wrote ((constructOpenAIChatCompletionChunk q .empty (some reason)).2.toList.map .chunk)
      "" [] (some reason) := wrote_construct q .empty (some reason)
  have hall := (hwrote.append hlast).of_counts hcounts
  rw [processAll_eq]
  cases hevents : runAll (writeEvent o) (newAnthropicStreamParser requestModel)
      (eventsOf decode (pieces.flatten ++ last)) with
  | mk result written =>
    rw [hevents] at hresult hall
    cases hresult
    refine ⟨_, _, rfl, ?_⟩
    have hend := hall.append (wrote_finish order hsettled)
    rw [String.append_empty, String.append_empty, append_nil, append_nil] at hend
    exact hend

include hstream in
theorem processAll_of_unknown {e : StreamError}
    (hreason : anthropicToOpenAIFinishReason (stopReason.getD .endTurn) = .error e) :
    ∃ e', (processAll decode o order requestModel pieces last).result = .error e' := by
  obtain ⟨hresult, -⟩ := runAll_counts (o := o) (eventsOf decode (pieces.flatten ++ last))
    (newAnthropicStreamParser requestModel)
  obtain ⟨p, n, out, -, hpreason, -, hrun⟩ :=
    runAll_streamOf requestModel id usage blocks stopReason deltaUsage
  rw [hstream, hrun] at hresult
  have hhandle : handleAnthropicStreamEvent o p .messageStop = .error e := by
    rw [handleAnthropicStreamEvent, handleMessageStop]
    simp only [Option.getD_some]
    rw [hpreason, hreason]
    rfl
  obtain ⟨e', he'⟩ := overload_result e
  have hstop : (writeEvent o p .messageStop).result = .error e' := by
    rw [writeEvent, hhandle]
    exact he'
  rw [hstop] at hresult
  rw [processAll_eq]
  cases hevents : runAll (writeEvent o) (newAnthropicStreamParser requestModel)
      (eventsOf decode (pieces.flatten ++ last)) with
  | mk result written =>
    rw [hevents] at hresult
    cases hresult
    exact ⟨e', rfl⟩

end

/-! ## Texts -/

section

variable {o : JsonObjects ι} {parse : String → Option ι} (blocks : List (SpelledBlock o parse))

theorem join_streamText_eq_empty_iff :
    String.join (blocks.map streamText) = "" ↔
      (∀ b ∈ blocks, ∀ thinking signature, b.block = .thinking thinking signature → thinking = "") ∧
        textsIn (blocks.map block) = [] := by
  induction blocks with
  | nil => simp
  | cons b blocks ih =>
    rw [map_cons, String.join_cons, String.append_eq_empty_iff, ih]
    cases b with
    | text parts =>
      by_cases h : String.join parts = "" <;>
        simp [h]
    | thinking parts signature =>
      simp [and_assoc]
    | redactedThinking data => simp
    | toolUse id name start parts input spelled =>
      simp

theorem textsIn_thinking (parts : List String) (signature : String) :
    textsIn ((SpelledBlock.thinking parts signature : SpelledBlock o parse).block ::
      blocks.map block) = textsIn (blocks.map block) := rfl

theorem length_head_le :
    ((textsIn (blocks.map block)).head?.getD "").length ≤ (String.join (blocks.map streamText)).length := by
  induction blocks with
  | nil => simp
  | cons b blocks ih =>
    rw [map_cons, map_cons, String.join_cons, String.length_append]
    cases b with
    | text parts =>
      by_cases h : String.join parts = ""
      · simpa [h] using ih
      · simp [h]
    | thinking parts signature =>
      rw [textsIn_thinking]
      omega
    | redactedThinking data | toolUse id name start parts input spelled =>
      simpa using ih

theorem text_agrees_iff :
    String.join (blocks.map streamText) = (textsIn (blocks.map block)).head?.getD "" ↔
      (∀ b ∈ blocks, ∀ thinking signature, b.block = .thinking thinking signature → thinking = "") ∧
        (textsIn (blocks.map block)).length ≤ 1 := by
  induction blocks with
  | nil => simp
  | cons b blocks ih =>
    rw [map_cons, map_cons, String.join_cons, forall_mem_cons]
    cases b with
    | text parts =>
      by_cases h : String.join parts = ""
      · simpa [h] using ih
      · -- The first text that is not empty: nothing may follow it.
        have hcons : textsIn ((SpelledBlock.text parts : SpelledBlock o parse).block :: blocks.map block) =
            String.join parts :: textsIn (blocks.map block) := by
          simp [h]
        rw [hcons]
        show String.join parts ++ _ = String.join parts ↔ _
        rw [String.append_eq_left_iff, join_streamText_eq_empty_iff]
        simp
    | thinking parts signature =>
      rw [textsIn_thinking]
      by_cases h : String.join parts = ""
      · simpa [h] using ih
      · have hpos : 0 < (String.join parts).length := by
          have hne := mt String.length_eq_zero_iff.mp h
          omega
        have hle := length_head_le blocks
        constructor
        · intro heq
          have hlen := congrArg String.length heq
          rw [String.length_append] at hlen
          have htext : ((SpelledBlock.thinking parts signature : SpelledBlock o parse).streamText).length =
              (String.join parts).length := rfl
          omega
        · rintro ⟨⟨hall, -⟩, -⟩
          exact absurd (hall _ signature rfl) h
    | redactedThinking data | toolUse id name start parts input spelled =>
      simpa using ih

end

/-! ## Tool calls -/

section

variable {o : JsonObjects ι} {parse : String → Option ι}

@[simp] def messageCall (o : JsonObjects ι) : ContentBlock ι → Option ToolCall
  | .toolUse id name input => if id = "" then none else some ⟨some id, name, o.marshal input⟩
  | _ => none

theorem foldl_addBlock (content : List (ContentBlock ι)) (msg : ResponseMessage) :
    (content.foldl (addBlock o) msg).content = msg.content.or (textsIn content).head? ∧
      (content.foldl (addBlock o) msg).toolCalls = msg.toolCalls ++ content.filterMap (messageCall o) := by
  induction content generalizing msg with
  | nil => simp
  | cons b content ih =>
    rw [foldl_cons, (ih _).1, (ih _).2]
    cases b with
    | text text =>
      by_cases h : text = ""
      · simp [filterMap_cons, h]
      · cases hc : msg.content <;> simp [filterMap_cons, h, hc]
    | toolUse id name input => by_cases h : id = "" <;> simp [h]
    | thinking thinking signature =>
      by_cases h : thinking = "" <;> simp [filterMap_cons, h]
    | redactedThinking data =>
      by_cases h : data = "" <;> simp [filterMap_cons, h]

/-- The tool call that the client has for a block. -/
def SpelledBlock.folded (n : Nat) : SpelledBlock o parse → List FoldedCall
  | .toolUse id name start parts _ _ => [⟨n, some id, name, startArguments o start ++ String.join parts⟩]
  | _ => []

def foldedFrom (n : Nat) : List (SpelledBlock o parse) → List FoldedCall
  | [] => []
  | b :: blocks => b.folded n ++ foldedFrom (n + b.callCount) blocks

theorem foldl_callDeltas {calls : List FoldedCall} (h : Numbered calls) (b : SpelledBlock o parse) :
    (b.callDeltas calls.length).foldl foldCall calls = calls ++ b.folded calls.length ∧
      Numbered (calls ++ b.folded calls.length) ∧
      (calls ++ b.folded calls.length).length = calls.length + b.callCount := by
  cases b with
  | toolUse id name start parts input spelled =>
    exact ⟨foldl_foldCall h parts, h.concat rfl, length_append⟩
  | text _ | thinking _ _ | redactedThinking _ =>
    refine ⟨(append_nil calls).symm, ?_, by simp [folded, callCount]⟩
    simpa [folded] using h

theorem foldl_callDeltasFrom {calls : List FoldedCall} (h : Numbered calls)
    (blocks : List (SpelledBlock o parse)) :
    (callDeltasFrom calls.length blocks).foldl foldCall calls = calls ++ foldedFrom calls.length blocks := by
  induction blocks generalizing calls with
  | nil => exact (append_nil calls).symm
  | cons b blocks ih =>
    obtain ⟨hfold, hnumbered, hlength⟩ := foldl_callDeltas h b
    rw [callDeltasFrom, foldl_append, hfold, ← hlength, ih hnumbered, hlength, foldedFrom, append_assoc]

/-- The id, the name and the value of the arguments as the client of the stream has them. -/
def SpelledBlock.streamed : SpelledBlock o parse → Option (Option String × String × Option ι)
  | .toolUse id name start parts _ _ =>
    some (some id, name, parse (startArguments o start ++ String.join parts))
  | _ => none

theorem map_foldedFrom (n : Nat) (blocks : List (SpelledBlock o parse)) :
    (foldedFrom n blocks).map (fun f => (f.id, f.name, parse f.arguments)) = blocks.filterMap streamed := by
  induction blocks generalizing n with
  | nil => rfl
  | cons b blocks ih =>
    rw [foldedFrom, map_append, ih]
    cases b <;> rfl

/-- A tool call has the same arguments on both ways when it has any in the stream. -/
theorem parse_argumentText_iff (hlaws : JsonLaws o parse) {start : ToolInput ι} {text : String}
    {input : ι} (h : InputSpelled o parse start text input) :
    parse (startArguments o start ++ text) = some input ↔ startArguments o start ++ text ≠ "" := by
  have hblank : ∀ {start : ToolInput ι}, start.isBlank o = true → startArguments o start = "" := by
    intro start hstart
    cases start with
    | absent => rfl
    | object x =>
      have hx : o.isEmpty x = true := hstart
      simp [startArguments, hx]
    | other _ => cases hstart
  have hne : ∀ {text : String} {input : ι}, parse text = some input → text ≠ "" := by
    rintro text input hparse rfl
    rw [hlaws.parse_empty] at hparse
    cases hparse
  cases h with
  | atStart hfull =>
    have hparse := hlaws.parse_marshal input
    simp [startArguments, hfull, hparse, hne hparse]
  | inDeltas hstart hparse =>
    rw [hblank hstart]
    simp [hparse, hne hparse]
  | never hstart hempty =>
    rw [hblank hstart, String.empty_append, hlaws.parse_empty]
    simp

theorem calls_agree_iff (hlaws : JsonLaws o parse) (blocks : List (SpelledBlock o parse)) :
    (foldCalls (callDeltasFrom 0 blocks)).map (fun f => (f.id, f.name, parse f.arguments)) =
        ((blocks.map block).filterMap (messageCall o)).map (fun t => (t.id, t.name, parse t.arguments)) ↔
      (∀ b ∈ blocks, ∀ id name input, b.block = .toolUse id name input → id ≠ "") ∧
        ∀ b ∈ blocks, b.argumentText ≠ some "" := by
  have hstream : foldCalls (callDeltasFrom 0 blocks) = foldedFrom 0 blocks :=
    foldl_callDeltasFrom numbered_nil blocks
  rw [hstream, map_foldedFrom, filterMap_map, map_filterMap, Positions.filterMap_eq_filterMap_iff]
  · rw [← forall₂_and]
    refine forall₂_congr fun b _ => ?_
    cases b with
    | toolUse id name start parts input spelled =>
      have hparse := parse_argumentText_iff hlaws spelled
      have hmarshal := hlaws.parse_marshal input
      by_cases hid : id = ""
      · simp [streamed, hid]
      · simpa [streamed, argumentText, hid, hmarshal] using hparse
    | text _ | thinking _ _ | redactedThinking _ =>
      simp [streamed, argumentText]
  · intro b hb
    cases b with
    | toolUse id name start parts input spelled => cases hb
    | text _ | thinking _ _ | redactedThinking _ => rfl

end

/-! ## The comparison -/

section

variable {o : JsonObjects ι} {parse : String → Option ι} (decode : Bytes → Bytes → SourceEvent ι)
  (order : IterOrder Int StreamingToolCall) (requestModel : String)

theorem sameChoice_iff (hlaws : JsonLaws o parse) {out : List Written}
    {blocks : List (SpelledBlock o parse)} {reason : FinishReason} {role : String}
    (hwrote : Wrote out (String.join (blocks.map streamText)) (callDeltasFrom 0 blocks) (some reason)) :
    SameChoice parse (choicesAt 0 out)
        ⟨0, (blocks.map block).foldl (addBlock o) ⟨⟨none, [], none, []⟩, role⟩,
          some reason⟩ ↔ SameContent blocks := by
  have htext := text_agrees_iff blocks
  have hcalls := calls_agree_iff hlaws blocks
  constructor
  · rintro ⟨h₁, h₂, -⟩
    rw [hwrote.text, (foldl_addBlock _ _).1, Option.none_or, htext] at h₁
    rw [hwrote.calls, (foldl_addBlock _ _).2, nil_append, hcalls] at h₂
    exact ⟨h₁.1, h₁.2, h₂.1, h₂.2⟩
  · intro h
    constructor
    · rw [hwrote.text, (foldl_addBlock _ _).1, Option.none_or, htext]
      exact ⟨h.thinking, h.texts⟩
    · rw [hwrote.calls, (foldl_addBlock _ _).2, nil_append, hcalls]
      exact ⟨h.ids, h.arguments⟩
    · exact hwrote.reason

theorem messageToChatCompletion_of_known {m : AnthropicMessage ι} {reason : FinishReason}
    (responseModel : String) (hrole : m.role = "assistant")
    (hreason : messageFinishReason m.stopReason = .ok reason) :
    messageToChatCompletion o m responseModel =
      .ok ({ id := m.id, model := responseModel,
             choices := [⟨0, m.content.foldl (addBlock o) ⟨⟨none, [], none, []⟩, "assistant"⟩, some reason⟩],
             usage := usageOf (messageUsage m) }, messageUsage m) := by
  unfold messageToChatCompletion
  rw [hreason, hrole]
  rfl

/-- The stream of a message and the message converted in one go. -/
theorem stream_agrees_iff (hlaws : JsonLaws o parse) (pieces : List Bytes) (last : Bytes)
    (m : AnthropicMessage ι) (blocks : List (SpelledBlock o parse)) (usage : MessageUsage)
    (deltaUsage : DeltaUsage) (responseModel : String) (hrole : m.role = "assistant")
    (hcontent : m.content = blocks.map SpelledBlock.block)
    (hstream : (eventsOf decode (pieces.flatten ++ last)).filter SourceEvent.counts =
      streamOf m.id usage blocks m.stopReason deltaUsage) :
    Agrees parse (processAll decode o order requestModel pieces last)
        (messageToChatCompletion o m responseModel) ↔
      ∃ reason, m.stopReason = some reason ∧ (reason.known = true → SameContent blocks) := by
  cases hstop : m.stopReason with
  | none =>
    -- The stream takes `end_turn` for a missing stop reason.
    rw [hstop] at hstream
    obtain ⟨pb, out, hprocess, -⟩ := processAll_of_known decode order requestModel hstream rfl
    have hconvert : messageToChatCompletion o m responseModel =
        .error (.failure "received invalid stop reason ") := by
      rw [messageToChatCompletion, hstop]
      rfl
    rw [hconvert, hprocess]
    constructor
    · rintro ⟨e, he⟩
      cases he
    · rintro ⟨reason, heq, -⟩
      cases heq
  | some reason =>
    rw [hstop] at hstream
    have hiff : (∃ r, some reason = some r ∧ (r.known = true → SameContent blocks)) ↔
        (reason.known = true → SameContent blocks) := by simp
    rw [hiff]
    cases hreason : anthropicToOpenAIFinishReason reason with
    | error e =>
      have hunknown : ¬ reason.known = true := by
        rw [finishReason_isOk, hreason]
        rintro ⟨r, hr⟩
        cases hr
      have hconvert : messageToChatCompletion o m responseModel = .error e := by
        rw [messageToChatCompletion, hstop, messageFinishReason, hreason]
        rfl
      rw [hconvert]
      exact ⟨fun _ hknown => absurd hknown hunknown,
        fun _ => processAll_of_unknown decode order requestModel hstream hreason⟩
    | ok r =>
      have hknown : reason.known = true := (finishReason_isOk reason).mpr ⟨r, hreason⟩
      obtain ⟨pb, out, hprocess, hwrote⟩ :=
        processAll_of_known decode order requestModel hstream hreason
      have hfinish : messageFinishReason m.stopReason = .ok r := by
        rw [hstop]
        exact hreason
      rw [messageToChatCompletion_of_known responseModel hrole hfinish, hprocess, hcontent,
        forall_prop_of_true hknown, ← sameChoice_iff hlaws hwrote]
      constructor
      · rintro ⟨-, hsame⟩
        exact hsame _ mem_cons_self
      · intro hsame
        refine ⟨⟨pb, rfl⟩, ?_⟩
        intro c hc
        rw [mem_singleton.mp hc]
        exact hsame

end

/-! ## Messages of a few blocks -/

/-- The objects by their text: any text that is not empty. -/
def parseText (s : String) : Option ObjectText := if h : s ≠ "" then some ⟨s, h⟩ else none

theorem objectTexts_laws : JsonLaws objectTexts parseText where
  parse_marshal x := dif_pos x.property
  parse_empty := rfl

theorem emptyObject_ne : "\x7b\x7d" ≠ "" := by decide

/-- A text in two parts and a tool call with the arguments `{}`. -/
def spelledMessage : List (SpelledBlock objectTexts parseText) :=
  [.text ["h", "i"],
    .toolUse "t1" "f" (.object ⟨"\x7b\x7d", emptyObject_ne⟩) ["\x7b\x7d"] ⟨"\x7b\x7d", emptyObject_ne⟩
      (.inDeltas rfl rfl)]

def messageWith (blocks : List (SpelledBlock objectTexts parseText)) : AnthropicMessage ObjectText :=
  { id := "m1", role := "assistant", content := blocks.map SpelledBlock.block,
    stopReason := some .toolUse, usage := ⟨7, 0, 0, 0⟩, thinkingTokens := 0 }

def firstPart : List (Document ObjectText) :=
  [messageStarts, textStarts, textComes "h", pings, textComes "i", blockStops]

def secondPart : List (Document ObjectText) :=
  [toolStarts, argumentsCome, blockStops, messageEnds, messageStops]

/-- In two pieces and with a ping. -/
theorem text_and_call_agree :
    JsonLaws objectTexts parseText ∧
    (eventsOf (decodeListed (firstPart ++ secondPart))
      ([firstPart.flatMap bytesOf].flatten ++ secondPart.flatMap bytesOf)).filter SourceEvent.counts =
      streamOf "m1" ⟨7, 0, 0, 0⟩ spelledMessage (some .toolUse) ⟨none, none, none, none, none⟩ ∧
    Agrees parseText (processAll (decodeListed (firstPart ++ secondPart)) objectTexts
        GoMap.storedOrder "m" [firstPart.flatMap bytesOf] (secondPart.flatMap bytesOf))
      (messageToChatCompletion objectTexts (messageWith spelledMessage) "m") := by
  have hevents : eventsOf (decodeListed (firstPart ++ secondPart))
      ([firstPart.flatMap bytesOf].flatten ++ secondPart.flatMap bytesOf) =
      (firstPart ++ secondPart).map (·.2.2) := by
    decide +kernel
  have hstream : (eventsOf (decodeListed (firstPart ++ secondPart))
      ([firstPart.flatMap bytesOf].flatten ++ secondPart.flatMap bytesOf)).filter SourceEvent.counts =
      streamOf "m1" ⟨7, 0, 0, 0⟩ spelledMessage (some .toolUse) ⟨none, none, none, none, none⟩ := by
    rw [hevents]
    decide
  refine ⟨objectTexts_laws, hstream, (stream_agrees_iff (decodeListed (firstPart ++ secondPart))
    GoMap.storedOrder "m" objectTexts_laws _ _ (messageWith spelledMessage) spelledMessage _ _ "m" rfl
    rfl hstream).mpr ⟨.toolUse, rfl, fun _ => ?_⟩⟩
  constructor
  · intro b hb thinking signature heq
    rcases mem_pair.mp hb with rfl | rfl <;> cases heq
  · decide
  · intro b hb id name input heq
    rcases mem_pair.mp hb with rfl | rfl <;> cases heq
    decide
  · intro b hb
    rcases mem_pair.mp hb with rfl | rfl <;> decide

def twoTexts : List (Document ObjectText) :=
  [messageStarts, textStarts, textComes "h", blockStops, textStarts, textComes "i", blockStops,
    messageEnds, messageStops]

def emptyCall : List (Document ObjectText) :=
  [messageStarts, toolStarts, blockStops, messageEnds, messageStops]

/-- Two texts, of which the converted message has only the first, and a tool call for which no
arguments come. -/
theorem second_text_and_empty_call_disagree :
    (let message := messageWith [.text ["h"], .text ["i"]]
     let run := processAll (decodeListed twoTexts) objectTexts GoMap.storedOrder "m" []
       (twoTexts.flatMap bytesOf)
     eventsOf (decodeListed twoTexts) (twoTexts.flatMap bytesOf) =
       streamOf "m1" ⟨7, 0, 0, 0⟩
         ([.text ["h"], .text ["i"]] : List (SpelledBlock objectTexts parseText)) (some .toolUse)
         ⟨none, none, none, none, none⟩ ∧
     textOf (choicesAt 0 run.out) = "hi" ∧
     (message.content.foldl (addBlock objectTexts) ⟨⟨none, [], none, []⟩, "assistant"⟩).content =
       some "h" ∧
     ¬ Agrees parseText run (messageToChatCompletion objectTexts message "m")) ∧
    let message := messageWith [.toolUse "t1" "f" (.object ⟨"\x7b\x7d", by decide⟩) []
      ⟨"\x7b\x7d", by decide⟩ (.never rfl rfl)]
    let run := processAll (decodeListed emptyCall) objectTexts GoMap.storedOrder "m" []
      (emptyCall.flatMap bytesOf)
    (foldCalls (callsOf (choicesAt 0 run.out))).map (·.arguments) = [""] ∧
    (message.content.foldl (addBlock objectTexts) ⟨⟨none, [], none, []⟩, "assistant"⟩).toolCalls.map
      (·.arguments) = ["\x7b\x7d"] ∧
    ¬ Agrees parseText run (messageToChatCompletion objectTexts message "m") := by
  constructor
  · have hevents : eventsOf (decodeListed twoTexts) (twoTexts.flatMap bytesOf) =
        twoTexts.map (·.2.2) := by
      decide +kernel
    have htext : textOf (choicesAt 0 (processAll (decodeListed twoTexts) objectTexts
        GoMap.storedOrder "m" [] (twoTexts.flatMap bytesOf)).out) = "hi" := by
      rw [processAll_eq, flatten_nil, nil_append, hevents]
      decide
    refine ⟨hevents.trans (by decide), htext, by decide, ?_⟩
    intro h
    have hsame := (h.2 _ mem_cons_self).text
    rw [htext] at hsame
    exact absurd hsame (by decide)
  · have hevents : eventsOf (decodeListed emptyCall) (emptyCall.flatMap bytesOf) =
        emptyCall.map (·.2.2) := by
      decide +kernel
    have hcalls : foldCalls (callsOf (choicesAt 0 (processAll (decodeListed emptyCall) objectTexts
        GoMap.storedOrder "m" [] (emptyCall.flatMap bytesOf)).out)) =
        [⟨0, some "t1", "f", ""⟩] := by
      rw [processAll_eq, flatten_nil, nil_append, hevents]
      decide
    refine ⟨by rw [hcalls]; rfl, by decide, ?_⟩
    intro h
    have hsame := (h.2 _ mem_cons_self).calls
    rw [hcalls] at hsame
    exact absurd hsame (by decide)

end AgentRouter.AnthropicParser
