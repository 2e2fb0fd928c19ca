import AgentRouter.Lib.GoMap
import AgentRouter.Metrics.TokenUsage
import AgentRouter.Translator.AnthropicStream
import AgentRouter.Translator.SSE

/-!
# OpenAIStream: OpenAI chunks as Anthropic events

`openAIStreamToAnthropicState` reads the chunks of an OpenAI stream and writes Anthropic events.
The state knows that some block is open and whether it is a thinking block, and the block each
tool call was opened in, but not whether the open block is a text or a tool block.

The bytes of the stream are cut into events at blank lines, and what is left over waits for the
next piece, so the way the stream is cut into pieces does not matter:

    translateBytes decode m pieces last
      = translate m (chunksOf decode (pieces.flatten ++ last))   (translateBytes_eq)

JSON decoding is a parameter; encoding an event cannot fail.
-/

namespace AgentRouter.OpenAIStream

open AnthropicStream Metrics SSE List Framing

/-! ## Chunks -/

structure ToolCallDelta where
  index : Int
  id : Option String
  name : String
  arguments : String
  deriving DecidableEq

/-- `StreamReasoningContent`. -/
structure StreamReasoningContent where
  text : String
  signature : String
  redactedContent : String
  deriving DecidableEq

inductive ThinkingType where
  | thinking | redactedThinking
  | other (name : String)
  deriving DecidableEq

structure ThinkingBlock where
  type : ThinkingType
  thinking : String
  signature : String
  data : String
  deriving DecidableEq

structure ChoiceDelta where
  content : Option String
  reasoningContent : Option StreamReasoningContent
  thinkingBlocks : List ThinkingBlock
  toolCalls : List ToolCallDelta
  deriving DecidableEq

/-- The finish reasons that are not empty. -/
inductive FinishReason where
  | stop | length | toolCalls | contentFilter
  | other (name : String)
  deriving DecidableEq

structure ChunkChoice where
  delta : Option ChoiceDelta
  finishReason : Option FinishReason
  deriving DecidableEq

structure Usage where
  promptTokens : Int
  completionTokens : Int
  deriving DecidableEq

/-- `ChatCompletionResponseChunk`. -/
structure Chunk where
  id : String
  model : String
  choices : List ChunkChoice
  usage : Option Usage
  deriving DecidableEq

/-! ## The state -/

structure StreamToolCall where
  blockIdx : Nat
  id : String
  name : String

/-- `openAIStreamToAnthropicState` with what it has written so far. -/
structure State where
  messageStarted : Bool
  hasOpenBlock : Bool
  hasThinkingBlock : Bool
  closingEmitted : Bool
  messageID : String
  model : String
  stopReason : Option StopReason
  inputTokens : Int
  outputTokens : Int
  tokenUsage : TokenUsage
  blockIndex : Nat
  activeTools : GoMap Int StreamToolCall
  requestModel : String
  out : List Event

def State.init (requestModel : String) : State :=
  { messageStarted := false, hasOpenBlock := false, hasThinkingBlock := false,
    closingEmitted := false, messageID := "", model := "", stopReason := none, inputTokens := 0,
    outputTokens := 0, tokenUsage := .zero, blockIndex := 0, activeTools := ∅,
    requestModel := requestModel, out := [] }

def openAIFinishReasonToAnthropic : Option FinishReason → StopReason
  | some .stop => .endTurn
  | some .length => .maxTokens
  | some .toolCalls => .toolUse
  | some .contentFilter => .refusal
  | _ => .endTurn

def emit (e : Event) (s : State) : State := { s with out := s.out ++ [e] }

def emitMessageStart (s : State) : State :=
  emit (.messageStart { id := s.messageID, role := "assistant",
                        model := if s.model = "" then s.requestModel else s.model,
                        inputTokens := 0, outputTokens := 0 })
    { s with messageStarted := true }

def emitTextBlockStart (s : State) : State :=
  emit (.contentBlockStart s.blockIndex .text) { s with hasOpenBlock := true }

def emitThinkingBlockStart (s : State) : State :=
  emit (.contentBlockStart s.blockIndex .thinking)
    { s with hasOpenBlock := true, hasThinkingBlock := true }

def emitDelta (d : Delta) (s : State) : State := emit (.contentBlockDelta s.blockIndex d) s

def emitContentBlockStop (s : State) : State := emit (.contentBlockStop s.blockIndex) s

def closeThinkingBlock (s : State) : State :=
  let s := emitContentBlockStop s
  { s with hasOpenBlock := false, hasThinkingBlock := false, blockIndex := s.blockIndex + 1 }

/-- Closes a block that is open but no thinking block. -/
def closeOtherBlock (s : State) : State :=
  if s.hasThinkingBlock = false ∧ s.hasOpenBlock = true then
    let s := emitContentBlockStop s
    { s with hasOpenBlock := false, blockIndex := s.blockIndex + 1 }
  else s

def handleReasoningDelta (s : State) (text signature : String) : State :=
  if text = "" ∧ signature = "" then s
  else
    let s := closeOtherBlock s
    let s := if s.hasThinkingBlock then s else emitThinkingBlockStart s
    let s := if text = "" then s else emitDelta (.thinking text) s
    if signature = "" then s else emitDelta (.signature signature) s

def handleTextDelta (s : State) (text : String) : State :=
  if text = "" then s
  else
    let s := if s.hasThinkingBlock then closeThinkingBlock s else s
    let s := if s.hasOpenBlock then s else emitTextBlockStart s
    emitDelta (.text text) s

/-- A new tool call closes whatever block is open. -/
def openToolBlock (s : State) (tc : ToolCallDelta) : State :=
  let s := if s.hasOpenBlock then
      let s := emitContentBlockStop s
      { s with hasThinkingBlock := false, blockIndex := s.blockIndex + 1 }
    else s
  emit (.contentBlockStart s.blockIndex (.toolUse (tc.id.getD "") tc.name))
    { s with
      activeTools := s.activeTools.insert tc.index ⟨s.blockIndex, tc.id.getD "", tc.name⟩
      hasOpenBlock := true }

/-- The arguments go to the block of the tool call, open or not. -/
def emitArguments (blockIdx : Nat) (arguments : String) (s : State) : State :=
  if arguments = "" then s else emit (.contentBlockDelta blockIdx (.inputJSON arguments)) s

def handleToolCallDelta (s : State) (tc : ToolCallDelta) : State :=
  match s.activeTools.lookup tc.index with
  | some tool => emitArguments tool.blockIdx tc.arguments s
  | none =>
    let s := openToolBlock s tc
    emitArguments s.blockIndex tc.arguments s

def emitClosingEvents (s : State) : State :=
  if s.closingEmitted then s
  else
    let s := { s with closingEmitted := true }
    let s := if s.hasOpenBlock then { emitContentBlockStop s with hasOpenBlock := false } else s
    emit .messageStop
      (emit (.messageDelta (s.stopReason.getD .endTurn) (some s.inputTokens) s.outputTokens) s)

/-- The closing events are written at the end of the stream, unless they have been. -/
def finished (s : State) : State := if s.closingEmitted then s else emitClosingEvents s

/-! ## Chunks and buffers -/

def handleDelta (s : State) (delta : ChoiceDelta) : State :=
  let s := match delta.reasoningContent with
    | none => s
    | some rc => handleReasoningDelta s rc.text rc.signature
  let s := delta.thinkingBlocks.foldl (fun s tb => handleReasoningDelta s tb.thinking tb.signature) s
  let s := match delta.content with
    | none => s
    | some text => handleTextDelta s text
  delta.toolCalls.foldl handleToolCallDelta s

/-- The message starts with the first delta, whatever is in it. -/
def handleChoiceDelta (s : State) : Option ChoiceDelta → State
  | none => s
  | some delta => handleDelta (if s.messageStarted then s else emitMessageStart s) delta

def noteFinishReason (s : State) : Option FinishReason → State
  | none => s
  | some r => { s with stopReason := some (openAIFinishReasonToAnthropic (some r)) }

def handleChoice (s : State) (choice : ChunkChoice) : State :=
  noteFinishReason (handleChoiceDelta s choice.delta) choice.finishReason

/-- The id and the model of the first chunk that has one. -/
def noteIdentity (s : State) (chunk : Chunk) : State :=
  { s with
    messageID := if chunk.id ≠ "" ∧ s.messageID = "" then chunk.id else s.messageID
    model := if chunk.model ≠ "" ∧ s.model = "" then chunk.model else s.model }

def handleChunk (s : State) (chunk : Chunk) : State :=
  let s := noteIdentity s chunk
  match chunk.choices with
  | choice :: _ => handleChoice s choice
  | [] =>
    match chunk.usage with
    | none => s
    | some usage =>
      emitClosingEvents
        { s with
          inputTokens := usage.promptTokens
          outputTokens := usage.completionTokens
          tokenUsage := extractTokenUsageFromExplicitCaching usage.promptTokens
            usage.completionTokens (some 0) (some 0) }

/-- The data of an event: the last data line that is not blank. -/
def eventData (block : Bytes) : Bytes :=
  (lines block).foldl (fun data line =>
    match cutSSEDataPrefix line with
    | none => data
    | some after => if trimSpace after = [] then data else trimSpace after) []

/-- The chunk in an event; malformed chunks are skipped. -/
def chunkOf (decode : Bytes → Option Chunk) (block : Bytes) : Option Chunk :=
  if eventData block = [] then none
  else if eventData block = sseDoneMessage then none
  else decode (eventData block)

def processEventBlock (decode : Bytes → Option Chunk) (s : State) (block : Bytes) : State :=
  match chunkOf decode block with
  | none => s
  | some chunk => handleChunk s chunk

/-- The state and the buffer after a call. -/
def processBuffer (decode : Bytes → Option Chunk) (s : State) (buffer : Bytes) (endOfStream : Bool) :
    State × Bytes :=
  let blocks := Framing.drain (Cut.cut blankLine) buffer
  let s := blocks.1.foldl (processEventBlock decode) s
  if endOfStream = false then (s, blocks.2)
  else
    let s := if blocks.2 = [] then s else processEventBlock decode s blocks.2
    (finished s, [])

/-- The calls before the last one. -/
def processPieces (decode : Bytes → Option Chunk) : State × Bytes → List Bytes → State × Bytes
  | sb, [] => sb
  | (s, buffer), p :: ps => processPieces decode (processBuffer decode s (buffer ++ p) false) ps

/-- What is written for a stream that comes in pieces, the last of them at the end of the stream. -/
def translateBytes (decode : Bytes → Option Chunk) (requestModel : String) (pieces : List Bytes)
    (last : Bytes) : List Event :=
  let sb := processPieces decode (State.init requestModel, []) pieces
  (processBuffer decode sb.1 (sb.2 ++ last) true).1.out

/-- The state after the last call. -/
def finalState (decode : Bytes → Option Chunk) (sb : State × Bytes) (pieces : List Bytes)
    (last : Bytes) : State :=
  let sb := processPieces decode sb pieces
  (processBuffer decode sb.1 (sb.2 ++ last) true).1

/-- What is written for a sequence of chunks. -/
def translate (requestModel : String) (chunks : List Chunk) : List Event :=
  (finished (chunks.foldl handleChunk (State.init requestModel))).out

/-- The chunks in a stream. -/
def chunksOf (decode : Bytes → Option Chunk) (bytes : Bytes) : List Chunk :=
  let blocks := Framing.drain (Cut.cut blankLine) bytes
  (blocks.1 ++ if blocks.2 = [] then [] else [blocks.2]).filterMap (chunkOf decode)

/-! ## Bytes -/

variable {decode : Bytes → Option Chunk}

theorem foldl_processEventBlock (s : State) (blocks : List Bytes) :
    blocks.foldl (processEventBlock decode) s = (blocks.filterMap (chunkOf decode)).foldl handleChunk s := by
  rw [foldl_filterMap]
  refine foldl_ext _ _ _ fun s b _ => ?_
  rw [processEventBlock]
  cases chunkOf decode b with
  | none | some c => rfl

theorem processPieces_eq (s : State) (buffer : Bytes) (pieces : List Bytes)
    (hbuffer : Cut.cut blankLine buffer = none) :
    processPieces decode (s, buffer) pieces =
      ((Framing.drain (Cut.cut blankLine) (buffer ++ pieces.flatten)).1.foldl
          (processEventBlock decode) s,
        (Framing.drain (Cut.cut blankLine) (buffer ++ pieces.flatten)).2) := by
  have hstable : Framing.Stable (Cut.cut blankLine) := stable_cut (by decide)
  induction pieces generalizing s buffer with
  | nil =>
    rw [flatten_nil, append_nil, drain_of_none hbuffer]
    rfl
  | cons p ps ih =>
    rw [processPieces, processBuffer, if_pos rfl,
      ih _ _ (decode_drain_snd hstable _), flatten_cons, ← append_assoc,
      drain_append hstable (buffer ++ p), foldl_append]

/-- The state is a function of the chunks in the bytes that have come. -/
theorem finalState_eq (requestModel : String) (pieces : List Bytes) (last : Bytes) :
    finalState decode (State.init requestModel, []) pieces last =
      finished ((chunksOf decode (pieces.flatten ++ last)).foldl handleChunk (State.init requestModel)) := by
  have hstable : Framing.Stable (Cut.cut blankLine) := stable_cut (by decide)
  unfold finalState chunksOf
  rw [processPieces_eq _ _ _ hstable.decode_nil, nil_append]
  simp only [processBuffer, Bool.true_eq_false, if_false]
  rw [drain_append hstable pieces.flatten last, ← foldl_processEventBlock, foldl_append, foldl_append]
  split
  · rfl
  · rfl

/-- The way a stream is cut into pieces does not matter. -/
theorem translateBytes_eq (requestModel : String) (pieces : List Bytes) (last : Bytes) :
    translateBytes decode requestModel pieces last =
      translate requestModel (chunksOf decode (pieces.flatten ++ last)) :=
  congrArg State.out (finalState_eq requestModel pieces last)

end AgentRouter.OpenAIStream
