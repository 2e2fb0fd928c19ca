import AgentRouter.Translator.Completion

/-!
# Gemini: Gemini candidates as OpenAI choices

A response of Gemini has candidates, each with a list of parts: texts, thoughts and function
calls.  `geminiCandidatesToOpenAIChoices` converts the candidates of a whole response;
`geminiCandidatesToOpenAIStreamingChoices` converts those of one chunk of a stream, and the
translator carries the number of the next tool call and whether there has been one from chunk to
chunk, for all candidates together.

Candidates, contents and parts are pointers that may be nil.  The ids of tool calls are random:
`ids` is where they come from.
-/

namespace AgentRouter.Gemini

open Completion Metrics OpenAIStream List

/-! ## Responses -/

/-- `geminiResponseMode`. -/
inductive ResponseMode where
  | none | text | json | enum | regex

/-- `genai.FinishReason`, those that are not empty. -/
inductive Reason where
  | stop | maxTokens
  | safety | blocklist | prohibitedContent | spii | imageSafety | imageProhibitedContent
  | recitation | imageRecitation
  | malformedFunctionCall | unexpectedToolCall | language | noImage
  | other (name : String)
  deriving DecidableEq

/-- `ι` is the type of JSON objects. -/
structure FunctionCall (ι : Type) where
  name : String
  args : ι
  deriving DecidableEq

structure Part (ι : Type) where
  text : String
  thought : Bool
  functionCall : Option (FunctionCall ι)
  thoughtSignature : Option Bytes
  deriving DecidableEq

structure Candidate (ι : Type) where
  /-- The parts of the content, if there is one. -/
  content : Option (List (Option (Part ι)))
  finishReason : Option Reason
  deriving DecidableEq

structure UsageMetadata where
  promptTokenCount : Int
  candidatesTokenCount : Int
  totalTokenCount : Int
  cachedContentTokenCount : Int
  thoughtsTokenCount : Int
  deriving DecidableEq

/-- `genai.GenerateContentResponse`, a whole response or a chunk of a stream. -/
structure GenerateContentResponse (ι : Type) where
  responseID : String
  candidates : List (Option (Candidate ι))
  usageMetadata : Option UsageMetadata
  deriving DecidableEq

/-! ## Parts -/

/-- `base64.StdEncoding.EncodeToString`. -/
def encodeToString (data : Bytes) : String :=
  String.ofList ((Base64.encode data).map fun b => Char.ofNat b.toNat)

/-- The quotes around a text that matches an expression and the space around a choice are not
part of the answer. -/
def answerText (mode : ResponseMode) (text : String) : String :=
  match mode with
  | .regex => Text.trimSuffix (Text.trimPrefix text "\"") "\""
  | .enum => Text.trimSpace text
  | _ => text

variable {ι : Type}

def Part.thoughtText (part : Part ι) : String := if part.thought then part.text else ""

def Part.answer (mode : ResponseMode) (part : Part ι) : String :=
  if part.thought then "" else answerText mode part.text

/-- Only texts that are not thoughts have a signature that is used. -/
def Part.signature (part : Part ι) : String :=
  if part.thought then "" else (part.thoughtSignature.map encodeToString).getD ""

/-- The parts that are there and have a text. -/
def textParts (parts : List (Option (Part ι))) : List (Part ι) :=
  (parts.filterMap id).filter fun part => part.text ≠ ""

/-- The thoughts, the answer and the signatures. -/
def extractTextAndThoughtSummaryFromGeminiParts (parts : List (Option (Part ι)))
    (mode : ResponseMode) : String × String × String :=
  (String.join ((textParts parts).map Part.thoughtText),
    String.join ((textParts parts).map (Part.answer mode)),
    String.join ((textParts parts).map Part.signature))

/-- The parts with a function call, and the call. -/
def callParts (parts : List (Option (Part ι))) : List (Part ι × FunctionCall ι) :=
  (parts.filterMap id).filterMap fun part => part.functionCall.map fun call => (part, call)

/-- The first signature that is not empty. -/
def callSignature (calls : List (Part ι × FunctionCall ι)) : String :=
  ((calls.filterMap fun c => c.1.thoughtSignature.map encodeToString).find? fun s => s ≠ "").getD ""

variable (marshal : ι → String) (ids : Nat → String)

/-- The tool calls of a whole response, with ids from `ids`. -/
def extractToolCallsFromGeminiParts (parts : List (Option (Part ι))) : List ToolCall × String :=
  ((callParts parts).mapIdx fun k c => ⟨some (ids k), c.2.name, marshal c.2.args⟩,
    callSignature (callParts parts))

/-- The tool calls of a chunk, numbered from `toolCallIndex`. -/
def extractToolCallsFromGeminiPartsStream (toolCallIndex : Nat) (parts : List (Option (Part ι))) :
    List ToolCallDelta × String :=
  ((callParts parts).mapIdx fun k c =>
      ⟨(toolCallIndex + k : Nat), some (ids (toolCallIndex + k)), c.2.name, marshal c.2.args⟩,
    callSignature (callParts parts))

/-- `geminiFinishReasonToOpenAI`; a candidate without a finish reason has none. -/
def geminiFinishReasonToOpenAI (hasToolCalls : Bool) : Option Reason → Option FinishReason
  | none => none
  | some .stop => some (if hasToolCalls then .toolCalls else .stop)
  | some .maxTokens => some .length
  | some .safety | some .blocklist | some .prohibitedContent | some .spii | some .imageSafety
  | some .imageProhibitedContent => some .contentFilter
  | some .recitation | some .imageRecitation => some (.other "recitation")
  | some .malformedFunctionCall => some (.other "malformed_function_call")
  | some .unexpectedToolCall => some (.other "unexpected_tool_call")
  | some .language => some (.other "language")
  | some .noImage => some (.other "no_image")
  | some (.other _) => some (.other "error")

/-! ## Whole responses -/

def optionalText (s : String) : Option String := if s = "" then none else some s

/-- The signature of the tool calls goes before the one of the texts. -/
def messageThinkingBlocks (thought signature toolCallSignature : String) : List ThinkingBlock :=
  if toolCallSignature ≠ "" then
    if signature ≠ "" then [⟨.thinking, thought, toolCallSignature, ""⟩]
    else [⟨.thinking, "", toolCallSignature, ""⟩]
  else if signature ≠ "" then [⟨.thinking, thought, signature, ""⟩]
  else []

def candidateMessage (mode : ResponseMode) : Option (List (Option (Part ι))) → ResponseMessage
  | none => ⟨⟨none, [], none, []⟩, ""⟩
  | some parts =>
    let extracted := extractTextAndThoughtSummaryFromGeminiParts parts mode
    let calls := extractToolCallsFromGeminiParts marshal ids parts
    { role := "assistant"
      content := optionalText extracted.2.1
      toolCalls := calls.1
      reasoningContent := (optionalText extracted.1).map .text
      thinkingBlocks := messageThinkingBlocks extracted.1 extracted.2.2 calls.2 }

def candidateChoice (mode : ResponseMode) (index : Nat) (candidate : Candidate ι) :
    CompletionChoice :=
  let message := candidateMessage marshal ids mode candidate.content
  { index := index
    message := message
    finishReason :=
      geminiFinishReasonToOpenAI (decide (message.toolCalls ≠ [])) candidate.finishReason }

/-- The choices for the candidates at the positions from `index` on. -/
def choicesFrom (mode : ResponseMode) (index : Nat) :
    List (Option (Candidate ι)) → List CompletionChoice
  | [] => []
  | none :: candidates => choicesFrom mode (index + 1) candidates
  | some candidate :: candidates =>
    candidateChoice marshal ids mode index candidate :: choicesFrom mode (index + 1) candidates

def geminiCandidatesToOpenAIChoices (mode : ResponseMode)
    (candidates : List (Option (Candidate ι))) : List CompletionChoice :=
  choicesFrom marshal ids mode 0 candidates

/-! ## Chunks -/

/-- What the translator carries from chunk to chunk. -/
structure ToolState where
  toolCallIndex : Nat
  streamedToolCall : Bool

def streamThinkingBlocks (thought signature toolCallSignature : String) : List ThinkingBlock :=
  let signature := if toolCallSignature ≠ "" then toolCallSignature else signature
  if signature ≠ "" then [⟨.thinking, thought, signature, ""⟩] else []

def candidateDelta (mode : ResponseMode) (toolCallIndex : Nat) :
    Option (List (Option (Part ι))) → Delta
  | none => .empty
  | some parts =>
    let extracted := extractTextAndThoughtSummaryFromGeminiParts parts mode
    let calls := extractToolCallsFromGeminiPartsStream marshal ids toolCallIndex parts
    { role := "assistant"
      content := optionalText extracted.2.1
      reasoningContent := (optionalText extracted.1).map fun text => ⟨text, "", ""⟩
      thinkingBlocks := streamThinkingBlocks extracted.1 extracted.2.2 calls.2
      toolCalls := calls.1 }

/-- A stop after a tool call of the stream, whichever candidate it was for, is a tool call too. -/
def streamFinishReason (streamedToolCall : Bool) (finishReason : Option FinishReason) :
    Option FinishReason :=
  if finishReason = some .stop ∧ streamedToolCall = true then some .toolCalls else finishReason

def streamingChoice (mode : ResponseMode) (s : ToolState) (index : Nat) (candidate : Candidate ι) :
    ToolState × Choice :=
  let delta := candidateDelta marshal ids mode s.toolCallIndex candidate.content
  let s := { toolCallIndex := s.toolCallIndex + delta.toolCalls.length
             streamedToolCall := s.streamedToolCall || decide (delta.toolCalls ≠ []) : ToolState }
  (s, { index := index
        delta := delta
        finishReason := streamFinishReason s.streamedToolCall
          (geminiFinishReasonToOpenAI (decide (delta.toolCalls ≠ [])) candidate.finishReason) })

/-- The choices for the candidates at the positions from `index` on. -/
def streamingChoicesFrom (mode : ResponseMode) (s : ToolState) (index : Nat) :
    List (Option (Candidate ι)) → ToolState × List Choice
  | [] => (s, [])
  | none :: candidates => streamingChoicesFrom mode s (index + 1) candidates
  | some candidate :: candidates =>
    let first := streamingChoice marshal ids mode s index candidate
    let rest := streamingChoicesFrom mode first.1 (index + 1) candidates
    (rest.1, first.2 :: rest.2)

def geminiCandidatesToOpenAIStreamingChoices (mode : ResponseMode) (s : ToolState)
    (candidates : List (Option (Candidate ι))) : ToolState × List Choice :=
  streamingChoicesFrom marshal ids mode s 0 candidates

def geminiUsageToOpenAIUsage (m : UsageMetadata) : UsageDetails :=
  { promptTokens := m.promptTokenCount
    completionTokens := m.candidatesTokenCount + m.thoughtsTokenCount
    totalTokens := m.totalTokenCount
    cachedTokens := m.cachedContentTokenCount
    cacheWriteTokens := 0
    reasoningTokens := m.thoughtsTokenCount }

variable (mode : ResponseMode) (requestModel : String)

def convertGCPChunkToOpenAI (s : ToolState) (chunk : GenerateContentResponse ι) :
    ToolState × CompletionChunk :=
  let r := geminiCandidatesToOpenAIStreamingChoices marshal ids mode s chunk.candidates
  (r.1, { id := chunk.responseID, model := requestModel, choices := r.2, usage := none })

/-- The usage gets a chunk of its own. -/
def usageChunk (chunk : GenerateContentResponse ι) : List Written :=
  match chunk.usageMetadata with
  | some m =>
    if 0 < m.promptTokenCount then
      [.chunk { id := chunk.responseID, model := requestModel, choices := [],
                usage := some (geminiUsageToOpenAIUsage m) }]
    else []
  | none => []

/-- The chunks of a stream one after the other. -/
def writeChunks : ToolState → List (GenerateContentResponse ι) → ToolState × List Written
  | s, [] => (s, [])
  | s, chunk :: chunks =>
    let r := convertGCPChunkToOpenAI marshal ids mode requestModel s chunk
    let rest := writeChunks r.1 chunks
    (rest.1, .chunk r.2 :: usageChunk requestModel chunk ++ rest.2)

/-! ## Lemmas -/

@[simp] theorem optionalText_getD (s : String) : (optionalText s).getD "" = s := by
  unfold optionalText
  split
  next h => rw [h]; rfl
  next => rfl

variable (ps qs : List (Option (Part ι)))

theorem textParts_append : textParts (ps ++ qs) = textParts ps ++ textParts qs := by
  unfold textParts
  rw [filterMap_append, filter_append]

theorem callParts_append : callParts (ps ++ qs) = callParts ps ++ callParts qs := by
  unfold callParts
  rw [filterMap_append, filterMap_append]

theorem writeChunks_append (s : ToolState) (chunks chunks' : List (GenerateContentResponse ι)) :
    writeChunks marshal ids mode requestModel s (chunks ++ chunks') =
      ((writeChunks marshal ids mode requestModel
          (writeChunks marshal ids mode requestModel s chunks).1 chunks').1,
        (writeChunks marshal ids mode requestModel s chunks).2 ++
          (writeChunks marshal ids mode requestModel
            (writeChunks marshal ids mode requestModel s chunks).1 chunks').2) := by
  induction chunks generalizing s with
  | nil => rfl
  | cons chunk chunks ih =>
    rw [cons_append, writeChunks, writeChunks]
    simp only [ih, cons_append, append_assoc]

end AgentRouter.Gemini
