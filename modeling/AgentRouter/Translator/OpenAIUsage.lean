import AgentRouter.Metrics.TokenUsage
import AgentRouter.Translator.SSE

/-!
# OpenAIUsage: the usage of a chat completion that is passed through

The chunks of an OpenAI backend go to the client as they are.  `extractUsageFromBufferEvent` looks at
the complete lines of the stream in passing: a chunk may tell the model, and some of the token counts.
The counts of one call are merged by setting them, those of the calls by `TokenUsage.Override`; both
keep the last count of each kind:

    calls with the pieces of a stream ~ one call with all of it   (stream_same_as_one_call)
-/

namespace AgentRouter.OpenAIUsage

open Metrics SSE List Framing

/-! ## Algorithm -/

structure PromptTokensDetails where
  cachedTokens : Int
  cacheWriteTokens : Int
  cacheCreationTokens : Int

def PromptTokensDetails.cacheWriteTokensValue (p : PromptTokensDetails) : Int :=
  max p.cacheWriteTokens p.cacheCreationTokens

structure Usage where
  promptTokens : Int
  completionTokens : Int
  totalTokens : Int
  promptTokensDetails : Option PromptTokensDetails
  /-- the reasoning tokens of the details. -/
  completionTokensDetails : Option Int

structure Chunk where
  model : String
  usage : Option Usage

def noteModel (streamingResponseModel : String) (event : Chunk) : String :=
  if event.model = "" then streamingResponseModel else event.model

def noteUsage (tokenUsage : TokenUsage) (event : Chunk) : TokenUsage :=
  match event.usage with
  | none => tokenUsage
  | some usage =>
    { inputTokens := some (uint32 usage.promptTokens)
      outputTokens := some (uint32 usage.completionTokens)
      totalTokens := some (uint32 usage.totalTokens)
      cachedInputTokens :=
        (usage.promptTokensDetails.map (uint32 ·.cachedTokens)).or tokenUsage.cachedInputTokens
      cacheCreationInputTokens :=
        (usage.promptTokensDetails.map (uint32 ·.cacheWriteTokensValue)).or
          tokenUsage.cacheCreationInputTokens
      reasoningTokens := (usage.completionTokensDetails.map uint32).or tokenUsage.reasoningTokens }

structure State where
  buffered : Bytes
  streamingResponseModel : String

-- `json.Unmarshal` of the data of a line; a document that it refuses is skipped
variable (decode : Bytes → Option Chunk) (requestModel : String)

/-- The chunks in the complete lines of some bytes. -/
def eventsIn (bytes : Bytes) : List Chunk :=
  (Framing.drain (Cut.cut [lineFeed]) bytes).1.filterMap fun line =>
    (cutSSEDataPrefix line).bind decode

def extractUsageFromBufferEvent (o : State) : State × TokenUsage :=
  let events := eventsIn decode o.buffered
  (⟨(Framing.drain (Cut.cut [lineFeed]) o.buffered).2,
    events.foldl noteModel o.streamingResponseModel⟩, events.foldl noteUsage .zero)

def responseBody (o : State) (body : Bytes) : State × TokenUsage × String :=
  let r := extractUsageFromBufferEvent decode { o with buffered := o.buffered ++ body }
  (r.1, r.2, if r.1.streamingResponseModel = "" then requestModel else r.1.streamingResponseModel)

/-- The translator, and what the processor has of its calls. -/
structure Stream where
  translator : State
  costs : TokenUsage
  responseModel : String

/-- `ProcessResponseBody` for one piece of the response. -/
def Stream.call (s : Stream) (body : Bytes) : Stream :=
  let r := responseBody decode requestModel s.translator body
  ⟨r.1, s.costs.override r.2.1, r.2.2⟩

def stream (bodies : List Bytes) : Stream :=
  bodies.foldl (Stream.call decode requestModel) ⟨⟨[], ""⟩, .zero, ""⟩

/-! ## Lemmas -/

theorem noteUsage_eq (u : TokenUsage) (event : Chunk) :
    noteUsage u event = u.override (noteUsage .zero event) := by
  unfold noteUsage
  cases event.usage with
  | none => rfl
  | some usage => simp [TokenUsage.override, TokenUsage.zero]

theorem foldl_call (s : Stream) (hs : Cut.cut [lineFeed] s.translator.buffered = none) (bodies : List Bytes) :
    let t := bodies.foldl (Stream.call decode requestModel) s
    let events := eventsIn decode (s.translator.buffered ++ bodies.flatten)
    t.translator.streamingResponseModel = events.foldl noteModel s.translator.streamingResponseModel ∧
      t.costs = events.foldl noteUsage s.costs := by
  let events (lines : List Bytes) := lines.filterMap fun line => (cutSSEDataPrefix line).bind decode
  let note (noted : String × TokenUsage) (lines : List Bytes) : String × TokenUsage :=
    ((events lines).foldl noteModel noted.1, (events lines).foldl noteUsage noted.2)
  let noted (s : Stream) : String × TokenUsage := (s.translator.streamingResponseModel, s.costs)
  have hnote (s : Stream) (body : Bytes) : noted (s.call decode requestModel body) =
      note (noted s) (Framing.drain (Cut.cut [lineFeed]) (s.translator.buffered ++ body)).1 := by
    simp only [note, noted]
    rw [TokenUsage.foldl_override noteUsage_eq s.costs]
    rfl
  have happend (noted : String × TokenUsage) (l l' : List Bytes) :
      note noted (l ++ l') = note (note noted l) l' := by
    simp only [note, events, filterMap_append, foldl_append]
  let buffered (s : Stream) : Bytes := s.translator.buffered
  have hbuffered (s : Stream) (body : Bytes) : buffered (s.call decode requestModel body) =
      (Framing.drain (Cut.cut [lineFeed]) (buffered s ++ body)).2 := rfl
  have h := (foldl_calls (stable_cut (cons_ne_nil lineFeed [])) hbuffered hnote (fun _ => rfl)
    happend s hs bodies).1
  exact Prod.mk.inj h

/-! ## Top theorem -/

/-- Wherever the stream is cut, the costs and the response model are the same. -/
theorem stream_same_as_one_call (pieces : List Bytes) (last : Bytes) :
    let cut := stream decode requestModel (pieces ++ [last])
    let whole := stream decode requestModel [pieces.flatten ++ last]
    cut.costs = whole.costs ∧ cut.responseModel = whole.responseModel := by
  have hnil : Cut.cut [lineFeed] ([] : Bytes) = none := rfl
  obtain ⟨hmodel, hcosts⟩ := foldl_call decode requestModel ⟨⟨[], ""⟩, .zero, ""⟩ hnil (pieces ++ [last])
  obtain ⟨hmodel', hcosts'⟩ := foldl_call decode requestModel ⟨⟨[], ""⟩, .zero, ""⟩ hnil
    [pieces.flatten ++ last]
  have hbytes : (pieces ++ [last]).flatten = [pieces.flatten ++ last].flatten := by simp
  rw [hbytes] at hmodel hcosts
  refine ⟨hcosts.trans hcosts'.symm, ?_⟩
  have hsame := hmodel.trans hmodel'.symm
  simp only [stream, foldl_append, foldl_cons, foldl_nil] at hsame ⊢
  simp only [Stream.call, responseBody] at hsame ⊢
  rw [hsame]

end AgentRouter.OpenAIUsage
