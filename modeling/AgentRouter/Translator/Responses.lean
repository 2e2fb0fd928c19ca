import AgentRouter.Metrics.TokenUsage
import AgentRouter.Translator.SSE

/-!
# Responses: the streaming calls of the Responses API translator

`handleStreamingResponse` appends the bytes of a call to its buffer, takes the complete events off
it and looks at the documents in their data lines: `response.created` tells the model, and the three
events that end a response tell the usage.  A call reports the usage of its own events only; the
processor adds the reports up with `TokenUsage.Override`.

Each event is decoded once, in the call that brings its end, and the order of the events is all that
model and usage depend on:

    calls with the pieces ~ one call with all of them   (handleAll_same_as_one_call)
-/

namespace AgentRouter.Responses

open Metrics SSE List

/-! ## Algorithm -/

/-- `openai.ResponseUsage` with its details; all counts are `int64`. -/
structure ResponseUsage where
  inputTokens : Int
  outputTokens : Int
  totalTokens : Int
  cachedTokens : Int
  cacheWriteTokens : Int
  cacheCreationTokens : Int
  reasoningTokens : Int

/-- The greater of the counts in the new field and in the old one. -/
def ResponseUsage.cacheWriteTokensValue (u : ResponseUsage) : Int :=
  max u.cacheWriteTokens u.cacheCreationTokens

structure Response where
  model : String
  usage : Option ResponseUsage

/-- `openai.ResponseStreamEventUnion`; of the other events only the type is told. -/
inductive ResponseStreamEvent where
  | responseCreated (response : Response)
  | responseCompleted (response : Response)
  | responseIncomplete (response : Response)
  | responseFailed (response : Response)
  | other (type : String)

def setTokenUsageFromResponse (tokenUsage : TokenUsage) (resp : Response) : TokenUsage :=
  match resp.usage with
  | none => tokenUsage
  | some usage =>
    { inputTokens := some (uint32 usage.inputTokens)
      outputTokens := some (uint32 usage.outputTokens)
      totalTokens := some (uint32 usage.totalTokens)
      cachedInputTokens := some (uint32 usage.cachedTokens)
      cacheCreationInputTokens := some (uint32 usage.cacheWriteTokensValue)
      reasoningTokens := some (uint32 usage.reasoningTokens) }

@[ext] structure State where
  buffered : Bytes
  streamingResponseModel : String

def State.init : State := ⟨[], ""⟩

/-- What a call returns, and the events that it has recorded to the span. -/
structure Reply where
  recorded : List ResponseStreamEvent
  tokenUsage : TokenUsage
  responseModel : String

def noteModel (streamingResponseModel : String) : ResponseStreamEvent → String
  | .responseCreated response =>
    if response.model = "" then streamingResponseModel else response.model
  | _ => streamingResponseModel

def noteUsage (tokenUsage : TokenUsage) : ResponseStreamEvent → TokenUsage
  | .responseCompleted response => setTokenUsageFromResponse tokenUsage response
  | .responseIncomplete response => setTokenUsageFromResponse tokenUsage response
  | .responseFailed response => setTokenUsageFromResponse tokenUsage response
  | _ => tokenUsage

section

-- `json.Unmarshal` of the data of a line; a document that it refuses is skipped
variable (decode : Bytes → Option ResponseStreamEvent)

/-- The documents in the lines of an event. -/
def documents (event : Bytes) : List ResponseStreamEvent :=
  (lines event).filterMap fun line => (dataToDecode line).bind decode

def extractUsageFromBufferEvent (s : State) : State × List ResponseStreamEvent × TokenUsage :=
  let drained := Framing.drain nextSSEEvent s.buffered
  let recorded := drained.1.flatMap (documents decode)
  (⟨drained.2, recorded.foldl noteModel s.streamingResponseModel⟩, recorded,
    recorded.foldl noteUsage .zero)

/-- The model of the stream, or else that of the request. -/
def responseModel (requestModel : String) (s : State) : String :=
  if s.streamingResponseModel = "" then requestModel else s.streamingResponseModel

def handleStreamingResponse (requestModel : String) (s : State) (body : Bytes) : State × Reply :=
  let r := extractUsageFromBufferEvent decode { s with buffered := s.buffered ++ body }
  (r.1, ⟨r.2.1, r.2.2, responseModel requestModel r.1⟩)

def handleFrom (requestModel : String) : State → List Bytes → State × List Reply
  | s, [] => (s, [])
  | s, body :: bodies =>
    let r := handleStreamingResponse decode requestModel s body
    let rest := handleFrom requestModel r.1 bodies
    (rest.1, r.2 :: rest.2)

/-- The replies to all calls of a stream. -/
def handleAll (requestModel : String) (bodies : List Bytes) : List Reply :=
  (handleFrom decode requestModel .init bodies).2

end

/-- The usage that the processor has accumulated. -/
def accumulated (replies : List Reply) : TokenUsage :=
  replies.foldl (fun u r => u.override r.tokenUsage) .zero

/-! ## Lemmas -/

theorem setTokenUsageFromResponse_eq (u : TokenUsage) (resp : Response) :
    setTokenUsageFromResponse u resp = u.override (setTokenUsageFromResponse .zero resp) := by
  unfold setTokenUsageFromResponse
  cases resp.usage with
  | none => rfl
  | some usage => rfl

theorem noteUsage_eq (u : TokenUsage) (e : ResponseStreamEvent) :
    noteUsage u e = u.override (noteUsage .zero e) := by
  cases e with
  | responseCompleted response => exact setTokenUsageFromResponse_eq u response
  | responseIncomplete response => exact setTokenUsageFromResponse_eq u response
  | responseFailed response => exact setTokenUsageFromResponse_eq u response
  | responseCreated response => rfl
  | other type => rfl

variable (decode : Bytes → Option ResponseStreamEvent) (requestModel : String)

/-- The events that are complete in the bytes. -/
def eventsIn (bytes : Bytes) : List ResponseStreamEvent :=
  (Framing.drain nextSSEEvent bytes).1.flatMap (documents decode)

theorem foldl_handle (s : State) (replies : List Reply) (bodies : List Bytes) :
    bodies.foldl (fun (sr : State × List Reply) body =>
        let r := handleStreamingResponse decode requestModel sr.1 body
        (r.1, sr.2 ++ [r.2])) (s, replies) =
      ((handleFrom decode requestModel s bodies).1,
        replies ++ (handleFrom decode requestModel s bodies).2) := by
  induction bodies generalizing s replies with
  | nil => simp [handleFrom]
  | cons body bodies ih =>
    rw [foldl_cons, ih, append_assoc]
    rfl

/-- The calls decode the events of all their bytes, each once; model, usage and buffer follow. -/
theorem handleFrom_spec (s : State) (bodies : List Bytes) (u : TokenUsage)
    (hs : nextSSEEvent s.buffered = none) :
    let events := eventsIn decode (s.buffered ++ bodies.flatten)
    let r := handleFrom decode requestModel s bodies
    r.1 = ⟨(Framing.drain nextSSEEvent (s.buffered ++ bodies.flatten)).2,
        events.foldl noteModel s.streamingResponseModel⟩ ∧
      r.2.flatMap Reply.recorded = events ∧
      r.2.foldl (fun u r => u.override r.tokenUsage) u = events.foldl noteUsage u := by
  let call (sr : State × List Reply) (body : Bytes) : State × List Reply :=
    let r := handleStreamingResponse decode requestModel sr.1 body
    (r.1, sr.2 ++ [r.2])
  let noted (sr : State × List Reply) : String × List ResponseStreamEvent × TokenUsage :=
    (sr.1.streamingResponseModel, sr.2.flatMap Reply.recorded,
      sr.2.foldl (fun u r => u.override r.tokenUsage) u)
  let note (n : String × List ResponseStreamEvent × TokenUsage) (frames : List Bytes) :
      String × List ResponseStreamEvent × TokenUsage :=
    let events := frames.flatMap (documents decode)
    (events.foldl noteModel n.1, n.2.1 ++ events, events.foldl noteUsage n.2.2)
  have hnote (sr : State × List Reply) (body : Bytes) :
      noted (call sr body) =
        note (noted sr) (Framing.drain nextSSEEvent (sr.1.buffered ++ body)).1 := by
    simp only [noted, note, call, flatMap_append, foldl_append]
    rw [TokenUsage.foldl_override noteUsage_eq (sr.2.foldl (fun u r => u.override r.tokenUsage) u),
      flatMap_singleton]
    rfl
  have hnil (n : String × List ResponseStreamEvent × TokenUsage) : note n [] = n := by
    simp only [note, flatMap_nil, append_nil, foldl_nil]
  have happend (n : String × List ResponseStreamEvent × TokenUsage) (l l' : List Bytes) :
      note n (l ++ l') = note (note n l) l' := by
    simp only [note, flatMap_append, foldl_append, append_assoc]
  have hbuffered (sr : State × List Reply) (body : Bytes) : (call sr body).1.buffered =
      (Framing.drain nextSSEEvent (sr.1.buffered ++ body)).2 := rfl
  obtain ⟨hnoted, hbuffered⟩ := Framing.foldl_calls stable_nextSSEEvent hbuffered hnote hnil happend
    (s, []) hs bodies
  rw [foldl_handle, nil_append] at hnoted hbuffered
  obtain ⟨hmodel, hrest⟩ := Prod.mk.inj hnoted
  obtain ⟨hrecorded, husage⟩ := Prod.mk.inj hrest
  exact ⟨State.ext hbuffered hmodel, hrecorded, husage⟩

theorem getLast?_handleFrom (s : State) (bodies : List Bytes) (last : Bytes) :
    let r := handleFrom decode requestModel s (bodies ++ [last])
    r.2.getLast?.map Reply.responseModel = some (responseModel requestModel r.1) := by
  induction bodies generalizing s with
  | nil => rfl
  | cons body bodies ih =>
    obtain ⟨r, hr, hmodel⟩ := Option.map_eq_some_iff.mp
      (ih (handleStreamingResponse decode requestModel s body).1)
    have hlast : (handleFrom decode requestModel s ((body :: bodies) ++ [last])).2.getLast? = some r := by
      rw [cons_append, handleFrom, getLast?_cons]
      exact congrArg some (Option.getD_eq_iff.mpr (.inl hr))
    intro _
    rw [hlast, Option.map_some, hmodel]
    rfl

/-- The complete events are all that model and usage depend on. -/
theorem handleAll_same_of_events {bodies bodies' : List Bytes} {last last' : Bytes}
    (h : eventsIn decode (bodies ++ [last]).flatten = eventsIn decode (bodies' ++ [last']).flatten) :
    let one := handleAll decode requestModel (bodies ++ [last])
    let other := handleAll decode requestModel (bodies' ++ [last'])
    one.flatMap Reply.recorded = other.flatMap Reply.recorded ∧
      one.getLast?.map Reply.responseModel = other.getLast?.map Reply.responseModel ∧
      accumulated one = accumulated other := by
  have hnone : nextSSEEvent State.init.buffered = none := stable_nextSSEEvent.decode_nil
  obtain ⟨hstate, hrecorded, husage⟩ :=
    handleFrom_spec decode requestModel .init (bodies ++ [last]) .zero hnone
  obtain ⟨hstate', hrecorded', husage'⟩ :=
    handleFrom_spec decode requestModel .init (bodies' ++ [last']) .zero hnone
  simp only [State.init, nil_append, h] at hstate hrecorded husage hstate' hrecorded' husage'
  refine ⟨hrecorded.trans hrecorded'.symm, ?_, husage.trans husage'.symm⟩
  have hmodel := getLast?_handleFrom decode requestModel .init bodies last
  have hmodel' := getLast?_handleFrom decode requestModel .init bodies' last'
  have hsame := congrArg State.streamingResponseModel hstate
  rw [← congrArg State.streamingResponseModel hstate'] at hsame
  refine (hmodel.trans (congrArg some ?_)).trans hmodel'.symm
  unfold responseModel
  rw [show (handleFrom decode requestModel .init (bodies ++ [last])).1.streamingResponseModel =
    (handleFrom decode requestModel .init (bodies' ++ [last'])).1.streamingResponseModel from hsame]

/-! ## Top theorem -/

/-- Calls with the pieces of a stream and one call with all of it decode the same events and come to
the same model and the same usage. -/
theorem handleAll_same_as_one_call (pieces : List Bytes) (last : Bytes) :
    let cut := handleAll decode requestModel (pieces ++ [last])
    let whole := handleAll decode requestModel [pieces.flatten ++ last]
    cut.flatMap Reply.recorded = whole.flatMap Reply.recorded ∧
      cut.getLast?.map Reply.responseModel = whole.getLast?.map Reply.responseModel ∧
      accumulated cut = accumulated whole := by
  have hflatten : (pieces ++ [last]).flatten = ([] ++ [pieces.flatten ++ last]).flatten := by simp
  exact handleAll_same_of_events decode requestModel
    (congrArg (eventsIn decode) hflatten)

end AgentRouter.Responses
