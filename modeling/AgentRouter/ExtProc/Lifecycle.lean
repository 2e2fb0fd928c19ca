import AgentRouter.ExtProc.StreamDecoding
import AgentRouter.ExtProc.Upstream
import AgentRouter.Metrics.TokenUsage

/-!
# Lifecycle: the calls of one upstream attempt

`SetBackend`, `ProcessRequestHeaders`, `ProcessResponseHeaders`, and `ProcessResponseBody` for each
piece of the response; no call follows one that fails.  A failure and a local reply record the
completion of the request, and so does the last piece of a good response.  With a bad status each
piece does, so there the completion is recorded once only because such a response is not streamed:

    a response with a bad status comes in one piece
      → the completion is recorded at most once   (completion_recorded_at_most_once)

Spans and the metrics of tokens and latencies are left out.
-/

namespace AgentRouter.ExtProc

open Metrics Text AgentRouter.Translator List

/-! ## Algorithm -/

/-- An error of `ResponseBody`; `overloaded` if it is a `StreamOverloadedError`. -/
structure BodyError where
  text : String
  overloaded : Bool

/-- What `ResponseBody` returns; a body may come with an error. -/
structure BodyTranslation where
  newHeaders : List Header
  newBody : Option Bytes
  tokenUsage : TokenUsage
  responseModel : String
  err : Option BodyError

/-- The response side of a translator with its state. -/
structure ResponseTranslator (τ : Type) where
  init : τ
  responseHeaders : τ → Headers → Except String (List Header) × τ
  responseError : τ → Headers → ReadResult → Except String (List Header × Option Bytes) × τ
  responseBody : τ → Headers → ReadResult → Bool → BodyTranslation × τ

/-- All that an attempt depends on; `metadataError` is the error of building the dynamic metadata,
which without configured costs is not built. -/
structure Attempt (Req τ : Type) where
  splice : String → Json
  orders : RetryOrders
  request : ClientRequest Req
  backend : RuntimeBackend Req
  headers : Headers
  onRetry : Bool
  stream : Bool
  lib : Decompressors
  translator : ResponseTranslator τ
  metadataError : TokenUsage → String → Option String

structure AttemptState (τ : Type) where
  /-- the calls of `RecordRequestCompletion`, with `success`. -/
  completions : List Bool
  localReplyEmitted : Bool
  responseStreamTerminated : Bool
  responseHeaders : Headers
  decoder : StreamDecoder
  translator : τ
  costs : TokenUsage

structure Mutation where
  sets : List Header
  removes : List String
  body : Option Bytes
  streamed : Bool

inductive Answer where
  | backendSet
  | request (response : Response)
  | immediate (failure : Failure)
  /-- the response goes on as it is. -/
  | passThrough
  | mutation (m : Mutation)

def recordRequestCompletion {τ : Type} (success : Bool) (s : AttemptState τ) : AttemptState τ :=
  { s with completions := s.completions ++ [success] }

def mutationsFromTranslationResult (newHeaders : List Header) (newBody : Option Bytes)
    (isEncoded : Bool) : Mutation :=
  ⟨newHeaders, if newBody.isSome && isEncoded then ["content-encoding"] else [], newBody, false⟩

/-- What replaces a body behind a terminal error event. -/
def emptied : Mutation := mutationsFromTranslationResult [] (some []) false

def isGoodStatusCode (code : Int) : Bool := 200 ≤ code && code < 300

/-- A status that is no number counts as zero. -/
def goodStatus (headers : Headers) : Bool :=
  isGoodStatusCode ((atoi (headerValue headers ":status")).getD 0)

def IOError.text : IOError → String
  | .unexpectedEOF => "unexpected EOF"
  | .other text => text

def DecodeError.text : DecodeError → String
  | .gzip err => "failed to decode gzip: " ++ err.text
  | .decompress err => "failed to decompress streaming content: " ++ err.text
  | .sliceBounds => "slice bounds out of range"

namespace Attempt

variable {Req τ : Type} (a : Attempt Req τ)

def init : AttemptState τ :=
  { completions := [], localReplyEmitted := false, responseStreamTerminated := false,
    responseHeaders := ∅, decoder := ⟨"", [], 0⟩, translator := a.translator.init, costs := .zero }

/-- An endpoint that the backend does not support is answered in `processRequestHeaders`. -/
def setBackend (s : AttemptState τ) : Except String Answer × AttemptState τ :=
  match a.backend.translator with
  | .ok _ => (.ok .backendSet, s)
  | .error e =>
    if e.userFacing then (.ok .backendSet, s)
    else (.error ("failed to create translator for backend " ++ a.backend.backend.name ++ ": " ++
      e.message), recordRequestCompletion false s)

def processRequestHeaders (s : AttemptState τ) : Except String Answer × AttemptState τ :=
  match ExtProc.processRequestHeaders a.splice a.orders a.request a.backend a.headers a.onRetry with
  | .ok response => (.ok (.request response), s)
  | .error (.failed message) => (.error message, recordRequestCompletion false s)
  | .error failure =>
    (.ok (.immediate failure), { recordRequestCompletion false s with localReplyEmitted := true })

def processResponseHeaders (headers : Headers) (s : AttemptState τ) :
    Except String Answer × AttemptState τ :=
  if s.localReplyEmitted then (.ok .passThrough, s)
  else
    let enc := headerValue headers "content-encoding"
    let r := a.translator.responseHeaders s.translator headers
    let s := { s with
      responseHeaders := headers
      decoder := ⟨if enc = "" then s.decoder.responseEncoding else enc, [], 0⟩
      responseStreamTerminated := false
      translator := r.2 }
    match r.1 with
    | .error e =>
      (.error ("failed to transform response headers: " ++ e), recordRequestCompletion false s)
    | .ok newHeaders =>
      let streamed := a.stream && headerValue headers ":status" == "200"
      (.ok (.mutation ⟨newHeaders, if streamed then ["content-length"] else [], none, streamed⟩), s)

/-- The branch of a bad status; the deferred function records a failure in any case. -/
def processErrorBody (decoded : ContentDecodingResult) (s : AttemptState τ) :
    Except String Answer × AttemptState τ :=
  let r := a.translator.responseError s.translator s.responseHeaders decoded.reader
  let s := recordRequestCompletion false { s with translator := r.2 }
  match r.1 with
  | .error e => (.error ("failed to transform response error: " ++ e), s)
  | .ok (newHeaders, newBody) =>
    (.ok (.mutation (mutationsFromTranslationResult newHeaders newBody decoded.isEncoded)), s)

/-- The branch of a good status. -/
def processGoodBody (decoded : ContentDecodingResult) (endOfStream : Bool) (s : AttemptState τ) :
    Except String Answer × AttemptState τ :=
  let r := a.translator.responseBody s.translator s.responseHeaders decoded.reader endOfStream
  let s := { s with translator := r.2 }
  let answer := Answer.mutation
    (mutationsFromTranslationResult r.1.newHeaders r.1.newBody decoded.isEncoded)
  match r.1.err with
  | some err =>
    if a.stream && err.overloaded && r.1.newBody.getD [] ≠ [] then
      (.ok answer, recordRequestCompletion false { s with responseStreamTerminated := true })
    else (.error ("failed to transform response: " ++ err.text), recordRequestCompletion false s)
  | none =>
    let s := { s with costs := s.costs.override r.1.tokenUsage }
    match (if endOfStream || r.1.tokenUsage ≠ .zero then a.metadataError s.costs r.1.responseModel
        else none) with
    | some e =>
      (.error ("failed to build dynamic metadata: " ++ e), recordRequestCompletion false s)
    | none => (.ok answer, if endOfStream then recordRequestCompletion true s else s)

def processResponseBody (body : Bytes) (endOfStream : Bool) (s : AttemptState τ) :
    Except String Answer × AttemptState τ :=
  if s.localReplyEmitted then (.ok .passThrough, s)
  else if s.responseStreamTerminated then (.ok (.mutation emptied), s)
  else
    match decodeResponseBody a.lib a.stream s.decoder body endOfStream with
    -- a panic: the deferred function sees no error
    | .error .sliceBounds => (.error DecodeError.sliceBounds.text,
        if endOfStream then recordRequestCompletion true s else s)
    | .error e => (.error e.text, recordRequestCompletion false s)
    | .ok (decoded, decoder) =>
      let s := { s with decoder := decoder }
      if goodStatus s.responseHeaders then a.processGoodBody decoded endOfStream s
      else a.processErrorBody decoded s

inductive Call where
  | setBackend
  | requestHeaders
  | responseHeaders (headers : Headers)
  | responseBody (body : Bytes) (endOfStream : Bool)

def step (s : AttemptState τ) : Call → Except String Answer × AttemptState τ
  | .setBackend => a.setBackend s
  | .requestHeaders => a.processRequestHeaders s
  | .responseHeaders headers => a.processResponseHeaders headers s
  | .responseBody body endOfStream => a.processResponseBody body endOfStream s

/-- The answers to calls; none follows one that fails. -/
def run : AttemptState τ → List Call → List (Except String Answer) × AttemptState τ
  | s, [] => ([], s)
  | s, c :: cs =>
    match a.step s c with
    | (.error e, s') => ([.error e], s')
    | (.ok answer, s') => (.ok answer :: (run s' cs).1, (run s' cs).2)

/-- The response, with the pieces of its body and whether they end it. -/
def responseCalls (headers : Headers) (bodies : List (Bytes × Bool)) : List Call :=
  .responseHeaders headers :: bodies.map fun b => .responseBody b.1 b.2

def calls (headers : Headers) (bodies : List (Bytes × Bool)) : List Call :=
  .setBackend :: .requestHeaders :: responseCalls headers bodies

/-! ## Lemmas -/

variable {a} {s : AttemptState τ}

theorem run_cons {P : AttemptState τ → Prop} {c : Call} {cs : List Call}
    (h : ∀ answer s', a.step s c = (answer, s') →
      (∃ e, answer = .error e) ∧ P s' ∨ (∃ x, answer = .ok x) ∧ P (a.run s' cs).2) :
    P (a.run s (c :: cs)).2 := by
  rw [run]
  generalize a.step s c = r at h
  obtain ⟨answer, s'⟩ := r
  rcases h answer s' rfl with ⟨⟨e, rfl⟩, hs⟩ | ⟨⟨x, rfl⟩, hs⟩
  · exact hs
  · exact hs

theorem run_const (answer : Answer) {cs : List Call} (h : ∀ c ∈ cs, a.step s c = (.ok answer, s)) :
    a.run s cs = (List.replicate cs.length (.ok answer), s) := by
  induction cs with
  | nil => rfl
  | cons c cs ih =>
    obtain ⟨hc, hcs⟩ := forall_mem_cons.mp h
    simp only [run, hc, ih hcs]
    rfl

theorem run_of_localReply (h : s.localReplyEmitted = true) (headers : Headers)
    (bodies : List (Bytes × Bool)) :
    a.run s (responseCalls headers bodies) = (List.replicate (bodies.length + 1) (.ok .passThrough), s) := by
  rw [run_const .passThrough]
  · rw [responseCalls, length_cons, length_map]
  · exact forall_mem_cons.mpr ⟨if_pos h, forall_mem_map.mpr fun _ _ => if_pos h⟩

theorem run_of_terminated (hlocal : s.localReplyEmitted = false)
    (h : s.responseStreamTerminated = true) (bodies : List (Bytes × Bool)) :
    a.run s (bodies.map fun b => .responseBody b.1 b.2) =
      (List.replicate bodies.length (.ok (.mutation emptied)), s) := by
  rw [run_const (.mutation emptied), length_map]
  intro c hc
  obtain ⟨b, -, rfl⟩ := mem_map.mp hc
  simp only [step, processResponseBody, hlocal, h, if_true, Bool.false_eq_true, if_false]

/-- A piece leaves the completions alone, or it adds one and is the last piece for which it does. -/
structure Effect (s : AttemptState τ) (endOfStream : Bool)
    (r : Except String Answer × AttemptState τ) : Prop where
  emitted : r.2.localReplyEmitted = s.localReplyEmitted
  headers : r.2.responseHeaders = s.responseHeaders
  completions : (r.2.completions = s.completions ∧
      r.2.responseStreamTerminated = s.responseStreamTerminated) ∨
    (∃ success, r.2.completions = s.completions ++ [success]) ∧
      ((∃ e, r.1 = .error e) ∨ endOfStream = true ∨ goodStatus s.responseHeaders = false ∨
        r.2.responseStreamTerminated = true)

theorem effect_processGoodBody (decoded : ContentDecodingResult) (endOfStream : Bool)
    (s : AttemptState τ) : Effect s endOfStream (a.processGoodBody decoded endOfStream s) := by
  unfold processGoodBody
  dsimp only
  split
  · split
    · exact ⟨rfl, rfl, .inr ⟨⟨_, rfl⟩, .inr (.inr (.inr rfl))⟩⟩
    · exact ⟨rfl, rfl, .inr ⟨⟨_, rfl⟩, .inl ⟨_, rfl⟩⟩⟩
  · split
    · exact ⟨rfl, rfl, .inr ⟨⟨_, rfl⟩, .inl ⟨_, rfl⟩⟩⟩
    · cases endOfStream with
      | false => exact ⟨rfl, rfl, .inl ⟨rfl, rfl⟩⟩
      | true => exact ⟨rfl, rfl, .inr ⟨⟨_, rfl⟩, .inr (.inl rfl)⟩⟩

theorem effect_processResponseBody (body : Bytes) (endOfStream : Bool)
    (hlocal : s.localReplyEmitted = false) (hopen : s.responseStreamTerminated = false) :
    Effect s endOfStream (a.processResponseBody body endOfStream s) := by
  unfold processResponseBody
  rw [if_neg (by simp [hlocal]), if_neg (by simp [hopen])]
  split
  · cases endOfStream with
    | false => exact ⟨rfl, rfl, .inl ⟨rfl, rfl⟩⟩
    | true => exact ⟨rfl, rfl, .inr ⟨⟨_, rfl⟩, .inl ⟨_, rfl⟩⟩⟩
  · exact ⟨rfl, rfl, .inr ⟨⟨_, rfl⟩, .inl ⟨_, rfl⟩⟩⟩
  next decoded decoder _ =>
    dsimp only
    split
    · have heffect := effect_processGoodBody (a := a) decoded endOfStream { s with decoder := decoder }
      exact ⟨heffect.emitted, heffect.headers, heffect.completions⟩
    next hbad =>
      have hstatus : goodStatus s.responseHeaders = false := by simpa using hbad
      unfold processErrorBody
      dsimp only
      split
      · exact ⟨rfl, rfl, .inr ⟨⟨_, rfl⟩, .inl ⟨_, rfl⟩⟩⟩
      · exact ⟨rfl, rfl, .inr ⟨⟨_, rfl⟩, .inr (.inr (.inl hstatus))⟩⟩

variable {bodies : List (Bytes × Bool)}

/-- The pieces of a response, by induction: until one of them records the completion, the next one
finds the state as it was. -/
theorem length_completions_bodies (hempty : s.completions = [])
    (hlocal : s.localReplyEmitted = false) (hopen : s.responseStreamTerminated = false)
    (hends : ∀ b ∈ bodies.dropLast, b.2 = false)
    (hbad : goodStatus s.responseHeaders = false → bodies.length ≤ 1) :
    (a.run s (bodies.map fun b => .responseBody b.1 b.2)).2.completions.length ≤ 1 := by
  induction bodies generalizing s with
  | nil =>
    show s.completions.length ≤ 1
    simp [hempty]
  | cons b bodies ih =>
    refine run_cons (P := fun s => s.completions.length ≤ 1) fun answer s' hstep => ?_
    have heffect : Effect s b.2 (answer, s') :=
      hstep ▸ effect_processResponseBody (a := a) b.1 b.2 hlocal hopen
    have hone : s'.completions.length ≤ 1 := by
      rcases heffect.completions with ⟨hsame, -⟩ | ⟨⟨success, hadded⟩, -⟩
      · simp [show s'.completions = s.completions from hsame, hempty]
      · simp [show s'.completions = s.completions ++ [success] from hadded, hempty]
    cases answer with
    | error e => exact .inl ⟨⟨e, rfl⟩, hone⟩
    | ok answer =>
      refine .inr ⟨⟨answer, rfl⟩, ?_⟩
      have hlocal' : s'.localReplyEmitted = false := heffect.emitted.trans hlocal
      cases bodies with
      | nil => exact hone
      | cons b' bodies =>
        have hgood : goodStatus s.responseHeaders ≠ false := by
          intro hstatus
          have hlength := hbad hstatus
          simp at hlength
        rcases heffect.completions with ⟨hsame, hkept⟩ | ⟨-, ⟨e, he⟩ | hend | hstatus | hterminated⟩
        · refine ih (hsame.trans hempty) hlocal' (hkept.trans hopen) ?_ ?_
          · intro x hx
            exact hends x (mem_cons_of_mem b hx)
          · intro hstatus
            rw [show s'.responseHeaders = s.responseHeaders from heffect.headers] at hstatus
            exact absurd hstatus hgood
        · cases he
        · have hflag := hends b mem_cons_self
          rw [hend] at hflag
          cases hflag
        · exact absurd hstatus hgood
        · rw [run_of_terminated hlocal' hterminated]
          exact hone

theorem length_completions_response {headers : Headers} (hempty : s.completions = [])
    (hlocal : s.localReplyEmitted = false) (hends : ∀ b ∈ bodies.dropLast, b.2 = false)
    (hbad : goodStatus headers = false → bodies.length ≤ 1) :
    (a.run s (responseCalls headers bodies)).2.completions.length ≤ 1 := by
  refine run_cons (P := fun s => s.completions.length ≤ 1) fun answer s' hstep => ?_
  rw [step, processResponseHeaders, if_neg (by simp [hlocal])] at hstep
  dsimp only at hstep
  cases hnew : (a.translator.responseHeaders s.translator headers).1 with
  | error e =>
    rw [hnew] at hstep
    cases hstep
    exact .inl ⟨⟨_, rfl⟩, by simp [recordRequestCompletion, hempty]⟩
  | ok newHeaders =>
    rw [hnew] at hstep
    cases hstep
    exact .inr ⟨⟨_, rfl⟩, length_completions_bodies hempty hlocal rfl hends hbad⟩

theorem length_completions_request {headers : Headers} (hends : ∀ b ∈ bodies.dropLast, b.2 = false)
    (hbad : goodStatus headers = false → bodies.length ≤ 1) :
    (a.run a.init (.requestHeaders :: responseCalls headers bodies)).2.completions.length ≤ 1 := by
  refine run_cons (P := fun s => s.completions.length ≤ 1) fun answer s' hstep => ?_
  rw [step, processRequestHeaders] at hstep
  split at hstep
  · cases hstep
    exact .inr ⟨⟨_, rfl⟩, length_completions_response rfl rfl hends hbad⟩
  · cases hstep
    exact .inl ⟨⟨_, rfl⟩, Nat.le_refl 1⟩
  · cases hstep
    rw [run_of_localReply rfl]
    exact .inr ⟨⟨_, rfl⟩, Nat.le_refl 1⟩

/-- The translator ends the stream with an overload error on this piece. -/
def Overloads (a : Attempt Req τ) (s : AttemptState τ) (body : Bytes) (endOfStream : Bool) : Prop :=
  s.localReplyEmitted = false ∧ s.responseStreamTerminated = false ∧
    goodStatus s.responseHeaders = true ∧ a.stream = true ∧
    ∃ decoded decoder err newBody,
      decodeResponseBody a.lib a.stream s.decoder body endOfStream = .ok (decoded, decoder) ∧
      let r := a.translator.responseBody s.translator s.responseHeaders decoded.reader endOfStream
      r.1.err = some err ∧ err.overloaded = true ∧ r.1.newBody = some newBody ∧ newBody ≠ []

theorem terminated_of_overloads {body : Bytes} {endOfStream : Bool} (h : Overloads a s body endOfStream) :
    (a.processResponseBody body endOfStream s).2.localReplyEmitted = false ∧
      (a.processResponseBody body endOfStream s).2.responseStreamTerminated = true := by
  obtain ⟨hlocal, hopen, hgood, hstream, decoded, decoder, err, newBody, hdecode, herr, hover, hbody,
    hne⟩ := h
  unfold processResponseBody
  rw [if_neg (by simp [hlocal]), if_neg (by simp [hopen]), hdecode]
  dsimp only
  rw [if_pos hgood, processGoodBody]
  rw [herr]
  dsimp only
  rw [if_pos (by simp [hstream, hover, hbody, hne])]
  exact ⟨hlocal, rfl⟩

/-! ## Top theorem -/

/-- The completion is recorded at most once, if a response with a bad status comes in one piece;
after a local reply the response goes on as it is, and after an overload nothing of it does. -/
theorem completion_recorded_at_most_once (a : Attempt Req τ) (headers : Headers)
    (bodies : List (Bytes × Bool)) (hends : ∀ b ∈ bodies.dropLast, b.2 = false) :
    ((goodStatus headers = false → bodies.length ≤ 1) →
      (a.run a.init (calls headers bodies)).2.completions.length ≤ 1) ∧
    (∀ s failure, (a.processRequestHeaders s).1 = .ok (.immediate failure) →
      a.run (a.processRequestHeaders s).2 (responseCalls headers bodies) =
        (List.replicate (bodies.length + 1) (.ok .passThrough), (a.processRequestHeaders s).2)) ∧
    ∀ s body, Overloads a s body false →
      a.run (a.processResponseBody body false s).2 (bodies.map fun b => .responseBody b.1 b.2) =
        (List.replicate bodies.length (.ok (.mutation emptied)),
          (a.processResponseBody body false s).2) := by
  refine ⟨fun hbad => ?_, ?_, ?_⟩
  · refine run_cons (P := fun s => s.completions.length ≤ 1) fun answer s' hstep => ?_
    rw [step, setBackend] at hstep
    split at hstep
    · cases hstep
      exact .inr ⟨⟨_, rfl⟩, length_completions_request hends hbad⟩
    · split at hstep
      · cases hstep
        exact .inr ⟨⟨_, rfl⟩, length_completions_request hends hbad⟩
      · cases hstep
        exact .inl ⟨⟨_, rfl⟩, Nat.le_refl 1⟩
  · intro s failure h
    refine run_of_localReply ?_ headers bodies
    unfold processRequestHeaders at h ⊢
    split at h
    · cases h
    · cases h
    · rfl
  · intro s body h
    obtain ⟨hlocal, hterminated⟩ := terminated_of_overloads h
    exact run_of_terminated hlocal hterminated bodies

end Attempt

/-- A streamed request whose response is left as it is. -/
def plainAttempt : Attempt MessagesRequest Unit where
  splice := .str
  orders := storedOrders
  request := betaRequest ""
  backend := vertexBackend
  headers := (initial (betaRequest "")).headers
  onRetry := false
  stream := true
  lib := ⟨fun body => .ok ⟨body, none⟩, fun body => ⟨body, none⟩⟩
  translator := ⟨(), fun t _ => (.ok [], t), fun t _ _ => (.ok ([], none), t),
    fun t _ _ _ => (⟨[], none, .zero, "m", none⟩, t)⟩
  metadataError := fun _ _ => none

def statusHeaders (status : String) : Headers := GoMap.setEach ∅ [(":status", status)]

theorem good_response_recorded_once :
    (∀ b ∈ [(([123] : Bytes), false), ([125], true)].dropLast, b.2 = false) ∧
      (plainAttempt.run plainAttempt.init
        (Attempt.calls (statusHeaders "200") [([123], false), ([125], true)])).2.completions.length ≤ 1 :=
  ⟨by decide, (Attempt.completion_recorded_at_most_once plainAttempt (statusHeaders "200")
    [([123], false), ([125], true)] (by decide)).1 (by decide)⟩

/-- An error response in two pieces: its completion is recorded with each of them. -/
theorem error_in_two_pieces_recorded_twice :
    (plainAttempt.run plainAttempt.init
      (Attempt.calls (statusHeaders "500") [([123], false), ([125], true)])).2.completions =
        [false, false] := by
  rfl

end AgentRouter.ExtProc
