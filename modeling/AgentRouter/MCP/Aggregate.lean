import AgentRouter.Lib.Channel
import AgentRouter.MCP.Stream

/-!
# Aggregate: one request to all backends of a session

A list request goes to every backend of the session.  One goroutine for each backend puts
the events of its answer on a channel; the aggregation takes them off in whatever order
they come, sets the backends' responses aside, passes everything else on to the client and
finally writes one response with the merged results.

    the client gets every message once, in each backend's order, and one merged response at the end
      ↔  every request or notification the backends send can be rewritten
      (delivered_iff)
-/

namespace AgentRouter.MCP

open Channel List

/-! ## Algorithm -/

/-- The answer of one backend to the broadcast request. -/
structure BroadCastResponse (T : Type) where
  backendName : String
  res : T

/-- What is fixed during an aggregation: the request, how a result is decoded, merged and
encoded, and the id of the final event. -/
structure Broadcast (T : Type) where
  env : Env
  request : RpcRequest
  decode : Json → Except String T
  merge : List (BroadCastResponse T) → T
  encode : T → Json
  uuid : String

/-- The variables of the loop. -/
structure Aggregation (T : Type) where
  lastEventIDs : LastEventIDs
  hasBackendError : Bool
  responses : List (BroadCastResponse T)
  written : List SseEvent

section

variable {T : Type} (c : Broadcast T)

/-- The response to the broadcast request at the end of an event. -/
def replyOf (e : SseEvent) : Option RpcResponse :=
  match e.messages.getLast? with
  | some (.response r) => if r.id = c.request.id then some r else none
  | _ => none

/-- The messages of an event that are passed on. -/
def remaining (e : SseEvent) : List Message :=
  if (replyOf c e).isSome then e.messages.dropLast else e.messages

/-- A response that counts: no error, and a result that decodes. -/
def resultOf (e : SseEvent) : Option (BroadCastResponse T) :=
  match replyOf c e with
  | none => none
  | some r =>
    match r.error with
    | some _ => none
    | none => (r.result.bind fun j => (c.decode j).toOption).map fun t => ⟨e.backend, t⟩

/-- The loop over the messages that are passed on: the first error ends it. -/
def rewriteRequests (sdk : Sdk) (backend : String) : List Message → Except String (List Message)
  | [] => .ok []
  | .response r :: ms => (rewriteRequests sdk backend ms).map (.response r :: ·)
  | .request r :: ms =>
    match maybeServerToClientRequestModify sdk backend r with
    | (_, some e) => .error e
    | (r, none) => (rewriteRequests sdk backend ms).map (.request r :: ·)

/-- One pass of the loop over the events. -/
def aggregateEvent (st : Aggregation T) (e : SseEvent) : Except String (Aggregation T) :=
  let s := setLastEventID st.lastEventIDs e.backend e.id
  if e.messages = [] then .ok { st with lastEventIDs := s }
  else
    match rewriteRequests c.env.sdk e.backend (remaining c e) with
    | .error err => .error err
    | .ok ms =>
      .ok
        { lastEventIDs := s
          hasBackendError := st.hasBackendError || ((replyOf c e).bind (·.error)).isSome
          responses := st.responses ++ (resultOf c e).toList
          written := st.written ++
            (if ms = [] then []
              else [{ e with id := lastEventID c.env s, messages := ms }]) }

/-- The loop; an error comes with what has been written by then. -/
def aggregateEvents (st : Aggregation T) : List SseEvent → Except (String × Aggregation T) (Aggregation T)
  | [] => .ok st
  | e :: es =>
    match aggregateEvent c st e with
    | .error err => .error (err, st)
    | .ok st => aggregateEvents st es

/-- What the client and the caller get. -/
structure Aggregated where
  written : List SseEvent
  /-- the text of an HTTP error written into the stream. -/
  errorText : Option String
  final : Option SseEvent
  err : Option String

def finalEvent (t : T) : SseEvent :=
  ⟨"message", c.uuid, [.response ⟨c.request.id, some (c.encode t), none⟩], ""⟩

/-- `sendToAllBackendsAndAggregateResponsesImpl`. -/
def sendToAllBackendsAndAggregateResponses (s : LastEventIDs) (events : List SseEvent) : Aggregated :=
  match aggregateEvents c ⟨s, false, [], []⟩ events with
  | .error (e, st) =>
    ⟨st.written, some ("failed to modify server->client request: " ++ e), none,
      some ("failed to modify server->client request: " ++ e)⟩
  | .ok st =>
    ⟨st.written, none, some (finalEvent c (c.merge st.responses)),
      if st.hasBackendError then some "one or more backends returned an error response" else none⟩

/-! ## Lemmas -/

/-- A response to the broadcast request. -/
def isReply : Message → Bool
  | .response r => r.id = c.request.id
  | .request _ => false

/-- A message as the client gets it. -/
def rewrittenMessage (sdk : Sdk) (backend : String) : Message → Message
  | .request r => .request (maybeServerToClientRequestModify sdk backend r).1
  | .response r => .response r

theorem isReply_rewrittenMessage (sdk : Sdk) (backend : String) (m : Message) :
    isReply c (rewrittenMessage sdk backend m) = isReply c m := by
  cases m <;> rfl

/-- The requests of a list of messages can all be rewritten. -/
def AllRewritable (sdk : Sdk) (ms : List Message) : Prop :=
  ∀ r, .request r ∈ ms → RequestRewritable sdk r

theorem rewriteRequests_eq (sdk : Sdk) (backend : String) (ms : List Message) :
    (AllRewritable sdk ms ∧ rewriteRequests sdk backend ms = .ok (ms.map (rewrittenMessage sdk backend))) ∨
    (¬ AllRewritable sdk ms ∧ ∃ e, rewriteRequests sdk backend ms = .error e) := by
  induction ms with
  | nil => exact .inl ⟨fun r hr => (by cases hr), rfl⟩
  | cons m ms ih =>
    cases m with
    | response r =>
      have hall : AllRewritable sdk (.response r :: ms) ↔ AllRewritable sdk ms := by
        simp [AllRewritable]
      rw [hall, rewriteRequests]
      rcases ih with ⟨hms, h⟩ | ⟨hms, e, h⟩
      · rw [h]
        exact .inl ⟨hms, rfl⟩
      · rw [h]
        exact .inr ⟨hms, e, rfl⟩
    | request r =>
      have hall : AllRewritable sdk (.request r :: ms) ↔ RequestRewritable sdk r ∧ AllRewritable sdk ms := by
        simp [AllRewritable]
      rw [hall, ← maybeServerToClientRequestModify_snd sdk backend r, rewriteRequests, map_cons,
        rewrittenMessage]
      rcases maybeServerToClientRequestModify sdk backend r with ⟨r', _ | e⟩
      · rcases ih with ⟨hms, h⟩ | ⟨hms, e, h⟩
        · rw [h]
          exact .inl ⟨⟨rfl, hms⟩, rfl⟩
        · rw [h]
          exact .inr ⟨fun hboth => hms hboth.2, e, rfl⟩
      · exact .inr ⟨fun hboth => (by cases hboth.1), e, rfl⟩

/-- Responses are never rewritten here, so the reply does not matter. -/
theorem allRewritable_remaining (sdk : Sdk) (e : SseEvent) :
    AllRewritable sdk (remaining c e) ↔ AllRewritable sdk e.messages := by
  unfold remaining
  split
  next h =>
    unfold replyOf at h
    split at h
    next r hlast =>
      have hsplit := dropLast_append_getLast? _ hlast
      constructor
      · intro hd r' hr'
        rw [← hsplit] at hr'
        rcases mem_append.mp hr' with hr' | hr'
        · exact hd r' hr'
        · rw [mem_singleton] at hr'
          cases hr'
      · intro ha r' hr'
        exact ha r' (dropLast_subset _ hr')
    · cases h
  · exact Iff.rfl

variable {e : SseEvent}

theorem remaining_eq_filter (h : ∀ m ∈ e.messages.dropLast, isReply c m = false) :
    remaining c e = e.messages.filter fun m => !isReply c m := by
  have hdrop : e.messages.dropLast.filter (fun m => !isReply c m) = e.messages.dropLast :=
    filter_eq_self.mpr fun m hm => by rw [h m hm]; rfl
  unfold remaining replyOf
  cases hlast : e.messages.getLast? with
  | none =>
    rw [getLast?_eq_none_iff] at hlast
    simp [hlast]
  | some m =>
    have hsplit := dropLast_append_getLast? _ hlast
    have hfilter : e.messages.filter (fun m => !isReply c m) =
        e.messages.dropLast ++ [m].filter fun m => !isReply c m := by
      conv_lhs => rw [← hsplit]
      rw [filter_append, hdrop]
    rw [hfilter]
    cases m with
    | request r =>
      exact hsplit.symm
    | response r =>
      by_cases hid : r.id = c.request.id
      · rw [filter_cons_of_neg (by simp [isReply, hid])]
        simp [hid]
      · rw [filter_cons_of_pos (by simp [isReply, hid]), filter_nil, hsplit]
        simp [hid]

variable (st : Aggregation T)

theorem aggregateEvent_eq_ok (h : AllRewritable c.env.sdk e.messages) :
    ∃ st' out, aggregateEvent c st e = .ok st' ∧
      st'.responses = st.responses ++ (resultOf c e).toList ∧ st'.written = st.written ++ out ∧
      (∀ o ∈ out, o.backend = e.backend) ∧
      out.flatMap (·.messages) = (remaining c e).map (rewrittenMessage c.env.sdk e.backend) := by
  unfold aggregateEvent
  by_cases hm : e.messages = []
  · rw [if_pos hm]
    have hrep : replyOf c e = none := by
      unfold replyOf
      rw [hm]
      rfl
    refine ⟨_, [], rfl, ?_, (append_nil _).symm, fun o ho => (by cases ho), ?_⟩
    · simp [resultOf, hrep]
    · simp [remaining, hrep, hm]
  · obtain ⟨-, hok⟩ := (rewriteRequests_eq c.env.sdk e.backend (remaining c e)).resolve_right
      fun hnot => hnot.1 ((allRewritable_remaining c _ e).mpr h)
    rw [if_neg hm, hok]
    refine ⟨_, _, rfl, rfl, rfl, ?_, ?_⟩
    · intro o ho
      split at ho
      · cases ho
      · rw [mem_singleton.mp ho]
    · split
      next hnil => rw [hnil]; rfl
      · simp

theorem aggregateEvent_eq_error (h : ¬ AllRewritable c.env.sdk e.messages) :
    ∃ err, aggregateEvent c st e = .error err := by
  obtain ⟨-, err, herr⟩ := (rewriteRequests_eq c.env.sdk e.backend (remaining c e)).resolve_left
    fun hall => h ((allRewritable_remaining c _ e).mp hall.1)
  unfold aggregateEvent
  rw [if_neg, herr]
  · exact ⟨err, rfl⟩
  · intro hm
    refine h fun r hr => ?_
    rw [hm] at hr
    cases hr

/-- The messages of a list of events that come from one backend. -/
def messagesFrom (backend : String) (es : List SseEvent) : List Message :=
  (es.filter fun e => e.backend = backend).flatMap (·.messages)

theorem messagesFrom_append (backend : String) (es es' : List SseEvent) :
    messagesFrom backend (es ++ es') = messagesFrom backend es ++ messagesFrom backend es' := by
  unfold messagesFrom
  rw [filter_append, flatMap_append]

theorem messagesFrom_of_backend {out : List SseEvent} {b backend : String} (h : ∀ o ∈ out, o.backend = b) :
    messagesFrom backend out = if b = backend then out.flatMap (·.messages) else [] := by
  unfold messagesFrom
  split
  next hb => rw [filter_eq_self.mpr fun o ho => by simp [h o ho, hb]]
  next hb =>
    rw [filter_eq_nil_iff.mpr fun o ho => by simp [h o ho, hb]]
    rfl

variable {es : List SseEvent}

theorem aggregateEvents_eq_ok (h : ∀ e ∈ es, AllRewritable c.env.sdk e.messages) :
    ∃ st', aggregateEvents c st es = .ok st' ∧ st'.responses = st.responses ++ es.filterMap (resultOf c) ∧
      ∀ b, messagesFrom b st'.written = messagesFrom b st.written ++
        (es.filter fun e => e.backend = b).flatMap fun e =>
          (remaining c e).map (rewrittenMessage c.env.sdk b) := by
  induction es generalizing st with
  | nil => exact ⟨st, rfl, (append_nil _).symm, fun b => (append_nil _).symm⟩
  | cons e es ih =>
    obtain ⟨st1, out, hev, hresp, hwr, hback, hmsgs⟩ :=
      aggregateEvent_eq_ok c st (h e mem_cons_self)
    obtain ⟨st', hloop, hresp', hwr'⟩ := ih st1 fun e he => h e (mem_cons_of_mem _ he)
    refine ⟨st', ?_, ?_, fun b => ?_⟩
    · rw [aggregateEvents, hev]
      exact hloop
    · rw [hresp', hresp, append_assoc]
      rw [filterMap_cons]
      cases resultOf c e <;> rfl
    · rw [hwr', hwr, messagesFrom_append, append_assoc, messagesFrom_of_backend hback]
      by_cases hb : e.backend = b
      · rw [if_pos hb, filter_cons_of_pos (by simp [hb]), flatMap_cons, hmsgs, hb]
      · rw [if_neg hb, filter_cons_of_neg (by simp [hb]), nil_append]

theorem aggregateEvents_eq_error (h : ¬ ∀ e ∈ es, AllRewritable c.env.sdk e.messages) :
    ∃ err, aggregateEvents c st es = .error err := by
  induction es generalizing st with
  | nil => exact absurd (fun e he => by cases he) h
  | cons e es ih =>
    rw [aggregateEvents]
    by_cases he : AllRewritable c.env.sdk e.messages
    · obtain ⟨st1, out, hev, -⟩ := aggregateEvent_eq_ok c st he
      rw [hev]
      exact ih st1 fun hes => h (forall_mem_cons.mpr ⟨he, hes⟩)
    · obtain ⟨err, herr⟩ := aggregateEvent_eq_error c st he
      rw [herr]
      exact ⟨_, rfl⟩

theorem backendName_of_resultOf {x : BroadCastResponse T} (h : resultOf c e = some x) :
    x.backendName = e.backend := by
  unfold resultOf at h
  split at h
  · cases h
  split at h
  · cases h
  · obtain ⟨t, -, rfl⟩ := Option.map_eq_some_iff.mp h
    rfl

theorem filter_results (b : String) (es : List SseEvent) :
    (es.filterMap (resultOf c)).filter (fun x => x.backendName = b) =
      (es.filter fun e => e.backend = b).filterMap (resultOf c) := by
  rw [filter_filterMap, filterMap_filter]
  refine filterMap_congr fun e _ => ?_
  cases hr : resultOf c e with
  | none => simp
  | some x => simp [Option.filter, backendName_of_resultOf c hr]

/-! ## Top theorem -/

/-- What the client should get of the backends' streams. -/
structure Delivered (streams : String → List SseEvent) (out : Aggregated) : Prop where
  /-- one response at the end, with the merge of the results that came in. -/
  merged : ∃ rs, out.final = some (finalEvent c (c.merge rs)) ∧ out.errorText = none ∧
    ∀ b, rs.filter (fun x => x.backendName = b) = (streams b).filterMap (resultOf c)
  /-- no other response to the request. -/
  unique : ∀ b, ∀ m ∈ messagesFrom b out.written, isReply c m = false
  /-- everything else once, in the order of its backend. -/
  forwarded : ∀ b, messagesFrom b out.written =
    (((streams b).flatMap (·.messages)).filter fun m => !isReply c m).map
      (rewrittenMessage c.env.sdk b)

theorem flatMap_remaining (f : Message → Message)
    (h : ∀ e ∈ es, ∀ m ∈ e.messages.dropLast, isReply c m = false) :
    (es.flatMap fun e => (remaining c e).map f) =
      ((es.flatMap (·.messages)).filter fun m => !isReply c m).map f := by
  rw [filter_flatMap, map_flatMap]
  refine flatMap_congr fun e he => ?_
  rw [remaining_eq_filter c (h e he)]

/-- For any number of backends and any order of arrival. -/
theorem delivered_iff (s : LastEventIDs) (streams : String → List SseEvent)
    (hbackend : ∀ b, ∀ e ∈ streams b, e.backend = b)
    (hreply : ∀ b, ∀ e ∈ streams b, ∀ m ∈ e.messages.dropLast, isReply c m = false)
    (events : List SseEvent) (hevents : Received streams events) :
    Delivered c streams (sendToAllBackendsAndAggregateResponses c s events) ↔
      ∀ b, ∀ e ∈ streams b, ∀ r, .request r ∈ e.messages → RequestRewritable c.env.sdk r := by
  have hfilter : ∀ b, events.filter (fun e => e.backend = b) = streams b :=
    filter_of_received hbackend hevents
  have hmem : (∀ b, ∀ e ∈ streams b, AllRewritable c.env.sdk e.messages) ↔
      ∀ e ∈ events, AllRewritable c.env.sdk e.messages := by
    constructor
    · intro h e he
      refine h e.backend e ?_
      rw [← hfilter e.backend]
      exact mem_filter.mpr ⟨he, by simp⟩
    · intro h b e he
      rw [← hfilter b] at he
      exact h e (mem_filter.mp he).1
  show _ ↔ ∀ b, ∀ e ∈ streams b, AllRewritable c.env.sdk e.messages
  rw [hmem]
  unfold sendToAllBackendsAndAggregateResponses
  constructor
  · intro h
    by_contra hbad
    obtain ⟨err, herr⟩ := aggregateEvents_eq_error c ⟨s, false, [], []⟩ hbad
    rw [herr] at h
    obtain ⟨rs, hfinal, -⟩ := h.merged
    cases hfinal
  · intro h
    obtain ⟨st, hloop, hresp, hwritten⟩ := aggregateEvents_eq_ok c ⟨s, false, [], []⟩ h
    rw [hloop]
    have hforwarded : ∀ b, messagesFrom b st.written =
        (((streams b).flatMap (·.messages)).filter fun m => !isReply c m).map
          (rewrittenMessage c.env.sdk b) := by
      intro b
      rw [hwritten b, hfilter b, flatMap_remaining c _ (hreply b)]
      rfl
    refine ⟨⟨st.responses, rfl, rfl, fun b => ?_⟩, fun b m hm => ?_, hforwarded⟩
    · rw [hresp, nil_append, filter_results, hfilter b]
    · rw [hforwarded b] at hm
      obtain ⟨m', hm', rfl⟩ := mem_map.mp hm
      rw [isReply_rewrittenMessage]
      simpa using (mem_filter.mp hm').2

end

/-- The broadcast of `logging/setLevel`: the results are not looked at. -/
def handleSetLoggingLevel (env : Env) (request : RpcRequest) (uuid : String) : Broadcast Json where
  env := env
  request := request
  decode := .ok
  merge _ := .obj []
  encode j := j
  uuid := uuid

/-- One such broadcast, with the id 1. -/
def setLevelOne : Broadcast Json :=
  handleSetLoggingLevel plainEnv ⟨"logging/setLevel", .int 1, none⟩ "u"

/-- The response of a backend. -/
def replyFrom (backend : String) : SseEvent :=
  singleEvent backend (.response ⟨.int 1, some (.obj []), none⟩)

/-- Two backends, of which one sends the message before its response. -/
def noteThenReply (m : Message) (backend : String) : List SseEvent :=
  if backend = "b" then [singleEvent "b" m, replyFrom "b"]
  else if backend = "a" then [replyFrom "a"]
  else []

/-- The response of the other one comes in between. -/
def interleaved (m : Message) : List SseEvent := [singleEvent "b" m, replyFrom "a", replyFrom "b"]

theorem received_noteThenReply (m : Message) : Received (noteThenReply m) (interleaved m) := by
  refine ⟨_, .next "b" (.next "a" (.next "b" .start ⟨_, _, rfl, rfl⟩) ⟨_, _, rfl, rfl⟩)
    ⟨_, _, rfl, rfl⟩, fun i => ?_, rfl⟩
  by_cases hi : i = "b"
  · subst hi
    rfl
  · by_cases hi' : i = "a"
    · subst hi'
      rfl
    · simp [noteThenReply, hi, hi']

/-- A resource update has no id, so the client gets no response at all. -/
theorem delivered_fails_on_resource_update :
    Received (noteThenReply (.request ⟨"notifications/resources/updated", .absent, none⟩))
        (interleaved (.request ⟨"notifications/resources/updated", .absent, none⟩)) ∧
      ¬ Delivered setLevelOne
        (noteThenReply (.request ⟨"notifications/resources/updated", .absent, none⟩))
        (sendToAllBackendsAndAggregateResponses setLevelOne ∅
          (interleaved (.request ⟨"notifications/resources/updated", .absent, none⟩))) := by
  refine ⟨received_noteThenReply _, fun h => ?_⟩
  obtain ⟨rs, hfinal, -⟩ := h.merged
  cases hfinal

theorem delivered_of_log_message :
    Delivered setLevelOne (noteThenReply (.request ⟨"notifications/message", .absent, none⟩))
      (sendToAllBackendsAndAggregateResponses setLevelOne ∅
        (interleaved (.request ⟨"notifications/message", .absent, none⟩))) := by
  have hstream : ∀ b, ∀ e ∈ noteThenReply (.request ⟨"notifications/message", .absent, none⟩) b,
      e = singleEvent b (.request ⟨"notifications/message", .absent, none⟩) ∨ e = replyFrom b := by
    intro b e he
    unfold noteThenReply at he
    split at he
    next hb => simpa [hb] using he
    · split at he
      next hb => exact .inr (by simpa [hb] using he)
      · cases he
  refine (delivered_iff setLevelOne ∅ _ ?_ ?_ _ (received_noteThenReply _)).mpr ?_
  · intro b e he
    obtain rfl | rfl := hstream b e he <;> rfl
  · intro b e he m hm
    obtain rfl | rfl := hstream b e he <;> cases hm
  · intro b e he r hr
    obtain rfl | rfl := hstream b e he
    · cases mem_singleton.mp hr
      intro hmethod
      exact absurd hmethod (by decide)
    · cases mem_singleton.mp hr

end AgentRouter.MCP
