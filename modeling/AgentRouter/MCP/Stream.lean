import AgentRouter.Lib.GoMap
import AgentRouter.Lib.Positions
import AgentRouter.MCP.Messages
import Mathlib.Data.List.Induction

/-!
# Stream: one backend's response passed on to the client

`proxyResponseBody` reads a backend's answer event by event, rewrites the messages of
each event and writes the event to the client.  The error variable of the loop is the one
the parser's result came in, and the rewriting assigns to it: what the last rewritten
message of an event leaves there decides whether the loop goes on.

    every event reaches the client, in order
      ↔  in every event but the last, the last message that is rewritten can be
      (forwardsAll_iff)
-/

namespace AgentRouter.MCP

open Positions List

/-! ## Sessions -/

/-- What the proxy's sessions depend on. -/
structure Env where
  sdk : Sdk
  /-- the order in which a session's backends are visited. -/
  order : IterOrder String String
  /-- the session encryption, when it is configured; it can fail. -/
  encrypt : Option (String → Option String)

/-- The last event id of each backend of a session. -/
abbrev LastEventIDs := GoMap String String

/-- An unknown backend is only logged. -/
def setLastEventID (s : LastEventIDs) (backend lastEventID : String) : LastEventIDs :=
  if (s.lookup backend).isSome then s.insert backend lastEventID else s

/-- The event id the client sees: the ids of all backends. -/
def lastEventID (env : Env) (s : LastEventIDs) : String :=
  let joined := String.intercalate ","
    ((env.order.visit s).map fun e => e.1 ++ ":" ++ env.sdk.base64 e.2)
  match env.encrypt with
  | none => joined
  | some encrypt => (encrypt joined).getD ""

/-! ## Events -/

structure SseEvent where
  event : String
  id : String
  messages : List Message
  backend : String

/-- The result of `parser.next()`. -/
structure Next where
  event : Option SseEvent
  err : Option String

/-- `err` after the messages of an event. -/
def errAfter (err : Option String) (ms : List Rewritten) : Option String :=
  ms.foldl (fun err m => m.err.getD err) err

/-- What the client gets from a stream. -/
structure Proxied where
  written : List SseEvent
  responseErrors : List ResponseError
  lastEventIDs : LastEventIDs

/-- The loop over the events; `req` is the client's request if there is one. -/
def proxyEvents (env : Env) (req : Option RpcRequest) (backend : String) (s : LastEventIDs) :
    List Next → Proxied
  | [] => ⟨[], [], s⟩
  | n :: rest =>
    match n.event with
    | none =>
      match n.err with
      | some _ => ⟨[], [], s⟩
      | none => proxyEvents env req backend s rest
    | some e =>
      let s := setLastEventID s e.backend e.id
      let ms := e.messages.map (rewriteMessage env.sdk req backend)
      let out : SseEvent := { e with id := lastEventID env s, messages := ms.map (·.msg) }
      let failures := ms.filterMap (·.failure)
      match errAfter n.err ms with
      | some _ => ⟨[out], failures, s⟩
      | none =>
        let p := proxyEvents env req backend s rest
        ⟨out :: p.written, failures ++ p.responseErrors, p.lastEventIDs⟩

/-- A backend's answer: one JSON message, or what the event parser finds. -/
inductive ResponseBody where
  | json (msg : Message)
  | stream (nexts : List Next)

/-- What `proxyResponseBody` writes and returns. -/
inductive Answer where
  /-- a JSON message that could not be rewritten: nothing is written. -/
  | failed (err : String)
  | json (msg : Message) (responseError : Option ResponseError)
  | events (p : Proxied)

def proxyResponseBody (env : Env) (req : Option RpcRequest) (backend : String) (s : LastEventIDs) :
    ResponseBody → Answer
  | .json msg =>
    let w := rewriteMessage env.sdk req backend msg
    match w.err with
    | some (some e) => .failed e
    | _ => .json w.msg w.failure
  | .stream nexts => .events (proxyEvents env req backend s nexts)

/-- The events that are written; a JSON message is not one. -/
def Answer.written : Answer → List SseEvent
  | .events p => p.written
  | _ => []

/-! ## Lemmas -/

/-- A backend's stream as the parser reports it: its events, at the end perhaps one that no
empty line closes, and the end of the stream or a parse error. -/
def streamOf (events : List SseEvent) (unclosed : Option SseEvent) (err : String) : List Next :=
  events.map (fun e => ⟨some e, none⟩) ++
    (unclosed.toList.map (fun e => ⟨some e, some "EOF"⟩) ++ [⟨none, some err⟩])

/-- What the client sees of an event: its name and its messages. -/
@[simp] def SseEvent.content (e : SseEvent) : String × List Message := (e.event, e.messages)

/-- The event with its messages rewritten. -/
@[simp] def rewrittenContent (sdk : Sdk) (req : Option RpcRequest) (backend : String) (e : SseEvent) :
    String × List Message :=
  (e.event, e.messages.map fun m => (rewriteMessage sdk req backend m).msg)

/-- The messages of an event leave an error behind. -/
def leavesError (sdk : Sdk) (req : Option RpcRequest) (backend : String) (e : SseEvent) : Bool :=
  (errAfter none (e.messages.map (rewriteMessage sdk req backend))).isSome

section

variable {env : Env} {req : Option RpcRequest} {backend : String}

theorem proxyEvents_end (s : LastEventIDs) (unclosed : Option SseEvent) (err : String) :
    (proxyEvents env req backend s
        (unclosed.toList.map (fun e => ⟨some e, some "EOF"⟩) ++ [⟨none, some err⟩])).written.map
        SseEvent.content = unclosed.toList.map (rewrittenContent env.sdk req backend) := by
  cases unclosed with
  | none => rfl
  | some e =>
    simp only [Option.toList_some, map_cons, map_nil, singleton_append, proxyEvents]
    split
    · simp
    · simp

theorem proxyEvents_streamOf (s : LastEventIDs) (events : List SseEvent)
    (unclosed : Option SseEvent) (err : String) :
    (proxyEvents env req backend s (streamOf events unclosed err)).written.map SseEvent.content =
      (throughFirst (leavesError env.sdk req backend) (events ++ unclosed.toList)).map
        (rewrittenContent env.sdk req backend) := by
  induction events generalizing s with
  | nil =>
    refine (proxyEvents_end s unclosed err).trans ?_
    cases unclosed with
    | none => rfl
    | some e =>
      have hone : ∀ p : SseEvent → Bool, throughFirst p [e] = [e] := by
        simp [throughFirst]
      rw [nil_append, Option.toList_some, hone]
  | cons e events ih =>
    rw [cons_append, throughFirst]
    show (proxyEvents env req backend s
      (⟨some e, none⟩ :: streamOf events unclosed err)).written.map SseEvent.content = _
    rw [proxyEvents]
    dsimp only
    cases herr : errAfter none (e.messages.map (rewriteMessage env.sdk req backend)) with
    | some x =>
      rw [if_pos (by rw [leavesError, herr]; rfl)]
      simp
    | none =>
      rw [if_neg (by rw [leavesError, herr]; exact Bool.false_ne_true), map_cons, ih]
      simp

/-- The error that is left is that of the last message that was rewritten. -/
theorem leavesError_eq_false_iff (sdk : Sdk) (e : SseEvent) :
    leavesError sdk req backend e = false ↔
      ∀ m, (e.messages.filter (isRewritten req)).getLast? = some m → Rewritable sdk req m := by
  unfold leavesError
  rw [Option.isSome_eq_false_iff, Option.isNone_iff_eq_none]
  induction e.messages using List.reverseRecOn with
  | nil => simp [errAfter]
  | append_singleton ms m ih =>
    have hstep : errAfter none ((ms ++ [m]).map (rewriteMessage sdk req backend)) =
        (rewriteMessage sdk req backend m).err.getD
          (errAfter none (ms.map (rewriteMessage sdk req backend))) := by
      rw [errAfter, map_append, foldl_append]
      rfl
    obtain ⟨hskip, hok⟩ := err_rewriteMessage sdk req backend m
    rw [hstep, filter_append]
    cases hm : isRewritten req m with
    | false =>
      rw [hskip.mpr hm, filter_cons_of_neg (by simp [hm]), filter_nil, append_nil]
      exact ih
    | true =>
      rw [filter_cons_of_pos hm]
      obtain ⟨r, hr⟩ := Option.ne_none_iff_exists'.mp (mt hskip.mp (by simp [hm]))
      rw [hr, Option.getD_some]
      have hnone : r = none ↔ Rewritable sdk req m := by
        rw [hr, hm] at hok
        simpa using hok
      rw [hnone]
      simp

/-- What the client gets of a stream is its beginning, also when the loop ends early. -/
theorem written_initialSegment (s : LastEventIDs) (events : List SseEvent)
    (unclosed : Option SseEvent) (err : String) :
    (proxyResponseBody env req backend s (.stream (streamOf events unclosed err))).written.map
        SseEvent.content <+:
      (events ++ unclosed.toList).map (rewrittenContent env.sdk req backend) := by
  rw [proxyResponseBody, Answer.written, proxyEvents_streamOf]
  exact (throughFirst_initialSegment _ _).map _

end

/-! ## Top theorem -/

/-- Every event of the backend's stream reaches the client, once and in order. -/
def ForwardsAll (env : Env) (req : Option RpcRequest) (backend : String) (s : LastEventIDs)
    (events : List SseEvent) (unclosed : Option SseEvent) (err : String) : Prop :=
  (proxyResponseBody env req backend s (.stream (streamOf events unclosed err))).written.map
      SseEvent.content =
    (events ++ unclosed.toList).map (rewrittenContent env.sdk req backend)

theorem forwardsAll_iff (env : Env) (req : Option RpcRequest) (backend : String) (s : LastEventIDs)
    (events : List SseEvent) (unclosed : Option SseEvent) (err : String) :
    ForwardsAll env req backend s events unclosed err ↔
      ∀ e ∈ (events ++ unclosed.toList).dropLast,
        ∀ m, (e.messages.filter (isRewritten req)).getLast? = some m → Rewritable env.sdk req m := by
  rw [ForwardsAll, proxyResponseBody, Answer.written, proxyEvents_streamOf, map_throughFirst_eq_iff]
  constructor
  · intro h e he
    exact (leavesError_eq_false_iff env.sdk e).mp (h e he)
  · intro h e he
    exact (leavesError_eq_false_iff env.sdk e).mpr (h e he)

/-- An SDK that decodes resource updates and nothing else. -/
def plainSdk : Sdk where
  base64 := id
  listRootsParams _ := .error ""
  createMessageParams _ := .error ""
  elicitParams _ := .error ""
  resourceUpdatedParams j :=
    let uri := match j.values "uri" with
      | [.str uri] => uri
      | _ => ""
    .ok ⟨uri, fun uri => .obj [("uri", .str uri)]⟩
  readResourceResult _ := .error ""
  callToolResult _ := .error ""
  callToolName _ := none
  marshalContent _ := ""

def plainEnv : Env := ⟨plainSdk, GoMap.storedOrder, none⟩

/-- An event with one message. -/
def singleEvent (backend : String) (m : Message) : SseEvent := ⟨"message", "", [m], backend⟩

/-- A resource update is a notification, so it has no id: it is the last event the client sees. -/
theorem forwardsAll_fails_on_resource_update :
    ¬ ForwardsAll plainEnv none "b" ∅
      [singleEvent "b" (.request ⟨"notifications/resources/updated", .absent,
          some (.obj [("uri", .str "file:///a")])⟩),
        singleEvent "b" (.request ⟨"notifications/message", .absent, none⟩)] none "EOF" := by
  intro h
  exact absurd (congrArg List.length h) (by decide)

end AgentRouter.MCP
