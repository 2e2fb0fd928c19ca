import AgentRouter.Lib.Cut
import AgentRouter.Lib.Json
import AgentRouter.Lib.Text

/-!
# Messages: JSON-RPC messages and their rewriting by the MCP proxy

A message from a backend is rewritten before the client sees it: the id of a server
request gets the backend's name, so that the client's answer finds its way back, and
resource URIs get it too.  Rewriting edits the message in place and can stop half way:
a request without an id has its parameters rewritten already when the missing id is
noticed.  So a rewriting returns the message as it then is, and the error if there is one.
    a message is rewritten without an error  ↔  it is `Rewritable`   (err_rewriteMessage)
-/

namespace AgentRouter.MCP

open Text

/-! ## Messages -/

/-- The raw value of a JSON-RPC id. -/
inductive RpcID where
  | absent
  | int (n : Int)
  | float (bits : BitVec 64)
  | str (s : String)
  deriving DecidableEq

/-- A request, or a notification when it has no id. -/
structure RpcRequest where
  method : String
  id : RpcID
  params : Option Json

structure RpcError where
  code : Int
  message : String

structure RpcResponse where
  id : RpcID
  result : Option Json
  error : Option RpcError

inductive Message where
  | request (r : RpcRequest)
  | response (r : RpcResponse)

/-! ## Decoded parameters and results -/

/-- A value of `_meta.progressToken`. -/
inductive ProgressToken where
  | absent
  | null
  | int (n : Int)
  | float (bits : BitVec 64)
  | str (s : String)
  | other

/-- Parameters with a progress token, and their encoding with another token. -/
structure MetaParams where
  token : ProgressToken
  withToken : String → Json

/-- Parameters with a resource URI, and their encoding with another one. -/
structure URIParams where
  uri : String
  withURI : String → Json

structure ReadResourceResult where
  uris : List String
  cacheScope : String
  encode : List String → String → Json

inductive ToolContent where
  | text (text : String)
  | image (mimeType : String)
  | resourceLink (uri : String)
  /-- without a URI when the resource is missing. -/
  | embeddedResource (uri : Option String)
  | other

structure CallToolResult where
  metadata : Json
  content : List ToolContent
  isError : Bool
  encode : Json → List ToolContent → Json

/-- What the proxy takes from the SDK and the standard library. -/
structure Sdk where
  base64 : String → String
  listRootsParams : Json → Except String MetaParams
  createMessageParams : Json → Except String MetaParams
  elicitParams : Json → Except String MetaParams
  resourceUpdatedParams : Json → Except String URIParams
  readResourceResult : Json → Except String ReadResourceResult
  callToolResult : Json → Except String CallToolResult
  /-- the tool name in the parameters of a `tools/call` request, if they decode. -/
  callToolName : Json → Option String
  marshalContent : ToolContent → String

/-! ## Names -/

def nameSeparator : String := "__"

def uiSchemePrefix : String := "ui://"

def downstreamResourceURI (uri backendName : String) : String :=
  if startsWith uri uiSchemePrefix then
    uiSchemePrefix ++ backendName ++ "/" ++ String.ofList (uri.toList.drop uiSchemePrefix.length)
  else backendName ++ "+" ++ uri

/-- `%x` of the eight bytes of a float, the lowest first. -/
def hexBytes (bits : BitVec 64) : String :=
  String.ofList ((List.range 8).flatMap fun i =>
    let byte := bits.toNat / 2 ^ (8 * i) % 256
    [Nat.digitChar (byte / 16), Nat.digitChar (byte % 16)])

/-- A value, the letter of its type and the backend, joined by the separator. -/
def tagged (value type backend : String) : String :=
  value ++ nameSeparator ++ type ++ nameSeparator ++ backend

/-! ## Requests of the server -/

/-- The token `maybeUpdateProgressTokenMetadata` writes, if it writes one. -/
def newProgressToken (sdk : Sdk) (backend : String) : ProgressToken → Option String
  | .str s => some (tagged (sdk.base64 s) "s" backend)
  | .int n => some (tagged (toString n) "i" backend)
  | .float bits => some (tagged (hexBytes bits) "f" backend)
  | .absent | .null | .other => none

/-- The parameters of a request with a progress token; `name` is the method in the error. -/
def rewriteMetaParams (sdk : Sdk) (backend name : String) (decode : Json → Except String MetaParams)
    (params : Json) : Except String Json :=
  match decode params with
  | .error e => .error ("failed to unmarshal " ++ name ++ " params: " ++ e)
  | .ok p => .ok ((newProgressToken sdk backend p.token).elim params p.withToken)

def rewriteUpdatedParams (sdk : Sdk) (backend : String) (params : Json) : Except String Json :=
  match sdk.resourceUpdatedParams params with
  | .error e => .error ("failed to unmarshal elicitation/create params: " ++ e)
  | .ok p => .ok (p.withURI (downstreamResourceURI p.uri backend))

/-- The rewriting of the parameters for the methods that are rewritten at all. -/
def rewriteParams (sdk : Sdk) (backend method : String) : Option (Json → Except String Json) :=
  if method = "roots/list" then
    some (rewriteMetaParams sdk backend "roots/list" sdk.listRootsParams)
  else if method = "sampling/createMessage" then
    some (rewriteMetaParams sdk backend "sampling/createMessage" sdk.createMessageParams)
  else if method = "elicitation/create" then
    some (rewriteMetaParams sdk backend "elicitation/create" sdk.elicitParams)
  else if method = "notifications/resources/updated" then some (rewriteUpdatedParams sdk backend)
  else none

def prefixedID (sdk : Sdk) (backend : String) : RpcID → Except String RpcID
  | .absent => .error "missing id in the server->client request"
  | .int n => .ok (.str (tagged (toString n) "i" backend))
  | .float bits => .ok (.str (tagged (hexBytes bits) "f" backend))
  | .str s => .ok (.str (tagged (sdk.base64 s) "s" backend))

/-- The second half of `maybeServerToClientRequestModify`. -/
def modifyID (sdk : Sdk) (backend : String) (msg : RpcRequest) : RpcRequest × Option String :=
  match prefixedID sdk backend msg.id with
  | .error e => (msg, some e)
  | .ok id => ({ msg with id := id }, none)

def maybeServerToClientRequestModify (sdk : Sdk) (backend : String) (msg : RpcRequest) :
    RpcRequest × Option String :=
  match rewriteParams sdk backend msg.method with
  | none => (msg, none)
  | some rewrite =>
    match msg.params with
    | none => modifyID sdk backend msg
    | some params =>
      match rewrite params with
      | .error e => (msg, some e)
      | .ok params => modifyID sdk backend { msg with params := some params }

/-! ## Responses -/

/-- The URI at a path of keys, prefixed; nothing when there is none. -/
def rewriteMetaPath (backend : String) : List String → Json → Option Json
  | [], .str uri => if uri = "" then none else some (.str (downstreamResourceURI uri backend))
  | key :: path, .obj ms =>
    ((Json.valuesIn key ms).head?.bind (rewriteMetaPath backend path)).map fun v =>
      .obj (Json.setMember key v ms)
  | _, _ => none

def metaResourceURIPaths : List (List String) := [["ui", "resourceUri"], ["ui/resourceUri"]]

/-- The new metadata, and whether anything changed. -/
def rewriteMetaResourceURIs (backend : String) (metadata : Json) : Json × Bool :=
  metaResourceURIPaths.foldl (fun st path =>
    match rewriteMetaPath backend path st.1 with
    | none => st
    | some j => (j, true)) (metadata, false)

/-- One content entry of a tool result, and whether its URI changed. -/
def rewriteContent (backend : String) : ToolContent → ToolContent × Bool
  | .resourceLink uri =>
    if uri = "" then (.resourceLink uri, false)
    else (.resourceLink (downstreamResourceURI uri backend), true)
  | .embeddedResource (some uri) =>
    if uri = "" then (.embeddedResource (some uri), false)
    else (.embeddedResource (some (downstreamResourceURI uri backend)), true)
  | c => (c, false)

/-- `rewriteToolResultURIs`: the result encoded anew, if a URI changed. -/
def rewriteToolResultURIs (backend : String) (r : CallToolResult) : Option Json :=
  let m := rewriteMetaResourceURIs backend r.metadata
  let cs := r.content.map (rewriteContent backend)
  if m.2 || cs.any (·.2) then some (r.encode m.1 (cs.map (·.1))) else none

def readScope (cacheScope : String) : String := if cacheScope = "" then "private" else cacheScope

def maybeResponseModify (sdk : Sdk) (req : RpcRequest) (backend : String) (msg : RpcResponse) :
    RpcResponse × Option String :=
  match msg.result with
  | none => (msg, none)
  | some result =>
    if req.method = "resources/read" then
      match sdk.readResourceResult result with
      | .error e => (msg, some ("failed to unmarshal resources/read result: " ++ e))
      | .ok r => ({ msg with result := some (r.encode
          (r.uris.map fun uri => downstreamResourceURI uri backend) (readScope r.cacheScope)) }, none)
    else if req.method = "tools/call" then
      match sdk.callToolResult result with
      | .error _ => (msg, none)
      | .ok r => ({ msg with result := some ((rewriteToolResultURIs backend r).getD result) }, none)
    else (msg, none)

/-- `errToolCall`. -/
structure ToolCallError where
  toolName : String
  backend : String
  validationError : Bool
  message : String

def contentText (sdk : Sdk) : ToolContent → String
  | .text t => t
  | .image m => "[image: " ++ m ++ "]"
  | c => sdk.marshalContent c

def checkToolCallError (sdk : Sdk) (req : RpcRequest) (backend : String) (msg : RpcResponse) :
    Option ToolCallError :=
  if req.method ≠ "tools/call" then none
  else
    match msg.result.map sdk.callToolResult with
    | some (.ok r) =>
      if r.isError then
        some
          { toolName := (req.params.bind sdk.callToolName).getD ""
            backend := backend
            validationError := r.content.any fun c => match c with
              | .text t => Cut.contains t.toList "validating".toList
              | _ => false
            message := "tool returned isError=true" ++
              (if r.content = [] then ""
                else ": " ++ String.intercalate "; " (r.content.map (contentText sdk))) }
      else none
    | _ => none

/-! ## One message -/

/-- A failure that is reported to the caller. -/
inductive ResponseError where
  | rpc (e : RpcError)
  | tool (e : ToolCallError)

def responseError (sdk : Sdk) (req : RpcRequest) (backend : String) (msg : RpcResponse) :
    Option ResponseError :=
  match msg.error with
  | some e => some (.rpc e)
  | none => (checkToolCallError sdk req backend msg).map .tool

/-- A message after the rewriting, what the rewriting assigned to `err` (nothing, if the
message is not rewritten), and the failure it reports. -/
structure Rewritten where
  msg : Message
  err : Option (Option String)
  failure : Option ResponseError

/-- The body of the loop over the messages of an event; `req` is the client's request. -/
def rewriteMessage (sdk : Sdk) (req : Option RpcRequest) (backend : String) : Message → Rewritten
  | .request r =>
    let m := maybeServerToClientRequestModify sdk backend r
    ⟨.request m.1, some m.2, none⟩
  | .response r =>
    match req with
    | none => ⟨.response r, none, none⟩
    | some q =>
      match maybeResponseModify sdk q backend r with
      | (r, some e) => ⟨.response r, some (some e), none⟩
      | (r, none) =>
        ⟨.response { r with id := q.id }, some none,
          responseError sdk q backend { r with id := q.id }⟩

/-! ## Lemmas -/

/-- The methods of a server that the proxy rewrites. -/
def rewrittenMethods : List String :=
  ["roots/list", "sampling/createMessage", "elicitation/create", "notifications/resources/updated"]

/-- The parameters decode as those of the method. -/
def paramsDecode (sdk : Sdk) (method : String) (params : Json) : Bool :=
  if method = "roots/list" then (sdk.listRootsParams params).isOk
  else if method = "sampling/createMessage" then (sdk.createMessageParams params).isOk
  else if method = "elicitation/create" then (sdk.elicitParams params).isOk
  else if method = "notifications/resources/updated" then (sdk.resourceUpdatedParams params).isOk
  else true

/-- A request of the server that the proxy can rewrite: one of the rewritten methods needs an id
and parameters that decode. -/
def RequestRewritable (sdk : Sdk) (r : RpcRequest) : Prop :=
  r.method ∈ rewrittenMethods →
    r.id ≠ .absent ∧ ∀ p, r.params = some p → paramsDecode sdk r.method p = true

/-- The messages the proxy tries to rewrite: all requests, and the responses to a request it knows. -/
def isRewritten (req : Option RpcRequest) : Message → Bool
  | .request _ => true
  | .response _ => req.isSome

def Rewritable (sdk : Sdk) (req : Option RpcRequest) : Message → Prop
  | .request r => RequestRewritable sdk r
  | .response r => ∀ q, req = some q → q.method = "resources/read" →
      ∀ res, r.result = some res → (sdk.readResourceResult res).isOk = true

variable (sdk : Sdk)

theorem rewriteMetaParams_isOk (backend name : String) (decode : Json → Except String MetaParams)
    (params : Json) :
    (rewriteMetaParams sdk backend name decode params).isOk = (decode params).isOk := by
  unfold rewriteMetaParams
  cases decode params <;> rfl

theorem rewriteParams_cases (backend method : String) :
    (method ∉ rewrittenMethods ∧ rewriteParams sdk backend method = none) ∨
      (method ∈ rewrittenMethods ∧ ∃ f, rewriteParams sdk backend method = some f ∧
        ∀ p, (f p).isOk = paramsDecode sdk method p) := by
  unfold rewriteParams paramsDecode
  by_cases h1 : method = "roots/list"
  · subst h1
    exact .inr ⟨by decide, _, if_pos rfl, fun p => rewriteMetaParams_isOk ..⟩
  by_cases h2 : method = "sampling/createMessage"
  · subst h2
    exact .inr ⟨by decide, _, rfl, fun p => rewriteMetaParams_isOk ..⟩
  by_cases h3 : method = "elicitation/create"
  · subst h3
    exact .inr ⟨by decide, _, rfl, fun p => rewriteMetaParams_isOk ..⟩
  by_cases h4 : method = "notifications/resources/updated"
  · subst h4
    exact .inr ⟨by decide, _, rfl, fun p => by
      unfold rewriteUpdatedParams
      cases sdk.resourceUpdatedParams p <;> rfl⟩
  · rw [if_neg h1, if_neg h2, if_neg h3, if_neg h4]
    exact .inl ⟨by simp [rewrittenMethods, h1, h2, h3, h4], rfl⟩

theorem modifyID_snd (backend : String) (msg : RpcRequest) :
    (modifyID sdk backend msg).2 = none ↔ msg.id ≠ .absent := by
  unfold modifyID prefixedID
  cases msg.id <;> simp

theorem maybeServerToClientRequestModify_snd (backend : String) (r : RpcRequest) :
    (maybeServerToClientRequestModify sdk backend r).2 = none ↔ RequestRewritable sdk r := by
  unfold maybeServerToClientRequestModify RequestRewritable
  rcases rewriteParams_cases sdk backend r.method with ⟨hm, h⟩ | ⟨hm, f, h, hf⟩
  · rw [h]
    exact ⟨fun _ hmem => absurd hmem hm, fun _ => rfl⟩
  · rw [h]
    cases hp : r.params with
    | none =>
      rw [modifyID_snd]
      exact ⟨fun hid _ => ⟨hid, fun p hp => by cases hp⟩, fun hall => (hall hm).1⟩
    | some p =>
      dsimp only
      have hdec := hf p
      cases hfp : f p with
      | error e =>
        rw [hfp] at hdec
        refine ⟨fun h => (by cases h), fun hall => ?_⟩
        have hok := (hall hm).2 p rfl
        rw [← hdec] at hok
        cases hok
      | ok p' =>
        rw [hfp] at hdec
        rw [modifyID_snd]
        refine ⟨fun hid _ => ⟨hid, fun q hq => ?_⟩, fun hall => (hall hm).1⟩
        cases hq
        exact hdec.symm

theorem maybeResponseModify_snd (q : RpcRequest) (backend : String) (r : RpcResponse) :
    (maybeResponseModify sdk q backend r).2 = none ↔
      (q.method = "resources/read" →
        ∀ res, r.result = some res → (sdk.readResourceResult res).isOk = true) := by
  unfold maybeResponseModify
  cases hres : r.result with
  | none => simp
  | some res =>
    dsimp only
    by_cases hm : q.method = "resources/read"
    · rw [if_pos hm]
      cases hd : sdk.readResourceResult res with
      | error e => simp [hm, hd, Except.isOk, Except.toBool]
      | ok x => simp [hd, Except.isOk, Except.toBool]
    · rw [if_neg hm]
      refine ⟨fun _ h => absurd h hm, fun _ => ?_⟩
      split
      · cases sdk.callToolResult res <;> rfl
      · rfl

theorem err_rewriteMessage (req : Option RpcRequest) (backend : String) (m : Message) :
    ((rewriteMessage sdk req backend m).err = none ↔ isRewritten req m = false) ∧
      ((rewriteMessage sdk req backend m).err = some none ↔
        isRewritten req m = true ∧ Rewritable sdk req m) := by
  cases m with
  | request r =>
    have h := maybeServerToClientRequestModify_snd sdk backend r
    simp [rewriteMessage, isRewritten, Rewritable, h]
  | response r =>
    cases req with
    | none => simp [rewriteMessage, isRewritten]
    | some q =>
      have h := maybeResponseModify_snd sdk q backend r
      rcases hm : maybeResponseModify sdk q backend r with ⟨r', e⟩
      rw [hm] at h
      cases e with
      | none =>
        have hr := h.mp rfl
        simp only [rewriteMessage, hm, isRewritten, Rewritable]
        simpa using hr
      | some e =>
        have hr := mt h.mpr (Option.some_ne_none e)
        simp only [rewriteMessage, hm, isRewritten, Rewritable]
        simpa using hr

end AgentRouter.MCP
