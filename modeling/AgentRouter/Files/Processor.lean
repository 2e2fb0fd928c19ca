import AgentRouter.ExtProc.LocalReply
import AgentRouter.Files.IDCodec
import AgentRouter.Files.RouteRule

/-!
# Processor: requests and responses of the Files API

The files processor of the router filter sends a file operation to the backend that holds the file.
Uploads and lists name a model; every id in a response is replaced by an id that records the
backend, the model and the backend's own id; a request for such an id is routed by the recorded
model, gets the backend's id back into its path, and may go to no backend but the recorded one.

Strings of requests and responses are byte strings.  The translators of the only supported schema
change nothing and are left out, and so is the file itself: of an upload only the model is read.
-/

namespace AgentRouter.Files

open Kube Controller Text Cut ExtProc IDCodec

/-! ## Algorithm -/

/-! ### Paths -/

inductive FilesOperation where
  | upload | list | retrieve | content | delete
  deriving DecidableEq

/-- `/v1/files` -/
def filesPathMarker : Bytes := utf8 "/v1/files"

def questionMark : UInt8 := 63

def methodGet : Bytes := utf8 "GET"
def methodPost : Bytes := utf8 "POST"
def methodDelete : Bytes := utf8 "DELETE"

/-- The path and the query with its question mark. -/
def splitQuery (path : Bytes) : Bytes × Bytes :=
  match cut [questionMark] path with
  | some (pathOnly, query) => (pathOnly, questionMark :: query)
  | none => (path, [])

/-- `strings.TrimPrefix(s, "/")`. -/
def trimSlash : Bytes → Bytes
  | [] => []
  | c :: rest => if c = slash then rest else c :: rest

/-- The operation and the id for what follows the marker. -/
def classifySuffix (method suffix : Bytes) : Option (FilesOperation × Bytes) :=
  if suffix = [] ∨ suffix = [slash] then
    if method = methodPost then some (.upload, [])
    else if method = methodGet then some (.list, [])
    else none
  else
    match (trimSlash suffix).splitOn slash with
    | [id] =>
      if id = [] then none
      else if method = methodGet then some (.retrieve, id)
      else if method = methodDelete then some (.delete, id)
      else none
    | [id, last] =>
      if id ≠ [] ∧ last = utf8 "content" ∧ method = methodGet then some (.content, id) else none
    | _ => none

/-- `none` for a request that is none of the API. -/
def classifyFilesRequest (method rawPath : Bytes) : Option (FilesOperation × Bytes) :=
  match cut filesPathMarker (splitQuery rawPath).1 with
  | none => none
  | some (_, suffix) => classifySuffix method suffix

/-- `url.ParseQuery` and `Values.Encode`. -/
structure QueryLib where
  parse : Bytes → Option (GoMap Bytes (List Bytes))
  encode : GoMap Bytes (List Bytes) → Bytes

/-- `strings.TrimPrefix(s, "?")` of a query. -/
def trimQuestionMark : Bytes → Bytes
  | [] => []
  | c :: rest => if c = questionMark then rest else c :: rest

def queryParam (lib : QueryLib) (path name : Bytes) : Bytes :=
  match lib.parse (trimQuestionMark (splitQuery path).2) with
  | none => []
  | some values => ((values.lookup name).bind List.head?).getD []

def setQueryParam (lib : QueryLib) (path name value : Bytes) : Bytes :=
  let encoded (values : GoMap Bytes (List Bytes)) : Bytes :=
    if lib.encode values = [] then (splitQuery path).1
    else (splitQuery path).1 ++ questionMark :: lib.encode values
  match lib.parse (trimQuestionMark (splitQuery path).2) with
  | none => path
  | some values =>
    if value = [] then if name ∈ values then encoded (values.erase name) else path
    else encoded (values.insert name [value])

/-! ### The request at the router filter -/

structure BackendKey where
  ns : Bytes
  name : Bytes
  deriving DecidableEq

/-- The fields of `filesProcessor` that the router filter keeps between its phases. -/
structure FilesProcessor where
  path : Bytes
  op : FilesOperation
  backend : Option BackendKey
  decodedBackend : Option BackendKey
  routingModel : Bytes
  deriving DecidableEq

/-- What a request carries for the processor; `formModel` is the `model` field of an upload's
multipart body, empty if there is none. -/
structure FilesRequest where
  method : Bytes
  path : Bytes
  formModel : Bytes

/-- The headers that a phase sets. -/
structure RequestMutation where
  originalPath : Bytes
  path : Option Bytes
  /-- `x-ai-eg-model`, by which routes are matched. -/
  model : Option Bytes
  deriving DecidableEq

section

variable (codec : Codec) (lib : QueryLib)

def handleListRequestHeaders (path : Bytes) : Except LocalError (FilesProcessor × RequestMutation) :=
  let after := queryParam lib path (utf8 "after")
  let routed (model upstreamPath : Bytes) (decodedBackend : Option BackendKey) :
      Except LocalError (FilesProcessor × RequestMutation) :=
    if model = [] then .error .missingModelQuery
    else .ok (⟨path, .list, none, decodedBackend, model⟩, ⟨path, some upstreamPath, some model⟩)
  let model := queryParam lib path (utf8 "model")
  let upstreamPath := setQueryParam lib path (utf8 "model") []
  if after = [] then routed model upstreamPath none
  else
    match codec.decode after with
    | none => .error .invalidAfterCursor
    | some decoded =>
      if decoded.kind ≠ kindFile then .error .invalidAfterCursor
      else
        routed (if model = [] then decoded.model else model)
          (setQueryParam lib upstreamPath (utf8 "after") decoded.nativeID)
          (some ⟨decoded.ns, decoded.name⟩)

/-- The path with the native id in the place of what follows the marker. -/
def rewrittenPath (path : Bytes) (op : FilesOperation) (nativeID : Bytes) : Bytes :=
  match cut filesPathMarker (splitQuery path).1 with
  | none => path
  | some (base, _) =>
    base ++ filesPathMarker ++ slash :: nativeID ++
      (if op = .content then utf8 "/content" else []) ++ (splitQuery path).2

def handleIDBearingRequestHeaders (path : Bytes) (op : FilesOperation) (gatewayID : Bytes) :
    Except LocalError (FilesProcessor × RequestMutation) :=
  match codec.decode gatewayID with
  | none => .error (.noSuchFile gatewayID)
  | some decoded =>
    if decoded.kind ≠ kindFile then .error (.noSuchFile gatewayID)
    else
      .ok (⟨path, op, none, some ⟨decoded.ns, decoded.name⟩, decoded.model⟩,
        ⟨path, some (rewrittenPath path op decoded.nativeID),
          if decoded.model = [] then none else some decoded.model⟩)

def processRequestHeaders (req : FilesRequest) :
    Except LocalError (FilesProcessor × RequestMutation) :=
  match classifyFilesRequest req.method req.path with
  | none => .error .unsupportedFilesRequest
  | some (.upload, _) => .ok (⟨req.path, .upload, none, none, []⟩, ⟨req.path, none, none⟩)
  | some (.list, _) => handleListRequestHeaders codec lib req.path
  | some (op, id) => handleIDBearingRequestHeaders codec req.path op id

/-- Only an upload has a body to look at. -/
def processRequestBody (p : FilesProcessor) (formModel : Bytes) :
    Except LocalError (FilesProcessor × Option RequestMutation) :=
  if p.op ≠ .upload then .ok (p, none)
  else if formModel = [] then .error .missingModelField
  else .ok ({ p with routingModel := formModel }, some ⟨p.path, none, some formModel⟩)

/-- A request on its way to a backend. -/
structure Routed where
  processor : FilesProcessor
  /-- the model header, if the processor sets it. -/
  model : Option Bytes
  path : Bytes
  deriving DecidableEq

/-- Both phases. -/
def routeRequest (req : FilesRequest) : Except LocalError Routed :=
  match processRequestHeaders codec lib req with
  | .error e => .error e
  | .ok (p, headers) =>
    match processRequestBody p req.formModel with
    | .error e => .error e
    | .ok (p, body) => .ok ⟨p, (body.bind (·.model)).or headers.model, headers.path.getD req.path⟩

end

/-! ### The backend -/

def namespaceAndNameFromBackendName (backendName : String) : Option (String × String) :=
  match splitN ['/'] 3 backendName.toList with
  | ns :: name :: _ => if ns = [] ∨ name = [] then none else some (.ofList ns, .ofList name)
  | _ => none

inductive SetBackendError where
  /-- "files API supports exactly one backend per route rule, but the rule serving %q has %d
  backends". -/
  | severalBackends (name : String) (n : Nat)
  /-- "could not parse backend identity %q for files request". -/
  | noIdentity (name : String)
  /-- "file id belongs to backend %s/%s, but the request was routed to %s/%s". -/
  | otherBackend (decoded selected : BackendKey)
  /-- "files API not supported for schema %s". -/
  | unsupportedSchema (schema : APISchema)
  deriving DecidableEq

/-- `SetBackend` on the router's processor, once for each attempt. -/
def setBackend (config : Option (GoMap String Backend)) (rp : FilesProcessor) (backend : Backend) :
    Except SetBackendError FilesProcessor :=
  if routeRuleBackendCount config backend.name > 1 then
    .error (.severalBackends backend.name (routeRuleBackendCount config backend.name))
  else
    match namespaceAndNameFromBackendName backend.name with
    | none => .error (.noIdentity backend.name)
    | some (ns, name) =>
      let selected : BackendKey := ⟨utf8 ns, utf8 name⟩
      match rp.decodedBackend.filter (· ≠ selected) with
      | some decoded => .error (.otherBackend decoded selected)
      | none =>
        if backend.schema.name ≠ .openAI then .error (.unsupportedSchema backend.schema.name)
        else .ok { rp with backend := some selected }

/-! ### The response at the router filter -/

/-- A JSON value as gjson shows it: a string, or the text of another value (empty for null). -/
inductive FieldValue where
  | str (s : Bytes)
  | other (text : Bytes)
  deriving DecidableEq

/-- `Result.String`. -/
def FieldValue.text : FieldValue → Bytes
  | .str s => s
  | .other t => t

structure FileListResponse where
  /-- the ids of the files; `none` if there is no data array. -/
  data : Option (List Bytes)
  firstID : Bytes
  lastID : Bytes
  deriving DecidableEq

/-- The body of an upstream response: its top-level members in order, and what `json.Unmarshal` takes
it for as a page of a list. -/
structure UpstreamBody where
  length : Nat
  members : List (String × FieldValue)
  page : Option FileListResponse

/-- `gjson.GetBytes(body, "id").String()`. -/
def getID (members : List (String × FieldValue)) : Bytes :=
  ((members.find? fun m => m.1 = "id").map fun m => m.2.text).getD []

/-- `sjson.SetBytes(body, "id", gw)`. -/
def setID (gw : Bytes) : List (String × FieldValue) → List (String × FieldValue)
  | [] => [("id", .str gw)]
  | m :: ms => if m.1 = "id" then ("id", .str gw) :: ms else m :: setID gw ms

/-- The body that the client gets. -/
inductive FilesReply where
  | file (members : List (String × FieldValue))
  | page (page : FileListResponse)
  /-- upstream errors and the contents of files. -/
  | unchanged
  deriving DecidableEq

variable (codec : Codec) (p : FilesProcessor)

def encodeFileID (backend : BackendKey) (nativeID : Bytes) : Except EncodeError Bytes :=
  codec.encode ⟨backend.ns, backend.name, kindFile, p.routingModel, nativeID⟩

/-- The checks of `translatedResponseBody`; gives the backend that has answered. -/
def servingBackend (body : UpstreamBody) (kind : FilesKind) : Except LocalError BackendKey :=
  match p.backend with
  | none =>
    if p.op = .upload ∧ p.routingModel ≠ [] then .error (.reEncode (.noRoute p.routingModel))
    else .error (.reEncode (.unknownBackend kind))
  | some backend => if body.length = 0 then .error (.reEncode (.emptyBody kind)) else .ok backend

def reEncodeResponse (body : UpstreamBody) : Except LocalError FilesReply :=
  match servingBackend p body .file with
  | .error e => .error e
  | .ok backend =>
    if getID body.members = [] then .error (.reEncode .missingID)
    else
      match encodeFileID codec p backend (getID body.members) with
      | .error _ => .error (.reEncode .encodeID)
      | .ok gw => .ok (.file (setID gw body.members))

/-- An empty id stays empty. -/
def reEncodeID (backend : BackendKey) (nativeID : Bytes) : Except EncodeError Bytes :=
  if nativeID = [] then .ok [] else encodeFileID codec p backend nativeID

def reEncodeListResponse (body : UpstreamBody) : Except LocalError FilesReply :=
  match servingBackend p body .list with
  | .error e => .error e
  | .ok backend =>
    match body.page.bind fun page => page.data.map fun data => (page, data) with
    | none => .error (.reEncode .notAList)
    | some (page, data) =>
      match (do
        let ids ← data.mapM (reEncodeID codec p backend)
        let firstID ← reEncodeID codec p backend page.firstID
        let lastID ← reEncodeID codec p backend page.lastID
        return (⟨some ids, firstID, lastID⟩ : FileListResponse)) with
      | .error _ => .error (.reEncode .encodeListID)
      | .ok page => .ok (.page page)

/-- A response without a readable status counts as a success. -/
def isSuccessResponse (status : Option String) : Bool :=
  match status.bind atoi with
  | none => true
  | some code => 200 ≤ code && code < 300

def processResponseBody (status : Option String) (body : UpstreamBody) :
    Except LocalError FilesReply :=
  if !isSuccessResponse status then .ok .unchanged
  else
    match p.op with
    | .content => .ok .unchanged
    | .list => reEncodeListResponse codec p body
    | _ => reEncodeResponse codec p body

end AgentRouter.Files
