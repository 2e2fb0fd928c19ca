import AgentRouter.Lib.Naming
import AgentRouter.MCP.Aggregate
import AgentRouter.MCP.RouteConfig

/-!
# Listing: the names a client sees and the names it may call

`mergeToolsList` and `mergePromptsList` give tools and prompts the names the client sees.  A call
takes another way: the handler looks the name up in the index of bare names, or else takes it apart
at the separator, and checks the backend, its selector, the authorization and the session.  Both
follow one scheme of names (`Naming.Scheme`):

    the names are distinct; calling one reaches the backend and the name it was made from;
    whatever can be reached is listed   (listing_agrees_with_calls)

The scheme needs names of backends that the separator cannot be confused with: a backend `a_` with
a tool `x` would be listed as `a___x`, which reads as the tool `_x` of `a`.
-/

namespace AgentRouter.MCPProxy

open Text List
open MCP (BroadCastResponse nameSeparator rewriteMetaResourceURIs)

/-! ## Names -/

def downstreamResourceName (name backend : String) : String := backend ++ nameSeparator ++ name

def upstreamResourceName (fullName : String) : Except String (String × String) :=
  match Cut.cut nameSeparator.toList fullName.toList with
  | none => .error ("invalid resource name: " ++ fullName)
  | some (backend, name) => .ok (String.ofList backend, String.ofList name)

/-! ## Requests and sessions -/

structure Session where
  route : String
  /-- the id of the session with each backend. -/
  perBackendSessions : GoMap String String

/-- `mcpRequestContext`. -/
structure RequestContext where
  lib : ConfigLib
  routes : GoMap String ProxyRoute
  requestHeaders : Header

def getBackendForRoute (m : RequestContext) (route backend : String) : Except String MCPBackend :=
  match m.routes.lookup route with
  | none => .error ("no route found for " ++ quoted route)
  | some r =>
    match r.backends.lookup backend with
    | none => .error ("no backend found for " ++ quoted backend ++ " in route " ++ quoted route)
    | some b => .ok b

/-- A selector that is not there allows everything. -/
def selectorAllows (selectors : GoMap String ToolSelector) (backend name : String) : Bool :=
  match selectors.lookup backend with
  | none => true
  | some ts => ts.allows name

/-! ## Listing -/

structure Cacheable where
  ttlMs : Int
  cacheScope : String

structure Tool where
  name : String
  metadata : Json

structure Prompt where
  name : String

/-- `mcp.ListToolsResult` and `mcp.ListPromptsResult`. -/
structure ListResult (α : Type) where
  items : List α
  cacheable : Cacheable

def defaultTTLMs : Int := 0

def defaultCacheScope : String := "public"

/-- One round of the loop over the hints: the shortest lifetime so far and the scope. -/
def mergeCachingHint (st : Option Int × String) (c : Cacheable) : Option Int × String :=
  (match st.1 with
    | none => some (max c.ttlMs 0)
    | some ttl => some (if max c.ttlMs 0 < ttl then max c.ttlMs 0 else ttl),
   if c.cacheScope ≠ "" ∧ c.cacheScope ≠ defaultCacheScope then "private" else st.2)

def mergeCachingHintsFromBackends (results : List Cacheable) : Cacheable :=
  let st := results.foldl mergeCachingHint (none, defaultCacheScope)
  ⟨st.1.getD defaultTTLMs, st.2⟩

def mergedCachingHints {α : Type} (responses : List (BroadCastResponse (ListResult α))) :
    Cacheable :=
  mergeCachingHintsFromBackends (responses.map (·.res.cacheable))

/-- The loop body of `mergeToolsList`: the tool as the client sees it, if it does. -/
def exposeTool (m : RequestContext) (route : ProxyRoute) (backend : String) (tool : Tool) :
    Option Tool :=
  if selectorAllows route.toolSelectors backend tool.name = false then none
  else if (authorizeRequest m.lib.toAuthLib route.authorization
      { headers := m.requestHeaders, httpMethod := "", host := "", httpPath := "",
        mcpMethod := "tools/call", backend := backend, tool := tool.name, params := none }).1
      = false then none
  else if route.effectivePrefixMode backend ≠ some .never then
    if (route.neverModeToolIndex.lookup (downstreamResourceName tool.name backend)).isSome then none
    else some ⟨downstreamResourceName tool.name backend,
      (rewriteMetaResourceURIs backend tool.metadata).1⟩
  else some ⟨tool.name, (rewriteMetaResourceURIs backend tool.metadata).1⟩

def mergeToolsList (m : RequestContext) (s : Session)
    (responses : List (BroadCastResponse (ListResult Tool))) : ListResult Tool :=
  match m.routes.lookup s.route with
  | none => ⟨[], ⟨0, ""⟩⟩
  | some route =>
    ⟨responses.flatMap fun r => r.res.items.filterMap (exposeTool m route r.backendName),
      mergedCachingHints responses⟩

/-- The loop body of `mergePromptsList`, on a route that exists. -/
def exposePromptOn (route : ProxyRoute) (backend : String) (prompt : Prompt) : Option Prompt :=
  if selectorAllows route.promptSelectors backend prompt.name = false then none
  else if route.effectivePrefixMode backend = some .never ∧
      -- a name that is not in the index reads as the empty string
      (route.neverModePromptIndex.lookup prompt.name).getD "" = backend then some prompt
  else if (route.neverModePromptIndex.lookup (downstreamResourceName prompt.name backend)).isSome
    then none
  else some ⟨downstreamResourceName prompt.name backend⟩

def exposePrompt (route : Option ProxyRoute) (backend : String) (prompt : Prompt) : Option Prompt :=
  match route with
  | none => some ⟨downstreamResourceName prompt.name backend⟩
  | some route => exposePromptOn route backend prompt

def mergePromptsList (m : RequestContext) (s : Session)
    (responses : List (BroadCastResponse (ListResult Prompt))) : ListResult Prompt :=
  ⟨responses.flatMap fun r =>
      r.res.items.filterMap (exposePrompt (m.routes.lookup s.route) r.backendName),
    mergedCachingHints responses⟩

/-! ## Calling -/

/-- What is written when a request is refused. -/
structure ErrorResponse where
  status : Nat
  body : String
  wwwAuthenticate : Option String
  deriving DecidableEq

/-- A request that is sent on: to which backend, in which session and under which name. -/
structure Forwarded where
  backend : MCPBackend
  sessionID : String
  name : String
  deriving DecidableEq

/-- The parts of the HTTP request that the authorization may look at. -/
structure HTTPRequest where
  headers : Header
  method : String
  host : String
  path : Option String

structure CallToolParams where
  name : String
  arguments : Json

def CallToolParams.encode (p : CallToolParams) : Json :=
  .obj [("name", .str p.name), ("arguments", p.arguments)]

/-- A name in the index belongs to the backend found there; any other name is taken apart. -/
def resolveIn (indexed : Option String) (name : String) : Except String (String × String) :=
  match indexed with
  | some backend => .ok (backend, name)
  | none => upstreamResourceName name

/-- The entry of a session for a backend, as the last step of a call. -/
def forwardTo (s : Session) (backend : MCPBackend) (backendName name : String) :
    Except ErrorResponse Forwarded :=
  match s.perBackendSessions.lookup backendName with
  | none => .error ⟨403, "no MCP session found for backend " ++ backendName, none⟩
  | some sessionID => .ok ⟨backend, sessionID, name⟩

/-- The answer to a call that is not authorized. -/
def accessDenied (route : ProxyRoute) (requiredScopes : List String) : ErrorResponse :=
  ⟨403, "access denied",
    if requiredScopes = [] then none
    else some (buildInsufficientScopeHeader requiredScopes
      ((route.authorization.map (·.resourceMetadataURL)).getD ""))⟩

def handleToolCallRequest (m : RequestContext) (s : Session) (r : HTTPRequest) (mcpMethod : String)
    (p : CallToolParams) : Except ErrorResponse Forwarded :=
  match resolveIn ((m.routes.lookup s.route).bind (·.neverModeToolIndex.lookup p.name)) p.name with
  | .error e => .error ⟨400, "invalid tool name " ++ p.name ++ ": " ++ e, none⟩
  | .ok (backendName, toolName) =>
    match getBackendForRoute m s.route backendName with
    | .error _ => .error ⟨404, "unknown backend " ++ backendName, none⟩
    | .ok backend =>
      match m.routes.lookup s.route with
      | none => .error ⟨500, "route not found: " ++ s.route, none⟩
      | some route =>
        if selectorAllows route.toolSelectors backendName toolName = false then
          .error ⟨400, "invalid tool name: " ++ toolName, none⟩
        else
          match authorizeRequest m.lib.toAuthLib route.authorization
            { headers := r.headers, httpMethod := r.method, host := r.host,
              httpPath := r.path.getD "", mcpMethod := mcpMethod, backend := backendName,
              tool := toolName, params := some p.encode } with
          | (false, requiredScopes) => .error (accessDenied route requiredScopes)
          | (true, _) => forwardTo s backend backendName toolName

def resolvePromptBackend (m : RequestContext) (route name : String) :
    Except String (String × String) :=
  resolveIn ((m.routes.lookup route).bind (·.neverModePromptIndex.lookup name)) name

def promptAllowed (m : RequestContext) (route backend prompt : String) : Bool :=
  match m.routes.lookup route with
  | none => false
  | some r => selectorAllows r.promptSelectors backend prompt

def handlePromptGetRequest (m : RequestContext) (s : Session) (name : String) :
    Except ErrorResponse Forwarded :=
  match resolvePromptBackend m s.route name with
  | .error e => .error ⟨400, "invalid prompt name " ++ name ++ ": " ++ e, none⟩
  | .ok (backendName, promptName) =>
    match getBackendForRoute m s.route backendName with
    | .error _ => .error ⟨404, "unknown backend " ++ backendName, none⟩
    | .ok backend =>
      if promptAllowed m s.route backendName promptName = false then
        .error ⟨400, "invalid prompt name: " ++ name, none⟩
      else forwardTo s backend backendName promptName

/-! ## The scheme of names -/

/-- A name of a backend that the separator cannot be confused with. -/
structure PlainBackendName (b : String) : Prop where
  nonempty : b ≠ ""
  free : ¬ nameSeparator.toList <:+: b.toList
  last : b.toList.getLast? ≠ some '_'

variable {b : String}

theorem not_infix_of_plain (h : PlainBackendName b) :
    ¬ nameSeparator.toList <:+: b.toList ++ nameSeparator.toList.dropLast := by
  intro hinfix
  change ['_', '_'] <:+: b.toList ++ ['_'] at hinfix
  rw [infix_concat_iff] at hinfix
  rcases hinfix with hsuffix | hinfix
  · rcases suffix_concat_iff.mp hsuffix with hnil | ⟨t, heq, ht⟩
    · cases hnil
    · obtain ⟨rfl, -⟩ := append_inj' (show ['_'] ++ ['_'] = t ++ ['_'] from heq) rfl
      obtain ⟨u, hu⟩ := ht
      have hlast := h.last
      rw [← hu] at hlast
      simp at hlast
  · exact h.free hinfix

theorem upstreamResourceName_downstreamResourceName (n : String) (h : PlainBackendName b) :
    upstreamResourceName (downstreamResourceName n b) = .ok (b, n) := by
  unfold upstreamResourceName downstreamResourceName
  rw [String.toList_append, String.toList_append, Cut.cut_append _ (by decide) (not_infix_of_plain h)]
  simp

/-- The names that go with an index of bare names. -/
def nameScheme (index : GoMap String String) : Naming.Scheme String String where
  index := fun n => index.lookup n
  join := fun b n => downstreamResourceName n b
  split := fun name => (upstreamResourceName name).toOption

variable {index : GoMap String String}

theorem resolveIn_eq_ok {name n : String} :
    resolveIn (index.lookup name) name = .ok (b, n) ↔
      Naming.resolve (nameScheme index) name = some (b, n) := by
  unfold resolveIn Naming.resolve
  simp only [nameScheme]
  cases index.lookup name with
  | some c => simp
  | none =>
    cases upstreamResourceName name with
    | error e | ok p => simp [Except.toOption]

/-! ## Agreement -/

/-- The list shown to the client agrees with what calls do. -/
structure Agreement {α : Type} (name : α → String)
    (responses : List (BroadCastResponse (ListResult α))) (expose : String → α → Option α)
    (listed : List α) (call : String → Except ErrorResponse Forwarded) : Prop where
  distinct : (listed.map name).Nodup
  callable : ∀ x' ∈ listed, ∃ r ∈ responses, ∃ x ∈ r.res.items, expose r.backendName x = some x' ∧
    ∃ f, call (name x') = .ok f ∧ f.backend.name = r.backendName ∧ f.name = name x
  complete : ∀ n f, call n = .ok f → ∀ r ∈ responses, r.backendName = f.backend.name →
    ∀ x ∈ r.res.items, name x = f.name → ∃ x' ∈ listed, expose r.backendName x = some x'

/-- Lists that come from the backends of a session that the route knows, each without duplicates. -/
structure Answers {α : Type} (name : α → String) (m : RequestContext) (s : Session)
    (responses : List (BroadCastResponse (ListResult α))) : Prop where
  backends : (responses.map (·.backendName)).Nodup
  names : ∀ r ∈ responses, (r.res.items.map name).Nodup
  session : ∀ r ∈ responses, ∃ id, s.perBackendSessions.lookup r.backendName = some id
  known : ∀ r ∈ responses, ∃ b, getBackendForRoute m s.route r.backendName = .ok b

section

variable {α : Type} {name : α → String} {responses : List (BroadCastResponse (ListResult α))}

/-- Each backend with the names of its list. -/
def families (name : α → String) (responses : List (BroadCastResponse (ListResult α))) :
    List (String × List String) :=
  responses.map fun r => (r.backendName, r.res.items.map name)

/-- The name of an entry in the scheme, if it is allowed. -/
def schemeName (scheme : Naming.Scheme String String) (allowed : String → String → Bool)
    (e : String × String) : Option String :=
  if allowed e.1 e.2 then Naming.expose scheme e.1 e.2 else none

variable {expose : String → α → Option α}

theorem map_name_flatMap_filterMap (exposeName : String × String → Option String)
    (hexpose : ∀ r ∈ responses, ∀ x ∈ r.res.items, (expose r.backendName x).map name =
      exposeName (r.backendName, name x)) :
    (responses.flatMap fun r => r.res.items.filterMap (expose r.backendName)).map name =
      (Naming.entries (families name responses)).filterMap exposeName := by
  unfold Naming.entries families
  rw [flatMap_map, map_flatMap, filterMap_flatMap]
  refine flatMap_congr fun r hr => ?_
  rw [map_map, filterMap_map, map_filterMap]
  exact filterMap_congr fun x => hexpose r hr x

variable {call : String → Except ErrorResponse Forwarded}

/-- Listing and calling agree when both follow one scheme of names and one predicate. -/
theorem agreement_of_scheme {m : RequestContext} {s : Session}
    (scheme : Naming.Scheme String String) (allowed : String → String → Bool)
    (hanswers : Answers name m s responses)
    (hexpose : ∀ r ∈ responses, ∀ x ∈ r.res.items, (expose r.backendName x).map name = schemeName scheme allowed (r.backendName, name x))
    (hcall : ∀ r ∈ responses, ∀ name' n, (∃ f, call name' = .ok f ∧ f.backend.name = r.backendName ∧ f.name = n) ↔ Naming.resolve scheme name' = some (r.backendName, n) ∧ allowed r.backendName n = true)
    (hjoin : ∀ r ∈ responses, ∀ n, scheme.split (scheme.join r.backendName n) = some (r.backendName, n))
    (hsplit : ∀ {name' b n}, scheme.split name' = some (b, n) → name' = scheme.join b n) :
    Agreement name responses expose
      (responses.flatMap fun r => r.res.items.filterMap (expose r.backendName)) call := by
  -- what an exposed entry says about the call of its name
  have hback : ∀ r ∈ responses, ∀ n name', schemeName scheme allowed (r.backendName, n) =
      some name' → Naming.resolve scheme name' = some (r.backendName, n) ∧
        allowed r.backendName n = true := by
    intro r hr n name' h
    unfold schemeName at h
    split at h
    next hallowed => exact ⟨Naming.resolve_of_expose (hjoin r hr _) h, hallowed⟩
    · cases h
  have hentry : ∀ e ∈ Naming.entries (families name responses), ∃ r ∈ responses, r.backendName = e.1 := by
    intro e he
    obtain ⟨names, hf, -⟩ := Naming.mem_entries.mp he
    obtain ⟨r, hr, heq⟩ := mem_map.mp hf
    exact ⟨r, hr, (Prod.mk.inj heq).1⟩
  constructor
  · have hnodup : (Naming.entries (families name responses)).Nodup := by
      refine Naming.nodup_entries ?_ ?_
      · rw [families, map_map]
        exact hanswers.backends
      · intro f hf
        obtain ⟨r, hr, rfl⟩ := mem_map.mp hf
        exact hanswers.names r hr
    rw [map_name_flatMap_filterMap (schemeName scheme allowed) hexpose, List.Nodup, pairwise_filterMap]
    -- two entries with the same name would both be what the name resolves to
    refine hnodup.imp_of_mem fun {e e'} he he' hne n hn n' hn' heq => ?_
    subst heq
    obtain ⟨r, hr, hb⟩ := hentry e he
    obtain ⟨r', hr', hb'⟩ := hentry e' he'
    have h := (hback r hr e.2 n (by rw [hb]; exact hn)).1
    rw [(hback r' hr' e'.2 n (by rw [hb']; exact hn')).1, hb, hb'] at h
    exact hne (Option.some.inj h).symm
  · intro x' hx'
    obtain ⟨r, hr, hx'⟩ := mem_flatMap.mp hx'
    obtain ⟨x, hx, hexp⟩ := mem_filterMap.mp hx'
    refine ⟨r, hr, x, hx, hexp, ?_⟩
    rw [hcall r hr]
    exact hback r hr (name x) (name x') (by rw [← hexpose r hr x hx, hexp]; rfl)
  · intro n f hf r hr hb x hx hname
    obtain ⟨hresolve, hallowed⟩ := (hcall r hr n f.name).mp ⟨f, hf, hb.symm, rfl⟩
    obtain ⟨name', hname'⟩ := Naming.expose_of_resolve hsplit hresolve
    have hmap := hexpose r hr x hx
    rw [schemeName, hname, if_pos hallowed, hname', Option.map_eq_some_iff] at hmap
    obtain ⟨x', hx', -⟩ := hmap
    exact ⟨x', mem_flatMap.mpr ⟨r, hr, mem_filterMap.mpr ⟨x, hx, hx'⟩⟩, hx'⟩

end

/-! ## Tools -/

section

variable {m : RequestContext} {s : Session} {route : ProxyRoute} {spec : RouteSpec}

variable (hroute : m.routes.lookup s.route = some route)

include hroute in
theorem getBackendForRoute_eq_ok {backend : MCPBackend} :
    getBackendForRoute m s.route b = .ok backend ↔ route.backends.lookup b = some backend := by
  unfold getBackendForRoute
  rw [hroute]
  cases hb : route.backends.lookup b with
  | none | some c => simp [hb]

variable {f : Forwarded}

theorem forwardTo_eq_ok {backend : MCPBackend} {n : String} :
    forwardTo s backend b n = .ok f ↔
      ∃ id, s.perBackendSessions.lookup b = some id ∧ f = ⟨backend, id, n⟩ := by
  unfold forwardTo
  cases s.perBackendSessions.lookup b with
  | none => simp
  | some id => simp [eq_comm]

/-- The request by which `mergeToolsList` asks whether a tool may be called. -/
def listingRequest (headers : Header) (backend tool : String) : AuthorizationRequest :=
  { headers := headers, httpMethod := "", host := "", httpPath := "", mcpMethod := "tools/call",
    backend := backend, tool := tool, params := none }

def toolAllowed (m : RequestContext) (route : ProxyRoute) (backend tool : String) : Bool :=
  selectorAllows route.toolSelectors backend tool &&
    (authorizeRequest m.lib.toAuthLib route.authorization
      (listingRequest m.requestHeaders backend tool)).1

theorem exposeTool_name (hloaded : Loaded m.lib spec route) (tool : Tool)
    (hb : b ∈ spec.backendRefs.map (·.name)) :
    (exposeTool m route b tool).map (·.name) =
      schemeName (nameScheme route.neverModeToolIndex) (toolAllowed m route) (b, tool.name) := by
  unfold exposeTool schemeName toolAllowed
  rw [← listingRequest]
  cases hsel : selectorAllows route.toolSelectors b tool.name with
  | false => simp
  | true =>
    cases (authorizeRequest m.lib.toAuthLib route.authorization
      (listingRequest m.requestHeaders b tool.name)).1 with
    | false => simp
    | true =>
      simp only [Bool.true_eq_false, if_false, Bool.and_self, if_true]
      by_cases hmode : route.effectivePrefixMode b = some .never
      · have hindex : route.neverModeToolIndex.lookup tool.name = some b := by
          refine hloaded.toolIndex_of_allows hb hmode fun ts hts => ?_
          rw [selectorAllows, hts] at hsel
          exact hsel
        rw [if_neg (not_not.mpr hmode), Naming.expose_of_bare hindex]
        rfl
      · have hindex : route.neverModeToolIndex.lookup tool.name ≠ some b :=
          fun h => hmode (hloaded.toolIndex_never h)
        rw [if_pos hmode, Naming.expose_of_not_bare hindex]
        simp only [nameScheme]
        split
        next h => simp [h]
        next h => simp [h]

include hroute in
theorem handleToolCallRequest_eq_ok (hcel : ∀ a ∈ route.authorization, a.NoCEL) {r : HTTPRequest}
    (hheaders : r.headers = m.requestHeaders) (method : String) (p : CallToolParams) :
    handleToolCallRequest m s r method p = .ok f ↔
      ∃ b n, resolveIn (route.neverModeToolIndex.lookup p.name) p.name = .ok (b, n) ∧
        route.backends.lookup b = some f.backend ∧ toolAllowed m route b n = true ∧
        s.perBackendSessions.lookup b = some f.sessionID ∧ f.name = n := by
  have hauth : ∀ b n path params, authorizeRequest m.lib.toAuthLib route.authorization
      { headers := r.headers, httpMethod := r.method, host := r.host, httpPath := path,
        mcpMethod := method, backend := b, tool := n, params := params } =
      authorizeRequest m.lib.toAuthLib route.authorization (listingRequest m.requestHeaders b n) :=
    fun _ _ _ _ => authorizeRequest_congr hcel hheaders rfl rfl
  unfold handleToolCallRequest toolAllowed
  simp only [hroute, Option.bind_some, hauth]
  constructor
  · intro h
    split at h
    · cases h
    next b n hresolve =>
      split at h
      · cases h
      next backend hbackend =>
        split at h
        · cases h
        next hsel =>
          split at h
          · cases h
          next scopes hallowed =>
            obtain ⟨id, hid, rfl⟩ := forwardTo_eq_ok.mp h
            rw [getBackendForRoute_eq_ok hroute] at hbackend
            rw [Bool.not_eq_false] at hsel
            refine ⟨b, n, hresolve, hbackend, ?_, hid, rfl⟩
            rw [hsel, hallowed]
            rfl
  · rintro ⟨b, n, hresolve, hbackend, hallowed, hid, hname⟩
    rw [Bool.and_eq_true] at hallowed
    rcases hdecision : authorizeRequest m.lib.toAuthLib route.authorization
      (listingRequest m.requestHeaders b n) with ⟨allowed, scopes⟩
    rw [hdecision] at hallowed
    obtain ⟨hsel, rfl⟩ := hallowed
    simp only [hresolve, (getBackendForRoute_eq_ok hroute).mpr hbackend, hsel, hdecision,
      Bool.true_eq_false, if_false, forwardTo_eq_ok]
    exact ⟨f.sessionID, hid, by rw [← hname]⟩

/-! ## Prompts -/

theorem exposePromptOn_name (hloaded : Loaded m.lib spec route) (prompt : Prompt) (hb : b ≠ "") :
    (exposePromptOn route b prompt).map (·.name) =
      schemeName (nameScheme route.neverModePromptIndex) (selectorAllows route.promptSelectors)
        (b, prompt.name) := by
  unfold exposePromptOn schemeName
  cases selectorAllows route.promptSelectors b prompt.name with
  | false => simp
  | true =>
    simp only [Bool.true_eq_false, if_false, if_true]
    by_cases hindex : route.neverModePromptIndex.lookup prompt.name = some b
    · have hbare : route.effectivePrefixMode b = some .never ∧
          (route.neverModePromptIndex.lookup prompt.name).getD "" = b := by
        rw [hindex]
        exact ⟨hloaded.promptIndex_never hindex, rfl⟩
      rw [if_pos hbare, Naming.expose_of_bare hindex]
      rfl
    · have hbare : ¬ (route.effectivePrefixMode b = some .never ∧
          (route.neverModePromptIndex.lookup prompt.name).getD "" = b) := by
        rintro ⟨-, hget⟩
        cases hlookup : route.neverModePromptIndex.lookup prompt.name with
        | none =>
          rw [hlookup] at hget
          exact hb hget.symm
        | some c =>
          rw [hlookup] at hget hindex
          exact hindex (congrArg some hget)
      rw [if_neg hbare, Naming.expose_of_not_bare hindex]
      simp only [nameScheme]
      split
      next h => simp [h]
      next h => simp [h]

include hroute in
theorem handlePromptGetRequest_eq_ok (name : String) :
    handlePromptGetRequest m s name = .ok f ↔
      ∃ b n, resolveIn (route.neverModePromptIndex.lookup name) name = .ok (b, n) ∧
        route.backends.lookup b = some f.backend ∧
        selectorAllows route.promptSelectors b n = true ∧
        s.perBackendSessions.lookup b = some f.sessionID ∧ f.name = n := by
  unfold handlePromptGetRequest resolvePromptBackend promptAllowed
  simp only [hroute, Option.bind_some]
  constructor
  · intro h
    split at h
    · cases h
    next b n hresolve =>
      split at h
      · cases h
      next backend hbackend =>
        split at h
        · cases h
        next hsel =>
          obtain ⟨id, hid, rfl⟩ := forwardTo_eq_ok.mp h
          rw [getBackendForRoute_eq_ok hroute] at hbackend
          rw [Bool.not_eq_false] at hsel
          exact ⟨b, n, hresolve, hbackend, hsel, hid, rfl⟩
  · rintro ⟨b, n, hresolve, hbackend, hsel, hid, hname⟩
    simp only [hresolve, (getBackendForRoute_eq_ok hroute).mpr hbackend, hsel, Bool.true_eq_false,
      if_false, forwardTo_eq_ok]
    exact ⟨f.sessionID, hid, by rw [← hname]⟩

end

/-! ## Top theorem -/

/-- An MCPRoute that the controller accepts, whose backends have names the separator cannot be
confused with, and without CEL rules. -/
structure RouteSpec.Admitted (spec : RouteSpec) : Prop where
  accepted : MCPSync.validatePerBackendPrefixMode spec.admission = .ok ()
  plain : ∀ ref ∈ spec.backendRefs, PlainBackendName ref.name
  noCEL : ∀ a ∈ mcpAuthorization spec, a.NoCEL

section

variable {m : RequestContext} {s : Session} {route : ProxyRoute} {spec : RouteSpec} {α : Type}
  {name : α → String} {responses : List (BroadCastResponse (ListResult α))}

variable {r : BroadCastResponse (ListResult α)}

theorem Answers.mem_backendRefs (hanswers : Answers name m s responses)
    (hroute : m.routes.lookup s.route = some route) (hloaded : Loaded m.lib spec route)
    (hr : r ∈ responses) : r.backendName ∈ spec.backendRefs.map (·.name) := by
  obtain ⟨b, hb⟩ := hanswers.known r hr
  exact (hloaded.name_of_lookup ((getBackendForRoute_eq_ok hroute).mp hb)).2

theorem Answers.reaches_iff (hanswers : Answers name m s responses)
    (hroute : m.routes.lookup s.route = some route) (hloaded : Loaded m.lib spec route)
    {allowed : String → String → Bool} (hr : r ∈ responses) (name' n : String) :
    (∃ f : Forwarded, (∃ b n, resolveIn (index.lookup name') name' = .ok (b, n) ∧
        route.backends.lookup b = some f.backend ∧ allowed b n = true ∧
        s.perBackendSessions.lookup b = some f.sessionID ∧ f.name = n) ∧
      f.backend.name = r.backendName ∧ f.name = n) ↔
    Naming.resolve (nameScheme index) name' = some (r.backendName, n) ∧ allowed r.backendName n = true := by
  constructor
  · rintro ⟨f, ⟨b, n', hresolve, hbackend, hallowed, -, rfl⟩, hname, rfl⟩
    rw [(hloaded.name_of_lookup hbackend).1] at hname
    subst hname
    exact ⟨resolveIn_eq_ok.mp hresolve, hallowed⟩
  · rintro ⟨hresolve, hallowed⟩
    obtain ⟨backend, hbackend⟩ := hanswers.known r hr
    rw [getBackendForRoute_eq_ok hroute] at hbackend
    obtain ⟨id, hid⟩ := hanswers.session r hr
    exact ⟨⟨backend, id, n⟩,
      ⟨r.backendName, n, resolveIn_eq_ok.mpr hresolve, hbackend, hallowed, hid, rfl⟩,
      (hloaded.name_of_lookup hbackend).1, rfl⟩

theorem nameScheme_split_join (index : GoMap String String) (n : String) (hb : PlainBackendName b) :
    (nameScheme index).split ((nameScheme index).join b n) = some (b, n) := by
  simp only [nameScheme, upstreamResourceName_downstreamResourceName n hb]
  rfl

theorem eq_join_of_nameScheme_split {name' n : String}
    (h : (nameScheme index).split name' = some (b, n)) : name' = (nameScheme index).join b n := by
  simp only [nameScheme] at h ⊢
  cases hname : upstreamResourceName name' with
  | error e =>
    rw [hname] at h
    cases h
  | ok p =>
    rw [hname] at h
    cases h
    unfold upstreamResourceName at hname
    split at hname
    · cases hname
    next a c hcut =>
      cases hname
      have hname := congrArg String.ofList (Cut.cut_eq_some hcut)
      rw [String.ofList_toList] at hname
      rw [hname, downstreamResourceName, String.ofList_append, String.ofList_append, String.ofList_toList]

theorem Answers.eq_nil (hanswers : Answers name m s responses)
    (hroute : m.routes.lookup s.route = none) : responses = [] := by
  refine eq_nil_iff_forall_not_mem.mpr fun r hr => ?_
  obtain ⟨b, hb⟩ := hanswers.known r hr
  rw [getBackendForRoute, hroute] at hb
  cases hb

theorem agreement_nil :
    Agreement name [] expose [] call where
  distinct := nodup_nil
  callable := fun _ hx => absurd hx not_mem_nil
  complete := fun _ _ _ _ hr => absurd hr not_mem_nil

end

section

variable {m : RequestContext} {s : Session} {route : ProxyRoute} {spec : RouteSpec}

theorem tools_agree (hroute : m.routes.lookup s.route = some route)
    (hloaded : Loaded m.lib spec route) (hadmitted : spec.Admitted)
    {tools : List (BroadCastResponse (ListResult Tool))} (hanswers : Answers Tool.name m s tools)
    {r : HTTPRequest} (hheaders : r.headers = m.requestHeaders) (method : String)
    (arguments : Json) :
    Agreement Tool.name tools (exposeTool m route) (mergeToolsList m s tools).items
      fun name => handleToolCallRequest m s r method ⟨name, arguments⟩ := by
  have hcel : ∀ a ∈ route.authorization, a.NoCEL := by
    obtain ⟨_, _, hauth, -⟩ := loadRoute_eq_ok hloaded.load
    exact compileAuthorization_noCEL hadmitted.noCEL hauth
  have hplain : ∀ t ∈ tools, PlainBackendName t.backendName := by
    intro t ht
    obtain ⟨ref, href, heq⟩ := mem_map.mp (hanswers.mem_backendRefs hroute hloaded ht)
    rw [← heq]
    exact hadmitted.plain ref href
  rw [mergeToolsList, hroute]
  refine agreement_of_scheme (nameScheme route.neverModeToolIndex) (toolAllowed m route) hanswers
    ?_ ?_ ?_ eq_join_of_nameScheme_split
  · intro t ht tool _
    exact exposeTool_name hloaded tool (hanswers.mem_backendRefs hroute hloaded ht)
  · intro t ht name' n
    simp only [handleToolCallRequest_eq_ok hroute hcel hheaders]
    exact hanswers.reaches_iff hroute hloaded ht name' n
  · intro t ht n
    exact nameScheme_split_join _ n (hplain t ht)

theorem prompts_agree (hroute : m.routes.lookup s.route = some route)
    (hloaded : Loaded m.lib spec route) (hadmitted : spec.Admitted)
    {prompts : List (BroadCastResponse (ListResult Prompt))}
    (hanswers : Answers Prompt.name m s prompts) :
    Agreement Prompt.name prompts (exposePromptOn route) (mergePromptsList m s prompts).items
      (handlePromptGetRequest m s) := by
  have hplain : ∀ p ∈ prompts, PlainBackendName p.backendName := by
    intro p hp
    obtain ⟨ref, href, heq⟩ := mem_map.mp (hanswers.mem_backendRefs hroute hloaded hp)
    rw [← heq]
    exact hadmitted.plain ref href
  rw [mergePromptsList, hroute]
  refine agreement_of_scheme (nameScheme route.neverModePromptIndex)
    (selectorAllows route.promptSelectors) hanswers ?_ ?_ ?_ eq_join_of_nameScheme_split
  · intro p hp prompt _
    exact exposePromptOn_name hloaded prompt (hplain p hp).nonempty
  · intro p hp name' n
    simp only [handlePromptGetRequest_eq_ok hroute]
    exact hanswers.reaches_iff hroute hloaded hp name' n
  · intro p hp n
    exact nameScheme_split_join _ n (hplain p hp)

end

/-- The loop body of `mergeToolsList`, on the route of the session. -/
def exposeToolOn (m : RequestContext) (s : Session) (backend : String) (tool : Tool) : Option Tool :=
  (m.routes.lookup s.route).bind fun route => exposeTool m route backend tool

theorem listing_agrees_with_calls (lib : ConfigLib) (specs : List RouteSpec)
    (routes : GoMap String ProxyRoute) (hload : loadConfig lib (mcpConfig specs) = .ok routes)
    (s : Session) (hadmitted : ∀ spec ∈ specs, spec.key = s.route → spec.Admitted)
    (headers : Header) (tools : List (BroadCastResponse (ListResult Tool)))
    (prompts : List (BroadCastResponse (ListResult Prompt)))
    (htools : Answers Tool.name ⟨lib, routes, headers⟩ s tools)
    (hprompts : Answers Prompt.name ⟨lib, routes, headers⟩ s prompts) :
    (∀ r : HTTPRequest, r.headers = headers → ∀ method arguments,
      Agreement Tool.name tools (exposeToolOn ⟨lib, routes, headers⟩ s)
        (mergeToolsList ⟨lib, routes, headers⟩ s tools).items
        fun name => handleToolCallRequest ⟨lib, routes, headers⟩ s r method ⟨name, arguments⟩) ∧
    Agreement Prompt.name prompts (exposePrompt (routes.lookup s.route))
      (mergePromptsList ⟨lib, routes, headers⟩ s prompts).items
      (handlePromptGetRequest ⟨lib, routes, headers⟩ s) := by
  cases hroute : routes.lookup s.route with
  | none =>
    obtain rfl := htools.eq_nil hroute
    obtain rfl := hprompts.eq_nil hroute
    rw [mergeToolsList, hroute]
    exact ⟨fun _ _ _ _ => agreement_nil, agreement_nil⟩
  | some route =>
    obtain ⟨spec, hspec, hkey, hloadRoute⟩ := lookup_loadConfig hload hroute
    have hspec := hadmitted spec hspec hkey
    have hloaded : Loaded lib spec route := ⟨hloadRoute, hspec.accepted⟩
    have hexpose : exposeToolOn ⟨lib, routes, headers⟩ s =
        exposeTool ⟨lib, routes, headers⟩ route := by
      funext b tool
      simp only [exposeToolOn, hroute, Option.bind_some]
    refine ⟨fun r hr method arguments => ?_, ?_⟩
    · rw [hexpose]
      exact tools_agree hroute hloaded hspec htools hr method arguments
    · exact prompts_agree hroute hloaded hspec hprompts

/-! ## Runs -/

/-- Expressions without special letters, which match wherever they occur; no token is a JWT. -/
def literalLib : ConfigLib where
  parseUnverified := fun _ => ([], some "token is malformed")
  compileCEL := fun e => .error ("cannot compile " ++ e)
  compileRegexp := fun e => .ok fun s => decide (e.toList <:+: s.toList)
  order := GoMap.storedOrder

def listOf (backend : String) (names : List String) : BroadCastResponse (ListResult Tool) :=
  ⟨backend, ⟨names.map fun n => ⟨n, .null⟩, ⟨0, ""⟩⟩⟩

def promptsOf (backend : String) (names : List String) : BroadCastResponse (ListResult Prompt) :=
  ⟨backend, ⟨names.map fun n => ⟨n⟩, ⟨0, ""⟩⟩⟩

def sessionOf (backends : List String) : Session :=
  ⟨"default/mcp", GoMap.setEach ∅ (backends.map fun b => (b, "session of " ++ b))⟩

def routeOf (backendRefs : List BackendRefSpec) (authorization : Option AuthorizationSpec) :
    RouteSpec :=
  ⟨"default", "mcp", false, backendRefs, none, authorization, none⟩

/-- The routes of the proxy when it has loaded one MCPRoute. -/
def routesOf (spec : RouteSpec) : GoMap String ProxyRoute :=
  (loadConfig literalLib (mcpConfig [spec])).toOption.getD ∅

def contextOf (spec : RouteSpec) : RequestContext := ⟨literalLib, routesOf spec, ∅⟩

theorem answers_of_forall {α : Type} {name : α → String} {m : RequestContext} {s : Session}
    {responses : List (BroadCastResponse (ListResult α))}
    (hbackends : (responses.map (·.backendName)).Nodup)
    (hall : ∀ r ∈ responses, (r.res.items.map name).Nodup ∧
      (s.perBackendSessions.lookup r.backendName).isSome ∧
      (getBackendForRoute m s.route r.backendName).toOption.isSome) :
    Answers name m s responses where
  backends := hbackends
  names := fun r hr => (hall r hr).1
  session := fun r hr => Option.isSome_iff_exists.mp (hall r hr).2.1
  known := by
    intro r hr
    have hknown := (hall r hr).2.2
    cases hget : getBackendForRoute m s.route r.backendName with
    | error e =>
      rw [hget] at hknown
      cases hknown
    | ok b => exact ⟨b, rfl⟩

def postRequest : HTTPRequest := ⟨∅, "POST", "example.com", some "/mcp"⟩

/-- A backend that exposes one of its two bare names, next to one with prefixed names that match
an expression; one tool is forbidden. -/
def mixedRoute : RouteSpec :=
  routeOf [⟨"hub", some ⟨["search", "issue"], [], ["issue"], []⟩, some ⟨["greet"], [], [], []⟩,
      some .never⟩, ⟨"lab", some ⟨[], ["list"], [], []⟩, none, none⟩]
    (some ⟨some .allow, [⟨some .deny, none, some [⟨"lab", "list_keys"⟩], none⟩]⟩)

def mixedTools : List (BroadCastResponse (ListResult Tool)) :=
  [listOf "lab" ["list", "list_keys", "delete"], listOf "hub" ["search", "issue", "merge"]]

def mixedPrompts : List (BroadCastResponse (ListResult Prompt)) :=
  [promptsOf "hub" ["greet"], promptsOf "lab" ["greet"]]

theorem mixedRoute_admitted : mixedRoute.Admitted where
  accepted := by decide
  plain := by
    intro ref href
    have hmem : ref.name = "hub" ∨ ref.name = "lab" := by
      rcases mem_cons.mp href with rfl | href
      · exact .inl rfl
      · exact .inr (by rw [mem_singleton.mp href])
    rcases hmem with hname | hname
    · rw [hname]
      exact ⟨by decide, by decide, by decide⟩
    · rw [hname]
      exact ⟨by decide, by decide, by decide⟩
  noCEL := by
    intro a ha
    cases ha
    intro r hr
    rw [mem_singleton.mp hr]
    rfl

/-- The listed tools and prompts of the mixed route, all of which can be called. -/
theorem mixed_listing_agrees_with_calls :
    (mergeToolsList (contextOf mixedRoute) (sessionOf ["hub", "lab"]) mixedTools).items.map Tool.name =
      ["lab__list", "search"] ∧
    Agreement Tool.name mixedTools (exposeToolOn (contextOf mixedRoute) (sessionOf ["hub", "lab"]))
      (mergeToolsList (contextOf mixedRoute) (sessionOf ["hub", "lab"]) mixedTools).items
      (fun name => handleToolCallRequest (contextOf mixedRoute) (sessionOf ["hub", "lab"])
        postRequest "tools/call" ⟨name, .null⟩) ∧
    (mergePromptsList (contextOf mixedRoute) (sessionOf ["hub", "lab"])
      mixedPrompts).items.map Prompt.name = ["greet", "lab__greet"] ∧
    Agreement Prompt.name mixedPrompts
      (exposePrompt ((routesOf mixedRoute).lookup "default/mcp"))
      (mergePromptsList (contextOf mixedRoute) (sessionOf ["hub", "lab"]) mixedPrompts).items
      (handlePromptGetRequest (contextOf mixedRoute) (sessionOf ["hub", "lab"])) := by
  have hagree := listing_agrees_with_calls literalLib [mixedRoute] (routesOf mixedRoute) rfl
    (sessionOf ["hub", "lab"]) (fun spec hspec _ => by
      rw [mem_singleton.mp hspec]
      exact mixedRoute_admitted) ∅ mixedTools mixedPrompts
    (answers_of_forall (by decide) (by decide)) (answers_of_forall (by decide) (by decide))
  exact ⟨by decide, hagree.1 postRequest rfl "tools/call" .null, by decide, hagree.2⟩

/-- Two backends in mode Always whose names differ by an underscore at the end. -/
def underscoreRoute : RouteSpec :=
  routeOf [⟨"a", none, none, none⟩, ⟨"a_", none, none, none⟩] none

def underscoreTools : List (BroadCastResponse (ListResult Tool)) :=
  [listOf "a" ["_x"], listOf "a_" ["x"]]

/-- A backend without a name in mode Never. -/
def namelessRoute : RouteSpec :=
  routeOf [⟨"", some ⟨["search"], [], [], []⟩, none, some .never⟩] none

/-- Names of backends without the separator are not enough: with an underscore at the end two tools
get one name, and a prompt of a backend without a name is listed but cannot be called. -/
theorem listing_disagrees_on_odd_backend_names :
    (MCPSync.validatePerBackendPrefixMode underscoreRoute.admission = .ok () ∧
      (∀ ref ∈ underscoreRoute.backendRefs, ¬ nameSeparator.toList <:+: ref.name.toList) ∧
      loadConfig literalLib (mcpConfig [underscoreRoute]) = .ok (routesOf underscoreRoute) ∧
      Answers Tool.name (contextOf underscoreRoute) (sessionOf ["a", "a_"]) underscoreTools ∧
      (mergeToolsList (contextOf underscoreRoute) (sessionOf ["a", "a_"])
        underscoreTools).items.map Tool.name = ["a___x", "a___x"]) ∧
    (MCPSync.validatePerBackendPrefixMode namelessRoute.admission = .ok () ∧
      (∀ ref ∈ namelessRoute.backendRefs, ¬ nameSeparator.toList <:+: ref.name.toList) ∧
      loadConfig literalLib (mcpConfig [namelessRoute]) = .ok (routesOf namelessRoute) ∧
      Answers Prompt.name (contextOf namelessRoute) (sessionOf [""]) [promptsOf "" ["greet"]] ∧
      (mergePromptsList (contextOf namelessRoute) (sessionOf [""])
        [promptsOf "" ["greet"]]).items.map Prompt.name = ["greet"] ∧
      handlePromptGetRequest (contextOf namelessRoute) (sessionOf [""]) "greet" =
        .error ⟨400, "invalid prompt name greet: invalid resource name: greet", none⟩) := by
  refine ⟨⟨by decide, by decide, rfl, ?_, by decide⟩,
    ⟨by decide, by decide, rfl, ?_, by decide, by decide⟩⟩
  · exact answers_of_forall (by decide) (by decide)
  · exact answers_of_forall (by decide) (by decide)

end AgentRouter.MCPProxy
