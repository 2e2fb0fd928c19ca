import AgentRouter.Kube.Objects
import AgentRouter.Lib.GoMap
import AgentRouter.Lib.Json
import AgentRouter.Lib.Program

/-!
# MCPRoute: the resources the controller generates for an MCPRoute

`syncMCPRoute` keeps, in the namespace of an MCPRoute, a main HTTPRoute, for every backend an
HTTPRoute with its HTTPRouteFilter and perhaps a Secret for the injected credential, and two
more HTTPRouteFilters when OAuth is configured.  It finds all of them by name; only the
HTTPRoutes of the backends are looked up by their controller reference.

`Namespace` holds the objects of one namespace that the reconciliation reads and writes.  The
`owner` of an object is the MCPRoute in its controller reference; an object that is updated
keeps the owner it has.  Errors carry the texts of the sources; transient errors of the API
server are not modelled.
-/

namespace AgentRouter.MCPSync

open Kube (BackendObjectReference SecretObjectReference HTTPHeader HTTPHeaderMatch
  HTTPRouteTimeouts)
open Program Text

/-! ## MCPRoutes -/

/-- `MCPRoutePrefixMode`. -/
inductive PrefixMode where
  | always | never
  deriving DecidableEq

/-- `MCPBackendAPIKeyInjectionPolicy`. -/
inductive InjectionPolicy where
  | always | ifNotPresent
  deriving DecidableEq

/-- `MCPBackendAPIKey`. -/
structure APIKey where
  secretRef : Option SecretObjectReference
  inline : Option String
  header : Option String
  queryParam : Option String
  injectionPolicy : Option InjectionPolicy

/-- `MCPRouteBackendRef`; a selector is the list of names it includes. -/
structure BackendRef where
  ref : BackendObjectReference
  path : Option String
  toolSelector : Option (List String)
  promptSelector : Option (List String)
  apiKey : Option APIKey
  prefixMode : Option PrefixMode

structure ProtectedResourceMetadata where
  resource : String
  resourceName : Option String
  scopesSupported : List String
  resourceSigningAlgValuesSupported : List String
  resourceDocumentation : Option String
  resourcePolicyURI : Option String

/-- `MCPRouteOAuth`. -/
structure OAuth where
  issuer : String
  /-- the JWKS are configured and need not be discovered. -/
  jwks : Bool
  authorizationServerMetadataURL : Option String
  protectedResourceMetadata : ProtectedResourceMetadata

/-- `MCPRouteSecurityPolicy`. -/
structure SecurityPolicy where
  oauth : Option OAuth
  apiKeyAuth : Bool
  extAuth : Bool

/-- `gwapiv1.ParentReference`. -/
structure ParentReference where
  name : String
  ns : Option String
  sectionName : Option String
  port : Option Nat

structure MCPRoute where
  name : String
  deleting : Bool
  labels : List (String × String)
  annotations : List (String × String)
  parentRefs : List ParentReference
  hostnames : List String
  path : Option String
  headers : List HTTPHeaderMatch
  backendRefs : List BackendRef
  securityPolicy : Option SecurityPolicy
  prefixMode : Option PrefixMode

def MCPRoute.oauth (r : MCPRoute) : Option OAuth := r.securityPolicy.bind (·.oauth)

/-- The names of the backends of a route. -/
def MCPRoute.backends (r : MCPRoute) : List String := r.backendRefs.map (·.ref.name)

/-! ## Generated objects -/

inductive PathMatch where
  | exact (value : String)
  | pathPrefix (value : String)

/-- `gwapiv1.HTTPRouteFilter`, in the three forms the controller writes. -/
inductive RouteFilter where
  | extensionRef (filterName : String)
  | requestHeaderModifier (set : List HTTPHeader)
  | replaceFullPath (path : String)

structure HTTPRouteRule where
  name : Option String
  path : PathMatch
  headers : List HTTPHeaderMatch
  filters : List RouteFilter
  backendRefs : List BackendObjectReference
  timeouts : Option HTTPRouteTimeouts

structure HTTPRoute where
  owner : Option String
  labels : GoMap String String
  annotations : GoMap String String
  parentRefs : List ParentReference
  hostnames : List String
  rules : List HTTPRouteRule

/-- `egv1a1.HTTPCredentialInjectionFilter`. -/
structure CredentialInjection where
  overwrite : Bool
  header : Option String
  secretName : String

/-- `egv1a1.HTTPRouteFilterSpec`: a hostname rewrite to the backend, perhaps with a credential,
or a direct response. -/
inductive FilterSpec where
  | rewriteHostname (credentialInjection : Option CredentialInjection)
  | directResponse (contentType : String) (statusCode : Nat) (body : Json) (set : List HTTPHeader)

structure HTTPRouteFilter where
  owner : Option String
  spec : FilterSpec

/-- The Secret a filter takes its credential from; empty when there is none. -/
def HTTPRouteFilter.credentialSecretName (f : HTTPRouteFilter) : String :=
  match f.spec with
  | .rewriteHostname (some c) => c.secretName
  | _ => ""

structure Secret where
  owner : Option String
  data : GoMap String String
  stringData : GoMap String String

/-- The objects of one namespace. -/
structure Namespace where
  ns : String
  routes : GoMap String MCPRoute
  httpRoutes : GoMap String HTTPRoute
  filters : GoMap String HTTPRouteFilter
  secrets : GoMap String Secret

namespace Namespace

def empty (ns : String) : Namespace := ⟨ns, ∅, ∅, ∅, ∅⟩

def putHTTPRoute (name : String) (o : HTTPRoute) (s : Namespace) : Namespace :=
  { s with httpRoutes := s.httpRoutes.insert name o }

def deleteHTTPRoute (name : String) (s : Namespace) : Namespace :=
  { s with httpRoutes := s.httpRoutes.erase name }

def putFilter (name : String) (o : HTTPRouteFilter) (s : Namespace) : Namespace :=
  { s with filters := s.filters.insert name o }

def deleteFilter (name : String) (s : Namespace) : Namespace :=
  { s with filters := s.filters.erase name }

def putSecret (name : String) (o : Secret) (s : Namespace) : Namespace :=
  { s with secrets := s.secrets.insert name o }

def deleteSecret (name : String) (s : Namespace) : Namespace :=
  { s with secrets := s.secrets.erase name }

end Namespace

abbrev Sync (α : Type) : Type := Prog Namespace String α

/-! ## Names -/

def mcpGeneratedResourceCommonPrefix : String := "ai-eg-mcp-"
def mcpMainHTTPRoutePrefix : String := "ai-eg-mcp-main-"
def mcpPerBackendRefHTTPRoutePrefix : String := "ai-eg-mcp-br-"
def mcpPerBackendHTTPRouteFilterPrefix : String := "ai-eg-mcp-brf-"
def mcpPerBackendCredentialSecretPrefix : String := "ai-eg-mcp-cred-"

def oauthProtectedResourceMetadataSuffix : String := "-oauth-protected-resource-metadata"
def oauthAuthServerMetadataSuffix : String := "-oauth-authorization-server-metadata"

/-- The part of a per-backend name that comes from the route and the backend. -/
def routeAndBackend (route backend : String) : String := route ++ "-" ++ backend

def mcpMainHTTPRouteName (route : String) : String := mcpMainHTTPRoutePrefix ++ route

def mcpPerBackendRefHTTPRouteName (route backend : String) : String :=
  mcpPerBackendRefHTTPRoutePrefix ++ routeAndBackend route backend

def mcpBackendRefFilterName (route backend : String) : String :=
  mcpPerBackendHTTPRouteFilterPrefix ++ routeAndBackend route backend

def mcpCredentialSecretName (route backend : String) : String :=
  mcpPerBackendCredentialSecretPrefix ++ routeAndBackend route backend

def oauthProtectedResourceMetadataName (route : String) : String :=
  mcpGeneratedResourceCommonPrefix ++ route ++ oauthProtectedResourceMetadataSuffix

def oauthAuthServerMetadataFilterName (route : String) : String :=
  mcpGeneratedResourceCommonPrefix ++ route ++ oauthAuthServerMetadataSuffix

def mcpRouteHeaderValue (ns route : String) : String := ns ++ "/" ++ route

/-! ## Prefix modes -/

/-- The loop over the names one backend includes; `seen` maps a name to the backend that
declared it first. -/
def declareNames (what backend : String) :
    GoMap String String → List String → Except String (GoMap String String)
  | seen, [] => .ok seen
  | seen, x :: xs =>
    match seen.lookup x with
    | some first =>
      .error ("prefixMode Never requires " ++ what ++ " names to be unique across backends, but " ++
        quoted x ++ " is declared by both " ++ quoted first ++ " and " ++ quoted backend)
    | none => declareNames what backend (seen.insert x backend) xs

/-- The loop over the backends. -/
def validateBackends (routeMode : PrefixMode) :
    GoMap String String → GoMap String String → List BackendRef → Except String Unit
  | _, _, [] => .ok ()
  | tools, prompts, ref :: refs =>
    if ref.prefixMode.getD routeMode ≠ .never then validateBackends routeMode tools prompts refs
    else if ref.toolSelector.getD [] = [] then
      .error ("prefixMode Never requires backend " ++ quoted ref.ref.name ++ " to explicitly " ++
        "enumerate its tools via toolSelector.include so names can be validated for uniqueness")
    else
      match declareNames "tool" ref.ref.name tools (ref.toolSelector.getD []) with
      | .error e => .error e
      | .ok tools =>
        match declareNames "prompt" ref.ref.name prompts (ref.promptSelector.getD []) with
        | .error e => .error e
        | .ok prompts => validateBackends routeMode tools prompts refs

def validatePerBackendPrefixMode (r : MCPRoute) : Except String Unit :=
  validateBackends (r.prefixMode.getD .always) ∅ ∅ r.backendRefs

/-! ## HTTPRoutes -/

def defaultMCPPath : String := "/mcp"

def copyMetadata (o : HTTPRoute) (r : MCPRoute) : HTTPRoute :=
  { o with
    labels := GoMap.setEach o.labels r.labels
    annotations := GoMap.setEach o.annotations r.annotations }

def newHTTPRoute (r : MCPRoute) : HTTPRoute :=
  copyMetadata ⟨some r.name, ∅, ∅, [], [], []⟩ r

def copyMCPRouteMetadataToHTTPRoute (dst : HTTPRoute) (r : MCPRoute) : HTTPRoute :=
  { copyMetadata dst r with parentRefs := r.parentRefs, hostnames := r.hostnames }

def mcpTimeouts : HTTPRouteTimeouts := ⟨some "30m", some "30m"⟩

def mcpProxySharedBackendName : String := "ai-eg-mcp-proxy"

/-- A rule that answers a well-known path with one of the OAuth filters. -/
def oauthMetadataRule (r : MCPRoute) (name path filterName : String) : HTTPRouteRule :=
  ⟨some name, .exact path, r.headers, [.extensionRef filterName], [], none⟩

/-- `newMainHTTPRoute`. -/
def newMainHTTPRoute (ns : String) (dst : HTTPRoute) (r : MCPRoute) : HTTPRoute :=
  let servingPath := r.path.getD defaultMCPPath
  let proxyRule : HTTPRouteRule :=
    { name := none
      path := .exact servingPath
      headers := r.headers
      filters := [.requestHeaderModifier [⟨"x-ai-eg-mcp-route", mcpRouteHeaderValue ns r.name⟩]]
      backendRefs := [⟨some "gateway.envoyproxy.io", some "Backend", mcpProxySharedBackendName,
        some ns, some 9856⟩]
      timeouts := some mcpTimeouts }
  let oauthRules :=
    if r.oauth.isSome then
      [oauthMetadataRule r "oauth-protected-resource-metadata"
          ("/.well-known/oauth-protected-resource" ++ trimSuffix servingPath "/")
          (oauthProtectedResourceMetadataName r.name),
        oauthMetadataRule r "oauth-authorization-server-metadata"
          ("/.well-known/oauth-authorization-server" ++ trimSuffix servingPath "/")
          (oauthAuthServerMetadataFilterName r.name),
        oauthMetadataRule r "oauth-authorization-server-metadata-oidc"
          ("/.well-known/openid-configuration" ++ servingPath)
          (oauthAuthServerMetadataFilterName r.name)]
    else []
  copyMCPRouteMetadataToHTTPRoute { dst with rules := proxyRule :: oauthRules } r

def httpRouteResource : String := "httproutes.gateway.networking.k8s.io"

def createOrUpdateHTTPRoute (name : String) (o : HTTPRoute) (update : Bool) : Sync Unit := do
  let s ← get
  match update, (s.httpRoutes.lookup name).isSome with
  | true, true => modify (·.putHTTPRoute name o)
  | true, false =>
    throw ("failed to update HTTPRoute: " ++ httpRouteResource ++ " " ++ quoted name ++ " not found")
  | false, false => modify (·.putHTTPRoute name o)
  | false, true =>
    throw ("failed to create HTTPRoute: " ++ httpRouteResource ++ " " ++ quoted name ++
      " already exists")

/-- The main HTTPRoute is looked up by its name. -/
def syncMainHTTPRoute (r : MCPRoute) : Sync Unit := do
  let s ← get
  let existing := s.httpRoutes.lookup (mcpMainHTTPRouteName r.name)
  wrap "failed to create or update HTTPRoute"
    (createOrUpdateHTTPRoute (mcpMainHTTPRouteName r.name)
      (newMainHTTPRoute s.ns (existing.getD (newHTTPRoute r)) r) existing.isSome)

/-- The per-backend HTTPRoutes whose controller is this route. -/
def listExistingPerBackendHTTPRoutes (s : Namespace) (r : MCPRoute) : GoMap String HTTPRoute :=
  GoMap.setEach ∅ ((s.httpRoutes.entries.map fun e => (e.1, e.2)).filter fun e =>
    e.2.owner = some r.name && startsWith e.1 mcpPerBackendRefHTTPRoutePrefix)

/-! ## Filters and credentials of the backends -/

/-- `readAPIKey`; an empty inline key without a `secretRef` dereferences a nil pointer. -/
def readAPIKey (key : APIKey) : Sync String := do
  let s ← get
  if key.inline.getD "" ≠ "" then pure (key.inline.getD "")
  else
    match key.secretRef with
    | none => throw "invalid memory address or nil pointer dereference"
    | some ref =>
      match s.secrets.lookup ref.name with
      | none =>
        throw ("failed to get secret for API key: secrets " ++ quoted ref.name ++ " not found")
      | some secret =>
        match (secret.data.lookup "apiKey").or (secret.stringData.lookup "apiKey") with
        | some k => pure k
        | none =>
          throw ("secret " ++ s.ns ++ "/" ++ ref.name ++ " does not contain 'apiKey' key")

def injectedCredentialKey : String := "credential"

/-- What is written into a header: the `Authorization` header gets a bearer token. -/
def credentialValue (key : APIKey) (literal : String) : String :=
  if key.header.getD "Authorization" = "Authorization" then "Bearer " ++ literal else literal

def ensureCredentialSecret (secretName : String) (r : MCPRoute) (key : APIKey) : Sync Unit := do
  let literal ← wrap "failed to read API key" (readAPIKey key)
  let data : GoMap String String :=
    (∅ : GoMap String String).insert injectedCredentialKey (credentialValue key literal)
  let s ← get
  match s.secrets.lookup secretName with
  | none => modify (·.putSecret secretName ⟨some r.name, data, ∅⟩)
  | some existing =>
    if (existing.data.lookup injectedCredentialKey).getD "" ≠ credentialValue key literal then
      modify (·.putSecret secretName { existing with data := data })
    else pure ()

/-- An existing filter gives up its credential Secret when the name changes. -/
def ensureMCPBackendRefHTTPFilter (filterName : String) (r : MCPRoute)
    (credentialSecretName : String) (credentialHeader : Option String) (overwrite : Bool) :
    Sync Unit := do
  let spec : FilterSpec := .rewriteHostname
    (if credentialSecretName ≠ "" then
      some ⟨overwrite, credentialHeader, credentialSecretName⟩ else none)
  let s ← get
  match s.filters.lookup filterName with
  | none => modify (·.putFilter filterName ⟨some r.name, spec⟩)
  | some existing => do
    let previous := existing.credentialSecretName
    if previous ≠ "" ∧ previous ≠ credentialSecretName then
      modify (·.deleteSecret previous)
    modify (·.putFilter filterName { existing with spec := spec })

/-- How a backend gets its API key: in the path, in a header, or from a credential Secret. -/
structure CredentialHandling where
  fullPath : String
  inlineHeaderFilter : List RouteFilter
  credentialSecretName : String
  credentialHeader : Option String
  credentialOverwrite : Bool

def handleCredential (r : MCPRoute) (ref : BackendRef) : Sync CredentialHandling :=
  let path := ref.path.getD defaultMCPPath
  let plain : CredentialHandling := ⟨path, [], "", none, true⟩
  match ref.apiKey with
  | none => pure plain
  | some key =>
    let overwrite : Bool := key.injectionPolicy.getD .always ≠ .ifNotPresent
    match key.queryParam, key.inline, overwrite with
    | some q, _, _ => do
      let literal ← wrap ("failed to read API key for backend " ++ ref.ref.name) (readAPIKey key)
      pure { plain with fullPath := path ++ "?" ++ q ++ "=" ++ literal }
    | none, some literal, true =>
      pure { plain with inlineHeaderFilter := [.requestHeaderModifier
        [⟨key.header.getD "Authorization", credentialValue key literal⟩]] }
    | none, _, _ =>
      if key.secretRef.isSome ∨ key.inline.isSome then do
        let name := mcpCredentialSecretName r.name ref.ref.name
        wrap ("failed to ensure credential secret for backend " ++ ref.ref.name)
          (ensureCredentialSecret name r key)
        pure { plain with
          credentialSecretName := name
          credentialHeader := key.header
          credentialOverwrite := overwrite }
      else pure plain

def mcpBackendRefToHTTPRouteRule (ns : String) (r : MCPRoute) (ref : BackendRef) :
    Sync HTTPRouteRule := do
  let filterName := mcpBackendRefFilterName r.name ref.ref.name
  let c ← handleCredential r ref
  wrap "failed to ensure MCP backend HTTP filter"
    (ensureMCPBackendRefHTTPFilter filterName r c.credentialSecretName c.credentialHeader
      c.credentialOverwrite)
  pure
    { name := none
      path := .pathPrefix "/"
      headers := [⟨none, "x-ai-eg-mcp-backend", ref.ref.name⟩,
        ⟨none, "x-ai-eg-mcp-route", mcpRouteHeaderValue ns r.name⟩]
      filters := .extensionRef filterName :: c.inlineHeaderFilter ++ [.replaceFullPath c.fullPath]
      backendRefs := [ref.ref]
      timeouts := some mcpTimeouts }

def newPerBackendRefHTTPRoute (ns : String) (dst : HTTPRoute) (r : MCPRoute) (ref : BackendRef) :
    Sync HTTPRoute :=
  if ref.ref.ns.getD ns ≠ ns then
    throw ("cross-namespace backend reference is not supported: backend " ++ ref.ref.ns.getD ns ++
      "/" ++ ref.ref.name ++ " in MCPRoute " ++ ns ++ "/" ++ r.name)
  else do
    let rule ← wrap "failed to convert MCPRouteRule to HTTPRouteRule"
      (mcpBackendRefToHTTPRouteRule ns r ref)
    pure (copyMCPRouteMetadataToHTTPRoute { dst with rules := [rule] } r)

/-! ## Reconciliation -/

/-- One pass of the loop over the backends. -/
def syncBackend (r : MCPRoute) (existing : GoMap String HTTPRoute) (ref : BackendRef) :
    Sync Unit := do
  let name := mcpPerBackendRefHTTPRouteName r.name ref.ref.name
  let found := existing.lookup name
  let s ← get
  let httpRoute ← wrap ("failed to construct a new HTTPRoute for backend " ++ ref.ref.name)
    (newPerBackendRefHTTPRoute s.ns (found.getD (newHTTPRoute r)) r ref)
  wrap ("failed to create or update HTTPRoute for backend " ++ ref.ref.name)
    (createOrUpdateHTTPRoute name httpRoute found.isSome)

/-- The loop; what is left in the map at the end is orphaned. -/
def syncBackends (r : MCPRoute) :
    GoMap String HTTPRoute → List BackendRef → Sync (GoMap String HTTPRoute)
  | existing, [] => pure existing
  | existing, ref :: refs => do
    syncBackend r existing ref
    syncBackends r (existing.erase (mcpPerBackendRefHTTPRouteName r.name ref.ref.name)) refs

/-- An orphaned HTTPRoute goes with the filter and the Secret that have the rest of its name. -/
def deleteOrphan (name : String) (s : Namespace) : Namespace :=
  let rest := trimPrefix name mcpPerBackendRefHTTPRoutePrefix
  ((s.deleteHTTPRoute name).deleteFilter (mcpPerBackendHTTPRouteFilterPrefix ++ rest)).deleteSecret
    (mcpPerBackendCredentialSecretPrefix ++ rest)

def deleteOrphanedPerBackendResources (ord : IterOrder String HTTPRoute)
    (orphaned : GoMap String HTTPRoute) (s : Namespace) : Namespace :=
  (ord.visit orphaned).foldl (fun s e => deleteOrphan e.1 s) s

/-- A metadata document of an authorization server. -/
structure AuthServerMetadata where
  jwksURI : String
  document : Json

/-- `fetchOAuthAuthServerMetadata`: what the network answers for a server and a metadata URL. -/
abbrev Fetch := String → String → Except String AuthServerMetadata

def strings (xs : List String) : Json := .arr (xs.map .str)

/-- A member that is left out when there is no value. -/
def optionalMember (key : String) : Option String → List (String × Json)
  | some v => if v ≠ "" then [(key, .str v)] else []
  | none => []

/-- The members are in the order in which Go encodes a map. -/
def buildOAuthProtectedResourceMetadataJSON (oauth : OAuth) : Json :=
  let m := oauth.protectedResourceMetadata
  .obj ([("authorization_servers", strings [oauth.issuer]),
      ("bearer_methods_supported", strings ["header"]), ("resource", .str m.resource)] ++
    optionalMember "resource_documentation" m.resourceDocumentation ++
    optionalMember "resource_name" m.resourceName ++
    optionalMember "resource_policy_uri" m.resourcePolicyURI ++
    (if m.resourceSigningAlgValuesSupported ≠ [] then
      [("resource_signing_alg_values_supported", strings m.resourceSigningAlgValuesSupported)]
    else []) ++
    (if m.scopesSupported ≠ [] then [("scopes_supported", strings m.scopesSupported)] else []))

/-- The values for an authorization server whose metadata could not be found. -/
def fallbackAuthServerMetadata (authServer : String) (scopesSupported : List String) : Json :=
  .obj [("authorization_endpoint", .str (authServer ++ "/protocol/openid-connect/auth")),
    ("code_challenge_methods_supported", strings ["S256"]),
    ("grant_types_supported", strings ["authorization_code"]),
    ("issuer", .str authServer),
    ("jwks_uri", .str (authServer ++ "/protocol/openid-connect/certs")),
    ("response_types_supported", strings ["code"]),
    ("scopes_supported", if scopesSupported = [] then .null else strings scopesSupported),
    ("token_endpoint", .str (authServer ++ "/protocol/openid-connect/token")),
    ("token_endpoint_auth_methods_supported", strings ["client_secret_basic", "client_secret_post"])]

def buildOAuthAuthServerMetadataJSON (fetch : Fetch) (oauth : OAuth) : Except String Json :=
  let authServer := trimSuffix oauth.issuer "/"
  let metadataURL := oauth.authorizationServerMetadataURL.getD ""
  let fallback := fallbackAuthServerMetadata authServer oauth.protectedResourceMetadata.scopesSupported
  if authServer ≠ "" ∨ metadataURL ≠ "" then
    match fetch authServer metadataURL with
    | .ok m => .ok m.document
    | .error e =>
      if metadataURL ≠ "" then
        .error ("failed to fetch OAuth authorization server metadata from " ++ metadataURL ++
          ": " ++ e)
      else .ok fallback
  else .ok fallback

def discoverJWKSURI (fetch : Fetch) (oauth : OAuth) : Except String String :=
  match fetch oauth.issuer (oauth.authorizationServerMetadataURL.getD "") with
  | .error e => .error ("failed to fetch authorization server metadata: " ++ e)
  | .ok m =>
    if m.jwksURI = "" then .error "jwks_uri not found in authorization server metadata"
    else .ok m.jwksURI

def corsHeaders : List HTTPHeader :=
  [⟨"Access-Control-Allow-Origin", "*"⟩, ⟨"Access-Control-Allow-Methods", "GET"⟩,
    ⟨"Access-Control-Allow-Headers", "mcp-protocol-version"⟩]

/-- The filter that answers with a JSON document: created, or updated with its owner kept. -/
def ensureOAuthFilter (filterName : String) (r : MCPRoute) (body : Json) : Sync Unit := do
  let s ← get
  let owner := ((s.filters.lookup filterName).map (·.owner)).getD (some r.name)
  modify (·.putFilter filterName ⟨owner, .directResponse "application/json" 200 body corsHeaders⟩)

def ensureOAuthProtectedResourceMetadataHRF (r : MCPRoute) (oauth : OAuth) : Sync Unit :=
  ensureOAuthFilter (oauthProtectedResourceMetadataName r.name) r
    (buildOAuthProtectedResourceMetadataJSON oauth)

def ensureOAuthAuthServerMetadataHRF (fetch : Fetch) (r : MCPRoute) (oauth : OAuth) : Sync Unit :=
  match buildOAuthAuthServerMetadataJSON fetch oauth with
  | .error e => throw e
  | .ok body => ensureOAuthFilter (oauthAuthServerMetadataFilterName r.name) r body

/-- `ensureSecurityPolicy` fails only when the JWKS have to be discovered and are not found. -/
def ensureSecurityPolicy (fetch : Fetch) (p : SecurityPolicy) : Except String Unit :=
  match p.oauth with
  | none => .ok ()
  | some oauth =>
    if oauth.jwks then .ok ()
    else
      match discoverJWKSURI fetch oauth with
      | .error e => .error ("failed to auto-discover JWKS URI: " ++ e)
      | .ok _ => .ok ()

def cleanupOAuthResources (r : MCPRoute) : Sync Unit :=
  modify fun s => (s.deleteFilter (oauthProtectedResourceMetadataName r.name)).deleteFilter
    (oauthAuthServerMetadataFilterName r.name)

def syncMCPRouteSecurityPolicy (fetch : Fetch) (r : MCPRoute) : Sync Unit :=
  match r.securityPolicy with
  | none => cleanupOAuthResources r
  | some p =>
    if p.oauth.isSome ∨ p.apiKeyAuth ∨ p.extAuth then
      match ensureSecurityPolicy fetch p with
      | .error e => throw ("failed to ensure SecurityPolicy: " ++ e)
      | .ok () =>
        match p.oauth with
        | none => cleanupOAuthResources r
        | some oauth =>
          wrap "failed to ensure OAuth resources" do
            wrap "failed to ensure HTTPRouteFilter" (ensureOAuthProtectedResourceMetadataHRF r oauth)
            wrap "failed to ensure AuthServer HTTPRouteFilter"
              (ensureOAuthAuthServerMetadataHRF fetch r oauth)
    else cleanupOAuthResources r

/-- `syncMCPRoute`; a route that is being deleted is left to the garbage collection. -/
def syncMCPRoute (fetch : Fetch) (ord : IterOrder String HTTPRoute) (r : MCPRoute) : Sync Unit :=
  if r.deleting then pure ()
  else
    match validatePerBackendPrefixMode r with
    | .error e => throw e
    | .ok () => do
      syncMainHTTPRoute r
      let s ← get
      let orphaned ← syncBackends r (listExistingPerBackendHTTPRoutes s r) r.backendRefs
      modify (deleteOrphanedPerBackendResources ord orphaned)
      wrap "failed to sync MCP route security policy" (syncMCPRouteSecurityPolicy fetch r)

/-- The objects of the namespace after the route with this name has been reconciled. -/
def reconcile (fetch : Fetch) (ord : IterOrder String HTTPRoute) (name : String) (s : Namespace) :
    Namespace :=
  match s.routes.lookup name with
  | none => s
  | some r => (exec (syncMCPRoute fetch ord r) s).2

end AgentRouter.MCPSync
