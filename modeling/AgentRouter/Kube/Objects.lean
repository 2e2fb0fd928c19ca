import AgentRouter.Lib.Text

/-!
# Objects: the Kubernetes resources the controllers read

One structure per resource, with the fields the modelled functions read; the
field names are the API's.  `ns` stands for a `namespace` field.  A pointer that
may be nil is an `Option`.  `Store` is what the client and its indexes see at
one moment; `Get` by key is `find?` on the key and `List` is a `filter`.

A Secret's value carries, next to its bytes, the Secrets it was obtained from.
No function reads that record; it says where a credential comes from once it has
been copied into a generated Secret or into the filter config.
-/

namespace AgentRouter.Kube

/-- `client.ObjectKey`. -/
@[ext] structure ObjectKey where
  ns : String
  name : String
  deriving DecidableEq

/-! ## ReferenceGrant -/

structure ReferenceGrantFrom where
  group : String
  kind : String
  ns : String

structure ReferenceGrantTo where
  group : String
  kind : String
  name : Option String

structure ReferenceGrant where
  key : ObjectKey
  /-- the deletion timestamp is set; the finalizer still keeps the object in the cache. -/
  deleting : Bool
  froms : List ReferenceGrantFrom
  tos : List ReferenceGrantTo

/-! ## Mutations and filters shared by routes and backends -/

structure HTTPHeader where
  name : String
  value : String
  deriving DecidableEq

structure HTTPHeaderMutation where
  set : List HTTPHeader
  remove : List String
  deriving DecidableEq

structure HTTPBodyField where
  path : String
  value : String
  deriving DecidableEq

structure HTTPBodyMutation where
  set : List HTTPBodyField
  remove : List String
  deriving DecidableEq

structure HTTPHeaderValueFilter where
  name : String
  /-- empty on objects stored before the default was added. -/
  mode : String
  values : List String
  deriving DecidableEq

inductive APISchema where
  | openAI | cohere | awsBedrock | azureOpenAI | gcpVertexAI | gcpAnthropic | anthropic
  | awsAnthropic | awsOpenAI | typeSafe
  deriving DecidableEq

structure VersionedAPISchema where
  name : APISchema
  version : Option String
  pfx : Option String

/-! ## AIServiceBackend and AIGatewayRoute -/

/-- `gwapiv1.BackendObjectReference`. -/
structure BackendObjectReference where
  group : Option String
  kind : Option String
  name : String
  ns : Option String
  port : Option Nat

structure AIServiceBackend where
  key : ObjectKey
  apiSchema : VersionedAPISchema
  backendRef : BackendObjectReference
  headerMutation : Option HTTPHeaderMutation
  bodyMutation : Option HTTPBodyMutation
  headerValueFilters : List HTTPHeaderValueFilter

/-- An AIServiceBackend over the Backend of its own name with nothing else set. -/
def plainBackend (key : ObjectKey) : AIServiceBackend where
  key := key
  apiSchema := ⟨.openAI, none, none⟩
  backendRef := ⟨none, none, key.name, none, none⟩
  headerMutation := none
  bodyMutation := none
  headerValueFilters := []

/-- `AIGatewayRouteRuleBackendRef`. -/
structure RuleBackendRef where
  name : String
  ns : Option String
  group : Option String
  kind : Option String
  modelNameOverride : String
  headerMutation : Option HTTPHeaderMutation
  bodyMutation : Option HTTPBodyMutation
  weight : Option Int
  priority : Option Nat
  deriving DecidableEq

/-- A backendRef to an AIServiceBackend of the route's namespace with nothing else set. -/
def localRef (name : String) : RuleBackendRef where
  name := name
  ns := none
  group := none
  kind := none
  modelNameOverride := ""
  headerMutation := none
  bodyMutation := none
  weight := none
  priority := none

/-- `gwapiv1.HTTPHeaderMatch`; the type is `none` when it is left to its default. -/
structure HTTPHeaderMatch where
  type : Option String
  name : String
  value : String
  deriving DecidableEq

/-- `gwapiv1.HTTPRouteTimeouts`. -/
structure HTTPRouteTimeouts where
  request : Option String
  backendRequest : Option String
  deriving DecidableEq

structure AIGatewayRouteRule where
  name : Option String
  backendRefs : List RuleBackendRef
  /-- one list of header matches per match. -/
  ruleMatches : List (List HTTPHeaderMatch)
  timeouts : Option HTTPRouteTimeouts
  deriving DecidableEq

structure AIGatewayRoute where
  key : ObjectKey
  deleting : Bool
  rules : List AIGatewayRouteRule
  deriving DecidableEq

/-! ## BackendSecurityPolicy and Secret -/

/-- `gwapiv1.SecretObjectReference`. -/
structure SecretObjectReference where
  name : String
  ns : Option String
  deriving DecidableEq

/-- The part of an OIDC configuration that refers to a Secret: the client secret
the OIDC token provider authenticates with. -/
structure OIDC where
  clientSecret : SecretObjectReference
  deriving DecidableEq

structure GCPWorkloadIdentityFederationConfig where
  projectID : String
  workloadIdentityProviderName : String
  workloadIdentityPoolName : String
  oidc : OIDC
  deriving DecidableEq

/-- `OpenAISubjectToken`. -/
structure OpenAISubjectToken where
  oidcExchangeToken : Option OIDC
  spiffeJWTSVID : Bool
  deriving DecidableEq

/-- The credential part of a `BackendSecurityPolicySpec`.  Admission accepts a
policy only when exactly the field named by its type is set, so the type and the
field are one value here. -/
inductive BSPCredential where
  | apiKey (secretRef : Option SecretObjectReference)
  | azureAPIKey (secretRef : Option SecretObjectReference)
  | anthropicAPIKey (secretRef : Option SecretObjectReference)
  | aws (region : String) (credentialsFile : Option (Option SecretObjectReference))
      (oidcExchangeToken : Option OIDC)
  | azure (clientID tenantID : String) (clientSecretRef : Option SecretObjectReference)
      (oidcExchangeToken : Option OIDC)
  | gcp (projectName region : String) (credentialsFile : Option SecretObjectReference)
      (wif : Option GCPWorkloadIdentityFederationConfig)
  | openAI (organization project : String) (subjectToken : OpenAISubjectToken)
  deriving DecidableEq

/-- `BackendSecurityPolicyCredentialOverride`: one of its two sources, with the
source's own name for the value and `fallbackToConfigured`. -/
inductive CredentialOverrideSource where
  | fromRequestHeaders (header : String) (fallbackToConfigured : Option Bool)
  | fromDynamicMetadata (metadataNamespace key : String) (fallbackToConfigured : Option Bool)
  deriving DecidableEq

/-- `gwapiv1a2.LocalPolicyTargetReference`. -/
structure LocalPolicyTargetReference where
  group : String
  kind : String
  name : String
  deriving DecidableEq

structure BackendSecurityPolicy where
  key : ObjectKey
  deleting : Bool
  targetRefs : List LocalPolicyTargetReference
  credential : BSPCredential
  credentialOverride : Option CredentialOverrideSource
  deriving DecidableEq

/-- A Secret's value, with the Secrets it was obtained from. -/
structure SecretValue where
  text : String
  origins : List ObjectKey
  deriving DecidableEq

structure Secret where
  key : ObjectKey
  data : List (String × SecretValue)
  /-- the time in the annotation `rotators/expiration-time`. -/
  expiration : Option Int

/-! ## What the client sees -/

structure Store where
  referenceGrants : List ReferenceGrant
  aiServiceBackends : List AIServiceBackend
  inferencePools : List ObjectKey
  aiGatewayRoutes : List AIGatewayRoute
  backendSecurityPolicies : List BackendSecurityPolicy
  secrets : List Secret

namespace Store

def empty : Store := ⟨[], [], [], [], [], []⟩

def getAIServiceBackend (s : Store) (k : ObjectKey) : Option AIServiceBackend :=
  s.aiServiceBackends.find? (·.key = k)

def getAIGatewayRoute (s : Store) (k : ObjectKey) : Option AIGatewayRoute :=
  s.aiGatewayRoutes.find? (·.key = k)

def getBackendSecurityPolicy (s : Store) (k : ObjectKey) : Option BackendSecurityPolicy :=
  s.backendSecurityPolicies.find? (·.key = k)

def getSecret (s : Store) (k : ObjectKey) : Option Secret :=
  s.secrets.find? (·.key = k)

end Store

/-! ## Constants and keys -/

def aiServiceBackendGroup : String := "aigateway.envoyproxy.io"
def aiServiceBackendKind : String := "AIServiceBackend"
def inferencePoolGroup : String := "inference.networking.k8s.io"
def inferencePoolKind : String := "InferencePool"

/-- The `name.namespace` key of the controller's field indexes. -/
def namespacedNameIndexKey (name ns : String) : String := name ++ "." ++ ns

/-- The `namespace/name` key of a namespaced resource. -/
def namespacedNameKey (ns name : String) : String := ns ++ "/" ++ name

/-! ## Helpers of the route API -/

namespace RuleBackendRef

def isInferencePool (ref : RuleBackendRef) : Bool :=
  ref.group = some inferencePoolGroup && ref.kind = some inferencePoolKind

def getNamespace (ref : RuleBackendRef) (defaultNamespace : String) : String :=
  match ref.ns with
  | some ns => if ns ≠ "" then ns else defaultNamespace
  | none => defaultNamespace

def isCrossNamespace (ref : RuleBackendRef) (routeNamespace : String) : Bool :=
  match ref.ns with
  | some ns => ns ≠ "" && ns ≠ routeNamespace
  | none => false

end RuleBackendRef

def defaultRequestTimeout : String := "60s"

def AIGatewayRouteRule.getTimeoutsOrDefault (r : AIGatewayRouteRule) : HTTPRouteTimeouts :=
  match r.timeouts with
  | none => ⟨some defaultRequestTimeout, none⟩
  | some t => if t.request = none then { t with request := some defaultRequestTimeout } else t

end AgentRouter.Kube
