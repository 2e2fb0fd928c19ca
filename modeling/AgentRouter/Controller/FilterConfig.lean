import AgentRouter.Controller.HTTPRoute
import AgentRouter.Lib.GoMap
import AgentRouter.Lib.Results

/-!
# FilterConfig: the backends of the external processor's config

The second pass of `reconcileFilterConfigSecret`: every backendRef of every rule
of every live route becomes one `Backend` under its per-route-rule name, unless
its grant check, its backend, its policy or its credential fails.  The data plane
finds a backend by that name, so a name must lead back to the one backendRef it
was made from:

    two backendRefs with slash-free names have the same name only if they are the same
      (perRouteRuleRefBackendName_inj)
    an entry under the name of a backendRef was built from that backendRef
      (filterBackend_of_mem_configBackends)
-/

namespace AgentRouter.Controller

open GoMap

open List hiding splitOn

open Kube Text

/-! ## Mutations and schema -/

/-- Both levels of a `set` list merged: the later level wins under the same key. -/
def mergeSets {α : Type} (key : α → String) (ord : IterOrder String α) (backend route : List α) :
    List α :=
  (ord.visit (GoMap.setAll key (GoMap.setAll key ∅ backend) route)).map Prod.snd

/-- The two levels of a `remove` list, combined and deduplicated. -/
def mergeRemoves (key : String → String) (ord : IterOrder String String)
    (backend route : List String) : List String :=
  (ord.visit (GoMap.setAll id ∅ ((backend ++ route).map key))).map Prod.fst

/-- The orders of the loops that turn the merged maps back into lists. -/
structure MergeOrders where
  headers : IterOrder String HTTPHeader
  fields : IterOrder String HTTPBodyField
  removes : IterOrder String String

def MergeOrders.stored : MergeOrders :=
  ⟨GoMap.storedOrder, GoMap.storedOrder, GoMap.storedOrder⟩

def mergeHeaderMutations (ord : MergeOrders) (routeLevel backendLevel : Option HTTPHeaderMutation) :
    Option HTTPHeaderMutation :=
  match routeLevel, backendLevel with
  | none, b => b
  | r, none => r
  | some r, some b =>
    some ⟨mergeSets (fun h => toLower h.name) ord.headers b.set r.set,
      mergeRemoves toLower ord.removes b.remove r.remove⟩

def mergeBodyMutations (ord : MergeOrders) (routeLevel backendLevel : Option HTTPBodyMutation) :
    Option HTTPBodyMutation :=
  match routeLevel, backendLevel with
  | none, b => b
  | r, none => r
  | some r, some b =>
    some ⟨mergeSets HTTPBodyField.path ord.fields b.set r.set,
      mergeRemoves id ord.removes b.remove r.remove⟩

def headerMutationToFilterAPI (m : HTTPHeaderMutation) : HTTPHeaderMutation :=
  ⟨m.set.map fun h => ⟨toLower h.name, h.value⟩, m.remove.map toLower⟩

def headerValueFiltersToFilterAPI (fs : List HTTPHeaderValueFilter) : List HTTPHeaderValueFilter :=
  fs.map fun f => ⟨toLower f.name, if f.mode = "" then "Denylist" else f.mode, f.values⟩

/-- `filterapi.VersionedAPISchema`; empty strings are unset. -/
structure FilterSchema where
  name : APISchema
  version : String
  pfx : String
  deriving DecidableEq

/-- `cmp.Or(ptr.Deref(p, ""), d)`. -/
def derefOr (p : Option String) (d : String) : String :=
  if p.getD "" = "" then d else p.getD ""

def schemaToFilterAPI (s : VersionedAPISchema) : FilterSchema :=
  match s.name with
  | .openAI | .anthropic => ⟨s.name, "", derefOr s.pfx "v1"⟩
  | .awsOpenAI => ⟨s.name, "", derefOr s.pfx "openai/v1"⟩
  | .typeSafe => ⟨s.name, derefOr s.version "v1", ""⟩
  | _ => ⟨s.name, s.version.getD "", ""⟩

/-! ## Credentials -/

inductive AuthKind where
  | apiKey (key : SecretValue)
  | azureAPIKey (key : SecretValue)
  | anthropicAPIKey (key : SecretValue)
  /-- without a literal the default credential chain signs. -/
  | aws (credentialFileLiteral : Option SecretValue) (region : String)
  | azure (accessToken : SecretValue)
  /-- without a token the application default credentials are used. -/
  | gcp (accessToken : Option SecretValue) (region projectName : String)
  | openAI (accessToken : SecretValue) (organization project : String)
  deriving DecidableEq

/-- `filterapi.CredentialOverride`. -/
structure CredentialOverride where
  headerName : String
  inputHeadersToRemove : List String
  dynamicMetadataNamespace : String
  dynamicMetadataKey : String
  fallbackToConfigured : Bool
  deriving DecidableEq

structure BackendAuth where
  kind : AuthKind
  credentialOverride : Option CredentialOverride
  deriving DecidableEq

/-- The Secret values an auth entry carries. -/
def AuthKind.values : AuthKind → List SecretValue
  | .apiKey k | .azureAPIKey k | .anthropicAPIKey k | .azure k | .openAI k _ _ => [k]
  | .aws v _ | .gcp v _ _ => v.toList

def defaultOverrideHeaderName : BSPCredential → String
  | .apiKey _ => "x-aigw-api-key"
  | .anthropicAPIKey _ => "x-aigw-anthropic-api-key"
  | .azureAPIKey _ => "x-aigw-azure-api-key"
  | .azure .. => "x-aigw-azure-access-token"
  | .gcp .. => "x-aigw-gcp-access-token"
  | .openAI .. => "x-aigw-openai-access-token"
  | .aws .. => "x-aigw-aws-"

def defaultOverrideMetadataKey : BSPCredential → String
  | .aws .. => "x-aigw-aws-credentials"
  | c => defaultOverrideHeaderName c

def overrideInputHeaders (c : BSPCredential) (headerName : String) : List String :=
  match c with
  | .aws .. => [headerName ++ "access-key-id", headerName ++ "secret-access-key",
      headerName ++ "session-token"]
  | _ => [headerName]

def resolveCredentialOverride (c : BSPCredential) (o : CredentialOverrideSource)
    (hasStaticCredential : Bool) : Except String CredentialOverride :=
  let result : CredentialOverride :=
    match o with
    | .fromRequestHeaders header fallback =>
      let headerName := toLower (if header = "" then defaultOverrideHeaderName c else header)
      ⟨headerName, overrideInputHeaders c headerName, "", "", fallback.getD true⟩
    | .fromDynamicMetadata ns key fallback =>
      ⟨"", [], ns, if key = "" then defaultOverrideMetadataKey c else key, fallback.getD true⟩
  if result.fallbackToConfigured && !hasStaticCredential then
    .error ("credentialOverride with fallbackToConfigured=true requires a static credential " ++
      "to be configured")
  else .ok result

/-- `rotators.GetBSPSecretName`: the Secret a rotated credential is stored in. -/
def getBSPSecretName (bspName : String) : String := "ai-eg-bsp-" ++ bspName

def apiKeyInSecret : String := "apiKey"
def awsCredentialsKey : String := "credentials"
def azureAccessTokenKey : String := "azureAccessToken"
def gcpAccessTokenKey : String := "gcpAccessToken"
def openAIAccessTokenKey : String := "openAIAccessToken"

/-- The Secret a policy's static credential refers to, if one is set. -/
def backendSecurityPolicySecretRef (p : BackendSecurityPolicy) : Option ObjectKey :=
  let ref := match p.credential with
    | .apiKey r | .azureAPIKey r | .anthropicAPIKey r => r
    | .aws _ file _ => file.join
    | .gcp _ _ file _ => file
    | .azure _ _ r _ => r
    | .openAI .. => none
  ref.map fun r => ⟨r.ns.getD p.key.ns, r.name⟩

def getSecretData (s : Store) (k : ObjectKey) (dataKey : String) : Except String SecretValue :=
  match s.getSecret k with
  | none => .error ("failed to get secret " ++ k.ns ++ "/" ++ k.name)
  | some secret =>
    match secret.data.lookup dataKey with
    | some v => .ok v
    | none => .error ("secret " ++ k.ns ++ "/" ++ k.name ++ " does not contain key " ++ dataKey)

def getBSPSecretRefData (s : Store) (p : BackendSecurityPolicy) (dataKey : String) :
    Except String SecretValue :=
  match backendSecurityPolicySecretRef p with
  | none => .error ("secretRef is not set for policy " ++ p.key.ns ++ "/" ++ p.key.name)
  | some k =>
    match validateSecretReference s p.key.ns k.ns k.name with
    | some r => .error r.notPermitted
    | none => getSecretData s k dataKey

/-- A value of the Secret that holds the policy's rotated credential. -/
def getGeneratedSecretData (s : Store) (p : BackendSecurityPolicy) (dataKey : String) :
    Except String SecretValue :=
  getSecretData s ⟨p.key.ns, getBSPSecretName p.key.name⟩ dataKey

/-- The credential of a policy, and whether it can serve without a per-request one. -/
def bspAuthKind (s : Store) (p : BackendSecurityPolicy) : Except String (AuthKind × Bool) :=
  match p.credential with
  | .apiKey _ => (getBSPSecretRefData s p apiKeyInSecret).map fun v => (.apiKey v, true)
  | .azureAPIKey _ => (getBSPSecretRefData s p apiKeyInSecret).map fun v => (.azureAPIKey v, true)
  | .anthropicAPIKey _ =>
    (getBSPSecretRefData s p apiKeyInSecret).map fun v => (.anthropicAPIKey v, true)
  | .aws region none none => .ok (.aws none region, true)
  | .aws region (some _) _ =>
    (getBSPSecretRefData s p awsCredentialsKey).map fun v => (.aws (some v) region, true)
  | .aws region none (some _) =>
    (getGeneratedSecretData s p awsCredentialsKey).map fun v => (.aws (some v) region, true)
  | .azure .. => (getGeneratedSecretData s p azureAccessTokenKey).map fun v => (.azure v, true)
  | .gcp project region none none => .ok (.gcp none region project, false)
  | .gcp project region _ _ =>
    (getGeneratedSecretData s p gcpAccessTokenKey).map fun v => (.gcp (some v) region project, true)
  | .openAI organization project _ =>
    (getGeneratedSecretData s p openAIAccessTokenKey).map fun v =>
      (.openAI v organization project, true)

def bspToFilterAPIBackendAuth (s : Store) (p : BackendSecurityPolicy) : Except String BackendAuth :=
  match bspAuthKind s p with
  | .error e => .error e
  | .ok (kind, hasStaticCred) =>
    match p.credentialOverride with
    | none => .ok ⟨kind, none⟩
    | some o =>
      match resolveCredentialOverride p.credential o hasStaticCred with
      | .error e => .error ("invalid credentialOverride for policy " ++ p.key.name ++ ": " ++ e)
      | .ok c => .ok ⟨kind, some c⟩

/-! ## Backends -/

/-- `filterapi.Backend`. -/
structure Backend where
  name : String
  modelNameOverride : String
  /-- empty for an InferencePool. -/
  aiServiceBackendName : String
  schema : FilterSchema
  auth : Option BackendAuth
  headerMutation : Option HTTPHeaderMutation
  bodyMutation : Option HTTPBodyMutation
  headerValueFilters : List HTTPHeaderValueFilter
  deriving DecidableEq

/-- The unique name of the backendRef `refIndex` of the rule `ruleIndex` of a route. -/
def perRouteRuleRefBackendName (ns name routeName : String) (ruleIndex refIndex : Nat) : String :=
  ns ++ "/" ++ name ++ "/route/" ++ routeName ++ "/rule/" ++ ruleIndex.repr ++ "/ref/" ++
    refIndex.repr

/-- The policies of the namespace that target the object, once per matching target. -/
def policiesTargeting (s : Store) (ns name group kind : String) : List BackendSecurityPolicy :=
  (s.backendSecurityPolicies.filter fun p => p.key.ns = ns &&
      (p.targetRefs.any fun t =>
        namespacedNameIndexKey t.name p.key.ns = namespacedNameIndexKey name ns)).flatMap fun p =>
    (p.targetRefs.filter fun t => t.name = name && t.group = group && t.kind = kind).map fun _ => p

/-- At most one policy may target an object. -/
def maybeBSP (s : Store) (ns name group kind : String) :
    Except String (Option BackendSecurityPolicy) :=
  match policiesTargeting s ns name group kind with
  | [] => .ok none
  | [p] => .ok (some p)
  | _ => .error ("multiple BackendSecurityPolicies found for backend " ++ name)

def getBSPForInferencePool (s : Store) (ns name : String) :
    Except String (Option BackendSecurityPolicy) :=
  maybeBSP s ns name inferencePoolGroup inferencePoolKind

def backendWithMaybeBSP (s : Store) (ns name : String) :
    Except String (AIServiceBackend × Option BackendSecurityPolicy) :=
  match s.getAIServiceBackend ⟨ns, name⟩ with
  | none => .error ("AIServiceBackend " ++ ns ++ "/" ++ name ++ " not found")
  | some b => (maybeBSP s ns name aiServiceBackendGroup aiServiceBackendKind).map (b, ·)

def stripCredentialOverrideInputHeaders (b : Backend) : Backend :=
  match b.auth.bind (·.credentialOverride) with
  | none => b
  | some c =>
    if c.inputHeadersToRemove = [] then b
    else
      let m := b.headerMutation.getD ⟨[], []⟩
      { b with headerMutation := some { m with remove := m.remove ++ c.inputHeadersToRemove } }

/-- The credential of the policy put on the backend; a failing one skips the backend. -/
def withAuth (s : Store) (b : Backend) : Option BackendSecurityPolicy → Option Backend
  | none => some b
  | some p =>
    match bspToFilterAPIBackendAuth s p with
    | .error _ => none
    | .ok auth => some (stripCredentialOverrideInputHeaders { b with auth := some auth })

/-- One pass of the inner loop of the second pass; `none` skips the backendRef. -/
def filterBackend (ord : MergeOrders) (s : Store) (route : AIGatewayRoute) (ruleIndex refIndex : Nat)
    (ref : RuleBackendRef) : Option Backend :=
  let backendNamespace := ref.getNamespace route.key.ns
  let b : Backend :=
    { name := perRouteRuleRefBackendName route.key.ns ref.name route.key.name ruleIndex refIndex
      modelNameOverride := ref.modelNameOverride
      aiServiceBackendName :=
        if ref.isInferencePool then "" else namespacedNameKey backendNamespace ref.name
      schema := ⟨.openAI, "v1", "v1"⟩
      auth := none, headerMutation := none, bodyMutation := none, headerValueFilters := [] }
  match refGrantError s route.key.ns ref with
  | some _ => none
  | none =>
    if ref.isInferencePool then
      match getBSPForInferencePool s backendNamespace ref.name with
      | .error _ => none
      | .ok bsp => withAuth s b bsp
    else
      match backendWithMaybeBSP s backendNamespace ref.name with
      | .error _ => none
      | .ok (backend, bsp) =>
        withAuth s { b with
          headerMutation :=
            (mergeHeaderMutations ord ref.headerMutation backend.headerMutation).map
              headerMutationToFilterAPI
          bodyMutation := mergeBodyMutations ord ref.bodyMutation backend.bodyMutation
          schema := schemaToFilterAPI backend.apiSchema
          headerValueFilters := headerValueFiltersToFilterAPI backend.headerValueFilters } bsp

/-- The backends of one route, rule by rule. -/
def routeBackends (ord : MergeOrders) (s : Store) (route : AIGatewayRoute) : List Backend :=
  route.rules.zipIdx.flatMap fun r =>
    r.1.backendRefs.zipIdx.filterMap fun b => filterBackend ord s route r.2 b.2 b.1

/-- The backends of the config: a route that is being deleted contributes none. -/
def configBackends (ord : MergeOrders) (s : Store) (routes : List AIGatewayRoute) : List Backend :=
  (routes.filter fun r => !r.deleting).flatMap (routeBackends ord s)

/-! ## Lemmas -/

theorem key_of_lookup_setAll {α : Type} {key : α → String} {k : String} {xs : List α}
    {m : GoMap String α} (hm : ∀ a, m.lookup k = some a → key a = k) {a : α}
    (h : (setAll key m xs).lookup k = some a) : key a = k := by
  rw [lookup_setAll, Option.or_eq_some_iff] at h
  rcases h with hlast | ⟨-, hlookup⟩
  · obtain ⟨a', -, heq⟩ := mem_map.mp (mem_of_lastValue hlast)
    rw [Prod.mk.injEq] at heq
    rw [← heq.2]
    exact heq.1
  · exact hm a hlookup

theorem mem_of_mem_mergeSets {α : Type} {key : α → String} {ord : IterOrder String α}
    {backend route : List α} {a : α} (h : a ∈ mergeSets key ord backend route) :
    a ∈ backend ∨ a ∈ route := by
  obtain ⟨e, he, rfl⟩ := mem_map.mp h
  have hlookup := (ord.mem_visit _ e).mp he
  rw [lookup_setAll, lookup_setAll, AList.lookup_empty, Option.or_none, Option.or_eq_some_iff] at hlookup
  have hmem {xs : List α} (hlast : lastValue e.1 (xs.map fun x => (key x, x)) = some e.2) : e.2 ∈ xs := by
    obtain ⟨x, hx, heq⟩ := mem_map.mp (mem_of_lastValue hlast)
    rw [← (Prod.mk.inj heq).2]
    exact hx
  rcases hlookup with hlast | ⟨-, hlast⟩
  · exact .inr (hmem hlast)
  · exact .inl (hmem hlast)

theorem lastValue_mergeSets {α : Type} (key : α → String) (ord : IterOrder String α)
    (backend route : List α) (k : String) :
    lastValue k ((mergeSets key ord backend route).map fun a => (key a, a)) =
      (lastValue k (route.map fun a => (key a, a))).or (lastValue k (backend.map fun a => (key a, a))) := by
  have hkeys : (mergeSets key ord backend route).map (fun a => (key a, a)) =
      ord.visit (setAll key (setAll key ∅ backend) route) := by
    rw [mergeSets, map_map]
    refine (map_congr_left fun e he => ?_).trans (map_id _)
    have hlookup := (ord.mem_visit _ e).mp he
    have hkey : key e.2 = e.1 :=
      key_of_lookup_setAll (fun a => key_of_lookup_setAll (by simp)) hlookup
    rw [Function.comp_apply, hkey]
    rfl
  rw [hkeys, ord.lastValue_visit, lookup_setAll, lookup_setAll]
  simp

theorem mem_mergeRemoves (key : String → String) (ord : IterOrder String String)
    (backend route : List String) (k : String) :
    k ∈ mergeRemoves key ord backend route ↔ k ∈ backend.map key ∨ k ∈ route.map key := by
  unfold mergeRemoves
  rw [ord.mem_keys_visit, ← mem_append, ← map_append]
  constructor
  · intro h
    obtain ⟨x, hx, rfl⟩ := mem_setAll_empty h
    exact hx
  · intro h
    exact mem_setAll_of_mem id h

variable {s : Store} {b : Backend}

theorem withAuth_name {b' : Backend} {p : Option BackendSecurityPolicy}
    (h : withAuth s b p = some b') : b'.name = b.name := by
  unfold withAuth at h
  split at h
  · cases h; rfl
  · split at h
    · cases h
    · cases h
      unfold stripCredentialOverrideInputHeaders
      split
      · rfl
      · split <;> rfl

variable {ord : MergeOrders} {route : AIGatewayRoute} {ref : RuleBackendRef}

theorem filterBackend_name {ruleIndex refIndex : Nat}
    (h : filterBackend ord s route ruleIndex refIndex ref = some b) :
    b.name = perRouteRuleRefBackendName route.key.ns ref.name route.key.name ruleIndex refIndex := by
  unfold filterBackend at h
  dsimp only at h
  split at h
  · cases h
  · split at h
    · split at h
      · cases h
      · exact withAuth_name h
    · split at h
      · cases h
      · exact withAuth_name h

theorem splitOn_perRouteRuleRefBackendName {ns name routeName : String} (hns : Free '/' ns)
    (hname : Free '/' name) (hroute : Free '/' routeName) (i j : Nat) :
    splitOn '/' (perRouteRuleRefBackendName ns name routeName i j) =
      [ns, name, "route", routeName, "rule", i.repr, "ref", j.repr] := by
  refine splitOn_intercalate (cons_ne_nil _ _) ?_ ?_
  · simp only [forall_mem_cons, hns, hname, hroute, free_slash_repr]
    decide
  · simp [perRouteRuleRefBackendName, List.intercalate]

variable {ns ns' name name' routeName routeName' : String}

theorem perRouteRuleRefBackendName_inj
    {i i' j j' : Nat} (h : Free '/' ns) (hn : Free '/' name) (hr : Free '/' routeName)
    (h' : Free '/' ns') (hn' : Free '/' name') (hr' : Free '/' routeName')
    (he : perRouteRuleRefBackendName ns name routeName i j =
      perRouteRuleRefBackendName ns' name' routeName' i' j') :
    ns = ns' ∧ name = name' ∧ routeName = routeName' ∧ i = i' ∧ j = j' := by
  have hs := congrArg (splitOn '/') he
  rw [splitOn_perRouteRuleRefBackendName h hn hr, splitOn_perRouteRuleRefBackendName h' hn' hr'] at hs
  simp only [List.cons.injEq, and_true, true_and] at hs
  obtain ⟨h1, h2, h3, h4, h5⟩ := hs
  exact ⟨h1, h2, h3, repr_inj h4, repr_inj h5⟩

theorem perRouteRuleRefBackendName_refIndex_inj
    {i i' j j' : Nat} (he : perRouteRuleRefBackendName ns name routeName i j =
      perRouteRuleRefBackendName ns' name' routeName' i' j') : j = j' := by
  have hs : "/ref/" = "/ref" ++ String.singleton '/' := by decide
  unfold perRouteRuleRefBackendName at he
  rw [hs] at he
  simp only [← String.append_assoc] at he
  exact repr_inj_of_suffix (by decide) he

/-! ## Whose credential an entry carries -/

variable {v : SecretValue}

theorem mem_data_of_lookup {secret : Secret} {key : String} (h : secret.data.lookup key = some v) :
    (key, v) ∈ secret.data := by
  obtain ⟨l₁, l₂, heq, -⟩ := lookup_eq_some_iff.mp h
  rw [heq]
  simp

theorem getSecretData_eq_ok {k : ObjectKey} {dataKey : String} (h : getSecretData s k dataKey = .ok v) :
    ∃ secret, s.getSecret k = some secret ∧ (dataKey, v) ∈ secret.data := by
  unfold getSecretData at h
  split at h
  · cases h
  · next secret hsecret =>
    split at h
    · next v' hv =>
      cases h
      exact ⟨secret, hsecret, mem_data_of_lookup hv⟩
    · cases h

variable {p : BackendSecurityPolicy}

/-- The credentials that are read back from the generated Secret. -/
def usesGeneratedSecret : BSPCredential → Bool
  | .aws _ none (some _) | .azure .. | .openAI .. => true
  | .gcp _ _ file wif => file.isSome || wif.isSome
  | _ => false

/-- A credential is the value of a Secret that a grant permits, or lies in the generated Secret. -/
theorem mem_values_of_bspAuthKind {kind : AuthKind} {static : Bool}
    (h : bspAuthKind s p = .ok (kind, static)) (hv : v ∈ kind.values) :
    (∃ dataKey, getBSPSecretRefData s p dataKey = .ok v) ∨
      usesGeneratedSecret p.credential = true ∧ ∃ dataKey, getGeneratedSecretData s p dataKey = .ok v := by
  unfold bspAuthKind at h
  split at h
  case h_4 | h_8 =>
    cases h
    cases hv
  all_goals
    obtain ⟨v', hread, heq⟩ := Results.map_eq_ok h
    cases heq
    cases mem_singleton.mp hv
  case h_1 | h_2 | h_3 | h_5 => exact .inl ⟨_, hread⟩
  case h_6 hc | h_7 hc | h_10 hc =>
    rw [hc]
    exact .inr ⟨rfl, _, hread⟩
  case h_9 file wif hnone hc =>
    refine .inr ⟨?_, _, hread⟩
    rw [hc]
    cases file with
    | some _ => rfl
    | none =>
      cases wif with
      | some _ => rfl
      | none => exact (hnone rfl rfl).elim

theorem mem_policiesTargeting {ns name group kind : String} :
    p ∈ policiesTargeting s ns name group kind ↔ p ∈ s.backendSecurityPolicies ∧ p.key.ns = ns ∧
      ∃ t ∈ p.targetRefs, t.name = name ∧ t.group = group ∧ t.kind = kind := by
  unfold policiesTargeting
  simp only [mem_flatMap, mem_filter, mem_map, Bool.and_eq_true, decide_eq_true_eq, any_eq_true]
  constructor
  · rintro ⟨q, ⟨hq, hns, -⟩, t, ⟨ht, ⟨hname, hgroup⟩, hkind⟩, rfl⟩
    exact ⟨hq, hns, t, ht, hname, hgroup, hkind⟩
  · rintro ⟨hp, rfl, t, ht, rfl, hgroup, hkind⟩
    exact ⟨p, ⟨hp, rfl, t, ht, rfl⟩, t, ⟨ht, ⟨rfl, hgroup⟩, hkind⟩, rfl⟩

theorem eq_of_maybeBSP {ns name group kind : String} {q : BackendSecurityPolicy}
    (h : maybeBSP s ns name group kind = .ok (some q))
    (hp : p ∈ policiesTargeting s ns name group kind) : p = q := by
  unfold maybeBSP at h
  split at h
  · cases h
  · next hlist =>
    cases h
    rw [hlist] at hp
    exact mem_singleton.mp hp
  · cases h

theorem auth_stripCredentialOverrideInputHeaders (b : Backend) :
    (stripCredentialOverrideInputHeaders b).auth = b.auth := by
  unfold stripCredentialOverrideInputHeaders
  split
  · rfl
  · split <;> rfl

theorem auth_of_withAuth {b' : Backend} {mp : Option BackendSecurityPolicy} {auth : BackendAuth}
    (hb : b.auth = none) (h : withAuth s b mp = some b') (hauth : b'.auth = some auth) :
    ∃ p, mp = some p ∧ bspToFilterAPIBackendAuth s p = .ok auth := by
  unfold withAuth at h
  split at h
  · cases h
    rw [hb] at hauth
    cases hauth
  · next p =>
    split at h
    · cases h
    · next a ha =>
      cases h
      rw [auth_stripCredentialOverrideInputHeaders] at hauth
      cases hauth
      exact ⟨p, rfl, ha⟩

/-- The policy has a target that names the backend of the backendRef. -/
def Targets (p : BackendSecurityPolicy) (route : AIGatewayRoute) (ref : RuleBackendRef) : Prop :=
  p.key.ns = ref.getNamespace route.key.ns ∧ ∃ t ∈ p.targetRefs, t.name = ref.name ∧
    if ref.isInferencePool then t.group = inferencePoolGroup ∧ t.kind = inferencePoolKind
    else t.group = aiServiceBackendGroup ∧ t.kind = aiServiceBackendKind

theorem auth_of_filterBackend {ruleIndex refIndex : Nat} {auth : BackendAuth}
    (h : filterBackend ord s route ruleIndex refIndex ref = some b) (hauth : b.auth = some auth)
    (hp : p ∈ s.backendSecurityPolicies) (ht : Targets p route ref) :
    bspToFilterAPIBackendAuth s p = .ok auth := by
  obtain ⟨hns, t, htmem, hname, hkind⟩ := ht
  unfold filterBackend at h
  dsimp only at h
  split at h
  · cases h
  split at h
  · next hpool =>
    rw [if_pos hpool] at hkind
    split at h
    · cases h
    · next bsp hbsp =>
      obtain ⟨q, rfl, hq⟩ := auth_of_withAuth rfl h hauth
      rw [eq_of_maybeBSP hbsp (mem_policiesTargeting.mpr ⟨hp, hns, t, htmem, hname, hkind⟩)]
      exact hq
  · next hpool =>
    rw [if_neg hpool] at hkind
    split at h
    · cases h
    · next backend bsp hbsp =>
      obtain ⟨q, rfl, hq⟩ := auth_of_withAuth rfl h hauth
      unfold backendWithMaybeBSP at hbsp
      split at hbsp
      · cases hbsp
      · obtain ⟨mq, hmq, heq⟩ := Results.map_eq_ok hbsp
        cases heq
        rw [eq_of_maybeBSP hmq (mem_policiesTargeting.mpr ⟨hp, hns, t, htmem, hname, hkind⟩)]
        exact hq

/-! ## Names lead back to backendRefs -/

/-- Every name in a route is free of slashes, as the API server's name rules demand. -/
def SlashFree (route : AIGatewayRoute) : Prop :=
  Free '/' route.key.ns ∧ Free '/' route.key.name ∧
    ∀ rule ∈ route.rules, ∀ ref ∈ rule.backendRefs, Free '/' ref.name

instance (route : AIGatewayRoute) : Decidable (SlashFree route) :=
  inferInstanceAs (Decidable (_ ∧ _))

variable {routes : List AIGatewayRoute}

theorem mem_configBackends (h : b ∈ configBackends ord s routes) :
    ∃ route ∈ routes, ∃ (i j : Nat) (rule : AIGatewayRouteRule) (ref : RuleBackendRef),
      route.rules[i]? = some rule ∧ rule.backendRefs[j]? = some ref ∧
        filterBackend ord s route i j ref = some b := by
  obtain ⟨route, hroute, h⟩ := mem_flatMap.mp h
  obtain ⟨⟨rule, i⟩, hrule, h⟩ := mem_flatMap.mp h
  obtain ⟨⟨ref, j⟩, href, h⟩ := mem_filterMap.mp h
  exact ⟨route, (mem_filter.mp hroute).1, i, j, rule, ref,
    mem_zipIdx_iff_getElem?.mp hrule, mem_zipIdx_iff_getElem?.mp href, h⟩

theorem filterBackend_of_mem_configBackends (hfree : ∀ r ∈ routes, SlashFree r)
    (hkeys : ∀ r ∈ routes, ∀ r' ∈ routes, r.key = r'.key → r = r') (hroute : route ∈ routes)
    {i j : Nat} {rule : AIGatewayRouteRule} (hrule : route.rules[i]? = some rule)
    (href : rule.backendRefs[j]? = some ref) (hb : b ∈ configBackends ord s routes)
    (hname : b.name = perRouteRuleRefBackendName route.key.ns ref.name route.key.name i j) :
    filterBackend ord s route i j ref = some b := by
  obtain ⟨route', hroute', i', j', rule', ref', hrule', href', hb'⟩ := mem_configBackends hb
  rw [filterBackend_name hb'] at hname
  obtain ⟨hns, hn, hrefs⟩ := hfree route hroute
  obtain ⟨hns', hn', hrefs'⟩ := hfree route' hroute'
  have hrn := hrefs rule (mem_of_getElem? hrule) ref (mem_of_getElem? href)
  have hrn' := hrefs' rule' (mem_of_getElem? hrule') ref' (mem_of_getElem? href')
  obtain ⟨h1, -, h3, rfl, rfl⟩ := perRouteRuleRefBackendName_inj hns' hrn' hn' hns hrn hn hname
  have hkey : route'.key = route.key := ObjectKey.ext h1 h3
  obtain rfl := hkeys route' hroute' route hroute hkey
  rw [hrule] at hrule'
  cases hrule'
  rw [href] at href'
  cases href'
  exact hb'

end AgentRouter.Controller
