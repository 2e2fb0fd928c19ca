import Mathlib.Algebra.Group.Int.Defs
import AgentRouter.Controller.FilterConfig
import AgentRouter.Lib.Program

/-!
# Rotation: the credential a BackendSecurityPolicy obtains

A policy with an API key or with an AWS credentials file only has its reference checked.  For the
other types `rotateCredential` exchanges, once the time annotated on the generated Secret is due, the
Secret the policy refers to for a token, which goes into the generated Secret.  The reference is
checked where the Secret is read: when the rotator is made, or for an OIDC client secret only when a
token is really fetched.  A token has that Secret, and whatever its value was obtained from, as its
origins.

    a token is only obtained through a permitted reference   (sound_of_newRotator)
    a reconcile leaves the store or puts such a token into the generated Secret
      (storeStep_reconcile)
    a rotation is scheduled unless it comes due between the check for it and the next reading of
    the clock   (executeRotationAt_scheduled_iff)
-/

namespace AgentRouter.Rotation

open Kube Controller Program Text Results List

/-! ## References and Secrets -/

def getBackendSecurityPolicyAuthOIDC : BSPCredential → Option OIDC
  | .aws _ _ oidc | .azure _ _ _ oidc => oidc
  | .gcp _ _ _ wif => wif.map (·.oidc)
  | .openAI _ _ subjectToken => subjectToken.oidcExchangeToken
  | _ => none

/-- The Secrets the spec of a policy refers to: the one of its static fields and the client
secret of its OIDC configuration. -/
def secretRefs (p : BackendSecurityPolicy) : List ObjectKey :=
  (backendSecurityPolicySecretRef p).toList ++
    ((getBackendSecurityPolicyAuthOIDC p.credential).bind fun oidc =>
      oidc.clientSecret.ns.map fun ns => ⟨ns, oidc.clientSecret.name⟩).toList

/-- The Secret the policy's rotated credential is written to. -/
def generatedSecretKey (p : BackendSecurityPolicy) : ObjectKey :=
  ⟨p.key.ns, getBSPSecretName p.key.name⟩

def clientSecretKey : String := "client-secret"
def gcpServiceAccountJSON : String := "service_account.json"
def gcpProjectNameKey : String := "projectName"
def gcpRegionKey : String := "region"
def expirationTimeAnnotationKey : String := "rotators/expiration-time"

/-- The API server's error for a Secret that does not exist. -/
def secretNotFound (k : ObjectKey) : String := "secrets " ++ quoted k.name ++ " not found"

/-- `secret.Data[key] = v`. -/
def setData (key : String) (v : SecretValue) (data : List (String × SecretValue)) :
    List (String × SecretValue) :=
  (key, v) :: data.filter fun e => e.1 ≠ key

/-- A Secret is created, or replaces the one of its key. -/
def putSecret (s : Store) (secret : Secret) : Store :=
  { s with secrets := secret :: s.secrets.filter fun o => o.key ≠ secret.key }

/-! ## Token providers -/

/-- What lies outside the cluster, in one reconcile. -/
structure Network where
  /-- the discovery at the OIDC issuer or the connection to the SPIFFE socket. -/
  discovery : Except String Unit
  /-- the client of the cloud provider is made. -/
  client : Except String Unit
  /-- the OIDC issuer hands out a token for the client secret. -/
  oauth2 : Except String Unit
  /-- the final token and the time at which it expires. -/
  token : Except String (String × Int)

def getClientSecret (s : Store) (k : ObjectKey) : Except String SecretValue :=
  match s.getSecret k with
  | none => .error ("failed to get client secret: " ++ secretNotFound k)
  | some secret =>
    match secret.data.lookup clientSecretKey with
    | some v => .ok v
    | none => .error ("failed to get client secret: no secret data found using key '" ++
        clientSecretKey ++ "' in secret name '" ++ k.name ++ "' and namespace '" ++ k.ns)

/-- `oidcTokenProvider.GetToken`; the result is where the token was obtained from. -/
def oidcGetToken (net : Network) (s : Store) (ownerNamespace : String) (oidc : OIDC) :
    Except String (List ObjectKey) :=
  match oidc.clientSecret.ns with
  | none => .error "oidc client secret namespace is nil"
  | some ns =>
    -- the source skips the check for the owner's namespace, which the check accepts
    match validateSecretReference s ownerNamespace ns oidc.clientSecret.name with
    | some r => .error r.notPermitted
    | none => do
      let v ← getClientSecret s ⟨ns, oidc.clientSecret.name⟩
      net.oauth2.mapError ("failed to get oauth2 token: " ++ ·)
      return ⟨ns, oidc.clientSecret.name⟩ :: v.origins

/-- A value of a Secret that the policy refers to, read while the rotator is made. -/
def readReferenced (s : Store) (p : BackendSecurityPolicy) (k : ObjectKey)
    (dataKey missing : String) : Except String SecretValue :=
  match validateSecretReference s p.key.ns k.ns k.name with
  | some r => .error r.notPermitted
  | none =>
    match s.getSecret k with
    | none => .error (secretNotFound k)
    | some secret =>
      match secret.data.lookup dataKey with
      | some v => .ok v
      | none => .error (missing ++ dataKey)

/-! ## Rotators -/

structure Rotator where
  /-- the Secrets that the token fetched now is obtained from. -/
  getToken : Store → Except String (List ObjectKey)
  /-- the data of the generated Secret with the token put in. -/
  populate : SecretValue → List (String × SecretValue) → List (String × SecretValue)
  /-- the text put before an error of the expiration annotation. -/
  timeError : String

def validateGCPCredentialsParams (projectName region : String)
    (wif : Option GCPWorkloadIdentityFederationConfig) : Except String Unit :=
  if projectName = "" then
    .error "invalid GCP credentials configuration: projectName cannot be empty"
  else if region = "" then
    .error "invalid GCP credentials configuration: region cannot be empty"
  else
    match wif with
    | none => .ok ()
    | some w =>
      if w.projectID = "" then
        .error "invalid GCP Workload Identity Federation configuration: projectID cannot be empty"
      else if w.workloadIdentityPoolName = "" then
        .error ("invalid GCP Workload Identity Federation configuration: " ++
          "workloadIdentityPoolName cannot be empty")
      else if w.workloadIdentityProviderName = "" then
        .error ("invalid GCP Workload Identity Federation configuration: " ++
          "workloadIdentityProvider.name cannot be empty")
      else .ok ()

/-- `NewAWSOIDCRotator`: the provider is made anew at each rotation. -/
def newAWSOIDCRotator (net : Network) (p : BackendSecurityPolicy) (oidc : OIDC) :
    Except String (Option Rotator) := do
  net.client.mapError ("failed to load AWS config: " ++ ·)
  return some
    { getToken := fun s => do
        net.discovery
        oidcGetToken net s p.key.ns oidc
      populate := setData awsCredentialsKey
      timeError := "" }

def newAzureTokenRotator (net : Network) (s : Store) (p : BackendSecurityPolicy)
    (clientSecretRef : Option SecretObjectReference) (oidc : Option OIDC) :
    Except String (Option Rotator) :=
  match oidc, clientSecretRef with
  | some oidc, _ => do
    net.discovery
    net.client
    return some ⟨fun s => oidcGetToken net s p.key.ns oidc, setData azureAccessTokenKey, ""⟩
  | none, some ref => do
    let k : ObjectKey := ⟨ref.ns.getD p.key.ns, ref.name⟩
    let v ← readReferenced s p k clientSecretKey "missing azure client secret key "
    net.client
    return some ⟨fun _ => .ok (k :: v.origins), setData azureAccessTokenKey, ""⟩
  | none, none =>
    .error ("one of secret ref or oidc must be defined, namespace " ++ p.key.ns ++ " name " ++
      p.key.name)

/-- `populateInSecret`: all other data goes. -/
def populateInSecret (projectName region : String) (v : SecretValue) : List (String × SecretValue) :=
  [(gcpAccessTokenKey, v), (gcpProjectNameKey, ⟨projectName, []⟩), (gcpRegionKey, ⟨region, []⟩)]

/-- Without a credentials file and without federation the external processor uses the
application default credentials, and nothing is rotated. -/
def newGCPTokenRotator (net : Network) (s : Store) (p : BackendSecurityPolicy)
    (projectName region : String) (credentialsFile : Option SecretObjectReference)
    (wif : Option GCPWorkloadIdentityFederationConfig) : Except String (Option Rotator) := do
  (validateGCPCredentialsParams projectName region wif).mapError
    ("invalid GCP credentials configuration: " ++ ·)
  match wif, credentialsFile with
  | some w, _ => do
    net.discovery.mapError ("failed to initialize OIDC provider: " ++ ·)
    net.client
    return some
      { getToken := fun s =>
          (oidcGetToken net s p.key.ns w.oidc).mapError ("failed to obtain OIDC token: " ++ ·)
        populate := fun v _ => populateInSecret projectName region v
        timeError := "failed to get expiration time from secret: " }
  | none, some ref => do
    let k : ObjectKey := ⟨ref.ns.getD p.key.ns, ref.name⟩
    let v ← readReferenced s p k gcpServiceAccountJSON "missing gcp service account key "
    net.client
    return some ⟨fun _ => .ok (k :: v.origins), setData gcpAccessTokenKey, ""⟩
  | none, none => return none

def newOpenAITokenRotator (net : Network) (p : BackendSecurityPolicy)
    (subjectToken : OpenAISubjectToken) : Except String (Option Rotator) :=
  if subjectToken.spiffeJWTSVID then do
    net.discovery.mapError ("failed to initialize subject token provider: " ++ ·)
    net.client
    return some ⟨fun _ => .ok [], setData openAIAccessTokenKey, ""⟩
  else
    match subjectToken.oidcExchangeToken with
    | some oidc => do
      net.discovery.mapError ("failed to initialize subject token provider: " ++ ·)
      net.client
      return some ⟨fun s => oidcGetToken net s p.key.ns oidc, setData openAIAccessTokenKey, ""⟩
    | none =>
      .error ("one of spiffeJWTSVID or oidcExchangeToken must be defined, namespace " ++
        p.key.ns ++ " name " ++ p.key.name)

/-- The switch of `rotateCredential`; `none` when nothing is to be rotated. -/
def newRotator (net : Network) (s : Store) (p : BackendSecurityPolicy) :
    Except String (Option Rotator) :=
  match p.credential with
  | .aws _ _ none => .ok none
  | .aws _ _ (some oidc) => newAWSOIDCRotator net p oidc
  | .azure _ _ clientSecretRef oidc => newAzureTokenRotator net s p clientSecretRef oidc
  | .gcp projectName region file wif => newGCPTokenRotator net s p projectName region file wif
  | .openAI _ _ subjectToken => newOpenAITokenRotator net p subjectToken
  | .apiKey _ => .error "backend security type APIKey does not support OIDC token exchange"
  | .azureAPIKey _ =>
    .error "backend security type AzureAPIKey does not support OIDC token exchange"
  | .anthropicAPIKey _ =>
    .error "backend security type AnthropicAPIKey does not support OIDC token exchange"

/-! ## Reconcile -/

/-- The cluster, and the targets that were told of a change. -/
structure World where
  store : Store
  synced : List LocalPolicyTargetReference

/-- The time from which the credential is to be rotated; `none` is the zero time. -/
def getPreRotationTime (s : Store) (p : BackendSecurityPolicy) (preRotationWindow : Int)
    (r : Rotator) : Except String (Option Int) :=
  match s.getSecret (generatedSecretKey p) with
  | none => .ok none
  | some secret =>
    match secret.expiration with
    | some t => .ok (some (t - preRotationWindow))
    | none => .error (r.timeError ++ "secret " ++ p.key.ns ++ "/" ++ getBSPSecretName p.key.name ++
        " missing " ++ expirationTimeAnnotationKey ++ " annotation")

def isExpired (now : Int) : Option Int → Bool
  | none => true
  | some t => t < now

/-- The generated Secret with a new token. -/
def populateSecret (s : Store) (p : BackendSecurityPolicy) (r : Rotator) (v : SecretValue)
    (expiresAt : Int) : Secret :=
  { key := generatedSecretKey p
    data := r.populate v ((s.getSecret (generatedSecretKey p)).elim [] (·.data))
    expiration := some expiresAt }

/-- `Rotate`: the new token is stored and its expiration returned. -/
def rotate (net : Network) (p : BackendSecurityPolicy) (r : Rotator) : Prog World String Int := do
  let w ← get
  match r.getToken w.store, net.token with
  | .error e, _ => throw e
  | _, .error e => throw e
  | .ok origins, .ok (text, expiresAt) => do
    modify fun w =>
      { w with store := putSecret w.store (populateSecret w.store p r ⟨text, origins⟩ expiresAt) }
    pure expiresAt

/-- The time until the next rotation. -/
def executeRotation (net : Network) (now preRotationWindow : Int) (p : BackendSecurityPolicy)
    (r : Rotator) : Prog World String Int := do
  let w ← get
  match getPreRotationTime w.store p preRotationWindow r with
  | .error e => throw e
  | .ok rotationTime =>
    if isExpired now rotationTime then do
      let expirationTime ← rotate net p r
      if now < expirationTime - preRotationWindow then
        pure (expirationTime - preRotationWindow - now)
      else throw ("newly rotated credential is already expired " ++
        (expirationTime - preRotationWindow).repr)
    else pure (rotationTime.getD 0 - now)

def rotateCredential (net : Network) (now preRotationWindow : Int) (p : BackendSecurityPolicy) :
    Prog World String Int := do
  let w ← get
  match newRotator net w.store p with
  | .error e => throw e
  | .ok none => pure 0
  | .ok (some r) =>
    wrap ("failed to execute rotation for backend security policy " ++ p.key.ns ++ "/" ++
      p.key.name) (executeRotation net now preRotationWindow p r)

/-- AWS without a file and without OIDC uses the default credential chain. -/
def requiresRotation : BSPCredential → Bool
  | .apiKey _ | .azureAPIKey _ | .anthropicAPIKey _ | .aws _ none none => false
  | _ => true

def validateStaticCredentialSecretRef (s : Store) (p : BackendSecurityPolicy) : Option Reference :=
  match p.credential with
  | .apiKey _ | .azureAPIKey _ | .anthropicAPIKey _ | .aws .. =>
    match backendSecurityPolicySecretRef p with
    | none => none
    | some k => validateSecretReference s p.key.ns k.ns k.name
  | _ => none

/-- The target exists in the policy's namespace. -/
def isFoundTarget (s : Store) (p : BackendSecurityPolicy) (t : LocalPolicyTargetReference) : Bool :=
  if t.group = aiServiceBackendGroup && t.kind = aiServiceBackendKind then
    (s.getAIServiceBackend ⟨p.key.ns, t.name⟩).isSome
  else if t.group = inferencePoolGroup && t.kind = inferencePoolKind then
    s.inferencePools.contains ⟨p.key.ns, t.name⟩
  else false

def syncBackendSecurityPolicy (p : BackendSecurityPolicy) : Prog World String PUnit :=
  modify fun w => { w with synced := w.synced ++ p.targetRefs.filter (isFoundTarget w.store p) }

/-- The first half of `reconcile`. -/
def rotateIfRequired (net : Network) (now preRotationWindow : Int) (p : BackendSecurityPolicy) :
    Prog World String Int :=
  if requiresRotation p.credential then rotateCredential net now preRotationWindow p else pure 0

/-- The targets are told also when the reference of a static credential is not permitted, but not
when the rotation fails. -/
def reconcile (net : Network) (now preRotationWindow : Int) (p : BackendSecurityPolicy) :
    Prog World String Int :=
  if p.deleting then do
    syncBackendSecurityPolicy p
    pure 0
  else do
    let res ← rotateIfRequired net now preRotationWindow p
    let w ← get
    syncBackendSecurityPolicy p
    match validateStaticCredentialSecretRef w.store p with
    | some r => throw r.notPermitted
    | none => pure res

/-! ## Lemmas -/

theorem getSecret_putSecret (s : Store) (secret : Secret) (k : ObjectKey) :
    (putSecret s secret).getSecret k = if secret.key = k then some secret else s.getSecret k := by
  unfold Store.getSecret putSecret
  by_cases h : secret.key = k
  · rw [find?_cons_of_pos (by simpa using h), if_pos h]
  · rw [find?_cons_of_neg (by simpa using h), if_neg h, find?_filter]
    congr 1
    funext o
    by_cases ho : o.key = k
    · subst ho
      simp [Ne.symm h]
    · simp [ho]

@[simp] theorem populateSecret_key (s : Store) (p : BackendSecurityPolicy) (r : Rotator)
    (v : SecretValue) (expiresAt : Int) :
    (populateSecret s p r v expiresAt).key = generatedSecretKey p := rfl

variable {v : SecretValue}

/-- Where a token can come from: no Secret at all, or one that the policy refers to and may. -/
inductive ObtainedFrom (s : Store) (p : BackendSecurityPolicy) : List ObjectKey → Prop
  | noSecret : ObtainedFrom s p []
  | secret {k : ObjectKey} {secret : Secret} {e : String × SecretValue} (href : k ∈ secretRefs p)
      (hpermitted : validateSecretReference s p.key.ns k.ns k.name = none)
      (hsecret : s.getSecret k = some secret) (he : e ∈ secret.data) :
      ObtainedFrom s p (k :: e.2.origins)

theorem getClientSecret_eq_ok {s : Store} {k : ObjectKey} (h : getClientSecret s k = .ok v) :
    ∃ secret, s.getSecret k = some secret ∧ (clientSecretKey, v) ∈ secret.data := by
  unfold getClientSecret at h
  split at h
  · cases h
  · next secret hsecret =>
    split at h
    · next v' hv =>
      cases h
      exact ⟨secret, hsecret, mem_data_of_lookup hv⟩
    · cases h

theorem readReferenced_eq_ok {s : Store} {p : BackendSecurityPolicy} {k : ObjectKey}
    {dataKey missing : String} (h : readReferenced s p k dataKey missing = .ok v) :
    validateSecretReference s p.key.ns k.ns k.name = none ∧
      ∃ secret, s.getSecret k = some secret ∧ (dataKey, v) ∈ secret.data := by
  unfold readReferenced at h
  split at h
  · cases h
  · next hpermitted =>
    split at h
    · cases h
    · next secret hsecret =>
      split at h
      · next v' hv =>
        cases h
        exact ⟨hpermitted, secret, hsecret, mem_data_of_lookup hv⟩
      · cases h

theorem obtainedFrom_oidcGetToken {net : Network} {s : Store} {p : BackendSecurityPolicy}
    {oidc : OIDC} {origins : List ObjectKey}
    (hoidc : getBackendSecurityPolicyAuthOIDC p.credential = some oidc)
    (h : oidcGetToken net s p.key.ns oidc = .ok origins) : ObtainedFrom s p origins := by
  unfold oidcGetToken at h
  split at h
  · cases h
  · next ns hns =>
    split at h
    · cases h
    · next hpermitted =>
      obtain ⟨v, hv, h⟩ := bind_eq_ok h
      obtain ⟨-, -, h⟩ := bind_eq_ok h
      cases h
      obtain ⟨secret, hsecret, he⟩ := getClientSecret_eq_ok hv
      have href : (⟨ns, oidc.clientSecret.name⟩ : ObjectKey) ∈ secretRefs p := by
        unfold secretRefs
        rw [hoidc, Option.bind_some, hns]
        simp
      exact .secret href hpermitted hsecret he

/-- A rotator that obtains its token from a Secret the policy may refer to, and writes nothing
into the generated Secret but that token and values that come from no Secret. -/
structure Sound (s : Store) (p : BackendSecurityPolicy) (r : Rotator) : Prop where
  getToken : ∀ origins, r.getToken s = .ok origins → ObtainedFrom s p origins
  populate : ∀ v data, ∀ e ∈ r.populate v data, e.2 = v ∨ e.2.origins = [] ∨ e ∈ data

theorem populate_setData {key : String} (v : SecretValue) (data : List (String × SecretValue)) :
    ∀ e ∈ setData key v data, e.2 = v ∨ e.2.origins = [] ∨ e ∈ data :=
  forall_mem_cons.mpr ⟨.inl rfl, fun _ he => .inr (.inr (mem_filter.mp he).1)⟩

section

variable {net : Network} {s : Store} {p : BackendSecurityPolicy} {r : Rotator}

theorem sound_of_readReferenced {ref : SecretObjectReference} {dataKey missing key : String}
    (href : backendSecurityPolicySecretRef p = some ⟨ref.ns.getD p.key.ns, ref.name⟩)
    (h : readReferenced s p ⟨ref.ns.getD p.key.ns, ref.name⟩ dataKey missing = .ok v) :
    Sound s p ⟨fun _ => .ok (⟨ref.ns.getD p.key.ns, ref.name⟩ :: v.origins), setData key, ""⟩ := by
  obtain ⟨hpermitted, secret, hsecret, he⟩ := readReferenced_eq_ok h
  refine ⟨fun origins ho => ?_, populate_setData⟩
  cases ho
  refine .secret ?_ hpermitted hsecret he
  unfold secretRefs
  rw [href]
  simp

theorem sound_of_newAWSOIDCRotator {oidc : OIDC}
    (hoidc : getBackendSecurityPolicyAuthOIDC p.credential = some oidc)
    (h : newAWSOIDCRotator net p oidc = .ok (some r)) : Sound s p r := by
  obtain ⟨-, -, h⟩ := bind_eq_ok h
  cases h
  refine ⟨fun origins ho => ?_, populate_setData⟩
  obtain ⟨-, -, ho⟩ := bind_eq_ok ho
  exact obtainedFrom_oidcGetToken hoidc ho

theorem sound_of_newAzureTokenRotator {clientID tenantID : String}
    {clientSecretRef : Option SecretObjectReference} {oidc : Option OIDC}
    (hc : p.credential = .azure clientID tenantID clientSecretRef oidc)
    (h : newAzureTokenRotator net s p clientSecretRef oidc = .ok (some r)) : Sound s p r := by
  unfold newAzureTokenRotator at h
  split at h
  · next oidc =>
    obtain ⟨-, -, h⟩ := bind_eq_ok h
    obtain ⟨-, -, h⟩ := bind_eq_ok h
    cases h
    refine ⟨fun origins ho => ?_, populate_setData⟩
    exact obtainedFrom_oidcGetToken (by rw [hc]; rfl) ho
  · next ref =>
    obtain ⟨v, hv, h⟩ := bind_eq_ok h
    obtain ⟨-, -, h⟩ := bind_eq_ok h
    cases h
    exact sound_of_readReferenced (by simp [backendSecurityPolicySecretRef, hc]) hv
  · cases h

theorem sound_of_newGCPTokenRotator {projectName region : String}
    {credentialsFile : Option SecretObjectReference}
    {wif : Option GCPWorkloadIdentityFederationConfig}
    (hc : p.credential = .gcp projectName region credentialsFile wif)
    (h : newGCPTokenRotator net s p projectName region credentialsFile wif = .ok (some r)) :
    Sound s p r := by
  obtain ⟨-, -, h⟩ := bind_eq_ok h
  split at h
  · next w =>
    obtain ⟨-, -, h⟩ := bind_eq_ok h
    obtain ⟨-, -, h⟩ := bind_eq_ok h
    cases h
    refine ⟨fun origins ho => ?_, fun v data e he => ?_⟩
    · exact obtainedFrom_oidcGetToken (by rw [hc]; rfl) (mapError_eq_ok.mp ho)
    · unfold populateInSecret at he
      simp only [mem_cons, not_mem_nil, or_false] at he
      rcases he with rfl | rfl | rfl
      · exact .inl rfl
      · exact .inr (.inl rfl)
      · exact .inr (.inl rfl)
  · next ref =>
    obtain ⟨v, hv, h⟩ := bind_eq_ok h
    obtain ⟨-, -, h⟩ := bind_eq_ok h
    cases h
    exact sound_of_readReferenced (by simp [backendSecurityPolicySecretRef, hc]) hv
  · cases h

theorem sound_of_newOpenAITokenRotator {organization project : String}
    {subjectToken : OpenAISubjectToken}
    (hc : p.credential = .openAI organization project subjectToken)
    (h : newOpenAITokenRotator net p subjectToken = .ok (some r)) : Sound s p r := by
  unfold newOpenAITokenRotator at h
  split at h
  · obtain ⟨-, -, h⟩ := bind_eq_ok h
    obtain ⟨-, -, h⟩ := bind_eq_ok h
    cases h
    refine ⟨fun origins ho => ?_, populate_setData⟩
    cases ho
    exact .noSecret
  · split at h
    · next oidc hoidc =>
      obtain ⟨-, -, h⟩ := bind_eq_ok h
      obtain ⟨-, -, h⟩ := bind_eq_ok h
      cases h
      refine ⟨fun origins ho => ?_, populate_setData⟩
      exact obtainedFrom_oidcGetToken (by rw [hc]; exact hoidc) ho
    · cases h

theorem sound_of_newRotator (h : newRotator net s p = .ok (some r)) : Sound s p r := by
  unfold newRotator at h
  split at h
  · cases h
  · next hc => exact sound_of_newAWSOIDCRotator (by rw [hc]; rfl) h
  · next hc => exact sound_of_newAzureTokenRotator hc h
  · next hc => exact sound_of_newGCPTokenRotator hc h
  · next hc => exact sound_of_newOpenAITokenRotator hc h
  · cases h
  · cases h
  · cases h

end

/-! ## What a reconcile does to the store -/

inductive StoreStep (p : BackendSecurityPolicy) (s : Store) : Store → Prop
  | unchanged : StoreStep p s s
  | rotated {r : Rotator} {v : SecretValue} (expiresAt : Int) (hr : Sound s p r)
      (ho : r.getToken s = .ok v.origins) :
      StoreStep p s (putSecret s (populateSecret s p r v expiresAt))

section

variable {net : Network} {now window : Int} {p : BackendSecurityPolicy} {w : World}

theorem storeStep_rotate {r : Rotator} (hr : Sound w.store p r) :
    StoreStep p w.store (exec (rotate net p r) w).2.store := by
  unfold rotate
  rw [exec_bind, exec_get]
  dsimp only
  split
  · exact .unchanged
  · exact .unchanged
  · next origins text expiresAt ho _ => exact .rotated expiresAt hr ho

theorem storeStep_rotateCredential :
    StoreStep p w.store (exec (rotateCredential net now window p) w).2.store := by
  unfold rotateCredential
  rw [exec_bind, exec_get]
  dsimp only
  split
  · exact .unchanged
  · exact .unchanged
  · next r hr =>
    rw [exec_wrap]
    have hr := sound_of_newRotator hr
    have hrotate : StoreStep p w.store (exec (rotate net p r) w).2.store := storeStep_rotate hr
    unfold executeRotation
    rw [exec_bind, exec_get]
    dsimp only
    split
    · exact .unchanged
    split
    · rw [exec_bind]
      split
      · next t w' hexec =>
        rw [hexec] at hrotate
        split
        · exact hrotate
        · exact hrotate
      · next hexec =>
        rw [hexec] at hrotate
        exact hrotate
    · exact .unchanged

/-- Telling the targets is the only thing that comes after the rotation. -/
theorem storeStep_reconcile : StoreStep p w.store (exec (reconcile net now window p) w).2.store := by
  unfold reconcile
  split
  · exact .unchanged
  · rw [exec_bind]
    have hrotation : StoreStep p w.store (exec (rotateIfRequired net now window p) w).2.store := by
      unfold rotateIfRequired
      split
      · exact storeStep_rotateCredential
      · exact .unchanged
    split
    · next res w' hexec =>
      rw [hexec] at hrotation
      rw [exec_bind, exec_get]
      dsimp only
      rw [exec_bind]
      unfold syncBackendSecurityPolicy
      rw [exec_modify]
      dsimp only
      split
      · exact hrotation
      · exact hrotation
    · next hexec =>
      rw [hexec] at hrotation
      exact hrotation

end

/-! ## The next rotation -/

/-- `time.Until`: a duration has 64 bits. -/
def timeUntil (now t : Int) : Int := max (-2 ^ 63) (min (2 ^ 63 - 1) (t - now))

/-- `executeRotation` where the clock is read twice, by `IsExpired` and then by `time.Until`. -/
def executeRotationAt (net : Network) (checked scheduled preRotationWindow : Int)
    (p : BackendSecurityPolicy) (r : Rotator) : Prog World String Int := do
  let w ← get
  match getPreRotationTime w.store p preRotationWindow r with
  | .error e => throw e
  | .ok rotationTime =>
    if isExpired checked rotationTime then do
      let expirationTime ← rotate net p r
      let requeue := timeUntil scheduled (expirationTime - preRotationWindow)
      if 0 < requeue then pure requeue
      else throw ("newly rotated credential is already expired " ++
        (expirationTime - preRotationWindow).repr)
    else pure (timeUntil scheduled (rotationTime.getD 0))

theorem timeUntil_pos_iff {now t : Int} : 0 < timeUntil now t ↔ now < t := by
  unfold timeUntil
  omega

theorem timeUntil_le {now t : Int} (h : now < t) : timeUntil now t ≤ t - now := by
  unfold timeUntil
  omega

section

variable (net : Network) (checked scheduled window : Int) (p : BackendSecurityPolicy) (r : Rotator)
  (w : World)

/-- With one reading of the clock for both the two agree, up to the 64 bits of a duration. -/
theorem exec_executeRotationAt_self (now : Int) :
    exec (executeRotationAt net now now window p r) w =
      ((exec (executeRotation net now window p r) w).1.map (timeUntil 0),
        (exec (executeRotation net now window p r) w).2) := by
  have hclamp (t : Int) : timeUntil now t = timeUntil 0 (t - now) := by
    unfold timeUntil
    omega
  unfold executeRotationAt executeRotation
  rw [exec_bind, exec_bind, exec_get]
  dsimp only
  split
  · rfl
  next rotationTime htime =>
    split
    next hexpired =>
      rw [exec_bind, exec_bind]
      split
      next t w' hrotate =>
        by_cases hlater : now < t - window
        · rw [if_pos hlater, if_pos (timeUntil_pos_iff.mpr hlater), hclamp]
          rfl
        · rw [if_neg hlater, if_neg (mt timeUntil_pos_iff.mp hlater)]
          rfl
      next => rfl
    next =>
      rw [hclamp]
      rfl

/-- The time from which the credential in use after the call is to be rotated. -/
inductive NextRotation : Int → Prop
  | kept {t : Int} (h : getPreRotationTime w.store p window r = .ok (some t)) (ht : checked ≤ t) :
      NextRotation t
  | rotated {rotationTime : Option Int} {t : Int} {w' : World}
      (h : getPreRotationTime w.store p window r = .ok rotationTime)
      (hexpired : isExpired checked rotationTime) (hrotate : exec (rotate net p r) w = (.ok t, w')) :
      NextRotation (t - window)

theorem executeRotationAt_scheduled_iff :
    (∀ requeue w', exec (executeRotationAt net checked scheduled window p r) w = (.ok requeue, w') →
      0 < requeue ∧ ∃ t, NextRotation net checked window p r w t ∧ requeue ≤ t - scheduled) ↔
    ∀ t, getPreRotationTime w.store p window r = .ok (some t) → t < checked ∨ scheduled < t := by
  unfold executeRotationAt
  rw [exec_bind, exec_get]
  dsimp only
  split
  next e htime =>
    refine ⟨fun _ t ht => ?_, fun _ requeue w' h => ?_⟩
    · cases htime.symm.trans ht
    · cases h
  next rotationTime htime =>
    split
    next hexpired =>
      refine ⟨fun _ t ht => ?_, fun _ requeue w' h => ?_⟩
      · cases htime.symm.trans ht
        exact .inl (by simpa [isExpired] using hexpired)
      · rw [exec_bind] at h
        split at h
        next t w'' hrotate =>
          split at h
          next hpos =>
            cases h
            exact ⟨hpos, _, .rotated htime hexpired hrotate, timeUntil_le (timeUntil_pos_iff.mp hpos)⟩
          next => cases h
        next => cases h
    next hexpired =>
      cases rotationTime with
      | none => exact absurd rfl hexpired
      | some t =>
        have ht : checked ≤ t := by simpa [isExpired] using hexpired
        constructor
        · intro h t' ht'
          cases htime.symm.trans ht'
          exact .inr (timeUntil_pos_iff.mp (h _ _ rfl).1)
        · intro h requeue w' hexec
          cases hexec
          have hlater : scheduled < t := (h t htime).resolve_left (by omega)
          exact ⟨timeUntil_pos_iff.mpr hlater, t, .kept htime ht, timeUntil_le hlater⟩

end

/-- The credential is due 300 s before it expires, which is when the clock is read first. -/
def dueNow : World :=
  ⟨putSecret .empty ⟨⟨"ns", getBSPSecretName "p"⟩, [], some 300000000000⟩, []⟩

theorem executeRotationAt_dueNow :
    let net := ⟨.ok (), .ok (), .ok (), .ok ("token", 0)⟩
    let p := ⟨⟨"ns", "p"⟩, false, [], .aws "us-east-1" none (some ⟨⟨"s", some "ns"⟩⟩), none⟩
    ∃ r, newRotator net dueNow.store p = .ok (some r) ∧
      exec (executeRotationAt net 0 1 300000000000 p r) dueNow = (.ok (-1), dueNow) :=
  ⟨_, rfl, rfl⟩

end AgentRouter.Rotation
