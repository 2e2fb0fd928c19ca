import AgentRouter.Controller.Rotation
import AgentRouter.Lib.Run

/-!
# Revocation: what is published after a grant is gone

A `ControlPlane` is the cluster and the filter config that is published for one Gateway.  It is
settled once every policy and the Gateway have been reconciled since the last change, the Gateway
also since a policy last told its targets.

The Gateway controller checks the grant where it reads a Secret that a policy refers to, but not
where it reads the generated Secret, and no reconcile takes a token out of that:

    changes leave no token behind → settled → NoRevokedCredential
      (noRevokedCredential_of_settled)

One that only deletes the grant leaves the token published
(`token_published_after_revocation`).
-/

namespace AgentRouter.Rotation

open Kube Controller Program Text List

/-! ## Runs of the control plane -/

structure ControlPlane where
  store : Store
  now : Int
  /-- the routes that are listed for the Gateway. -/
  attached : List AIGatewayRoute
  published : List Backend
  /-- the policies reconciled since the last change. -/
  policiesDone : List ObjectKey
  gatewayDone : Bool

def ControlPlane.start : ControlPlane := ⟨.empty, 0, [], [], [], false⟩

inductive Action where
  /-- users and other controllers leave these objects. -/
  | change (store : Store) (attached : List AIGatewayRoute)
  | tick (now : Int)
  | reconcilePolicy (net : Network) (key : ObjectKey)
  | reconcileGateway (ord : MergeOrders)

def step (preRotationWindow : Int) (c : ControlPlane) : Action → ControlPlane
  | .change store attached =>
    { c with store := store, attached := attached, policiesDone := [], gatewayDone := false }
  | .tick now => { c with now := now }
  | .reconcilePolicy net key =>
    match c.store.getBackendSecurityPolicy key with
    | none => { c with policiesDone := key :: c.policiesDone }
    | some p =>
      let w := (exec (reconcile net c.now preRotationWindow p) ⟨c.store, []⟩).2
      { c with
        store := w.store
        policiesDone := key :: c.policiesDone
        -- a target that is told passes it on to the Gateway
        gatewayDone := c.gatewayDone && w.synced.isEmpty }
  | .reconcileGateway ord =>
    { c with published := configBackends ord c.store c.attached, gatewayDone := true }

def Step (preRotationWindow : Int) (c : ControlPlane) (a : Action) (c' : ControlPlane) : Prop :=
  c' = step preRotationWindow c a

def Settled (c : ControlPlane) : Prop :=
  (∀ p ∈ c.store.backendSecurityPolicies, p.key ∈ c.policiesDone) ∧ c.gatewayDone = true

instance (c : ControlPlane) : Decidable (Settled c) := inferInstanceAs (Decidable (_ ∧ _))

/-! ## Specification -/

/-- The policy refers to a Secret of another namespace, and no grant permits it. -/
def Revoked (s : Store) (p : BackendSecurityPolicy) (k : ObjectKey) : Prop :=
  p.key.ns ≠ k.ns ∧ ∀ g ∈ s.referenceGrants, ¬ Permits g (secretReference p.key.ns k.ns k.name)

instance (s : Store) (p : BackendSecurityPolicy) (k : ObjectKey) : Decidable (Revoked s p k) :=
  inferInstanceAs (Decidable (_ ∧ _))

/-- The config entry of a backend that a policy targets carries nothing obtained from a Secret
that the policy refers to without a grant. -/
def NoRevokedCredential (c : ControlPlane) : Prop :=
  ∀ p ∈ c.store.backendSecurityPolicies, ∀ k ∈ secretRefs p, Revoked c.store p k →
    ∀ route ∈ c.attached, ∀ (i j : Nat) (rule : AIGatewayRouteRule) (ref : RuleBackendRef),
      route.rules[i]? = some rule → rule.backendRefs[j]? = some ref → Targets p route ref →
        ∀ b ∈ c.published,
          b.name = perRouteRuleRefBackendName route.key.ns ref.name route.key.name i j →
            ∀ auth ∈ b.auth, ∀ v ∈ auth.kind.values, k ∉ v.origins

/-- What the API server sees to: namespaces are DNS labels, names have no slash, and the keys of
a kind are unique. -/
structure Admitted (s : Store) (attached : List AIGatewayRoute) : Prop where
  grantNs : ∀ g ∈ s.referenceGrants, Free '.' g.key.ns
  secretNs : ∀ p ∈ s.backendSecurityPolicies, ∀ k ∈ secretRefs p, Free '.' k.ns
  policyKeys : ∀ p ∈ s.backendSecurityPolicies, ∀ q ∈ s.backendSecurityPolicies,
    p.key = q.key → p = q
  routeKeys : ∀ r ∈ attached, ∀ r' ∈ attached, r.key = r'.key → r = r'
  slashFree : ∀ r ∈ attached, SlashFree r

/-- No token is left of a reference that is not permitted. -/
structure NoTokenLeft (s : Store) : Prop where
  /-- what the controller generates is not referred to in turn. -/
  notGenerated : ∀ p ∈ s.backendSecurityPolicies, ∀ q ∈ s.backendSecurityPolicies,
    ∀ k ∈ secretRefs p, generatedSecretKey q ≠ k
  /-- the values of a Secret that is referred to come from nowhere else. -/
  ownValues : ∀ p ∈ s.backendSecurityPolicies, ∀ k ∈ secretRefs p, ∀ secret ∈ s.getSecret k,
    ∀ e ∈ secret.data, e.2.origins = [k]
  noToken : ∀ p ∈ s.backendSecurityPolicies, usesGeneratedSecret p.credential = true →
    ∀ k ∈ secretRefs p, Revoked s p k → ∀ secret ∈ s.getSecret (generatedSecretKey p),
      ∀ e ∈ secret.data, k ∉ e.2.origins

/-! ## Lemmas -/

section

variable {s s' : Store} {attached : List AIGatewayRoute} {p : BackendSecurityPolicy} {k : ObjectKey}

theorem not_revoked_of_validateSecretReference (hadm : Admitted s attached)
    (hp : p ∈ s.backendSecurityPolicies) (hk : k ∈ secretRefs p)
    (h : validateSecretReference s p.key.ns k.ns k.name = none) : ¬ Revoked s p k := by
  rintro ⟨hns, hgrants⟩
  have hfree : Free '.' (secretReference p.key.ns k.ns k.name).targetNs := hadm.secretNs p hp k hk
  rcases (validateReference_eq_none_iff hfree hadm.grantNs).mp h with hsame | ⟨g, hg, hpermits⟩
  · exact hns hsame
  · exact hgrants g hg hpermits

theorem generatedSecretKey_inj {q : BackendSecurityPolicy}
    (h : generatedSecretKey p = generatedSecretKey q) : p.key = q.key := by
  unfold generatedSecretKey getBSPSecretName at h
  rw [ObjectKey.mk.injEq] at h
  obtain ⟨hns, hname⟩ := h
  have hname' : p.key.name = q.key.name := by
    have htext := congrArg String.toList hname
    simp only [String.toList_append, append_cancel_left_eq] at htext
    exact String.toList_inj.mp htext
  exact ObjectKey.ext hns hname'

/-- Policies and grants are not touched by a reconcile. -/
structure SameRules (s s' : Store) : Prop where
  policies : s'.backendSecurityPolicies = s.backendSecurityPolicies
  grants : s'.referenceGrants = s.referenceGrants

theorem SameRules.revoked_iff (h : SameRules s s') (p : BackendSecurityPolicy) (k : ObjectKey) :
    Revoked s' p k ↔ Revoked s p k := by
  unfold Revoked
  rw [h.grants]

theorem sameRules_of_storeStep (h : StoreStep p s s') : SameRules s s' := by
  cases h with
  | unchanged | rotated expiresAt hr ho => exact ⟨rfl, rfl⟩

theorem SameRules.admitted (h : SameRules s s') (hadm : Admitted s attached) : Admitted s' attached := by
  refine ⟨?_, ?_, ?_, hadm.routeKeys, hadm.slashFree⟩
  · rw [h.grants]
    exact hadm.grantNs
  · rw [h.policies]
    exact hadm.secretNs
  · rw [h.policies]
    exact hadm.policyKeys

theorem noTokenLeft_of_storeStep (hadm : Admitted s attached) (hs : NoTokenLeft s)
    (hp : p ∈ s.backendSecurityPolicies) (h : StoreStep p s s') : NoTokenLeft s' := by
  cases h with
  | unchanged => exact hs
  | @rotated r v expiresAt hr ho =>
    refine ⟨hs.notGenerated, fun q hq k hk secret hsecret => ?_,
      fun q hq huses k hk hrevoked secret hsecret => ?_⟩
    · rw [getSecret_putSecret, populateSecret_key, if_neg (hs.notGenerated q hq p hp k hk)] at hsecret
      exact hs.ownValues q hq k hk secret hsecret
    · rw [getSecret_putSecret] at hsecret
      split at hsecret
      · next hkey =>
        -- only the policy itself has this generated Secret
        obtain rfl : p = q := hadm.policyKeys p hp q hq (generatedSecretKey_inj hkey)
        cases hsecret
        intro e he
        rcases hr.populate _ _ e he with hnew | hnone | hold
        · rw [hnew]
          have hfrom := hr.getToken _ ho
          generalize v.origins = origins at hfrom
          cases hfrom with
          | noSecret => exact not_mem_nil
          | @secret k' secret e href hpermitted hsecret he =>
            rw [hs.ownValues p hp k' href secret hsecret e he]
            intro hmem
            have heq : k = k' := by simpa using hmem
            subst heq
            exact not_revoked_of_validateSecretReference hadm hp href hpermitted hrevoked
        · rw [hnone]
          exact not_mem_nil
        · cases hsecret : s.getSecret (generatedSecretKey p) with
          | none =>
            rw [hsecret] at hold
            cases hold
          | some secret =>
            rw [hsecret] at hold
            exact hs.noToken p hp huses k hk hrevoked secret hsecret e hold
      · exact hs.noToken q hq huses k hk hrevoked secret hsecret

theorem kind_of_bspToFilterAPIBackendAuth {auth : BackendAuth}
    (h : bspToFilterAPIBackendAuth s p = .ok auth) :
    ∃ static, bspAuthKind s p = .ok (auth.kind, static) := by
  unfold bspToFilterAPIBackendAuth at h
  split at h
  · cases h
  · next kind static hkind =>
    split at h
    · cases h
      exact ⟨static, hkind⟩
    · split at h
      · cases h
      · cases h
        exact ⟨static, hkind⟩

end

/-! ## Top theorem -/

/-- Changed objects hold no token of a reference that is not permitted. -/
def Clean : Action → Prop
  | .change store attached => Admitted store attached ∧ NoTokenLeft store
  | _ => True

def CleanStep (preRotationWindow : Int) (c : ControlPlane) (a : Action) (c' : ControlPlane) :
    Prop :=
  Clean a ∧ Step preRotationWindow c a c'

structure Inv (c : ControlPlane) : Prop where
  admitted : Admitted c.store c.attached
  noTokenLeft : NoTokenLeft c.store
  published : c.gatewayDone = true → NoRevokedCredential c

theorem inv_start : Inv .start := by
  refine ⟨⟨?_, ?_, ?_, ?_, ?_⟩, ⟨?_, ?_, ?_⟩, ?_⟩
  all_goals simp [ControlPlane.start, Store.empty]

theorem noRevokedCredential_reconcileGateway {c : ControlPlane} (hc : Inv c) (window : Int)
    (ord : MergeOrders) : NoRevokedCredential (step window c (.reconcileGateway ord)) := by
  intro p hp k hk hrevoked route hroute i j rule ref hrule href htargets b hb hname auth hauth
  have hbuilt : filterBackend ord c.store route i j ref = some b :=
    filterBackend_of_mem_configBackends hc.admitted.slashFree hc.admitted.routeKeys hroute hrule href hb hname
  obtain ⟨static, hkind⟩ :=
    kind_of_bspToFilterAPIBackendAuth (auth_of_filterBackend hbuilt hauth hp htargets)
  intro v hv
  rcases mem_values_of_bspAuthKind hkind hv with ⟨dataKey, hread⟩ | ⟨huses, dataKey, hread⟩
  · unfold getBSPSecretRefData at hread
    split at hread
    · cases hread
    next k' hk' =>
    split at hread
    · cases hread
    next hpermitted =>
    obtain ⟨secret, hsecret, he⟩ := getSecretData_eq_ok hread
    have href : k' ∈ secretRefs p := by
      unfold secretRefs
      rw [hk']
      simp
    rw [show v.origins = [k'] from hc.noTokenLeft.ownValues p hp k' href secret hsecret _ he]
    intro hmem
    rw [mem_singleton] at hmem
    subst hmem
    exact not_revoked_of_validateSecretReference hc.admitted hp href hpermitted hrevoked
  · obtain ⟨secret, hsecret, he⟩ := getSecretData_eq_ok hread
    exact hc.noTokenLeft.noToken p hp huses k hk hrevoked secret hsecret _ he

theorem inv_reconcilePolicy {c : ControlPlane} (hc : Inv c) (window : Int) (net : Network)
    (key : ObjectKey) : Inv (step window c (.reconcilePolicy net key)) := by
  unfold step
  dsimp only
  split
  · exact ⟨hc.admitted, hc.noTokenLeft, hc.published⟩
  · next p hp =>
    have hmem : p ∈ c.store.backendSecurityPolicies := mem_of_find?_eq_some hp
    have hstep : StoreStep p c.store (exec (reconcile net c.now window p) ⟨c.store, []⟩).2.store :=
      @storeStep_reconcile net c.now window p ⟨c.store, []⟩
    have hrules := sameRules_of_storeStep hstep
    refine ⟨hrules.admitted hc.admitted, noTokenLeft_of_storeStep hc.admitted hc.noTokenLeft hmem
      hstep, fun hdone => ?_⟩
    -- the published config is the old one, and so are the policies and the grants
    have hpublished := hc.published (Bool.and_eq_true _ _ ▸ hdone).1
    intro q hq k hk hrevoked
    rw [hrules.policies] at hq
    rw [hrules.revoked_iff] at hrevoked
    exact hpublished q hq k hk hrevoked

theorem inv_cleanStep (window : Int) (c : ControlPlane) (a : Action) (c' : ControlPlane)
    (hc : Inv c) (h : CleanStep window c a c') : Inv c' := by
  obtain ⟨hclean, rfl⟩ := h
  cases a with
  | change store attached =>
    obtain ⟨hadm, hleft⟩ := hclean
    exact ⟨hadm, hleft, fun hdone => by cases hdone⟩
  | tick now => exact ⟨hc.admitted, hc.noTokenLeft, hc.published⟩
  | reconcilePolicy net key => exact inv_reconcilePolicy hc window net key
  | reconcileGateway ord =>
    exact ⟨hc.admitted, hc.noTokenLeft, fun _ => noRevokedCredential_reconcileGateway hc window ord⟩

/-- Whatever the policies are: once the plane is settled, nothing is published for a policy's
backends that comes from a Secret the policy may not refer to. -/
theorem noRevokedCredential_of_settled (preRotationWindow : Int) (c : ControlPlane)
    (hrun : Run (CleanStep preRotationWindow) .start c) (hsettled : Settled c) :
    NoRevokedCredential c := by
  have hinv : Inv c := hrun.invariant Inv inv_start (inv_cleanStep preRotationWindow)
  exact hinv.published hsettled.2

/-! ### A grant is deleted -/

def vaultSecretKey : ObjectKey := ⟨"vault", "client"⟩

/-- A Secret that serves as an OIDC client secret or as an API key. -/
def vaultSecret : Secret where
  key := vaultSecretKey
  data := [(clientSecretKey, ⟨"s", [vaultSecretKey]⟩), (apiKeyInSecret, ⟨"k", [vaultSecretKey]⟩)]
  expiration := none

/-- Policies of the namespace `team` may refer to the Secrets of `vault`. -/
def vaultGrant : ReferenceGrant where
  key := ⟨"vault", "g"⟩
  deleting := false
  froms := [⟨aiServiceBackendGroup, "BackendSecurityPolicy", "team"⟩]
  tos := [⟨"", "Secret", none⟩]

def teamPolicy (credential : BSPCredential) : BackendSecurityPolicy where
  key := ⟨"team", "p"⟩
  deleting := false
  targetRefs := [⟨aiServiceBackendGroup, aiServiceBackendKind, "b"⟩]
  credential := credential
  credentialOverride := none

def oidcCredential : BSPCredential := .aws "us-east-1" none (some ⟨⟨"client", some "vault"⟩⟩)

def apiKeyCredential : BSPCredential := .apiKey (some ⟨"client", some "vault"⟩)

def teamRoute : AIGatewayRoute := ⟨⟨"team", "r"⟩, false, [⟨none, [localRef "b"], [], none⟩]⟩

def grantedStore (credential : BSPCredential) : Store where
  referenceGrants := [vaultGrant]
  aiServiceBackends := [plainBackend ⟨"team", "b"⟩]
  inferencePools := []
  aiGatewayRoutes := [teamRoute]
  backendSecurityPolicies := [teamPolicy credential]
  secrets := [vaultSecret]

/-- The providers hand out a token that is good for an hour. -/
def hourToken : Network := ⟨.ok (), .ok (), .ok (), .ok ("t", 3600)⟩

/-- The objects become these, and both controllers run. -/
def changeAndReconcile (store : Store) : List Action :=
  [.change store [teamRoute], .reconcilePolicy hourToken ⟨"team", "p"⟩, .reconcileGateway .stored]

def whileGranted (credential : BSPCredential) : ControlPlane :=
  (changeAndReconcile (grantedStore credential)).foldl (step 300) .start

/-- The same objects without the grant. -/
def withoutGrant (credential : BSPCredential) : Store :=
  { (whileGranted credential).store with referenceGrants := [] }

def afterRevocation (credential : BSPCredential) : ControlPlane :=
  (changeAndReconcile (withoutGrant credential)).foldl (step 300) (whileGranted credential)

/-- The two rounds of a policy with this credential, under a step relation that allows them. -/
theorem run_afterRevocation {R : ControlPlane → Action → ControlPlane → Prop}
    {credential : BSPCredential}
    (hgranted : ∀ a ∈ changeAndReconcile (grantedStore credential), ∀ c, R c a (step 300 c a))
    (hrevoked : ∀ a ∈ changeAndReconcile (withoutGrant credential), ∀ c, R c a (step 300 c a)) :
    Run R .start (afterRevocation credential) := by
  have hfirst : Run R .start (whileGranted credential) := Run.start.foldl _ hgranted
  exact hfirst.foldl _ hrevoked

/-- The token obtained with the client secret is still published after the grant is deleted and
both controllers have run again.  The reconcile of the policy does not even fail. -/
theorem token_published_after_revocation :
    ∃ c, Run (Step 300) .start c ∧ Settled c ∧ c.store.referenceGrants = [] ∧
      (exec (reconcile hourToken 0 300 (teamPolicy oidcCredential)) ⟨c.store, []⟩).1 = .ok 3300 ∧
      ¬ NoRevokedCredential c := by
  refine ⟨afterRevocation oidcCredential, ?_, by decide, by decide, rfl, fun h => ?_⟩
  · exact run_afterRevocation (fun _ _ _ => rfl) fun _ _ _ => rfl
  · have htargets : Targets (teamPolicy oidcCredential) teamRoute (localRef "b") :=
      ⟨rfl, _, mem_cons_self, rfl, ⟨rfl, rfl⟩⟩
    have hclean := h (teamPolicy oidcCredential) (by decide) vaultSecretKey (by decide) (by decide)
      teamRoute (by decide) 0 0 _ _ rfl rfl htargets
    revert hclean
    decide

/-- An API key is withdrawn with its grant. -/
theorem apiKey_withdrawn_after_revocation :
    (whileGranted apiKeyCredential).published.map (·.name) = ["team/b/route/r/rule/0/ref/0"] ∧
      (afterRevocation apiKeyCredential).published = [] ∧
      NoRevokedCredential (afterRevocation apiKeyCredential) := by
  refine ⟨by decide, by decide, noRevokedCredential_of_settled 300 _ ?_ (by decide)⟩
  refine run_afterRevocation (fun a ha c => ⟨?_, rfl⟩) fun a ha c => ⟨?_, rfl⟩
  all_goals
    rcases mem_cons.mp ha with rfl | ha
    · exact ⟨⟨by decide, by decide, by decide, by decide, by decide⟩,
        ⟨by decide, by decide, by decide⟩⟩
    · simp only [mem_cons, not_mem_nil, or_false] at ha
      rcases ha with rfl | rfl <;> trivial

end AgentRouter.Rotation
