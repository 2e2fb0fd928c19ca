import AgentRouter.Quota.Charge

/-!
# Agree: every request-time entry finds its limit

Two packages read the same QuotaPolicies.  The extension server puts request-time
entries on an Envoy route, one for each authorized target and each rule of a quota.
The controller syncs each policy with the targets that are authorized and exist, and
the trees of all policies are merged.  What Envoy sends for an entry is a list of
labels, one for each action.

    the labels of a request-time entry for an existing target, with the values of
    distinct headers left open, are the path of a node with a limit
      (limit_of_emittedFor)
-/

namespace AgentRouter.Quota

open Kube Text Forest List

/-! ## Algorithm -/

/-- The targets that `syncQuotaPolicy` translates: those that are permitted and exist. -/
def syncTargets (s : Store) (p : QuotaPolicy) : List TargetRef :=
  p.targetRefs.filter fun t =>
    (validateQuotaPolicyAIServiceBackendReference s p.key.ns (targetKey p t).ns
      (targetKey p t).name).isNone && (s.getAIServiceBackend (targetKey p t)).isSome

/-- The policy with the targets that are translated. -/
def syncedPolicy (s : Store) (p : QuotaPolicy) : QuotaPolicy :=
  { p with targetRefs := syncTargets s p }

/-- The tree of the rate-limit service once every policy is synced; one that is being deleted has
no config. -/
def syncedTree (σ : HeaderSort) (s : Store) (all : List QuotaPolicy) : List Descriptor :=
  serviceTree σ ((all.filter fun p => !p.deleting).map (syncedPolicy s))

/-- The policies that the extension server collects for a route. -/
def routePolicies (s : Store) (all : List QuotaPolicy) (action : RouteAction) : List QuotaPolicy :=
  policiesForRoute s action (buildQuotaBackendPolicies (authorizedQuotaPolicies s all))

/-- The request-time entries of a quota for one target. -/
def targetEntries (σ : HeaderSort) (names : GoMap String (List String)) (x : ModelQuota)
    (t : TargetRef) : List RateLimit :=
  if x.quota.bucketRules = [] then
    if 0 < x.quota.defaultBucket.limit then
      [requestEntry x.policy x.modelName names t [] x.quota.defaultBucket]
    else []
  else
    (x.quota.bucketRules.zipIdx.map fun r =>
      requestEntry x.policy x.modelName names t
        (buildClientSelectorActions σ r.2 r.1.clientSelectors) r.1.quota) ++
    if 0 < x.quota.defaultBucket.limit then
      [requestEntry x.policy x.modelName names t [defaultBucketAction x.quota]
        x.quota.defaultBucket]
    else []

/-- A request-time entry of the route, emitted for a target that names this backend. -/
def EmittedFor (σ : HeaderSort) (s : Store) (all : List QuotaPolicy) (action : RouteAction)
    (backend : ObjectKey) (e : RateLimit) : Prop :=
  ∃ x ∈ applicableQuotas (routePolicies s all action) (resolveRouteModelInfo s action),
    ∃ t ∈ x.policy.targetRefs, targetKey x.policy t = backend ∧
      e ∈ targetEntries σ ((resolveRouteModelInfo s action).getD ∅) x t

/-- The action takes its value from a distinct header. -/
def Action.isDistinct : Action → Bool
  | .requestHeaders _ _ => true
  | _ => false

/-- The path that corresponds to the labels of an entry: the same keys and the same values, but no
value for distinct headers. -/
def correspondingPath (actions : List Action) (labels : List Label) : List Label :=
  List.zipWith (fun a l => if a.isDistinct then unset l else l) actions labels

/-! ## Lemmas -/

theorem requestEntries_eq_flatMap (σ : HeaderSort) (names : GoMap String (List String)) (x : ModelQuota) :
    requestEntries σ names x = x.policy.targetRefs.flatMap (targetEntries σ names x) := by
  unfold requestEntries targetEntries
  by_cases hr : x.quota.bucketRules = []
  · by_cases hl : 0 < x.quota.defaultBucket.limit
    · simp [hr, hl, buildSimpleModelEntries, map_eq_flatMap]
    · simp [hr, hl]
  · simp only [hr, if_false]
    rfl

variable {σ : HeaderSort}

/-- The entries that are emitted for some target are the request-time entries of the route. -/
theorem exists_emittedFor_iff {s : Store} {all : List QuotaPolicy} {action : RouteAction} {e : RateLimit} :
    (∃ backend, EmittedFor σ s all action backend e) ↔
      e ∈ routeEntries σ (routePolicies s all action) (resolveRouteModelInfo s action) ∧
        e.applyOnStreamDone = false := by
  rw [mem_routeEntries_request]
  simp only [requestEntries_eq_flatMap, mem_flatMap]
  constructor
  · rintro ⟨-, x, hx, t, ht, -, he⟩
    exact ⟨x, hx, t, ht, he⟩
  · rintro ⟨x, hx, t, ht, he⟩
    exact ⟨_, x, hx, t, ht, rfl, he⟩

theorem exists_of_mem_routePolicies {s : Store} {all : List QuotaPolicy} {action : RouteAction}
    {p' : QuotaPolicy} (h : p' ∈ routePolicies s all action) :
    ∃ p ∈ all, p.deleting = false ∧ p' = authorizedCopy s p := by
  obtain ⟨key, -, hkey⟩ := mem_flatMap.mp (mem_of_mem_policiesForRoute h)
  obtain ⟨hmem, hlive, -⟩ := mem_buildQuotaBackendPolicies.mp hkey
  obtain ⟨hmem, -⟩ := mem_filter.mp hmem
  obtain ⟨p, hp, rfl⟩ := mem_map.mp hmem
  exact ⟨p, hp, hlive, rfl⟩

section

variable {regexMatches : String → String → Bool} {x : Exchange} {labels : List Label}

theorem correspondingPath_rule {i : Nat} {r : QuotaRule}
    (h : descriptorOf regexMatches x (buildClientSelectorActions σ i r.clientSelectors) = some labels) :
    correspondingPath (buildClientSelectorActions σ i r.clientSelectors) labels = ruleLabels σ i r := by
  unfold buildClientSelectorActions at h ⊢
  rw [buildHeaderMatchAction_eq] at h ⊢
  rw [descriptorOf_selectorActions] at h
  split at h
  · rw [Option.some.injEq] at h
    rw [← h]
    unfold correspondingPath selectorActions sentLabels ruleLabels
    by_cases hnil : flattenAndSortHeaders σ r.clientSelectors = []
    · simp only [hnil, if_true]
      rfl
    · simp only [hnil, if_false]
      rw [zipWith_map, zipWith_self]
      refine map_congr_left fun e _ => ?_
      by_cases hd : e.1.type = some .distinct
      · simp [headerAction, Action.isDistinct, unset, hd]
      · simp [headerAction, Action.isDistinct, hd]
  · cases h

variable {names : GoMap String (List String)}

theorem correspondingPath_request {p : QuotaPolicy} {m : String} {t : TargetRef}
    {actions : List Action} {quota : QuotaValue}
    (h : descriptorOf regexMatches x (requestEntry p m names t actions quota).actions = some labels) :
    ∃ ls, descriptorOf regexMatches x actions = some ls ∧
      correspondingPath (requestEntry p m names t actions quota).actions labels =
        basePath (keyString (targetKey p t)) m ++ correspondingPath actions ls := by
  rw [requestEntry_actions, descriptorOf_request] at h
  obtain ⟨ls, hls, rfl⟩ := Option.map_eq_some_iff.mp h
  exact ⟨ls, hls, by rfl⟩

theorem correspondingPath_targetEntries {q : ModelQuota} {t : TargetRef} {e : RateLimit}
    (he : e ∈ targetEntries σ names q t) (h : descriptorOf regexMatches x e.actions = some labels) :
    ∃ path ∈ quotaLimitPaths σ q.quota, correspondingPath e.actions labels =
      basePath (keyString (targetKey q.policy t)) q.modelName ++ path := by
  unfold targetEntries at he
  split at he
  · next hrules =>
    split at he
    · obtain rfl := mem_singleton.mp he
      obtain ⟨ls, hls, heq⟩ := correspondingPath_request h
      refine ⟨[], mem_quotaLimitPaths.mpr (.inl ⟨hrules, rfl⟩), ?_⟩
      rw [heq]
      rfl
    · cases he
  · next hrules =>
    rcases mem_append.mp he with he | he
    · obtain ⟨r, hr, rfl⟩ := mem_map.mp he
      obtain ⟨ls, hls, heq⟩ := correspondingPath_request h
      refine ⟨ruleLabels σ r.2 r.1, mem_quotaLimitPaths.mpr (.inr (.inl ⟨r, hr, rfl⟩)), ?_⟩
      rw [heq, correspondingPath_rule hls]
    · split at he
      · next hl =>
        obtain rfl := mem_singleton.mp he
        obtain ⟨ls, hls, heq⟩ := correspondingPath_request h
        refine ⟨_, mem_quotaLimitPaths.mpr (.inr (.inr ⟨hrules, hl, rfl⟩)), ?_⟩
        cases hls
        rw [heq]
        rfl
      · cases he

end

/-! ## Top theorem -/

/-- For every set of policies that translate, every route, every existing target and every request:
the labels of an entry that was emitted for the target lead to a node with a limit. -/
theorem limit_of_emittedFor (regexMatches : String → String → Bool) (σ : HeaderSort) (s : Store)
    (all : List QuotaPolicy) (action : RouteAction)
    (htranslates : ∀ p ∈ all, p.deleting = false → Translates σ (syncedPolicy s p))
    {backend : ObjectKey} (hexists : (s.getAIServiceBackend backend).isSome = true) {e : RateLimit}
    (he : EmittedFor σ s all action backend e) (x : Exchange) {labels : List Label}
    (hlabels : descriptorOf regexMatches x e.actions = some labels) :
    correspondingPath e.actions labels ∈ limitPaths (syncedTree σ s all) := by
  obtain ⟨q, hq, t, ht, rfl, he⟩ := he
  obtain ⟨hpolicy, hpmq, -⟩ := mem_applicableQuotas.mp hq
  obtain ⟨p, hp, hlive, hcopy⟩ := exists_of_mem_routePolicies hpolicy
  obtain ⟨path, hpath, heq⟩ := correspondingPath_targetEntries he hlabels
  rw [heq, syncedTree, mem_limitPaths_serviceTree_iff]
  rw [hcopy] at ht hexists hpmq ⊢
  obtain ⟨hmem, hpermitted⟩ := of_mem_authorizedTargets _ _ ht
  have htarget : Targets (syncedPolicy s p) (keyString (targetKey p t)) := by
    refine ⟨t, mem_filter.mpr ⟨hmem, ?_⟩, rfl⟩
    rw [hpermitted]
    exact hexists
  refine ⟨syncedPolicy s p, ?_, htranslates p hp hlive, htarget, .inl ?_⟩
  · refine mem_map_of_mem (mem_filter.mpr ⟨hp, ?_⟩)
    rw [hlive]
    rfl
  · exact ⟨q.quota, mem_modelQuotas.mpr hpmq, hpath⟩

/-- The rule of `default/r` references the backend `b`, which exists, with the override `m`. -/
def existingBackendStore : Store :=
  { overrideStore with aiServiceBackends := [plainBackend ⟨"default", "b"⟩] }

/-- A bucket for each premium user. -/
def premiumUserRule : QuotaRule where
  clientSelectors := [[⟨"x-user", some .distinct, none, none⟩],
    [⟨"x-tier", some .exact, some "premium", none⟩]]
  quota := ⟨5, "1m", none⟩
  shadowMode := none

def premiumUserQuota : QuotaDefinition := ⟨⟨0, "", none⟩, [premiumUserRule]⟩

def premiumUserPolicy : QuotaPolicy :=
  { tierQuota false with perModelQuotas := [⟨some "m", premiumUserQuota⟩] }

/-- The entry of a premium user finds the bucket of the rule, whose node leaves the user open. -/
theorem premium_user_finds_bucket :
    correspondingPath
        (requestTimeBaseActions "default" "b" "m" ++
          buildClientSelectorActions .insertion 0 premiumUserRule.clientSelectors)
        (basePath "default/b" "m" ++
          [("rule-0-x-tier|premium-match-0", "rule-0-x-tier|premium-match-0"),
            ("rule-0-x-user-match-1", "premium")]) ∈
      limitPaths (syncedTree .insertion existingBackendStore [premiumUserPolicy]) := by
  refine limit_of_emittedFor (fun _ _ => false) .insertion existingBackendStore [premiumUserPolicy]
    (.cluster "httproute/default/r/rule/0") ?_ (show (existingBackendStore.getAIServiceBackend
      ⟨"default", "b"⟩).isSome = true by decide) (e := ⟨_, zeroQuotaHitsAddend, none, false⟩) ?_
    (servedByB fun _ => some "premium") (by decide)
  · intro p hp _
    obtain rfl := mem_singleton.mp hp
    exact ⟨_, rfl⟩
  · exact ⟨⟨authorizedCopy existingBackendStore premiumUserPolicy, "m", premiumUserQuota⟩, by decide,
      ⟨"", "", "b", none⟩, by decide, by decide, by decide⟩

end AgentRouter.Quota
