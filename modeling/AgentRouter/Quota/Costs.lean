import AgentRouter.Controller.FilterConfig
import AgentRouter.Lib.Cut
import AgentRouter.Quota.Agree

/-!
# Costs: the cost expression of a backend and a model

Several QuotaPolicies can limit one backend and one model.  The merged tree of the rate-limit
service keeps the limit of the policy whose `namespace/name` comes first.  The gateway controller
collects the policies of a route's backends in the order of a map and of the list calls, and
attaches the first valid cost expression that it comes to:

    the policy with the first name decides the limit, whatever the orders
    the cost expression is the one of that limit in all orders
      ↔ some policy has a valid expression, and all that have one agree with that limit's
      (attachedCost_iff)
-/

namespace AgentRouter.Quota

open Kube Controller Text Forest List Unseen

/-! ## Algorithm -/

/-- A policy with the cost expression of each of its per-model quotas. -/
structure PricedPolicy where
  policy : QuotaPolicy
  costExpressions : List (Option String)
  aligned : policy.perModelQuotas.length = costExpressions.length

def PricedPolicy.quotas (p : PricedPolicy) : List (PerModelQuota × Option String) :=
  p.policy.perModelQuotas.zip p.costExpressions

def PricedPolicy.keyString (p : PricedPolicy) : String := Quota.keyString p.policy.key

def costExpression (q : PerModelQuota × Option String) : String := q.2.getD "total_tokens"

/-- `filterapi.LLMRequestCost` of type CEL. -/
structure LLMRequestCost where
  metadataKey : String
  cel : String
  backend : String
  routeName : String
  model : String

def quotaCostMetadataKey : String := "quota_cost"

/-- What each list call finds: the policies in an order of its own. -/
structure ListOrder (policies : List PricedPolicy) where
  list : String → List PricedPolicy
  perm : ∀ backendKey, (list backendKey).Perm policies

def quotaPolicyTargetRefsIndexFunc (p : QuotaPolicy) : List String :=
  p.targetRefs.map fun t => namespacedNameIndexKey t.name (targetNamespace t p.key.ns)

/-- `routeBackends`; only the keys matter. -/
def routeBackends (backends : List Backend) : GoMap String String :=
  GoMap.setAll id ∅ ((backends.map Backend.aiServiceBackendName).filter (· ≠ ""))

def routeModels (backends : List Backend) : List String :=
  (backends.map Backend.modelNameOverride).filter (· ≠ "")

section

variable {policies : List PricedPolicy} (listed : ListOrder policies) (ord : IterOrder String String)
  (valid : String → Bool) (s : Store) (backends : List Backend) (routeName : String)

/-- The policies that the list call of a backend returns. -/
def policiesOfBackend (backendKey : String) : List PricedPolicy :=
  match Cut.cut ['/'] backendKey.toList with
  | none => []
  | some (ns, name) =>
    if ns = [] ∨ name = [] then []
    else
      (listed.list backendKey).filter fun p =>
        namespacedNameIndexKey (String.ofList name) (String.ofList ns) ∈
          quotaPolicyTargetRefsIndexFunc p.policy

def collectPolicies : List PricedPolicy :=
  Unseen.addAll PricedPolicy.keyString []
    ((ord.visit (routeBackends backends)).flatMap fun e => policiesOfBackend listed e.1)

/-- The targets of a policy that are permitted. -/
def permittedTargets (p : QuotaPolicy) : List TargetRef :=
  p.targetRefs.filter fun t =>
    (validateQuotaPolicyAIServiceBackendReference s p.key.ns (targetKey p t).ns
      (targetKey p t).name).isNone

def targetsRoute (p : QuotaPolicy) : Bool :=
  (permittedTargets s p).any fun t => keyString (targetKey p t) ∈ routeBackends backends

/-- The model is served by the route, as far as the route tells. -/
def servesModel (m : String) : Bool := routeModels backends = [] || m ∈ routeModels backends

/-- The costs of one quota, one for each permitted target. -/
def quotaCosts (p : PricedPolicy) (q : PerModelQuota × Option String) : List LLMRequestCost :=
  match q.1.modelName with
  | none => []
  | some m =>
    if servesModel backends m && valid (costExpression q) then
      (permittedTargets s p.policy).map fun t =>
        ⟨quotaCostMetadataKey, costExpression q, keyString (targetKey p.policy t), routeName, m⟩
    else []

/-- The costs of a policy, before costs that are there already are left out. -/
def policyCosts (p : PricedPolicy) : List LLMRequestCost :=
  if targetsRoute s backends p.policy then p.quotas.flatMap (quotaCosts valid s backends routeName p)
  else []

def dedupeKey (c : LLMRequestCost) : String :=
  quotaCostMetadataKey ++ "\x00" ++ c.model ++ "\x00" ++ c.backend

/-- The costs that are appended for a route, which starts with nothing injected. -/
def injectQuotaPolicyCostExpressions : List LLMRequestCost :=
  Unseen.addAll dedupeKey []
    ((collectPolicies listed ord backends).flatMap (policyCosts valid s backends routeName))

end

/-- The expression that is attached for a backend and a model. -/
def attachedCost (costs : List LLMRequestCost) (backend model : String) : Option String :=
  (costs.find? fun c => c.backend = backend ∧ c.model = model).map LLMRequestCost.cel

/-! ## Precedence -/

/-- The limit at a path: the first one, if several nodes have the path. -/
def rateLimitAt (ds : List Descriptor) (path : List Label) : Option RateLimitPolicy :=
  firstAt DescriptorBody.rateLimit path ds

/-- The descriptors that a policy is translated to. -/
def policyDescriptors (σ : HeaderSort) (p : QuotaPolicy) : List Descriptor :=
  match buildRateLimitConfigs σ p (p.targetRefs.map (targetKey p)) with
  | .error _ => []
  | .ok configs => configs.flatMap RateLimitConfig.descriptors

/-- The policy itself has a limit there. -/
def LimitsAt (σ : HeaderSort) (s : Store) (p : QuotaPolicy) (backend m : String)
    (path : List Label) : Prop :=
  p.deleting = false ∧
    basePath backend m ++ path ∈ limitPaths (policyDescriptors σ (syncedPolicy s p))

/-- Of the policies that have a limit there, this one has the first name. -/
structure Enforces (σ : HeaderSort) (s : Store) (policies : List PricedPolicy) (p : PricedPolicy)
    (backend m : String) (path : List Label) : Prop where
  mem : p ∈ policies
  limits : LimitsAt σ s p.policy backend m path
  first : ∀ q ∈ policies, LimitsAt σ s q.policy backend m path → p.keyString ≤ q.keyString

/-- The cost expression of the quota that a limit comes from. -/
def limitCost (σ : HeaderSort) (p : PricedPolicy) (m : String) (path : List Label) : Option String :=
  (p.quotas.find? fun q => q.1.modelName = some m ∧ (quotaLimitPaths σ q.1.quota).contains path).map
    costExpression

/-- The first valid expression that a policy has for a model. -/
def firstCost (valid : String → Bool) (p : PricedPolicy) (m : String) : Option String :=
  (p.quotas.find? fun q => q.1.modelName = some m ∧ valid (costExpression q)).map costExpression

/-- The policy has this expression to attach for a backend and a model. -/
def Offers (valid : String → Bool) (s : Store) (p : PricedPolicy) (b : ObjectKey) (m e : String) :
    Prop :=
  (∃ t ∈ permittedTargets s p.policy, targetKey p.policy t = b) ∧ firstCost valid p m = some e

/-- The policies have keys of their own, and their targets are names of objects. -/
structure ValidPolicies (policies : List PricedPolicy) : Prop where
  nodup : (policies.map PricedPolicy.keyString).Nodup
  slashFree : ∀ p ∈ policies, ∀ t ∈ p.policy.targetRefs, Free '/' (targetKey p.policy t).ns
  nulFree : ∀ p ∈ policies, ∀ t ∈ p.policy.targetRefs,
    Free (Char.ofNat 0) (keyString (targetKey p.policy t))

/-- The backend is one of the route's. -/
structure OnRoute (backends : List Backend) (b : ObjectKey) : Prop where
  mem : keyString b ∈ backends.map Backend.aiServiceBackendName
  slashFree : Free '/' b.ns
  nulFree : Free (Char.ofNat 0) (keyString b)
  ns : b.ns ≠ ""
  name : b.name ≠ ""

/-! ## The limit -/

theorem findSome?_of_least {α β : Type} (key : α → String) {f : α → Option β} {l : List α} {a : α}
    (hsorted : l.Pairwise fun x y => key x ≤ key y) (hnodup : (l.map key).Nodup) (ha : a ∈ l)
    (hleast : ∀ x ∈ l, (f x).isSome = true → key a ≤ key x) (hsome : (f a).isSome = true) :
    l.findSome? f = f a := by
  induction l with
  | nil => cases ha
  | cons x l ih =>
    rw [pairwise_cons] at hsorted
    rw [map_cons, nodup_cons] at hnodup
    rw [findSome?_cons]
    rcases mem_cons.mp ha with rfl | ha
    · obtain ⟨v, hv⟩ := Option.isSome_iff_exists.mp hsome
      rw [hv]
    · -- the head comes before the item, so it gives no value
      have hnone : f x = none := by
        by_contra hne
        have hle := hleast x mem_cons_self (Option.isSome_iff_ne_none.mpr hne)
        have heq : key x = key a := String.le_antisymm (hsorted.1 a ha) hle
        exact hnodup.1 (heq ▸ mem_map_of_mem ha)
      rw [hnone]
      exact ih hsorted.2 hnodup.2 ha fun y hy => hleast y (mem_cons_of_mem _ hy)

variable {σ : HeaderSort}

theorem mem_cache_iff {policies : List QuotaPolicy} {e : String × List RateLimitConfig} :
    e ∈ syncQuotaPolicies σ policies ↔ ∃ p ∈ policies, e.1 = keyString p.key ∧
      buildRateLimitConfigs σ p (p.targetRefs.map (targetKey p)) = .ok e.2 := by
  unfold syncQuotaPolicies
  rw [mem_filterMap]
  refine exists_congr fun p => and_congr_right fun _ => ?_
  constructor
  · intro h
    split at h
    · cases h
    · next configs hconfigs =>
      cases h
      exact ⟨rfl, hconfigs⟩
  · rintro ⟨hkey, hbuild⟩
    rw [hbuild, ← hkey]

theorem policyDescriptors_of_build {p : QuotaPolicy} {configs : List RateLimitConfig}
    (h : buildRateLimitConfigs σ p (p.targetRefs.map (targetKey p)) = .ok configs) :
    policyDescriptors σ p = configs.flatMap RateLimitConfig.descriptors := by
  rw [policyDescriptors, h]

theorem keys_cache_sublist (σ : HeaderSort) (policies : List QuotaPolicy) :
    ((syncQuotaPolicies σ policies).map Prod.fst).Sublist (policies.map fun p => keyString p.key) := by
  induction policies with
  | nil => exact .slnil
  | cons p policies ih =>
    unfold syncQuotaPolicies at ih ⊢
    rw [filterMap_cons]
    split
    · exact ih.cons _
    · next e he =>
      split at he
      · cases he
      · cases he
        exact ih.cons_cons _

variable {path : List Label}

/-- The limit of the tree is that of the policy with the first name of those that have one. -/
theorem rateLimitAt_serviceTree {policies : List QuotaPolicy}
    (hnodup : (policies.map fun p => keyString p.key).Nodup) {p : QuotaPolicy} (hp : p ∈ policies)
    (hlimit : path ∈ limitPaths (policyDescriptors σ p))
    (hfirst : ∀ q ∈ policies, path ∈ limitPaths (policyDescriptors σ q) → keyString p.key ≤ keyString q.key) :
    rateLimitAt (serviceTree σ policies) path = rateLimitAt (policyDescriptors σ p) path := by
  have hcombine : ∀ x y : DescriptorBody,
      (x.combine y).rateLimit = x.rateLimit.or y.rateLimit := fun _ _ => rfl
  have hsome : ∀ ds : List Descriptor,
      (rateLimitAt ds path).isSome = true ↔ path ∈ limitPaths ds := fun _ => isSome_firstAt_iff
  unfold rateLimitAt at hsome ⊢
  rw [serviceTree_eq, mergeDescriptors,
    firstAt_merge hcombine labelKey_injOn labelsIn_syncedDescriptors, syncedDescriptors,
    firstAt_flatMap]
  -- the entry of the policy in the cache
  cases hbuild : buildRateLimitConfigs σ p (p.targetRefs.map (targetKey p)) with
  | error e =>
    rw [policyDescriptors, hbuild] at hlimit
    exact absurd hlimit notMem_paths_nil
  | ok configs =>
    have hentry : (keyString p.key, configs) ∈ syncQuotaPolicies σ policies :=
      mem_cache_iff.mpr ⟨p, hp, rfl, hbuild⟩
    rw [policyDescriptors_of_build hbuild] at hlimit ⊢
    have hperm := perm_insertionSort (fun a b : String × List RateLimitConfig => a.1 ≤ b.1)
      (syncQuotaPolicies σ policies)
    refine findSome?_of_least Prod.fst (a := (keyString p.key, configs)) ?_ ?_
      (hperm.mem_iff.mpr hentry) ?_ ((hsome _).mpr hlimit)
    · exact pairwise_insertionSort _ _
    · exact (hperm.map Prod.fst).nodup_iff.mpr (hnodup.sublist (keys_cache_sublist σ policies))
    · intro e he hlim
      obtain ⟨q, hq, hkey, hbuildq⟩ := mem_cache_iff.mp (hperm.mem_iff.mp he)
      rw [hkey]
      refine hfirst q hq ?_
      rw [policyDescriptors_of_build hbuildq]
      exact (hsome _).mp hlim

variable {p : PricedPolicy}

/-- The same for the tree of the live policies, in whatever order they are synced. -/
theorem rateLimitAt_of_enforces {s : Store} {policies : List PricedPolicy}
    (hvalid : ValidPolicies policies) {backend m : String}
    (henf : Enforces σ s policies p backend m path) {policies' : List PricedPolicy}
    (hperm : policies'.Perm policies) :
    rateLimitAt (syncedTree σ s (policies'.map PricedPolicy.policy)) (basePath backend m ++ path) =
      rateLimitAt (policyDescriptors σ (syncedPolicy s p.policy)) (basePath backend m ++ path) := by
  refine rateLimitAt_serviceTree ?_ ?_ henf.limits.2 ?_
  · have hnodup := ((hperm.map PricedPolicy.keyString).nodup_iff).mpr hvalid.nodup
    rw [map_map]
    refine hnodup.sublist ?_
    have hsub := (filter_sublist (p := fun p : QuotaPolicy => !p.deleting)
      (l := policies'.map PricedPolicy.policy)).map fun q => keyString q.key
    rw [map_map] at hsub
    exact hsub
  · refine mem_map_of_mem (mem_filter.mpr ⟨?_, by rw [henf.limits.1]; rfl⟩)
    exact mem_map_of_mem (hperm.mem_iff.mpr henf.mem)
  · intro _ hsynced hlimit
    obtain ⟨_, hlisted, rfl⟩ := mem_map.mp hsynced
    obtain ⟨hmem, hlive⟩ := mem_filter.mp hlisted
    obtain ⟨q, hq, rfl⟩ := mem_map.mp hmem
    exact henf.first q (hperm.mem_iff.mp hq) ⟨by simpa using hlive, hlimit⟩

theorem exists_mem_quotas {q : PerModelQuota} (h : q ∈ p.policy.perModelQuotas) :
    ∃ cost, (q, cost) ∈ p.quotas := by
  have hfst : p.quotas.map Prod.fst = p.policy.perModelQuotas := map_fst_zip p.aligned.le
  rw [← hfst] at h
  obtain ⟨x, hx, rfl⟩ := mem_map.mp h
  exact ⟨x.2, hx⟩

theorem isSome_limitCost {s : Store} {backend m : String} (hm : m ≠ "")
    (h : LimitsAt σ s p.policy backend m path) : (limitCost σ p m path).isSome = true := by
  have hpath := h.2
  unfold policyDescriptors at hpath
  split at hpath
  · exact absurd hpath notMem_paths_nil
  · next hbuild =>
    rcases ((buildRateLimitConfigs_limitPaths hbuild _ _ _).mp hpath).2 with ⟨q, hq, hlim⟩ | ⟨hnil, -⟩
    · obtain ⟨cost, hcost⟩ := exists_mem_quotas (p := p) (mem_modelQuotas.mp hq)
      rw [limitCost, Option.isSome_map, find?_isSome]
      exact ⟨_, hcost, by simpa using hlim⟩
    · exact absurd hnil hm

/-! ## The collected policies -/

section

variable {policies : List PricedPolicy} {listed : ListOrder policies} {ord : IterOrder String String}
  {valid : String → Bool} {s : Store} {backends : List Backend} {routeName : String}

variable {b : ObjectKey}

theorem mem_routeBackends (hb : OnRoute backends b) : keyString b ∈ routeBackends backends := by
  refine GoMap.mem_setAll_of_mem id (x := keyString b) (mem_filter.mpr ⟨hb.mem, ?_⟩)
  simpa using keyString_ne_empty b

theorem mem_of_mem_policiesOfBackend {backendKey : String}
    (h : p ∈ policiesOfBackend listed backendKey) : p ∈ policies := by
  unfold policiesOfBackend at h
  split at h
  · cases h
  · split at h
    · cases h
    · exact (listed.perm backendKey).mem_iff.mp (mem_filter.mp h).1

theorem mem_of_mem_collectPolicies (h : p ∈ collectPolicies listed ord backends) : p ∈ policies := by
  rcases mem_of_mem_addAll h with h | h
  · cases h
  · obtain ⟨e, -, he⟩ := mem_flatMap.mp h
    exact mem_of_mem_policiesOfBackend he

theorem policiesOfBackend_eq (hb : OnRoute backends b) :
    policiesOfBackend listed (keyString b) = (listed.list (keyString b)).filter fun p =>
      namespacedNameIndexKey b.name b.ns ∈ quotaPolicyTargetRefsIndexFunc p.policy := by
  have hcut : Cut.cut ['/'] (keyString b).toList = some (b.ns.toList, b.name.toList) := by
    have htext : (keyString b).toList = b.ns.toList ++ '/' :: b.name.toList := by
      simp [keyString, namespacedNameKey]
    rw [htext]
    exact Cut.cut_singleton _ hb.slashFree
  unfold policiesOfBackend
  rw [hcut]
  simp [hb.ns, hb.name]

theorem mem_collectPolicies (hvalid : ValidPolicies policies) (hb : OnRoute backends b)
    (hp : p ∈ policies) (htarget : ∃ t ∈ p.policy.targetRefs, targetKey p.policy t = b) :
    p ∈ collectPolicies listed ord backends := by
  have hlisted : p ∈ policiesOfBackend listed (keyString b) := by
    obtain ⟨t, ht, rfl⟩ := htarget
    rw [policiesOfBackend_eq hb]
    refine mem_filter.mpr ⟨(listed.perm _).mem_iff.mpr hp, decide_eq_true ?_⟩
    exact mem_map.mpr ⟨t, ht, rfl⟩
  have hall : p ∈ (ord.visit (routeBackends backends)).flatMap fun e => policiesOfBackend listed e.1 := by
    obtain ⟨v, hv⟩ := Option.isSome_iff_exists.mp (AList.lookup_isSome.mpr (mem_routeBackends hb))
    exact mem_flatMap.mpr ⟨(keyString b, v), (ord.mem_visit _ _).mpr hv, hlisted⟩
  refine mem_addAll_nil (fun q hq q' hq' hkey => ?_) hall
  obtain ⟨_, -, hq⟩ := mem_flatMap.mp hq
  obtain ⟨_, -, hq'⟩ := mem_flatMap.mp hq'
  exact inj_on_of_nodup_map hvalid.nodup (mem_of_mem_policiesOfBackend hq)
    (mem_of_mem_policiesOfBackend hq') hkey

theorem exists_collectPolicies_eq_cons (hb : OnRoute backends b) (hp : p ∈ policies)
    (htarget : ∃ t ∈ p.policy.targetRefs, targetKey p.policy t = b) :
    ∃ (listed : ListOrder policies) (ord : IterOrder String String) (rest : List PricedPolicy),
      collectPolicies listed ord backends = p :: rest := by
  obtain ⟨l₁, l₂, hl⟩ := append_of_mem hp
  let listed : ListOrder policies := ⟨fun _ => p :: (l₁ ++ l₂), fun _ => by
    rw [hl]
    exact perm_middle.symm⟩
  obtain ⟨v, hv⟩ := Option.isSome_iff_exists.mp (AList.lookup_isSome.mpr (mem_routeBackends hb))
  obtain ⟨es, hes⟩ := IterOrder.visit_visitFirst hv
  have hfront : ∃ ps, policiesOfBackend listed (keyString b) = p :: ps := by
    obtain ⟨t, ht, rfl⟩ := htarget
    rw [policiesOfBackend_eq hb]
    exact ⟨_, filter_cons_of_pos (decide_eq_true (mem_map.mpr ⟨t, ht, rfl⟩))⟩
  obtain ⟨ps, hps⟩ := hfront
  refine ⟨listed, .visitFirst (keyString b), ?_⟩
  rw [collectPolicies, hes, flatMap_cons, hps]
  exact exists_addAll_eq_append _ [p] _

/-! ## The attached cost -/

theorem dedupeKey_toList (c : LLMRequestCost) :
    (dedupeKey c).toList =
      (quotaCostMetadataKey.toList ++ Char.ofNat 0 :: c.model.toList) ++
        Char.ofNat 0 :: c.backend.toList := by
  simp [dedupeKey]

theorem dedupeKey_eq_iff {c c' : LLMRequestCost} (h : Free (Char.ofNat 0) c.backend)
    (h' : Free (Char.ofNat 0) c'.backend) :
    dedupeKey c = dedupeKey c' ↔ c.backend = c'.backend ∧ c.model = c'.model := by
  constructor
  · intro hkey
    have hlist := congrArg (fun k => Cut.cutLast (Char.ofNat 0) k.toList) hkey
    simp only [dedupeKey_toList] at hlist
    rw [Cut.cutLast_append _ h, Cut.cutLast_append _ h', Option.some.injEq, Prod.mk.injEq] at hlist
    refine ⟨String.toList_inj.mp hlist.2, String.toList_inj.mp ?_⟩
    exact (List.cons.inj (append_cancel_left hlist.1)).2
  · rintro ⟨hb, hm⟩
    rw [dedupeKey, dedupeKey, hb, hm]

theorem mem_quotaCosts {q : PerModelQuota × Option String} {c : LLMRequestCost} :
    c ∈ quotaCosts valid s backends routeName p q ↔
      ∃ m, ∃ t ∈ permittedTargets s p.policy, q.1.modelName = some m ∧
        servesModel backends m = true ∧ valid (costExpression q) = true ∧
        c = ⟨quotaCostMetadataKey, costExpression q, keyString (targetKey p.policy t), routeName, m⟩ := by
  unfold quotaCosts
  split
  · next hnone => simp [hnone]
  · next m hm =>
    rw [hm]
    by_cases hcond : (servesModel backends m && valid (costExpression q)) = true
    · rw [if_pos hcond, mem_map]
      rw [Bool.and_eq_true] at hcond
      constructor
      · rintro ⟨t, ht, rfl⟩
        exact ⟨m, t, ht, rfl, hcond.1, hcond.2, rfl⟩
      · rintro ⟨m', t, ht, hm', -, -, rfl⟩
        cases hm'
        exact ⟨t, ht, rfl⟩
    · rw [if_neg hcond]
      rw [Bool.and_eq_true] at hcond
      constructor
      · intro h
        cases h
      · rintro ⟨m', t, -, hm', hserves, hexpr, -⟩
        cases hm'
        exact absurd ⟨hserves, hexpr⟩ hcond

theorem mem_policyCosts {c : LLMRequestCost} (h : c ∈ policyCosts valid s backends routeName p) :
    ∃ q ∈ p.quotas, c ∈ quotaCosts valid s backends routeName p q := by
  unfold policyCosts at h
  split at h
  · exact mem_flatMap.mp h
  · cases h

theorem mem_of_mem_permittedTargets {p : QuotaPolicy} {t : TargetRef} (h : t ∈ permittedTargets s p) :
    t ∈ p.targetRefs := (mem_filter.mp h).1

theorem attachedCost_flatMap {α : Type} (f : α → List LLMRequestCost) (as : List α) (backend model : String) :
    attachedCost (as.flatMap f) backend model = as.findSome? fun a => attachedCost (f a) backend model := by
  unfold attachedCost
  rw [find?_flatMap, map_findSome?]
  rfl

/-- The policies are asked one by one, in the order in which they were collected. -/
theorem attachedCost_inject (hvalid : ValidPolicies policies) (hb : OnRoute backends b) (m : String) :
    attachedCost (injectQuotaPolicyCostExpressions listed ord valid s backends routeName) (keyString b) m =
      (collectPolicies listed ord backends).findSome? fun p =>
        attachedCost (policyCosts valid s backends routeName p) (keyString b) m := by
  rw [← attachedCost_flatMap]
  unfold attachedCost injectQuotaPolicyCostExpressions
  rw [find?_addAll (k := dedupeKey ⟨"", "", keyString b, "", m⟩), nil_append]
  · intro c hc
    obtain ⟨p, hp, hc⟩ := mem_flatMap.mp hc
    obtain ⟨q, -, hc⟩ := mem_policyCosts hc
    obtain ⟨_, t, ht, -, -, -, heq⟩ := mem_quotaCosts.mp hc
    have hfree : Free (Char.ofNat 0) c.backend := by
      rw [heq]
      exact hvalid.nulFree p (mem_of_mem_collectPolicies hp) t (mem_of_mem_permittedTargets ht)
    have hfree' : Free (Char.ofNat 0) (⟨"", "", keyString b, "", m⟩ : LLMRequestCost).backend :=
      hb.nulFree
    rw [decide_eq_true_iff, dedupeKey_eq_iff hfree hfree']

variable (hslash : ∀ t ∈ p.policy.targetRefs, Free '/' (targetKey p.policy t).ns)

include hslash in
theorem attachedCost_quotaCosts
    (hb : OnRoute backends b) {m : String} (hserves : servesModel backends m = true)
    (q : PerModelQuota × Option String) (e : String) :
    attachedCost (quotaCosts valid s backends routeName p q) (keyString b) m = some e ↔
      (∃ t ∈ permittedTargets s p.policy, targetKey p.policy t = b) ∧
        (q.1.modelName = some m ∧ valid (costExpression q) = true) ∧ costExpression q = e := by
  unfold attachedCost
  constructor
  · intro h
    obtain ⟨c, hc, rfl⟩ := Option.map_eq_some_iff.mp h
    have hfound := find?_some hc
    rw [decide_eq_true_iff] at hfound
    obtain ⟨m', t, ht, hm', -, hexpr, rfl⟩ := mem_quotaCosts.mp (mem_of_find?_eq_some hc)
    obtain ⟨hkey, rfl⟩ := hfound
    have hkey := keyString_inj (hslash t (mem_of_mem_permittedTargets ht)) hb.slashFree hkey
    exact ⟨⟨t, ht, hkey⟩, ⟨hm', hexpr⟩, rfl⟩
  · rintro ⟨⟨t, ht, rfl⟩, ⟨hm', hexpr⟩, rfl⟩
    have hsome : ((quotaCosts valid s backends routeName p q).find? fun c =>
        c.backend = keyString (targetKey p.policy t) ∧ c.model = m).isSome = true := by
      rw [find?_isSome]
      exact ⟨_, mem_quotaCosts.mpr ⟨m, t, ht, hm', hserves, hexpr, rfl⟩, decide_eq_true ⟨rfl, rfl⟩⟩
    obtain ⟨c, hc⟩ := Option.isSome_iff_exists.mp hsome
    rw [hc]
    obtain ⟨_, _, _, _, _, _, rfl⟩ := mem_quotaCosts.mp (mem_of_find?_eq_some hc)
    rfl

theorem findSome?_eq_map_find? {α β : Type} {f : α → Option β} {g : α → β} {test : α → Bool}
    (h : ∀ a v, f a = some v ↔ test a = true ∧ g a = v) (l : List α) :
    l.findSome? f = (l.find? test).map g := by
  induction l with
  | nil => rfl
  | cons a l ih =>
    rw [findSome?_cons]
    by_cases ha : test a = true
    · rw [(h a _).mpr ⟨ha, rfl⟩, find?_cons_of_pos ha]
      rfl
    · have hnone : f a = none :=
        Option.eq_none_iff_forall_ne_some.mpr fun v hv => ha ((h a v).mp hv).1
      rw [hnone, find?_cons_of_neg ha]
      exact ih

include hslash in
theorem attachedCost_policyCosts
    (hb : OnRoute backends b) {m : String} (hserves : servesModel backends m = true) (e : String) :
    attachedCost (policyCosts valid s backends routeName p) (keyString b) m = some e ↔
      Offers valid s p b m e := by
  by_cases htarget : ∃ t ∈ permittedTargets s p.policy, targetKey p.policy t = b
  · have hroute : targetsRoute s backends p.policy = true := by
      obtain ⟨t, ht, rfl⟩ := htarget
      exact any_eq_true.mpr ⟨t, ht, decide_eq_true (mem_routeBackends hb)⟩
    have hquotas : (p.quotas.findSome? fun q =>
        attachedCost (quotaCosts valid s backends routeName p q) (keyString b) m) =
          firstCost valid p m := by
      refine findSome?_eq_map_find? (fun q e => ?_) _
      rw [attachedCost_quotaCosts hslash hb hserves, and_iff_right htarget, decide_eq_true_iff]
    rw [Offers, and_iff_right htarget, policyCosts, if_pos hroute, attachedCost_flatMap, hquotas]
  · -- no cost of the policy is for the backend
    refine iff_of_false (fun h => ?_) fun h => htarget h.1
    obtain ⟨c, hc, rfl⟩ := Option.map_eq_some_iff.mp h
    obtain ⟨q, -, hmem⟩ := mem_policyCosts (mem_of_find?_eq_some hc)
    obtain ⟨_, t, ht, -, -, -, rfl⟩ := mem_quotaCosts.mp hmem
    have hfound := find?_some hc
    rw [decide_eq_true_iff] at hfound
    have hkey := keyString_inj (hslash t (mem_of_mem_permittedTargets ht)) hb.slashFree hfound.1
    exact htarget ⟨t, ht, hkey⟩

end

/-! ## Top theorem -/

/-- For every set of policies and every backend and model of a route: the limit at a path is that of
the policy with the first name, in every order; the cost expression is the one that policy has for
the limit, in every order, iff every policy with an expression to attach has that one. -/
theorem attachedCost_iff (valid : String → Bool) (σ : HeaderSort) (s : Store) (backends : List Backend)
    (routeName : String) {policies : List PricedPolicy} (hvalid : ValidPolicies policies)
    {b : ObjectKey} (hb : OnRoute backends b) {m : String} (hm : m ≠ "")
    (hserves : servesModel backends m = true) {path : List Label} {p : PricedPolicy}
    (henf : Enforces σ s policies p (keyString b) m path) :
    (∀ policies' : List PricedPolicy, policies'.Perm policies →
      rateLimitAt (syncedTree σ s (policies'.map PricedPolicy.policy))
          (basePath (keyString b) m ++ path) =
        rateLimitAt (policyDescriptors σ (syncedPolicy s p.policy))
          (basePath (keyString b) m ++ path)) ∧
    ((∀ (listed : ListOrder policies) (ord : IterOrder String String),
      attachedCost (injectQuotaPolicyCostExpressions listed ord valid s backends routeName)
        (keyString b) m = limitCost σ p m path) ↔
      (∃ q ∈ policies, ∃ e, Offers valid s q b m e) ∧
        ∀ q ∈ policies, ∀ e, Offers valid s q b m e → limitCost σ p m path = some e) := by
  refine ⟨fun _ => rateLimitAt_of_enforces hvalid henf, ?_⟩
  have hoffers : ∀ q ∈ policies, ∀ e,
      attachedCost (policyCosts valid s backends routeName q) (keyString b) m = some e ↔
        Offers valid s q b m e := fun q hq e =>
    attachedCost_policyCosts (hvalid.slashFree q hq) hb hserves e
  simp only [attachedCost_inject hvalid hb]
  constructor
  · intro hall
    constructor
    · obtain ⟨e, he⟩ := Option.isSome_iff_exists.mp (isSome_limitCost hm henf.limits)
      have hfound := hall ⟨fun _ => policies, fun _ => .refl _⟩ GoMap.storedOrder
      rw [he] at hfound
      obtain ⟨q, hq, hqe⟩ := exists_of_findSome?_eq_some hfound
      have hmem := mem_of_mem_collectPolicies hq
      exact ⟨q, hmem, e, (hoffers q hmem e).mp hqe⟩
    · -- put the policy in front
      intro q hq e he
      obtain ⟨t, ht, htarget⟩ := he.1
      obtain ⟨listed, ord, rest, hfront⟩ :=
        exists_collectPolicies_eq_cons hb hq ⟨t, mem_of_mem_permittedTargets ht, htarget⟩
      have hfound := hall listed ord
      rw [hfront, findSome?_cons, (hoffers q hq e).mpr he] at hfound
      exact hfound.symm
  · rintro ⟨⟨q, hq, e, he⟩, hagree⟩ listed ord
    obtain ⟨t, ht, htarget⟩ := he.1
    have hcollected : q ∈ collectPolicies listed ord backends :=
      mem_collectPolicies hvalid hb hq ⟨t, mem_of_mem_permittedTargets ht, htarget⟩
    have hsome : ((collectPolicies listed ord backends).findSome? fun p =>
        attachedCost (policyCosts valid s backends routeName p) (keyString b) m).isSome = true := by
      rw [findSome?_isSome_iff]
      exact ⟨q, hcollected, by rw [(hoffers q hq e).mpr he]; rfl⟩
    obtain ⟨e', he'⟩ := Option.isSome_iff_exists.mp hsome
    obtain ⟨q', hq', hqe'⟩ := exists_of_findSome?_eq_some he'
    have hmem := mem_of_mem_collectPolicies hq'
    rw [he', hagree q' hmem e' ((hoffers q' hmem e').mp hqe')]

/-- A limit for each hour on the model `m` of `default/b`, with a cost expression. -/
def hourlyPolicy (name : String) (limit : Nat) (cost : String) : PricedPolicy where
  policy := ⟨⟨"default", name⟩, name, false, [⟨"", "", "b", none⟩], ⟨0, "", none⟩,
    [⟨some "m", ⟨⟨limit, "1h", none⟩, []⟩⟩]⟩
  costExpressions := [some cost]
  aligned := rfl

/-- The only backend of the route. -/
def onlyBackend : Backend :=
  ⟨"default/b/route/r/rule/0/ref/0", "m", "default/b", ⟨.openAI, "", "v1"⟩, none, none, none, []⟩

/-- Two policies that agree on the cost: it is attached, whichever is listed first. -/
theorem agreed_cost_is_attached :
    let a := hourlyPolicy "a" 10 "input_tokens"
    let z := hourlyPolicy "z" 20 "input_tokens"
    let listed : ListOrder [a, z] := ⟨fun _ => [z, a], fun _ => .swap _ _ _⟩
    attachedCost (injectQuotaPolicyCostExpressions listed GoMap.storedOrder (fun _ => true)
      existingBackendStore [onlyBackend] "default/r") "default/b" "m" = some "input_tokens" := by
  intro a z listed
  have hvalid : ValidPolicies [a, z] := ⟨by decide, by decide, by decide⟩
  have hroute : OnRoute [onlyBackend] ⟨"default", "b"⟩ :=
    ⟨by decide, by decide, by decide, by decide, by decide⟩
  have henf : Enforces .insertion existingBackendStore [a, z] a "default/b" "m" [] := by
    refine ⟨mem_cons_self, ⟨rfl, by decide⟩, ?_⟩
    intro q hq _
    rcases mem_pair.mp hq with rfl | rfl
    all_goals decide
  have hagree : ∀ q ∈ [a, z], ∀ e,
      Offers (fun _ => true) existingBackendStore q ⟨"default", "b"⟩ "m" e →
        limitCost .insertion a "m" [] = some e := by
    rintro q hq e ⟨-, he⟩
    rw [← he]
    rcases mem_pair.mp hq with rfl | rfl
    all_goals decide
  refine ((attachedCost_iff (fun _ => true) .insertion existingBackendStore [onlyBackend] "default/r"
    hvalid hroute (by decide) (by decide) henf).2.mpr ⟨?_, hagree⟩ _ _).trans (by decide)
  exact ⟨a, mem_cons_self, "input_tokens", ⟨⟨"", "", "b", none⟩, by decide, by decide⟩, by decide⟩

/-- Two policies for one backend and one model.  The limit is that of `default/a`; the cost is that
of the policy that the list call returns first. -/
theorem cost_follows_list_order :
    let a := hourlyPolicy "a" 10 "input_tokens"
    let z := hourlyPolicy "z" 20 "output_tokens"
    let attached (listed : ListOrder [a, z]) :=
      attachedCost (injectQuotaPolicyCostExpressions listed GoMap.storedOrder (fun _ => true)
        existingBackendStore [onlyBackend] "default/r") "default/b" "m"
    rateLimitAt (syncedTree .insertion existingBackendStore [z.policy, a.policy])
        (basePath "default/b" "m") = some ⟨10, .hour⟩ ∧
      limitCost .insertion a "m" [] = some "input_tokens" ∧
      attached ⟨fun _ => [a, z], fun _ => .refl _⟩ = some "input_tokens" ∧
      attached ⟨fun _ => [z, a], fun _ => .swap _ _ _⟩ = some "output_tokens" := by
  decide

end AgentRouter.Quota
