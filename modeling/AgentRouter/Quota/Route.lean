import AgentRouter.ExtensionServer.ClusterName
import AgentRouter.Lib.Unseen
import AgentRouter.Quota.Policy

/-!
# Route: the quota policies of an Envoy route

An Envoy route points at one cluster or at weighted clusters.  The quota code
resolves each cluster name back to an AIGatewayRoute rule with a parser of its
own (`resolveClusterRule`), which knows only the five-part names: a cluster that
`parseAIGatewayClusterName` recognises in the per-backend form resolves to
nothing, and its policies are never collected.

    a policy is collected ↔ it applies to the rule of a five-part cluster of the route
      (authorizedCopy_mem_policiesForRoute)
-/

namespace AgentRouter.Quota

open Kube Text ExtensionServer List

/-! ## Algorithm -/

/-- The cluster specifier of an Envoy route action. -/
inductive RouteAction where
  | cluster (name : String)
  | weightedClusters (names : List String)
  | other

/-- The clusters that the loops of this module visit, in their order. -/
def RouteAction.clusters : RouteAction → List String
  | .cluster name => if name ≠ "" then [name] else []
  | .weightedClusters names => names
  | .other => []

/-- `clusterRouteInfo`. -/
structure ClusterRouteInfo where
  ns : String
  rule : AIGatewayRouteRule
  deriving DecidableEq

def resolveClusterRule (s : Store) (clusterName : String) : Option ClusterRouteInfo :=
  match splitOn '/' clusterName with
  | [p0, ns, routeName, _, i] =>
    if p0 = "httproute" then
      match parseIndex i with
      | none => none
      | some ruleIndex =>
        match s.getAIGatewayRoute ⟨ns, routeName⟩ with
        | none => none
        | some route => (route.rules[ruleIndex]?).map (⟨ns, ·⟩)
    else none
  | _ => none

/-- The backend a backendRef of a rule names. -/
def refKey (ns : String) (ref : RuleBackendRef) : ObjectKey := ⟨ref.getNamespace ns, ref.name⟩

def backendKeysForCluster (s : Store) (clusterName : String) : List String :=
  match resolveClusterRule s clusterName with
  | none => []
  | some info => info.rule.backendRefs.map fun ref => keyString (refKey info.ns ref)

def clusterHasQuotaBackend (s : Store) (m : GoMap String (List QuotaPolicy))
    (clusterName : String) : Bool :=
  match resolveClusterRule s clusterName with
  | none => false
  | some info =>
    info.rule.backendRefs.any fun ref => (m.lookup (keyString (refKey info.ns ref))).isSome

def routeHasQuotaBackend (s : Store) (action : RouteAction) (m : GoMap String (List QuotaPolicy)) :
    Bool :=
  action.clusters.any (clusterHasQuotaBackend s m)

/-- `policiesForRoute` appends a policy unless its UID has been seen. -/
def addUnseen (acc : List QuotaPolicy) (p : QuotaPolicy) : List QuotaPolicy :=
  if p.uid ∈ acc.map QuotaPolicy.uid then acc else acc ++ [p]

def policiesForRoute (s : Store) (action : RouteAction) (m : GoMap String (List QuotaPolicy)) :
    List QuotaPolicy :=
  ((action.clusters.flatMap (backendKeysForCluster s)).flatMap (policiesAt m)).foldl addUnseen []

/-- `routeModelInfo.backendModels`: a backend's overrides, in order and without repeats. -/
def addOverride (m : GoMap String (List String)) (key override : String) :
    GoMap String (List String) :=
  let seen := (m.lookup key).getD []
  if override ∈ seen then m else m.insert key (seen ++ [override])

/-- The model overrides of the backendRefs of a cluster's rule. -/
def overridesForCluster (s : Store) (clusterName : String) : List (String × String) :=
  match resolveClusterRule s clusterName with
  | none => []
  | some info =>
    (info.rule.backendRefs.filter fun ref => ref.modelNameOverride ≠ "").map fun ref =>
      (keyString (refKey info.ns ref), ref.modelNameOverride)

def resolveRouteModelInfo (s : Store) (action : RouteAction) : Option (GoMap String (List String)) :=
  let m := (action.clusters.flatMap (overridesForCluster s)).foldl
    (fun m o => addOverride m o.1 o.2) ∅
  if m.entries = [] then none else some m

/-! ## What should be collected -/

/-- The rule that a recognised cluster name stands for. -/
def ruleOfCluster (s : Store) (cn : ClusterName) : Option AIGatewayRouteRule :=
  (s.getAIGatewayRoute ⟨cn.ns, cn.routeName⟩).bind fun route => route.rules[cn.ruleIndex]?

/-- The policy is live and has an authorized target that a backendRef of the rule names. -/
def AppliesTo (s : Store) (p : QuotaPolicy) (ns : String) (rule : AIGatewayRouteRule) : Prop :=
  p.deleting = false ∧ ∃ ref ∈ rule.backendRefs, ∃ t ∈ p.targetRefs,
    isAIServiceBackendTarget t = true ∧ targetKey p t = refKey ns ref ∧
    validateQuotaPolicyAIServiceBackendReference s p.key.ns (targetNamespace t p.key.ns) t.name =
      none

/-- The name has five parts: `httproute`, a namespace, a route, any word, and an index. -/
def FivePart (c : String) (cn : ClusterName) : Prop :=
  ∃ word i, splitOn '/' c = ["httproute", cn.ns, cn.routeName, word, i] ∧
    parseIndex i = some cn.ruleIndex

/-- The policy applies to the rule of a five-part cluster of the route. -/
def AppliesToRoute (s : Store) (action : RouteAction) (p : QuotaPolicy) : Prop :=
  ∃ c ∈ action.clusters, ∃ cn rule, FivePart c cn ∧ ruleOfCluster s cn = some rule ∧
    AppliesTo s p cn.ns rule

/-- Each policy that applies to the rule of a per-backend cluster also applies to the
rule of some five-part cluster of the route. -/
def CoveredByRuleClusters (s : Store) (policies : List QuotaPolicy) (action : RouteAction) : Prop :=
  ∀ c ∈ action.clusters, ∀ cn, parseAIGatewayClusterName c = .ok cn → cn.backendRefIndex ≠ none →
    ∀ rule, ruleOfCluster s cn = some rule → ∀ p ∈ policies, AppliesTo s p cn.ns rule →
      AppliesToRoute s action p

/-- Namespaces have no slash, as the API server's rules for names demand. -/
structure NamespacesSlashFree (s : Store) (policies : List QuotaPolicy) : Prop where
  routes : ∀ r ∈ s.aiGatewayRoutes, Free '/' r.key.ns ∧
    ∀ rule ∈ r.rules, ∀ ref ∈ rule.backendRefs, Free '/' (ref.getNamespace r.key.ns)
  policies : ∀ p ∈ policies, ∀ t ∈ p.targetRefs, Free '/' (targetNamespace t p.key.ns)

/-! ## Lemmas -/

theorem keyString_inj {k k' : ObjectKey} (h : Free '/' k.ns) (h' : Free '/' k'.ns)
    (he : keyString k = keyString k') : k = k' := by
  have he' : k.ns ++ String.singleton '/' ++ k.name = k'.ns ++ String.singleton '/' ++ k'.name := he
  have h1 := @splitOn_cons '/' k.ns k.name h
  rw [he', splitOn_cons _ h'] at h1
  cases k
  cases k'
  simp_all

variable {p : QuotaPolicy} {s : Store}

theorem of_mem_authorizedTargets {t : TargetRef} (ts : List TargetRef) (seen : List String)
    (h : t ∈ authorizedTargets s p seen ts) :
    t ∈ ts ∧ validateQuotaPolicyAIServiceBackendReference s p.key.ns (targetKey p t).ns
      (targetKey p t).name = none := by
  induction ts generalizing seen with
  | nil => simp [authorizedTargets] at h
  | cons t' rest ih =>
    have htail {seen : List String} (h : t ∈ authorizedTargets s p seen rest) :=
      (ih seen h).imp_left (mem_cons_of_mem t')
    unfold authorizedTargets at h
    split at h
    · exact htail h
    · dsimp only at h
      split at h
      · exact htail h
      · split at h
        · exact htail h
        · next hpermitted =>
          rcases mem_cons.mp h with rfl | h
          · exact ⟨mem_cons_self, hpermitted⟩
          · exact htail h

theorem mem_authorizedTargets {k : ObjectKey} (hk : Free '/' k.ns) (ts : List TargetRef)
    (hts : ∀ t ∈ ts, Free '/' (targetNamespace t p.key.ns)) (seen : List String) :
    (∃ t ∈ authorizedTargets s p seen ts, targetKey p t = k) ↔
      keyString k ∉ seen ∧ ∃ t ∈ ts, isAIServiceBackendTarget t = true ∧ targetKey p t = k ∧
        validateQuotaPolicyAIServiceBackendReference s p.key.ns k.ns k.name = none := by
  induction ts generalizing seen with
  | nil => simp [authorizedTargets]
  | cons t rest ih =>
    have hrest : ∀ t ∈ rest, Free '/' (targetNamespace t p.key.ns) :=
      fun t ht => hts t (mem_cons_of_mem _ ht)
    have hns : Free '/' (targetKey p t).ns := hts t mem_cons_self
    unfold authorizedTargets
    by_cases hai : isAIServiceBackendTarget t = false
    · rw [if_pos hai, ih hrest]
      simp [hai]
    · rw [if_neg hai]
      rw [Bool.not_eq_false] at hai
      by_cases hseen : keyString (targetKey p t) ∈ seen
      · rw [if_pos hseen, ih hrest]
        -- a target whose key has been seen cannot be the one asked for
        constructor
        · rintro ⟨h1, t', ht', h2⟩
          exact ⟨h1, t', mem_cons_of_mem _ ht', h2⟩
        · rintro ⟨h1, t', ht', h2, h3, h4⟩
          rcases mem_cons.mp ht' with rfl | ht'
          · exact absurd (h3 ▸ hseen) h1
          · exact ⟨h1, t', ht', h2, h3, h4⟩
      · rw [if_neg hseen]
        by_cases htk : targetKey p t = k
        · -- the target asked for: its own check decides
          rw [htk]
          rw [htk] at hseen
          cases hv : validateQuotaPolicyAIServiceBackendReference s p.key.ns k.ns k.name with
          | some r =>
            rw [ih hrest]
            simp
          | none =>
            constructor
            · intro _
              exact ⟨hseen, t, mem_cons_self, hai, htk, rfl⟩
            · intro _
              exact ⟨t, mem_cons_self, htk⟩
        · have hne : keyString k ≠ keyString (targetKey p t) :=
            fun he => htk (keyString_inj hk hns he).symm
          have htail : (∃ t' ∈ authorizedTargets s p (keyString (targetKey p t) :: seen) rest,
              targetKey p t' = k) ↔ keyString k ∉ seen ∧ ∃ t' ∈ t :: rest,
                isAIServiceBackendTarget t' = true ∧ targetKey p t' = k ∧
                validateQuotaPolicyAIServiceBackendReference s p.key.ns k.ns k.name = none := by
            rw [ih hrest]
            simp [hne, htk]
          cases validateQuotaPolicyAIServiceBackendReference s p.key.ns (targetKey p t).ns
              (targetKey p t).name with
          | some r => exact htail
          | none =>
            rw [← htail]
            simp [htk]

theorem resolveClusterRule_eq_some_iff {c : String} {info : ClusterRouteInfo} :
    resolveClusterRule s c = some info ↔
      ∃ cn, FivePart c cn ∧ cn.ns = info.ns ∧ ruleOfCluster s cn = some info.rule := by
  constructor
  · intro h
    unfold resolveClusterRule at h
    split at h
    · next p0 ns routeName word i hsplit =>
      split at h
      · next hp0 =>
        split at h
        · cases h
        · next ruleIndex hi =>
          split at h
          · cases h
          · next route hroute =>
            obtain ⟨rule, hrule, rfl⟩ := Option.map_eq_some_iff.mp h
            refine ⟨⟨ns, routeName, ruleIndex, none⟩, ⟨word, i, by rw [hsplit, hp0], hi⟩, rfl, ?_⟩
            unfold ruleOfCluster
            rw [hroute]
            exact hrule
      · cases h
    · cases h
  · rintro ⟨cn, ⟨word, i, hsplit, hi⟩, hns, hrule⟩
    obtain ⟨route, hroute, hr⟩ := Option.bind_eq_some_iff.mp hrule
    unfold resolveClusterRule
    rw [hsplit]
    dsimp only
    rw [if_pos rfl, hi]
    rw [hroute]
    dsimp only
    rw [hr, Option.map_some, hns]

variable {action : RouteAction} {m : GoMap String (List QuotaPolicy)}

theorem mem_of_mem_policiesForRoute (h : p ∈ policiesForRoute s action m) :
    p ∈ (action.clusters.flatMap (backendKeysForCluster s)).flatMap (policiesAt m) := by
  exact (Unseen.mem_of_mem_addAll h).resolve_left not_mem_nil

section Collect

variable {s : Store} {policies : List QuotaPolicy}
  (hnames : NamespacesSlashFree s policies)
  (huid : ∀ p ∈ policies, ∀ q ∈ policies, p.uid = q.uid → p = q)

include hnames in
theorem free_refKey {cn : ClusterName} {rule : AIGatewayRouteRule}
    (hrule : ruleOfCluster s cn = some rule) {ref : RuleBackendRef} (href : ref ∈ rule.backendRefs) :
    Free '/' (refKey cn.ns ref).ns := by
  obtain ⟨route, hroute, hr⟩ := Option.bind_eq_some_iff.mp hrule
  have hkey : route.key = ⟨cn.ns, cn.routeName⟩ := by
    simpa using find?_some hroute
  have hfree := (hnames.routes route (mem_of_find?_eq_some hroute)).2 rule (mem_of_getElem? hr) ref href
  rw [hkey] at hfree
  exact hfree

include hnames in
/-- A policy stands behind a backend key exactly when one of its authorized targets is it. -/
theorem authorizedCopy_mem_policiesAt (hp : p ∈ policies) {k : ObjectKey} (hk : Free '/' k.ns) :
    authorizedCopy s p ∈
        policiesAt (buildQuotaBackendPolicies (authorizedQuotaPolicies s policies)) (keyString k) ↔
      p.deleting = false ∧ ∃ t ∈ p.targetRefs, isAIServiceBackendTarget t = true ∧ targetKey p t = k ∧
        validateQuotaPolicyAIServiceBackendReference s p.key.ns k.ns k.name = none := by
  have htargets := @mem_authorizedTargets p s k hk p.targetRefs (hnames.policies p hp) []
  have hsub : ∀ t ∈ authorizedTargets s p [] p.targetRefs, Free '/' (targetKey p t).ns := by
    intro t ht
    exact hnames.policies p hp t (of_mem_authorizedTargets _ _ ht).1
  rw [mem_buildQuotaBackendPolicies]
  constructor
  · rintro ⟨-, hd, t, ht, hkey⟩
    have htk : targetKey p t = k := keyString_inj (hsub t ht) hk hkey
    exact ⟨hd, (htargets.mp ⟨t, ht, htk⟩).2⟩
  · rintro ⟨hd, h⟩
    obtain ⟨t, ht, htk⟩ := htargets.mpr ⟨by simp, h⟩
    refine ⟨?_, hd, t, ht, congrArg keyString htk⟩
    refine mem_filter.mpr ⟨mem_map.mpr ⟨p, hp, rfl⟩, ?_⟩
    have hne : (authorizedCopy s p).targetRefs ≠ [] := ne_nil_of_mem ht
    simp [hne]

/-- Everything behind a key is the authorized copy of a policy. -/
theorem exists_authorizedCopy {keys : List String}
    (h : p ∈ keys.flatMap
      (policiesAt (buildQuotaBackendPolicies (authorizedQuotaPolicies s policies)))) :
    ∃ q ∈ policies, p = authorizedCopy s q := by
  obtain ⟨key, -, h⟩ := mem_flatMap.mp h
  obtain ⟨q, hq, rfl⟩ := mem_map.mp (mem_filter.mp (mem_buildQuotaBackendPolicies.mp h).1).1
  exact ⟨q, hq, rfl⟩

include hnames huid in
/-- A policy is collected exactly when it applies to the rule of a five-part cluster. -/
theorem authorizedCopy_mem_policiesForRoute (hp : p ∈ policies) (action : RouteAction) :
    authorizedCopy s p ∈ policiesForRoute s action
        (buildQuotaBackendPolicies (authorizedQuotaPolicies s policies)) ↔
      AppliesToRoute s action p := by
  constructor
  · intro h
    obtain ⟨key, hkey, hmem⟩ := mem_flatMap.mp (mem_of_mem_policiesForRoute h)
    obtain ⟨c, hc, hkey⟩ := mem_flatMap.mp hkey
    unfold backendKeysForCluster at hkey
    split at hkey
    · cases hkey
    · next info hinfo =>
      obtain ⟨ref, href, rfl⟩ := mem_map.mp hkey
      obtain ⟨cn, hfive, hns, hrule⟩ := resolveClusterRule_eq_some_iff.mp hinfo
      rw [← hns] at hmem
      obtain ⟨hd, t, ht, hai, htk, hv⟩ :=
        (authorizedCopy_mem_policiesAt hnames hp (free_refKey hnames hrule href)).mp hmem
      refine ⟨c, hc, cn, info.rule, hfive, hrule, hd, ref, href, t, ht, hai, htk, ?_⟩
      rw [← htk] at hv
      exact hv
  · rintro ⟨c, hc, cn, rule, hfive, hrule, hd, ref, href, t, ht, hai, htk, hv⟩
    refine Unseen.mem_addAll_nil ?_ ?_
    · -- UIDs tell the authorized copies apart
      intro a ha b hb he
      obtain ⟨q, hq, rfl⟩ := exists_authorizedCopy ha
      obtain ⟨q', hq', rfl⟩ := exists_authorizedCopy hb
      rw [huid q hq q' hq' he]
    · have hinfo : resolveClusterRule s c = some ⟨cn.ns, rule⟩ :=
        resolveClusterRule_eq_some_iff.mpr ⟨cn, hfive, rfl, hrule⟩
      refine mem_flatMap.mpr ⟨keyString (refKey cn.ns ref), mem_flatMap.mpr ⟨c, hc, ?_⟩, ?_⟩
      · unfold backendKeysForCluster
        rw [hinfo]
        exact mem_map.mpr ⟨ref, href, rfl⟩
      · refine (authorizedCopy_mem_policiesAt hnames hp (free_refKey hnames hrule href)).mpr
          ⟨hd, t, ht, hai, htk, ?_⟩
        rw [← htk]
        exact hv

theorem routeHasQuotaBackend_of_mem_policiesForRoute (h : p ∈ policiesForRoute s action m) :
    routeHasQuotaBackend s action m = true := by
  obtain ⟨key, hkey, hmem⟩ := mem_flatMap.mp (mem_of_mem_policiesForRoute h)
  obtain ⟨c, hc, hkey⟩ := mem_flatMap.mp hkey
  refine any_eq_true.mpr ⟨c, hc, ?_⟩
  unfold backendKeysForCluster at hkey
  unfold clusterHasQuotaBackend
  split at hkey
  · cases hkey
  · next info hinfo =>
    obtain ⟨ref, href, rfl⟩ := mem_map.mp hkey
    refine any_eq_true.mpr ⟨ref, href, ?_⟩
    unfold policiesAt at hmem
    cases hl : m.lookup (keyString (refKey info.ns ref)) with
    | none =>
      rw [hl] at hmem
      cases hmem
    | some ps => rfl

end Collect

/-! ## Model overrides -/

/-- A backendRef of a rule of the route names this backend with this override. -/
def References (s : Store) (action : RouteAction) (backend model : String) : Prop :=
  ∃ c ∈ action.clusters, ∃ info, resolveClusterRule s c = some info ∧
    ∃ ref ∈ info.rule.backendRefs, keyString (refKey info.ns ref) = backend ∧
      ref.modelNameOverride = model

/-- The overrides stored for a backend. -/
def overridesAt (m : GoMap String (List String)) (backend : String) : List String :=
  (m.lookup backend).getD []

theorem mem_overridesAt_addOverride {m : GoMap String (List String)} {key override b o : String} :
    o ∈ overridesAt (addOverride m key override) b ↔ o ∈ overridesAt m b ∨ (b = key ∧ o = override) := by
  unfold overridesAt addOverride
  dsimp only
  split
  · next hseen =>
    constructor
    · exact .inl
    · rintro (h | ⟨rfl, rfl⟩)
      · exact h
      · exact hseen
  · by_cases hb : b = key
    · subst hb
      simp
    · simp [hb]

variable {b o : String}

theorem mem_overridesAt_foldl (os : List (String × String)) (m : GoMap String (List String)) :
    o ∈ overridesAt (os.foldl (fun m x => addOverride m x.1 x.2) m) b ↔
      o ∈ overridesAt m b ∨ (b, o) ∈ os := by
  induction os generalizing m with
  | nil => simp
  | cons x os ih =>
    rw [foldl_cons, ih, mem_overridesAt_addOverride, mem_cons, Prod.ext_iff, or_assoc]

theorem mem_overridesForCluster :
    (b, o) ∈ action.clusters.flatMap (overridesForCluster s) ↔ References s action b o ∧ o ≠ "" := by
  rw [mem_flatMap]
  unfold overridesForCluster
  constructor
  · rintro ⟨c, hc, h⟩
    split at h
    · cases h
    · next info hinfo =>
      obtain ⟨ref, href, he⟩ := mem_map.mp h
      obtain ⟨href, hne⟩ := mem_filter.mp href
      cases he
      exact ⟨⟨c, hc, info, hinfo, ref, href, rfl, rfl⟩, by simpa using hne⟩
  · rintro ⟨⟨c, hc, info, hinfo, ref, href, rfl, rfl⟩, hne⟩
    refine ⟨c, hc, ?_⟩
    rw [hinfo]
    exact mem_map.mpr ⟨ref, mem_filter.mpr ⟨href, by simpa using hne⟩, rfl⟩

theorem mem_overridesAt_collected :
    o ∈ overridesAt ((action.clusters.flatMap (overridesForCluster s)).foldl
        (fun m x => addOverride m x.1 x.2) ∅) b ↔ References s action b o ∧ o ≠ "" := by
  rw [mem_overridesAt_foldl, mem_overridesForCluster]
  simp [overridesAt]

theorem mem_overridesAt_resolveRouteModelInfo {info : GoMap String (List String)}
    (h : resolveRouteModelInfo s action = some info) :
    o ∈ overridesAt info b ↔ References s action b o ∧ o ≠ "" := by
  unfold resolveRouteModelInfo at h
  dsimp only at h
  split at h
  · cases h
  · cases h
    exact mem_overridesAt_collected

theorem resolveRouteModelInfo_eq_none_iff :
    resolveRouteModelInfo s action = none ↔ ∀ b o, References s action b o → o = "" := by
  unfold resolveRouteModelInfo
  dsimp only
  constructor
  · intro h b o href
    by_contra hne
    split at h
    · next hnil =>
      have hmem := mem_overridesAt_collected.mpr ⟨href, hne⟩
      unfold overridesAt at hmem
      rw [AList.lookup_eq_none.mpr] at hmem
      · cases hmem
      · rw [AList.mem_keys, AList.keys, hnil]
        simp
    · cases h
  · intro h
    have hnil : action.clusters.flatMap (overridesForCluster s) = [] := by
      rw [eq_nil_iff_forall_not_mem]
      rintro ⟨b, o⟩ hmem
      obtain ⟨href, hne⟩ := mem_overridesForCluster.mp hmem
      exact hne (h b o href)
    rw [hnil]
    rfl

end AgentRouter.Quota
