import AgentRouter.Controller.FilterConfig
import AgentRouter.ExtensionServer.ClusterName
import AgentRouter.Lib.Positions

/-!
# Cluster: which backend an endpoint is stamped with

Envoy Gateway builds one cluster per rule of the generated HTTPRoute, with one
endpoint group per backendRef of non-zero weight.  `maybeModifyCluster` walks the
backendRefs of the AIGatewayRoute instead, skips those of weight zero, and stamps
the next endpoint group with the name of the backendRef it stands at.  It does
not skip a backendRef that `newHTTPRoute` dropped, so one dropped backendRef
shifts every group behind it to the name, and thereby to the credentials, of an
earlier backendRef.

    every endpoint is stamped with the name of its own backendRef
      ↔ no dropped backendRef of non-zero weight stands before a kept one
      (stampsOwnBackend_iff_noDroppedBefore)
-/

namespace AgentRouter.ExtensionServer

open List hiding getElem?_eq_some_iff

open Kube Text Controller Positions

/-! ## Algorithm -/

/-- An endpoint with the two fields of its AI gateway metadata.  `addressIsIP` is
what `net.ParseIP` says of the socket address. -/
structure LbEndpoint where
  hostname : String
  address : String
  addressIsIP : Bool
  backendName : Option String
  upstreamHost : Option String
  deriving DecidableEq

structure LocalityLbEndpoints where
  priority : Nat
  lbEndpoints : List LbEndpoint
  deriving DecidableEq

structure Cluster where
  name : String
  /-- the InferencePool entry of the cluster's metadata, empty when absent. -/
  inferencePool : String
  backendName : Option String
  loadAssignment : Option (List LocalityLbEndpoints)
  deriving DecidableEq

structure InferencePool where
  key : ObjectKey
  endpointPicker : String
  port : Int
  processingBodyMode : String
  allowModeOverride : String

def getInferencePoolByMetadata (metadata : String) : Option InferencePool :=
  match splitOn '/' metadata with
  | [ns, name, serviceName, port, bodyMode, override] =>
    (parseInt 32 port).map fun p => ⟨⟨ns, name⟩, serviceName, p, bodyMode, override⟩
  | _ => none

def endpointUpstreamHost (e : LbEndpoint) : String :=
  if e.hostname ≠ "" then e.hostname
  else if e.address ≠ "" ∧ e.addressIsIP = false then e.address
  else ""

def stampUpstreamHostMetadata (e : LbEndpoint) : LbEndpoint :=
  if endpointUpstreamHost e ≠ "" then { e with upstreamHost := some (endpointUpstreamHost e) }
  else e

/-- One endpoint group stamped with the backendRef `refIndex`: its priority, and on
every endpoint the backend name and the upstream host. -/
def stampGroup (route : AIGatewayRoute) (ruleIndex refIndex : Nat) (ref : RuleBackendRef)
    (g : LocalityLbEndpoints) : LocalityLbEndpoints where
  priority := ref.priority.getD g.priority
  lbEndpoints := g.lbEndpoints.map fun e =>
    let name := perRouteRuleRefBackendName route.key.ns ref.name route.key.name ruleIndex refIndex
    stampUpstreamHostMetadata { e with backendName := some name }

/-- The loop over the backendRefs of the rule; the groups still to be stamped are
those from `lbEndpointIndex` on. -/
def stampGroups (route : AIGatewayRoute) (ruleIndex : Nat) :
    List (RuleBackendRef × Nat) → List LocalityLbEndpoints → List LocalityLbEndpoints
  | [], gs => gs
  | (ref, i) :: rest, gs =>
    if ref.weight = some 0 then stampGroups route ruleIndex rest gs
    else
      match gs with
      | [] => []  -- fewer groups than backendRefs: the loop breaks
      | g :: gs => stampGroup route ruleIndex i ref g :: stampGroups route ruleIndex rest gs

def setClusterMetadataBackendName (c : Cluster) (route : AIGatewayRoute) (ruleIndex refIndex : Nat)
    (ref : RuleBackendRef) : Cluster :=
  let name := perRouteRuleRefBackendName route.key.ns ref.name route.key.name ruleIndex refIndex
  { c with backendName := some name }

/-- The metadata of a cluster of the rule; `none` is the out-of-range panic of an
InferencePool cluster whose rule has no backendRef. -/
def stampCluster (route : AIGatewayRoute) (rule : AIGatewayRouteRule) (cn : ClusterName)
    (c : Cluster) : Option Cluster :=
  let refIndex := cn.backendRefIndex.getD 0
  match getInferencePoolByMetadata c.inferencePool with
  | some _ =>
    match rule.backendRefs[refIndex]? with
    | none => none
    | some ref => some (setClusterMetadataBackendName c route cn.ruleIndex refIndex ref)
  | none =>
    match c.loadAssignment, cn.backendRefIndex with
    | none, _ =>
      match rule.backendRefs[refIndex]? with
      | none => some c
      | some ref => some (setClusterMetadataBackendName c route cn.ruleIndex refIndex ref)
    | some gs, some j =>
      match rule.backendRefs[j]? with
      | none => none
      | some ref => some { c with
          loadAssignment := some (gs.map (stampGroup route cn.ruleIndex j ref)) }
    | some gs, none => some { c with
        loadAssignment := some (stampGroups route cn.ruleIndex rule.backendRefs.zipIdx gs) }

def maybeModifyCluster (s : Store) (c : Cluster) : Option Cluster :=
  match parseAIGatewayClusterName c.name with
  | .error _ => some c
  | .ok cn =>
    match s.getAIGatewayRoute ⟨cn.ns, cn.routeName⟩ with
    | none => some c
    | some route =>
      match route.rules[cn.ruleIndex]? with
      | none => some c
      | some rule =>
        match cn.backendRefIndex with
        | some j => if rule.backendRefs.length ≤ j then some c else stampCluster route rule cn c
        | none => stampCluster route rule cn c

/-! ## What Envoy Gateway builds, and what the stamps should be -/

/-- The generated backendRefs that get an endpoint group, with their sources. -/
def enabledFrom (s : Store) (routeNs : String) (refs : List RuleBackendRef) :
    List (HTTPBackendRef × Nat) :=
  (producedFrom s routeNs refs).filter fun p => p.1.weight ≠ some 0

/-- The cluster Envoy Gateway builds for the rule `i`: the per-rule name, and one
endpoint group per backendRef of non-zero weight of the generated rule. -/
structure BuiltForRule (s : Store) (rootPrefix : String) (route : AIGatewayRoute) (i : Nat)
    (c : Cluster) (gs : List LocalityLbEndpoints) : Prop where
  name_eq : c.name = ruleClusterName route.key.ns route.key.name i
  noPool : getInferencePoolByMetadata c.inferencePool = none
  groups_eq : c.loadAssignment = some gs
  length_eq : ∃ hr, (newHTTPRoute s rootPrefix route).1[i]? = some hr ∧
    gs.length = (hr.backendRefs.filter fun b => b.weight ≠ some 0).length

/-- Every endpoint of every cluster built for the rule ends up with the name of the
backendRef its group was produced from, and the config holds nothing under that
name but the entry built from this backendRef. -/
def StampsOwnBackend (ord : MergeOrders) (s : Store) (rootPrefix : String)
    (routes : List AIGatewayRoute) (route : AIGatewayRoute) (i : Nat)
    (rule : AIGatewayRouteRule) : Prop :=
  ∀ c gs, BuiltForRule s rootPrefix route i c gs →
    ∃ c' gs', maybeModifyCluster s c = some c' ∧ c'.loadAssignment = some gs' ∧
      gs'.length = gs.length ∧
      ∀ (k : Nat) g, gs'[k]? = some g →
        ∃ h j ref, (enabledFrom s route.key.ns rule.backendRefs)[k]? = some (h, j) ∧
          rule.backendRefs[j]? = some ref ∧
          ∀ e ∈ g.lbEndpoints,
            e.backendName =
              some (perRouteRuleRefBackendName route.key.ns ref.name route.key.name i j) ∧
            ∀ b ∈ configBackends ord s routes, e.backendName = some b.name →
              filterBackend ord s route i j ref = some b

/-- No backendRef of non-zero weight that is missing or not permitted stands before
one of non-zero weight that is there and permitted. -/
def NoDroppedBefore (s : Store) (routeNs : String) (refs : List RuleBackendRef) : Prop :=
  refs.Pairwise fun a b => a.weight ≠ some 0 → b.weight ≠ some 0 → Authorized s routeNs b →
    Authorized s routeNs a

instance (s : Store) (routeNs : String) (refs : List RuleBackendRef) :
    Decidable (NoDroppedBefore s routeNs refs) :=
  inferInstanceAs (Decidable (List.Pairwise _ _))

/-! ## Lemmas -/

/-- The backendRefs the loop does not skip. -/
def weighted (refs : List RuleBackendRef) : List (RuleBackendRef × Nat) :=
  refs.zipIdx.filter fun p => p.1.weight ≠ some 0

@[simp] theorem stampUpstreamHostMetadata_backendName (e : LbEndpoint) :
    (stampUpstreamHostMetadata e).backendName = e.backendName := by
  unfold stampUpstreamHostMetadata
  split <;> rfl

variable {route : AIGatewayRoute} {ref : RuleBackendRef}

theorem stampGroup_backendName {i j : Nat} {g : LocalityLbEndpoints} {e : LbEndpoint}
    (he : e ∈ (stampGroup route i j ref g).lbEndpoints) :
    e.backendName = some (perRouteRuleRefBackendName route.key.ns ref.name route.key.name i j) := by
  obtain ⟨e', -, rfl⟩ := mem_map.mp he
  simp

theorem stampGroups_length (route : AIGatewayRoute) (i : Nat) (refs : List (RuleBackendRef × Nat))
    (gs : List LocalityLbEndpoints) : (stampGroups route i refs gs).length = gs.length := by
  induction refs generalizing gs with
  | nil => rfl
  | cons p rest ih =>
    unfold stampGroups
    split
    · exact ih gs
    · cases gs with
      | nil => rfl
      | cons g gs => simp [ih gs]

/-- The loop stamps the `k`-th group with the `k`-th backendRef it does not skip. -/
theorem stampGroups_getElem? (route : AIGatewayRoute) (i : Nat) (refs : List (RuleBackendRef × Nat))
    (gs : List LocalityLbEndpoints) (k : Nat) {j : Nat}
    (hk : (refs.filter fun p => p.1.weight ≠ some 0)[k]? = some (ref, j)) :
    (stampGroups route i refs gs)[k]? = gs[k]?.map (stampGroup route i j ref) := by
  induction refs generalizing gs k with
  | nil => simp at hk
  | cons p rest ih =>
    obtain ⟨r, m⟩ := p
    unfold stampGroups
    by_cases hw : r.weight = some 0
    · rw [if_pos hw]
      rw [filter_cons_of_neg (by simp [hw])] at hk
      exact ih gs k hk
    · rw [if_neg hw]
      rw [filter_cons_of_pos (by simp [hw])] at hk
      cases gs with
      | nil => rfl
      | cons g gs =>
        cases k with
        | zero =>
          cases hk
          rfl
        | succ k => exact ih gs k hk

variable {rule : AIGatewayRouteRule} {gs : List LocalityLbEndpoints}

theorem maybeModifyCluster_of_builtForRule {s : Store} {rootPrefix : String} {i : Nat} {c : Cluster}
    (hs : s.getAIGatewayRoute route.key = some route) (hns : Free '/' route.key.ns)
    (hname : Free '/' route.key.name) (hi : i < 2 ^ 63) (hrule : route.rules[i]? = some rule)
    (hb : BuiltForRule s rootPrefix route i c gs) :
    maybeModifyCluster s c = some { c with
      loadAssignment := some (stampGroups route i rule.backendRefs.zipIdx gs) } := by
  have hparse : parseAIGatewayClusterName c.name = .ok ⟨route.key.ns, route.key.name, i, none⟩ := by
    rw [hb.name_eq, parse_ruleClusterName hns hname hi]
  unfold maybeModifyCluster
  rw [hparse]
  dsimp only
  rw [hs]
  dsimp only
  rw [hrule]
  unfold stampCluster
  rw [hb.noPool, hb.groups_eq]

variable (s : Store)

theorem enabledFrom_map_snd (routeNs : String) (refs : List RuleBackendRef) :
    (enabledFrom s routeNs refs).map Prod.snd =
      ((weighted refs).filter fun p => decide (Authorized s routeNs p.1)).map Prod.snd := by
  unfold enabledFrom producedFrom weighted
  induction refs.zipIdx with
  | nil => rfl
  | cons p rest ih =>
    cases hp : httpBackendRef s routeNs p.1 with
    | error e =>
      have hna : ¬ Authorized s routeNs p.1 := by
        rw [← httpBackendRef_isOk_iff, hp]
        simp
      rw [filterMap_cons_none (by rw [hp]; rfl), ih]
      by_cases hw : p.1.weight = some 0 <;> simp [hw, hna]
    | ok h =>
      have ha : Authorized s routeNs p.1 := by
        rw [← httpBackendRef_isOk_iff, hp]
        simp
      have hweight : h.weight = p.1.weight := httpBackendRef_weight hp
      rw [filterMap_cons_some (b := (h, p.2)) (by rw [hp]; rfl)]
      by_cases hw : p.1.weight = some 0
      · rw [filter_cons_of_neg (by simp [hweight, hw]), ih, filter_cons_of_neg (by simp [hw])]
      · rw [filter_cons_of_pos (by simp [hweight, hw]), map_cons, ih,
          filter_cons_of_pos (by simp [hw]), filter_cons_of_pos (by simp [ha]),
          map_cons]

theorem enabled_length (rootPrefix : String) (route : AIGatewayRoute) (rule : AIGatewayRouteRule) :
    ((newHTTPRouteRule s rootPrefix route rule).backendRefs.filter
      fun b => b.weight ≠ some 0).length = (enabledFrom s route.key.ns rule.backendRefs).length := by
  unfold newHTTPRouteRule enabledFrom
  rw [ruleBackendRefs_eq_producedFrom, filter_map, length_map]
  rfl

theorem noDroppedBefore_iff_aligned (routeNs : String) (refs : List RuleBackendRef) :
    NoDroppedBefore s routeNs refs ↔
      Aligned (fun p : RuleBackendRef × Nat => decide (Authorized s routeNs p.1)) (weighted refs) := by
  rw [filter_aligned_iff_pairwise]
  unfold NoDroppedBefore weighted
  rw [pairwise_filter]
  conv_lhs => rw [← zipIdx_map_fst 0 refs]
  rw [pairwise_map]
  simp

theorem weighted_getElem?_ref {refs : List RuleBackendRef} {j : Nat} (h : (ref, j) ∈ weighted refs) :
    refs[j]? = some ref :=
  mem_zipIdx_iff_getElem?.mp (mem_filter.mp h).1

theorem enabledFrom_getElem?_iff {s : Store} {routeNs : String} {refs : List RuleBackendRef} {k j : Nat} :
    (∃ h, (enabledFrom s routeNs refs)[k]? = some (h, j)) ↔
      ∃ ref, ((weighted refs).filter fun p => decide (Authorized s routeNs p.1))[k]? = some (ref, j) := by
  have hmap := congrArg (fun l : List Nat => l[k]?) (enabledFrom_map_snd s routeNs refs)
  simp only [getElem?_map] at hmap
  constructor
  · rintro ⟨h, hk⟩
    rw [hk] at hmap
    obtain ⟨⟨ref, j'⟩, hk', hj⟩ := Option.map_eq_some_iff.mp hmap.symm
    cases hj
    exact ⟨ref, hk'⟩
  · rintro ⟨ref, hk⟩
    rw [hk] at hmap
    obtain ⟨⟨h, j'⟩, hk', hj⟩ := Option.map_eq_some_iff.mp hmap
    cases hj
    exact ⟨h, hk'⟩

/-- A cluster built for the rule with one plain endpoint in every group. -/
def plainCluster (route : AIGatewayRoute) (i n : Nat) : Cluster where
  name := ruleClusterName route.key.ns route.key.name i
  inferencePool := ""
  backendName := none
  loadAssignment := some (List.replicate n ⟨0, [⟨"", "", false, none, none⟩]⟩)

theorem plainCluster_builtForRule (rootPrefix : String) {i : Nat} (hrule : route.rules[i]? = some rule) :
    BuiltForRule s rootPrefix route i
      (plainCluster route i (enabledFrom s route.key.ns rule.backendRefs).length)
      (List.replicate (enabledFrom s route.key.ns rule.backendRefs).length
        ⟨0, [⟨"", "", false, none, none⟩]⟩) := by
  have hpool : getInferencePoolByMetadata "" = none := by decide
  refine ⟨rfl, hpool, rfl, newHTTPRouteRule s rootPrefix route rule, ?_, ?_⟩
  · obtain ⟨hlt, heq⟩ := List.getElem?_eq_some_iff.mp hrule
    unfold newHTTPRoute
    rw [getElem?_append_left (by simpa using hlt), getElem?_map, hrule]
    rfl
  · rw [enabled_length, length_replicate]

theorem builtForRule_length {s : Store} {rootPrefix : String} {i : Nat} {c : Cluster}
    (hrule : route.rules[i]? = some rule) (hb : BuiltForRule s rootPrefix route i c gs) :
    gs.length = (enabledFrom s route.key.ns rule.backendRefs).length := by
  obtain ⟨hr, hhr, hlen⟩ := hb.length_eq
  obtain ⟨hlt, heq⟩ := List.getElem?_eq_some_iff.mp hrule
  unfold newHTTPRoute at hhr
  rw [getElem?_append_left (by simpa using hlt), getElem?_map, hrule] at hhr
  cases hhr
  rw [hlen, enabled_length]

/-! ## Top theorem -/

/-- For every rule: every cluster Envoy Gateway may build for it gets each endpoint
stamped with its own backend exactly when no dropped backendRef of non-zero weight
stands before a kept one. -/
theorem stampsOwnBackend_iff_noDroppedBefore (ord : MergeOrders) (s : Store) (rootPrefix : String)
    (routes : List AIGatewayRoute) (route : AIGatewayRoute) (i : Nat) (rule : AIGatewayRouteRule)
    (hs : s.getAIGatewayRoute route.key = some route) (hroute : route ∈ routes)
    (hfree : ∀ r ∈ routes, SlashFree r)
    (hkeys : ∀ r ∈ routes, ∀ r' ∈ routes, r.key = r'.key → r = r') (hi : i < 2 ^ 63)
    (hrule : route.rules[i]? = some rule) :
    StampsOwnBackend ord s rootPrefix routes route i rule ↔
      NoDroppedBefore s route.key.ns rule.backendRefs := by
  obtain ⟨hns, hname, -⟩ := hfree route hroute
  rw [noDroppedBefore_iff_aligned]
  constructor
  · intro h k x hk
    obtain ⟨ref, j⟩ := x
    obtain ⟨hb, hen⟩ := enabledFrom_getElem?_iff.mpr ⟨ref, hk⟩
    have hbuilt := plainCluster_builtForRule s rootPrefix hrule
    obtain ⟨c', gs', hc', hgs', -, hstamp⟩ := h _ _ hbuilt
    rw [maybeModifyCluster_of_builtForRule hs hns hname hi hrule hbuilt] at hc'
    cases hc'
    cases hgs'
    have hklt : k < (enabledFrom s route.key.ns rule.backendRefs).length :=
      (List.getElem?_eq_some_iff.mp hen).1
    -- the walk over the rule reaches the k-th group at some backendRef of non-zero weight
    have hkw : k < (weighted rule.backendRefs).length :=
      Nat.lt_of_lt_of_le (List.getElem?_eq_some_iff.mp hk).1 (length_filter_le _ _)
    obtain ⟨⟨ref', j'⟩, hw⟩ : ∃ y, (weighted rule.backendRefs)[k]? = some y :=
      ⟨_, getElem?_eq_getElem hkw⟩
    have hg := stampGroups_getElem? route i rule.backendRefs.zipIdx
      (List.replicate (enabledFrom s route.key.ns rule.backendRefs).length
        ⟨0, [⟨"", "", false, none, none⟩]⟩) k hw
    rw [getElem?_replicate, if_pos hklt] at hg
    obtain ⟨h2, j2, ref2, hen2, -, hep⟩ := hstamp k _ hg
    rw [hen] at hen2
    cases hen2
    -- the group's only endpoint carries the name of that backendRef, so it is the group's own
    obtain ⟨hep1, -⟩ := hep _ (mem_map.mpr ⟨_, mem_singleton.mpr rfl, rfl⟩)
    obtain rfl := perRouteRuleRefBackendName_refIndex_inj (Option.some.inj hep1)
    have h1 := weighted_getElem?_ref (mem_filter.mp (mem_of_getElem? hk)).1
    have h3 := weighted_getElem?_ref (mem_of_getElem? hw)
    rw [h1] at h3
    cases h3
    exact hw
  · intro h c gs hb
    refine ⟨_, _, maybeModifyCluster_of_builtForRule hs hns hname hi hrule hb, rfl,
      stampGroups_length _ _ _ _, ?_⟩
    intro k g hg
    have hklt : k < (enabledFrom s route.key.ns rule.backendRefs).length := by
      rw [← builtForRule_length hrule hb, ← stampGroups_length route i rule.backendRefs.zipIdx gs]
      exact (List.getElem?_eq_some_iff.mp hg).1
    obtain ⟨⟨hr, j⟩, hen⟩ : ∃ y, (enabledFrom s route.key.ns rule.backendRefs)[k]? = some y :=
      ⟨_, getElem?_eq_getElem hklt⟩
    obtain ⟨ref, hk⟩ := enabledFrom_getElem?_iff.mp ⟨hr, hen⟩
    have hw := h k _ hk
    have href := weighted_getElem?_ref (mem_of_getElem? hw)
    rw [stampGroups_getElem? route i rule.backendRefs.zipIdx gs k hw] at hg
    obtain ⟨g0, -, rfl⟩ := Option.map_eq_some_iff.mp hg
    refine ⟨hr, j, ref, hen, href, ?_⟩
    intro e he
    have hbn := stampGroup_backendName he
    refine ⟨hbn, fun b hbmem hbname => ?_⟩
    rw [hbn] at hbname
    exact filterBackend_of_mem_configBackends hfree hkeys hroute hrule href hbmem
      (Option.some.inj hbname).symm

/-! ### A dropped backendRef in front -/

def localBackend (name : String) : AIServiceBackend := plainBackend ⟨"default", name⟩

/-- The backendRefs `a`, `b` and `c`. -/
def threeRefsRule : AIGatewayRouteRule where
  name := none
  backendRefs := [localRef "a", localRef "b", localRef "c"]
  ruleMatches := []
  timeouts := none

def threeRefsRoute : AIGatewayRoute := ⟨⟨"default", "r"⟩, false, [threeRefsRule]⟩

/-- The AIServiceBackend `a` does not exist. -/
def storeWithoutA : Store :=
  { Store.empty with
    aiServiceBackends := [localBackend "b", localBackend "c"]
    aiGatewayRoutes := [threeRefsRoute] }

def storeWithAll : Store :=
  { storeWithoutA with
    aiServiceBackends := [localBackend "a", localBackend "b", localBackend "c"] }

/-- The backend names on the endpoints of a cluster, group by group. -/
def stampedNames (c : Option Cluster) : Option (List (List (Option String))) :=
  c.bind fun c => c.loadAssignment.map fun gs => gs.map fun g => g.lbEndpoints.map (·.backendName)

/-- Without the AIServiceBackend `a` the endpoints of `b` are stamped with the name
of `a`, and those of `c` with the name of `b`, whose config entry exists. -/
theorem stampsOwnBackend_fails_behind_missing_backend :
    ¬ StampsOwnBackend .stored storeWithoutA "/" [threeRefsRoute] threeRefsRoute 0
        threeRefsRule ∧
      stampedNames (maybeModifyCluster storeWithoutA (plainCluster threeRefsRoute 0 2)) =
        some [[some "default/a/route/r/rule/0/ref/0"], [some "default/b/route/r/rule/0/ref/1"]] ∧
      (configBackends .stored storeWithoutA [threeRefsRoute]).map Backend.name =
        ["default/b/route/r/rule/0/ref/1", "default/c/route/r/rule/0/ref/2"] := by
  refine ⟨?_, by decide, by decide⟩
  intro h
  have hbuilt : BuiltForRule storeWithoutA "/" threeRefsRoute 0 (plainCluster threeRefsRoute 0 2)
      [⟨0, [⟨"", "", false, none, none⟩]⟩, ⟨0, [⟨"", "", false, none, none⟩]⟩] :=
    ⟨rfl, by decide, rfl, newHTTPRouteRule storeWithoutA "/" threeRefsRoute threeRefsRule, rfl, rfl⟩
  obtain ⟨c', gs', hc', hgs', -, hstamp⟩ := h _ _ hbuilt
  cases hc'
  cases hgs'
  -- the first group belongs to the backendRef at index 1
  obtain ⟨hb, j, ref, hen, href, hep⟩ := hstamp 0 _ rfl
  have hj : (enabledFrom storeWithoutA "default" threeRefsRule.backendRefs)[0]?.map Prod.snd =
      some 1 := by decide
  have hj1 : some j = some 1 := by
    rw [← hj, show (enabledFrom storeWithoutA "default" threeRefsRule.backendRefs)[0]? = some (hb, j)
      from hen]
    rfl
  cases hj1
  cases href
  exact absurd (hep _ mem_cons_self).1 (by decide)

/-- With all three backends there, every endpoint carries its own name. -/
theorem stampsOwnBackend_of_all_backends :
    NoDroppedBefore storeWithAll "default" threeRefsRule.backendRefs ∧
      StampsOwnBackend .stored storeWithAll "/" [threeRefsRoute] threeRefsRoute 0
        threeRefsRule :=
  ⟨by decide, (stampsOwnBackend_iff_noDroppedBefore .stored storeWithAll "/" [threeRefsRoute]
    threeRefsRoute 0 threeRefsRule (by decide) (by decide) (by decide) (by decide) (by decide)
    rfl).mpr (by decide)⟩

end AgentRouter.ExtensionServer
