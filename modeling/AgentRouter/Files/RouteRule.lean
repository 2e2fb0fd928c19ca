import AgentRouter.Controller.FilterConfig
import AgentRouter.Lib.Cut

/-!
# RouteRule: the number of backends of a rule

A file lives on one backend, so a file operation is refused where the rule of its route has more
than one.  The external processor knows its backends only by their names in the filter config,

    {namespace}/{name}/route/{route}/rule/{i}/ref/{j}

and takes two of them for backends of one rule if the parts from `route/` up to `/ref/` agree.  That
part does not have the namespace, and for a backend named `route` it starts one segment earlier:

    the key of a backend is route/{route}/rule/{i}, with one more route/ in front if that is
    the backend's own name   (routeRuleKey_name)
    the count is the number of configured backends of the rule ↔ it takes in as many backends
    of other routes as it leaves out of its own rule   (routeRuleBackendCount_eq_iff)
-/

namespace AgentRouter.Files

open List hiding splitOn

open Kube Controller Text Cut

/-! ## Algorithm -/

def routeRuleKey (composite : String) : Option String :=
  match cut "/route/".toList composite.toList with
  | none => none
  | some (_, rest) =>
    -- the key starts behind the first slash of the separator
    (cutAtLast "/ref/".toList ("route/".toList ++ rest)).map fun r => String.ofList r.1

/-- `config.Backends` of `NewRuntimeConfig`. -/
def runtimeBackends (backends : List Backend) : GoMap String Backend :=
  GoMap.setAll Backend.name ∅ backends

def routeRuleBackendCount (config : Option (GoMap String Backend)) (composite : String) : Nat :=
  match routeRuleKey composite, config with
  | some key, some backends => backends.keys.countP fun other => routeRuleKey other = some key
  | _, _ => 0

/-! ## The backends of a rule -/

/-- A backendRef with its place. -/
@[ext] structure RefPosition where
  route : AIGatewayRoute
  ruleIndex : Nat
  refIndex : Nat
  ref : RuleBackendRef
  deriving DecidableEq

namespace RefPosition

def name (p : RefPosition) : String :=
  perRouteRuleRefBackendName p.route.key.ns p.ref.name p.route.key.name p.ruleIndex p.refIndex

/-- The backend that the filter config has for the backendRef. -/
def backend (ord : MergeOrders) (s : Store) (p : RefPosition) : Option Backend :=
  filterBackend ord s p.route p.ruleIndex p.refIndex p.ref

/-- The same rule of the same AIGatewayRoute. -/
def SameRule (p q : RefPosition) : Prop := q.route.key = p.route.key ∧ q.ruleIndex = p.ruleIndex

instance (p q : RefPosition) : Decidable (p.SameRule q) := inferInstanceAs (Decidable (_ ∧ _))

/-- Both are named `route`, or neither is. -/
def SameStart (p q : RefPosition) : Prop := q.ref.name = "route" ↔ p.ref.name = "route"

instance (p q : RefPosition) : Decidable (p.SameStart q) := inferInstanceAs (Decidable (_ ↔ _))

/-- `q` is a backend of the rule of that index of a route that is in another namespace and has the
name of `p`'s. -/
def TakesIn (p q : RefPosition) : Prop :=
  q.route.key.name = p.route.key.name ∧ q.route.key.ns ≠ p.route.key.ns ∧
    q.ruleIndex = p.ruleIndex ∧ p.SameStart q

instance (p q : RefPosition) : Decidable (p.TakesIn q) := inferInstanceAs (Decidable (_ ∧ _))

/-- `q` is in the rule of `p`, but only one of them is named `route`. -/
def LeavesOut (p q : RefPosition) : Prop := p.SameRule q ∧ ¬ p.SameStart q

instance (p q : RefPosition) : Decidable (p.LeavesOut q) := inferInstanceAs (Decidable (_ ∧ _))

end RefPosition

def refPositions (routes : List AIGatewayRoute) : List RefPosition :=
  routes.flatMap fun route => route.rules.zipIdx.flatMap fun rule =>
    rule.1.backendRefs.zipIdx.map fun ref => ⟨route, rule.2, ref.2, ref.1⟩

/-- The backendRefs of live routes that the filter config has a backend for. -/
def configuredRefs (ord : MergeOrders) (s : Store) (routes : List AIGatewayRoute) :
    List RefPosition :=
  (refPositions (routes.filter fun r => !r.deleting)).filter fun p => (p.backend ord s).isSome

/-! ## Lemmas -/

/-! ### The key of a name -/

/-- `route/{route}/rule/{i}`. -/
def ruleSegments (routeName : String) (ruleIndex : Nat) : String :=
  "route/" ++ routeName ++ "/rule/" ++ ruleIndex.repr

theorem isPrefixOf_segment_iff {seg a : List Char} (b : List Char) (hseg : '/' ∉ seg)
    (ha : '/' ∉ a) : (seg ++ ['/']).isPrefixOf (a ++ '/' :: b) = true ↔ a = seg := by
  rw [List.isPrefixOf_iff_prefix]
  constructor
  · rintro ⟨t, ht⟩
    rw [append_assoc, singleton_append] at ht
    have hcut := cut_singleton t hseg
    rw [ht, cut_singleton b ha] at hcut
    simp only [Option.some.injEq, Prod.mk.injEq] at hcut
    exact hcut.1
  · rintro rfl
    exact ⟨b, by simp⟩

/-- The search for `/route/` in a name: it stops at the backend's own name if that is `route`, and
otherwise at the segment behind it. -/
theorem cut_route {ns name : List Char} (rest : List Char) (hns : '/' ∉ ns) (hname : '/' ∉ name) :
    cut "/route/".toList (ns ++ '/' :: (name ++ '/' :: ("route/".toList ++ rest))) =
      if name = "route".toList then some (ns, "route/".toList ++ rest)
      else some (ns ++ '/' :: name, rest) := by
  have hsep : "/route/".toList = '/' :: ("route".toList ++ ['/']) := by decide
  have hseg : '/' ∉ "route".toList := by decide
  rw [hsep, cut_cons_append _ _ hns]
  by_cases h : name = "route".toList
  · rw [h]
    simp
  · rw [if_neg h, if_neg fun hp => h ((isPrefixOf_segment_iff _ hseg hname).mp hp), cut_cons_append _ _ hname]
    simp

theorem cutAtLast_ref (front : List Char) (j : Nat) :
    cutAtLast "/ref/".toList (front ++ ("/ref/".toList ++ j.repr.toList)) = some (front, j.repr.toList) := by
  have hsep : "/ref/".toList = "/ref".toList ++ ['/'] := by decide
  rw [hsep]
  exact cutAtLast_append _ front (free_slash_repr j)

variable {routeName : String}

theorem toList_perRouteRuleRefBackendName (ns name routeName : String) (i j : Nat) :
    (perRouteRuleRefBackendName ns name routeName i j).toList =
      ns.toList ++ '/' :: (name.toList ++ '/' :: ("route/".toList ++
        (routeName.toList ++ ("/rule/".toList ++ (i.repr.toList ++
          ("/ref/".toList ++ j.repr.toList)))))) := by
  simp [perRouteRuleRefBackendName]

theorem routeRuleKey_name {ns name : String} (hns : Free '/' ns) (hname : Free '/' name) (i j : Nat) :
    routeRuleKey (perRouteRuleRefBackendName ns name routeName i j) =
      some (if name = "route" then "route/" ++ ruleSegments routeName i else ruleSegments routeName i) := by
  have hroute : name.toList = "route".toList ↔ name = "route" := String.toList_inj
  rw [routeRuleKey, toList_perRouteRuleRefBackendName, cut_route _ hns hname]
  by_cases h : name = "route"
  · rw [if_pos h, if_pos (hroute.mpr h)]
    have hkey := cutAtLast_ref ("route/".toList ++ ("route/".toList ++ (routeName.toList ++
      ("/rule/".toList ++ i.repr.toList)))) j
    simp only [append_assoc] at hkey
    simp only [hkey, Option.map_some, Option.some.injEq]
    apply String.toList_injective
    simp [ruleSegments]
  · rw [if_neg h, if_neg fun hn => h (hroute.mp hn)]
    have hkey := cutAtLast_ref ("route/".toList ++ (routeName.toList ++ ("/rule/".toList ++ i.repr.toList))) j
    simp only [append_assoc] at hkey
    simp only [hkey, Option.map_some, Option.some.injEq]
    apply String.toList_injective
    simp [ruleSegments]

theorem splitOn_ruleSegments (h : Free '/' routeName) (i : Nat) :
    splitOn '/' (ruleSegments routeName i) = ["route", routeName, "rule", i.repr] := by
  refine splitOn_intercalate (cons_ne_nil _ _) ?_ ?_
  · simp only [forall_mem_cons, h, free_slash_repr]
    decide
  · simp [ruleSegments, List.intercalate]

theorem splitOn_route_ruleSegments (h : Free '/' routeName) (i : Nat) :
    splitOn '/' ("route/" ++ ruleSegments routeName i) = ["route", "route", routeName, "rule", i.repr] := by
  have e : "route/" = "route" ++ String.singleton '/' := by decide
  rw [e, splitOn_cons _ (by decide), splitOn_ruleSegments h]

theorem routeRuleKey_eq_iff {p q : RefPosition} (hp : SlashFree p.route) (hq : SlashFree q.route)
    (hpn : Free '/' p.ref.name) (hqn : Free '/' q.ref.name) :
    routeRuleKey q.name = routeRuleKey p.name ↔
      q.route.key.name = p.route.key.name ∧ q.ruleIndex = p.ruleIndex ∧ p.SameStart q := by
  unfold RefPosition.name RefPosition.SameStart
  rw [routeRuleKey_name hp.1 hpn, routeRuleKey_name hq.1 hqn, Option.some.injEq]
  have hplain {a b : String} {i j : Nat} (ha : Free '/' a) (hb : Free '/' b) :
      ruleSegments a i = ruleSegments b j ↔ a = b ∧ i = j := by
    constructor
    · intro h
      have hsplit := congrArg (splitOn '/') h
      rw [splitOn_ruleSegments ha, splitOn_ruleSegments hb] at hsplit
      simp only [List.cons.injEq, and_true, true_and] at hsplit
      exact ⟨hsplit.1, repr_inj hsplit.2⟩
    · rintro ⟨rfl, rfl⟩
      rfl
  have hmixed {a b : String} {i j : Nat} (ha : Free '/' a) (hb : Free '/' b) :
      "route/" ++ ruleSegments a i ≠ ruleSegments b j := by
    intro h
    have hsplit := congrArg (fun s => (splitOn '/' s).length) h
    simp only [splitOn_route_ruleSegments ha, splitOn_ruleSegments hb, length_cons, length_nil] at hsplit
    omega
  have hfree := hp.2.1
  have hfree' := hq.2.1
  by_cases h : p.ref.name = "route"
  · by_cases h' : q.ref.name = "route"
    · rw [if_pos h, if_pos h', String.append_right_inj, hplain hfree' hfree]
      simp [h, h']
    · simp [h, h', (hmixed hfree hfree').symm]
  · by_cases h' : q.ref.name = "route"
    · simp [h, h', hmixed hfree' hfree]
    · rw [if_neg h, if_neg h', hplain hfree' hfree]
      simp [h, h']

/-! ### The names of a config -/

/-- Lists that carry the key of what they are listed for are apart if the keys are. -/
theorem nodup_flatMap_of_key {α β κ : Type} {l : List α} {f : α → List β} (key : α → κ)
    (keyOf : β → κ) (hkey : ∀ a ∈ l, ∀ b ∈ f a, keyOf b = key a) (hl : (l.map key).Nodup)
    (hf : ∀ a ∈ l, (f a).Nodup) : (l.flatMap f).Nodup := by
  rw [nodup_flatMap]
  refine ⟨hf, ?_⟩
  refine (pairwise_map.mp hl).imp_of_mem fun {a a'} ha ha' hne b hb hb' => ?_
  exact hne ((hkey a ha b hb).symm.trans (hkey a' ha' b hb'))

variable {p : RefPosition}

theorem mem_refPositions {routes : List AIGatewayRoute} :
    p ∈ refPositions routes ↔ p.route ∈ routes ∧ ∃ rule,
      p.route.rules[p.ruleIndex]? = some rule ∧ rule.backendRefs[p.refIndex]? = some p.ref := by
  constructor
  · intro h
    obtain ⟨route, hroute, h⟩ := mem_flatMap.mp h
    obtain ⟨⟨rule, i⟩, hrule, h⟩ := mem_flatMap.mp h
    obtain ⟨⟨ref, j⟩, href, rfl⟩ := mem_map.mp h
    exact ⟨hroute, rule, mem_zipIdx_iff_getElem?.mp hrule, mem_zipIdx_iff_getElem?.mp href⟩
  · rintro ⟨hroute, rule, hrule, href⟩
    refine mem_flatMap.mpr ⟨p.route, hroute, mem_flatMap.mpr ?_⟩
    refine ⟨(rule, p.ruleIndex), mem_zipIdx_iff_getElem?.mpr hrule, mem_map.mpr ?_⟩
    exact ⟨(p.ref, p.refIndex), mem_zipIdx_iff_getElem?.mpr href, rfl⟩

theorem nodup_refPositions {routes : List AIGatewayRoute} (hkeys : (routes.map (·.key)).Nodup) :
    (refPositions routes).Nodup := by
  refine nodup_flatMap_of_key (·.key) (fun p => p.route.key) ?_ hkeys fun route _ =>
    nodup_flatMap_of_key Prod.snd RefPosition.ruleIndex ?_ (nodup_zipIdx_map_snd _) fun rule _ => ?_
  · intro route _ p hp
    obtain ⟨rule, -, hp⟩ := mem_flatMap.mp hp
    obtain ⟨ref, -, rfl⟩ := mem_map.mp hp
    rfl
  · intro rule _ p hp
    obtain ⟨ref, -, rfl⟩ := mem_map.mp hp
    rfl
  · refine List.Nodup.of_map RefPosition.refIndex ?_
    rw [map_map]
    exact nodup_zipIdx_map_snd _

theorem map_name_configBackends (ord : MergeOrders) (s : Store) (routes : List AIGatewayRoute) :
    (configBackends ord s routes).map Backend.name = (configuredRefs ord s routes).map RefPosition.name := by
  have hbackends : configBackends ord s routes =
      (refPositions (routes.filter fun r => !r.deleting)).filterMap (·.backend ord s) := by
    simp only [refPositions, filterMap_flatMap, filterMap_map]
    rfl
  have hname (l : List RefPosition) : (l.filterMap (·.backend ord s)).map Backend.name =
      (l.filter fun p => (p.backend ord s).isSome).map RefPosition.name := by
    rw [map_filterMap, ← filterMap_eq_map, filterMap_filter]
    refine filterMap_congr fun p _ => ?_
    cases hb : p.backend ord s with
    | none => rfl
    | some b => exact congrArg some (filterBackend_name hb)
  rw [hbackends, hname]
  rfl

section

variable {ord : MergeOrders} {s : Store} {routes : List AIGatewayRoute}

theorem mem_refPositions_of_configured (h : p ∈ configuredRefs ord s routes) : p ∈ refPositions routes := by
  obtain ⟨hroute, hrule⟩ := mem_refPositions.mp (mem_filter.mp h).1
  exact mem_refPositions.mpr ⟨(mem_filter.mp hroute).1, hrule⟩

theorem slashFree_of_configured (hfree : ∀ r ∈ routes, SlashFree r)
    (h : p ∈ configuredRefs ord s routes) : SlashFree p.route ∧ Free '/' p.ref.name := by
  obtain ⟨hroute, rule, hrule, href⟩ := mem_refPositions.mp (mem_refPositions_of_configured h)
  have hp := hfree _ hroute
  exact ⟨hp, hp.2.2 rule (mem_of_getElem? hrule) _ (mem_of_getElem? href)⟩

theorem routeRuleBackendCount_name (hfree : ∀ r ∈ routes, SlashFree r)
    (hkeys : (routes.map (·.key)).Nodup) (hp : p ∈ configuredRefs ord s routes) :
    routeRuleBackendCount (some (runtimeBackends (configBackends ord s routes))) p.name =
      (configuredRefs ord s routes).countP fun q =>
        q.route.key.name = p.route.key.name ∧ q.ruleIndex = p.ruleIndex ∧ p.SameStart q := by
  obtain ⟨hroute, href⟩ := slashFree_of_configured hfree hp
  obtain ⟨key, hkey⟩ : ∃ key, routeRuleKey p.name = some key := ⟨_, routeRuleKey_name hroute.1 href _ _⟩
  have hnodup : ((configBackends ord s routes).map Backend.name).Nodup := by
    have hlive : ((routes.filter fun r => !r.deleting).map (·.key)).Nodup :=
      hkeys.sublist (filter_sublist.map _)
    rw [map_name_configBackends]
    refine List.Nodup.map_on ?_ ((nodup_refPositions hlive).filter _)
    intro p hp q hq h
    obtain ⟨⟨hns, hn, -⟩, hrn⟩ := slashFree_of_configured hfree hp
    obtain ⟨⟨hns', hn', -⟩, hrn'⟩ := slashFree_of_configured hfree hq
    obtain ⟨hroute, rule, hrule, href⟩ := mem_refPositions.mp (mem_refPositions_of_configured hp)
    obtain ⟨hroute', rule', hrule', href'⟩ :=
      mem_refPositions.mp (mem_refPositions_of_configured hq)
    obtain ⟨h1, -, h3, hi, hj⟩ := perRouteRuleRefBackendName_inj hns hrn hn hns' hrn' hn' h
    have hkey : p.route = q.route :=
      inj_on_of_nodup_map hkeys hroute hroute' (ObjectKey.ext h1 h3)
    rw [hkey, hi, hrule'] at hrule
    cases hrule
    rw [hj, href'] at href
    exact RefPosition.ext hkey hi hj (Option.some.inj href).symm
  have hperm := GoMap.perm_keys_setAll hnodup
  rw [map_name_configBackends] at hperm
  unfold routeRuleBackendCount runtimeBackends
  rw [hkey]
  simp only
  rw [hperm.countP_eq, countP_map]
  refine countP_congr fun q hq => ?_
  obtain ⟨hroute', href'⟩ := slashFree_of_configured hfree hq
  simp only [Function.comp_apply, decide_eq_true_eq]
  rw [← hkey]
  exact routeRuleKey_eq_iff hroute hroute' href href'

end

/-- Two counts are the same if neither predicate holds more often without the other. -/
theorem countP_eq_countP_iff {α : Type} (l : List α) (P Q : α → Bool) :
    l.countP P = l.countP Q ↔ (l.countP fun a => P a && !Q a) = l.countP fun a => Q a && !P a := by
  have hsplit (P Q : α → Bool) :
      l.countP P = (l.countP fun a => P a && Q a) + l.countP fun a => P a && !Q a := by
    rw [countP_eq_countP_filter_add l P Q, countP_filter, countP_filter]
  have hcomm : (l.countP fun a => P a && Q a) = l.countP fun a => Q a && P a := by
    simp only [Bool.and_comm]
  have hP := hsplit P Q
  have hQ := hsplit Q P
  omega

/-! ## Top theorem -/

theorem routeRuleBackendCount_eq_iff (ord : MergeOrders) (s : Store) {routes : List AIGatewayRoute}
    (hfree : ∀ r ∈ routes, SlashFree r) (hkeys : (routes.map (·.key)).Nodup) {p : RefPosition}
    (hp : p ∈ configuredRefs ord s routes) :
    routeRuleBackendCount (some (runtimeBackends (configBackends ord s routes))) p.name =
        ((configuredRefs ord s routes).countP fun q => p.SameRule q) ↔
      ((configuredRefs ord s routes).countP fun q => p.TakesIn q) =
        (configuredRefs ord s routes).countP fun q => p.LeavesOut q := by
  rw [routeRuleBackendCount_name hfree hkeys hp, countP_eq_countP_iff]
  have hin (q : RefPosition) :
      ((q.route.key.name = p.route.key.name ∧ q.ruleIndex = p.ruleIndex ∧ p.SameStart q) ∧
        ¬ p.SameRule q) ↔ p.TakesIn q := by
    constructor
    · rintro ⟨⟨hname, hindex, hstart⟩, hrule⟩
      exact ⟨hname, fun hns => hrule ⟨ObjectKey.ext hns hname, hindex⟩, hindex, hstart⟩
    · rintro ⟨hname, hns, hindex, hstart⟩
      exact ⟨⟨hname, hindex, hstart⟩, fun hrule => hns (congrArg ObjectKey.ns hrule.1)⟩
  have hout (q : RefPosition) :
      (p.SameRule q ∧ ¬ (q.route.key.name = p.route.key.name ∧ q.ruleIndex = p.ruleIndex ∧
        p.SameStart q)) ↔ p.LeavesOut q := by
    constructor
    · rintro ⟨hrule, hkey⟩
      exact ⟨hrule, fun hstart => hkey ⟨congrArg ObjectKey.name hrule.1, hrule.2, hstart⟩⟩
    · rintro ⟨hrule, hstart⟩
      exact ⟨hrule, fun hkey => hstart hkey.2.2⟩
  simp only [← decide_not, ← Bool.decide_and, hin, hout]

/-- A route with one rule over backends of its own namespace. -/
def oneRuleRoute (key : ObjectKey) (names : List String) : AIGatewayRoute :=
  ⟨key, false, [⟨none, names.map localRef, [], none⟩]⟩

def backendStore (keys : List ObjectKey) : Store :=
  { Store.empty with aiServiceBackends := keys.map plainBackend }

/-- The first backendRef of the first rule. -/
def firstRef (key : ObjectKey) (names : List String) : RefPosition :=
  ⟨oneRuleRoute key names, 0, 0, localRef (names.headD "")⟩

theorem twoBackends_counted :
    routeRuleBackendCount (some (runtimeBackends (configBackends .stored
        (backendStore [⟨"a", "x"⟩, ⟨"a", "y"⟩]) [oneRuleRoute ⟨"a", "r"⟩ ["x", "y"]])))
        (firstRef ⟨"a", "r"⟩ ["x", "y"]).name =
      (configuredRefs .stored (backendStore [⟨"a", "x"⟩, ⟨"a", "y"⟩])
        [oneRuleRoute ⟨"a", "r"⟩ ["x", "y"]]).countP
          fun q => (firstRef ⟨"a", "r"⟩ ["x", "y"]).SameRule q :=
  (routeRuleBackendCount_eq_iff .stored (backendStore [⟨"a", "x"⟩, ⟨"a", "y"⟩])
    (by decide) (by decide) (by decide)).mpr (by decide)

/-- Two routes of one name with one backend each: each backend is counted twice.  One rule with a
backend named `route`: each of its two backends is counted alone. -/
theorem backends_are_miscounted :
    let s := backendStore [⟨"a", "x"⟩, ⟨"b", "x"⟩, ⟨"a", "route"⟩]
    let twins := [oneRuleRoute ⟨"a", "r"⟩ ["x"], oneRuleRoute ⟨"b", "r"⟩ ["x"]]
    let pair := [oneRuleRoute ⟨"a", "r"⟩ ["x", "route"]]
    ((configuredRefs .stored s twins).countP fun q => (firstRef ⟨"a", "r"⟩ ["x"]).SameRule q) = 1 ∧
      routeRuleBackendCount (some (runtimeBackends (configBackends .stored s twins)))
        (firstRef ⟨"a", "r"⟩ ["x"]).name = 2 ∧
      ((configuredRefs .stored s pair).countP
        fun q => (firstRef ⟨"a", "r"⟩ ["x", "route"]).SameRule q) = 2 ∧
      routeRuleBackendCount (some (runtimeBackends (configBackends .stored s pair)))
        (firstRef ⟨"a", "r"⟩ ["x", "route"]).name = 1 := by
  decide +kernel

end AgentRouter.Files
