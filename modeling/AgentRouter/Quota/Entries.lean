import AgentRouter.Quota.Route
import Mathlib.Data.List.Sort

/-!
# Entries: the rate-limit entries of a route

`enableQuotaRateLimitOnRoute` puts two kinds of entries on an Envoy route.  The
request-time entries name a backend and a model by fixed keys, one for each target of
each applicable policy; the stream-done entries read both from the metadata of the
response and are shared between models through a key built from the rule.

    a request-time entry names (b, m)
      ↔ some policy targets b, has a quota for m, and is kept for m on this route
      (requestEntry_names_iff)

A policy is kept for a model when *some* target of it is referenced with that
override, but entries are emitted for *all* of its targets.

    every live, authorized policy of every recognised cluster is collected, and there are entries
      ↔ each policy of a per-backend cluster also stands behind a five-part cluster, and some
        collected policy has a quota for a model of the route   (collectsEveryPolicy_iff)
-/

namespace AgentRouter.Quota

open Kube Text ExtensionServer List

/-! ## Envoy's configuration -/

/-- `matcherv3.StringMatcher`. -/
inductive StringMatcher where
  | exact (value : String)
  | safeRegex (regex : String)
  deriving DecidableEq

/-- `routev3.RateLimit_Action`, with the one header matcher the code ever sets. -/
inductive Action where
  | genericKey (descriptorKey descriptorValue : String)
  | metadata (descriptorKey metadataNamespace path : String)
  | requestHeaders (headerName descriptorKey : String)
  | headerValueMatch (descriptorKey descriptorValue : String) (expectMatch : Bool)
      (headerName : String) (stringMatch : StringMatcher)
  deriving DecidableEq

inductive HitsAddend where
  | number (n : Nat)
  | format (text : String)
  deriving DecidableEq

/-- `routev3.RateLimit`. -/
structure RateLimit where
  actions : List Action
  hitsAddend : HitsAddend
  limit : Option LimitFromMetadata
  applyOnStreamDone : Bool
  deriving DecidableEq

/-- `ratelimitfilterv3.RateLimitPerRoute`. -/
structure RateLimitPerRoute where
  domain : String
  rateLimits : List RateLimit

/-! ## Descriptor keys -/

def quotaDomain : String := "ai-gateway-quota"

def backendNameDescriptorKey : String := "backend_name"

def modelNameDescriptorKey : String := "model_name_override"

def bucketRuleDescriptorKey (ruleIndex matchIndex : Nat) (headerName headerValue : String) :
    String :=
  if headerName = "" then "rule-" ++ ruleIndex.repr ++ "-match-" ++ matchIndex.repr
  else if headerValue = "" then
    "rule-" ++ ruleIndex.repr ++ "-" ++ headerName ++ "-match-" ++ matchIndex.repr
  else
    "rule-" ++ ruleIndex.repr ++ "-" ++ headerName ++ "|" ++ headerValue ++ "-match-" ++
      matchIndex.repr

def defaultBucketDescriptorKey (numRules : Nat) : String := "rule-" ++ numRules.repr ++ "-match--1"

/-- `headerMatchKeyValue`, and `headerMatchValue` of the translator. -/
def headerMatchKeyValue (header : HeaderMatch) : String :=
  if header.type = some .distinct then "" else header.value.getD ""

/-- `sort.Slice` by header name.  The sort is not stable, so all that is known is that
the result is a sorted permutation; both packages call it in the same way. -/
structure HeaderSort where
  sort : List HeaderMatch → List HeaderMatch
  perm : ∀ hs, (sort hs).Perm hs
  sorted : ∀ hs, (sort hs).Pairwise fun a b => a.name ≤ b.name

/-- One such sort. -/
def HeaderSort.insertion : HeaderSort where
  sort := List.insertionSort fun a b => a.name ≤ b.name
  perm := List.perm_insertionSort _
  sorted hs := by
    have : Std.Total fun a b : HeaderMatch => a.name ≤ b.name := ⟨fun a b => String.le_total a.name b.name⟩
    have : IsTrans HeaderMatch fun a b => a.name ≤ b.name := ⟨fun _ _ _ h h' => String.le_trans h h'⟩
    exact List.pairwise_insertionSort _ hs

/-- `flattenAndSortClientSelectorHeaders`, and `flattenAndSortHeaders` of the translator. -/
def flattenAndSortHeaders (σ : HeaderSort) (selectors : List (List HeaderMatch)) :
    List HeaderMatch :=
  σ.sort selectors.flatten

/-! ## Actions -/

def buildStringMatcher (header : HeaderMatch) : StringMatcher :=
  match header.type, header.value with
  | some .regularExpression, some v => .safeRegex v
  | some .regularExpression, none => .exact ""
  | _, some v => .exact v
  | _, none => .exact ""

/-- The action of one header match; the two phases differ in `expectMatch` only. -/
def headerAction (expectMatch : Bool) (ruleIndex matchIndex : Nat) (header : HeaderMatch) : Action :=
  let descriptorKey :=
    bucketRuleDescriptorKey ruleIndex matchIndex header.name (headerMatchKeyValue header)
  if header.type = some .distinct then .requestHeaders header.name descriptorKey
  else .headerValueMatch descriptorKey descriptorKey expectMatch header.name
    (buildStringMatcher header)

def buildHeaderMatchAction (ruleIndex matchIndex : Nat) (header : HeaderMatch) : Action :=
  headerAction (header.invert ≠ some true) ruleIndex matchIndex header

def buildStreamDoneHeaderMatchAction (ruleIndex matchIndex : Nat) (header : HeaderMatch) : Action :=
  headerAction true ruleIndex matchIndex header

/-- The actions of a rule's selectors, with a fixed key when there are no headers. -/
def selectorActions (act : Nat → Nat → HeaderMatch → Action) (σ : HeaderSort) (ruleIndex : Nat)
    (selectors : List (List HeaderMatch)) : List Action :=
  let headers := flattenAndSortHeaders σ selectors
  if headers = [] then
    let key := bucketRuleDescriptorKey ruleIndex 0 "" ""
    [.genericKey key key]
  else headers.zipIdx.map fun h => act ruleIndex h.2 h.1

def buildClientSelectorActions (σ : HeaderSort) (ruleIndex : Nat)
    (selectors : List (List HeaderMatch)) : List Action :=
  selectorActions buildHeaderMatchAction σ ruleIndex selectors

def buildClientSelectorStreamDoneActions (σ : HeaderSort) (ruleIndex : Nat)
    (selectors : List (List HeaderMatch)) : List Action :=
  selectorActions buildStreamDoneHeaderMatchAction σ ruleIndex selectors

/-- Backend and model as the external processor leaves them in the dynamic metadata. -/
def baseDescriptorActions : List Action :=
  [.metadata backendNameDescriptorKey "io.envoy.ai_gateway" "ai_service_backend_name",
    .metadata modelNameDescriptorKey "io.envoy.ai_gateway" "model_name_override"]

/-- Backend and model as fixed values. -/
def requestTimeBaseActions (ns backendName modelName : String) : List Action :=
  [.genericKey backendNameDescriptorKey (namespacedNameKey ns backendName),
    .genericKey modelNameDescriptorKey modelName]

def quotaHitsAddend : HitsAddend := .format "%DYNAMIC_METADATA(io.envoy.ai_gateway:quota_cost)%"

def zeroQuotaHitsAddend : HitsAddend := .number 0

def buildQuotaLimitOverride (quota : QuotaValue) : Option LimitFromMetadata := quota.fromMetadata

/-- The overrides of a backend, also looked up under what follows its last slash. -/
def resolveModelName (backendName fallback : String) (routeModelNames : GoMap String (List String)) :
    String :=
  let pick := fun key => ((routeModelNames.lookup key).getD []).find? fun m => m = fallback
  match pick backendName with
  | some m => m
  | none =>
    match splitOn '/' backendName with
    | [] | [_] => fallback
    | parts => (pick (parts.getLast?.getD "")).getD fallback

/-! ## Request-time entries -/

/-- A request-time entry of one target. -/
def requestEntry (p : QuotaPolicy) (modelName : String) (routeModelNames : GoMap String (List String))
    (t : TargetRef) (actions : List Action) (quota : QuotaValue) : RateLimit where
  actions := requestTimeBaseActions (targetNamespace t p.key.ns) t.name
    (resolveModelName (keyString (targetKey p t)) modelName routeModelNames) ++ actions
  hitsAddend := zeroQuotaHitsAddend
  limit := buildQuotaLimitOverride quota
  applyOnStreamDone := false

def buildSimpleModelEntries (p : QuotaPolicy) (modelName : String)
    (routeModelNames : GoMap String (List String)) (quota : QuotaValue) : List RateLimit :=
  p.targetRefs.map fun t => requestEntry p modelName routeModelNames t [] quota

/-- The action of the default bucket behind bucket rules. -/
def defaultBucketAction (quota : QuotaDefinition) : Action :=
  let key := defaultBucketDescriptorKey quota.bucketRules.length
  .genericKey key key

def buildBucketRuleLimitEntries (σ : HeaderSort) (p : QuotaPolicy) (modelName : String)
    (routeModelNames : GoMap String (List String)) (quota : QuotaDefinition) : List RateLimit :=
  p.targetRefs.flatMap fun t =>
    (quota.bucketRules.zipIdx.map fun r =>
      requestEntry p modelName routeModelNames t
        (buildClientSelectorActions σ r.2 r.1.clientSelectors) r.1.quota) ++
    if 0 < quota.defaultBucket.limit then
      [requestEntry p modelName routeModelNames t [defaultBucketAction quota] quota.defaultBucket]
    else []

/-! ## Stream-done entries -/

/-- `seenStreamDoneActions` and `streamDoneActions` in one: the entries in their order,
each with the key it was first stored under. -/
abbrev StreamDone := List (String × RateLimit)

/-- A key that has been seen keeps its actions; a dynamic limit fills a missing one. -/
def addStreamDone (acc : StreamDone) (key : String) (actions : List Action) (quota : QuotaValue) :
    StreamDone :=
  if key ∈ acc.map Prod.fst then
    acc.map fun e =>
      if e.1 = key then
        (e.1, { e.2 with limit := e.2.limit.or (buildQuotaLimitOverride quota) })
      else e
  else
    acc ++ [(key, ⟨baseDescriptorActions ++ actions, quotaHitsAddend,
      buildQuotaLimitOverride quota, true⟩)]

def simpleStreamDoneKey : String := "_simple_"

/-- `dupKey`: the descriptor keys of a rule's headers. -/
def ruleStreamDoneKey (σ : HeaderSort) (ruleIndex : Nat) (rule : QuotaRule) : String :=
  let headers := flattenAndSortHeaders σ rule.clientSelectors
  if headers = [] then "|" ++ bucketRuleDescriptorKey ruleIndex 0 "" ""
  else
    headers.zipIdx.foldl (fun acc h =>
      acc ++ "|" ++ bucketRuleDescriptorKey ruleIndex h.2 h.1.name (headerMatchKeyValue h.1)) ""

/-- A stream-done entry to be added: its key, its actions behind the base ones, its quota. -/
abbrev StreamDoneRequest := String × List Action × QuotaValue

def simpleStreamDone (quota : QuotaDefinition) : List StreamDoneRequest :=
  [(simpleStreamDoneKey, [], quota.defaultBucket)]

def bucketStreamDone (σ : HeaderSort) (quota : QuotaDefinition) : List StreamDoneRequest :=
  (quota.bucketRules.zipIdx.map fun r =>
    (ruleStreamDoneKey σ r.2 r.1, buildClientSelectorStreamDoneActions σ r.2 r.1.clientSelectors,
      r.1.quota)) ++
  if 0 < quota.defaultBucket.limit then
    [(defaultBucketDescriptorKey quota.bucketRules.length, [defaultBucketAction quota],
      quota.defaultBucket)]
  else []

/-! ## The loop over the policies -/

/-- A policy with one of its models and that model's quota. -/
structure ModelQuota where
  policy : QuotaPolicy
  modelName : String
  quota : QuotaDefinition
  deriving DecidableEq

/-- Some target of the policy is a backendRef of the route with this override. -/
def matchesRoute (backendModels : GoMap String (List String)) (p : QuotaPolicy)
    (modelName : String) : Bool :=
  p.targetRefs.any fun t =>
    modelName ∈ overridesAt backendModels (keyString (targetKey p t))

/-- The quotas the loop does not skip, in its order. -/
def applicableQuotas (policies : List QuotaPolicy) (modelInfo : Option (GoMap String (List String))) :
    List ModelQuota :=
  policies.flatMap fun p => p.perModelQuotas.filterMap fun pmq =>
    match pmq.modelName with
    | none => none
    | some modelName =>
      match modelInfo with
      | none => some ⟨p, modelName, pmq.quota⟩
      | some backendModels =>
        if matchesRoute backendModels p modelName then some ⟨p, modelName, pmq.quota⟩ else none

def requestEntries (σ : HeaderSort) (routeModelNames : GoMap String (List String))
    (x : ModelQuota) : List RateLimit :=
  if x.quota.bucketRules = [] then
    if 0 < x.quota.defaultBucket.limit then
      buildSimpleModelEntries x.policy x.modelName routeModelNames x.quota.defaultBucket
    else []
  else buildBucketRuleLimitEntries σ x.policy x.modelName routeModelNames x.quota

def streamDoneRequests (σ : HeaderSort) (x : ModelQuota) : List StreamDoneRequest :=
  if x.quota.bucketRules = [] then
    if 0 < x.quota.defaultBucket.limit then simpleStreamDone x.quota else []
  else bucketStreamDone σ x.quota

/-- All stream-done entries of the route. -/
def streamDoneActions (σ : HeaderSort) (xs : List ModelQuota) : StreamDone :=
  (xs.flatMap (streamDoneRequests σ)).foldl (fun acc r => addStreamDone acc r.1 r.2.1 r.2.2) []

/-- The entries of the route; `none` when there are none and the route is left alone. -/
def enableQuotaRateLimitOnRoute (σ : HeaderSort) (policies : List QuotaPolicy)
    (modelInfo : Option (GoMap String (List String))) : Option RateLimitPerRoute :=
  let xs := applicableQuotas policies modelInfo
  let rateLimitActions := xs.flatMap (requestEntries σ (modelInfo.getD ∅)) ++
    (streamDoneActions σ xs).map Prod.snd
  if rateLimitActions = [] then none else some ⟨quotaDomain, rateLimitActions⟩

/-! ## Lemmas -/

@[simp] theorem resolveModelName_eq (backendName fallback : String)
    (routeModelNames : GoMap String (List String)) :
    resolveModelName backendName fallback routeModelNames = fallback := by
  unfold resolveModelName
  dsimp only
  split
  · next m hm => simpa using find?_some hm
  · split
    · rfl
    · rfl
    · generalize (routeModelNames.lookup _).getD [] = models
      cases hp : models.find? fun m => m = fallback with
      | none => rfl
      | some m => simpa using find?_some hp

variable {modelInfo : Option (GoMap String (List String))} {policies : List QuotaPolicy}

theorem mem_applicableQuotas {x : ModelQuota} :
    x ∈ applicableQuotas policies modelInfo ↔
      x.policy ∈ policies ∧ ⟨some x.modelName, x.quota⟩ ∈ x.policy.perModelQuotas ∧
        ∀ backendModels, modelInfo = some backendModels →
          matchesRoute backendModels x.policy x.modelName = true := by
  constructor
  · intro h
    obtain ⟨p, hp, h⟩ := mem_flatMap.mp h
    obtain ⟨pmq, hpmq, h⟩ := mem_filterMap.mp h
    rcases pmq with ⟨_ | modelName, quota⟩
    · cases h
    · cases modelInfo with
      | none =>
        cases h
        exact ⟨hp, hpmq, fun _ hb => by cases hb⟩
      | some backendModels =>
        dsimp only at h
        split at h
        · next hm =>
          cases h
          refine ⟨hp, hpmq, ?_⟩
          intro bm hb
          cases hb
          exact hm
        · cases h
  · rintro ⟨hp, hpmq, hm⟩
    refine mem_flatMap.mpr ⟨x.policy, hp, mem_filterMap.mpr ⟨_, hpmq, ?_⟩⟩
    cases modelInfo with
    | none => rfl
    | some backendModels =>
      dsimp only
      rw [if_pos (hm _ rfl)]

/-- The quota gives rise to entries. -/
def QuotaDefinition.Limits (q : QuotaDefinition) : Prop :=
  q.bucketRules ≠ [] ∨ 0 < q.defaultBucket.limit

/-- The actions behind the base ones, one list for each entry of a quota. -/
def quotaActions (act : Nat → Nat → HeaderMatch → Action) (σ : HeaderSort) (q : QuotaDefinition) :
    List (List Action) :=
  if q.bucketRules = [] then if 0 < q.defaultBucket.limit then [[]] else []
  else
    (q.bucketRules.zipIdx.map fun r => selectorActions act σ r.2 r.1.clientSelectors) ++
      if 0 < q.defaultBucket.limit then [[defaultBucketAction q]] else []

variable {σ : HeaderSort}

theorem quotaActions_eq_nil_iff {act : Nat → Nat → HeaderMatch → Action} {q : QuotaDefinition} :
    quotaActions act σ q = [] ↔ ¬ q.Limits := by
  unfold quotaActions QuotaDefinition.Limits
  by_cases hr : q.bucketRules = []
  · by_cases hl : 0 < q.defaultBucket.limit
    · simp [hr, hl]
    · simp [hr, hl]
  · simp [hr]

variable {names : GoMap String (List String)}

theorem requestEntry_actions {p : QuotaPolicy} {modelName : String} (t : TargetRef)
    (actions : List Action) (quota : QuotaValue) :
    (requestEntry p modelName names t actions quota).actions =
      .genericKey backendNameDescriptorKey (keyString (targetKey p t)) ::
        .genericKey modelNameDescriptorKey modelName :: actions := by
  simp [requestEntry, requestTimeBaseActions, keyString, targetKey]

variable {actions : List Action}

theorem mem_requestEntries {x : ModelQuota} :
    (∃ e ∈ requestEntries σ names x, e.actions = actions) ↔
      ∃ t ∈ x.policy.targetRefs, ∃ rest ∈ quotaActions buildHeaderMatchAction σ x.quota,
        actions = .genericKey backendNameDescriptorKey (keyString (targetKey x.policy t)) ::
          .genericKey modelNameDescriptorKey x.modelName :: rest := by
  unfold requestEntries quotaActions
  by_cases hr : x.quota.bucketRules = []
  · rw [if_pos hr, if_pos hr]
    by_cases hl : 0 < x.quota.defaultBucket.limit
    · simp [hl, buildSimpleModelEntries, requestEntry_actions, eq_comm]
    · simp [hl]
  · rw [if_neg hr, if_neg hr]
    constructor
    · rintro ⟨e, he, rfl⟩
      obtain ⟨t, ht, he⟩ := mem_flatMap.mp he
      rcases mem_append.mp he with he | he
      · obtain ⟨r, hmem, rfl⟩ := mem_map.mp he
        exact ⟨t, ht, _, mem_append_left _ (mem_map.mpr ⟨r, hmem, rfl⟩), requestEntry_actions t _ _⟩
      · split at he
        · next hl =>
          obtain rfl := mem_singleton.mp he
          rw [if_pos hl]
          exact ⟨t, ht, _, mem_append_right _ (mem_singleton_self _), requestEntry_actions t _ _⟩
        · cases he
    · rintro ⟨t, ht, rest, hrest, rfl⟩
      rcases mem_append.mp hrest with hrest | hrest
      · obtain ⟨r, hmem, rfl⟩ := mem_map.mp hrest
        exact ⟨_, mem_flatMap.mpr ⟨t, ht, mem_append_left _
          (mem_map.mpr ⟨r, hmem, rfl⟩)⟩, requestEntry_actions t _ _⟩
      · split at hrest
        · next hl =>
          obtain rfl := mem_singleton.mp hrest
          refine ⟨requestEntry x.policy x.modelName names t [defaultBucketAction x.quota]
            x.quota.defaultBucket, mem_flatMap.mpr ⟨t, ht, mem_append_right _ ?_⟩,
            requestEntry_actions t _ _⟩
          rw [if_pos hl]
          exact mem_singleton_self _
        · cases hrest

theorem applyOnStreamDone_requestEntries {x : ModelQuota} {e : RateLimit}
    (h : e ∈ requestEntries σ names x) : e.applyOnStreamDone = false := by
  unfold requestEntries at h
  split at h
  · split at h
    · obtain ⟨t, -, rfl⟩ := mem_map.mp h
      rfl
    · cases h
  · obtain ⟨t, -, h⟩ := mem_flatMap.mp h
    rcases mem_append.mp h with h | h
    · obtain ⟨r, -, rfl⟩ := mem_map.mp h
      rfl
    · split at h
      · obtain rfl := mem_singleton.mp h
        rfl
      · cases h

/-- The first two actions fix the backend and the model. -/
def RateLimit.Names (e : RateLimit) (backend model : String) : Prop :=
  ∃ rest, e.actions = .genericKey backendNameDescriptorKey backend ::
    .genericKey modelNameDescriptorKey model :: rest

variable {quota : QuotaValue} {acc : StreamDone}

theorem applyOnStreamDone_addStreamDone {key : String} (h : ∀ e ∈ acc, e.2.applyOnStreamDone = true) :
    ∀ e ∈ addStreamDone acc key actions quota, e.2.applyOnStreamDone = true := by
  intro e he
  unfold addStreamDone at he
  split at he
  · obtain ⟨e', he', rfl⟩ := mem_map.mp he
    split
    · exact h e' he'
    · exact h e' he'
  · rcases mem_append.mp he with he | he
    · exact h e he
    · obtain rfl := mem_singleton.mp he
      rfl

theorem applyOnStreamDone_streamDoneActions {xs : List ModelQuota} :
    ∀ e ∈ streamDoneActions σ xs, e.2.applyOnStreamDone = true := by
  suffices h : ∀ (rs : List StreamDoneRequest) (acc : StreamDone), (∀ e ∈ acc, e.2.applyOnStreamDone = true) →
      ∀ e ∈ rs.foldl (fun acc r => addStreamDone acc r.1 r.2.1 r.2.2) acc,
        e.2.applyOnStreamDone = true from h _ [] (by simp)
  intro rs
  induction rs with
  | nil => exact fun _ h => h
  | cons r rs ih => exact fun acc h => ih _ (applyOnStreamDone_addStreamDone h)

/-- An entry with this key and these actions. -/
def StreamDone.Has (acc : StreamDone) (key : String) (actions : List Action) : Prop :=
  ∃ e, (key, e) ∈ acc ∧ e.actions = actions

theorem addStreamDone_keys {key k : String} :
    k ∈ (addStreamDone acc key actions quota).map Prod.fst ↔ k ∈ acc.map Prod.fst ∨ k = key := by
  unfold addStreamDone
  by_cases hkey : key ∈ acc.map Prod.fst
  · rw [if_pos hkey, map_map]
    have hfst : (Prod.fst ∘ fun e : String × RateLimit =>
        if e.1 = key then
          (e.1, { e.2 with limit := e.2.limit.or (buildQuotaLimitOverride quota) })
        else e) = Prod.fst := by
      funext e
      rw [Function.comp_apply]
      split
      · rfl
      · rfl
    rw [hfst]
    constructor
    · exact .inl
    · rintro (h | rfl)
      · exact h
      · exact hkey
  · rw [if_neg hkey]
    simp

variable {a : List Action}

theorem has_addStreamDone {key k : String} :
    (addStreamDone acc key actions quota).Has k a ↔
      acc.Has k a ∨ (key ∉ acc.map Prod.fst ∧ k = key ∧ a = baseDescriptorActions ++ actions) := by
  unfold addStreamDone StreamDone.Has
  by_cases hkey : key ∈ acc.map Prod.fst
  · rw [if_pos hkey]
    constructor
    · rintro ⟨e, he, rfl⟩
      obtain ⟨e', he', heq⟩ := mem_map.mp he
      split at heq
      · cases heq
        exact .inl ⟨e'.2, he', rfl⟩
      · cases heq
        exact .inl ⟨e, he', rfl⟩
    · rintro (⟨e, he, rfl⟩ | ⟨hn, -⟩)
      · by_cases hk : k = key
        · refine ⟨{ e with limit := e.limit.or (buildQuotaLimitOverride quota) },
            mem_map.mpr ⟨(k, e), he, ?_⟩, rfl⟩
          rw [if_pos hk]
        · refine ⟨e, mem_map.mpr ⟨(k, e), he, ?_⟩, rfl⟩
          rw [if_neg hk]
      · exact absurd hkey hn
  · rw [if_neg hkey]
    constructor
    · rintro ⟨e, he, rfl⟩
      rcases mem_append.mp he with he | he
      · exact .inl ⟨e, he, rfl⟩
      · cases mem_singleton.mp he
        exact .inr ⟨hkey, rfl, rfl⟩
    · rintro (⟨e, he, rfl⟩ | ⟨-, rfl, rfl⟩)
      · exact ⟨e, mem_append_left _ he, rfl⟩
      · exact ⟨_, mem_append_right _ (mem_singleton_self _), rfl⟩

/-- After the loop each key has the actions of the first request that came with it. -/
theorem has_foldl_addStreamDone {k : String} (rs : List StreamDoneRequest) (acc : StreamDone) :
    StreamDone.Has (rs.foldl (fun acc r => addStreamDone acc r.1 r.2.1 r.2.2) acc) k a ↔
      acc.Has k a ∨ (k ∉ acc.map Prod.fst ∧
        ∃ r, rs.find? (fun r => r.1 = k) = some r ∧ a = baseDescriptorActions ++ r.2.1) := by
  induction rs generalizing acc with
  | nil => simp
  | cons r rs ih =>
    rw [foldl_cons, ih, has_addStreamDone, addStreamDone_keys]
    by_cases hk : r.1 = k
    · subst hk
      simp
    · have hk' : k ≠ r.1 := fun h => hk h.symm
      simp [hk, hk']

/-- The entries put on the route. -/
def routeEntries (σ : HeaderSort) (policies : List QuotaPolicy)
    (modelInfo : Option (GoMap String (List String))) : List RateLimit :=
  ((enableQuotaRateLimitOnRoute σ policies modelInfo).map (·.rateLimits)).getD []

theorem routeEntries_eq (σ : HeaderSort) (policies : List QuotaPolicy)
    (modelInfo : Option (GoMap String (List String))) :
    routeEntries σ policies modelInfo =
      (applicableQuotas policies modelInfo).flatMap (requestEntries σ (modelInfo.getD ∅)) ++
        (streamDoneActions σ (applicableQuotas policies modelInfo)).map Prod.snd := by
  unfold routeEntries enableQuotaRateLimitOnRoute
  dsimp only
  split
  · next h =>
    rw [h]
    rfl
  · rfl

theorem mem_routeEntries_request {e : RateLimit} :
    e ∈ routeEntries σ policies modelInfo ∧ e.applyOnStreamDone = false ↔
      ∃ x ∈ applicableQuotas policies modelInfo, e ∈ requestEntries σ (modelInfo.getD ∅) x := by
  rw [routeEntries_eq, mem_append, mem_flatMap]
  constructor
  · rintro ⟨h | h, hdone⟩
    · exact h
    · obtain ⟨e', he', rfl⟩ := mem_map.mp h
      rw [applyOnStreamDone_streamDoneActions e' he'] at hdone
      cases hdone
  · rintro ⟨x, hx, he⟩
    exact ⟨.inl ⟨x, hx, he⟩, applyOnStreamDone_requestEntries he⟩

theorem mem_routeEntries_streamDone :
    (∃ e ∈ routeEntries σ policies modelInfo, e.applyOnStreamDone = true ∧ e.actions = a) ↔
      ∃ k r, ((applicableQuotas policies modelInfo).flatMap (streamDoneRequests σ)).find?
        (fun r => r.1 = k) = some r ∧ a = baseDescriptorActions ++ r.2.1 := by
  have hhas : ∀ k, (streamDoneActions σ (applicableQuotas policies modelInfo)).Has k a ↔
      ∃ r, ((applicableQuotas policies modelInfo).flatMap (streamDoneRequests σ)).find?
        (fun r => r.1 = k) = some r ∧ a = baseDescriptorActions ++ r.2.1 := by
    intro k
    unfold streamDoneActions
    rw [has_foldl_addStreamDone]
    simp [StreamDone.Has]
  simp only [← hhas, routeEntries_eq]
  constructor
  · rintro ⟨e, he, hdone, rfl⟩
    rcases mem_append.mp he with he | he
    · obtain ⟨x, -, he⟩ := mem_flatMap.mp he
      rw [applyOnStreamDone_requestEntries he] at hdone
      cases hdone
    · obtain ⟨⟨k, e'⟩, he', rfl⟩ := mem_map.mp he
      exact ⟨k, e', he', rfl⟩
  · rintro ⟨k, e, he, rfl⟩
    exact ⟨e, mem_append_right _ (mem_map.mpr ⟨(k, e), he, rfl⟩),
      applyOnStreamDone_streamDoneActions _ he, rfl⟩

/-! ## Top theorem -/

/-- The policy has a target that names this backend. -/
def Targets (p : QuotaPolicy) (backend : String) : Prop :=
  ∃ t ∈ p.targetRefs, keyString (targetKey p t) = backend

/-- The route has no model names of its own, or it uses this one for a target of the policy. -/
def UsesModel (s : Store) (action : RouteAction) (p : QuotaPolicy) (m : String) : Prop :=
  (∀ b o, References s action b o → o = "") ∨
    (m ≠ "" ∧ ∃ b, Targets p b ∧ References s action b m)

theorem mem_applicableQuotas_iff_usesModel {s : Store} {action : RouteAction} {x : ModelQuota} :
    x ∈ applicableQuotas policies (resolveRouteModelInfo s action) ↔
      x.policy ∈ policies ∧ ⟨some x.modelName, x.quota⟩ ∈ x.policy.perModelQuotas ∧
        UsesModel s action x.policy x.modelName := by
  rw [mem_applicableQuotas]
  refine and_congr_right fun _ => and_congr_right fun _ => ?_
  constructor
  · intro hm
    cases hinfo : resolveRouteModelInfo s action with
    | none => exact .inl (resolveRouteModelInfo_eq_none_iff.mp hinfo)
    | some info =>
      obtain ⟨t, ht, hmem⟩ := any_eq_true.mp (hm info hinfo)
      obtain ⟨href, hne⟩ :=
        (mem_overridesAt_resolveRouteModelInfo hinfo).mp (of_decide_eq_true hmem)
      exact .inr ⟨hne, _, ⟨t, ht, rfl⟩, href⟩
  · intro hkept info hinfo
    rcases hkept with hnone | ⟨hne, b, ⟨t, ht, rfl⟩, href⟩
    · rw [resolveRouteModelInfo_eq_none_iff.mpr hnone] at hinfo
      cases hinfo
    · refine any_eq_true.mpr ⟨t, ht, decide_eq_true ?_⟩
      exact (mem_overridesAt_resolveRouteModelInfo hinfo).mpr ⟨href, hne⟩

/-- Every request-time entry names a backend that the route's rules reference with that
model as its override. -/
def NamesOnlyReferenced (σ : HeaderSort) (s : Store) (action : RouteAction)
    (policies : List QuotaPolicy) : Prop :=
  ∀ e ∈ routeEntries σ policies (resolveRouteModelInfo s action), e.applyOnStreamDone = false →
    ∀ b m, e.Names b m → References s action b m

/-- For every list of policies and every route: which backends and models the
request-time entries name. -/
theorem requestEntry_names_iff (σ : HeaderSort) (s : Store) (action : RouteAction)
    (policies : List QuotaPolicy) (b m : String) :
    (∃ e ∈ routeEntries σ policies (resolveRouteModelInfo s action),
        e.applyOnStreamDone = false ∧ e.Names b m) ↔
      ∃ p ∈ policies, Targets p b ∧
        (∃ q : QuotaDefinition, ⟨some m, q⟩ ∈ p.perModelQuotas ∧ q.Limits) ∧
        ((∀ b' o, References s action b' o → o = "") ∨
          (m ≠ "" ∧ ∃ b', Targets p b' ∧ References s action b' m)) := by
  constructor
  · rintro ⟨e, he, hdone, rest, hnames⟩
    obtain ⟨x, hx, hex⟩ := mem_routeEntries_request.mp ⟨he, hdone⟩
    obtain ⟨hp, hpmq, hm⟩ := mem_applicableQuotas_iff_usesModel.mp hx
    obtain ⟨t, ht, rest', hrest', hact⟩ := mem_requestEntries.mp ⟨e, hex, hnames⟩
    have hl : x.quota.Limits := by
      by_contra hl
      rw [quotaActions_eq_nil_iff.mpr hl] at hrest'
      cases hrest'
    obtain ⟨hb, hrest⟩ := List.cons.inj hact
    obtain rfl := (Action.genericKey.inj hb).2
    obtain rfl := (Action.genericKey.inj (List.cons.inj hrest).1).2
    exact ⟨x.policy, hp, ⟨t, ht, rfl⟩, ⟨x.quota, hpmq, hl⟩, hm⟩
  · rintro ⟨p, hp, ⟨t, ht, rfl⟩, ⟨q, hpmq, hl⟩, hkept⟩
    have hx : (⟨p, m, q⟩ : ModelQuota) ∈
        applicableQuotas policies (resolveRouteModelInfo s action) :=
      mem_applicableQuotas_iff_usesModel.mpr ⟨hp, hpmq, hkept⟩
    obtain ⟨rest, hrest⟩ := exists_mem_of_ne_nil (quotaActions buildHeaderMatchAction σ q)
      fun hnil => quotaActions_eq_nil_iff.mp hnil hl
    obtain ⟨e, he, hact⟩ := (@mem_requestEntries σ ((resolveRouteModelInfo s action).getD ∅)
      _ ⟨p, m, q⟩).mpr ⟨t, ht, rest, hrest, rfl⟩
    obtain ⟨hmem, hdone⟩ := mem_routeEntries_request.mpr ⟨_, hx, he⟩
    exact ⟨e, hmem, hdone, rest, hact⟩

/-! ## Every policy of a route -/

theorem requestEntries_eq_nil {x : ModelQuota} (h : ¬ x.quota.Limits)
    (names : GoMap String (List String)) :
    requestEntries σ names x = [] ∧ streamDoneRequests σ x = [] := by
  obtain ⟨hrules, hlimit⟩ := not_or.mp h
  rw [not_ne_iff] at hrules
  simp [requestEntries, streamDoneRequests, hrules, hlimit]

theorem streamDoneRequests_ne_nil {x : ModelQuota} (h : x.quota.Limits) :
    streamDoneRequests σ x ≠ [] := by
  unfold streamDoneRequests
  by_cases hrules : x.quota.bucketRules = []
  · have hlimit := h.resolve_left (fun hne => hne hrules)
    simp [hrules, hlimit, simpleStreamDone]
  · simp [hrules, bucketStreamDone]

theorem routeEntries_ne_nil_iff :
    routeEntries σ policies modelInfo ≠ [] ↔
      ∃ x ∈ applicableQuotas policies modelInfo, x.quota.Limits := by
  constructor
  · intro h
    by_contra hnone
    have hnil : ∀ x ∈ applicableQuotas policies modelInfo, ¬ x.quota.Limits :=
      fun x hx hl => hnone ⟨x, hx, hl⟩
    have hrequest : (applicableQuotas policies modelInfo).flatMap
        (requestEntries σ (modelInfo.getD ∅)) = [] :=
      flatMap_eq_nil_iff.mpr fun x hx => (requestEntries_eq_nil (hnil x hx) _).1
    have hdone : (applicableQuotas policies modelInfo).flatMap (streamDoneRequests σ) = [] :=
      flatMap_eq_nil_iff.mpr fun x hx => (requestEntries_eq_nil (hnil x hx) ∅).2
    refine h ?_
    rw [routeEntries_eq, hrequest, streamDoneActions, hdone]
    rfl
  · rintro ⟨x, hx, hl⟩ hnil
    obtain ⟨r, hr⟩ := exists_mem_of_ne_nil _ (streamDoneRequests_ne_nil (σ := σ) hl)
    have hmem := mem_flatMap.mpr ⟨x, hx, hr⟩
    obtain ⟨r', hr'⟩ := Option.isSome_iff_exists.mp
      (find?_isSome (p := fun r' : StreamDoneRequest => r'.1 = r.1) |>.mpr ⟨r, hmem, by simp⟩)
    obtain ⟨e, he, -⟩ := mem_routeEntries_streamDone.mpr ⟨r.1, r', hr', rfl⟩
    rw [hnil] at he
    cases he

/-- Every live, authorized policy of a backend of a recognised cluster's rule makes the
route a quota route and is among the policies collected for it, and the route gets entries. -/
def CollectsEveryPolicy (σ : HeaderSort) (s : Store) (policies : List QuotaPolicy)
    (action : RouteAction) : Prop :=
  ∀ c ∈ action.clusters, ∀ cn, parseAIGatewayClusterName c = .ok cn →
    ∀ rule, ruleOfCluster s cn = some rule →
      ∀ p ∈ policies, AppliesTo s p cn.ns rule →
        let m := buildQuotaBackendPolicies (authorizedQuotaPolicies s policies)
        routeHasQuotaBackend s action m = true ∧ authorizedCopy s p ∈ policiesForRoute s action m ∧
          routeEntries σ (policiesForRoute s action m) (resolveRouteModelInfo s action) ≠ []

/-- Some policy of a five-part cluster has a quota for a model of the route. -/
def LimitsSomeModel (s : Store) (policies : List QuotaPolicy) (action : RouteAction) : Prop :=
  ∃ p ∈ policies, AppliesToRoute s action p ∧ ∃ m q, ⟨some m, q⟩ ∈ p.perModelQuotas ∧ q.Limits ∧
    UsesModel s action (authorizedCopy s p) m

/-- For every store, set of policies and Envoy route: all policies of the recognised
clusters are collected, with entries for them, exactly when those of the per-backend clusters also
stand behind a five-part cluster of the route and some collected one has a quota that is used. -/
theorem collectsEveryPolicy_iff (σ : HeaderSort) (s : Store) (policies : List QuotaPolicy)
    (action : RouteAction) (hnames : NamespacesSlashFree s policies)
    (huid : ∀ p ∈ policies, ∀ q ∈ policies, p.uid = q.uid → p = q) :
    CollectsEveryPolicy σ s policies action ↔
      CoveredByRuleClusters s policies action ∧
        ((∃ c ∈ action.clusters, ∃ cn, parseAIGatewayClusterName c = .ok cn ∧
            ∃ rule, ruleOfCluster s cn = some rule ∧ ∃ p ∈ policies, AppliesTo s p cn.ns rule) →
          LimitsSomeModel s policies action) := by
  constructor
  · intro h
    constructor
    · intro c hc cn hcn _ rule hrule p hp happ
      obtain ⟨-, hmem, -⟩ := h c hc cn hcn rule hrule p hp happ
      exact (authorizedCopy_mem_policiesForRoute hnames huid hp action).mp hmem
    · rintro ⟨c, hc, cn, hcn, rule, hrule, p, hp, happ⟩
      obtain ⟨-, -, hentries⟩ := h c hc cn hcn rule hrule p hp happ
      obtain ⟨x, hx, hl⟩ := routeEntries_ne_nil_iff.mp hentries
      obtain ⟨hcollected, hpmq, hm⟩ := mem_applicableQuotas_iff_usesModel.mp hx
      obtain ⟨q, hq, hcopy⟩ := exists_authorizedCopy (mem_of_mem_policiesForRoute hcollected)
      rw [hcopy] at hcollected hpmq hm
      exact ⟨q, hq, (authorizedCopy_mem_policiesForRoute hnames huid hq action).mp hcollected,
        x.modelName, x.quota, hpmq, hl, hm⟩
  · rintro ⟨hcovered, hlimits⟩ c hc cn hcn rule hrule p hp happ
    have hmem := (authorizedCopy_mem_policiesForRoute hnames huid hp action).mpr (by
      by_cases hb : cn.backendRefIndex = none
      · -- a per-rule name has five parts, so the cluster itself is resolved
        rcases (parseAIGatewayClusterName_eq_ok_iff c cn).mp hcn with
          ⟨i, hsplit, hi, -⟩ | ⟨i, j, b, -, -, -, hb'⟩
        · exact ⟨c, hc, cn, rule, ⟨"rule", i, hsplit, hi⟩, hrule, happ⟩
        · rw [hb] at hb'
          cases hb'
      · exact hcovered c hc cn hcn hb rule hrule p hp happ)
    refine ⟨routeHasQuotaBackend_of_mem_policiesForRoute hmem, hmem, ?_⟩
    obtain ⟨q, hq, hroute, m, quota, hpmq, hl, hm⟩ :=
      hlimits ⟨c, hc, cn, hcn, rule, hrule, p, hp, happ⟩
    have hcollected := (authorizedCopy_mem_policiesForRoute hnames huid hq action).mpr hroute
    exact routeEntries_ne_nil_iff.mpr ⟨⟨authorizedCopy s q, m, quota⟩,
      mem_applicableQuotas_iff_usesModel.mpr ⟨hcollected, hpmq, hm⟩, hl⟩

/-- The AIGatewayRoute `default/r` with one rule, whose only backend is `b`. -/
def oneRefStore : Store :=
  { Store.empty with
    aiGatewayRoutes := [⟨⟨"default", "r"⟩, false, [⟨none, [localRef "b"], [], none⟩]⟩] }

/-- A service quota of ten tokens on the backend `default/b`. -/
def quotaOfB : QuotaPolicy where
  key := ⟨"default", "q"⟩
  uid := "u"
  deleting := false
  targetRefs := [⟨"", "", "b", none⟩]
  serviceQuota := ⟨10, "1h", none⟩
  perModelQuotas := []

/-- The same with ten tokens for the model `m`. -/
def modelQuotaOfB : QuotaPolicy :=
  { quotaOfB with perModelQuotas := [⟨some "m", ⟨⟨10, "1h", none⟩, []⟩⟩] }

theorem quotaOfB_appliesTo : AppliesTo oneRefStore quotaOfB "default" ⟨none, [localRef "b"], [], none⟩ :=
  ⟨rfl, localRef "b", mem_singleton_self _, _, mem_singleton_self _, rfl, rfl, rfl⟩

/-- The per-backend cluster of the only backendRef is recognised, yet the route is no
quota route and its policy is not collected.  Behind the per-rule cluster the policy is collected,
but a service quota gives no entries. -/
theorem collectsEveryPolicy_fails_on_backend_cluster :
    (parseAIGatewayClusterName "httproute/default/r/rule/0/backend/0" =
        .ok ⟨"default", "r", 0, some 0⟩ ∧
      routeHasQuotaBackend oneRefStore (.cluster "httproute/default/r/rule/0/backend/0")
        (buildQuotaBackendPolicies (authorizedQuotaPolicies oneRefStore [modelQuotaOfB])) = false ∧
      ¬ CollectsEveryPolicy .insertion oneRefStore [modelQuotaOfB]
        (.cluster "httproute/default/r/rule/0/backend/0")) ∧
    (let m := buildQuotaBackendPolicies (authorizedQuotaPolicies oneRefStore [quotaOfB])
     let action := RouteAction.cluster "httproute/default/r/rule/0"
     policiesForRoute oneRefStore action m = [quotaOfB] ∧
      routeEntries .insertion [quotaOfB] (resolveRouteModelInfo oneRefStore action) = [] ∧
      ¬ CollectsEveryPolicy .insertion oneRefStore [quotaOfB] action) := by
  refine ⟨⟨by decide, by decide, ?_⟩, by decide, by decide, ?_⟩
  · intro h
    have hroute := (h "httproute/default/r/rule/0/backend/0" (by decide) ⟨"default", "r", 0, some 0⟩
      (by decide) ⟨none, [localRef "b"], [], none⟩ (by decide) modelQuotaOfB (by decide)
      quotaOfB_appliesTo).1
    exact absurd hroute (by decide)
  · intro h
    have hentries := (h "httproute/default/r/rule/0" (by decide) ⟨"default", "r", 0, none⟩
      (by decide) ⟨none, [localRef "b"], [], none⟩ (by decide) quotaOfB (by decide)
      quotaOfB_appliesTo).2.2
    exact absurd hentries (by decide)

/-- The per-rule cluster of the same rule gets the policy, and the route its entries. -/
theorem collectsEveryPolicy_of_rule_cluster :
    CollectsEveryPolicy .insertion oneRefStore [modelQuotaOfB]
        (.cluster "httproute/default/r/rule/0") ∧
      routeEntries .insertion [modelQuotaOfB]
        (resolveRouteModelInfo oneRefStore (.cluster "httproute/default/r/rule/0")) ≠ [] := by
  refine ⟨(collectsEveryPolicy_iff .insertion oneRefStore [modelQuotaOfB] _ ⟨by decide, by decide⟩
    (by decide)).mpr ⟨?_, fun _ => ?_⟩, by decide⟩
  · intro c hc cn hcn hb
    have hc' : c = "httproute/default/r/rule/0" := by simpa [RouteAction.clusters] using hc
    rw [hc'] at hcn
    cases hcn
    exact absurd rfl hb
  · refine ⟨modelQuotaOfB, by decide, ⟨"httproute/default/r/rule/0", by decide,
      ⟨"default", "r", 0, none⟩, ⟨none, [localRef "b"], [], none⟩, ⟨"rule", "0", by decide, by decide⟩,
      by decide, quotaOfB_appliesTo⟩, "m", ⟨⟨10, "1h", none⟩, []⟩, by decide, .inr (by decide), .inl ?_⟩
    exact resolveRouteModelInfo_eq_none_iff.mp (by decide)

/-! ## Targets that the route does not use -/

/-- The rule of `default/r` references `b` with the override `m`. -/
def overrideStore : Store :=
  { Store.empty with
    aiGatewayRoutes := [⟨⟨"default", "r"⟩, false,
      [⟨none, [{ localRef "b" with modelNameOverride := "m" }], [], none⟩]⟩] }

/-- A quota of ten tokens an hour for the model `m` on the backends `b` and `c`. -/
def twoTargetsQuota : QuotaPolicy where
  key := ⟨"default", "q"⟩
  uid := "u"
  deleting := false
  targetRefs := [⟨"", "", "b", none⟩, ⟨"", "", "c", none⟩]
  serviceQuota := ⟨0, "1h", none⟩
  perModelQuotas := [⟨some "m", ⟨⟨10, "1h", none⟩, []⟩⟩]

/-- The route never uses `c`, but its second entry names it. -/
theorem namesOnlyReferenced_fails_on_second_target :
    (routeEntries .insertion [twoTargetsQuota]
      (resolveRouteModelInfo overrideStore (.cluster "httproute/default/r/rule/0"))).map
        (fun e => (e.actions, e.applyOnStreamDone)) =
      [(requestTimeBaseActions "default" "b" "m", false),
        (requestTimeBaseActions "default" "c" "m", false), (baseDescriptorActions, true)] ∧
    ¬ NamesOnlyReferenced .insertion overrideStore (.cluster "httproute/default/r/rule/0")
      [twoTargetsQuota] := by
  refine ⟨by decide, ?_⟩
  intro h
  obtain ⟨c, hc, info, hinfo, ref, href, hkey, -⟩ := h
    ⟨requestTimeBaseActions "default" "c" "m", zeroQuotaHitsAddend, none, false⟩ (by decide) rfl
    "default/c" "m" ⟨[], rfl⟩
  have hc' : c = "httproute/default/r/rule/0" := by simpa [RouteAction.clusters] using hc
  rw [hc'] at hinfo
  cases hinfo
  obtain rfl := mem_singleton.mp href
  exact absurd hkey (by decide)

end AgentRouter.Quota
