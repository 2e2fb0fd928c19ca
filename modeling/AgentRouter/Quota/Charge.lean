import AgentRouter.Quota.Service

/-!
# Charge: which limits a request checks and which it is charged to

Envoy turns every rate-limit entry all of whose actions apply into a list of labels,
and the rate-limit service looks that list up in its tree.  The request-time entries
that name a backend and a model check the limits they reach; the stream-done entries
charge the limits that they reach once the response says who served the request.

    charged limits = checked limits
      ↔ the rule-free quotas agree and the rules agree   (charges_checked_iff)

The two sides can differ because a stream-done entry ignores the inversion of a
header match, and because it is shared by all rules of the route with the same keys.
-/

namespace AgentRouter.Quota

open List hiding splitOn

open Kube Text Forest

/-! ## Envoy and the rate-limit service -/

/-- A request, with the backend and the model override that served it, as the external
processor writes them into the metadata. -/
structure Exchange where
  headers : String → Option String
  backend : String
  model : String

/-- The dynamic metadata at the end of the stream; what is not set reads as empty. -/
def Exchange.metadata (x : Exchange) (ns path : String) : String :=
  if ns = "io.envoy.ai_gateway" then
    if path = "ai_service_backend_name" then x.backend
    else if path = "model_name_override" then x.model
    else ""
  else ""

section Envoy

variable (regexMatches : String → String → Bool) (x : Exchange)

def StringMatcher.matches (value : String) : StringMatcher → Bool
  | .exact v => value = v
  | .safeRegex r => regexMatches r value

/-- A header matcher never matches a header that is absent. -/
def headerMatches (name : String) (sm : StringMatcher) : Bool :=
  match x.headers name with
  | none => false
  | some value => sm.matches regexMatches value

/-- The label an action adds to the descriptor; `none` drops the whole entry. -/
def Action.entry : Action → Option Label
  | .genericKey k v => some (k, v)
  | .metadata k ns path => if x.metadata ns path = "" then none else some (k, x.metadata ns path)
  | .requestHeaders name k => (x.headers name).map (k, ·)
  | .headerValueMatch k v expectMatch name sm =>
    if headerMatches regexMatches x name sm = expectMatch then some (k, v) else none

def descriptorOf (actions : List Action) : Option (List Label) :=
  actions.mapM (Action.entry regexMatches x)

/-- The same key with the value left open. -/
def unset (l : Label) : Label := (l.1, "")

/-- The limits that entries reach: the service takes the exact node at each level, or
else the one without a value. -/
def limitsHit (tree : List Descriptor) (entries : List RateLimit) : List (List Label) :=
  entries.filterMap fun e =>
    (descriptorOf regexMatches x e.actions).bind fun labels =>
      let path := descend (nodePaths tree) unset [] labels
      if path ∈ limitPaths tree then some path else none

end Envoy

instance (e : RateLimit) (b m : String) : Decidable (e.Names b m) :=
  decidable_of_iff (e.actions.take 2 =
      [.genericKey backendNameDescriptorKey b, .genericKey modelNameDescriptorKey m]) (by
    unfold RateLimit.Names
    constructor
    · intro h
      refine ⟨e.actions.drop 2, ?_⟩
      rw [← take_append_drop 2 e.actions, h]
      rfl
    · rintro ⟨rest, h⟩
      rw [h]
      rfl)

/-- The limits that the request-time entries for the serving backend and model check. -/
def checkedLimits (regexMatches : String → String → Bool) (x : Exchange) (tree : List Descriptor)
    (entries : List RateLimit) : List (List Label) :=
  limitsHit regexMatches x tree
    (entries.filter fun e => e.applyOnStreamDone = false ∧ e.Names x.backend x.model)

/-- The limits that the stream-done entries charge. -/
def chargedLimits (regexMatches : String → String → Bool) (x : Exchange) (tree : List Descriptor)
    (entries : List RateLimit) : List (List Label) :=
  limitsHit regexMatches x tree (entries.filter fun e => e.applyOnStreamDone)

/-- Below the serving backend and model, the request is charged to the limits it checked. -/
def ChargesChecked (regexMatches : String → String → Bool) (x : Exchange) (tree : List Descriptor)
    (entries : List RateLimit) : Prop :=
  ∀ path, basePath x.backend x.model ++ path ∈ chargedLimits regexMatches x tree entries ↔
    basePath x.backend x.model ++ path ∈ checkedLimits regexMatches x tree entries

/-! ## When the two agree -/

/-- The request satisfies a header match, with its inversion or without. -/
def HeaderMatch.selects (regexMatches : String → String → Bool) (x : Exchange) (invert : Bool)
    (h : HeaderMatch) : Bool :=
  if h.type = some .distinct then (x.headers h.name).isSome
  else
    headerMatches regexMatches x h.name (buildStringMatcher h) =
      (!(invert && h.invert = some true))

/-- The request satisfies all header matches of a rule. -/
def QuotaRule.selects (regexMatches : String → String → Bool) (x : Exchange) (invert : Bool)
    (r : QuotaRule) : Bool :=
  r.clientSelectors.flatten.all (HeaderMatch.selects regexMatches x invert)

/-- The labels a rule sends: its keys, with the request's own value for distinct matches. -/
def sentLabels (x : Exchange) (σ : HeaderSort) (ruleIndex : Nat) (rule : QuotaRule) : List Label :=
  let headers := flattenAndSortHeaders σ rule.clientSelectors
  if headers = [] then
    let key := bucketRuleDescriptorKey ruleIndex 0 "" ""
    [(key, key)]
  else
    headers.zipIdx.map fun h =>
      let key := bucketRuleDescriptorKey ruleIndex h.2 h.1.name (headerMatchKeyValue h.1)
      (key, if h.1.type = some .distinct then (x.headers h.1.name).getD "" else key)

/-- A rule of a quota with its index. -/
abbrev IndexedRule := QuotaRule × Nat

/-- The rules on the route, in the order of the loop. -/
def routeRules (xs : List ModelQuota) : List IndexedRule :=
  xs.flatMap fun q => q.quota.bucketRules.zipIdx

/-- The rule whose stream-done entry stands for all rules with its key. -/
def leadingRule (σ : HeaderSort) (xs : List ModelQuota) (key : String) : Option IndexedRule :=
  (routeRules xs).find? fun r => ruleStreamDoneKey σ r.2 r.1 = key

section Agree

variable (regexMatches : String → String → Bool) (x : Exchange) (σ : HeaderSort)
  (tree : List Descriptor) (xs : List ModelQuota)

/-- The quota is for the serving backend and model. -/
def ModelQuota.Serves (q : ModelQuota) : Prop :=
  Targets q.policy x.backend ∧ q.modelName = x.model

/-- The rule selects the request and its labels lead to the path of `r0`. -/
def LandsOn (invert : Bool) (r r0 : IndexedRule) : Prop :=
  r.1.selects regexMatches x invert = true ∧
    descend (nodePaths tree) unset (basePath x.backend x.model) (sentLabels x σ r.2 r.1) =
      ruleLabels σ r0.2 r0.1

/-- If the serving backend and model have a rule-free limit, and any quota of the route
is rule-free and positive, then so is one of theirs. -/
def RuleFreeAgree : Prop :=
  (∃ q ∈ xs, q.Serves x ∧ Translates σ q.policy ∧ q.quota.bucketRules = []) →
    (∃ q ∈ xs, q.quota.bucketRules = [] ∧ 0 < q.quota.defaultBucket.limit) →
      ∃ q ∈ xs, q.Serves x ∧ q.quota.bucketRules = [] ∧ 0 < q.quota.defaultBucket.limit

/-- For every rule of the serving backend and model: some rule of theirs selects the
request onto its path exactly when the leading rule does, inversions left aside. -/
def RulesAgree : Prop :=
  ∀ q0 ∈ xs, q0.Serves x → Translates σ q0.policy → ∀ r0 ∈ q0.quota.bucketRules.zipIdx,
    ((∃ q ∈ xs, q.Serves x ∧ ∃ r ∈ q.quota.bucketRules.zipIdx,
        LandsOn regexMatches x σ tree true r r0) ↔
      ∃ r, leadingRule σ xs (ruleStreamDoneKey σ r0.2 r0.1) = some r ∧
        LandsOn regexMatches x σ tree false r r0)

end Agree

/-! ## Lemmas -/

/-- The key an action sends. -/
def Action.key : Action → String
  | .genericKey k _ => k
  | .metadata k _ _ => k
  | .requestHeaders _ k => k
  | .headerValueMatch k _ _ _ _ => k

section Envoy

variable {regexMatches : String → String → Bool} {x : Exchange}

theorem mapM_option_ite {α β : Type} (p : α → Bool) (f : α → β) (l : List α) :
    (l.mapM fun a => if p a = true then some (f a) else none) =
      if l.all p = true then some (l.map f) else none := by
  induction l with
  | nil => rfl
  | cons a l ih =>
    rw [mapM_cons, ih]
    by_cases hp : p a = true
    · by_cases hl : l.all p = true
      · simp [hp, hl]
      · simp [hp, hl]
    · simp [hp]

theorem entry_headerAction (invert : Bool) (i j : Nat) (h : HeaderMatch) :
    (headerAction (!(invert && h.invert = some true)) i j h).entry regexMatches x =
      if h.selects regexMatches x invert = true then
        some (bucketRuleDescriptorKey i j h.name (headerMatchKeyValue h),
          if h.type = some .distinct then (x.headers h.name).getD ""
          else bucketRuleDescriptorKey i j h.name (headerMatchKeyValue h))
      else none := by
  unfold headerAction HeaderMatch.selects
  by_cases hd : h.type = some .distinct
  · simp only [hd, if_true, Action.entry]
    cases x.headers h.name with
    | none => simp
    | some v => simp
  · simp [hd, Action.entry]

theorem descriptorOf_selectorActions (invert : Bool) (σ : HeaderSort) (i : Nat) (r : QuotaRule) :
    descriptorOf regexMatches x (selectorActions
        (fun i j h => headerAction (!(invert && h.invert = some true)) i j h) σ i
        r.clientSelectors) =
      if r.selects regexMatches x invert = true then some (sentLabels x σ i r) else none := by
  have hperm : (flattenAndSortHeaders σ r.clientSelectors).Perm r.clientSelectors.flatten :=
    σ.perm _
  unfold descriptorOf selectorActions sentLabels QuotaRule.selects
  by_cases hnil : flattenAndSortHeaders σ r.clientSelectors = []
  · have hflat : r.clientSelectors.flatten = [] := by
      rw [hnil] at hperm
      exact hperm.symm.eq_nil
    rw [if_pos hnil, if_pos hnil, hflat]
    rfl
  · rw [if_neg hnil, if_neg hnil, mapM_map]
    simp only [Function.comp_def, entry_headerAction]
    have hall : ((flattenAndSortHeaders σ r.clientSelectors).zipIdx.all fun h =>
        h.1.selects regexMatches x invert) =
        r.clientSelectors.flatten.all (HeaderMatch.selects regexMatches x invert) := by
      rw [← hperm.all_eq, ← zipIdx_map_fst 0 (flattenAndSortHeaders σ r.clientSelectors),
        all_map, zipIdx_map_fst]
      rfl
    rw [← hall]
    exact mapM_option_ite _ _ _

theorem buildHeaderMatchAction_eq : buildHeaderMatchAction =
    fun i j h => headerAction (!(true && h.invert = some true)) i j h := by
  funext i j h
  simp [buildHeaderMatchAction]

theorem buildStreamDoneHeaderMatchAction_eq : buildStreamDoneHeaderMatchAction =
    fun i j h => headerAction (!(false && h.invert = some true)) i j h := by
  funext i j h
  simp [buildStreamDoneHeaderMatchAction]

theorem descriptorOf_cons (a : Action) (as : List Action) :
    descriptorOf regexMatches x (a :: as) = (a.entry regexMatches x).bind fun l =>
      (descriptorOf regexMatches x as).map (l :: ·) := by
  unfold descriptorOf
  rw [mapM_cons]
  cases a.entry regexMatches x with
  | none => rfl
  | some l =>
    cases as.mapM (Action.entry regexMatches x) with
    | none => rfl
    | some ls => rfl

theorem descriptorOf_request (b m : String) (as : List Action) :
    descriptorOf regexMatches x (.genericKey backendNameDescriptorKey b ::
        .genericKey modelNameDescriptorKey m :: as) =
      (descriptorOf regexMatches x as).map (basePath b m ++ ·) := by
  rw [descriptorOf_cons, descriptorOf_cons]
  cases descriptorOf regexMatches x as with
  | none => rfl
  | some ls => rfl

theorem descriptorOf_streamDone (hb : x.backend ≠ "") (hm : x.model ≠ "") (as : List Action) :
    descriptorOf regexMatches x (baseDescriptorActions ++ as) =
      (descriptorOf regexMatches x as).map (basePath x.backend x.model ++ ·) := by
  unfold baseDescriptorActions
  rw [cons_append, cons_append, nil_append, descriptorOf_cons, descriptorOf_cons]
  have hmeta : x.metadata "io.envoy.ai_gateway" "ai_service_backend_name" = x.backend := rfl
  have hmodel : x.metadata "io.envoy.ai_gateway" "model_name_override" = x.model := rfl
  simp only [Action.entry, hmeta, hmodel, if_neg hb, if_neg hm]
  cases descriptorOf regexMatches x as with
  | none => rfl
  | some ls => rfl

theorem entry_key {a : Action} {l : Label} (h : a.entry regexMatches x = some l) : l.1 = a.key := by
  cases a with
  | genericKey k v =>
    cases h
    rfl
  | metadata k ns path =>
    rw [Action.entry] at h
    split at h
    · cases h
    · cases h
      rfl
  | requestHeaders name k =>
    obtain ⟨v, -, rfl⟩ := Option.map_eq_some_iff.mp h
    rfl
  | headerValueMatch k v e name sm =>
    rw [Action.entry] at h
    split at h
    · cases h
      rfl
    · cases h

theorem descriptorOf_keys (as : List Action) {ls : List Label}
    (h : descriptorOf regexMatches x as = some ls) : ls.map Prod.fst = as.map Action.key := by
  induction as generalizing ls with
  | nil =>
    cases h
    rfl
  | cons a as ih =>
    rw [descriptorOf_cons] at h
    obtain ⟨l, hl, h⟩ := Option.bind_eq_some_iff.mp h
    obtain ⟨ls', hls', rfl⟩ := Option.map_eq_some_iff.mp h
    rw [map_cons, map_cons, entry_key hl, ih hls']

theorem mem_limitsHit {tree : List Descriptor} {es : List RateLimit} {path : List Label} :
    path ∈ limitsHit regexMatches x tree es ↔ path ∈ limitPaths tree ∧
      ∃ e ∈ es, ∃ ls, descriptorOf regexMatches x e.actions = some ls ∧
        descend (nodePaths tree) unset [] ls = path := by
  unfold limitsHit
  rw [mem_filterMap]
  constructor
  · rintro ⟨e, he, h⟩
    obtain ⟨ls, hls, h⟩ := Option.bind_eq_some_iff.mp h
    dsimp only at h
    split at h
    · next hmem =>
      cases h
      exact ⟨hmem, e, he, ls, hls, rfl⟩
    · cases h
  · rintro ⟨hmem, e, he, ls, hls, rfl⟩
    refine ⟨e, he, ?_⟩
    rw [hls, Option.bind_some]
    rw [if_pos hmem]

theorem descend_basePath {tree : List Descriptor} {b m : String} {path : List Label}
    (h : basePath b m ++ path ∈ limitPaths tree) (ls : List Label) :
    descend (nodePaths tree) unset [] (basePath b m ++ ls) = basePath b m ++ path ↔
      descend (nodePaths tree) unset (basePath b m) ls = path := by
  have h1 : [] ++ [(backendNameDescriptorKey, b)] ∈ nodePaths tree :=
    nodePaths_of_append [(backendNameDescriptorKey, b)] ((modelNameDescriptorKey, m) :: path) h (by simp)
  have h2 : [(backendNameDescriptorKey, b)] ++ [(modelNameDescriptorKey, m)] ∈ nodePaths tree :=
    nodePaths_of_append (basePath b m) path h (by simp [basePath])
  unfold basePath
  rw [cons_append, cons_append, descend_cons_of_mem h1, nil_append, descend_cons_of_mem h2]
  simp

end Envoy

/-! ## Keys -/

/-- No rule has the key of a default bucket: one ends in `match-` and a number, the other
in `match--1`. -/
theorem bucketRuleDescriptorKey_ne_default (i j n : Nat) (name value : String) :
    bucketRuleDescriptorKey i j name value ≠ defaultBucketDescriptorKey n := by
  have hkey : ∃ a, bucketRuleDescriptorKey i j name value =
      a ++ String.singleton '-' ++ "match" ++ String.singleton '-' ++ j.repr := by
    unfold bucketRuleDescriptorKey
    split
    · exact ⟨"rule-" ++ i.repr, by simp [String.append_assoc]⟩
    · split
      · exact ⟨"rule-" ++ i.repr ++ "-" ++ name, by simp [String.append_assoc]⟩
      · exact ⟨"rule-" ++ i.repr ++ "-" ++ name ++ "|" ++ value, by simp [String.append_assoc]⟩
  have hdefault : defaultBucketDescriptorKey n =
      ("rule-" ++ n.repr ++ "-match") ++ String.singleton '-' ++ "" ++ String.singleton '-' ++
        Nat.repr 1 := by
    simp [defaultBucketDescriptorKey, String.append_assoc]
    rfl
  obtain ⟨a, ha⟩ := hkey
  intro he
  rw [ha, hdefault] at he
  have hsplit := congrArg (splitOn '-') he
  rw [splitOn_append, splitOn_append, splitOn_append, splitOn_append,
    splitOn_free (free_repr (by decide) j)] at hsplit
  have hfront := append_inj_left' hsplit rfl
  have hlast := congrArg List.getLast? hfront
  rw [getLast?_append, getLast?_append] at hlast
  exact absurd (show some "match" = some "" from hlast) (by decide)

theorem defaultBucketDescriptorKey_inj {n n' : Nat}
    (h : defaultBucketDescriptorKey n = defaultBucketDescriptorKey n') : n = n' := by
  unfold defaultBucketDescriptorKey at h
  have hl := congrArg String.toList h
  simp only [String.toList_append] at hl
  exact repr_inj (String.toList_inj.mp (append_cancel_left (append_cancel_right hl)))

/-- The keys of a rule's nodes, and of the actions of its entries. -/
def ruleKeys (σ : HeaderSort) (r : IndexedRule) : List String :=
  (ruleLabels σ r.2 r.1).map Prod.fst

variable {σ : HeaderSort}

theorem selectorActions_keys {e : HeaderMatch → Bool} (r : IndexedRule) :
    (selectorActions (fun i j h => headerAction (e h) i j h) σ r.2 r.1.clientSelectors).map
      Action.key = ruleKeys σ r := by
  unfold selectorActions ruleKeys ruleLabels
  dsimp only
  split
  · rfl
  · rw [map_map, map_map]
    refine map_congr_left fun h _ => ?_
    simp only [Function.comp_apply, headerAction]
    split
    · rfl
    · rfl

theorem ruleKeys_ne_nil {r : IndexedRule} : ruleKeys σ r ≠ [] := by
  unfold ruleKeys ruleLabels
  dsimp only
  split
  · simp
  · next h => simpa using h

theorem ruleKeys_ne_default {r : IndexedRule} {n : Nat} : ruleKeys σ r ≠ [defaultBucketDescriptorKey n] := by
  intro hkeys
  have hmem : defaultBucketDescriptorKey n ∈ ruleKeys σ r := hkeys ▸ mem_singleton_self _
  revert hmem
  unfold ruleKeys ruleLabels
  dsimp only
  split
  · rw [map_singleton, mem_singleton]
    exact (bucketRuleDescriptorKey_ne_default r.2 0 n "" "").symm
  · rw [map_map]
    intro h
    obtain ⟨h', -, he⟩ := mem_map.mp h
    exact bucketRuleDescriptorKey_ne_default _ _ _ _ _ he

theorem ruleStreamDoneKey_eq (r : IndexedRule) :
    ruleStreamDoneKey σ r.2 r.1 = (ruleKeys σ r).foldl (fun acc k => acc ++ "|" ++ k) "" := by
  unfold ruleStreamDoneKey ruleKeys ruleLabels
  dsimp only
  split
  · simp
  · rw [foldl_map, foldl_map]

theorem ruleStreamDoneKey_head (r : IndexedRule) : (ruleStreamDoneKey σ r.2 r.1).toList.head? = some '|' := by
  rw [ruleStreamDoneKey_eq]
  have hfold : ∀ (ks : List String) (acc : String), acc.toList.head? = some '|' →
      (ks.foldl (fun acc k => acc ++ "|" ++ k) acc).toList.head? = some '|' := by
    intro ks
    induction ks with
    | nil => exact fun _ h => h
    | cons k ks ih =>
      intro acc h
      refine ih _ ?_
      rw [String.toList_append, String.toList_append, head?_append, head?_append, h]
      rfl
  cases hks : ruleKeys σ r with
  | nil => exact absurd hks ruleKeys_ne_nil
  | cons k ks =>
    refine hfold ks _ ?_
    rw [String.toList_append]
    rfl

theorem ruleStreamDoneKey_ne (r : IndexedRule) :
    ruleStreamDoneKey σ r.2 r.1 ≠ simpleStreamDoneKey ∧
      ∀ n, ruleStreamDoneKey σ r.2 r.1 ≠ defaultBucketDescriptorKey n := by
  have hhead := @ruleStreamDoneKey_head σ r
  constructor
  · intro he
    rw [he] at hhead
    exact absurd hhead (by decide)
  · intro n he
    rw [he, defaultBucketDescriptorKey, String.toList_append, String.toList_append] at hhead
    exact absurd (show some 'r' = some '|' from hhead) (by decide)

theorem simpleStreamDoneKey_ne (n : Nat) : simpleStreamDoneKey ≠ defaultBucketDescriptorKey n := by
  intro he
  have hhead := congrArg (fun s => s.toList.head?) he
  rw [defaultBucketDescriptorKey] at hhead
  simp only [String.toList_append, head?_append] at hhead
  exact absurd (show some '_' = some 'r' from hhead) (by decide)

/-! ## Entries that reach a path -/

theorem mem_quotaActions {act : Nat → Nat → HeaderMatch → Action} {q : QuotaDefinition} {as : List Action} :
    as ∈ quotaActions act σ q ↔ (q.bucketRules = [] ∧ 0 < q.defaultBucket.limit ∧ as = []) ∨
      (∃ r ∈ q.bucketRules.zipIdx, as = selectorActions act σ r.2 r.1.clientSelectors) ∨
      (q.bucketRules ≠ [] ∧ 0 < q.defaultBucket.limit ∧ as = [defaultBucketAction q]) := by
  unfold quotaActions
  by_cases hr : q.bucketRules = []
  · by_cases hl : 0 < q.defaultBucket.limit
    · simp [hr, hl]
    · simp [hr, hl]
  · by_cases hl : 0 < q.defaultBucket.limit
    · simp [hr, hl, eq_comm]
    · simp [hr, hl, eq_comm]

theorem mem_quotaLimitPaths {q : QuotaDefinition} {path : List Label} :
    path ∈ quotaLimitPaths σ q ↔ (q.bucketRules = [] ∧ path = []) ∨
      (∃ r ∈ q.bucketRules.zipIdx, path = ruleLabels σ r.2 r.1) ∨
      (q.bucketRules ≠ [] ∧ 0 < q.defaultBucket.limit ∧
        path = [(defaultBucketDescriptorKey q.bucketRules.length,
          defaultBucketDescriptorKey q.bucketRules.length)]) := by
  unfold quotaLimitPaths
  by_cases hr : q.bucketRules = []
  · simp [hr]
  · by_cases hl : 0 < q.defaultBucket.limit
    · simp [hr, hl, eq_comm]
    · simp [hr, hl, eq_comm]

variable {q : ModelQuota}

theorem mem_streamDoneRequests {r : StreamDoneRequest} (h : r ∈ streamDoneRequests σ q) :
    (q.quota.bucketRules = [] ∧ 0 < q.quota.defaultBucket.limit ∧ r.1 = simpleStreamDoneKey ∧ r.2.1 = []) ∨
      (∃ r' ∈ q.quota.bucketRules.zipIdx, r.1 = ruleStreamDoneKey σ r'.2 r'.1 ∧
        r.2.1 = buildClientSelectorStreamDoneActions σ r'.2 r'.1.clientSelectors) ∨
      (r.1 = defaultBucketDescriptorKey q.quota.bucketRules.length ∧
        r.2.1 = [defaultBucketAction q.quota]) := by
  unfold streamDoneRequests at h
  split at h
  · next hr =>
    split at h
    · next hl =>
      obtain rfl := mem_singleton.mp h
      exact .inl ⟨hr, hl, rfl, rfl⟩
    · cases h
  · rcases mem_append.mp h with h | h
    · obtain ⟨r', hr', rfl⟩ := mem_map.mp h
      exact .inr (.inl ⟨r', hr', rfl, rfl⟩)
    · split at h
      · obtain rfl := mem_singleton.mp h
        exact .inr (.inr ⟨rfl, rfl⟩)
      · cases h

/-- The request that a rule makes for a stream-done entry. -/
def ruleRequest (σ : HeaderSort) (r : IndexedRule) : StreamDoneRequest :=
  (ruleStreamDoneKey σ r.2 r.1, buildClientSelectorStreamDoneActions σ r.2 r.1.clientSelectors,
    r.1.quota)

theorem find?_streamDoneRequests (xs : List ModelQuota) (r0 : IndexedRule) :
    (xs.flatMap (streamDoneRequests σ)).find? (fun r => r.1 = ruleStreamDoneKey σ r0.2 r0.1) =
      (leadingRule σ xs (ruleStreamDoneKey σ r0.2 r0.1)).map (ruleRequest σ) := by
  obtain ⟨hsimple, hdefault⟩ := @ruleStreamDoneKey_ne σ r0
  unfold leadingRule routeRules
  rw [find?_flatMap, find?_flatMap, map_findSome?]
  congr 1
  funext q
  rw [Function.comp_apply]
  unfold streamDoneRequests
  split
  · next hr =>
    rw [hr]
    split
    · simp [simpleStreamDone, hsimple.symm]
    · rfl
  · unfold bucketStreamDone
    rw [find?_append, find?_map]
    have hnone : (if 0 < q.quota.defaultBucket.limit then
        [(defaultBucketDescriptorKey q.quota.bucketRules.length, [defaultBucketAction q.quota],
          q.quota.defaultBucket)] else ([] : List StreamDoneRequest)).find?
        (fun r => r.1 = ruleStreamDoneKey σ r0.2 r0.1) = none := by
      split
      · simp [(hdefault _).symm]
      · rfl
    rw [hnone, Option.or_none]
    rfl

section Reach

variable (regexMatches : String → String → Bool) (x : Exchange) (tree : List Descriptor)

/-- What the actions send leads to the path below the serving backend and model. -/
def Reaches (as : List Action) (path : List Label) : Prop :=
  ∃ ls, descriptorOf regexMatches x as = some ls ∧
    descend (nodePaths tree) unset (basePath x.backend x.model) ls = path

variable {regexMatches x tree} {σ : HeaderSort}

theorem Reaches.keys {as : List Action} {path : List Label}
    (h : Reaches regexMatches x tree as path) : as.map Action.key = path.map Prod.fst := by
  obtain ⟨ls, hls, rfl⟩ := h
  have hfst : ∀ l : Label, (unset l).1 = l.1 := fun _ => rfl
  rw [← descriptorOf_keys as hls]
  exact (map_descend hfst ls _).symm

theorem reaches_rule_iff {invert : Bool} {r r0 : IndexedRule} :
    Reaches regexMatches x tree (selectorActions
        (fun i j h => headerAction (!(invert && h.invert = some true)) i j h) σ r.2
        r.1.clientSelectors) (ruleLabels σ r0.2 r0.1) ↔
      LandsOn regexMatches x σ tree invert r r0 := by
  unfold Reaches LandsOn
  rw [descriptorOf_selectorActions]
  by_cases hs : r.1.selects regexMatches x invert = true
  · simp [hs]
  · simp [hs]

variable {path : List Label}
  (hpath : basePath x.backend x.model ++ path ∈ limitPaths tree)

include hpath in
theorem reaches_default {n : Nat} (q : QuotaDefinition) (hn : q.bucketRules.length = n)
    (hp : path = [(defaultBucketDescriptorKey n, defaultBucketDescriptorKey n)]) :
    Reaches regexMatches x tree [defaultBucketAction q] path := by
  subst hn
  refine ⟨[(defaultBucketDescriptorKey q.bucketRules.length,
    defaultBucketDescriptorKey q.bucketRules.length)], rfl, ?_⟩
  rw [hp, descend_cons_of_mem]
  · rfl
  · rw [hp] at hpath
    exact nodePaths_of_append _ [] (by exact hpath) (by simp)

variable {modelInfo : Option (GoMap String (List String))} {policies : List QuotaPolicy}

include hpath in
theorem mem_checkedLimits :
    basePath x.backend x.model ++ path ∈
        checkedLimits regexMatches x tree (routeEntries σ policies modelInfo) ↔
      ∃ q ∈ applicableQuotas policies modelInfo, q.Serves x ∧
        ∃ as ∈ quotaActions buildHeaderMatchAction σ q.quota, Reaches regexMatches x tree as path := by
  unfold checkedLimits
  rw [mem_limitsHit]
  constructor
  · rintro ⟨-, e, he, ls, hls, hd⟩
    rw [mem_filter, decide_eq_true_iff] at he
    obtain ⟨he, hdone, rest, hnames⟩ := he
    obtain ⟨q, hq, heq⟩ := mem_routeEntries_request.mp ⟨he, hdone⟩
    obtain ⟨t, ht, as, has, hact⟩ := mem_requestEntries.mp ⟨e, heq, hnames⟩
    obtain ⟨hb, hrest⟩ := List.cons.inj hact
    obtain ⟨hm, rfl⟩ := List.cons.inj hrest
    refine ⟨q, hq, ⟨⟨t, ht, (Action.genericKey.inj hb).2.symm⟩, (Action.genericKey.inj hm).2.symm⟩,
      rest, has, ?_⟩
    rw [hnames, descriptorOf_request] at hls
    obtain ⟨ls', hls', rfl⟩ := Option.map_eq_some_iff.mp hls
    exact ⟨ls', hls', (descend_basePath hpath ls').mp hd⟩
  · rintro ⟨q, hq, ⟨⟨t, ht, hb⟩, hm⟩, as, has, ls, hls, hd⟩
    obtain ⟨e, he, hact⟩ := (@mem_requestEntries σ (modelInfo.getD ∅) _ q).mpr ⟨t, ht, as, has, rfl⟩
    obtain ⟨hmem, hdone⟩ := mem_routeEntries_request.mpr ⟨q, hq, he⟩
    rw [hb, hm] at hact
    refine ⟨hpath, e, ?_, basePath x.backend x.model ++ ls, ?_, (descend_basePath hpath ls).mpr hd⟩
    · rw [mem_filter, decide_eq_true_iff]
      exact ⟨hmem, hdone, as, hact⟩
    · rw [hact, descriptorOf_request, hls]
      rfl

include hpath in
theorem mem_chargedLimits (hb : x.backend ≠ "") (hm : x.model ≠ "") :
    basePath x.backend x.model ++ path ∈
        chargedLimits regexMatches x tree (routeEntries σ policies modelInfo) ↔
      ∃ k r, ((applicableQuotas policies modelInfo).flatMap (streamDoneRequests σ)).find?
          (fun r => r.1 = k) = some r ∧ Reaches regexMatches x tree r.2.1 path := by
  unfold chargedLimits
  rw [mem_limitsHit]
  constructor
  · rintro ⟨-, e, he, ls, hls, hd⟩
    obtain ⟨he, hdone⟩ := mem_filter.mp he
    obtain ⟨k, r, hr, hact⟩ := mem_routeEntries_streamDone.mp ⟨e, he, hdone, rfl⟩
    rw [hact, descriptorOf_streamDone hb hm] at hls
    obtain ⟨ls', hls', rfl⟩ := Option.map_eq_some_iff.mp hls
    exact ⟨k, r, hr, ls', hls', (descend_basePath hpath ls').mp hd⟩
  · rintro ⟨k, r, hr, ls, hls, hd⟩
    obtain ⟨e, he, hdone, hact⟩ := mem_routeEntries_streamDone.mpr ⟨k, r, hr, rfl⟩
    refine ⟨hpath, e, mem_filter.mpr ⟨he, hdone⟩, basePath x.backend x.model ++ ls, ?_,
      (descend_basePath hpath ls).mpr hd⟩
    rw [hact, descriptorOf_streamDone hb hm, hls]
    rfl

section Kinds

variable {xs : List ModelQuota}

theorem exists_find?_of_mem {rs : List StreamDoneRequest} {r0 : StreamDoneRequest} (h : r0 ∈ rs) :
    ∃ r, rs.find? (fun r => r.1 = r0.1) = some r ∧ r.1 = r0.1 ∧ r ∈ rs := by
  have hsome : (rs.find? fun r => r.1 = r0.1).isSome = true :=
    find?_isSome.mpr ⟨r0, h, by simp⟩
  obtain ⟨r, hr⟩ := Option.isSome_iff_exists.mp hsome
  exact ⟨r, hr, by simpa using find?_some hr, mem_of_find?_eq_some hr⟩

/-- A request-time entry stops at the model's node when its quota is rule-free. -/
theorem reaches_request_ruleFree_iff :
    (∃ as ∈ quotaActions buildHeaderMatchAction σ q.quota, Reaches regexMatches x tree as []) ↔
      q.quota.bucketRules = [] ∧ 0 < q.quota.defaultBucket.limit := by
  constructor
  · rintro ⟨as, has, hreach⟩
    rcases mem_quotaActions.mp has with ⟨hr, hl, -⟩ | ⟨r, -, rfl⟩ | ⟨-, -, rfl⟩
    · exact ⟨hr, hl⟩
    · have hkeys := hreach.keys
      rw [buildHeaderMatchAction_eq, selectorActions_keys] at hkeys
      exact absurd hkeys ruleKeys_ne_nil
    · cases hreach.keys
  · rintro ⟨hr, hl⟩
    exact ⟨[], mem_quotaActions.mpr (.inl ⟨hr, hl, rfl⟩), [], rfl, rfl⟩

theorem reaches_ruleFree_iff :
    (∃ k r, (xs.flatMap (streamDoneRequests σ)).find? (fun r => r.1 = k) = some r ∧
        Reaches regexMatches x tree r.2.1 []) ↔
      ∃ q ∈ xs, q.quota.bucketRules = [] ∧ 0 < q.quota.defaultBucket.limit := by
  constructor
  · rintro ⟨k, r, hr, hreach⟩
    obtain ⟨q, hq, hmem⟩ := mem_flatMap.mp (mem_of_find?_eq_some hr)
    rcases mem_streamDoneRequests hmem with ⟨hrules, hl, -⟩ | ⟨r', -, -, hact⟩ | ⟨-, hact⟩
    · exact ⟨q, hq, hrules, hl⟩
    · -- a rule always sends at least one key
      have hkeys := hreach.keys
      rw [hact, buildClientSelectorStreamDoneActions, buildStreamDoneHeaderMatchAction_eq,
        selectorActions_keys] at hkeys
      exact absurd hkeys ruleKeys_ne_nil
    · have hkeys := hreach.keys
      rw [hact] at hkeys
      cases hkeys
  · rintro ⟨q, hq, hrules, hl⟩
    have hmem : (simpleStreamDoneKey, [], q.quota.defaultBucket) ∈ xs.flatMap (streamDoneRequests σ) := by
      refine mem_flatMap.mpr ⟨q, hq, ?_⟩
      unfold streamDoneRequests
      rw [if_pos hrules, if_pos hl]
      exact mem_singleton_self _
    obtain ⟨r, hr, hkey, hmem'⟩ := exists_find?_of_mem hmem
    refine ⟨_, r, hr, ?_⟩
    obtain ⟨q', -, hmem'⟩ := mem_flatMap.mp hmem'
    rcases mem_streamDoneRequests hmem' with ⟨-, -, -, hact⟩ | ⟨r', -, hk, -⟩ | ⟨hk, -⟩
    · rw [hact]
      exact ⟨[], rfl, rfl⟩
    · exact absurd (hk.symm.trans hkey) (ruleStreamDoneKey_ne r').1
    · exact absurd (hkey.symm.trans hk) (simpleStreamDoneKey_ne _)

theorem reaches_default_streamDone (hq : q ∈ xs) (hrules : q.quota.bucketRules ≠ [])
    (hl : 0 < q.quota.defaultBucket.limit)
    (hpath : basePath x.backend x.model ++ path ∈ limitPaths tree)
    (hp : path = [(defaultBucketDescriptorKey q.quota.bucketRules.length, defaultBucketDescriptorKey q.quota.bucketRules.length)]) :
    ∃ k r, (xs.flatMap (streamDoneRequests σ)).find? (fun r => r.1 = k) = some r ∧
      Reaches regexMatches x tree r.2.1 path := by
  have hmem : (defaultBucketDescriptorKey q.quota.bucketRules.length,
      [defaultBucketAction q.quota], q.quota.defaultBucket) ∈
      xs.flatMap (streamDoneRequests σ) := by
    refine mem_flatMap.mpr ⟨q, hq, ?_⟩
    unfold streamDoneRequests bucketStreamDone
    rw [if_neg hrules, if_pos hl]
    exact mem_append_right _ (mem_singleton_self _)
  obtain ⟨r, hr, hkey, hmem'⟩ := exists_find?_of_mem hmem
  refine ⟨_, r, hr, ?_⟩
  obtain ⟨q', -, hmem'⟩ := mem_flatMap.mp hmem'
  rcases mem_streamDoneRequests hmem' with ⟨-, -, hk, -⟩ | ⟨r', -, hk, -⟩ | ⟨hk, hact⟩
  · exact absurd (hk.symm.trans hkey) (simpleStreamDoneKey_ne _)
  · exact absurd (hk.symm.trans hkey) ((ruleStreamDoneKey_ne r').2 _)
  · rw [hact]
    exact reaches_default hpath q'.quota (defaultBucketDescriptorKey_inj (hk.symm.trans hkey)) hp

/-- The request-time entries that reach the path of a rule are those of rules. -/
theorem reaches_request_rule_iff {r0 : IndexedRule} :
    (∃ as ∈ quotaActions buildHeaderMatchAction σ q.quota,
        Reaches regexMatches x tree as (ruleLabels σ r0.2 r0.1)) ↔
      ∃ r ∈ q.quota.bucketRules.zipIdx, LandsOn regexMatches x σ tree true r r0 := by
  constructor
  · rintro ⟨as, has, hreach⟩
    rcases mem_quotaActions.mp has with ⟨-, -, rfl⟩ | ⟨r, hr, rfl⟩ | ⟨-, -, rfl⟩
    · exact absurd hreach.keys.symm ruleKeys_ne_nil
    · rw [buildHeaderMatchAction_eq] at hreach
      exact ⟨r, hr, reaches_rule_iff.mp hreach⟩
    · exact absurd hreach.keys.symm ruleKeys_ne_default
  · rintro ⟨r, hr, hlands⟩
    refine ⟨_, mem_quotaActions.mpr (.inr (.inl ⟨r, hr, rfl⟩)), ?_⟩
    rw [buildHeaderMatchAction_eq]
    exact reaches_rule_iff.mpr hlands

/-- Of the stream-done entries only that of the leading rule can reach the path of a rule. -/
theorem reaches_streamDone_rule_iff {r0 : IndexedRule} :
    (∃ k r, (xs.flatMap (streamDoneRequests σ)).find? (fun r => r.1 = k) = some r ∧
        Reaches regexMatches x tree r.2.1 (ruleLabels σ r0.2 r0.1)) ↔
      ∃ r, leadingRule σ xs (ruleStreamDoneKey σ r0.2 r0.1) = some r ∧
        LandsOn regexMatches x σ tree false r r0 := by
  have hacts : ∀ r : IndexedRule, Reaches regexMatches x tree (ruleRequest σ r).2.1 (ruleLabels σ r0.2 r0.1) ↔
        LandsOn regexMatches x σ tree false r r0 := by
    intro r
    unfold ruleRequest buildClientSelectorStreamDoneActions
    rw [buildStreamDoneHeaderMatchAction_eq]
    exact reaches_rule_iff
  constructor
  · rintro ⟨k, r, hr, hreach⟩
    have hkey : r.1 = k := by simpa using find?_some hr
    obtain ⟨q, hq, hmem⟩ := mem_flatMap.mp (mem_of_find?_eq_some hr)
    rcases mem_streamDoneRequests hmem with ⟨-, -, -, hact⟩ | ⟨r', hr', hk, hact⟩ | ⟨-, hact⟩
    · rw [hact] at hreach
      exact absurd hreach.keys.symm ruleKeys_ne_nil
    · -- the same keys give the same dedupe key, so the entry is that of the leading rule
      have hkeys : ruleKeys σ r' = ruleKeys σ r0 := by
        rw [← @selectorActions_keys σ (fun h => !(false && h.invert = some true)) r']
        rw [hact] at hreach
        exact hreach.keys
      have hk0 : k = ruleStreamDoneKey σ r0.2 r0.1 := by
        rw [← hkey, hk, ruleStreamDoneKey_eq, ruleStreamDoneKey_eq, hkeys]
      rw [hk0, find?_streamDoneRequests] at hr
      obtain ⟨r'', hlead, rfl⟩ := Option.map_eq_some_iff.mp hr
      exact ⟨r'', hlead, (hacts r'').mp hreach⟩
    · rw [hact] at hreach
      exact absurd hreach.keys.symm ruleKeys_ne_default
  · rintro ⟨r, hlead, hlands⟩
    refine ⟨ruleStreamDoneKey σ r0.2 r0.1, ruleRequest σ r, ?_, (hacts r).mpr hlands⟩
    rw [find?_streamDoneRequests, hlead]
    rfl

end Kinds

end Reach

/-! ## Top theorem -/

theorem keyString_ne_empty (k : ObjectKey) : keyString k ≠ "" := by
  intro h
  have hl := congrArg String.toList h
  simp [keyString, namespacedNameKey] at hl

theorem mem_limitPaths_served {all : List QuotaPolicy} {info : GoMap String (List String)}
    {x : Exchange} (hroute : x.model ∈ overridesAt info x.backend) (hmodel : x.model ≠ "")
    (hall : ∀ p, Targets p x.backend → (p ∈ all ↔ p ∈ policies)) (path : List Label) :
    basePath x.backend x.model ++ path ∈ limitPaths (serviceTree σ all) ↔
      ∃ q ∈ applicableQuotas policies (some info), q.Serves x ∧ Translates σ q.policy ∧
        path ∈ quotaLimitPaths σ q.quota := by
  rw [mem_limitPaths_serviceTree hmodel]
  constructor
  · rintro ⟨p, hp, htr, ht, q, hq, hpath⟩
    refine ⟨⟨p, x.model, q⟩, mem_applicableQuotas.mpr ⟨(hall p ht).mp hp, hq, ?_⟩, ⟨ht, rfl⟩, htr, hpath⟩
    intro bm hbm
    cases hbm
    obtain ⟨t, htmem, hkey⟩ := ht
    refine any_eq_true.mpr ⟨t, htmem, decide_eq_true ?_⟩
    rw [hkey]
    exact hroute
  · rintro ⟨q, hq, ⟨ht, hm⟩, htr, hpath⟩
    obtain ⟨hp, hpmq, -⟩ := mem_applicableQuotas.mp hq
    rw [hm] at hpmq
    exact ⟨q.policy, (hall _ ht).mpr hp, htr, ht, q.quota, hpmq, hpath⟩

theorem ModelQuota.Serves.backend_ne_empty {x : Exchange} (h : q.Serves x) : x.backend ≠ "" := by
  obtain ⟨⟨t, -, hkey⟩, -⟩ := h
  rw [← hkey]
  exact keyString_ne_empty _

/-- For every list of policies on a route, every request and every backend and model
override of the route that serves it: the request is charged to the limits it checked
exactly when the rule-free quotas and the rules agree. -/
theorem charges_checked_iff (regexMatches : String → String → Bool) (σ : HeaderSort)
    (policies all : List QuotaPolicy) (info : GoMap String (List String)) (x : Exchange)
    (hroute : x.model ∈ overridesAt info x.backend) (hmodel : x.model ≠ "")
    (hall : ∀ p, Targets p x.backend → (p ∈ all ↔ p ∈ policies)) :
    ChargesChecked regexMatches x (serviceTree σ all) (routeEntries σ policies (some info)) ↔
      RuleFreeAgree x σ (applicableQuotas policies (some info)) ∧
        RulesAgree regexMatches x σ (serviceTree σ all)
          (applicableQuotas policies (some info)) := by
  have hlimits := mem_limitPaths_served (σ := σ) hroute hmodel hall
  constructor
  · intro h
    constructor
    · rintro ⟨q, hq, hserves, htr, hrules⟩ hpos
      have hpath := (hlimits []).mpr
        ⟨q, hq, hserves, htr, mem_quotaLimitPaths.mpr (.inl ⟨hrules, rfl⟩)⟩
      have hpath' := h []
      rw [mem_chargedLimits hpath hserves.backend_ne_empty hmodel, mem_checkedLimits hpath,
        reaches_ruleFree_iff] at hpath'
      simp only [reaches_request_ruleFree_iff] at hpath'
      exact hpath'.mp hpos
    · intro q0 hq0 hserves htr r0 hr0
      have hpath := (hlimits (ruleLabels σ r0.2 r0.1)).mpr
        ⟨q0, hq0, hserves, htr, mem_quotaLimitPaths.mpr (.inr (.inl ⟨r0, hr0, rfl⟩))⟩
      have hpath' := h (ruleLabels σ r0.2 r0.1)
      rw [mem_chargedLimits hpath hserves.backend_ne_empty hmodel, mem_checkedLimits hpath,
        reaches_streamDone_rule_iff] at hpath'
      simp only [reaches_request_rule_iff] at hpath'
      exact hpath'.symm
  · rintro ⟨hfree, hrules⟩ path
    by_cases hpath : basePath x.backend x.model ++ path ∈ limitPaths (serviceTree σ all)
    · obtain ⟨q0, hq0, hserves, htr, hmem⟩ := (hlimits path).mp hpath
      rw [mem_chargedLimits hpath hserves.backend_ne_empty hmodel, mem_checkedLimits hpath]
      rcases mem_quotaLimitPaths.mp hmem with ⟨hr0, rfl⟩ | ⟨r0, hr0, rfl⟩ | ⟨hr0, hl, hp⟩
      · rw [reaches_ruleFree_iff]
        simp only [reaches_request_ruleFree_iff]
        constructor
        · exact hfree ⟨q0, hq0, hserves, htr, hr0⟩
        · rintro ⟨q, hq, -, hpos⟩
          exact ⟨q, hq, hpos⟩
      · rw [reaches_streamDone_rule_iff]
        simp only [reaches_request_rule_iff]
        exact (hrules q0 hq0 hserves htr r0 hr0).symm
      · constructor
        · intro _
          exact ⟨q0, hq0, hserves, _, mem_quotaActions.mpr (.inr (.inr ⟨hr0, hl, rfl⟩)),
            reaches_default hpath q0.quota rfl hp⟩
        · intro _
          exact reaches_default_streamDone hq0 hr0 hl hpath hp
    · unfold chargedLimits checkedLimits
      rw [mem_limitsHit, mem_limitsHit]
      simp [hpath]

/-- A rule on the header `x-tier` for the value `premium`, inverted or not. -/
def tierRule (invert : Bool) : QuotaRule where
  clientSelectors := [[⟨"x-tier", some .exact, some "premium", some invert⟩]]
  quota := ⟨5, "1m", none⟩
  shadowMode := none

def tierQuota (invert : Bool) : QuotaPolicy where
  key := ⟨"default", "q"⟩
  uid := "u"
  deleting := false
  targetRefs := [⟨"", "", "b", none⟩]
  serviceQuota := ⟨0, "", none⟩
  perModelQuotas := [⟨some "m", ⟨⟨0, "", none⟩, [tierRule invert]⟩⟩]

/-- The overrides of a route that references `b` with the model `m`. -/
def overrideOfB : GoMap String (List String) := AList.singleton "default/b" ["m"]

/-- A request with these headers that `b` serves with the model `m`. -/
def servedByB (headers : String → Option String) : Exchange := ⟨headers, "default/b", "m"⟩

/-- A request without the header checks the bucket of the inverted rule, but is not
charged to it. -/
theorem charges_checked_fails_on_inverted_match :
    checkedLimits (fun _ _ => false) (servedByB fun _ => none)
        (serviceTree .insertion [tierQuota true])
        (routeEntries .insertion [tierQuota true] (some overrideOfB)) =
      [basePath "default/b" "m" ++
        [("rule-0-x-tier|premium-match-0", "rule-0-x-tier|premium-match-0")]] ∧
    chargedLimits (fun _ _ => false) (servedByB fun _ => none)
        (serviceTree .insertion [tierQuota true])
        (routeEntries .insertion [tierQuota true] (some overrideOfB)) = [] ∧
    ¬ ChargesChecked (fun _ _ => false) (servedByB fun _ => none)
        (serviceTree .insertion [tierQuota true])
        (routeEntries .insertion [tierQuota true] (some overrideOfB)) := by
  refine ⟨by decide, by decide, ?_⟩
  intro h
  have hcharged := (h [("rule-0-x-tier|premium-match-0", "rule-0-x-tier|premium-match-0")]).mpr
    (by decide)
  exact absurd hcharged (by decide)

/-- Without the inversion a premium request is charged to the bucket it checked. -/
theorem charges_checked_of_plain_match :
    ChargesChecked (fun _ _ => false) (servedByB fun _ => some "premium")
      (serviceTree .insertion [tierQuota false])
      (routeEntries .insertion [tierQuota false] (some overrideOfB)) := by
  refine (charges_checked_iff (fun _ _ => false) .insertion [tierQuota false] [tierQuota false]
    overrideOfB (servedByB fun _ => some "premium") (by decide) (by decide)
    (fun _ _ => Iff.rfl)).mpr ?_
  constructor
  · rintro ⟨q, hq, -, -, hrules⟩
    obtain rfl := mem_singleton.mp hq
    cases hrules
  · intro q0 hq0 hserves _ r0 hr0
    obtain rfl := mem_singleton.mp hq0
    obtain rfl : r0 = (tierRule false, 0) := by simpa using hr0
    constructor
    · rintro ⟨q, hq, -, r, hr, -⟩
      exact ⟨(tierRule false, 0), by decide, by decide, by decide⟩
    · rintro ⟨r, -, -⟩
      exact ⟨_, mem_singleton_self _, hserves, (tierRule false, 0), by decide, by decide, by decide⟩

end AgentRouter.Quota
