import AgentRouter.Lib.Forest
import AgentRouter.Lib.Results
import AgentRouter.Quota.Entries

/-!
# Service: the descriptor tree of the rate-limit service

The translator turns a QuotaPolicy and its backends into a tree of descriptors: a
`backend_name` node, below it one `model_name_override` node for each model, below
that a chain of nodes for each bucket rule.  The controller puts the trees of all
policies together with `MergeDescriptors`.

    (backend_name, b) :: (model_name_override, m) :: path carries a limit
      ↔ some translated policy targets b and its quota for m has that limit path
      (mem_limitPaths_serviceTree)
-/

namespace AgentRouter.Quota

open Kube Text Forest Results List

/-! ## Algorithm -/

inductive RateLimitUnit where
  | second | minute | hour | day | week | month | year
  deriving DecidableEq

/-- `rlsconfv3.RateLimitPolicy`. -/
structure RateLimitPolicy where
  requestsPerUnit : Nat
  unit : RateLimitUnit
  deriving DecidableEq

/-- What a descriptor carries besides its key and value. -/
structure DescriptorBody where
  rateLimit : Option RateLimitPolicy
  shadowMode : Bool
  quotaMode : Bool

/-- The key and the value of a descriptor; the value is empty when it is not set. -/
abbrev Label := String × String

/-- `rlsconfv3.RateLimitDescriptor`. -/
abbrev Descriptor := Tree Label DescriptorBody

/-- `rlsconfv3.RateLimitConfig`. -/
structure RateLimitConfig where
  name : String
  domain : String
  descriptors : List Descriptor

/-- The body of an inner node. -/
def DescriptorBody.inner : DescriptorBody := ⟨none, false, false⟩

def parseDuration (s : String) : Except String RateLimitUnit :=
  if s = "1s" then .ok .second
  else if s = "1m" then .ok .minute
  else if s = "1h" then .ok .hour
  else if s = "1d" then .ok .day
  else if s = "1w" then .ok .week
  else if s = "1mo" then .ok .month
  else if s = "1y" then .ok .year
  else .error ("unsupported duration " ++ quoted s ++ ": must be one of 1s, 1m, 1h, 1d, 1w, 1mo, 1y")

def quotaValueToPolicy (qv : QuotaValue) : Except String RateLimitPolicy :=
  match parseDuration qv.duration with
  | .error e => .error ("invalid duration " ++ quoted qv.duration ++ ": " ++ e)
  | .ok unit => .ok ⟨qv.limit % 2 ^ 32, unit⟩

/-- A chain of nodes with these labels, whose last one has the body. -/
def chain (body : DescriptorBody) : List Label → List Descriptor
  | [] => []
  | [l] => [⟨l, body, []⟩]
  | l :: ls => [⟨l, .inner, chain body ls⟩]

/-- The labels of a bucket rule's nodes: a distinct match leaves the value open. -/
def ruleLabels (σ : HeaderSort) (ruleIndex : Nat) (rule : QuotaRule) : List Label :=
  let headers := flattenAndSortHeaders σ rule.clientSelectors
  if headers = [] then
    let key := bucketRuleDescriptorKey ruleIndex 0 "" ""
    [(key, key)]
  else
    headers.zipIdx.map fun h =>
      let key := bucketRuleDescriptorKey ruleIndex h.2 h.1.name (headerMatchKeyValue h.1)
      (key, if h.1.type = some .distinct then "" else key)

def buildBucketRuleDescriptors (σ : HeaderSort) (ruleIndex : Nat) (rule : QuotaRule) :
    Except String (List Descriptor) :=
  match quotaValueToPolicy rule.quota with
  | .error e => .error e
  | .ok policy =>
    .ok (chain ⟨some policy, rule.shadowMode = some true, true⟩ (ruleLabels σ ruleIndex rule))

/-- The node of the default bucket behind bucket rules. -/
def buildDefaultDescriptor (quota : QuotaDefinition) : Except String (List Descriptor) :=
  if 0 < quota.defaultBucket.limit then
    match quotaValueToPolicy quota.defaultBucket with
    | .error e => .error e
    | .ok policy =>
      let key := defaultBucketDescriptorKey quota.bucketRules.length
      .ok [⟨(key, key), ⟨some policy, false, true⟩, []⟩]
  else .ok []

def buildPerModelDescriptor (σ : HeaderSort) (descriptorModelName : String)
    (quota : QuotaDefinition) : Except String Descriptor :=
  if quota.bucketRules = [] then
    match quotaValueToPolicy quota.defaultBucket with
    | .error e => .error e
    | .ok policy =>
      .ok ⟨(modelNameDescriptorKey, descriptorModelName), ⟨some policy, false, true⟩, []⟩
  else
    match quota.bucketRules.zipIdx.mapM fun r =>
        (buildBucketRuleDescriptors σ r.2 r.1).mapError fun e =>
          "bucket rule " ++ r.2.repr ++ ": " ++ e with
    | .error e => .error e
    | .ok nested =>
      match buildDefaultDescriptor quota with
      | .error e => .error e
      | .ok default =>
        .ok ⟨(modelNameDescriptorKey, descriptorModelName), .inner, nested.flatten ++ default⟩

/-- The node that applies to every model: its value is not set. -/
def buildServiceQuotaDescriptor (quota : QuotaValue) : Except String (List Descriptor) :=
  if 0 < quota.limit then
    match quotaValueToPolicy quota with
    | .error e => .error ("service quota: " ++ e)
    | .ok policy => .ok [⟨(modelNameDescriptorKey, ""), ⟨some policy, false, true⟩, []⟩]
  else .ok []

/-- The models of a policy with their quotas. -/
def modelQuotas (p : QuotaPolicy) : List (String × QuotaDefinition) :=
  p.perModelQuotas.filterMap fun pmq => pmq.modelName.map (·, pmq.quota)

def buildBackendDescriptor (σ : HeaderSort) (p : QuotaPolicy) (backend : ObjectKey) :
    Except String (List Descriptor) :=
  match (modelQuotas p).mapM fun x =>
      (buildPerModelDescriptor σ x.1 x.2).mapError fun e => "model " ++ quoted x.1 ++ ": " ++ e with
  | .error e => .error e
  | .ok models =>
    match buildServiceQuotaDescriptor p.serviceQuota with
    | .error e => .error e
    | .ok service =>
      match models ++ service with
      | [] => .ok []
      | ds => .ok [⟨(backendNameDescriptorKey, keyString backend), .inner, ds⟩]

def buildRateLimitConfigs (σ : HeaderSort) (p : QuotaPolicy) (backends : List ObjectKey) :
    Except String (List RateLimitConfig) :=
  match backends.mapM fun b =>
      (buildBackendDescriptor σ p b).mapError fun e =>
        "failed to build descriptors for backend " ++ keyString b ++ ": " ++ e with
  | .error e => .error e
  | .ok descs =>
    match descs.flatten with
    | [] => .ok []
    | ds => .ok [⟨quotaDomain, quotaDomain, ds⟩]

/-- The map key under which `MergeDescriptors` files a descriptor. -/
def labelKey (l : Label) : String := l.1 ++ "\x00" ++ l.2

/-- The first limit stays; the modes are on when either has them on. -/
def DescriptorBody.combine (e d : DescriptorBody) : DescriptorBody :=
  ⟨e.rateLimit.or d.rateLimit, e.shadowMode || d.shadowMode, e.quotaMode || d.quotaMode⟩

def mergeDescriptors (descs : List Descriptor) : List Descriptor :=
  merge labelKey DescriptorBody.combine descs

/-- `configCache`: what was built for each policy, under its `namespace/name`. -/
abbrev ConfigCache := List (String × List RateLimitConfig)

def getMergedConfigs (cache : ConfigCache) : List RateLimitConfig :=
  let allDescriptors := (cache.insertionSort fun a b => a.1 ≤ b.1).flatMap fun e =>
    e.2.flatMap RateLimitConfig.descriptors
  if allDescriptors.isEmpty then []
  else [⟨quotaDomain, quotaDomain, mergeDescriptors allDescriptors⟩]

/-- The policies are synced as they stand, with the backends their targets name; one that
does not translate leaves nothing behind. -/
def syncQuotaPolicies (σ : HeaderSort) (policies : List QuotaPolicy) : ConfigCache :=
  policies.filterMap fun p =>
    match buildRateLimitConfigs σ p (p.targetRefs.map (targetKey p)) with
    | .error _ => none
    | .ok configs => some (keyString p.key, configs)

/-- The tree that the rate-limit service loads. -/
def serviceTree (σ : HeaderSort) (policies : List QuotaPolicy) : List Descriptor :=
  (getMergedConfigs (syncQuotaPolicies σ policies)).flatMap RateLimitConfig.descriptors

/-! ## Limit paths -/

/-- The paths of the nodes that carry a limit. -/
def limitPaths (ds : List Descriptor) : List (List Label) :=
  paths (fun body => body.rateLimit.isSome) ds

/-- The limit paths of a quota below its model node. -/
def quotaLimitPaths (σ : HeaderSort) (q : QuotaDefinition) : List (List Label) :=
  if q.bucketRules = [] then [[]]
  else
    (q.bucketRules.zipIdx.map fun r => ruleLabels σ r.2 r.1) ++
      if 0 < q.defaultBucket.limit then
        let key := defaultBucketDescriptorKey q.bucketRules.length
        [[(key, key)]]
      else []

/-- The translator accepts the policy. -/
def Translates (σ : HeaderSort) (p : QuotaPolicy) : Prop :=
  ∃ configs, buildRateLimitConfigs σ p (p.targetRefs.map (targetKey p)) = .ok configs

theorem mem_limitPaths_chain {body : DescriptorBody} (hb : body.rateLimit.isSome = true)
    (ls p : List Label) : p ∈ limitPaths (chain body ls) ↔ ls ≠ [] ∧ p = ls := by
  unfold limitPaths
  induction ls generalizing p with
  | nil => simp [chain]
  | cons l ls ih =>
    cases p with
    | nil => simp
    | cons l' p =>
      cases ls with
      | nil =>
        simp only [chain, mem_paths_cons, Tree.cons_mem_paths, notMem_paths_nil, hb]
        simp [and_comm, eq_comm]
      | cons l2 ls =>
        rw [chain, mem_paths_cons, Tree.cons_mem_paths]
        · rw [ih]
          simp [DescriptorBody.inner, and_comm, eq_comm]
        · simp

variable {σ : HeaderSort} {ds : List Descriptor}

theorem buildBucketRuleDescriptors_limitPaths {i : Nat} {rule : QuotaRule}
    (h : buildBucketRuleDescriptors σ i rule = .ok ds) (p : List Label) :
    p ∈ limitPaths ds ↔ p = ruleLabels σ i rule := by
  have hne : ruleLabels σ i rule ≠ [] := by
    unfold ruleLabels
    dsimp only
    split
    · simp
    · next hh => simpa using hh
  unfold buildBucketRuleDescriptors at h
  split at h
  · cases h
  · cases h
    rw [mem_limitPaths_chain rfl]
    exact ⟨And.right, fun hp => ⟨hne, hp⟩⟩

variable {q : QuotaDefinition}

theorem buildDefaultDescriptor_limitPaths (h : buildDefaultDescriptor q = .ok ds) (p : List Label) :
    p ∈ limitPaths ds ↔ 0 < q.defaultBucket.limit ∧
      p = [(defaultBucketDescriptorKey q.bucketRules.length,
        defaultBucketDescriptorKey q.bucketRules.length)] := by
  unfold buildDefaultDescriptor at h
  split at h
  · next hl =>
    split at h
    · cases h
    · cases h
      have hchain := @mem_limitPaths_chain ⟨some ‹_›, false, true⟩ rfl
        [(defaultBucketDescriptorKey q.bucketRules.length, defaultBucketDescriptorKey q.bucketRules.length)] p
      simpa [hl, chain] using hchain
  · next hl =>
    cases h
    simp [limitPaths, hl]

variable {m : String}

theorem buildPerModelDescriptor_limitPaths {d : Descriptor}
    (h : buildPerModelDescriptor σ m q = .ok d) (l : Label) (p : List Label) :
    l :: p ∈ limitPaths [d] ↔ l = (modelNameDescriptorKey, m) ∧ p ∈ quotaLimitPaths σ q := by
  unfold limitPaths
  simp only [mem_paths_cons, notMem_paths_nil, or_false, Tree.cons_mem_paths]
  unfold buildPerModelDescriptor at h
  unfold quotaLimitPaths
  split at h
  · next hr =>
    rw [if_pos hr]
    split at h
    · cases h
    · cases h
      simp [eq_comm]
  · next hr =>
    rw [if_neg hr]
    split at h
    · cases h
    · next nested hnested =>
      split at h
      · cases h
      · next default hdefault =>
        cases h
        obtain ⟨hfrom, hto⟩ := mem_mapM hnested
        have hdef := buildDefaultDescriptor_limitPaths hdefault p
        have hrules : p ∈ limitPaths nested.flatten ↔
            p ∈ q.bucketRules.zipIdx.map fun r => ruleLabels σ r.2 r.1 := by
          rw [limitPaths, mem_paths_flatten, mem_map]
          constructor
          · rintro ⟨ds, hds, hp⟩
            obtain ⟨r, hr, hbuild⟩ := hfrom ds hds
            have hp' := buildBucketRuleDescriptors_limitPaths (mapError_eq_ok.mp hbuild) p
            exact ⟨r, hr, (hp'.mp hp).symm⟩
          · rintro ⟨r, hr, rfl⟩
            obtain ⟨ds, hds, hbuild⟩ := hto r hr
            exact ⟨ds, hds, (buildBucketRuleDescriptors_limitPaths (mapError_eq_ok.mp hbuild) _).mpr rfl⟩
        unfold limitPaths at hdef hrules
        simp only [DescriptorBody.inner, mem_paths_append, hdef, hrules, mem_append]
        by_cases hl : 0 < q.defaultBucket.limit
        · simp [hl, eq_comm]
        · simp [hl, eq_comm]

variable {p : QuotaPolicy}

theorem mem_modelQuotas : (m, q) ∈ modelQuotas p ↔ ⟨some m, q⟩ ∈ p.perModelQuotas := by
  unfold modelQuotas
  rw [mem_filterMap]
  constructor
  · rintro ⟨⟨_ | m', q'⟩, hpmq, h⟩
    · cases h
    · cases h
      exact hpmq
  · intro h
    exact ⟨_, h, rfl⟩

/-- The path of a model's node. -/
def basePath (backend model : String) : List Label :=
  [(backendNameDescriptorKey, backend), (modelNameDescriptorKey, model)]

/-- The limit paths of a policy below a backend and a model.  The node of the service quota has no
value, so it stands for the model with the empty name. -/
def PolicyLimits (σ : HeaderSort) (p : QuotaPolicy) (m : String) (path : List Label) : Prop :=
  (∃ q, (m, q) ∈ modelQuotas p ∧ path ∈ quotaLimitPaths σ q) ∨
    (m = "" ∧ path = [] ∧ 0 < p.serviceQuota.limit)

theorem mem_limitPaths_service {quota : QuotaValue} {service : List Descriptor}
    (h : buildServiceQuotaDescriptor quota = .ok service) (m : String) (path : List Label) :
    (modelNameDescriptorKey, m) :: path ∈ limitPaths service ↔ m = "" ∧ path = [] ∧ 0 < quota.limit := by
  unfold buildServiceQuotaDescriptor at h
  split at h
  · next hl =>
    split at h
    · cases h
    · cases h
      simp [limitPaths, Tree.cons_mem_paths, hl, eq_comm]
  · next hl =>
    cases h
    simp [limitPaths, hl]

theorem mem_limitPaths_models {models : List Descriptor}
    (h : ((modelQuotas p).mapM fun x => (buildPerModelDescriptor σ x.1 x.2).mapError fun e =>
      "model " ++ quoted x.1 ++ ": " ++ e) = .ok models)
    (m : String) (path : List Label) :
    (modelNameDescriptorKey, m) :: path ∈ limitPaths models ↔
      ∃ q, (m, q) ∈ modelQuotas p ∧ path ∈ quotaLimitPaths σ q := by
  obtain ⟨hfrom, hto⟩ := mem_mapM h
  rw [limitPaths, mem_paths]
  constructor
  · rintro ⟨d, hd, hp⟩
    obtain ⟨x, hx, hbuild⟩ := hfrom d hd
    have hlim := buildPerModelDescriptor_limitPaths (mapError_eq_ok.mp hbuild)
      (modelNameDescriptorKey, m) path
    obtain ⟨he, hq⟩ := hlim.mp (mem_paths_cons.mpr (.inl hp))
    cases he
    exact ⟨x.2, hx, hq⟩
  · rintro ⟨q, hq, hp⟩
    obtain ⟨d, hd, hbuild⟩ := hto _ hq
    have hlim := buildPerModelDescriptor_limitPaths (mapError_eq_ok.mp hbuild)
      (modelNameDescriptorKey, m) path
    have hmem := hlim.mpr ⟨rfl, hp⟩
    exact ⟨d, hd, by simpa [limitPaths] using hmem⟩

theorem buildBackendDescriptor_limitPaths {k : ObjectKey}
    (h : buildBackendDescriptor σ p k = .ok ds) (b m : String) (path : List Label) :
    basePath b m ++ path ∈ limitPaths ds ↔ b = keyString k ∧ PolicyLimits σ p m path := by
  unfold buildBackendDescriptor at h
  split at h
  · cases h
  · next models hmodels =>
    split at h
    · cases h
    · next service hservice =>
      have hserv := mem_limitPaths_service hservice m path
      have hmod := mem_limitPaths_models hmodels m path
      have hall : (modelNameDescriptorKey, m) :: path ∈ limitPaths (models ++ service) ↔
          PolicyLimits σ p m path := by
        unfold limitPaths at hmod hserv ⊢
        rw [mem_paths_append, hmod, hserv, PolicyLimits]
      split at h
      · next hnil =>
        cases h
        rw [hnil] at hall
        rw [← hall]
        simp [limitPaths]
      · cases h
        rw [← hall, limitPaths, basePath, cons_append, cons_mem_paths]
        constructor
        · rintro ⟨t, ht, hl, hrest⟩
          obtain rfl := mem_singleton.mp ht
          refine ⟨(Prod.ext_iff.mp hl).2.symm, ?_⟩
          exact hrest.resolve_left (by simp)
        · rintro ⟨rfl, hp⟩
          exact ⟨_, mem_singleton_self _, rfl, .inr hp⟩

theorem buildRateLimitConfigs_limitPaths {ks : List ObjectKey} {cs : List RateLimitConfig}
    (h : buildRateLimitConfigs σ p ks = .ok cs) (b m : String) (path : List Label) :
    basePath b m ++ path ∈ limitPaths (cs.flatMap RateLimitConfig.descriptors) ↔
      (∃ k ∈ ks, keyString k = b) ∧ PolicyLimits σ p m path := by
  unfold buildRateLimitConfigs at h
  split at h
  · cases h
  · next descs hdescs =>
    obtain ⟨hfrom, hto⟩ := mem_mapM hdescs
    have hflat : basePath b m ++ path ∈ limitPaths descs.flatten ↔
        (∃ k ∈ ks, keyString k = b) ∧ PolicyLimits σ p m path := by
      rw [limitPaths, mem_paths_flatten]
      constructor
      · rintro ⟨ds, hds, hp⟩
        obtain ⟨k, hk, hbuild⟩ := hfrom ds hds
        obtain ⟨rfl, hq⟩ :=
          (buildBackendDescriptor_limitPaths (mapError_eq_ok.mp hbuild) b m path).mp hp
        exact ⟨⟨k, hk, rfl⟩, hq⟩
      · rintro ⟨⟨k, hk, rfl⟩, hq⟩
        obtain ⟨ds, hds, hbuild⟩ := hto k hk
        exact ⟨ds, hds, (buildBackendDescriptor_limitPaths (mapError_eq_ok.mp hbuild) _ m path).mpr ⟨rfl, hq⟩⟩
    split at h
    · next hnil =>
      cases h
      rw [← hflat, hnil]
      simp
    · cases h
      rw [← hflat]
      simp

/-! ## Merging -/

/-- A key of a bucket rule or of a default bucket: it starts with `rule-` and ends in a
decimal. -/
def RuleKey (k : String) : Prop := ∃ a, ∃ n : Nat, k = "rule-" ++ a ++ n.repr

theorem ruleKey_bucketRuleDescriptorKey (i j : Nat) (name value : String) :
    RuleKey (bucketRuleDescriptorKey i j name value) := by
  unfold bucketRuleDescriptorKey
  split
  · exact ⟨i.repr ++ "-match-", j, by simp [String.append_assoc]⟩
  · split
    · exact ⟨i.repr ++ "-" ++ name ++ "-match-", j, by simp [String.append_assoc]⟩
    · exact ⟨i.repr ++ "-" ++ name ++ "|" ++ value ++ "-match-", j, by simp [String.append_assoc]⟩

theorem ruleKey_defaultBucketDescriptorKey (n : Nat) : RuleKey (defaultBucketDescriptorKey n) :=
  ⟨n.repr ++ "-match--", 1, by simp [defaultBucketDescriptorKey, String.append_assoc]; rfl⟩

/-- The labels that occur in descriptor trees. -/
def treeLabels : Set Label :=
  {l | l.1 = backendNameDescriptorKey ∨ l.1 = modelNameDescriptorKey ∨
    RuleKey l.1 ∧ (l.2 = l.1 ∨ l.2 = "")}

theorem RuleKey.toList {k : String} (h : RuleKey k) :
    ∃ cs c, k.toList = 'r' :: cs ++ [c] ∧ c.isDigit = true := by
  obtain ⟨a, n, rfl⟩ := h
  have hne : Nat.toDigits 10 n ≠ [] := Nat.toDigits_ne_nil
  refine ⟨"ule-".toList ++ a.toList ++ (Nat.toDigits 10 n).dropLast, (Nat.toDigits 10 n).getLast hne, ?_, ?_⟩
  · have hlast : (Nat.toDigits 10 n).dropLast ++ [(Nat.toDigits 10 n).getLast hne] =
        Nat.toDigits 10 n := dropLast_append_getLast hne
    simp only [String.toList_append, Nat.toList_repr, append_assoc, cons_append, hlast]
    rfl
  · exact Nat.isDigit_of_mem_toDigits (by decide) (by decide) (getLast_mem hne)

theorem labelKey_toList (l : Label) : (labelKey l).toList = l.1.toList ++ Char.ofNat 0 :: l.2.toList := by
  simp [labelKey]

theorem RuleKey.labelKey_ne_of_unset {k k' : String} (h : RuleKey k) :
    labelKey (k, k) ≠ labelKey (k', "") := by
  obtain ⟨cs, c, hk, hc⟩ := h.toList
  intro he
  have hl := congrArg String.toList he
  rw [labelKey_toList, labelKey_toList] at hl
  have hlast := congrArg List.getLast? hl
  rw [hk] at hlast
  have hc0 : c = Char.ofNat 0 := by simpa [getLast?_cons, getLast?_append] using hlast
  rw [hc0] at hc
  exact absurd hc (by decide)

/-- The map key of a descriptor tells the labels of the trees apart. -/
theorem labelKey_injOn : Set.InjOn labelKey treeLabels := by
  rintro ⟨k, v⟩ h ⟨k', v'⟩ h' he
  have hl := congrArg String.toList he
  rw [labelKey_toList, labelKey_toList] at hl
  -- the first letters tell the three kinds of labels apart
  have hhead := congrArg List.head? hl
  rw [head?_append, head?_append, head?_cons, head?_cons] at hhead
  dsimp only at hhead
  have hsame : k = k' → (k, v) = (k', v') := by
    rintro rfl
    have hv : v = v' := by
      rw [← String.toList_inj]
      simpa using hl
    rw [hv]
  have hrule : ∀ {k : String}, RuleKey k → k.toList.head? = some 'r' := by
    intro k hk
    obtain ⟨cs, c, hcs, -⟩ := hk.toList
    rw [hcs]
    rfl
  rcases h with h | h | ⟨hk, hv⟩
  all_goals rcases h' with h' | h' | ⟨hk', hv'⟩
  · exact hsame (h.trans h'.symm)
  · rw [show k = _ from h, show k' = _ from h'] at hhead
    exact absurd hhead (by decide)
  · rw [show k = _ from h, hrule hk'] at hhead
    exact absurd hhead (by decide)
  · rw [show k = _ from h, show k' = _ from h'] at hhead
    exact absurd hhead (by decide)
  · exact hsame (h.trans h'.symm)
  · rw [show k = _ from h, hrule hk'] at hhead
    exact absurd hhead (by decide)
  · rw [hrule hk, show k' = _ from h'] at hhead
    exact absurd hhead (by decide)
  · rw [hrule hk, show k' = _ from h'] at hhead
    exact absurd hhead (by decide)
  · apply hsame
    dsimp only at hv hv' hk hk'
    rw [← String.toList_inj]
    rcases hv with rfl | rfl
    · rcases hv' with rfl | rfl
      · have hlen := congrArg List.length hl
        simp only [length_append, length_cons] at hlen
        exact append_inj_left hl (by omega)
      · exact absurd he hk.labelKey_ne_of_unset
    · rcases hv' with rfl | rfl
      · exact absurd he.symm hk'.labelKey_ne_of_unset
      · exact append_cancel_right hl

theorem labelsIn_chain {S : Set Label} {body : DescriptorBody} (ls : List Label)
    (h : ∀ l ∈ ls, l ∈ S) : LabelsIn S (chain body ls) := by
  induction ls with
  | nil => exact labelsIn_nil
  | cons l ls ih =>
    have hl : l ∈ S := h l mem_cons_self
    cases ls with
    | nil => exact labelsIn_singleton.mpr ⟨hl, labelsIn_nil⟩
    | cons l' ls =>
      exact labelsIn_singleton.mpr ⟨hl, ih fun x hx => h x (mem_cons_of_mem _ hx)⟩

theorem ruleLabels_subset {i : Nat} {rule : QuotaRule} : ∀ l ∈ ruleLabels σ i rule, l ∈ treeLabels := by
  intro l hl
  unfold ruleLabels at hl
  dsimp only at hl
  split at hl
  · obtain rfl := mem_singleton.mp hl
    exact .inr (.inr ⟨ruleKey_bucketRuleDescriptorKey i 0 "" "", .inl rfl⟩)
  · obtain ⟨h, -, rfl⟩ := mem_map.mp hl
    refine .inr (.inr ⟨ruleKey_bucketRuleDescriptorKey _ _ _ _, ?_⟩)
    split
    · exact .inr rfl
    · exact .inl rfl

theorem buildPerModelDescriptor_labels {d : Descriptor} (h : buildPerModelDescriptor σ m q = .ok d) :
    LabelsIn treeLabels [d] := by
  rw [labelsIn_singleton]
  unfold buildPerModelDescriptor at h
  split at h
  · split at h
    · cases h
    · cases h
      exact ⟨.inr (.inl rfl), labelsIn_nil⟩
  · split at h
    · cases h
    · next nested hnested =>
      split at h
      · cases h
      · next default hdefault =>
        cases h
        refine ⟨.inr (.inl rfl), labelsIn_append.mpr ⟨labelsIn_flatten.mpr ?_, ?_⟩⟩
        · intro ds hds
          obtain ⟨r, -, hbuild⟩ := (mem_mapM hnested).1 ds hds
          have hrule := mapError_eq_ok.mp hbuild
          unfold buildBucketRuleDescriptors at hrule
          split at hrule
          · cases hrule
          · cases hrule
            exact labelsIn_chain _ ruleLabels_subset
        · unfold buildDefaultDescriptor at hdefault
          split at hdefault
          · split at hdefault
            · cases hdefault
            · cases hdefault
              refine labelsIn_singleton.mpr ⟨.inr (.inr ⟨?_, .inl rfl⟩), labelsIn_nil⟩
              exact ruleKey_defaultBucketDescriptorKey _
          · cases hdefault
            exact labelsIn_nil

/-- The descriptors of all policies before they are merged. -/
def syncedDescriptors (σ : HeaderSort) (policies : List QuotaPolicy) : List Descriptor :=
  ((syncQuotaPolicies σ policies).insertionSort fun a b => a.1 ≤ b.1).flatMap fun e =>
    e.2.flatMap RateLimitConfig.descriptors

variable {policies : List QuotaPolicy}

theorem mem_syncQuotaPolicies {e : String × List RateLimitConfig}
    (h : e ∈ (syncQuotaPolicies σ policies).insertionSort fun a b => a.1 ≤ b.1) :
    ∃ p ∈ policies, buildRateLimitConfigs σ p (p.targetRefs.map (targetKey p)) = .ok e.2 := by
  rw [mem_insertionSort] at h
  obtain ⟨p, hp, h⟩ := mem_filterMap.mp h
  split at h
  · cases h
  · next configs hconfigs =>
    cases h
    exact ⟨p, hp, hconfigs⟩

theorem labelsIn_syncedDescriptors : LabelsIn treeLabels (syncedDescriptors σ policies) := by
  unfold syncedDescriptors
  rw [flatMap_def, labelsIn_flatten]
  intro ds hds
  obtain ⟨e, he, rfl⟩ := mem_map.mp hds
  obtain ⟨p, -, hbuild⟩ := mem_syncQuotaPolicies he
  unfold buildRateLimitConfigs at hbuild
  split at hbuild
  · cases hbuild
  next descs hdescs =>
  have hflat : LabelsIn treeLabels descs.flatten := by
    refine labelsIn_flatten.mpr fun ds hds => ?_
    obtain ⟨k, -, hbuild⟩ := (mem_mapM hdescs).1 ds hds
    have h := mapError_eq_ok.mp hbuild
    unfold buildBackendDescriptor at h
    split at h
    · cases h
    · next models hmodels =>
      split at h
      · cases h
      · next service hservice =>
        have hall : LabelsIn treeLabels (models ++ service) := by
          refine labelsIn_append.mpr ⟨labelsIn_iff.mpr ?_, ?_⟩
          · intro d hd
            obtain ⟨x, -, hbuild⟩ := (mem_mapM hmodels).1 d hd
            exact labelsIn_singleton.mp (buildPerModelDescriptor_labels (mapError_eq_ok.mp hbuild))
          · unfold buildServiceQuotaDescriptor at hservice
            split at hservice
            · split at hservice
              · cases hservice
              · cases hservice
                exact labelsIn_singleton.mpr ⟨.inr (.inl rfl), labelsIn_nil⟩
            · cases hservice
              exact labelsIn_nil
        split at h
        · cases h
          exact labelsIn_nil
        · cases h
          exact labelsIn_singleton.mpr ⟨.inl rfl, hall⟩
  split at hbuild
  · rw [← Except.ok.inj hbuild]
    exact labelsIn_nil
  · rw [← Except.ok.inj hbuild]
    simpa using hflat

/-- Merging descriptors is what the recursive function of the source computes. -/
theorem mergeDescriptors_eq_foldl (descs : List Descriptor) :
    mergeDescriptors descs = descs.foldl
      (fun acc d => insertMerging labelKey DescriptorBody.combine mergeDescriptors d acc) [] :=
  merge_eq_foldl descs

theorem mergeDescriptors_append (descs more : List Descriptor) :
    mergeDescriptors (mergeDescriptors descs ++ more) = mergeDescriptors (descs ++ more) := by
  obtain ⟨n, hn⟩ : ∃ n, Within n (descs ++ more) := ⟨_, within_height _⟩
  obtain ⟨hdescs, hmore⟩ := within_append.mp hn
  have hdepth (ts : List Descriptor) (h : Within n ts) :
      mergeDescriptors ts = mergeTo labelKey DescriptorBody.combine n ts :=
    mergeTo_eq_of_within (height_le h) (within_height ts)
  rw [hdepth descs hdescs, hdepth _ (within_append.mpr ⟨within_mergeTo hdescs, hmore⟩), hdepth _ hn,
    mergeTo_mergeTo_append]

/-- The merge has a node at each path of the descriptors and no two nodes at one path (so siblings
differ at every level, `nodup_nodePaths_iff`), each with the first limit at its path and the modes that
some descriptor there has on.  That is so exactly if the map keys tell apart the labels that come
together, and a node that meets no other one with children has different siblings below it. -/
theorem mergeDescriptors_iff (descs : List Descriptor) :
    ((∀ p, p ∈ nodePaths (mergeDescriptors descs) ↔ p ∈ nodePaths descs) ∧
        (nodePaths (mergeDescriptors descs)).Nodup ∧ ∀ p,
          firstAt DescriptorBody.rateLimit p (mergeDescriptors descs) =
              firstAt DescriptorBody.rateLimit p descs ∧
            (p ∈ paths DescriptorBody.quotaMode (mergeDescriptors descs) ↔
              p ∈ paths DescriptorBody.quotaMode descs) ∧
            (p ∈ paths DescriptorBody.shadowMode (mergeDescriptors descs) ↔
              p ∈ paths DescriptorBody.shadowMode descs)) ↔
      Merges labelKey (fun children => (nodePaths children).Nodup) (height descs) descs := by
  rw [← nodePaths_mergeTo_iff (within_height descs)]
  constructor
  · rintro ⟨hpaths, hnodup, -⟩
    exact ⟨hpaths, hnodup⟩
  · rintro ⟨hpaths, hnodup⟩
    have hmerges := (nodePaths_mergeTo_iff (within_height descs)).mp ⟨hpaths, hnodup⟩
    exact ⟨hpaths, hnodup, fun p => ⟨firstAt_mergeTo (fun _ _ => rfl) hmerges p,
      mem_paths_mergeTo (fun _ _ => rfl) hmerges p, mem_paths_mergeTo (fun _ _ => rfl) hmerges p⟩⟩

/-- Two quotas for the model `m`. -/
def listedTwice : QuotaPolicy :=
  { quotaOfB with
    perModelQuotas := [⟨some "m", ⟨⟨1, "1s", none⟩, []⟩⟩, ⟨some "m", ⟨⟨2, "1s", none⟩, []⟩⟩] }

/-- The one backend node meets no other, so its two children with one label stay two. -/
theorem mergeDescriptors_listedTwice :
    mergeDescriptors (syncedDescriptors .insertion [listedTwice]) =
        syncedDescriptors .insertion [listedTwice] ∧
      ¬ (nodePaths (mergeDescriptors (syncedDescriptors .insertion [listedTwice]))).Nodup := by
  refine ⟨rfl, ?_⟩
  decide

theorem serviceTree_eq (σ : HeaderSort) (policies : List QuotaPolicy) :
    serviceTree σ policies = mergeDescriptors (syncedDescriptors σ policies) := by
  unfold serviceTree getMergedConfigs
  dsimp only
  rw [← syncedDescriptors]
  split
  · next hnil =>
    rw [isEmpty_iff.mp hnil]
    rfl
  · simp

/-! ## Top theorem -/

theorem mem_limitPaths_serviceTree_iff {b : String} {path : List Label} :
    basePath b m ++ path ∈ limitPaths (serviceTree σ policies) ↔
      ∃ p ∈ policies, Translates σ p ∧ Targets p b ∧ PolicyLimits σ p m path := by
  have hkeep : ∀ x y : DescriptorBody,
      (x.combine y).rateLimit.isSome = (x.rateLimit.isSome || y.rateLimit.isSome) := by
    simp [DescriptorBody.combine]
  have htargets : ∀ p : QuotaPolicy,
      (∃ k ∈ p.targetRefs.map (targetKey p), keyString k = b) ↔ Targets p b := by
    simp [Targets]
  rw [limitPaths, serviceTree_eq, mergeDescriptors,
    mem_paths_merge labelKey_injOn labelsIn_syncedDescriptors hkeep, syncedDescriptors,
    flatMap_def, mem_paths_flatten]
  constructor
  · rintro ⟨ds, hds, hp⟩
    obtain ⟨e, he, rfl⟩ := mem_map.mp hds
    obtain ⟨p, hpmem, hbuild⟩ := mem_syncQuotaPolicies he
    obtain ⟨hk, hpath⟩ := (buildRateLimitConfigs_limitPaths hbuild b m path).mp hp
    exact ⟨p, hpmem, ⟨_, hbuild⟩, (htargets p).mp hk, hpath⟩
  · rintro ⟨p, hpmem, ⟨configs, hbuild⟩, ht, hpath⟩
    refine ⟨configs.flatMap RateLimitConfig.descriptors,
      mem_map.mpr ⟨(keyString p.key, configs), ?_, rfl⟩, ?_⟩
    · rw [mem_insertionSort]
      refine mem_filterMap.mpr ⟨p, hpmem, ?_⟩
      rw [hbuild]
    · exact (buildRateLimitConfigs_limitPaths hbuild b m path).mpr ⟨(htargets p).mpr ht, hpath⟩

/-- For every list of policies: the limits of the service's tree below a backend and a
model are those of the translated policies that target the backend. -/
theorem mem_limitPaths_serviceTree {b : String} (hm : m ≠ "") {path : List Label} :
    basePath b m ++ path ∈ limitPaths (serviceTree σ policies) ↔
      ∃ p ∈ policies, Translates σ p ∧ Targets p b ∧
        ∃ q, ⟨some m, q⟩ ∈ p.perModelQuotas ∧ path ∈ quotaLimitPaths σ q := by
  simp only [mem_limitPaths_serviceTree_iff, PolicyLimits, mem_modelQuotas, hm, false_and, or_false]

end AgentRouter.Quota
