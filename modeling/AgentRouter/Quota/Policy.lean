import AgentRouter.Kube.ReferenceGrant
import AgentRouter.Lib.GoMap

/-!
# Policy: QuotaPolicies and the backends they apply to

The fields of a QuotaPolicy that the extension server and the rate-limit
translator read, and the first steps both of them take: which targets of a policy
are authorized, and which live policies stand behind each backend key.

    p' ∈ policies under `key` ↔ p' is live, authorized and has a target with that key
      (mem_buildQuotaBackendPolicies)
-/

namespace AgentRouter.Quota

open Kube List

/-! ## Objects -/

/-- `gwapiv1a2.NamespacedPolicyTargetReference`. -/
structure TargetRef where
  group : String
  kind : String
  name : String
  ns : Option String
  deriving DecidableEq

inductive HeaderMatchType where
  | exact | regularExpression | distinct
  deriving DecidableEq

/-- `egv1a1.HeaderMatch`. -/
structure HeaderMatch where
  name : String
  type : Option HeaderMatchType
  value : Option String
  invert : Option Bool
  deriving DecidableEq

/-- `QuotaLimitFromMetadata`. -/
structure LimitFromMetadata where
  metadataNamespace : String
  key : String
  deriving DecidableEq

structure QuotaValue where
  limit : Nat
  duration : String
  fromMetadata : Option LimitFromMetadata
  deriving DecidableEq

structure QuotaRule where
  /-- the header matches of each client selector. -/
  clientSelectors : List (List HeaderMatch)
  quota : QuotaValue
  shadowMode : Option Bool
  deriving DecidableEq

structure QuotaDefinition where
  defaultBucket : QuotaValue
  bucketRules : List QuotaRule
  deriving DecidableEq

structure PerModelQuota where
  modelName : Option String
  quota : QuotaDefinition
  deriving DecidableEq

structure QuotaPolicy where
  key : ObjectKey
  uid : String
  deleting : Bool
  targetRefs : List TargetRef
  serviceQuota : QuotaValue
  perModelQuotas : List PerModelQuota
  deriving DecidableEq

/-! ## Targets -/

def targetNamespace (t : TargetRef) (policyNs : String) : String :=
  match t.ns with
  | none => policyNs
  | some ns => if ns = "" then policyNs else ns

/-- The backend a target of the policy names. -/
def targetKey (p : QuotaPolicy) (t : TargetRef) : ObjectKey := ⟨targetNamespace t p.key.ns, t.name⟩

/-- The `namespace/name` string of a backend. -/
def keyString (k : ObjectKey) : String := namespacedNameKey k.ns k.name

def isAIServiceBackendTarget (t : TargetRef) : Bool :=
  (t.group = "" || t.group = aiServiceBackendGroup) &&
    (t.kind = "" || t.kind = aiServiceBackendKind)

/-- The loop over the targets of one policy; `seen` holds the target keys met so far. -/
def authorizedTargets (s : Store) (p : QuotaPolicy) : List String → List TargetRef → List TargetRef
  | _, [] => []
  | seen, t :: rest =>
    if isAIServiceBackendTarget t = false then authorizedTargets s p seen rest
    else
      let k := targetKey p t
      if keyString k ∈ seen then authorizedTargets s p seen rest
      else
        match validateQuotaPolicyAIServiceBackendReference s p.key.ns k.ns k.name with
        | some _ => authorizedTargets s p (keyString k :: seen) rest
        | none => t :: authorizedTargets s p (keyString k :: seen) rest

/-- The copy of a policy that keeps only its authorized targets. -/
def authorizedCopy (s : Store) (p : QuotaPolicy) : QuotaPolicy :=
  { p with targetRefs := authorizedTargets s p [] p.targetRefs }

def authorizedQuotaPolicies (s : Store) (policies : List QuotaPolicy) : List QuotaPolicy :=
  (policies.map (authorizedCopy s)).filter fun p => p.targetRefs ≠ []

/-- `backends[key] = append(backends[key], policy)`. -/
def addPolicy (m : GoMap String (List QuotaPolicy)) (key : String) (p : QuotaPolicy) :
    GoMap String (List QuotaPolicy) :=
  m.insert key ((m.lookup key).getD [] ++ [p])

def buildQuotaBackendPolicies (policies : List QuotaPolicy) : GoMap String (List QuotaPolicy) :=
  policies.foldl (fun m p =>
    if p.deleting then m
    else p.targetRefs.foldl (fun m t => addPolicy m (keyString (targetKey p t)) p) m) ∅

/-! ## Lemmas -/

/-- The policies stored under a key. -/
def policiesAt (m : GoMap String (List QuotaPolicy)) (key : String) : List QuotaPolicy :=
  (m.lookup key).getD []

theorem mem_policiesAt_addPolicy {m : GoMap String (List QuotaPolicy)} {key k : String} {p q : QuotaPolicy} :
    q ∈ policiesAt (addPolicy m key p) k ↔ q ∈ policiesAt m k ∨ (k = key ∧ q = p) := by
  unfold policiesAt addPolicy
  by_cases h : k = key
  · subst h
    simp
  · simp [h]

theorem mem_policiesAt_foldl {q : QuotaPolicy} {k : String} (es : List (String × QuotaPolicy))
    (m : GoMap String (List QuotaPolicy)) :
    q ∈ policiesAt (es.foldl (fun m e => addPolicy m e.1 e.2) m) k ↔ q ∈ policiesAt m k ∨ (k, q) ∈ es := by
  induction es generalizing m with
  | nil => simp
  | cons e es ih =>
    rw [foldl_cons, ih, mem_policiesAt_addPolicy, mem_cons, or_assoc, Prod.ext_iff]

theorem mem_buildQuotaBackendPolicies {policies : List QuotaPolicy} {q : QuotaPolicy} {k : String} :
    q ∈ policiesAt (buildQuotaBackendPolicies policies) k ↔
      q ∈ policies ∧ q.deleting = false ∧ ∃ t ∈ q.targetRefs, keyString (targetKey q t) = k := by
  -- the two loops add one entry after the other
  have hentries : buildQuotaBackendPolicies policies =
      ((policies.filter fun p => !p.deleting).flatMap fun p =>
        p.targetRefs.map fun t => (keyString (targetKey p t), p)).foldl
          (fun m e => addPolicy m e.1 e.2) ∅ := by
    rw [foldl_flatMap, foldl_filter]
    unfold buildQuotaBackendPolicies
    congr 1
    funext m p
    rw [foldl_map]
    cases p.deleting <;> rfl
  rw [hentries, mem_policiesAt_foldl]
  simp [policiesAt, and_assoc]

end AgentRouter.Quota
