import AgentRouter.Kube.ReferenceGrant

/-!
# HTTPRoute: the route the controller generates for an AIGatewayRoute

`newHTTPRoute` turns every rule into an HTTPRoute rule and closes the list with
the `route-not-found` rule.  Inside a rule a backendRef that fails validation (no
ReferenceGrant for a cross-namespace reference, or no AIServiceBackend under that
name) is dropped and its error is kept, so the generated backendRefs are a
sublist of the rule's.  `producedFrom` keeps, next to each generated backendRef,
the index of the backendRef it was produced from:

    (ruleBackendRefs s route refs).1 = (producedFrom s route refs).map Prod.fst
      (ruleBackendRefs_eq_producedFrom)
    a backendRef is kept ↔ `Authorized`   (httpBackendRef_isOk_iff)
-/

namespace AgentRouter.Controller

open Kube

/-! ## Algorithm -/

structure HTTPBackendRef where
  ref : BackendObjectReference
  weight : Option Int

structure HTTPRouteMatch where
  headers : List HTTPHeaderMatch
  pathValue : String

structure HTTPRouteRule where
  name : Option String
  backendRefs : List HTTPBackendRef
  ruleMatches : List HTTPRouteMatch
  /-- the name of the `HTTPRouteFilter` in the extension ref. -/
  filter : String
  timeouts : Option HTTPRouteTimeouts

def getHostRewriteFilterName (baseName : String) : String := "ai-eg-host-rewrite-" ++ baseName

def getRouteNotFoundFilterName (baseName : String) : String :=
  "ai-eg-route-not-found-response-" ++ baseName

/-- The grant check of a backendRef: only a cross-namespace reference is checked. -/
def refGrantError (s : Store) (routeNs : String) (br : RuleBackendRef) : Option Reference :=
  if br.isCrossNamespace routeNs then
    if br.isInferencePool then
      validateInferencePoolReference s routeNs (br.getNamespace routeNs) br.name
    else validateAIServiceBackendReference s routeNs (br.getNamespace routeNs) br.name
  else none

def validateAndGetBackend (s : Store) (routeNs : String) (br : RuleBackendRef) :
    Except String AIServiceBackend :=
  let backendNamespace := br.getNamespace routeNs
  match refGrantError s routeNs br with
  | some r => .error r.notPermitted
  | none =>
    match s.getAIServiceBackend ⟨backendNamespace, br.name⟩ with
    | none => .error ("AIServiceBackend " ++ br.name ++ "." ++ backendNamespace ++ " not found")
    | some b => .ok b

/-- One pass of the inner loop: the generated backendRef, or the error that drops it. -/
def httpBackendRef (s : Store) (routeNs : String) (br : RuleBackendRef) :
    Except String HTTPBackendRef :=
  let backendNamespace := br.getNamespace routeNs
  if br.isInferencePool then
    match refGrantError s routeNs br with
    | some r => .error r.notPermitted
    | none => .ok ⟨⟨br.group, br.kind, br.name, some backendNamespace, none⟩, br.weight⟩
  else
    match validateAndGetBackend s routeNs br with
    | .error e =>
      .error ("failed to get AIServiceBackend " ++
        namespacedNameIndexKey br.name backendNamespace ++ ": " ++ e)
    | .ok backend =>
      -- the namespace is made explicit only for a backend outside the route's namespace
      let ref := backend.backendRef
      let ref := if ref.ns = none ∧ backend.key.ns ≠ "" ∧ backend.key.ns ≠ routeNs then
        { ref with ns := some backend.key.ns } else ref
      .ok ⟨ref, br.weight⟩

/-- The inner loop: the backendRefs of the generated rule and the collected errors. -/
def ruleBackendRefs (s : Store) (routeNs : String) :
    List RuleBackendRef → List HTTPBackendRef × List String
  | [] => ([], [])
  | br :: rest =>
    let r := ruleBackendRefs s routeNs rest
    match httpBackendRef s routeNs br with
    | .ok h => (h :: r.1, r.2)
    | .error e => (r.1, e :: r.2)

def newHTTPRouteRule (s : Store) (rootPrefix : String) (route : AIGatewayRoute)
    (rule : AIGatewayRouteRule) : HTTPRouteRule where
  name := rule.name
  backendRefs := (ruleBackendRefs s route.key.ns rule.backendRefs).1
  ruleMatches := rule.ruleMatches.map (⟨·, rootPrefix⟩)
  filter := getHostRewriteFilterName route.key.name
  timeouts := some rule.getTimeoutsOrDefault

def routeNotFoundRule (rootPrefix : String) (route : AIGatewayRoute) : HTTPRouteRule where
  name := some "route-not-found"
  backendRefs := []
  ruleMatches := [⟨[], rootPrefix⟩]
  filter := getRouteNotFoundFilterName route.key.name
  timeouts := none

/-- The generated rules and the errors that `errors.Join` returns. -/
def newHTTPRoute (s : Store) (rootPrefix : String) (route : AIGatewayRoute) :
    List HTTPRouteRule × List String :=
  (route.rules.map (newHTTPRouteRule s rootPrefix route) ++ [routeNotFoundRule rootPrefix route],
    route.rules.flatMap fun rule => (ruleBackendRefs s route.key.ns rule.backendRefs).2)

/-! ## Which backendRefs survive -/

/-- The reference is permitted, and what it names exists: an AIServiceBackend must
be there under that name, an InferencePool is not looked up. -/
def Authorized (s : Store) (routeNs : String) (br : RuleBackendRef) : Prop :=
  refGrantError s routeNs br = none ∧
    (br.isInferencePool = true ∨
      (s.getAIServiceBackend ⟨br.getNamespace routeNs, br.name⟩).isSome = true)

instance (s : Store) (routeNs : String) (br : RuleBackendRef) :
    Decidable (Authorized s routeNs br) :=
  inferInstanceAs (Decidable (_ ∧ _))

/-- Every generated backendRef of a rule with the index it was produced from. -/
def producedFrom (s : Store) (routeNs : String) (refs : List RuleBackendRef) :
    List (HTTPBackendRef × Nat) :=
  refs.zipIdx.filterMap fun p => (httpBackendRef s routeNs p.1).toOption.map (·, p.2)

/-! ## Lemmas -/

variable (s : Store) (routeNs : String)

theorem validateAndGetBackend_isOk_iff (br : RuleBackendRef) :
    (∃ b, validateAndGetBackend s routeNs br = .ok b) ↔ refGrantError s routeNs br = none ∧
      (s.getAIServiceBackend ⟨br.getNamespace routeNs, br.name⟩).isSome = true := by
  unfold validateAndGetBackend
  dsimp only
  cases refGrantError s routeNs br with
  | some r => simp
  | none => cases s.getAIServiceBackend ⟨br.getNamespace routeNs, br.name⟩ <;> simp

theorem httpBackendRef_isOk_iff (br : RuleBackendRef) :
    (∃ h, httpBackendRef s routeNs br = .ok h) ↔ Authorized s routeNs br := by
  unfold Authorized httpBackendRef
  by_cases hp : br.isInferencePool = true
  · simp only [hp, if_true, true_or, and_true]
    cases refGrantError s routeNs br <;> simp
  · simp only [hp, Bool.false_eq_true, if_false, false_or]
    rw [← validateAndGetBackend_isOk_iff]
    cases validateAndGetBackend s routeNs br <;> simp

theorem httpBackendRef_weight {s : Store} {routeNs : String} {br : RuleBackendRef}
    {h : HTTPBackendRef} (hok : httpBackendRef s routeNs br = .ok h) : h.weight = br.weight := by
  unfold httpBackendRef at hok
  split at hok
  · split at hok
    · cases hok
    · cases hok; rfl
  · split at hok
    · cases hok
    · cases hok; rfl

theorem ruleBackendRefs_fst (refs : List RuleBackendRef) :
    (ruleBackendRefs s routeNs refs).1 = refs.filterMap fun br => (httpBackendRef s routeNs br).toOption := by
  induction refs with
  | nil => rfl
  | cons br rest ih =>
    unfold ruleBackendRefs
    cases h : httpBackendRef s routeNs br <;> simp [h, Except.toOption, ih]

theorem ruleBackendRefs_eq_producedFrom (refs : List RuleBackendRef) :
    (ruleBackendRefs s routeNs refs).1 = (producedFrom s routeNs refs).map Prod.fst := by
  rw [ruleBackendRefs_fst, producedFrom, List.map_filterMap]
  have hf : (fun p : RuleBackendRef × Nat =>
      Option.map Prod.fst ((httpBackendRef s routeNs p.1).toOption.map (·, p.2))) =
      (fun br => (httpBackendRef s routeNs br).toOption) ∘ Prod.fst := by
    simp [Function.comp_def]
  rw [hf, ← List.filterMap_map, List.zipIdx_map_fst]

end AgentRouter.Controller
