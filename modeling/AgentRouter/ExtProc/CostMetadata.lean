import AgentRouter.ExtProc.Upstream
import AgentRouter.Metrics.TokenUsage

/-!
# CostMetadata: the costs of a request in the dynamic metadata

A loop over the costs of the routes and one over those of the gateway write into one map; the second
leaves out what the first has written, and four keys are written last (`reservedKeys`).  For every
other key (`dynamicMetadata_holds_last`)

    metadata[k] = the last cost of a route with the key k that is in scope,
                  else the last cost of the gateway with the key k, else nothing
-/

namespace AgentRouter.ExtProc

open List Metrics AgentRouter.Translator

variable {π φ : Type}

/-! ## Algorithm -/

inductive LLMRequestCostType where
  | inputToken | cachedInputToken | cacheCreationInputToken | outputToken | totalToken
  | reasoningToken | cel | other (name : String)

/-- A cost of the gateway; `π` is the type of CEL programs. -/
structure RuntimeGlobalRequestCost (π : Type) where
  metadataKey : String
  type : LLMRequestCostType
  celProg : π

/-- A cost of a route; an empty backend or model stands for all. -/
structure RuntimeRequestCost (π : Type) extends RuntimeGlobalRequestCost π where
  routeName : String
  backend : String
  model : String

/-- `structpb.Value`, as far as it is used; `φ` is the type of floating-point numbers. -/
inductive MetadataValue (φ : Type) where
  | number (n : φ)
  | string (s : String)

/-- What the costs are computed from.  `evaluateProgram` gets the program, the names of model, backend
and route, and the counts of input, cached, cache-creation, output, total and reasoning tokens. -/
structure CostInputs (π φ : Type) where
  evaluateProgram : π → String → String → String →
    UInt32 → UInt32 → UInt32 → UInt32 → UInt32 → UInt32 → Except String UInt64
  float64 : UInt64 → φ
  costs : TokenUsage
  requestHeaders : Headers
  backendName : String
  aiServiceBackendName : String
  routeName : String

def CostInputs.actualModel (c : CostInputs π φ) : String :=
  headerValue c.requestHeaders modelNameHeaderKeyDefault

def evalCost (c : CostInputs π φ) (rc : RuntimeGlobalRequestCost π) : Except String UInt64 :=
  let input := c.costs.inputTokens.getD 0
  let cachedIn := c.costs.cachedInputTokens.getD 0
  let cacheCreation := c.costs.cacheCreationInputTokens.getD 0
  let out := c.costs.outputTokens.getD 0
  let total := c.costs.totalTokens.getD 0
  let reasoning := c.costs.reasoningTokens.getD 0
  match rc.type with
  | .inputToken => .ok input.toUInt64
  | .cachedInputToken => .ok cachedIn.toUInt64
  | .cacheCreationInputToken => .ok cacheCreation.toUInt64
  | .outputToken => .ok out.toUInt64
  | .totalToken => .ok total.toUInt64
  | .reasoningToken => .ok reasoning.toUInt64
  | .cel => (c.evaluateProgram rc.celProg c.actualModel c.backendName c.routeName input cachedIn
      cacheCreation out total reasoning).mapError ("failed to evaluate CEL expression: " ++ ·)
  | .other name => .error ("unknown cost type: " ++ name)

def inScope (c : CostInputs π φ) (rc : RuntimeRequestCost π) : Bool :=
  (rc.backend = "" || rc.backend = c.aiServiceBackendName) && rc.routeName = c.routeName &&
    (rc.model = "" || rc.model = c.actualModel)

/-- The end of both loops' bodies. -/
def addCost (c : CostInputs π φ) (metadata : GoMap String (MetadataValue φ))
    (rc : RuntimeGlobalRequestCost π) : Except String (GoMap String (MetadataValue φ)) := do
  let cost ← evalCost c rc
  return metadata.insert rc.metadataKey (.number (c.float64 cost))

/-- `metadata[key] = value`, left out if `guard` is empty. -/
def setString (guard key value : String) (metadata : GoMap String (MetadataValue φ)) :
    GoMap String (MetadataValue φ) :=
  if guard = "" then metadata else metadata.insert key (.string value)

/-- The fields below the namespace of the gateway. -/
def buildDynamicMetadataWithBackendIdentity (c : CostInputs π φ)
    (globalRequestCosts : List (RuntimeGlobalRequestCost π))
    (requestCosts : List (RuntimeRequestCost π)) (responseModel : String) :
    Except String (GoMap String (MetadataValue φ)) := do
  let routeCosts ← requestCosts.foldlM (fun metadata rc =>
    if inScope c rc then addCost c metadata rc.toRuntimeGlobalRequestCost else return metadata) ∅
  -- `populatedKeys` is set where the map is, so it has the keys of the map at this point
  let metadata ← globalRequestCosts.foldlM (fun metadata rc =>
    if rc.metadataKey ∈ routeCosts then return metadata else addCost c metadata rc) routeCosts
  return setString responseModel "response_model" responseModel
    (setString c.routeName "route_name" c.routeName
      (setString c.backendName "ai_service_backend_name" c.aiServiceBackendName
        (metadata.insert "model_name_override" (.string c.actualModel))))

def reservedKeys : List String :=
  ["model_name_override", "ai_service_backend_name", "route_name", "response_model"]

/-- The last cost with a key. -/
def lastWith (k : String) (rcs : List (RuntimeGlobalRequestCost π)) :
    Option (RuntimeGlobalRequestCost π) :=
  (rcs.filter (·.metadataKey = k)).getLast?

/-! ## Precedence -/

variable {c : CostInputs π φ} {k : String} {rcs : List (RuntimeGlobalRequestCost π)}
  {m metadata : GoMap String (MetadataValue φ)}

theorem lookup_setString {key : String} (h : k ≠ key) (guard value : String) :
    (setString guard key value m).lookup k = m.lookup k := by
  unfold setString
  split
  · rfl
  · exact AList.lookup_insert_ne h

theorem lookup_addCosts (h : rcs.foldlM (addCost c) m = .ok metadata) :
    match lastWith k rcs with
    | some rc => ∃ cost, evalCost c rc = .ok cost ∧
        metadata.lookup k = some (.number (c.float64 cost))
    | none => metadata.lookup k = m.lookup k := by
  unfold lastWith
  -- on the end of the list, where the entry is written that stays
  induction rcs using List.reverseRecOn generalizing metadata with
  | nil =>
    cases h
    rfl
  | append_singleton rcs rc ih =>
    rw [foldlM_append] at h
    obtain ⟨before, hbefore, h⟩ := Results.bind_eq_ok h
    rw [foldlM_cons] at h
    obtain ⟨after, hafter, h⟩ := Results.bind_eq_ok h
    cases h
    obtain ⟨cost, hcost, h⟩ := Results.bind_eq_ok hafter
    cases h
    rw [filter_append]
    by_cases hk : rc.metadataKey = k
    · rw [filter_cons_of_pos (by simpa using hk), filter_nil, getLast?_concat]
      exact ⟨cost, hcost, by rw [← hk, AList.lookup_insert]⟩
    · rw [filter_cons_of_neg (by simpa using hk), filter_nil, append_nil, AList.lookup_insert_ne (Ne.symm hk)]
      exact ih hbefore

theorem lastWith_filter : lastWith k (rcs.filter fun rc => rc.metadataKey ∉ m) =
    if k ∈ m then none else lastWith k rcs := by
  unfold lastWith
  induction rcs using List.reverseRecOn with
  | nil => simp
  | append_singleton rcs rc ih =>
    by_cases hk : rc.metadataKey = k
    · by_cases hm : k ∈ m <;> simp_all
    · by_cases hm : rc.metadataKey ∈ m <;> simp_all

theorem dynamicMetadata_holds_last {globalRequestCosts : List (RuntimeGlobalRequestCost π)}
    {requestCosts : List (RuntimeRequestCost π)} {responseModel : String}
    (h : buildDynamicMetadataWithBackendIdentity c globalRequestCosts requestCosts responseModel =
      .ok metadata) (hk : k ∉ reservedKeys) :
    match (lastWith k ((requestCosts.filter (inScope c)).map (·.toRuntimeGlobalRequestCost))).or
        (lastWith k globalRequestCosts) with
    | some rc => ∃ cost, evalCost c rc = .ok cost ∧
        metadata.lookup k = some (.number (c.float64 cost))
    | none => metadata.lookup k = none := by
  simp only [reservedKeys, mem_cons, not_or] at hk
  obtain ⟨hmodel, hbackend, hroute, hresponse, -⟩ := hk
  obtain ⟨routeCosts, hscoped, h⟩ := Results.bind_eq_ok h
  obtain ⟨written, hwritten, h⟩ := Results.bind_eq_ok h
  cases h
  rw [lookup_setString hresponse, lookup_setString hroute, lookup_setString hbackend,
    AList.lookup_insert_ne hmodel]
  rw [← foldlM_filter, ← foldlM_map] at hscoped
  have hnew : (globalRequestCosts.filter fun rc => rc.metadataKey ∉ routeCosts).foldlM
      (addCost c) routeCosts = .ok written := by
    rw [foldlM_filter]
    simpa using hwritten
  have hfirst := lookup_addCosts (k := k) hscoped
  have hsecond := lookup_addCosts (k := k) hnew
  rw [lastWith_filter] at hsecond
  split at hfirst
  next rc hlast =>
    obtain ⟨cost, hcost, hlookup⟩ := hfirst
    have hmem : k ∈ routeCosts := by
      rw [← AList.lookup_isSome, hlookup]
      rfl
    rw [if_pos hmem, hlookup] at hsecond
    rw [hlast]
    exact ⟨cost, hcost, hsecond⟩
  next hlast =>
    have hnot : k ∉ routeCosts := by
      rw [← AList.lookup_eq_none, hfirst]
      rfl
    rw [if_neg hnot, hfirst] at hsecond
    rw [hlast]
    exact hsecond

def responseInputs : CostInputs Unit UInt64 :=
  ⟨fun _ _ _ _ _ _ _ _ _ _ => .ok 7, id, ⟨some 3, some 5, none, none, none, none⟩, ∅, "b", "b", "r"⟩

/-- Two costs of the route, one of another route and one of the gateway have the same key. -/
def sameKeyMetadata : Except String (GoMap String (MetadataValue UInt64)) :=
  buildDynamicMetadataWithBackendIdentity responseInputs [⟨"cost", .cel, ()⟩]
    [⟨⟨"cost", .inputToken, ()⟩, "r", "", ""⟩, ⟨⟨"cost", .outputToken, ()⟩, "r", "b", ""⟩,
      ⟨⟨"cost", .cel, ()⟩, "s", "", ""⟩] ""

theorem sameKeyMetadata_holds_last : ∃ metadata, sameKeyMetadata = .ok metadata ∧
    ∃ cost, evalCost responseInputs ⟨"cost", .outputToken, ()⟩ = .ok cost ∧
      metadata.lookup "cost" = some (.number cost) := by
  have hbuilt : ∃ metadata, sameKeyMetadata = .ok metadata := ⟨_, rfl⟩
  obtain ⟨metadata, h⟩ := hbuilt
  exact ⟨metadata, h, dynamicMetadata_holds_last (k := "cost") h (by decide)⟩

end AgentRouter.ExtProc
