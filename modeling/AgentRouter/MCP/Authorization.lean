import AgentRouter.Lib.Cut
import AgentRouter.Lib.GoMap
import AgentRouter.Lib.Json
import AgentRouter.Lib.Results
import AgentRouter.Lib.Text

/-!
# Authorization: the rules of an MCP route

`authorizeRequest` goes through the rules of a route in order.  A rule has a target, a source that is
matched against the claims and scopes of the bearer token (if Envoy has verified it), and a CEL
expression.  JWT parsing and CEL are libraries: `parseUnverified` says what is in the map of claims
after the call and whether it reported an error, `compileCEL` gives the program of an expression.

    the first rule that matches decides
      ↔ it denies, or no rule before it denies and fails to match in its scopes only
      (decision_eq_firstMatch_iff)
    with the scopes that a denied request is asked for it is allowed   (challenge_suffices)
-/

namespace AgentRouter.MCPProxy

open Text Results List

/-! ## Configuration -/

/-- `filterapi.AuthorizationAction`. -/
inductive AuthorizationAction where
  | allow | deny
  deriving DecidableEq

/-- `filterapi.JWTClaimValueType`. -/
inductive JWTClaimValueType where
  | string | stringArray

structure JWTClaim where
  name : String
  valueType : JWTClaimValueType
  values : List String

structure JWTSource where
  scopes : List String
  claims : List JWTClaim

structure ToolCall where
  backend : String
  tool : String

/-- `filterapi.MCPRouteAuthorizationRule`. -/
structure AuthorizationRule where
  action : AuthorizationAction
  source : Option JWTSource
  /-- the tools of the target, if there is one. -/
  target : Option (List ToolCall)
  cel : Option String

/-- `filterapi.MCPRouteAuthorization`. -/
structure MCPRouteAuthorization where
  defaultAction : AuthorizationAction
  rules : List AuthorizationRule
  resourceMetadataURL : String
  verifiedJWT : Bool

/-! ## Requests -/

/-- `http.Header`, with canonical keys. -/
abbrev Header : Type := GoMap String (List String)

/-- The first value of a header; empty when there is none. -/
def Header.get (h : Header) (key : String) : String := ((h.lookup key).getD []).headD ""

structure AuthorizationRequest where
  headers : Header
  httpMethod : String
  host : String
  httpPath : String
  mcpMethod : String
  backend : String
  tool : String
  params : Option Json

/-- `jwt.MapClaims`, as the members of a decoded object. -/
abbrev Claims : Type := List (String × Json)

/-- A compiled CEL expression: its value for a request, or why there is none. -/
abbrev CELProgram : Type := AuthorizationRequest → Claims → List String → Except String Bool

/-- What the authorization takes from libraries. -/
structure AuthLib where
  parseUnverified : String → Claims × Option String
  compileCEL : String → Except String CELProgram

structure CompiledRule where
  source : Option JWTSource
  target : List ToolCall
  action : AuthorizationAction
  celProgram : Option CELProgram

structure CompiledAuthorization where
  resourceMetadataURL : String
  rules : List CompiledRule
  defaultAction : AuthorizationAction
  verifiedJWT : Bool

/-- The trimmed CEL expression of a rule, if it has one that is not blank. -/
def AuthorizationRule.celExpression (r : AuthorizationRule) : Option String :=
  (r.cel.map trimSpace).filter fun e => e ≠ ""

def compileRule (lib : AuthLib) (r : AuthorizationRule) : Except String CompiledRule :=
  match r.celExpression with
  | none => .ok ⟨r.source, r.target.getD [], r.action, none⟩
  | some expr =>
    match lib.compileCEL expr with
    | .error e => .error e
    | .ok program => .ok ⟨r.source, r.target.getD [], r.action, some program⟩

def compileAuthorization (lib : AuthLib) :
    Option MCPRouteAuthorization → Except String (Option CompiledAuthorization)
  | none => .ok none
  | some auth => do
    let rules ← auth.rules.mapM (compileRule lib)
    .ok (some ⟨auth.resourceMetadataURL, rules, auth.defaultAction, auth.verifiedJWT⟩)

/-! ## Claims and scopes -/

/-- The value under a key of a decoded object: the last member with that key. -/
def claimAt (claims : Claims) (key : String) : Option Json :=
  (Json.valuesIn key claims).getLast?

def lookupPath : List String → Json → Option Json
  | [], v => some v
  | part :: path, .obj ms => (claimAt ms part).bind (lookupPath path)
  | _ :: _, _ => none

/-- The claim at a dotted path. -/
def lookupClaim (claims : Claims) (path : String) : Option Json :=
  lookupPath (splitOn '.' path) (.obj claims)

def claimHasAllowedString (value : Json) (allowed : List String) : Bool :=
  match value with
  | .arr _ => value.strings.any fun s => decide (s ∈ allowed)
  | .str s => decide (s ∈ allowed)
  | _ => false

def claimSatisfied (claims : Claims) (claim : JWTClaim) : Bool :=
  match lookupClaim claims claim.name with
  | none => false
  | some value =>
    match claim.valueType with
    | .string => match value with
      | .str s => decide (s ∈ claim.values)
      | _ => false
    | .stringArray => claimHasAllowedString value claim.values

def claimsSatisfied (claims : Claims) (required : List JWTClaim) : Bool :=
  required.all (claimSatisfied claims)

def scopesSatisfied (have_ required : List String) : Bool :=
  required.all fun s => decide (s ∈ have_)

/-- `strings.Fields`. -/
def fields (s : String) : List String :=
  ((s.toList.splitOnP isSpace).filter fun w => w ≠ []).map String.ofList

/-- The scopes in one of the claims that may hold them. -/
def scopesOf : Option Json → List String
  | some (.str s) => fields s
  | some (.arr elems) => (Json.arr elems).strings.filter fun s => s ≠ ""
  | _ => []

def extractScopes (claims : Claims) : List String :=
  ["scope", "scp"].flatMap fun key => scopesOf (claimAt claims key)

def bearerToken (header : String) : Except String String :=
  if header = "" then .error "missing Authorization header"
  else
    match Cut.splitN [' '] 2 header.toList with
    | [scheme, token] =>
      if toLower (String.ofList scheme) ≠ "bearer" then .error "invalid Authorization header"
      else if trimSpace (String.ofList token) = "" then .error "missing bearer token"
      else .ok (trimSpace (String.ofList token))
    | _ => .error "invalid Authorization header"

/-! ## The decision -/

structure AuthzContext where
  claims : Claims
  scopes : List String

def newAuthzContext (lib : AuthLib) (headers : Header) (verifiedJWT : Bool) : AuthzContext :=
  if verifiedJWT = false then ⟨[], []⟩
  else
    match bearerToken (headers.get "Authorization") with
    | .error _ => ⟨[], []⟩
    | .ok token =>
      match lib.parseUnverified token with
      | (claims, some _) => ⟨claims, []⟩
      | (claims, none) =>
        ⟨claims.filter fun m => m.1 ≠ "scope" ∧ m.1 ≠ "scp", extractScopes claims⟩

def toolMatches (backend tool : String) (tools : List ToolCall) : Bool :=
  tools.isEmpty || tools.any fun t => decide (t.backend = backend ∧ t.tool = tool)

inductive SourceMatch where
  | matched
  | unmatched
  | missingScopes (required : List String)

/-- The source of a rule; the scopes matter for rules that allow. -/
def matchSource (ac : AuthzContext) (rule : CompiledRule) : SourceMatch :=
  match rule.source with
  | none => .matched
  | some jwt =>
    if claimsSatisfied ac.claims jwt.claims = false then .unmatched
    else if rule.action = .allow ∧ scopesSatisfied ac.scopes jwt.scopes = false then
      .missingScopes jwt.scopes
    else .matched

def evalRuleCEL (ac : AuthzContext) (req : AuthorizationRequest) (rule : CompiledRule) :
    Except String Bool :=
  match rule.celProgram with
  | none => .ok true
  | some program => program req ac.claims ac.scopes

/-- The smallest set of scopes that were missing. -/
def smallerChallenge (challenge required : List String) : List String :=
  if challenge.length = 0 ∨ required.length < challenge.length then required else challenge

/-- The loop over the rules. -/
def authorizeRules (ac : AuthzContext) (req : AuthorizationRequest)
    (defaultAction : AuthorizationAction) : List String → List CompiledRule → Bool × List String
  | challenge, [] => (decide (defaultAction = .allow), challenge)
  | challenge, rule :: rules =>
    if toolMatches req.backend req.tool rule.target = false then
      authorizeRules ac req defaultAction challenge rules
    else
      match matchSource ac rule with
      | .unmatched => authorizeRules ac req defaultAction challenge rules
      | .missingScopes required =>
        authorizeRules ac req defaultAction (smallerChallenge challenge required) rules
      | .matched =>
        match evalRuleCEL ac req rule with
        -- an expression that cannot be evaluated denies the request
        | .error _ => (false, [])
        | .ok false => authorizeRules ac req defaultAction challenge rules
        | .ok true => (decide (rule.action = .allow), [])

/-- The decision, and the scopes to ask for when it is negative. -/
def authorizeRequest (lib : AuthLib) (auth : Option CompiledAuthorization)
    (req : AuthorizationRequest) : Bool × List String :=
  match auth with
  | none => (true, [])
  | some auth =>
    if auth.rules = [] then (decide (auth.defaultAction = .allow), [])
    else authorizeRules (newAuthzContext lib req.headers auth.verifiedJWT) req auth.defaultAction []
      auth.rules

/-- `buildInsufficientScopeHeader`. -/
def buildInsufficientScopeHeader (scopes : List String) (resourceMetadata : String) : String :=
  ", ".intercalate (["Bearer error=\"insufficient_scope\"",
    "scope=" ++ quoted (" ".intercalate scopes)] ++
    (if resourceMetadata = "" then [] else ["resource_metadata=" ++ quoted resourceMetadata]) ++
    ["error_description=\"The token is missing required scopes\""])

/-! ## Lemmas -/

/-- No rule has a CEL expression. -/
def MCPRouteAuthorization.NoCEL (auth : MCPRouteAuthorization) : Prop :=
  ∀ r ∈ auth.rules, r.celExpression = none

/-- No rule has a CEL program. -/
def CompiledAuthorization.NoCEL (auth : CompiledAuthorization) : Prop :=
  ∀ r ∈ auth.rules, r.celProgram = none

theorem compileAuthorization_noCEL {lib : AuthLib} {auth : Option MCPRouteAuthorization}
    {compiled : Option CompiledAuthorization} (hauth : ∀ a ∈ auth, a.NoCEL)
    (h : compileAuthorization lib auth = .ok compiled) : ∀ c ∈ compiled, c.NoCEL := by
  cases auth with
  | none =>
    cases h
    intro c hc
    cases hc
  | some a =>
    obtain ⟨rules, hrules, h⟩ := bind_eq_ok h
    cases h
    intro c hc
    cases hc
    intro r hr
    obtain ⟨rule, hrule, hcompile⟩ := (mem_mapM hrules).1 r hr
    rw [compileRule, hauth a rfl rule hrule] at hcompile
    cases hcompile
    rfl

variable {defaultAction : AuthorizationAction} {req req' : AuthorizationRequest}

theorem authorizeRules_congr {ac : AuthzContext}
    {rules : List CompiledRule} (challenge : List String)
    (hrules : ∀ r ∈ rules, r.celProgram = none) (hbackend : req.backend = req'.backend)
    (htool : req.tool = req'.tool) :
    authorizeRules ac req defaultAction challenge rules =
      authorizeRules ac req' defaultAction challenge rules := by
  induction rules generalizing challenge with
  | nil => rfl
  | cons rule rules ih =>
    have ih := fun challenge => ih challenge fun r hr => hrules r (mem_cons_of_mem _ hr)
    have hcel : ∀ req, evalRuleCEL ac req rule = .ok true := by
      intro req
      unfold evalRuleCEL
      rw [hrules rule mem_cons_self]
    simp only [authorizeRules, hcel, ih, hbackend, htool]

theorem authorizeRequest_congr {lib : AuthLib} {auth : Option CompiledAuthorization} (hauth : ∀ a ∈ auth, a.NoCEL)
    (hheaders : req.headers = req'.headers) (hbackend : req.backend = req'.backend)
    (htool : req.tool = req'.tool) :
    authorizeRequest lib auth req = authorizeRequest lib auth req' := by
  cases auth with
  | none => rfl
  | some a => simp only [authorizeRequest, hheaders, authorizeRules_congr _ (hauth a rfl) hbackend htool]

/-! ## First match -/

section

variable (ac : AuthzContext) (req : AuthorizationRequest) (rule : CompiledRule)

/-- What a rule decides if its target and source match. -/
def outcome : Option Bool :=
  match evalRuleCEL ac req rule with
  | .error _ => some false
  | .ok false => none
  | .ok true => some (decide (rule.action = .allow))

/-- What the loop decides at a rule. -/
def decided : Option Bool :=
  match toolMatches req.backend req.tool rule.target, matchSource ac rule with
  | true, .matched => outcome ac req rule
  | _, _ => none

/-- The scopes that the loop finds missing at a rule. -/
def lacked : Option (List String) :=
  match toolMatches req.backend req.tool rule.target, matchSource ac rule with
  | true, .missingScopes required => some required
  | _, _ => none

theorem authorizeRules_eq (defaultAction : AuthorizationAction) (challenge : List String)
    (rules : List CompiledRule) :
    authorizeRules ac req defaultAction challenge rules =
      match rules.findSome? (decided ac req) with
      | some allowed => (allowed, [])
      | none => (decide (defaultAction = .allow),
          (rules.filterMap (lacked ac req)).foldl smallerChallenge challenge) := by
  induction rules generalizing challenge with
  | nil => rfl
  | cons rule rules ih =>
    simp only [authorizeRules, findSome?_cons, filterMap_cons, decided, lacked, outcome]
    cases toolMatches req.backend req.tool rule.target with
    | false => exact ih challenge
    | true =>
      cases matchSource ac rule with
      | unmatched => exact ih challenge
      | missingScopes required => exact ih (smallerChallenge challenge required)
      | matched =>
        cases evalRuleCEL ac req rule with
        | error e => rfl
        | ok b =>
          cases b with
          | true => rfl
          | false => exact ih challenge

/-- The target of a rule and the claims of its source match the request. -/
def claimsMatch : Bool :=
  toolMatches req.backend req.tool rule.target &&
    rule.source.all fun jwt => claimsSatisfied ac.claims jwt.claims

def scopesMatch : Bool := rule.source.all fun jwt => scopesSatisfied ac.scopes jwt.scopes

/-- What a rule decides if its target, claims, scopes and expression match. -/
def matchOutcome : Option Bool :=
  if claimsMatch ac req rule && scopesMatch ac rule then outcome ac req rule else none

/-- The action of the first rule that matches. -/
def firstMatch (defaultAction : AuthorizationAction) (rules : List CompiledRule) : Bool :=
  (rules.findSome? (matchOutcome ac req)).getD (decide (defaultAction = .allow))

theorem rule_eq :
    decided ac req rule =
      (if claimsMatch ac req rule ∧ (rule.action = .deny ∨ scopesMatch ac rule) then
        outcome ac req rule else none) ∧
    lacked ac req rule =
      if claimsMatch ac req rule ∧ rule.action = .allow ∧ scopesMatch ac rule = false then
        rule.source.map (·.scopes) else none := by
  unfold claimsMatch scopesMatch decided lacked matchSource
  cases toolMatches req.backend req.tool rule.target with
  | false => simp
  | true =>
    cases rule.source with
    | none => simp
    | some jwt =>
      cases hclaims : claimsSatisfied ac.claims jwt.claims with
      | false => simp [hclaims]
      | true =>
        cases hscopes : scopesSatisfied ac.scopes jwt.scopes with
        | true => simp [hclaims, hscopes]
        | false => cases rule.action <;> simp [hclaims, hscopes]

/-- A rule that denies, whose conditions hold but for the scopes. -/
structure DeniesWithoutScopes : Prop where
  deny : rule.action = .deny
  claims : claimsMatch ac req rule = true
  scopes : scopesMatch ac rule = false
  cel : evalRuleCEL ac req rule ≠ .ok false

theorem decided_of_denies (h : DeniesWithoutScopes ac req rule) :
    decided ac req rule = some false ∧ matchOutcome ac req rule = none := by
  obtain ⟨hdeny, hclaims, hscopes, hcel⟩ := h
  simp [rule_eq, matchOutcome, outcome, hdeny, hclaims, hscopes]
  grind

theorem decided_of_not_denies (h : ¬ DeniesWithoutScopes ac req rule) :
    decided ac req rule = matchOutcome ac req rule := by
  rw [(rule_eq ac req rule).1, matchOutcome, outcome]
  have hcel := fun h1 h2 h3 h4 => h ⟨h1, h2, h3, h4⟩
  grind

/-- The scopes of a rule that denies are not looked at. -/
theorem decision_eq_firstMatch_iff (defaultAction : AuthorizationAction)
    (rules : List CompiledRule) :
    (authorizeRules ac req defaultAction [] rules).1 = firstMatch ac req defaultAction rules ↔
      firstMatch ac req defaultAction rules = false ∨
        ∀ rule ∈ rules.takeWhile fun r => (matchOutcome ac req r).isNone,
          ¬ DeniesWithoutScopes ac req rule := by
  have hdecision : (authorizeRules ac req defaultAction [] rules).1 =
      (rules.findSome? (decided ac req)).getD (decide (defaultAction = .allow)) := by
    rw [authorizeRules_eq]
    cases rules.findSome? (decided ac req) <;> rfl
  rw [hdecision, firstMatch]
  clear hdecision
  induction rules with
  | nil => simp
  | cons rule rules ih =>
    rw [findSome?_cons, findSome?_cons, takeWhile_cons]
    by_cases hdenies : DeniesWithoutScopes ac req rule
    · -- the loop ends here, where first match goes on
      obtain ⟨hdecided, hmatch⟩ := decided_of_denies ac req rule hdenies
      rw [hdecided, hmatch]
      constructor
      · intro h
        exact .inl h.symm
      · rintro (h | h)
        · exact h.symm
        · exact absurd hdenies (h rule (by simp))
    · rw [decided_of_not_denies ac req rule hdenies]
      cases matchOutcome ac req rule with
      | none => simpa [hdenies] using ih
      | some allowed => simp

end

def toolCallRequest : AuthorizationRequest :=
  ⟨∅, "POST", "gateway", "/mcp", "tools/call", "github", "list_issues", none⟩

/-- The rule denies what has the scope `admin`. -/
theorem denied_without_scope :
    let rules : List CompiledRule := [⟨some ⟨["admin"], []⟩, [], .deny, none⟩]
    (authorizeRules ⟨[], ["read"]⟩ toolCallRequest .allow [] rules).1 = false ∧
      firstMatch ⟨[], ["read"]⟩ toolCallRequest .allow rules = true :=
  ⟨by decide, by decide⟩

/-! ## Challenges -/

theorem foldl_smallerChallenge {lists : List (List String)} (hlists : ∀ l ∈ lists, l ≠ []) :
    (lists.foldl smallerChallenge [] = [] ∧ lists = [] ∨ lists.foldl smallerChallenge [] ∈ lists) ∧
      ∀ l ∈ lists, (lists.foldl smallerChallenge []).length ≤ l.length := by
  induction lists using List.reverseRecOn with
  | nil => simp
  | append_singleton lists l ih =>
    obtain ⟨hlists, -⟩ := forall_mem_append.mp hlists
    obtain ⟨hmem, hle⟩ := ih hlists
    simp only [foldl_append, foldl_cons, foldl_nil, forall_mem_append, forall_mem_singleton]
    generalize lists.foldl smallerChallenge [] = shortest at hmem hle
    unfold smallerChallenge
    split
    next h =>
      refine ⟨.inr (by simp), fun x hx => ?_, Nat.le_refl _⟩
      rcases h with hnil | hlt
      · rcases hmem with ⟨-, rfl⟩ | hmem
        · cases hx
        · exact absurd (length_eq_zero_iff.mp hnil) (hlists _ hmem)
      · exact hlt.le.trans (hle x hx)
    next h =>
      rcases hmem with ⟨rfl, -⟩ | hmem
      · simp at h
      · exact ⟨.inr (mem_append_left _ hmem), hle, by omega⟩

variable {ac : AuthzContext} {req : AuthorizationRequest}

theorem authorizeRules_denied {challenge : List String} {rules : List CompiledRule}
    (hne : challenge ≠ []) (h : authorizeRules ac req defaultAction [] rules = (false, challenge)) :
    (∀ rule ∈ rules, decided ac req rule = none) ∧ (∃ rule ∈ rules, lacked ac req rule = some challenge) ∧
      ∀ rule ∈ rules, ∀ l, lacked ac req rule = some l → challenge.length ≤ l.length := by
  rw [authorizeRules_eq] at h
  split at h
  · exact absurd (congrArg Prod.snd h).symm hne
  next hnone =>
  obtain rfl := congrArg Prod.snd h
  have hlists : ∀ l ∈ rules.filterMap (lacked ac req), l ≠ [] := by
    rintro l hl rfl
    obtain ⟨rule, -, hl⟩ := mem_filterMap.mp hl
    rw [(rule_eq ac req rule).2, scopesMatch] at hl
    cases hsource : rule.source with
    | none => simp [hsource] at hl
    | some jwt =>
      simp only [hsource, Option.all_some, Option.map_some, Option.ite_none_right_eq_some,
        Option.some.injEq] at hl
      simp [hl, scopesSatisfied] at hl
  obtain ⟨hmem, hle⟩ := foldl_smallerChallenge hlists
  exact ⟨findSome?_eq_none_iff.mp hnone, mem_filterMap.mp (hmem.resolve_left fun h => hne h.1),
    fun rule hrule l hl => hle l (mem_filterMap.mpr ⟨rule, hrule, hl⟩)⟩

section

variable {ac : AuthzContext} {req : AuthorizationRequest} {auth : CompiledAuthorization}
  {challenge : List String}

/-- With the scopes that it is asked for a request is allowed. -/
theorem authorizeRules_challenged (hcel : auth.NoCEL) (hne : challenge ≠ [])
    (hdenied : authorizeRules ac req auth.defaultAction [] auth.rules = (false, challenge)) :
    (authorizeRules ⟨ac.claims, ac.scopes ++ challenge⟩ req auth.defaultAction [] auth.rules).1 =
      true := by
  obtain ⟨hnone, ⟨asked, hasked, hlacked⟩, -⟩ := authorizeRules_denied hne hdenied
  have hdecided : ∀ rule ∈ auth.rules, ∀ ac, decided ac req rule =
      if claimsMatch ac req rule ∧ (rule.action = .deny ∨ scopesMatch ac rule) then
        some (decide (rule.action = .allow)) else none := by
    intro rule hrule ac
    rw [(rule_eq ac req rule).1, outcome, evalRuleCEL, hcel rule hrule]
  -- a rule that denies would have decided
  have hallow : ∀ rule ∈ auth.rules, claimsMatch ac req rule = true → rule.action = .allow := by
    intro rule hrule hclaims
    have hno := hdecided rule hrule ac
    rw [hnone rule hrule] at hno
    cases haction : rule.action with
    | allow => rfl
    | deny => simp [hclaims, haction] at hno
  let ac' : AuthzContext := ⟨ac.claims, ac.scopes ++ challenge⟩
  rw [authorizeRules_eq]
  cases hfound : auth.rules.findSome? (decided ac' req) with
  | none =>
    -- the rule whose scopes were asked for
    have hno := findSome?_eq_none_iff.mp hfound asked hasked
    rw [(rule_eq ac req asked).2, Option.ite_none_right_eq_some] at hlacked
    obtain ⟨⟨hclaims, -⟩, hscopes⟩ := hlacked
    obtain ⟨jwt, hsource, rfl⟩ := Option.map_eq_some_iff.mp hscopes
    have hclaims : claimsMatch ac' req asked = true := hclaims
    have hscopes : scopesMatch ac' asked = true := by
      simp +contextual [scopesMatch, hsource, scopesSatisfied, ac']
    simp [hdecided asked hasked, hclaims, hscopes] at hno
  | some allowed =>
    obtain ⟨rule, hrule, hb⟩ := exists_of_findSome?_eq_some hfound
    rw [hdecided rule hrule, Option.ite_none_right_eq_some] at hb
    obtain ⟨⟨hclaims, -⟩, hb⟩ := hb
    rw [hallow rule hrule hclaims] at hb
    exact (Option.some.inj hb).symm

/-- A request that comes back with a verified token of the same claims and the scopes it was asked
for is allowed. -/
theorem authorizeRequest_challenged {lib : AuthLib} (hcel : auth.NoCEL) (hne : challenge ≠ [])
    (hdenied : authorizeRequest lib (some auth) req = (false, challenge)) {req' : AuthorizationRequest}
    (hbackend : req'.backend = req.backend) (htool : req'.tool = req.tool)
    (htoken : newAuthzContext lib req'.headers auth.verifiedJWT =
      let ac := newAuthzContext lib req.headers auth.verifiedJWT
      ⟨ac.claims, ac.scopes ++ challenge⟩) :
    (authorizeRequest lib (some auth) req').1 = true := by
  unfold authorizeRequest at hdenied ⊢
  dsimp only at hdenied ⊢
  split at hdenied
  · exact absurd (Prod.mk.inj hdenied).2.symm hne
  next hrules =>
    rw [if_neg hrules, htoken, authorizeRules_congr _ hcel hbackend htool]
    exact authorizeRules_challenged hcel hne hdenied

end

/-- The scopes that a request is asked for are the shortest list it lacks, and with them it is
allowed. -/
theorem challenge_suffices (ac : AuthzContext) (req : AuthorizationRequest)
    (auth : CompiledAuthorization) (hcel : auth.NoCEL) (challenge : List String)
    (hne : challenge ≠ [])
    (hdenied : authorizeRules ac req auth.defaultAction [] auth.rules = (false, challenge)) :
    (authorizeRules ⟨ac.claims, ac.scopes ++ challenge⟩ req auth.defaultAction [] auth.rules).1 =
        true ∧
      ∀ rule ∈ auth.rules, rule.action = .allow → claimsMatch ac req rule = true →
        scopesMatch ac rule = false → ∀ jwt ∈ rule.source, challenge.length ≤ jwt.scopes.length := by
  refine ⟨authorizeRules_challenged hcel hne hdenied, ?_⟩
  intro rule hrule hallow hclaims hscopes jwt hjwt
  obtain ⟨-, -, hshortest⟩ := authorizeRules_denied hne hdenied
  refine hshortest rule hrule _ ?_
  rw [(rule_eq ac req rule).2, if_pos ⟨hclaims, hallow, hscopes⟩, Option.mem_def.mp hjwt]
  rfl

/-- Two rules lack scopes, and the shorter list is asked for. -/
theorem asked_for_write :
    let rules : List CompiledRule :=
      [⟨some ⟨["write", "admin"], []⟩, [], .allow, none⟩,
        ⟨some ⟨[], [⟨"team", .string, ["core"]⟩]⟩, [], .deny, none⟩,
        ⟨some ⟨["write"], []⟩, [], .allow, none⟩]
    authorizeRules ⟨[], ["read"]⟩ toolCallRequest .deny [] rules = (false, ["write"]) ∧
      (authorizeRules ⟨[], ["read", "write"]⟩ toolCallRequest .deny [] rules).1 = true :=
  ⟨by decide, (challenge_suffices ⟨[], ["read"]⟩ toolCallRequest ⟨"", _, .deny, true⟩
    (by simp [CompiledAuthorization.NoCEL]) ["write"] (by decide) (by decide)).1⟩

end AgentRouter.MCPProxy
