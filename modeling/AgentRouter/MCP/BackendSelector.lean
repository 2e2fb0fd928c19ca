import AgentRouter.MCP.Authorization

/-!
# BackendSelector: the backends that a session may use

`selectAuthorizedBackends` asks the rules of a selector about each backend of a route, in any order,
with one context.  The token is parsed once.  The activation of the CEL expressions is built for the
first backend that comes to an expression and patched for the others; all that differs between
backends is patched:

    the backends selected are those that a context of their own allows
      (selectAuthorizedBackends_eq_fresh)
-/

namespace AgentRouter.MCPProxy

/-! ## Algorithm -/

/-- The variables of a CEL expression. -/
structure Activation where
  request : AuthorizationRequest
  claims : Claims
  scopes : List String

/-- The context of several checks, with the activation once it is built. -/
structure SharedContext extends AuthzContext where
  activation : Option Activation

def buildCELActivation (req : AuthorizationRequest) (ac : AuthzContext) : Activation :=
  ⟨req, ac.claims, ac.scopes⟩

/-- `request.mcp` is overwritten. -/
def Activation.patch (act : Activation) (req : AuthorizationRequest) : Activation :=
  { act with request := { act.request with
      mcpMethod := req.mcpMethod, backend := req.backend, tool := req.tool, params := req.params } }

def SharedContext.activationFor (a : SharedContext) (req : AuthorizationRequest) :
    Activation × SharedContext :=
  let act := match a.activation with
    | none => buildCELActivation req a.toAuthzContext
    | some act => act.patch req
  (act, { a with activation := some act })

/-- The activation is asked for at the first expression. -/
def SharedContext.activationOnce (a : SharedContext) (req : AuthorizationRequest) :
    Option Activation → Activation × SharedContext
  | none => a.activationFor req
  | some act => (act, a)

/-- The loop over the rules. -/
def authorizeRequestWith (req : AuthorizationRequest) (defaultAction : AuthorizationAction) :
    SharedContext → Option Activation → List String → List CompiledRule →
      (Bool × List String) × SharedContext
  | a, _, challenge, [] => ((decide (defaultAction = .allow), challenge), a)
  | a, celActivation, challenge, rule :: rules =>
    if toolMatches req.backend req.tool rule.target = false then
      authorizeRequestWith req defaultAction a celActivation challenge rules
    else
      match matchSource a.toAuthzContext rule with
      | .unmatched => authorizeRequestWith req defaultAction a celActivation challenge rules
      | .missingScopes required =>
        authorizeRequestWith req defaultAction a celActivation (smallerChallenge challenge required)
          rules
      | .matched =>
        match rule.celProgram with
        | none => ((decide (rule.action = .allow), []), a)
        | some program =>
          let (act, a) := a.activationOnce req celActivation
          match program act.request act.claims act.scopes with
          | .error _ => ((false, []), a)
          | .ok false => authorizeRequestWith req defaultAction a (some act) challenge rules
          | .ok true => ((decide (rule.action = .allow), []), a)

/-- What is known of a request when its backend is selected. -/
def selectorRequest (headers : Header) (backend : String) : AuthorizationRequest :=
  ⟨headers, "", "", "", "", backend, "", none⟩

variable {β : Type}

def selectLoop (auth : CompiledAuthorization) (headers : Header) :
    SharedContext → List (String × β) → List (String × β)
  | _, [] => []
  | a, backend :: backends =>
    let (allowed, a) := authorizeRequestWith (selectorRequest headers backend.1) auth.defaultAction a
      none [] auth.rules
    (if allowed.1 then [backend] else []) ++ selectLoop auth headers a backends

def selectAuthorizedBackends (lib : AuthLib) (order : IterOrder String β) (routeName : String)
    (backendSelector : Option CompiledAuthorization) (headers : Header)
    (backends : GoMap String β) : Except String (List (String × β)) :=
  match backendSelector with
  | none => .ok (order.visit backends)
  | some auth =>
    match selectLoop auth headers ⟨newAuthzContext lib headers auth.verifiedJWT, none⟩
        (order.visit backends) with
    | [] => .error ("backendSelector matches no route backends for route " ++ routeName)
    | filtered => .ok filtered

/-! ## Lemmas -/

section

variable (ac : AuthzContext) (headers : Header)

/-- The activation that a context of its own builds for a backend. -/
def freshActivation (backend : String) : Activation :=
  buildCELActivation (selectorRequest headers backend) ac

/-- The activation is that of one of the backends. -/
structure Shared (a : SharedContext) : Prop where
  context : a.toAuthzContext = ac
  activation : ∀ act ∈ a.activation, ∃ backend, act = freshActivation ac headers backend

variable {ac headers} {a : SharedContext} {celActivation : Option Activation} {backend : String}

theorem Shared.activationOnce (h : Shared ac headers a)
    (hcel : ∀ act ∈ celActivation, act = freshActivation ac headers backend) :
    (a.activationOnce (selectorRequest headers backend) celActivation).1 =
        freshActivation ac headers backend ∧
      Shared ac headers (a.activationOnce (selectorRequest headers backend) celActivation).2 := by
  cases celActivation with
  | some act => exact ⟨hcel act rfl, h⟩
  | none =>
    have hfresh : (a.activationFor (selectorRequest headers backend)).1 =
        freshActivation ac headers backend := by
      unfold SharedContext.activationFor
      cases hact : a.activation with
      | none => simp only [h.context, freshActivation]
      | some act =>
        obtain ⟨other, hother⟩ := h.activation act hact
        rw [hother]
        rfl
    refine ⟨hfresh, h.context, ?_⟩
    rintro act ⟨⟩
    exact ⟨backend, hfresh⟩

theorem authorizeRequestWith_eq (defaultAction : AuthorizationAction) (rules : List CompiledRule)
    (h : Shared ac headers a)
    (hcel : ∀ act ∈ celActivation, act = freshActivation ac headers backend)
    (challenge : List String) :
    let r := authorizeRequestWith (selectorRequest headers backend) defaultAction a celActivation
      challenge rules
    r.1 = authorizeRules ac (selectorRequest headers backend) defaultAction challenge rules ∧
      Shared ac headers r.2 := by
  induction rules generalizing a celActivation challenge with
  | nil => exact ⟨rfl, h⟩
  | cons rule rules ih =>
    simp only [authorizeRequestWith, authorizeRules, evalRuleCEL, h.context]
    cases toolMatches (selectorRequest headers backend).backend (selectorRequest headers backend).tool
      rule.target with
    | false => exact ih h hcel challenge
    | true =>
      cases matchSource ac rule with
      | unmatched => exact ih h hcel challenge
      | missingScopes required => exact ih h hcel _
      | matched =>
        cases rule.celProgram with
        | none => exact ⟨rfl, h⟩
        | some program =>
          obtain ⟨hact, hshared⟩ := h.activationOnce hcel
          simp only [hact, freshActivation, buildCELActivation]
          cases program (selectorRequest headers backend) ac.claims ac.scopes with
          | error e => exact ⟨rfl, hshared⟩
          | ok b =>
            cases b with
            | true => exact ⟨rfl, hshared⟩
            | false => exact ih hshared (by rintro act ⟨⟩; rfl) challenge

theorem selectLoop_eq_filter (auth : CompiledAuthorization) (backends : List (String × β))
    (h : Shared ac headers a) :
    selectLoop auth headers a backends = backends.filter fun b =>
      (authorizeRules ac (selectorRequest headers b.1) auth.defaultAction [] auth.rules).1 := by
  induction backends generalizing a with
  | nil => rfl
  | cons b backends ih =>
    obtain ⟨hallowed, hshared⟩ := @authorizeRequestWith_eq ac headers a none b.1 auth.defaultAction
      auth.rules h (by simp) []
    simp only [selectLoop, hallowed, ih hshared, List.filter_cons]
    split <;> rfl

end

/-! ## Top theorem -/

/-- In every order, the backends are those that a context of their own allows. -/
theorem selectAuthorizedBackends_eq_fresh (lib : AuthLib) (order : IterOrder String β)
    (routeName : String) (auth : CompiledAuthorization) (headers : Header)
    (backends : GoMap String β) :
    selectAuthorizedBackends lib order routeName (some auth) headers backends =
      match (order.visit backends).filter fun b =>
          (authorizeRequest lib (some auth) (selectorRequest headers b.1)).1 with
      | [] => .error ("backendSelector matches no route backends for route " ++ routeName)
      | filtered => .ok filtered := by
  have hfresh : ∀ req, authorizeRequest lib (some auth) req =
      authorizeRules (newAuthzContext lib req.headers auth.verifiedJWT) req auth.defaultAction []
        auth.rules := by
    intro req
    simp only [authorizeRequest]
    split
    next hrules =>
      rw [hrules]
      rfl
    · rfl
  simp only [selectAuthorizedBackends, hfresh]
  rw [selectLoop_eq_filter auth _ ⟨rfl, by simp⟩]
  rfl

end AgentRouter.MCPProxy
