import AgentRouter.Controller.MCPRoute
import AgentRouter.MCP.Authorization

/-!
# RouteConfig: how the MCP proxy gets the configuration of a route

The controller copies an MCPRoute into the filter configuration (`mcpConfig`); the proxy compiles
it into tables by backend name (`loadConfig`).  A backend in prefix mode Never exposes its tools
under their bare names, which is why the controller demands that it enumerates them and that no
two such backends enumerate the same name.

`neverModeIndex` maps a bare name to the backend that is entitled to it:

    index[n] = b  →  b is in mode Never, and its selector includes and allows n
      (lookup_neverModeIndex)
    the spec is accepted, b is in mode Never and its tool selector allows n  →  index[n] = b
      (Loaded.toolIndex_of_allows)
-/

namespace AgentRouter.MCPProxy

open Text Results List
open MCPSync (PrefixMode)

/-! ## The MCPRoute -/

/-- `MCPToolFilter` and `MCPPromptFilter`, and the selectors of the filter configuration. -/
structure Selector where
  includes : List String
  includeRegex : List String
  excludes : List String
  excludeRegex : List String
  deriving DecidableEq

/-- `MCPRouteBackendRef`. -/
structure BackendRefSpec where
  name : String
  toolSelector : Option Selector
  promptSelector : Option Selector
  prefixMode : Option PrefixMode

structure ClaimSpec where
  name : String
  valueType : Option JWTClaimValueType
  values : List String

/-- `MCPRouteAuthorizationRule`. -/
structure RuleSpec where
  action : Option AuthorizationAction
  source : Option (List String × List ClaimSpec)
  target : Option (List ToolCall)
  cel : Option String

/-- `MCPRouteAuthorization`. -/
structure AuthorizationSpec where
  defaultAction : Option AuthorizationAction
  rules : List RuleSpec

/-- What the proxy gets to know of an MCPRoute; `oauth` is the URL of the resource metadata of a
route with OAuth. -/
structure RouteSpec where
  ns : String
  name : String
  deleting : Bool
  backendRefs : List BackendRefSpec
  prefixMode : Option PrefixMode
  authorization : Option AuthorizationSpec
  oauth : Option String

/-- The reference as the admission check sees it. -/
def BackendRefSpec.admission (b : BackendRefSpec) : MCPSync.BackendRef where
  ref := { name := b.name, ns := none, kind := none, group := none, port := none }
  path := none
  toolSelector := b.toolSelector.map (·.includes)
  promptSelector := b.promptSelector.map (·.includes)
  apiKey := none
  prefixMode := b.prefixMode

/-- The route as the admission check sees it. -/
def RouteSpec.admission (r : RouteSpec) : MCPSync.MCPRoute where
  name := r.name
  deleting := r.deleting
  labels := []
  annotations := []
  parentRefs := []
  hostnames := []
  path := none
  headers := []
  backendRefs := r.backendRefs.map (·.admission)
  securityPolicy := none
  prefixMode := r.prefixMode

/-! ## The filter configuration -/

/-- `filterapi.MCPBackend`. -/
structure MCPBackend where
  name : String
  toolSelector : Option Selector
  promptSelector : Option Selector
  prefixMode : Option PrefixMode
  deriving DecidableEq

/-- `filterapi.MCPRoute`. -/
structure MCPRoute where
  name : String
  backends : List MCPBackend
  authorization : Option MCPRouteAuthorization
  prefixMode : Option PrefixMode

def mcpBackend (b : BackendRefSpec) : MCPBackend :=
  ⟨b.name, b.toolSelector, b.promptSelector, b.prefixMode⟩

def mcpClaim (c : ClaimSpec) : JWTClaim := ⟨c.name, c.valueType.getD .string, c.values⟩

def mcpRule (r : RuleSpec) : AuthorizationRule where
  action := r.action.getD .allow
  source := r.source.map fun jwt => ⟨jwt.1, jwt.2.map mcpClaim⟩
  target := r.target
  cel := r.cel

def mcpAuthorization (r : RouteSpec) : Option MCPRouteAuthorization :=
  r.authorization.map fun auth =>
    { defaultAction := auth.defaultAction.getD .deny
      rules := auth.rules.map mcpRule
      resourceMetadataURL := r.oauth.getD ""
      verifiedJWT := r.oauth.isSome }

/-- `NamespacedNameKey`. -/
def RouteSpec.key (r : RouteSpec) : String := r.ns ++ "/" ++ r.name

def mcpRoute (r : RouteSpec) : MCPRoute where
  name := r.key
  backends := r.backendRefs.map mcpBackend
  authorization := mcpAuthorization r
  -- the route's own mode is only passed on when it is Never
  prefixMode := if r.prefixMode = some .never then some .never else none

def mcpConfig (routes : List RouteSpec) : List MCPRoute :=
  (routes.filter fun r => r.deleting = false).map mcpRoute

/-! ## The tables of the proxy -/

/-- What the proxy takes from libraries: authorization, regular expressions, and the order in which
a set of names is visited. -/
structure ConfigLib extends AuthLib where
  compileRegexp : String → Except String (String → Bool)
  order : IterOrder String Unit

structure ToolSelector where
  includes : GoMap String Unit
  includeRegexps : List (String → Bool)
  excludes : GoMap String Unit
  excludeRegexps : List (String → Bool)

def ToolSelector.allows (t : ToolSelector) (tool : String) : Bool :=
  if (t.excludes.lookup tool).isSome then false
  else if t.excludeRegexps.any fun re => re tool then false
  else if t.includes.keys ≠ [] then (t.includes.lookup tool).isSome
  else if t.includeRegexps ≠ [] then t.includeRegexps.any fun re => re tool
  else true

/-- `mcpProxyConfigRoute`. -/
structure ProxyRoute where
  backends : GoMap String MCPBackend
  toolSelectors : GoMap String ToolSelector
  promptSelectors : GoMap String ToolSelector
  authorization : Option CompiledAuthorization
  routePrefixMode : Option PrefixMode
  neverModeToolIndex : GoMap String String
  neverModePromptIndex : GoMap String String

/-- A backend's own mode, or else that of the route. -/
def effectivePrefixMode (backends : GoMap String MCPBackend) (routeMode : Option PrefixMode)
    (backend : String) : Option PrefixMode :=
  ((backends.lookup backend).bind (·.prefixMode)).or routeMode

def ProxyRoute.effectivePrefixMode (r : ProxyRoute) (backend : String) : Option PrefixMode :=
  MCPProxy.effectivePrefixMode r.backends r.routePrefixMode backend

/-! ## Loading -/

def compileRegexps (lib : ConfigLib) (kind backend route : String) (exprs : List String) :
    Except String (List (String → Bool)) :=
  exprs.mapM fun expr => (lib.compileRegexp expr).mapError fun e =>
    "failed to compile " ++ kind ++ " regex " ++ quoted expr ++ " for backend " ++ quoted backend ++
      " in route " ++ quoted route ++ ": " ++ e

def nameSet (names : List String) : GoMap String Unit :=
  GoMap.setEach ∅ (names.map fun n => (n, ()))

def buildSelector (lib : ConfigLib) (includeKind excludeKind backend route : String)
    (s : Selector) : Except String ToolSelector := do
  let includeRegexps ← compileRegexps lib includeKind backend route s.includeRegex
  let excludeRegexps ← compileRegexps lib excludeKind backend route s.excludeRegex
  .ok ⟨nameSet s.includes, includeRegexps, nameSet s.excludes, excludeRegexps⟩

/-- The tables that are filled in the loop over the backends. -/
structure Tables where
  backends : GoMap String MCPBackend
  toolSelectors : GoMap String ToolSelector
  promptSelectors : GoMap String ToolSelector

def setSelector (lib : ConfigLib) (includeKind excludeKind backend route : String)
    (selectors : GoMap String ToolSelector) : Option Selector →
    Except String (GoMap String ToolSelector)
  | none => .ok selectors
  | some s => do
    let ts ← buildSelector lib includeKind excludeKind backend route s
    .ok (selectors.insert backend ts)

def loadBackend (lib : ConfigLib) (route : String) (t : Tables) (b : MCPBackend) :
    Except String Tables := do
  let tools ← setSelector lib "include" "exclude" b.name route t.toolSelectors b.toolSelector
  let prompts ← setSelector lib "prompt include" "prompt exclude" b.name route t.promptSelectors
    b.promptSelector
  .ok ⟨t.backends.insert b.name b, tools, prompts⟩

def loadBackends (lib : ConfigLib) (route : String) : Tables → List MCPBackend →
    Except String Tables
  | t, [] => .ok t
  | t, b :: bs => do
    let t ← loadBackend lib route t b
    loadBackends lib route t bs

/-- The loop over the names one backend includes: the first claim of a name is kept. -/
def claimNames (allows : String → Bool) (backend : String) :
    GoMap String String → List String → GoMap String String
  | index, [] => index
  | index, n :: ns =>
    if allows n = false then claimNames allows backend index ns
    else if (index.lookup n).isSome then claimNames allows backend index ns
    else claimNames allows backend (index.insert n backend) ns

/-- The names one backend claims. -/
def claimFor (ord : IterOrder String Unit) (mode : String → Option PrefixMode)
    (selectors : GoMap String ToolSelector) (index : GoMap String String) (b : MCPBackend) :
    GoMap String String :=
  if mode b.name ≠ some .never then index
  else
    match selectors.lookup b.name with
    | none => index
    | some ts => claimNames ts.allows b.name index ((ord.visit ts.includes).map Prod.fst)

def neverModeIndex (ord : IterOrder String Unit) (mode : String → Option PrefixMode)
    (selectors : GoMap String ToolSelector) (backends : List MCPBackend) : GoMap String String :=
  backends.foldl (claimFor ord mode selectors) ∅

def loadRoute (lib : ConfigLib) (r : MCPRoute) : Except String ProxyRoute := do
  let authorization ← (compileAuthorization lib.toAuthLib r.authorization).mapError fun e =>
    "failed to compile authorization rules for route " ++ r.name ++ ": " ++ e
  let t ← loadBackends lib r.name ⟨∅, ∅, ∅⟩ r.backends
  let mode := effectivePrefixMode t.backends r.prefixMode
  .ok { backends := t.backends
        toolSelectors := t.toolSelectors
        promptSelectors := t.promptSelectors
        authorization := authorization
        routePrefixMode := r.prefixMode
        neverModeToolIndex := neverModeIndex lib.order mode t.toolSelectors r.backends
        neverModePromptIndex := neverModeIndex lib.order mode t.promptSelectors r.backends }

def loadRoutes (lib : ConfigLib) : GoMap String ProxyRoute → List MCPRoute →
    Except String (GoMap String ProxyRoute)
  | routes, [] => .ok routes
  | routes, r :: rs => do
    let route ← loadRoute lib r
    loadRoutes lib (routes.insert r.name route) rs

/-- `LoadConfig`: the routes by name. -/
def loadConfig (lib : ConfigLib) (config : List MCPRoute) : Except String (GoMap String ProxyRoute) :=
  loadRoutes lib ∅ config

/-! ## The index of bare names -/

theorem lookup_claimNames (allows : String → Bool) (backend n : String) (index : GoMap String String)
    (ns : List String) :
    (claimNames allows backend index ns).lookup n =
      (index.lookup n).or (if n ∈ ns ∧ allows n = true then some backend else none) := by
  induction ns generalizing index with
  | nil => simp [claimNames]
  | cons x ns ih =>
    rw [claimNames]
    split
    next hx =>
      rw [ih]
      by_cases hn : n = x
      · subst hn
        simp [hx]
      · simp [hn]
    next hx =>
      split
      next hsome =>
        rw [ih]
        by_cases hn : n = x
        · subst hn
          obtain ⟨c, hc⟩ := Option.isSome_iff_exists.mp hsome
          rw [hc]
          rfl
        · simp [hn]
      next hnone =>
        rw [Option.not_isSome_iff_eq_none] at hnone
        rw [ih]
        by_cases hn : n = x
        · subst hn
          rw [hnone]
          simp [hx]
        · simp [hn, AList.lookup_insert_ne hn]

/-- A backend in mode Never whose selector includes the name and allows it. -/
def Entitled (mode : String → Option PrefixMode) (selectors : GoMap String ToolSelector)
    (n backend : String) : Prop :=
  mode backend = some .never ∧
    ∃ ts, selectors.lookup backend = some ts ∧ ts.includes.lookup n = some () ∧ ts.allows n = true

section

variable (ord : IterOrder String Unit) {mode : String → Option PrefixMode}
  {selectors : GoMap String ToolSelector}

variable {n : String}

theorem mem_visit_iff {names : GoMap String Unit} :
    n ∈ (ord.visit names).map Prod.fst ↔ names.lookup n = some () := by
  rw [mem_map]
  constructor
  · rintro ⟨e, he, rfl⟩
    exact (ord.mem_visit names e).mp he
  · intro h
    exact ⟨(n, ()), (ord.mem_visit names (n, ())).mpr h, rfl⟩

theorem lookup_claimFor (index : GoMap String String) (b : MCPBackend) (n : String) :
    (Entitled mode selectors n b.name ∧
      (claimFor ord mode selectors index b).lookup n = (index.lookup n).or (some b.name)) ∨
    (¬ Entitled mode selectors n b.name ∧
      (claimFor ord mode selectors index b).lookup n = index.lookup n) := by
  unfold claimFor
  split
  next hmode => exact .inr ⟨fun he => hmode he.1, rfl⟩
  next hmode =>
    rw [not_not] at hmode
    split
    next hnone =>
      refine .inr ⟨?_, rfl⟩
      rintro ⟨-, ts, hts, -⟩
      rw [hnone] at hts
      cases hts
    next ts hts =>
      rw [lookup_claimNames]
      simp only [mem_visit_iff ord]
      split
      next h => exact .inl ⟨⟨hmode, ts, hts, h⟩, rfl⟩
      next h =>
        refine .inr ⟨?_, Option.or_none⟩
        rintro ⟨-, ts', hts', hname⟩
        rw [hts] at hts'
        cases hts'
        exact h hname

variable {bs : List MCPBackend} {index : GoMap String String}

theorem lookup_foldl_claimFor {c : String}
    (h : (bs.foldl (claimFor ord mode selectors) index).lookup n = some c) :
    index.lookup n = some c ∨ ∃ b ∈ bs, b.name = c ∧ Entitled mode selectors n c := by
  induction bs generalizing index with
  | nil => exact .inl h
  | cons b bs ih =>
    rcases ih h with hfirst | ⟨b', hb', hrest⟩
    · rcases lookup_claimFor ord index b n with ⟨hentitled, heq⟩ | ⟨-, heq⟩
      · rw [heq, Option.or_eq_some_iff] at hfirst
        rcases hfirst with hindex | ⟨-, hb⟩
        · exact .inl hindex
        · cases hb
          exact .inr ⟨b, mem_cons_self, rfl, hentitled⟩
      · rw [heq] at hfirst
        exact .inl hfirst
    · exact .inr ⟨b', mem_cons_of_mem _ hb', hrest⟩

theorem lookup_neverModeIndex {c : String} (h : (neverModeIndex ord mode selectors bs).lookup n = some c) :
    ∃ b ∈ bs, b.name = c ∧ Entitled mode selectors n c := by
  rcases lookup_foldl_claimFor ord h with hnone | h
  · cases hnone
  · exact h

theorem isSome_foldl_claimFor (h : (index.lookup n).isSome ∨ ∃ b ∈ bs, Entitled mode selectors n b.name) :
    ((bs.foldl (claimFor ord mode selectors) index).lookup n).isSome := by
  induction bs generalizing index with
  | nil =>
    rcases h with h | ⟨b, hb, -⟩
    · exact h
    · cases hb
  | cons b bs ih =>
    refine ih ?_
    rcases lookup_claimFor ord index b n with ⟨-, heq⟩ | ⟨hnot, heq⟩
    · rw [heq]
      simp
    · rw [heq]
      rcases h with h | ⟨b', hb', hentitled⟩
      · exact .inl h
      · rcases mem_cons.mp hb' with rfl | hb'
        · exact absurd hentitled hnot
        · exact .inr ⟨b', hb', hentitled⟩

theorem lookup_neverModeIndex_of_entitled {b : MCPBackend} (hb : b ∈ bs)
    (h : Entitled mode selectors n b.name)
    (hunique : ∀ c, (∃ b ∈ bs, b.name = c) → Entitled mode selectors n c → c = b.name) :
    (neverModeIndex ord mode selectors bs).lookup n = some b.name := by
  obtain ⟨c, hc⟩ : ∃ c, (neverModeIndex ord mode selectors bs).lookup n = some c :=
    Option.isSome_iff_exists.mp (isSome_foldl_claimFor ord (.inr ⟨b, hb, h⟩))
  obtain ⟨b', hb', hname, hentitled⟩ := lookup_neverModeIndex ord hc
  have hcb : c = b.name := hunique c ⟨b', hb', hname⟩ hentitled
  rw [← hcb]
  exact hc

end

/-! ## Admission -/

section

open MCPSync (BackendRef declareNames validateBackends)

/-- A reference in mode Never. -/
def IsNever (routeMode : PrefixMode) (ref : BackendRef) : Prop :=
  ref.prefixMode.getD routeMode = .never

/-- Two references that do not both expose a name bare. -/
def DeclareApart (routeMode : PrefixMode) (ref ref' : BackendRef) : Prop :=
  IsNever routeMode ref → IsNever routeMode ref' →
    ∀ n ∈ ref.toolSelector.getD [], n ∉ ref'.toolSelector.getD []

instance (routeMode : PrefixMode) : Std.Symm (DeclareApart routeMode) :=
  ⟨fun _ _ h hnever hnever' n hn hn' => h hnever' hnever n hn' hn⟩

theorem declareNames_eq_ok {what backend : String} {seen seen' : GoMap String String}
    {xs : List String} (h : declareNames what backend seen xs = .ok seen') (n : String) :
    (n ∈ xs → seen.lookup n = none ∧ (seen'.lookup n).isSome) ∧
      ((seen.lookup n).isSome → (seen'.lookup n).isSome) := by
  induction xs generalizing seen with
  | nil =>
    cases h
    exact ⟨fun hn => absurd hn not_mem_nil, id⟩
  | cons x xs ih =>
    rw [declareNames] at h
    split at h
    · cases h
    next hnone =>
      obtain ⟨hmem, hgrow⟩ := ih h
      by_cases hn : n = x
      · subst hn
        rw [AList.lookup_insert] at hgrow
        exact ⟨fun _ => ⟨hnone, hgrow rfl⟩, fun _ => hgrow rfl⟩
      · rw [AList.lookup_insert_ne hn] at hmem hgrow
        refine ⟨fun hmem' => hmem ?_, hgrow⟩
        exact (mem_cons.mp hmem').resolve_left hn

theorem validateBackends_eq_ok {routeMode : PrefixMode} {tools prompts : GoMap String String}
    {refs : List BackendRef} (h : validateBackends routeMode tools prompts refs = .ok ()) :
    (∀ ref ∈ refs, IsNever routeMode ref → ref.toolSelector.getD [] ≠ [] ∧
      ∀ n ∈ ref.toolSelector.getD [], tools.lookup n = none) ∧
    refs.Pairwise (DeclareApart routeMode) := by
  induction refs generalizing tools prompts with
  | nil => exact ⟨fun ref href => absurd href not_mem_nil, .nil⟩
  | cons ref refs ih =>
    rw [validateBackends] at h
    split at h
    next hmode =>
      obtain ⟨hall, hpair⟩ := ih h
      exact ⟨forall_mem_cons.mpr ⟨fun hnever => absurd hnever hmode, hall⟩,
        pairwise_cons.mpr ⟨fun _ _ hnever => absurd hnever hmode, hpair⟩⟩
    next hmode =>
      split at h
      · cases h
      next hnonempty =>
        split at h
        · cases h
        next tools' htools =>
          split at h
          · cases h
          next prompts' hprompts =>
            obtain ⟨hall, hpair⟩ := ih h
            have hdeclare := declareNames_eq_ok htools
            refine ⟨?_, pairwise_cons.mpr ⟨?_, hpair⟩⟩
            · intro r hr hnever
              rcases mem_cons.mp hr with rfl | hr
              · exact ⟨hnonempty, fun n hn => ((hdeclare n).1 hn).1⟩
              · obtain ⟨hne, hfresh⟩ := hall r hr hnever
                refine ⟨hne, fun n hn => ?_⟩
                -- a name already seen is still seen after this backend's declarations
                by_contra hsome
                have hseen := (hdeclare n).2 (Option.isSome_iff_ne_none.mpr hsome)
                rw [hfresh n hn] at hseen
                cases hseen
            · intro r hr _ hnever n hn hn'
              have hseen := ((hdeclare n).1 hn).2
              rw [(hall r hr hnever).2 n hn'] at hseen
              cases hseen

end

/-! ## Loaded routes -/

theorem lookup_nameSet {names : List String} : (nameSet names).lookup n = some () ↔ n ∈ names := by
  unfold nameSet
  rw [GoMap.lookup_setEach, AList.lookup_empty, Option.or_none]
  constructor
  · intro h
    obtain ⟨_, hx, heq⟩ := mem_map.mp (GoMap.mem_of_lastValue h)
    cases heq
    exact hx
  · intro h
    cases hlast : GoMap.lastValue n (names.map fun n => (n, ())) with
    | some u => rfl
    | none =>
      rw [GoMap.lastValue_eq_none_iff, map_map] at hlast
      exact absurd (mem_map.mpr ⟨n, h, rfl⟩) hlast

theorem mem_of_allows {ts : ToolSelector} {names : List String} (hts : ts.includes = nameSet names)
    (hnames : names ≠ []) (h : ts.allows n = true) : n ∈ names := by
  obtain ⟨x, xs, rfl⟩ := exists_cons_of_ne_nil hnames
  have hkeys : ts.includes.keys ≠ [] := by
    have hx : x ∈ ts.includes := by
      rw [← AList.lookup_isSome, hts, lookup_nameSet.mpr mem_cons_self]
      rfl
    exact ne_nil_of_mem (AList.mem_keys.mp hx)
  unfold ToolSelector.allows at h
  split at h
  · cases h
  · split at h
    · cases h
    · obtain ⟨u, hu⟩ := Option.isSome_iff_exists.mp h
      rw [hts] at hu
      exact lookup_nameSet.mp hu

theorem setSelector_eq_ok {lib : ConfigLib} {inc exc backend route : String}
    {m m' : GoMap String ToolSelector} {sel : Option Selector}
    (h : setSelector lib inc exc backend route m sel = .ok m') :
    (∀ c, c ≠ backend → m'.lookup c = m.lookup c) ∧
      ∀ s, sel = some s → ∃ ts, m'.lookup backend = some ts ∧ ts.includes = nameSet s.includes := by
  cases sel with
  | none =>
    cases h
    exact ⟨fun _ _ => rfl, fun s hs => absurd hs (by simp)⟩
  | some s =>
    obtain ⟨ts, hts, h⟩ := bind_eq_ok h
    cases h
    obtain ⟨_, _, hts⟩ := bind_eq_ok hts
    obtain ⟨_, _, hts⟩ := bind_eq_ok hts
    cases hts
    refine ⟨fun c => AList.lookup_insert_ne, fun s' hs' => ?_⟩
    cases hs'
    exact ⟨_, AList.lookup_insert _, rfl⟩

theorem loadBackends_eq_ok {lib : ConfigLib} {route : String} {t t' : Tables}
    (h : loadBackends lib route t bs = .ok t') (c : String) :
    (t'.backends.lookup c = t.backends.lookup c ∧
      t'.toolSelectors.lookup c = t.toolSelectors.lookup c ∧ ∀ b ∈ bs, b.name ≠ c) ∨
    ∃ b ∈ bs, b.name = c ∧ t'.backends.lookup c = some b ∧ ∀ s, b.toolSelector = some s →
      ∃ ts, t'.toolSelectors.lookup c = some ts ∧ ts.includes = nameSet s.includes := by
  induction bs generalizing t with
  | nil =>
    cases h
    exact .inl ⟨rfl, rfl, fun b hb => absurd hb not_mem_nil⟩
  | cons b bs ih =>
    obtain ⟨t₁, ht₁, h⟩ := bind_eq_ok h
    rcases ih h with ⟨hbackends, htools, hne⟩ | ⟨b', hb', hlast⟩
    · obtain ⟨tools, hsel, ht₁⟩ := bind_eq_ok ht₁
      obtain ⟨_, _, ht₁⟩ := bind_eq_ok ht₁
      cases ht₁
      obtain ⟨hother, hself⟩ := setSelector_eq_ok hsel
      rw [hbackends, htools]
      by_cases hc : b.name = c
      · subst hc
        exact .inr ⟨b, mem_cons_self, rfl, AList.lookup_insert _, hself⟩
      · exact .inl ⟨AList.lookup_insert_ne (Ne.symm hc), hother c (Ne.symm hc), forall_mem_cons.mpr ⟨hc, hne⟩⟩
    · exact .inr ⟨b', mem_cons_of_mem _ hb', hlast⟩

/-- The route the proxy keeps for an accepted MCPRoute. -/
structure Loaded (lib : ConfigLib) (spec : RouteSpec) (route : ProxyRoute) : Prop where
  load : loadRoute lib (mcpRoute spec) = .ok route
  accepted : MCPSync.validatePerBackendPrefixMode spec.admission = .ok ()

variable {lib : ConfigLib} {spec : RouteSpec} {route : ProxyRoute}

theorem loadRoute_eq_ok {r : MCPRoute} (h : loadRoute lib r = .ok route) :
    ∃ t, loadBackends lib r.name ⟨∅, ∅, ∅⟩ r.backends = .ok t ∧
      compileAuthorization lib.toAuthLib r.authorization = .ok route.authorization ∧
      route.backends = t.backends ∧ route.toolSelectors = t.toolSelectors ∧
      route.neverModeToolIndex =
        neverModeIndex lib.order route.effectivePrefixMode route.toolSelectors r.backends ∧
      route.neverModePromptIndex =
        neverModeIndex lib.order route.effectivePrefixMode route.promptSelectors r.backends ∧
      route.routePrefixMode = r.prefixMode := by
  obtain ⟨authorization, hauth, h⟩ := bind_eq_ok h
  obtain ⟨t, ht, h⟩ := bind_eq_ok h
  cases h
  exact ⟨t, ht, mapError_eq_ok.mp hauth, rfl, rfl, rfl, rfl, rfl⟩

theorem isNever_of_effectivePrefixMode {ref : BackendRefSpec}
    (h : ref.prefixMode.or (mcpRoute spec).prefixMode = some .never) :
    IsNever (spec.prefixMode.getD .always) ref.admission := by
  show ref.prefixMode.getD (spec.prefixMode.getD .always) = .never
  cases hmode : ref.prefixMode with
  | some mode =>
    rw [hmode] at h
    exact Option.some.inj h
  | none =>
    rw [hmode] at h
    simp only [mcpRoute] at h
    split at h
    next hnever => rw [hnever]; rfl
    · cases h

/-- A backend in mode Never has a reference that enumerates its tools and that its selector is
made from. -/
theorem Loaded.exists_declaration (hloaded : Loaded lib spec route) {c : String}
    (hc : c ∈ spec.backendRefs.map (·.name)) (hmode : route.effectivePrefixMode c = some .never) :
    ∃ ref ∈ spec.backendRefs, ref.name = c ∧ IsNever (spec.prefixMode.getD .always) ref.admission ∧
      ∃ s, ref.toolSelector = some s ∧ s.includes ≠ [] ∧
        ∃ ts, route.toolSelectors.lookup c = some ts ∧ ts.includes = nameSet s.includes := by
  obtain ⟨t, ht, -, hbackends, htools, -, -, hroute⟩ := loadRoute_eq_ok hloaded.load
  rcases loadBackends_eq_ok ht c with ⟨-, -, hne⟩ | ⟨b, hb, hname, hlookup, hsel⟩
  · obtain ⟨ref, href, rfl⟩ := mem_map.mp hc
    exact absurd rfl (hne _ (mem_map_of_mem href))
  · obtain ⟨ref, href, rfl⟩ := mem_map.mp hb
    have hnever : IsNever (spec.prefixMode.getD .always) ref.admission := by
      refine isNever_of_effectivePrefixMode ?_
      rw [← hmode, ProxyRoute.effectivePrefixMode, effectivePrefixMode, hbackends, hlookup, hroute]
      rfl
    have hnonempty := ((validateBackends_eq_ok hloaded.accepted).1 _ (mem_map_of_mem href) hnever).1
    refine ⟨ref, href, hname, hnever, ?_⟩
    cases hs : ref.toolSelector with
    | none => exact absurd (by simp [BackendRefSpec.admission, hs]) hnonempty
    | some s =>
      refine ⟨s, rfl, ?_, ?_⟩
      · intro hnil
        exact hnonempty (by simp [BackendRefSpec.admission, hs, hnil])
      · rw [htools]
        exact hsel s hs

/-- A tool of a backend in mode Never that passes the backend's selector is in the index, under
this backend. -/
theorem Loaded.toolIndex_of_allows (hloaded : Loaded lib spec route) {b n : String}
    (hb : b ∈ spec.backendRefs.map (·.name)) (hmode : route.effectivePrefixMode b = some .never)
    (hallows : ∀ ts, route.toolSelectors.lookup b = some ts → ts.allows n = true) :
    route.neverModeToolIndex.lookup n = some b := by
  obtain ⟨_, _, -, -, -, hindex, -, -⟩ := loadRoute_eq_ok hloaded.load
  obtain ⟨ref, href, rfl, hnever, s, hs, hne, ts, hts, hincludes⟩ :=
    hloaded.exists_declaration hb hmode
  have hn : n ∈ s.includes := mem_of_allows hincludes hne (hallows ts hts)
  have hentitled : Entitled route.effectivePrefixMode route.toolSelectors n ref.name :=
    ⟨hmode, ts, hts, by rw [hincludes]; exact lookup_nameSet.mpr hn, hallows ts hts⟩
  rw [hindex]
  refine lookup_neverModeIndex_of_entitled lib.order (b := mcpBackend ref) (mem_map_of_mem href) hentitled ?_
  -- another backend entitled to the name would have declared it as well
  intro c hc hentitled'
  obtain ⟨b', hb', rfl⟩ := hc
  obtain ⟨ref₀, href₀, rfl⟩ := mem_map.mp hb'
  obtain ⟨hmode', ts', hts', hn', -⟩ := hentitled'
  obtain ⟨ref', href', hname', hnever', s', hs', -, ts'', hts'', hincludes'⟩ :=
    hloaded.exists_declaration (mem_map_of_mem href₀) hmode'
  obtain rfl : ts'' = ts' := Option.some.inj (hts''.symm.trans hts')
  rw [hincludes', lookup_nameSet] at hn'
  by_contra hnames
  have hrefs : ref.admission ≠ ref'.admission := by
    intro heq
    have hname : ref.name = ref'.name := congrArg (·.ref.name) heq
    exact hnames (hname'.symm.trans hname.symm)
  have hapart := (validateBackends_eq_ok hloaded.accepted).2.forall (mem_map_of_mem href)
    (mem_map_of_mem href') hrefs hnever hnever' n
  simp only [BackendRefSpec.admission, hs, hs', Option.map_some, Option.getD_some] at hapart
  exact hapart hn hn'

theorem lookup_loadRoutes {config : List MCPRoute} {routes routes' : GoMap String ProxyRoute}
    (h : loadRoutes lib routes config = .ok routes') {key : String}
    (hroute : routes'.lookup key = some route) :
    routes.lookup key = some route ∨ ∃ r ∈ config, r.name = key ∧ loadRoute lib r = .ok route := by
  induction config generalizing routes with
  | nil =>
    cases h
    exact .inl hroute
  | cons r config ih =>
    obtain ⟨route₁, hload, h⟩ := bind_eq_ok h
    rcases ih h with hlookup | ⟨r', hr', hfound⟩
    · by_cases hkey : r.name = key
      · subst hkey
        rw [AList.lookup_insert] at hlookup
        cases hlookup
        exact .inr ⟨r, mem_cons_self, rfl, hload⟩
      · rw [AList.lookup_insert_ne (Ne.symm hkey)] at hlookup
        exact .inl hlookup
    · exact .inr ⟨r', mem_cons_of_mem _ hr', hfound⟩

theorem lookup_loadConfig {specs : List RouteSpec} {routes : GoMap String ProxyRoute}
    (h : loadConfig lib (mcpConfig specs) = .ok routes) {key : String}
    (hroute : routes.lookup key = some route) :
    ∃ spec ∈ specs, spec.key = key ∧ loadRoute lib (mcpRoute spec) = .ok route := by
  rcases lookup_loadRoutes h hroute with hnone | ⟨r, hr, hname, hload⟩
  · cases hnone
  · obtain ⟨spec, hspec, rfl⟩ := mem_map.mp hr
    exact ⟨spec, mem_of_mem_filter hspec, hname, hload⟩

variable (hloaded : Loaded lib spec route)

include hloaded

theorem Loaded.name_of_lookup {c : String} {b : MCPBackend}
    (hb : route.backends.lookup c = some b) : b.name = c ∧ c ∈ spec.backendRefs.map (·.name) := by
  obtain ⟨t, ht, -, hbackends, -⟩ := loadRoute_eq_ok hloaded.load
  rw [hbackends] at hb
  rcases loadBackends_eq_ok ht c with ⟨hnone, -⟩ | ⟨b', hmem, hname, hlookup, -⟩
  · rw [hnone] at hb
    cases hb
  rw [hb] at hlookup
  cases hlookup
  obtain ⟨ref, href, rfl⟩ := mem_map.mp hmem
  exact ⟨hname, mem_map.mpr ⟨ref, href, hname⟩⟩

theorem Loaded.toolIndex_never {n b : String} (h : route.neverModeToolIndex.lookup n = some b) :
    route.effectivePrefixMode b = some .never := by
  obtain ⟨_, _, -, -, -, hindex, -⟩ := loadRoute_eq_ok hloaded.load
  rw [hindex] at h
  obtain ⟨_, _, -, hentitled⟩ := lookup_neverModeIndex lib.order h
  exact hentitled.1

theorem Loaded.promptIndex_never {n b : String} (h : route.neverModePromptIndex.lookup n = some b) :
    route.effectivePrefixMode b = some .never := by
  obtain ⟨_, _, -, -, -, -, hindex, -⟩ := loadRoute_eq_ok hloaded.load
  rw [hindex] at h
  obtain ⟨_, _, -, hentitled⟩ := lookup_neverModeIndex lib.order h
  exact hentitled.1

end AgentRouter.MCPProxy
