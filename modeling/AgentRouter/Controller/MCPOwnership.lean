import AgentRouter.Controller.MCPRoute
import AgentRouter.Lib.Ownership
import AgentRouter.Lib.Results
import AgentRouter.Lib.Run

/-!
# MCPOwnership: whose objects a reconciliation touches

The objects generated for a backend are named after the route and the backend, joined by a
hyphen that both may contain: the backend `c` of the route `a-b` and the backend `b-c` of the
route `a` share all three names.  HTTPRoutes are safe, since they are looked up by their
controller reference, but the HTTPRouteFilter and the credential Secret are overwritten or
deleted.

    routes that are never applied with names that meet
      →  in every reachable state, reconciling a route leaves the objects of all others alone
      (reconcile_keeps_others)
-/

namespace AgentRouter.MCPSync

open Program Ownership Text List GoMap

/-! ## Names that meet -/

/-- The names of the two OAuth filters of a route. -/
def oauthFilterName (suffix route : String) : String :=
  mcpGeneratedResourceCommonPrefix ++ route ++ suffix

def oauthSuffixes : List String :=
  [oauthProtectedResourceMetadataSuffix, oauthAuthServerMetadataSuffix]

theorem main_ne_perBackend (r r' b : String) :
    mcpMainHTTPRouteName r ≠ mcpPerBackendRefHTTPRouteName r' b := by
  intro h
  have hletter := congrArg (fun s => s.toList[10]?) h
  simp [mcpMainHTTPRouteName, mcpPerBackendRefHTTPRouteName, mcpMainHTTPRoutePrefix,
    mcpPerBackendRefHTTPRoutePrefix] at hletter

theorem oauthFilterName_inj {suffix suffix' r r' : String} (hs : suffix ∈ oauthSuffixes)
    (hs' : suffix' ∈ oauthSuffixes) (h : oauthFilterName suffix r = oauthFilterName suffix' r') :
    r = r' := by
  unfold oauthFilterName at h
  have hsame : suffix = suffix' := by
    -- the tenth letter from the end tells the two suffixes apart
    have hletter := congrArg (fun s => s.toList.reverse[9]?) h
    rcases mem_pair.mp hs with rfl | rfl <;> rcases mem_pair.mp hs' with rfl | rfl <;>
      first
      | rfl
      | simp [oauthProtectedResourceMetadataSuffix, oauthAuthServerMetadataSuffix] at hletter
  subst hsame
  simpa using h

theorem perBackendFilter_eq_oauthFilter {r b suffix r' : String} :
    mcpBackendRefFilterName r b = oauthFilterName suffix r' ↔
      "brf-" ++ routeAndBackend r b = r' ++ suffix := by
  have hsplit : mcpPerBackendHTTPRouteFilterPrefix = mcpGeneratedResourceCommonPrefix ++ "brf-" := by
    decide
  unfold mcpBackendRefFilterName oauthFilterName
  rw [hsplit, String.append_assoc, String.append_assoc]
  simp

/-- The names generated for `r` and those generated for `r'` do not meet: the name of `r'` is
not that of `r`, a hyphen and a beginning of one of its backends, with one of the backends of
`r'` as the rest; and no per-backend filter of `r` has the name of an OAuth filter of `r'`. -/
structure Apart (r r' : MCPRoute) : Prop where
  backends : ∀ b ∈ r.backends, ∀ b' ∈ r'.backends, ∀ m,
    r'.name = r.name ++ "-" ++ m → b ≠ m ++ "-" ++ b'
  oauth : ∀ b ∈ r.backends, ∀ suffix ∈ oauthSuffixes,
    "brf-" ++ routeAndBackend r.name b ≠ r'.name ++ suffix

/-- Routes of different names are apart. -/
def PairwiseApart (specs : Set MCPRoute) : Prop :=
  ∀ r ∈ specs, ∀ r' ∈ specs, r.name ≠ r'.name → Apart r r'

section

variable (specs : Set MCPRoute)

/-- A route of this name is applied at some time. -/
def Known (route : String) : Prop := ∃ r ∈ specs, r.name = route

/-- A route of this name has this backend at some time. -/
def HasBackend (route backend : String) : Prop :=
  ∃ r ∈ specs, r.name = route ∧ backend ∈ r.backends

/-- The names of HTTPRoutes that the reconciliation of a route may write. -/
def HTTPRouteOf (route name : String) : Prop :=
  name = mcpMainHTTPRouteName route ∨
    ∃ b, HasBackend specs route b ∧ name = mcpPerBackendRefHTTPRouteName route b

def FilterOf (route name : String) : Prop :=
  (∃ b, HasBackend specs route b ∧ name = mcpBackendRefFilterName route b) ∨
    (Known specs route ∧ ∃ suffix ∈ oauthSuffixes, name = oauthFilterName suffix route)

def SecretOf (route name : String) : Prop :=
  ∃ b, HasBackend specs route b ∧ name = mcpCredentialSecretName route b

end

section

variable {specs : Set MCPRoute} (hapart : PairwiseApart specs)
include hapart

theorem route_eq_of_routeAndBackend_eq {r r' b b' : String} (hb : HasBackend specs r b)
    (hb' : HasBackend specs r' b') (h : routeAndBackend r b = routeAndBackend r' b') : r = r' := by
  obtain ⟨x, hx, rfl, hbx⟩ := hb
  obtain ⟨x', hx', rfl, hbx'⟩ := hb'
  by_contra hne
  rcases (append_sep_eq_iff '-' _ _ _ _).mp h with ⟨hr, -⟩ | ⟨m, hr, hm⟩ | ⟨m, hr, hm⟩
  · exact hne hr
  · exact (hapart x hx x' hx' hne).backends b hbx b' hbx' m hr hm
  · exact (hapart x' hx' x hx (Ne.symm hne)).backends b' hbx' b hbx m hr hm

variable (r r' name : String)

theorem httpRouteOf_unique (h : HTTPRouteOf specs r name) (h' : HTTPRouteOf specs r' name) : r = r' := by
  rcases h with rfl | ⟨b, hb, rfl⟩
  · rcases h' with h' | ⟨b', -, h'⟩
    · simpa [mcpMainHTTPRouteName] using h'
    · exact absurd h' (main_ne_perBackend r r' b')
  · rcases h' with h' | ⟨b', hb', h'⟩
    · exact absurd h'.symm (main_ne_perBackend r' r b)
    · exact route_eq_of_routeAndBackend_eq hapart hb hb' (by simpa [mcpPerBackendRefHTTPRouteName] using h')

theorem perBackendFilter_ne_oauthFilter {r b r' suffix : String} (hb : HasBackend specs r b)
    (hr' : Known specs r') (hs : suffix ∈ oauthSuffixes) (hne : r ≠ r') :
    mcpBackendRefFilterName r b ≠ oauthFilterName suffix r' := by
  obtain ⟨x, hx, rfl, hbx⟩ := hb
  obtain ⟨x', hx', rfl⟩ := hr'
  rw [Ne, perBackendFilter_eq_oauthFilter]
  exact (hapart x hx x' hx' hne).oauth b hbx suffix hs

theorem filterOf_unique (h : FilterOf specs r name) (h' : FilterOf specs r' name) : r = r' := by
  by_contra hne
  rcases h with ⟨b, hb, rfl⟩ | ⟨hr, suffix, hs, rfl⟩
  · rcases h' with ⟨b', hb', h'⟩ | ⟨hr', suffix', hs', h'⟩
    · exact hne (route_eq_of_routeAndBackend_eq hapart hb hb' (by simpa [mcpBackendRefFilterName] using h'))
    · exact perBackendFilter_ne_oauthFilter hapart hb hr' hs' hne h'
  · rcases h' with ⟨b', hb', h'⟩ | ⟨hr', suffix', hs', h'⟩
    · exact perBackendFilter_ne_oauthFilter hapart hb' hr hs (Ne.symm hne) h'.symm
    · exact hne (oauthFilterName_inj hs hs' h')

theorem secretOf_unique (h : SecretOf specs r name) (h' : SecretOf specs r' name) : r = r' := by
  obtain ⟨b, hb, rfl⟩ := h
  obtain ⟨b', hb', h'⟩ := h'
  exact route_eq_of_routeAndBackend_eq hapart hb hb' (by simpa [mcpCredentialSecretName] using h')

end

/-! ## The invariant -/

/-- A filter has an owner, a name of this owner, and a credential of this owner. -/
def FilterNamed (specs : Set MCPRoute) (name : String) (f : HTTPRouteFilter) : Prop :=
  ∃ r, f.owner = some r ∧ FilterOf specs r name ∧
    (f.credentialSecretName ≠ "" → SecretOf specs r f.credentialSecretName)

/-- Generated objects have names of their owners. -/
structure Inv (specs : Set MCPRoute) (s : Namespace) : Prop where
  routes : ∀ name r, s.routes.lookup name = some r → r ∈ specs ∧ r.name = name
  httpRoutes : Named HTTPRoute.owner (HTTPRouteOf specs) s.httpRoutes
  filters : ∀ name f, s.filters.lookup name = some f → FilterNamed specs name f
  secrets : Named Secret.owner (SecretOf specs) s.secrets

variable {specs : Set MCPRoute}

theorem Inv.filtersNamed {s : Namespace} (h : Inv specs s) :
    Named HTTPRouteFilter.owner (FilterOf specs) s.filters := by
  intro name f r hf hr
  obtain ⟨r', hr', hname, -⟩ := h.filters name f hf
  rw [hr'] at hr
  cases hr
  exact hname

/-- What belongs to another MCPRoute is as it was. -/
structure OthersUnchanged (route : String) (s s' : Namespace) : Prop where
  httpRoutes : KeepsOthers HTTPRoute.owner route s.httpRoutes s'.httpRoutes
  filters : KeepsOthers HTTPRouteFilter.owner route s.filters s'.filters
  secrets : KeepsOthers Secret.owner route s.secrets s'.secrets

theorem OthersUnchanged.refl (route : String) (s : Namespace) : OthersUnchanged route s s :=
  ⟨.refl _ _, .refl _ _, .refl _ _⟩

variable {s' : Namespace}

theorem OthersUnchanged.trans {route : String} {s s'' : Namespace} (h : OthersUnchanged route s s')
    (h' : OthersUnchanged route s' s'') : OthersUnchanged route s s'' :=
  ⟨h.httpRoutes.trans h'.httpRoutes, h.filters.trans h'.filters, h.secrets.trans h'.secrets⟩

/-- What the reconciliation of a route may do to a state. -/
def Moves (specs : Set MCPRoute) (route : String) (s s' : Namespace) : Prop :=
  Inv specs s → Inv specs s' ∧ OthersUnchanged route s s'

instance (specs : Set MCPRoute) (route : String) : Std.Refl (Moves specs route) :=
  ⟨fun s h => ⟨h, .refl route s⟩⟩

instance (specs : Set MCPRoute) (route : String) : IsTrans Namespace (Moves specs route) :=
  ⟨fun _ _ _ h h' hs => ⟨(h' (h hs).1).1, (h hs).2.trans (h' (h hs).1).2⟩⟩

theorem within_of_inv {route : String} {α : Type} {m : Sync α}
    {s : Namespace} (h : Inv specs s → Within (Moves specs route) m s) :
    Within (Moves specs route) m s :=
  fun hs => h hs hs

/-! ## Writes -/

section

variable {specs : Set MCPRoute} (hapart : PairwiseApart specs) {route : String} {s : Namespace}
include hapart

variable {name : String} {o : HTTPRoute}

theorem moves_putHTTPRoute (hname : HTTPRouteOf specs route name)
    (ho : ∀ w, o.owner = some w → HTTPRouteOf specs w name) :
    Moves specs route s (s.putHTTPRoute name o) := by
  intro hs
  refine ⟨⟨hs.routes, hs.httpRoutes.insert ho, hs.filters, hs.secrets⟩, ?_, .refl _ _, .refl _ _⟩
  exact keepsOthers_insert (httpRouteOf_unique hapart) hs.httpRoutes o hname

theorem moves_deleteHTTPRoute (hname : HTTPRouteOf specs route name) :
    Moves specs route s (s.deleteHTTPRoute name) := by
  intro hs
  refine ⟨⟨hs.routes, hs.httpRoutes.erase name, hs.filters, hs.secrets⟩, ?_, .refl _ _, .refl _ _⟩
  exact keepsOthers_erase (httpRouteOf_unique hapart) hs.httpRoutes hname

theorem moves_putFilter {f : HTTPRouteFilter} (hname : FilterOf specs route name)
    (hf : FilterNamed specs name f) : Moves specs route s (s.putFilter name f) := by
  intro hs
  refine ⟨⟨hs.routes, hs.httpRoutes, ?_, hs.secrets⟩, .refl _ _, ?_, .refl _ _⟩
  · intro name' f' hf'
    by_cases h : name' = name
    · subst h
      rw [Namespace.putFilter, AList.lookup_insert] at hf'
      cases hf'
      exact hf
    · rw [Namespace.putFilter, AList.lookup_insert_ne h] at hf'
      exact hs.filters name' f' hf'
  · exact keepsOthers_insert (filterOf_unique hapart) hs.filtersNamed f hname

theorem moves_deleteFilter (hname : FilterOf specs route name) :
    Moves specs route s (s.deleteFilter name) := by
  intro hs
  refine ⟨⟨hs.routes, hs.httpRoutes, ?_, hs.secrets⟩, .refl _ _, ?_, .refl _ _⟩
  · intro name' f' hf'
    exact hs.filters name' f' (lookup_of_lookup_erase hf')
  · exact keepsOthers_erase (filterOf_unique hapart) hs.filtersNamed hname

theorem moves_putSecret {o : Secret} (hname : SecretOf specs route name)
    (ho : ∀ w, o.owner = some w → SecretOf specs w name) :
    Moves specs route s (s.putSecret name o) := by
  intro hs
  refine ⟨⟨hs.routes, hs.httpRoutes, hs.filters, hs.secrets.insert ho⟩, .refl _ _, .refl _ _, ?_⟩
  exact keepsOthers_insert (secretOf_unique hapart) hs.secrets o hname

theorem moves_deleteSecret (hname : SecretOf specs route name) :
    Moves specs route s (s.deleteSecret name) := by
  intro hs
  refine ⟨⟨hs.routes, hs.httpRoutes, hs.filters, hs.secrets.erase name⟩, .refl _ _, .refl _ _, ?_⟩
  exact keepsOthers_erase (secretOf_unique hapart) hs.secrets hname

/-! ## Functions -/

theorem within_createOrUpdateHTTPRoute (update : Bool) (hname : HTTPRouteOf specs route name)
    (ho : ∀ w, o.owner = some w → HTTPRouteOf specs w name) :
    Within (Moves specs route) (createOrUpdateHTTPRoute name o update) s := by
  unfold createOrUpdateHTTPRoute
  rw [within_get_bind]
  split
  · exact within_modify.mpr (moves_putHTTPRoute hapart hname ho)
  · exact within_throw _ _
  · exact within_modify.mpr (moves_putHTTPRoute hapart hname ho)
  · exact within_throw _ _

theorem within_syncMainHTTPRoute (r : MCPRoute) : Within (Moves specs r.name) (syncMainHTTPRoute r) s := by
  refine within_of_inv fun hs => ?_
  refine within_createOrUpdateHTTPRoute hapart _ (.inl rfl) fun w hw => ?_
  cases hfound : s.httpRoutes.lookup (mcpMainHTTPRouteName r.name) with
  | none =>
    rw [hfound] at hw
    cases hw
    exact .inl rfl
  | some o =>
    rw [hfound] at hw
    exact hs.httpRoutes _ o w hfound hw

omit hapart in
theorem exec_readAPIKey_snd (key : APIKey) : (exec (readAPIKey key) s).2 = s := by
  unfold readAPIKey
  rw [exec_bind, exec_get]
  dsimp only
  repeat' split
  all_goals rfl

omit hapart in
theorem within_readAPIKey (key : APIKey) : Within (Moves specs route) (readAPIKey key) s := by
  unfold Within
  rw [exec_readAPIKey_snd]
  exact refl_of _ s

variable {r : MCPRoute} {backend : String}

theorem within_ensureCredentialSecret (hb : HasBackend specs r.name backend) (key : APIKey) :
    Within (Moves specs r.name)
      (ensureCredentialSecret (mcpCredentialSecretName r.name backend) r key) s := by
  have hname : SecretOf specs r.name (mcpCredentialSecretName r.name backend) := ⟨backend, hb, rfl⟩
  refine within_bind (within_wrap.mpr (within_readAPIKey key)) fun literal s' _ => ?_
  refine within_of_inv fun hs => ?_
  rw [within_get_bind]
  split
  · refine within_modify.mpr (moves_putSecret hapart hname fun w hw => ?_)
    cases hw
    exact hname
  · next existing hfound =>
    split
    · exact within_modify.mpr (moves_putSecret hapart hname fun w hw => hs.secrets _ _ w hfound hw)
    · exact within_pure _ _

theorem within_ensureMCPBackendRefHTTPFilter (hb : HasBackend specs r.name backend)
    {secretName : String} (hsecret : secretName ≠ "" → SecretOf specs r.name secretName)
    (header : Option String) (overwrite : Bool) :
    Within (Moves specs r.name)
      (ensureMCPBackendRefHTTPFilter (mcpBackendRefFilterName r.name backend) r secretName header
        overwrite) s := by
  have hname : FilterOf specs r.name (mcpBackendRefFilterName r.name backend) :=
    .inl ⟨backend, hb, rfl⟩
  have hnew : ∀ f : HTTPRouteFilter, f.owner = some r.name →
      f.spec = .rewriteHostname (if secretName ≠ "" then some ⟨overwrite, header, secretName⟩ else none) →
      FilterNamed specs (mcpBackendRefFilterName r.name backend) f := by
    intro f howner hspec
    refine ⟨r.name, howner, hname, fun hne => ?_⟩
    unfold HTTPRouteFilter.credentialSecretName at hne ⊢
    rw [hspec] at hne ⊢
    by_cases h : secretName ≠ ""
    · rw [if_pos h]
      exact hsecret h
    · rw [if_neg h] at hne
      exact absurd rfl hne
  refine within_of_inv fun hs => ?_
  unfold ensureMCPBackendRefHTTPFilter
  rw [within_get_bind]
  split
  · exact within_modify.mpr (moves_putFilter hapart hname (hnew _ rfl rfl))
  · next existing hfound =>
    -- the filter under this name is the route's own, and so is its credential
    obtain ⟨w, howner, hw, hcred⟩ := hs.filters _ existing hfound
    obtain rfl := filterOf_unique hapart _ _ _ hw hname
    dsimp only
    split
    · next hprev =>
      refine within_bind (within_modify.mpr (moves_deleteSecret hapart (hcred hprev.1))) fun _ s' _ => ?_
      exact within_modify.mpr (moves_putFilter hapart hname (hnew _ howner rfl))
    · exact within_modify.mpr (moves_putFilter hapart hname (hnew _ howner rfl))

variable {ref : BackendRef}

theorem within_handleCredential (hb : HasBackend specs r.name ref.ref.name) :
    Within (Moves specs r.name) (handleCredential r ref) s := by
  unfold handleCredential
  split
  · exact within_pure _ _
  dsimp only
  split
  · exact within_bind (within_wrap.mpr (within_readAPIKey _)) fun _ _ _ => within_pure _ _
  · exact within_pure _ _
  · split
    · refine within_bind (within_wrap.mpr (within_ensureCredentialSecret hapart hb _)) fun _ _ _ => ?_
      exact within_pure _ _
    · exact within_pure _ _

omit hapart in
theorem credentialSecretName_of_handleCredential {c : CredentialHandling}
    (h : exec (handleCredential r ref) s = (.ok c, s')) :
    c.credentialSecretName = "" ∨ c.credentialSecretName = mcpCredentialSecretName r.name ref.ref.name := by
  unfold handleCredential at h
  split at h
  · cases h
    exact .inl rfl
  dsimp only at h
  split at h
  · rw [exec_bind] at h
    split at h
    · cases h
      exact .inl rfl
    · cases h
  · cases h
    exact .inl rfl
  · split at h
    · rw [exec_bind] at h
      split at h
      · cases h
        exact .inr rfl
      · cases h
    · cases h
      exact .inl rfl

theorem within_mcpBackendRefToHTTPRouteRule (ns : String) (hb : HasBackend specs r.name ref.ref.name) :
    Within (Moves specs r.name) (mcpBackendRefToHTTPRouteRule ns r ref) s := by
  refine within_bind (within_handleCredential hapart hb) fun c s' hc => ?_
  refine within_bind (within_wrap.mpr ?_) fun _ _ _ => within_pure _ _
  refine within_ensureMCPBackendRefHTTPFilter hapart hb (fun hne => ?_) _ _
  rcases credentialSecretName_of_handleCredential hc with h | h
  · exact absurd h hne
  · exact ⟨_, hb, h⟩

theorem within_newPerBackendRefHTTPRoute (ns : String) (dst : HTTPRoute)
    (hb : HasBackend specs r.name ref.ref.name) :
    Within (Moves specs r.name) (newPerBackendRefHTTPRoute ns dst r ref) s := by
  unfold newPerBackendRefHTTPRoute
  split
  · exact within_throw _ _
  · refine within_bind (within_wrap.mpr ?_) fun _ _ _ => within_pure _ _
    exact within_mcpBackendRefToHTTPRouteRule hapart ns hb

omit hapart in
theorem owner_of_newPerBackendRefHTTPRoute {ns : String} {dst : HTTPRoute}
    (h : exec (newPerBackendRefHTTPRoute ns dst r ref) s = (.ok o, s')) : o.owner = dst.owner := by
  unfold newPerBackendRefHTTPRoute at h
  split at h
  · cases h
  · rw [exec_bind] at h
    split at h
    · cases h
      rfl
    · cases h

/-- The HTTPRoutes that were found are the route's own. -/
def OwnedBy (route : String) (existing : GoMap String HTTPRoute) : Prop :=
  ∀ name o, existing.lookup name = some o → o.owner = some route

variable {existing : GoMap String HTTPRoute}

theorem within_syncBackend (howned : OwnedBy r.name existing) (hb : HasBackend specs r.name ref.ref.name) :
    Within (Moves specs r.name) (syncBackend r existing ref) s := by
  unfold syncBackend
  rw [within_get_bind]
  refine within_bind (within_wrap.mpr (within_newPerBackendRefHTTPRoute hapart _ _ hb))
    fun o s' ho => within_wrap.mpr ?_
  have hname : HTTPRouteOf specs r.name (mcpPerBackendRefHTTPRouteName r.name ref.ref.name) :=
    .inr ⟨_, hb, rfl⟩
  have howner : o.owner = some r.name := by
    rw [Prod.mk.injEq] at ho
    obtain ⟨hok, -⟩ := ho
    rw [owner_of_newPerBackendRefHTTPRoute (Prod.ext (Results.mapError_eq_ok.mp hok) rfl)]
    cases hfound : existing.lookup (mcpPerBackendRefHTTPRouteName r.name ref.ref.name) with
    | none => rfl
    | some o' => exact howned _ o' hfound
  refine within_createOrUpdateHTTPRoute hapart _ hname fun w hw => ?_
  rw [howner] at hw
  cases hw
  exact hname

omit hapart in
theorem OwnedBy.erase (h : OwnedBy route existing) (name : String) : OwnedBy route (existing.erase name) := by
  intro n o ho
  exact h n o (lookup_of_lookup_erase ho)

theorem within_syncBackends {refs : List BackendRef}
    (hrefs : ∀ ref ∈ refs, HasBackend specs r.name ref.ref.name) (howned : OwnedBy r.name existing) :
    Within (Moves specs r.name) (syncBackends r existing refs) s := by
  induction refs generalizing existing s with
  | nil => exact within_pure _ _
  | cons ref refs ih =>
    refine within_bind (within_syncBackend hapart howned (hrefs ref mem_cons_self)) fun _ s' _ => ?_
    exact ih (fun ref' h => hrefs ref' (mem_cons_of_mem _ h)) (howned.erase _)

variable {orphaned : GoMap String HTTPRoute}

omit hapart in
theorem lookup_of_syncBackends {refs : List BackendRef}
    (h : exec (syncBackends r existing refs) s = (.ok orphaned, s'))
    (ho : orphaned.lookup name = some o) : existing.lookup name = some o := by
  induction refs generalizing existing s with
  | nil =>
    cases h
    exact ho
  | cons ref refs ih =>
    rw [syncBackends, exec_bind] at h
    split at h
    · exact lookup_of_lookup_erase (ih h)
    · cases h

omit hapart in
theorem lookup_listExistingPerBackendHTTPRoutes
    (h : (listExistingPerBackendHTTPRoutes s r).lookup name = some o) :
    s.httpRoutes.lookup name = some o ∧ o.owner = some r.name ∧
      startsWith name mcpPerBackendRefHTTPRoutePrefix = true := by
  unfold listExistingPerBackendHTTPRoutes at h
  rw [lookup_setEach, AList.lookup_empty, Option.or_none] at h
  obtain ⟨hmem, hcond⟩ := mem_filter.mp (mem_of_lastValue h)
  obtain ⟨e, he, heq⟩ := mem_map.mp hmem
  cases heq
  rw [Bool.and_eq_true, decide_eq_true_eq] at hcond
  exact ⟨AList.mem_lookup_iff.mpr he, hcond.1, hcond.2⟩

theorem moves_deleteOrphan (hb : HasBackend specs route backend) :
    Moves specs route s (deleteOrphan (mcpPerBackendRefHTTPRouteName route backend) s) := by
  have hrest : trimPrefix (mcpPerBackendRefHTTPRouteName route backend)
      mcpPerBackendRefHTTPRoutePrefix = routeAndBackend route backend :=
    trimPrefix_append _ _
  unfold deleteOrphan
  rw [hrest]
  refine trans_of _ (moves_deleteHTTPRoute hapart (.inr ⟨backend, hb, rfl⟩)) ?_
  refine trans_of _ (moves_deleteFilter hapart (.inl ⟨backend, hb, rfl⟩)) ?_
  exact moves_deleteSecret hapart ⟨backend, hb, rfl⟩

theorem moves_deleteOrphanedPerBackendResources (ord : IterOrder String HTTPRoute)
    (h : ∀ name o, orphaned.lookup name = some o →
      ∃ b, HasBackend specs route b ∧ name = mcpPerBackendRefHTTPRouteName route b) :
    Moves specs route s (deleteOrphanedPerBackendResources ord orphaned s) := by
  unfold deleteOrphanedPerBackendResources
  have hvisit : ∀ e ∈ ord.visit orphaned,
      ∃ b, HasBackend specs route b ∧ e.1 = mcpPerBackendRefHTTPRouteName route b := by
    intro e he
    exact h e.1 e.2 ((ord.mem_visit orphaned e).mp he)
  generalize ord.visit orphaned = es at hvisit
  induction es generalizing s with
  | nil => exact refl_of _ s
  | cons e es ih =>
    obtain ⟨b, hb, hname⟩ := hvisit e mem_cons_self
    rw [foldl_cons, hname]
    exact trans_of _ (moves_deleteOrphan hapart hb) (ih fun e' he' => hvisit e' (mem_cons_of_mem _ he'))

theorem within_ensureOAuthFilter (hr : Known specs r.name) {suffix : String}
    (hs : suffix ∈ oauthSuffixes) (body : Json) :
    Within (Moves specs r.name) (ensureOAuthFilter (oauthFilterName suffix r.name) r body) s := by
  have hname : FilterOf specs r.name (oauthFilterName suffix r.name) := .inr ⟨hr, suffix, hs, rfl⟩
  refine within_of_inv fun hinv => ?_
  refine within_modify.mpr (moves_putFilter hapart hname ?_)
  cases hfound : s.filters.lookup (oauthFilterName suffix r.name) with
  | none => exact ⟨r.name, rfl, hname, fun hne => absurd rfl hne⟩
  | some f =>
    obtain ⟨w, howner, hw, -⟩ := hinv.filters _ f hfound
    exact ⟨w, howner, hw, fun hne => absurd rfl hne⟩

theorem within_cleanupOAuthResources (hr : Known specs r.name) :
    Within (Moves specs r.name) (cleanupOAuthResources r) s := by
  have hname : ∀ suffix ∈ oauthSuffixes, FilterOf specs r.name (oauthFilterName suffix r.name) :=
    fun suffix hs => .inr ⟨hr, suffix, hs, rfl⟩
  refine within_modify.mpr (trans_of _ (moves_deleteFilter hapart ?_) (moves_deleteFilter hapart ?_))
  · exact hname oauthProtectedResourceMetadataSuffix (by simp [oauthSuffixes])
  · exact hname oauthAuthServerMetadataSuffix (by simp [oauthSuffixes])

theorem within_syncMCPRouteSecurityPolicy (fetch : Fetch) (hr : Known specs r.name) :
    Within (Moves specs r.name) (syncMCPRouteSecurityPolicy fetch r) s := by
  have hcleanup : ∀ s, Within (Moves specs r.name) (cleanupOAuthResources r) s :=
    fun s => within_cleanupOAuthResources hapart hr
  unfold syncMCPRouteSecurityPolicy
  split
  · exact hcleanup s
  split
  · split
    · exact within_throw _ _
    split
    · exact hcleanup s
    · refine within_wrap.mpr (within_bind (within_wrap.mpr ?_) fun _ s' _ => within_wrap.mpr ?_)
      · exact within_ensureOAuthFilter hapart hr (by simp [oauthSuffixes]) _
      · unfold ensureOAuthAuthServerMetadataHRF
        split
        · exact within_throw _ _
        · exact within_ensureOAuthFilter hapart hr (by simp [oauthSuffixes]) _
  · exact hcleanup s

theorem within_syncMCPRoute (fetch : Fetch) (ord : IterOrder String HTTPRoute) (hr : r ∈ specs) :
    Within (Moves specs r.name) (syncMCPRoute fetch ord r) s := by
  unfold syncMCPRoute
  split
  · exact within_pure _ _
  split
  · exact within_throw _ _
  refine within_bind (within_syncMainHTTPRoute hapart r) fun _ s₁ _ => ?_
  refine within_of_inv fun hs₁ => ?_
  rw [within_get_bind]
  have hrefs : ∀ ref ∈ r.backendRefs, HasBackend specs r.name ref.ref.name :=
    fun ref href => ⟨r, hr, rfl, mem_map.mpr ⟨ref, href, rfl⟩⟩
  have howned : OwnedBy r.name (listExistingPerBackendHTTPRoutes s₁ r) :=
    fun name o h => (lookup_listExistingPerBackendHTTPRoutes h).2.1
  refine within_bind (within_syncBackends hapart hrefs howned) fun orphaned s₂ horphaned => ?_
  refine within_bind (within_modify.mpr ?_) fun _ s₃ _ => within_wrap.mpr ?_
  · refine moves_deleteOrphanedPerBackendResources hapart ord fun name o ho => ?_
    obtain ⟨hfound, howner, hpre⟩ :=
      lookup_listExistingPerBackendHTTPRoutes (lookup_of_syncBackends horphaned ho)
    rcases hs₁.httpRoutes name o r.name hfound howner with rfl | h
    · obtain ⟨t, ht⟩ := List.isPrefixOf_iff_prefix.mp hpre
      have hletter := congrArg (fun l : List Char => l[10]?) ht
      simp [mcpMainHTTPRouteName, mcpMainHTTPRoutePrefix, mcpPerBackendRefHTTPRoutePrefix] at hletter
    · exact h
  · exact within_syncMCPRouteSecurityPolicy hapart fetch ⟨r, hr, rfl⟩

theorem moves_reconcile (fetch : Fetch) (ord : IterOrder String HTTPRoute) (name : String) :
    Moves specs name s (reconcile fetch ord name s) := by
  intro hs
  unfold reconcile
  split
  · exact refl_of (Moves specs name) s hs
  · next r hr =>
    obtain ⟨hmem, rfl⟩ := hs.routes name r hr
    exact within_syncMCPRoute hapart fetch ord hmem hs

end

/-! ## Top theorem -/

/-- What happens in a namespace. -/
inductive Action where
  /-- a user creates or changes an MCPRoute. -/
  | apply (r : MCPRoute)
  | remove (route : String)
  /-- the garbage collector or a user deletes an object. -/
  | deleteHTTPRoute (name : String)
  | deleteFilter (name : String)
  | deleteSecret (name : String)
  /-- a user writes a Secret of their own. -/
  | putSecret (name : String) (data : GoMap String String)
  | reconcile (fetch : Fetch) (ord : IterOrder String HTTPRoute) (route : String)

/-- The MCPRoutes that are applied are taken from `specs`. -/
def Step (specs : Set MCPRoute) (s : Namespace) (a : Action) (s' : Namespace) : Prop :=
  match a with
  | .apply r => r ∈ specs ∧ s' = { s with routes := s.routes.insert r.name r }
  | .remove route => s' = { s with routes := s.routes.erase route }
  | .deleteHTTPRoute name => s' = s.deleteHTTPRoute name
  | .deleteFilter name => s' = s.deleteFilter name
  | .deleteSecret name => s' = s.deleteSecret name
  | .putSecret name data =>
    (∀ o, s.secrets.lookup name = some o → o.owner = none) ∧ s' = s.putSecret name ⟨none, data, ∅⟩
  | .reconcile fetch ord route => s' = reconcile fetch ord route s

theorem inv_empty (specs : Set MCPRoute) (ns : String) : Inv specs (.empty ns) := by
  refine ⟨fun name r h => ?_, named_empty, fun name f h => ?_, named_empty⟩
  · cases h
  · cases h

theorem inv_step (hapart : PairwiseApart specs) (s : Namespace) (a : Action)
    (s' : Namespace) (hs : Inv specs s) (h : Step specs s a s') : Inv specs s' := by
  cases a with
  | apply r =>
    obtain ⟨hr, rfl⟩ := h
    refine ⟨fun name r' hr' => ?_, hs.httpRoutes, hs.filters, hs.secrets⟩
    by_cases hname : name = r.name
    · subst hname
      rw [AList.lookup_insert] at hr'
      cases hr'
      exact ⟨hr, rfl⟩
    · rw [AList.lookup_insert_ne hname] at hr'
      exact hs.routes name r' hr'
  | remove route =>
    cases h
    refine ⟨fun name r' hr' => ?_, hs.httpRoutes, hs.filters, hs.secrets⟩
    exact hs.routes name r' (lookup_of_lookup_erase hr')
  | deleteHTTPRoute name =>
    cases h
    exact ⟨hs.routes, hs.httpRoutes.erase name, hs.filters, hs.secrets⟩
  | deleteFilter name =>
    cases h
    refine ⟨hs.routes, hs.httpRoutes, fun name' f hf => ?_, hs.secrets⟩
    exact hs.filters name' f (lookup_of_lookup_erase hf)
  | deleteSecret name =>
    cases h
    exact ⟨hs.routes, hs.httpRoutes, hs.filters, hs.secrets.erase name⟩
  | putSecret name data =>
    obtain ⟨-, rfl⟩ := h
    exact ⟨hs.routes, hs.httpRoutes, hs.filters, hs.secrets.insert fun w hw => by cases hw⟩
  | reconcile fetch ord route =>
    cases h
    exact (moves_reconcile hapart fetch ord route hs).1

/-- In every namespace that can be reached with MCPRoutes whose names do not meet. -/
theorem reconcile_keeps_others (specs : Set MCPRoute) (hapart : PairwiseApart specs) (ns : String)
    (s : Namespace) (hrun : Run (Step specs) (.empty ns) s) (fetch : Fetch)
    (ord : IterOrder String HTTPRoute) (route : String) :
    OthersUnchanged route s (reconcile fetch ord route s) := by
  have hinv : Inv specs s := hrun.invariant (Inv specs) (inv_empty specs ns) (inv_step hapart)
  exact (moves_reconcile hapart fetch ord route hinv).2

/-- Names without a hyphen cannot meet, but for the one that begins all filter names. -/
theorem apart_of_free {r r' : MCPRoute} (h : Free '-' r'.name) (hbrf : r'.name ≠ "brf") : Apart r r' := by
  refine ⟨fun b _ b' _ m hm _ => ?_, fun b _ suffix hs heq => ?_⟩
  · rw [hm] at h
    exact h (by simp)
  · obtain ⟨rest, rfl⟩ : ∃ rest, suffix = "-" ++ rest := by
      rcases mem_pair.mp hs with rfl | rfl
      · exact ⟨"oauth-protected-resource-metadata", by decide⟩
      · exact ⟨"oauth-authorization-server-metadata", by decide⟩
    have hjoin : "brf" ++ String.singleton '-' ++ routeAndBackend r.name b =
        r'.name ++ String.singleton '-' ++ rest := by
      have hbegin : "brf" ++ String.singleton '-' = "brf-" := by decide
      rw [hbegin, heq]
      exact String.append_assoc.symm
    rcases (append_sep_eq_iff '-' _ _ _ _).mp hjoin with ⟨hname, -⟩ | ⟨m, hname, -⟩ | ⟨m, hname, -⟩
    · exact hbrf hname.symm
    · rw [hname] at h
      exact h (by simp)
    · have hfree : Free '-' "brf" := by decide
      rw [hname] at hfree
      exact hfree (by simp)

/-- An MCPRoute with one backend. -/
def oneBackend (route backend : String) (key : Option APIKey) : MCPRoute where
  name := route
  deleting := false
  labels := []
  annotations := []
  parentRefs := []
  hostnames := []
  path := none
  headers := []
  backendRefs := [⟨⟨none, none, backend, none, none⟩, none, none, none, key, none⟩]
  securityPolicy := none
  prefixMode := none

/-- A key that is only injected when the client sends none: it is kept in a Secret. -/
def fallbackKey : APIKey := ⟨none, some "k", none, none, some .ifNotPresent⟩

def noFetch : Fetch := fun _ _ => .error "not reachable"

/-- The namespace after a first route has been applied and reconciled and a second one applied. -/
def twoRoutes (first second : MCPRoute) : Namespace :=
  let s := Namespace.empty "default"
  let s := { s with routes := s.routes.insert first.name first }
  let s := reconcile noFetch GoMap.storedOrder first.name s
  { s with routes := s.routes.insert second.name second }

theorem run_twoRoutes {first second : MCPRoute} (h : first ∈ specs) (h' : second ∈ specs) :
    Run (Step specs) (Namespace.empty "default") (twoRoutes first second) :=
  .next (.apply second)
    (.next (.reconcile noFetch GoMap.storedOrder first.name) (.next (.apply first) .start ⟨h, rfl⟩) rfl)
    ⟨h', rfl⟩

/-- The backend `b-c` of the route `a` takes the credential of the backend `c` of `a-b` away. -/
theorem reconcile_deletes_credential_of_other_route :
    Run (Step Set.univ) (Namespace.empty "default")
        (twoRoutes (oneBackend "a-b" "c" (some fallbackKey)) (oneBackend "a" "b-c" none)) ∧
      ¬ OthersUnchanged "a"
        (twoRoutes (oneBackend "a-b" "c" (some fallbackKey)) (oneBackend "a" "b-c" none))
        (reconcile noFetch GoMap.storedOrder "a"
          (twoRoutes (oneBackend "a-b" "c" (some fallbackKey)) (oneBackend "a" "b-c" none))) := by
  refine ⟨run_twoRoutes trivial trivial, fun h => ?_⟩
  have hkept := h.secrets "ai-eg-mcp-cred-a-b-c" _ "a-b" rfl rfl (by decide)
  cases hkept

theorem reconcile_keeps_credential_of_other_route :
    OthersUnchanged "a" (twoRoutes (oneBackend "b" "c" (some fallbackKey)) (oneBackend "a" "c" none))
      (reconcile noFetch GoMap.storedOrder "a"
        (twoRoutes (oneBackend "b" "c" (some fallbackKey)) (oneBackend "a" "c" none))) := by
  refine reconcile_keeps_others
    {oneBackend "b" "c" (some fallbackKey), oneBackend "a" "c" none} ?_ "default" _
    (run_twoRoutes (.inl rfl) (.inr rfl)) _ _ _
  intro r hr r' hr' _
  rcases hr' with rfl | rfl
  · exact apart_of_free (by decide) (by decide)
  · exact apart_of_free (by decide) (by decide)

end AgentRouter.MCPSync
