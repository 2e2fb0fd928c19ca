import AgentRouter.Kube.Objects

/-!
# ReferenceGrant: which cross-namespace references are permitted

`validateReference` lists the grants indexed under `targetNamespace.targetKind`
and accepts the reference when one of them is live, has a matching `from` and a
matching `to`.  The four wrappers fix the groups and kinds.  `Permits` is what a
grant of the target namespace says.  The key has one dot when the grant's namespace
and kinds have none (they are DNS labels and words), so the index finds exactly the
grants of the target namespace that have its kind, whatever the reference is:

    validateReference s r = none ↔ r.fromNs = r.targetNs ∨ ∃ g ∈ s.referenceGrants, Permits g r
      (validateReference_allows_iff)
-/

namespace AgentRouter.Kube

open List hiding splitOn

open Text

/-! ## Algorithm -/

/-- The reference that is validated; also the fields of `ReferenceNotPermittedError`. -/
structure Reference where
  fromGroup : String
  fromKind : String
  fromNs : String
  targetGroup : String
  targetKind : String
  targetNs : String
  targetName : String

/-- `ReferenceNotPermittedError.Error`. -/
def Reference.notPermitted (r : Reference) : String :=
  "cross-namespace reference from " ++ r.fromKind ++ " in namespace " ++ r.fromNs ++ " to " ++
    r.targetKind ++ " " ++ r.targetName ++ " in namespace " ++ r.targetNs ++
    " is not permitted: no valid ReferenceGrant found in namespace " ++ r.targetNs ++
    ". A ReferenceGrant must allow " ++ r.fromKind ++ " from namespace " ++ r.fromNs ++
    " to reference " ++ r.targetKind ++ " in namespace " ++ r.targetNs

def matchesFrom (f : ReferenceGrantFrom) (r : Reference) : Bool :=
  f.group = r.fromGroup && f.kind = r.fromKind && f.ns = r.fromNs

def matchesTo (t : ReferenceGrantTo) (r : Reference) : Bool :=
  t.group = r.targetGroup && t.kind = r.targetKind &&
    match t.name with
    | some n => n = r.targetName
    | none => true

def isReferenceGrantValid (g : ReferenceGrant) (r : Reference) : Bool :=
  !g.deleting && g.froms.any (matchesFrom · r) && g.tos.any (matchesTo · r)

def getReferenceGrantIndexKey (ns kind : String) : String := ns ++ "." ++ kind

def referenceGrantToTargetKindIndexFunc (g : ReferenceGrant) : List String :=
  g.tos.map fun t => getReferenceGrantIndexKey g.key.ns t.kind

/-- `none` when the reference is permitted, otherwise the rejected reference. -/
def validateReference (s : Store) (r : Reference) : Option Reference :=
  if r.fromNs = r.targetNs then none
  else
    let listed := s.referenceGrants.filter fun g =>
      getReferenceGrantIndexKey r.targetNs r.targetKind ∈ referenceGrantToTargetKindIndexFunc g
    if listed.any (isReferenceGrantValid · r) then none else some r

def validateAIServiceBackendReference (s : Store) (routeNs backendNs backendName : String) :
    Option Reference :=
  validateReference s ⟨aiServiceBackendGroup, "AIGatewayRoute", routeNs,
    aiServiceBackendGroup, aiServiceBackendKind, backendNs, backendName⟩

def validateQuotaPolicyAIServiceBackendReference (s : Store)
    (policyNs backendNs backendName : String) : Option Reference :=
  validateReference s ⟨aiServiceBackendGroup, "QuotaPolicy", policyNs,
    aiServiceBackendGroup, aiServiceBackendKind, backendNs, backendName⟩

def validateInferencePoolReference (s : Store) (routeNs poolNs poolName : String) :
    Option Reference :=
  validateReference s ⟨aiServiceBackendGroup, "AIGatewayRoute", routeNs,
    inferencePoolGroup, inferencePoolKind, poolNs, poolName⟩

def secretReference (bspNs secretNs secretName : String) : Reference :=
  ⟨aiServiceBackendGroup, "BackendSecurityPolicy", bspNs, "", "Secret", secretNs, secretName⟩

def validateSecretReference (s : Store) (bspNs secretNs secretName : String) :
    Option Reference :=
  validateReference s (secretReference bspNs secretNs secretName)

/-! ## What a grant permits -/

/-- A live grant in the target namespace with a matching `from` and a matching `to`. -/
def Permits (g : ReferenceGrant) (r : Reference) : Prop :=
  g.key.ns = r.targetNs ∧ g.deleting = false ∧
    (∃ f ∈ g.froms, f.group = r.fromGroup ∧ f.kind = r.fromKind ∧ f.ns = r.fromNs) ∧
    ∃ t ∈ g.tos, t.group = r.targetGroup ∧ t.kind = r.targetKind ∧
      (t.name = none ∨ t.name = some r.targetName)

instance (g : ReferenceGrant) (r : Reference) : Decidable (Permits g r) :=
  inferInstanceAs (Decidable (_ ∧ _))

/-! ## Lemmas -/

theorem matchesTo_iff (t : ReferenceGrantTo) (r : Reference) :
    matchesTo t r = true ↔ t.group = r.targetGroup ∧ t.kind = r.targetKind ∧
      (t.name = none ∨ t.name = some r.targetName) := by
  unfold matchesTo
  cases t.name <;> simp [and_assoc]

theorem isReferenceGrantValid_iff (g : ReferenceGrant) (r : Reference) :
    isReferenceGrantValid g r = true ↔ g.deleting = false ∧
      (∃ f ∈ g.froms, f.group = r.fromGroup ∧ f.kind = r.fromKind ∧ f.ns = r.fromNs) ∧
      ∃ t ∈ g.tos, t.group = r.targetGroup ∧ t.kind = r.targetKind ∧
        (t.name = none ∨ t.name = some r.targetName) := by
  unfold isReferenceGrantValid matchesFrom
  simp [any_eq_true, matchesTo_iff, and_assoc]

theorem getReferenceGrantIndexKey_inj {ns ns' kind kind' : String} (h : Free '.' ns)
    (h' : Free '.' ns')
    (he : getReferenceGrantIndexKey ns kind = getReferenceGrantIndexKey ns' kind') : ns = ns' := by
  have h1 := @splitOn_cons '.' ns kind h
  have h2 := @splitOn_cons '.' ns' kind' h'
  have he' : ns ++ String.singleton '.' ++ kind = ns' ++ String.singleton '.' ++ kind' := he
  rw [he', h2] at h1
  exact (List.cons.inj h1).1.symm

theorem validateReference_eq_none_of_index {s : Store} {r : Reference}
    (hindex : ∀ g ∈ s.referenceGrants,
      getReferenceGrantIndexKey r.targetNs r.targetKind ∈ referenceGrantToTargetKindIndexFunc g →
        g.key.ns = r.targetNs) :
    validateReference s r = none ↔ r.fromNs = r.targetNs ∨ ∃ g ∈ s.referenceGrants, Permits g r := by
  unfold validateReference
  by_cases hns : r.fromNs = r.targetNs
  · simp [hns]
  · simp only [hns, if_false, false_or, ite_eq_left_iff, reduceCtorEq, imp_false, not_not,
      any_eq_true, mem_filter, decide_eq_true_eq,
      isReferenceGrantValid_iff]
    constructor
    · rintro ⟨g, ⟨hg, hkey⟩, hd, hf, ht⟩
      exact ⟨g, hg, hindex g hg hkey, hd, hf, ht⟩
    · rintro ⟨g, hg, hgns, hd, hf, t, ht, hgr, hkind, hname⟩
      refine ⟨g, ⟨hg, ?_⟩, hd, hf, t, ht, hgr, hkind, hname⟩
      exact mem_map.mpr ⟨t, ht, by rw [hgns, hkind]⟩

theorem validateReference_eq_none_iff {s : Store} {r : Reference} (hr : Free '.' r.targetNs)
    (hs : ∀ g ∈ s.referenceGrants, Free '.' g.key.ns) :
    validateReference s r = none ↔ r.fromNs = r.targetNs ∨ ∃ g ∈ s.referenceGrants, Permits g r := by
  apply validateReference_eq_none_of_index
  intro g hg hkey
  obtain ⟨t, -, hkey⟩ := mem_map.mp hkey
  exact getReferenceGrantIndexKey_inj (hs g hg) hr hkey

/-! ## Any reference -/

/-- What the API server demands of a grant: the namespace is a DNS label and a kind is a word of
letters, digits and dashes, so neither of them has a dot. -/
structure ReferenceGrant.Admitted (g : ReferenceGrant) : Prop where
  ns : Free '.' g.key.ns
  kinds : ∀ t ∈ g.tos, Free '.' t.kind

instance (g : ReferenceGrant) : Decidable g.Admitted :=
  decidable_of_iff (Free '.' g.key.ns ∧ ∀ t ∈ g.tos, Free '.' t.kind)
    ⟨fun h => ⟨h.1, h.2⟩, fun h => ⟨h.ns, h.kinds⟩⟩

/-- A key of an admitted grant has one dot, so that nothing but its namespace and kind makes it. -/
theorem ns_of_mem_index {g : ReferenceGrant} (h : g.Admitted) {ns kind : String}
    (hkey : getReferenceGrantIndexKey ns kind ∈ referenceGrantToTargetKindIndexFunc g) :
    g.key.ns = ns := by
  obtain ⟨t, ht, hkey⟩ := mem_map.mp hkey
  have hparts : splitOn '.' ns ++ splitOn '.' kind = [g.key.ns] ++ [t.kind] := by
    rw [← splitOn_append, ← splitOn_free h.ns, ← splitOn_free (h.kinds t ht), ← splitOn_append]
    exact congrArg (splitOn '.') hkey.symm
  -- both texts have at least one part
  have hpos := length_pos_iff.mpr (splitOn_ne_nil '.' ns)
  have hpos' := length_pos_iff.mpr (splitOn_ne_nil '.' kind)
  have hlen := congrArg List.length hparts
  rw [length_append, length_append, length_singleton, length_singleton] at hlen
  obtain ⟨hns, -⟩ := append_inj hparts (by simp only [length_singleton]; omega)
  apply splitOn_injective '.'
  rw [hns, splitOn_free h.ns]

/-- Nothing is asked of the reference. -/
theorem validateReference_allows_iff {s : Store} (hs : ∀ g ∈ s.referenceGrants, g.Admitted)
    (r : Reference) :
    validateReference s r = none ↔
      r.fromNs = r.targetNs ∨ ∃ g ∈ s.referenceGrants, Permits g r :=
  validateReference_eq_none_of_index fun g hg => ns_of_mem_index (hs g hg)

/-- A grant for one Secret, and one for all Secrets that is being deleted. -/
def secretGrants : List ReferenceGrant :=
  [⟨⟨"ns2", "one"⟩, false, [⟨aiServiceBackendGroup, "BackendSecurityPolicy", "ns1"⟩],
      [⟨"", "Secret", some "key"⟩]⟩,
    ⟨⟨"ns2", "all"⟩, true, [⟨aiServiceBackendGroup, "BackendSecurityPolicy", "ns1"⟩],
      [⟨"", "Secret", none⟩]⟩]

theorem only_the_named_secret_is_allowed :
    let s : Store := { Store.empty with referenceGrants := secretGrants }
    (∀ g ∈ s.referenceGrants, g.Admitted) ∧ validateSecretReference s "ns1" "ns2" "key" = none ∧
      validateSecretReference s "ns1" "ns2" "other" ≠ none := by
  intro s
  have hs : ∀ g ∈ s.referenceGrants, g.Admitted := by decide
  refine ⟨hs, (validateReference_allows_iff hs _).mpr ?_, fun h => ?_⟩
  · decide
  · exact absurd ((validateReference_allows_iff hs _).mp h) (by decide)

end AgentRouter.Kube
