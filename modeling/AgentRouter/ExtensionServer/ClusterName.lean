import AgentRouter.Lib.Text

/-!
# ClusterName: the names Envoy Gateway gives to the clusters of a route

Envoy Gateway names the cluster of a whole rule `httproute/ns/name/rule/i`, and a
cluster made for one backend alone `httproute/ns/name/rule/i/backend/j`.
`parseAIGatewayClusterName` reads both forms.  Whatever it accepts has five or
seven parts (`parseAIGatewayClusterName_eq_ok_iff`), and it reads the two forms
back (`parse_ruleClusterName`, `parse_backendClusterName`).
-/

namespace AgentRouter.ExtensionServer

open Text List

/-! ## Algorithm -/

/-- `aiGatewayClusterName`; the backend index is absent in the per-rule form, where
the source keeps `noBackendRefIndex`. -/
structure ClusterName where
  ns : String
  routeName : String
  ruleIndex : Nat
  backendRefIndex : Option Nat
  deriving DecidableEq

/-- `strconv.Atoi` followed by the check for a negative number. -/
def parseIndex (s : String) : Option Nat :=
  match atoi s with
  | some (.ofNat n) => some n
  | _ => none

def parseAIGatewayClusterName (name : String) : Except String ClusterName :=
  match splitOn '/' name with
  | [p0, ns, routeName, p3, i] =>
    if p0 = "httproute" ∧ p3 = "rule" then
      match parseIndex i with
      | none => .error ("invalid HTTPRoute rule index " ++ i)
      | some ruleIndex => .ok ⟨ns, routeName, ruleIndex, none⟩
    else .error ("invalid AIGatewayRoute cluster name " ++ name)
  | [p0, ns, routeName, p3, i, p5, j] =>
    if p0 = "httproute" ∧ p3 = "rule" then
      match parseIndex i with
      | none => .error ("invalid HTTPRoute rule index " ++ i)
      | some ruleIndex =>
        if p5 = "backend" then
          match parseIndex j with
          | none => .error ("invalid HTTPRoute backend index " ++ j)
          | some backendRefIndex => .ok ⟨ns, routeName, ruleIndex, some backendRefIndex⟩
        else .error ("invalid AIGatewayRoute backend cluster name " ++ name)
    else .error ("invalid AIGatewayRoute cluster name " ++ name)
  | _ => .error ("invalid AIGatewayRoute cluster name " ++ name)

/-- The per-rule form of a cluster name. -/
def ruleClusterName (ns routeName : String) (i : Nat) : String :=
  "httproute/" ++ ns ++ "/" ++ routeName ++ "/rule/" ++ i.repr

/-- The per-backend form of a cluster name. -/
def backendClusterName (ns routeName : String) (i j : Nat) : String :=
  ruleClusterName ns routeName i ++ "/backend/" ++ j.repr

/-! ## Lemmas -/

theorem parseIndex_repr {n : Nat} (h : n < 2 ^ 63) : parseIndex n.repr = some n := by
  unfold parseIndex
  rw [atoi_repr h]

theorem parseAIGatewayClusterName_eq_ok_iff (name : String) (cn : ClusterName) :
    parseAIGatewayClusterName name = .ok cn ↔
      (∃ i, splitOn '/' name = ["httproute", cn.ns, cn.routeName, "rule", i] ∧
        parseIndex i = some cn.ruleIndex ∧ cn.backendRefIndex = none) ∨
      (∃ i j b, splitOn '/' name = ["httproute", cn.ns, cn.routeName, "rule", i, "backend", j] ∧
        parseIndex i = some cn.ruleIndex ∧ parseIndex j = some b ∧
        cn.backendRefIndex = some b) := by
  constructor
  · intro h
    unfold parseAIGatewayClusterName at h
    split at h
    · next p0 ns routeName p3 i hsplit =>
      split at h
      · next hp =>
        split at h
        · cases h
        · next ruleIndex hi =>
          cases h
          exact .inl ⟨i, by rw [hsplit, hp.1, hp.2], hi, rfl⟩
      · cases h
    · next p0 ns routeName p3 i p5 j hsplit =>
      split at h
      · next hp =>
        split at h
        · cases h
        · next ruleIndex hi =>
          split at h
          · next h5 =>
            split at h
            · cases h
            · next b hj =>
              cases h
              exact .inr ⟨i, j, b, by rw [hsplit, hp.1, hp.2, h5], hi, hj, rfl⟩
          · cases h
      · cases h
    · cases h
  · rintro (⟨i, hsplit, hi, hb⟩ | ⟨i, j, b, hsplit, hi, hj, hb⟩)
    · unfold parseAIGatewayClusterName
      cases cn
      simp_all
    · unfold parseAIGatewayClusterName
      cases cn
      simp_all

variable {ns routeName : String} (hns : Free '/' ns)

include hns

variable (hr : Free '/' routeName)

include hr

theorem splitOn_ruleClusterName (i : Nat) :
    splitOn '/' (ruleClusterName ns routeName i) = ["httproute", ns, routeName, "rule", i.repr] := by
  refine splitOn_intercalate (cons_ne_nil _ _) ?_ ?_
  · simp only [forall_mem_cons, hns, hr, free_slash_repr]
    decide
  · simp [ruleClusterName, List.intercalate]

theorem splitOn_backendClusterName (i j : Nat) :
    splitOn '/' (backendClusterName ns routeName i j) =
      ["httproute", ns, routeName, "rule", i.repr, "backend", j.repr] := by
  refine splitOn_intercalate (cons_ne_nil _ _) ?_ ?_
  · simp only [forall_mem_cons, hns, hr, free_slash_repr]
    decide
  · simp [backendClusterName, ruleClusterName, List.intercalate]

theorem parse_ruleClusterName {i : Nat} (hi : i < 2 ^ 63) :
    parseAIGatewayClusterName (ruleClusterName ns routeName i) = .ok ⟨ns, routeName, i, none⟩ :=
  (parseAIGatewayClusterName_eq_ok_iff _ _).mpr
    (.inl ⟨i.repr, splitOn_ruleClusterName hns hr i, parseIndex_repr hi, rfl⟩)

theorem parse_backendClusterName {i j : Nat} (hi : i < 2 ^ 63) (hj : j < 2 ^ 63) :
    parseAIGatewayClusterName (backendClusterName ns routeName i j) = .ok ⟨ns, routeName, i, some j⟩ :=
  (parseAIGatewayClusterName_eq_ok_iff _ _).mpr
    (.inr ⟨i.repr, j.repr, j, splitOn_backendClusterName hns hr i j, parseIndex_repr hi,
      parseIndex_repr hj, rfl⟩)

omit hns hr in
theorem parse_plainCluster :
    parseAIGatewayClusterName (backendClusterName "ns" "r" 0 1) = .ok ⟨"ns", "r", 0, some 1⟩ :=
  parse_backendClusterName (by decide) (by decide) (by decide) (by decide)

end AgentRouter.ExtensionServer
