import AgentRouter.ExtProc.Upstream
import AgentRouter.Lib.JsonPath

/-!
# MergedBodies: body mutations of a route and of a backend

The controller merges the body mutation of a backendRef with the one of its
AIServiceBackend through maps keyed by path: the set fields of both in the order of the
map, the removed fields of both, and the removed ones first.  A dot in a path leads into
a nested object.  When no path that is set lies above another one:

    the merged mutation does what the backend's and then the route's do, for every
    order of the maps and every body without repeated keys
    ↔ the route sets again what the backend sets at, below or around something the route
      removes, and what the route removes above a path the backend sets the backend
      removes too   (mergedBodies_iff)

A value is around a removed path when it has something there.  When a path that is set
lies above another one, the law fails for some values at these paths.
-/

namespace AgentRouter.ExtProc

open Kube Controller Text Json List View GoMap

/-! ## Algorithm -/

/-- The keys of a path. -/
def segments (path : String) : List String := splitOn '.' path

/-- The value of a field: spliced in if it looks like JSON, else a string. -/
def fieldValue (read : String → Json) (f : HTTPBodyField) : Json :=
  if isJSONValue f.value then read f.value else .str f.value

/-- One pass of the loop over the fields to set. -/
def setFieldAt (read : String → Json) (j : Json) (f : HTTPBodyField) : Except String Json :=
  if f.path = "" then .ok j
  else (setPath (segments f.path) (fieldValue read f) j).mapError fun e =>
    "failed to set field " ++ f.path ++ ": " ++ e

/-- One pass of the loop over the fields to remove. -/
def removeFieldAt (j : Json) (path : String) : Json :=
  if path = "" then j else deletePath (segments path) j

/-- `BodyMutator.Mutate`, with paths that lead into nested objects. -/
def mutateBodyAt (read : String → Json) (m : Option HTTPBodyMutation) (j : Json) :
    Except String Json :=
  match m with
  | none => .ok j
  | some m => m.set.foldlM (setFieldAt read) (m.remove.foldl removeFieldAt j)

/-! ## Specification -/

/-- A key to which sjson gives no other meaning: no index, no wildcard, no modifier, no escape. -/
def plainSegment (s : String) : Bool :=
  s ≠ "" && s ≠ "-1" && !s.toList.all Char.isDigit &&
    s.toList.all fun c => c ∉ ['\\', '|', '#', '@', '*', '?', '!', ':', '{', '[']

/-- A path that is skipped, or whose keys are plain. -/
def PlainPath (path : String) : Prop := path = "" ∨ ∀ s ∈ segments path, plainSegment s = true

instance : DecidablePred PlainPath := fun path =>
  inferInstanceAs (Decidable (path = "" ∨ ∀ s ∈ segments path, plainSegment s = true))

/-- A mutation whose paths are plain. -/
structure PlainMutation where
  mutation : HTTPBodyMutation
  plain : ∀ path ∈ mutation.set.map HTTPBodyField.path ++ mutation.remove, PlainPath path

open PlainMutation

/-- The paths of a mutation, without the values. -/
def PlainMutation.paths (m : PlainMutation) : List String × List String :=
  (m.mutation.set.map HTTPBodyField.path, m.mutation.remove)

/-- What the texts that look like JSON stand for: values without repeated keys. -/
structure Reading where
  read : String → Json
  distinct : ∀ s, Distinct (read s)

/-- A JSON object without repeated keys. -/
structure Body where
  json : Json
  isObject : json.IsObject
  distinct : Distinct json

/-- Both mutations fail, or they leave bodies that are the same up to the order of members. -/
def SameOutcome (a b : Except String Json) : Prop :=
  a.toOption.map Json.view = b.toOption.map Json.view

/-- The paths that the fields set, without the one that is skipped. -/
def setPaths (fs : List HTTPBodyField) : List (List String) :=
  (fs.filter fun f => f.path ≠ "").map fun f => segments f.path

def removePaths (paths : List String) : List (List String) :=
  (paths.filter (· ≠ "")).map segments

/-- The assignments of a list of fields. -/
def setEntries (read : String → Json) (fs : List HTTPBodyField) : List (List String × Json) :=
  (fs.filter fun f => f.path ≠ "").map fun f => (segments f.path, fieldValue read f)

/-- The merged mutation does what the backend's and then the route's do. -/
def MergedAgrees (read : Reading) (ord : MergeOrders) (route backend : Option HTTPBodyMutation)
    (body : Body) : Prop :=
  SameOutcome (mutateBodyAt read.read (mergeBodyMutations ord route backend) body.json)
    (mutateBodyAt read.read backend body.json >>= mutateBodyAt read.read route)

/-- The condition on the two levels: the backend sets the values `fb` and removes `rb`, the route
sets something at `sr` and removes `rr`. -/
structure LevelsAgree (fb : List String → Option Json) (rb sr rr : List (List String)) : Prop where
  restored : ∀ {p v q}, fb p = some v → q ∈ rr →
    q <+: p ∨ p <+: q ∧ v.view (q.drop p.length) ≠ none → p ∈ sr
  cleared : ∀ {p q}, fb p ≠ none → q ∈ rr → q <+: p → q ≠ p → ∃ r ∈ rb, r <+: q

/-- The values that fields set, with the last one of a path. -/
def setValues (read : String → Json) (fs : List HTTPBodyField) (p : List String) : Option Json :=
  lastValue p (setEntries read fs)

/-! ## Lemmas -/

/-! ### Paths without a dot -/

variable {path : String}

theorem segments_free (h : Free '.' path) : segments path = [path] := splitOn_free h

variable {f : HTTPBodyField}

theorem setFieldAt_of_free {read : String → Json} (h : Free '.' f.path) (j : Json) :
    setFieldAt read j f = setField read j f := by
  unfold setFieldAt setField fieldValue
  rw [segments_free h, setPath_singleton]

theorem removeFieldAt_of_free (h : Free '.' path) (j : Json) :
    removeFieldAt j path = if path = "" then j else j.delete path := by
  unfold removeFieldAt
  rw [segments_free h, deletePath_singleton]

variable (read : String → Json)

/-- Without dots only fields of the body itself are set and removed. -/
theorem mutateBodyAt_eq_mutateBody {m : HTTPBodyMutation} (hset : ∀ f ∈ m.set, Free '.' f.path)
    (hremove : ∀ path ∈ m.remove, Free '.' path) (j : Json) :
    mutateBodyAt read (some m) j = mutateBody read (some m) j := by
  have hremoves := foldl_ext removeFieldAt (fun j f => if f = "" then j else j.delete f) j
    fun j path hpath => removeFieldAt_of_free (hremove path hpath) j
  have hsets (fs : List HTTPBodyField) (hfs : ∀ f ∈ fs, Free '.' f.path) (j : Json) :
      fs.foldlM (setFieldAt read) j = fs.foldlM (setField read) j := by
    induction fs generalizing j with
    | nil => rfl
    | cons f fs ih =>
      rw [foldlM_cons, setFieldAt_of_free (hfs f mem_cons_self)]
      congr 1
      funext j'
      exact ih (fun f hf => hfs f (mem_cons_of_mem _ hf)) j'
  rw [mutateBodyAt, mutateBody, hremoves, hsets m.set hset]

/-! ### Runs of a mutation -/

variable (fs : List HTTPBodyField)

theorem keys_setEntries : (setEntries read fs).map Prod.fst = setPaths fs := by
  simp only [setEntries, setPaths, map_map, Function.comp_def]

theorem foldl_removeFieldAt (paths : List String) (j : Json) :
    paths.foldl removeFieldAt j = (removePaths paths).foldl (fun j p => deletePath p j) j := by
  rw [removePaths, foldl_map, foldl_filter]
  refine foldl_ext _ _ _ fun j path _ => ?_
  by_cases h : path = ""
  · simp [removeFieldAt, h]
  · simp [removeFieldAt, h]

theorem toOption_foldlM_setFieldAt (j : Json) :
    (fs.foldlM (setFieldAt read) j).toOption = (setEachPath (setEntries read fs) j).toOption := by
  unfold setEachPath setEntries
  induction fs generalizing j with
  | nil => rfl
  | cons f fs ih =>
    rw [foldlM_cons, setFieldAt]
    by_cases h : f.path = ""
    · rw [if_pos h, filter_cons_of_neg (by simp [h])]
      exact ih j
    · rw [if_neg h, filter_cons_of_pos (by simp [h]), map_cons, foldlM_cons]
      cases setPath (segments f.path) (fieldValue read f) j with
      | error e => rfl
      | ok j' => exact ih j'

theorem ne_nil_of_mem_removePaths (paths : List String) : ∀ p ∈ removePaths paths, p ≠ [] := by
  intro p hp
  obtain ⟨path, -, rfl⟩ := mem_map.mp hp
  exact splitOn_ne_nil '.' path

variable {j : Json}

theorem mutateBodyAt_spec (read : Reading) (m : HTTPBodyMutation) (hsep : Separate (setPaths m.set))
    (hj : Distinct j) :
    ((mutateBodyAt read.read (some m) j).toOption = none ∧
        ∃ p ∈ setPaths m.set, View.Blocked p (View.delete (removePaths m.remove) j.view)) ∨
      ∃ j', (mutateBodyAt read.read (some m) j).toOption = some j' ∧ Distinct j' ∧
        (∀ p ∈ setPaths m.set, ¬ View.Blocked p (View.delete (removePaths m.remove) j.view)) ∧
        View.Overlaid (fun p => lastValue p (setEntries read.read m.set))
          (View.delete (removePaths m.remove) j.view) j'.view := by
  have hdistinct := distinct_foldl_deletePath (removePaths m.remove) hj
  have hvalues (e : List String × Json) (he : e ∈ setEntries read.read m.set) : Distinct e.2 := by
    obtain ⟨f, -, rfl⟩ := mem_map.mp he
    unfold fieldValue
    split
    · exact read.distinct f.value
    · exact distinct_of_forall_ne_obj (by simp)
  rw [mutateBodyAt, toOption_foldlM_setFieldAt, foldl_removeFieldAt,
    ← view_foldl_deletePath (ne_nil_of_mem_removePaths m.remove) hj, ← keys_setEntries read.read]
  rcases setEachPath_spec (keys_setEntries read.read m.set ▸ hsep) _ with
    ⟨err, herror, hblocked⟩ | ⟨j', hok, hfree, hover⟩
  · exact .inl ⟨by rw [herror]; rfl, hblocked⟩
  · exact .inr ⟨j', by rw [hok]; rfl, distinct_setEachPath hvalues hdistinct hok, hfree, hover⟩

/-! ### The merged mutation -/

theorem segments_injective : Function.Injective segments := splitOn_injective '.'

theorem lastValue_setEntries (hpath : path ≠ "") :
    lastValue (segments path) (setEntries read fs) =
      (lastValue path (fs.map fun f => (f.path, f))).map (fieldValue read) := by
  have hentries : setEntries read fs =
      (((fs.map fun f => (f.path, f)).filter fun e => e.1 ≠ "").map fun e =>
        (e.1, fieldValue read e.2)).map fun e => (segments e.1, e.2) := by
    simp only [setEntries, filter_map, map_map, Function.comp_def]
  rw [hentries, lastValue_map_key segments_injective, lastValue_map, lastValue_filter]
  intro v
  exact decide_eq_true hpath

variable (ord : IterOrder String HTTPBodyField) (backend route : List HTTPBodyField)

theorem lastValue_setEntries_mergeSets (p : List String) :
    lastValue p (setEntries read (mergeSets HTTPBodyField.path ord backend route)) =
      (lastValue p (setEntries read route)).or (lastValue p (setEntries read backend)) := by
  by_cases hp : ∃ path, path ≠ "" ∧ segments path = p
  · obtain ⟨path, hpath, rfl⟩ := hp
    rw [lastValue_setEntries read _ hpath, lastValue_setEntries read _ hpath,
      lastValue_setEntries read _ hpath, lastValue_mergeSets, Option.map_or]
  · have hnone (fs : List HTTPBodyField) : lastValue p (setEntries read fs) = none := by
      rw [lastValue_eq_none_iff, keys_setEntries]
      intro hmem
      obtain ⟨f, hf, rfl⟩ := mem_map.mp hmem
      exact hp ⟨f.path, of_decide_eq_true (mem_filter.mp hf).2, rfl⟩
    rw [hnone, hnone, hnone]
    rfl

theorem mem_setPaths_mergeSets (p : List String) :
    p ∈ setPaths (mergeSets HTTPBodyField.path ord backend route) ↔
      p ∈ setPaths backend ∨ p ∈ setPaths route := by
  have hread : ∀ fs, p ∈ setPaths fs ↔ lastValue p (setEntries Json.str fs) ≠ none := by
    intro fs
    rw [lastValue_ne_none_iff, keys_setEntries]
  rw [hread, hread, hread, lastValue_setEntries_mergeSets, ne_eq, Option.or_eq_none_iff]
  tauto

variable {p : List String}

theorem mem_removePaths {paths : List String} :
    p ∈ removePaths paths ↔ ∃ path ∈ paths, path ≠ "" ∧ segments path = p := by
  unfold removePaths
  simp [and_assoc]

theorem mem_removePaths_mergeRemoves (ord : IterOrder String String) (backend route : List String)
    (p : List String) :
    p ∈ removePaths (mergeRemoves id ord backend route) ↔ p ∈ removePaths backend ++ removePaths route := by
  simp only [mem_append, mem_removePaths, mem_mergeRemoves, map_id]
  constructor
  · rintro ⟨path, hb | hr, h⟩
    · exact .inl ⟨path, hb, h⟩
    · exact .inr ⟨path, hr, h⟩
  · rintro (⟨path, hb, h⟩ | ⟨path, hr, h⟩)
    · exact ⟨path, .inl hb, h⟩
    · exact ⟨path, .inr hr, h⟩

/-! ### Two levels on views -/

section

variable {sb rb sr rr : List (List String)} {fb fr : List String → Option Json} {w w2 w4 : View}

variable {q : List String}

theorem eq_of_levels (hsep : Separate (sb ++ sr)) {p' : List String} (hp : p ∈ sb)
    (hp' : p' ∈ sr) (hpq : p <+: q) (hp'q : p' <+: q ∨ q <+: p') : p = p' := by
  have hp := mem_append_left sr hp
  have hp' := mem_append_right sb hp'
  rcases hp'q with hp'q | hqp'
  · exact hsep.eq_of_above hp hp' hpq hp'q
  · exact hsep p hp p' hp' (hpq.trans hqp')

variable {ps : List (List String)}

theorem of_delete_eq_some (h : View.delete ps w q = some j) : w q = some j ∧ ∀ p ∈ ps, ¬ p <+: q := by
  unfold View.delete at h
  split at h
  · cases h
  next hnot => exact ⟨h, fun p hp hpq => hnot ⟨p, hp, hpq⟩⟩

variable (hfb : ∀ p, fb p ≠ none ↔ p ∈ sb) (hfr : ∀ p, fr p ≠ none ↔ p ∈ sr)

variable (hsep : Separate (sb ++ sr)) (h : LevelsAgree fb rb sr rr)

variable (hb : View.Overlaid fb (View.delete rb w) w2)

include hfb hfr hsep h hb in
theorem LevelsAgree.overlaid (hr : View.Overlaid fr (View.delete rr w2) w4) :
    View.Overlaid (fun p => (fr p).or (fb p)) (View.delete (rb ++ rr) w) w4 := by
  rw [← delete_delete]
  refine hb.or hr (fun hp hp' => ?_) fun {p v r} hp hrr hpr => ?_
  · exact eq_of_levels hsep ((hfb _).mp hp) ((hfr _).mp hp')
  · exact (hfr p).mpr (h.restored hp hrr hpr)

include h in
theorem LevelsAgree.blocked_of_backend (hp : fb p ≠ none)
    (hblocked : View.Blocked p (View.delete rb w)) : View.Blocked p (View.delete (rb ++ rr) w) := by
  obtain ⟨r, es, hr, hne, hview⟩ := hblocked
  obtain ⟨hw, hrb⟩ := of_delete_eq_some hview
  refine ⟨r, es, hr, hne, ?_⟩
  rw [delete_of_forall_not, hw]
  intro q hq hqr
  rcases mem_append.mp hq with hq | hq
  · exact hrb q hq hqr
  · have hqne : q ≠ p := by
      rintro rfl
      exact hne (hr.eq_of_length_le hqr.length_le)
    obtain ⟨r', hr', hr'q⟩ := h.cleared hp hq (hqr.trans hr) hqne
    exact hrb r' hr' (hr'q.trans hqr)

include hfb hsep hb in
theorem blocked_of_route (hp : p ∈ sr) (hblocked : View.Blocked p (View.delete rr w2)) :
    View.Blocked p (View.delete (rb ++ rr) w) := by
  obtain ⟨r, es, hr, hne, hview⟩ := hblocked
  refine ⟨r, es, hr, hne, ?_⟩
  obtain ⟨hw2, hrr⟩ := of_delete_eq_some hview
  rw [hb.elsewhere] at hw2
  · rw [← delete_delete, delete_of_forall_not hrr, hw2]
  · intro p' hp'
    have hp'b := (hfb p').mp hp'
    have hp'r : ¬ p' <+: r := by
      intro hp'r
      have heq := eq_of_levels hsep hp'b hp (hp'r.trans hr) (.inl prefix_rfl)
      subst heq
      exact hne (hr.eq_of_length_le hp'r.length_le)
    refine ⟨hp'r, fun hrp' => ?_⟩
    have hobj := hb.above hp' hrp' fun he => hp'r (he ▸ prefix_rfl)
    rw [hobj] at hw2
    cases hw2

include hfb hsep hb in
theorem blocked_route
    (hfree : ∀ p ∈ sb, ¬ View.Blocked p (View.delete rb w)) (hp : p ∈ sb ∨ p ∈ sr)
    (hblocked : View.Blocked p (View.delete (rb ++ rr) w)) :
    p ∈ sr ∧ View.Blocked p (View.delete rr w2) := by
  obtain ⟨r, es, hr, hne, hview⟩ := hblocked
  rw [← delete_delete] at hview
  obtain ⟨hview, hrr⟩ := of_delete_eq_some hview
  have hpr : p ∈ sr := hp.resolve_left fun hpb => hfree p hpb ⟨r, es, hr, hne, hview⟩
  refine ⟨hpr, r, es, hr, hne, ?_⟩
  rw [delete_of_forall_not hrr, hb.elsewhere, hview]
  intro p' hp'
  have hp'b := (hfb p').mp hp'
  have hp'r : ¬ p' <+: r := by
    intro hp'r
    have heq := eq_of_levels hsep hp'b hpr (hp'r.trans hr) (.inl prefix_rfl)
    subst heq
    exact hne (hr.eq_of_length_le hp'r.length_le)
  refine ⟨hp'r, fun hrp' => ?_⟩
  exact hfree p' hp'b ⟨r, es, hrp', fun he => hp'r (he ▸ prefix_rfl), hview⟩

end

/-! ### The condition suffices -/

theorem toOption_bind (a : Except String Json) (f : Json → Except String Json) :
    (a >>= f).toOption = a.toOption.bind fun j => (f j).toOption := by
  cases a with
  | error e => rfl
  | ok j => rfl

theorem separate_mergeSets {backend route : List HTTPBodyField}
    (h : Separate (setPaths backend ++ setPaths route)) (ord : IterOrder String HTTPBodyField) :
    Separate (setPaths (mergeSets HTTPBodyField.path ord backend route)) := by
  intro p hp q hq
  rw [mem_setPaths_mergeSets, ← mem_append] at hp hq
  exact h p hp q hq

theorem delete_mergeRemoves (ord : IterOrder String String) (backend route : List String) (w : View) :
    View.delete (removePaths (mergeRemoves id ord backend route)) w =
      View.delete (removePaths backend ++ removePaths route) w := by
  unfold View.delete
  simp only [mem_removePaths_mergeRemoves]

theorem merged_spec (read : Reading) (ord : MergeOrders) {r b : HTTPBodyMutation}
    (hsep : Separate (setPaths b.set ++ setPaths r.set)) (hj : Distinct j) :
    let merged := (mutateBodyAt read.read (mergeBodyMutations ord (some r) (some b)) j).toOption
    let w := View.delete (removePaths b.remove ++ removePaths r.remove) j.view
    (merged = none ∧ ∃ p, (p ∈ setPaths b.set ∨ p ∈ setPaths r.set) ∧ View.Blocked p w) ∨
      ∃ j', merged = some j' ∧ (∀ p, p ∈ setPaths b.set ∨ p ∈ setPaths r.set → ¬ View.Blocked p w) ∧
        View.Overlaid (fun p => (setValues read.read r.set p).or (setValues read.read b.set p)) w
          j'.view := by
  have h := mutateBodyAt_spec read
    ⟨mergeSets HTTPBodyField.path ord.fields b.set r.set, mergeRemoves id ord.removes b.remove r.remove⟩
    (separate_mergeSets hsep ord.fields) hj
  unfold setValues at h ⊢
  simp only [mem_setPaths_mergeSets, delete_mergeRemoves, lastValue_setEntries_mergeSets] at h
  rcases h with h | ⟨j', hsome, -, h⟩
  · exact .inl h
  · exact .inr ⟨j', hsome, h⟩

theorem setValues_ne_none_iff (read : String → Json) (fs : List HTTPBodyField) (p : List String) :
    setValues read fs p ≠ none ↔ p ∈ setPaths fs := by
  rw [setValues, lastValue_ne_none_iff, keys_setEntries]

theorem mergedAgrees_of_levelsAgree (read : Reading) (ord : MergeOrders) {r b : HTTPBodyMutation}
    (hsep : Separate (setPaths b.set ++ setPaths r.set))
    (h : LevelsAgree (setValues read.read b.set) (removePaths b.remove) (setPaths r.set)
      (removePaths r.remove))
    (body : Body) : MergedAgrees read ord (some r) (some b) body := by
  have hkeys := setValues_ne_none_iff read.read
  have hmerged := merged_spec read ord hsep body.distinct
  unfold MergedAgrees SameOutcome
  rw [toOption_bind]
  rcases mutateBodyAt_spec read b hsep.left body.distinct with
    ⟨hnone, p, hp, hblocked⟩ | ⟨j2, hsome, hdistinct, hfree, hover⟩
  · rcases hmerged with ⟨hmerged, -⟩ | ⟨j', -, hfree, -⟩
    · rw [hnone, hmerged]
      rfl
    · exact absurd (h.blocked_of_backend ((hkeys b.set p).mpr hp) hblocked) (hfree p (.inl hp))
  · rw [hsome, Option.bind_some]
    rcases mutateBodyAt_spec read r hsep.right hdistinct with
      ⟨hnone, p, hp, hblocked⟩ | ⟨j4, hsome4, -, hfree4, hover4⟩
    · rcases hmerged with ⟨hmerged, -⟩ | ⟨j', -, hfree', -⟩
      · rw [hnone, hmerged]
      · exact absurd (blocked_of_route (hkeys b.set) hsep hover hp hblocked) (hfree' p (.inr hp))
    · rcases hmerged with ⟨-, p, hp, hblocked⟩ | ⟨j', hmerged, -, hover'⟩
      · obtain ⟨hpr, hblocked⟩ := blocked_route (hkeys b.set) hsep hover hfree hp hblocked
        exact absurd hblocked (hfree4 p hpr)
      · rw [hmerged, hsome4, Option.map_some, Option.map_some,
          hover'.unique (h.overlaid (hkeys b.set) (hkeys r.set) hsep hover hover4)]

/-! ### Paths above each other -/

/-- All texts stand for one value. -/
def constReading (v : Json) (hv : Distinct v) : Reading := ⟨fun _ => v, fun _ => hv⟩

/-- The same paths with the text `null` everywhere. -/
def withNull (m : HTTPBodyMutation) : HTTPBodyMutation :=
  ⟨m.set.map fun f => ⟨f.path, "null"⟩, m.remove⟩

theorem setPaths_withNull (m : HTTPBodyMutation) : setPaths (withNull m).set = setPaths m.set := by
  simp only [setPaths, withNull, filter_map, map_map, Function.comp_def]

theorem fieldValue_null {v : Json} (h : f.value = "null") : fieldValue (fun _ => v) f = v := by
  have hjson : isJSONValue "null" = true := by decide
  rw [fieldValue, h, if_pos hjson]

variable {b r : HTTPBodyMutation}

theorem value_of_mem_mergeSets {ord : IterOrder String HTTPBodyField}
    (h : f ∈ mergeSets HTTPBodyField.path ord (withNull b).set (withNull r).set) :
    f.value = "null" := by
  rcases mem_of_mem_mergeSets h with h | h
  · obtain ⟨f', -, rfl⟩ := mem_map.mp h
    rfl
  · obtain ⟨f', -, rfl⟩ := mem_map.mp h
    rfl

theorem mem_setPaths {fs : List HTTPBodyField} :
    p ∈ setPaths fs ↔ ∃ f ∈ fs, f.path ≠ "" ∧ segments f.path = p := by
  unfold setPaths
  simp [and_assoc]

theorem exists_mergeSets_append (hp : p ∈ setPaths b.set ++ setPaths r.set) :
    ∃ (ord : IterOrder String HTTPBodyField) (fs : List HTTPBodyField) (f : HTTPBodyField),
      mergeSets HTTPBodyField.path ord (withNull b).set (withNull r).set = fs ++ [f] ∧
        f.path ≠ "" ∧ segments f.path = p := by
  obtain ⟨path, hpath, hsegments, hmem⟩ : ∃ path, path ≠ "" ∧ segments path = p ∧
      (path ∈ (withNull b).set.map HTTPBodyField.path ∨ path ∈ (withNull r).set.map HTTPBodyField.path) := by
    rw [mem_append, ← setPaths_withNull b, ← setPaths_withNull r, mem_setPaths, mem_setPaths] at hp
    rcases hp with ⟨f, hf, hpath, hsegments⟩ | ⟨f, hf, hpath, hsegments⟩
    · exact ⟨f.path, hpath, hsegments, .inl (mem_map_of_mem hf)⟩
    · exact ⟨f.path, hpath, hsegments, .inr (mem_map_of_mem hf)⟩
  have hkeys (fs : List HTTPBodyField) :
      (fs.map fun f => (f.path, f)).map Prod.fst = fs.map HTTPBodyField.path := by
    simp only [map_map, Function.comp_def]
  have hlookup : (setAll HTTPBodyField.path (setAll HTTPBodyField.path ∅ (withNull b).set)
      (withNull r).set).lookup path ≠ none := by
    rw [lookup_setAll, lookup_setAll, AList.lookup_empty, Option.or_none, ne_eq,
      Option.or_eq_none_iff, lastValue_eq_none_iff, lastValue_eq_none_iff, hkeys, hkeys]
    tauto
  obtain ⟨f, hf⟩ := Option.ne_none_iff_exists'.mp hlookup
  have hfpath : f.path = path :=
    key_of_lookup_setAll (fun a => key_of_lookup_setAll (by simp)) hf
  obtain ⟨es, hes⟩ := IterOrder.visit_visitLast hf
  refine ⟨.visitLast path, es.map Prod.snd, f, ?_, hfpath ▸ hpath, hfpath ▸ hsegments⟩
  rw [mergeSets, hes, map_append]
  rfl

theorem merged_visitLast {v : Json} (hv : ArrayFree v.view) (hp : p ∈ setPaths b.set ++ setPaths r.set) :
    ∃ ord w, (mutateBodyAt (fun _ => v)
        (mergeBodyMutations ord (some (withNull r)) (some (withNull b))) (.obj [])).toOption.map view =
          some w ∧ ∀ q, p <+: q → w q = v.view (q.drop p.length) := by
  obtain ⟨ord, fs, f, hsets, hpath, hsegments⟩ := exists_mergeSets_append hp
  have hvalue {f' : HTTPBodyField} (hf' : f' ∈ fs ++ [f]) : fieldValue (fun _ => v) f' = v :=
    fieldValue_null (value_of_mem_mergeSets (hsets ▸ hf'))
  have hentries : setEntries (fun _ => v) (fs ++ [f]) = setEntries (fun _ => v) fs ++ [(p, v)] := by
    unfold setEntries
    rw [filter_append, map_append, filter_cons_of_pos (by simp [hpath])]
    rw [← hsegments, filter_nil, map_cons, map_nil, hvalue (by simp)]
  have hfree : ∀ e ∈ setEntries (fun _ => v) fs, ArrayFree e.2.view := by
    intro e he
    obtain ⟨f', hf', rfl⟩ := mem_map.mp he
    rw [hvalue (mem_append_left _ (mem_filter.mp hf').1)]
    exact hv
  refine ⟨⟨storedOrder, ord, storedOrder⟩, ?_⟩
  rw [mergeBodyMutations, mutateBodyAt]
  rw [hsets, toOption_foldlM_setFieldAt, hentries, foldl_removeFieldAt, setEachPath_append]
  have hbody := arrayFree_obj_nil.delete (removePaths
    (mergeRemoves id storedOrder (withNull b).remove (withNull r).remove))
  rw [← view_foldl_deletePath (ne_nil_of_mem_removePaths _) distinct_obj_nil] at hbody
  obtain ⟨j1, hj1, hfree1⟩ := exists_setEachPath hfree hbody
  rcases setPath_spec p v j1 with ⟨err, -, hblocked⟩ | ⟨j', hok, -, hview⟩
  · exact absurd hblocked (hfree1.not_blocked p)
  · refine ⟨j'.view, ?_, fun q hpq => ?_⟩
    · have hlast : setEachPath [(p, v)] j1 = .ok j' := by
        rw [setEachPath, foldlM_cons, hok]
        rfl
      rw [hj1, show (Except.ok j1 >>= setEachPath [(p, v)]) = setEachPath [(p, v)] j1 from rfl, hlast]
      rfl
    · rw [hview, set_below _ _ hpq]

/-- The law for one value everywhere and every order and body. -/
def ConstantLaw (b r : HTTPBodyMutation) : Prop :=
  ∀ (v : Json) (hv : Distinct v) (ord : MergeOrders) (body : Body),
    MergedAgrees (constReading v hv) ord (some (withNull r)) (some (withNull b)) body

/-- The empty object. -/
def emptyBody : Body := ⟨.obj [], ⟨[], rfl⟩, distinct_obj_nil⟩

theorem separate_of_constantLaw (h : ConstantLaw b r) : Separate (setPaths b.set ++ setPaths r.set) := by
  intro p hp q hq hpq
  by_contra hne
  -- with `p` last nothing is left at `q`, and with `q` last there is something
  obtain ⟨ord, w, hw, hbelow⟩ := merged_visitLast (arrayFree_str "") hp
  obtain ⟨ord', w', hw', hbelow'⟩ := merged_visitLast (arrayFree_str "") hq
  have hdistinct : Distinct (.str "") := distinct_of_forall_ne_obj (by simp)
  have hlaw := h (.str "") hdistinct ord emptyBody
  have hlaw' := h (.str "") hdistinct ord' emptyBody
  have heq : some w = some w' := by
    rw [← hw, ← hw']
    exact hlaw.trans hlaw'.symm
  rw [Option.some.injEq] at heq
  have hview := hbelow q hpq
  rw [heq, hbelow' q prefix_rfl, drop_length] at hview
  cases hdrop : q.drop p.length with
  | nil =>
    exact hne (hpq.eq_of_length_le (drop_eq_nil_iff.mp hdrop))
  | cons k ks =>
    rw [hdrop] at hview
    cases hview

/-! ### The condition is necessary -/

section

variable {read : Reading} {ord : MergeOrders}

theorem exists_of_mergedAgrees {route backend : Option HTTPBodyMutation} {body : Body}
    (h : MergedAgrees read ord route backend body)
    (hj : (mutateBodyAt read.read (mergeBodyMutations ord route backend) body.json).toOption = some j) :
    ∃ j2 j4, (mutateBodyAt read.read backend body.json).toOption = some j2 ∧
      (mutateBodyAt read.read route j2).toOption = some j4 ∧ j4.view = j.view := by
  unfold MergedAgrees SameOutcome at h
  rw [hj, toOption_bind] at h
  obtain ⟨j4, hj4, hview⟩ := Option.map_eq_some_iff.mp h.symm
  obtain ⟨j2, hj2, hj4⟩ := Option.bind_eq_some_iff.mp hj4
  exact ⟨j2, j4, hj2, hj4, hview⟩

theorem level_of_some {m : HTTPBodyMutation} {j' : Json} (hsep : Separate (setPaths m.set))
    (hj : Distinct j) (h : (mutateBodyAt read.read (some m) j).toOption = some j') :
    Distinct j' ∧ (∀ p ∈ setPaths m.set, ¬ View.Blocked p (View.delete (removePaths m.remove) j.view)) ∧
      View.Overlaid (setValues read.read m.set) (View.delete (removePaths m.remove) j.view) j'.view := by
  rcases mutateBodyAt_spec read m hsep hj with ⟨hnone, -⟩ | ⟨j'', hsome, hlevel⟩
  · rw [h] at hnone
    cases hnone
  · rw [h] at hsome
    cases hsome
    exact hlevel

variable (hsep : Separate (setPaths b.set ++ setPaths r.set))
  (hlaw : ∀ body, MergedAgrees read ord (some r) (some b) body)

include hsep

theorem merged_of_arrayFree (hj : Distinct j)
    (hfree : ArrayFree (View.delete (removePaths b.remove ++ removePaths r.remove) j.view)) :
    ∃ j', (mutateBodyAt read.read (mergeBodyMutations ord (some r) (some b)) j).toOption = some j' ∧
      View.Overlaid (fun p => (setValues read.read r.set p).or (setValues read.read b.set p))
        (View.delete (removePaths b.remove ++ removePaths r.remove) j.view) j'.view := by
  rcases merged_spec read ord hsep hj with ⟨-, p, -, hblocked⟩ | ⟨j', hsome, -, hover⟩
  · exact absurd hblocked (hfree.not_blocked p)
  · exact ⟨j', hsome, hover⟩

include hlaw

theorem restored_of_law {v : Json} (hv : setValues read.read b.set p = some v)
    (hq : q ∈ removePaths r.remove) (hpq : q <+: p ∨ p <+: q ∧ v.view (q.drop p.length) ≠ none) :
    p ∈ setPaths r.set := by
  by_contra hpr
  have hp : p ∈ setPaths b.set := (setValues_ne_none_iff read.read b.set p).mp (by simp [hv])
  -- the value has something at `t`, where the route removes
  obtain ⟨t, hpt, hqt, hvalue⟩ : ∃ t, p <+: t ∧ q <+: t ∧ v.view (t.drop p.length) ≠ none := by
    rcases hpq with hqp | ⟨hpq, hvalue⟩
    · exact ⟨p, prefix_rfl, hqp, by simp⟩
    · exact ⟨q, hpq, prefix_rfl, hvalue⟩
  obtain ⟨j, hj, hmerged⟩ := merged_of_arrayFree hsep distinct_obj_nil (arrayFree_obj_nil.delete _)
  obtain ⟨j2, j4, hj2, hj4, hview⟩ := exists_of_mergedAgrees (hlaw emptyBody) hj
  obtain ⟨hdistinct2, -, -⟩ := level_of_some hsep.left distinct_obj_nil hj2
  obtain ⟨-, -, hover⟩ := level_of_some hsep.right hdistinct2 hj4
  have hnone : j4.view t = none := by
    rw [hover.elsewhere, View.delete, if_pos ⟨_, hq, hqt⟩]
    intro p' hp'
    have hp'r := (setValues_ne_none_iff _ _ p').mp hp'
    constructor
    · intro hp't
      exact hpr (eq_of_levels hsep hp hp'r hpt (.inl hp't) ▸ hp'r)
    · intro htp'
      exact hpr (eq_of_levels hsep hp hp'r hpt (.inr htp') ▸ hp'r)
  have hroute : setValues read.read r.set p = none := by
    by_contra hsome
    exact hpr ((setValues_ne_none_iff _ _ p).mp hsome)
  rw [hview, hmerged.below (by rw [hroute, Option.none_or, hv]) hpt] at hnone
  exact hvalue hnone

theorem cleared_of_law (hp : p ∈ setPaths b.set) (hq : q ∈ removePaths r.remove) (hqp : q <+: p)
    (hne : q ≠ p) : ∃ r ∈ removePaths b.remove, r <+: q := by
  by_contra hno
  -- an array where the route removes: it stops the backend's level, and only that one
  obtain ⟨k, ks, hks⟩ := exists_cons_of_ne_nil (ne_nil_of_mem_removePaths r.remove q hq)
  let body : Body := ⟨build q (.arr []), ⟨[(k, build ks (.arr []))], by rw [hks]; rfl⟩,
    distinct_build q (distinct_of_forall_ne_obj (by simp))⟩
  have hbody : body.json.view = View.set q (Json.arr []).view fun _ => none := view_build q _
  have hfree : ArrayFree (View.delete (removePaths b.remove ++ removePaths r.remove) body.json.view) := by
    intro s es hview
    obtain ⟨hview, hnot⟩ := of_delete_eq_some hview
    have hqs : ¬ q <+: s := hnot q (mem_append_right _ hq)
    rw [hbody, View.set, if_neg hqs] at hview
    split at hview
    · cases hview
    · cases hview
  obtain ⟨j, hj, -⟩ := merged_of_arrayFree hsep body.distinct hfree
  obtain ⟨j2, j4, hj2, -, -⟩ := exists_of_mergedAgrees (hlaw body) hj
  obtain ⟨-, hnotBlocked, -⟩ := level_of_some hsep.left body.distinct hj2
  apply hnotBlocked p hp
  refine ⟨q, [], hqp, hne, ?_⟩
  rw [delete_of_forall_not (fun r' hr' hr'q => hno ⟨r', hr', hr'q⟩), hbody,
    set_below _ _ prefix_rfl, drop_length]
  rfl

theorem levelsAgree_of_law :
    LevelsAgree (setValues read.read b.set) (removePaths b.remove) (setPaths r.set)
      (removePaths r.remove) where
  restored := restored_of_law hsep hlaw
  cleared hp := cleared_of_law hsep hlaw ((setValues_ne_none_iff _ _ _).mp hp)

end

/-! ## Top theorem -/

/-- The same mutation with the text `null` everywhere. -/
def PlainMutation.withNull (m : PlainMutation) : PlainMutation where
  mutation := ExtProc.withNull m.mutation
  plain := by
    have hpaths : (ExtProc.withNull m.mutation).set.map HTTPBodyField.path =
        m.mutation.set.map HTTPBodyField.path := by
      simp only [ExtProc.withNull, List.map_map, Function.comp_def]
    rw [hpaths]
    exact m.plain

theorem PlainMutation.paths_withNull (m : PlainMutation) : m.withNull.paths = m.paths := by
  simp only [paths, withNull, ExtProc.withNull, map_map, Function.comp_def]

theorem mergedAgrees_of_none (read : Reading) (ord : MergeOrders) (backend : Option HTTPBodyMutation)
    (body : Body) : MergedAgrees read ord none backend body := by
  -- the merged mutation is the backend's
  unfold MergedAgrees SameOutcome
  rw [mergeBodyMutations]
  cases mutateBodyAt read.read backend body.json with
  | error e => rfl
  | ok j => rfl

theorem mergedBodies_iff (route backend : Option PlainMutation) :
    ((∀ r ∈ route, ∀ b ∈ backend, Separate (setPaths b.mutation.set ++ setPaths r.mutation.set)) →
      ∀ read : Reading,
        (∀ (ord : MergeOrders) (body : Body),
          MergedAgrees read ord (route.map PlainMutation.mutation) (backend.map PlainMutation.mutation)
            body) ↔
        ∀ r ∈ route, ∀ b ∈ backend,
          LevelsAgree (setValues read.read b.mutation.set) (removePaths b.mutation.remove)
            (setPaths r.mutation.set) (removePaths r.mutation.remove)) ∧
    ((∀ (read : Reading) (ord : MergeOrders) (route' backend' : Option PlainMutation),
        route'.map PlainMutation.paths = route.map PlainMutation.paths →
        backend'.map PlainMutation.paths = backend.map PlainMutation.paths →
        ∀ body : Body, MergedAgrees read ord (route'.map PlainMutation.mutation)
          (backend'.map PlainMutation.mutation) body) →
      ∀ r ∈ route, ∀ b ∈ backend,
        Separate (setPaths b.mutation.set ++ setPaths r.mutation.set)) := by
  constructor
  · intro hsep read
    constructor
    · intro hlaw r hr b hb
      subst hr hb
      exact levelsAgree_of_law (hsep r rfl b rfl) (hlaw .stored)
    · intro h ord body
      cases route with
      | none => exact mergedAgrees_of_none read ord _ body
      | some r =>
        cases backend with
        | none => rfl
        | some b => exact mergedAgrees_of_levelsAgree read ord (hsep r rfl b rfl) (h r rfl b rfl) body
  · intro h r hr b hb
    subst hr hb
    apply separate_of_constantLaw
    intro v hv ord body
    exact h (constReading v hv) ord (some r.withNull) (some b.withNull)
      (by rw [Option.map_some, paths_withNull]; rfl)
      (by rw [Option.map_some, paths_withNull]; rfl) body

/-- Texts that stand for themselves. -/
def textReading : Reading := ⟨Json.str, fun _ => distinct_of_forall_ne_obj (by simp)⟩

/-- The backend sets `user` to a text.  The route removes `user.id`, where the text has nothing. -/
theorem removal_inside_text_agrees :
    let backend : PlainMutation := ⟨⟨[⟨"user", "anonymous"⟩], []⟩, by decide +kernel⟩
    let route : PlainMutation := ⟨⟨[], ["user.id"]⟩, by decide +kernel⟩
    ∀ (ord : MergeOrders) (body : Body),
      MergedAgrees textReading ord (some route.mutation) (some backend.mutation) body := by
  intro backend route
  have hb : setEntries textReading.read backend.mutation.set = [(["user"], .str "anonymous")] := rfl
  have hr : removePaths route.mutation.remove = [["user", "id"]] := by decide
  refine ((mergedBodies_iff (some route) (some backend)).1 ?_ textReading).mpr ?_
  · rintro r ⟨⟩ b ⟨⟩ p hp q hq -
    have hpaths : setPaths backend.mutation.set ++ setPaths route.mutation.set = [["user"]] := by decide
    rw [hpaths, mem_singleton] at hp hq
    rw [hp, hq]
  · rintro r ⟨⟩ b ⟨⟩
    have hvalues {p : List String} {v : Json}
        (hv : setValues textReading.read backend.mutation.set p = some v) :
        p = ["user"] ∧ v = .str "anonymous" := by
      have hmem := mem_of_lastValue hv
      rw [hb, mem_singleton] at hmem
      exact Prod.mk.inj hmem
    have hnot : ¬ ["user", "id"] <+: ["user"] := by decide
    rw [hr]
    constructor
    · intro p v q hv hq hpq
      obtain ⟨rfl, rfl⟩ := hvalues hv
      obtain rfl := mem_singleton.mp hq
      rcases hpq with hqp | ⟨-, hvalue⟩
      · exact absurd hqp hnot
      · exact absurd rfl hvalue
    · intro p q hp hq hqp
      obtain ⟨v, hv⟩ := Option.ne_none_iff_exists'.mp hp
      obtain ⟨rfl, rfl⟩ := hvalues hv
      obtain rfl := mem_singleton.mp hq
      exact absurd hqp hnot

/-- Whether the outcome has something at the path. -/
def hasField (path : List String) (outcome : Except String Json) : Option Bool :=
  outcome.toOption.map fun j => (j.view path).isSome

/-- The backend sets `tier` and the route removes it, but the body has it.  The backend sets `user`
and the route `user.id`, but the body does not have it if the map comes to `user` last.  Both remove
`tier`, which the body has twice, and one is left. -/
theorem route_level_is_lost :
    (let backend : HTTPBodyMutation := ⟨[⟨"tier", "gold"⟩], []⟩
    let route : HTTPBodyMutation := ⟨[], ["tier"]⟩
    hasField ["tier"] (mutateBodyAt Json.str
        (mergeBodyMutations .stored (some route) (some backend)) (.obj [])) = some true ∧
      hasField ["tier"] (mutateBodyAt Json.str (some backend) (.obj []) >>=
        mutateBodyAt Json.str (some route)) = some false) ∧
    (let backend : HTTPBodyMutation := ⟨[⟨"user", "anonymous"⟩], []⟩
    let route : HTTPBodyMutation := ⟨[⟨"user.id", "guest"⟩], []⟩
    let ord : MergeOrders := ⟨storedOrder, .visitLast "user", storedOrder⟩
    hasField ["user", "id"] (mutateBodyAt Json.str
        (mergeBodyMutations ord (some route) (some backend)) (.obj [])) = some false ∧
      hasField ["user", "id"] (mutateBodyAt Json.str (some backend) (.obj []) >>=
        mutateBodyAt Json.str (some route)) = some true) ∧
    (let level : HTTPBodyMutation := ⟨[], ["tier"]⟩
    let body : Json := .obj [("tier", .str "gold"), ("tier", .str "silver")]
    hasField ["tier"] (mutateBodyAt Json.str
        (mergeBodyMutations .stored (some level) (some level)) body) = some true ∧
      hasField ["tier"] (mutateBodyAt Json.str (some level) body >>=
        mutateBodyAt Json.str (some level)) = some false) := by
  decide

end AgentRouter.ExtProc
