import AgentRouter.Lib.GoMap
import AgentRouter.Lib.Json
import AgentRouter.Lib.Results
import Mathlib.Data.List.Infix

/-!
# JsonPath: JSON documents edited at paths

An edit at a path goes down from the document through the first member of each key.  Setting
makes the objects that are not there, puts an object in place of a scalar, and is refused by an
array.  A document is seen through its view: what stands at each path, up to the members of an
object.  On views the edits are plain functions,

    view of a document after deleting p  =  nothing at p and below, else what was there
      (view_deletePath)
    view of a document after setting p   =  the value at p and below, an object above p,
      else what was there   (setPath_spec)

and if no path of a list lies above another one, then setting each in turn leaves what
the last assignment to each path says, in whatever order the paths come
      (setEachPath_spec).
-/

namespace AgentRouter.Json

open GoMap List Json

/-! ## Algorithm -/

/-- The first member with this key. -/
def member (j : Json) (key : String) : Option Json := (j.values key).head?

/-- What stands at a path. -/
def get : List String → Json → Option Json
  | [], j => some j
  | k :: ks, j => (j.member k).bind (get ks)

/-- The value with an object around it for each key of the path. -/
def build : List String → Json → Json
  | [], v => v
  | k :: ks, v => .obj [(k, build ks v)]

/-- `sjson.Set` at a path of keys that are not numbers. -/
def setPath : List String → Json → Json → Except String Json
  | [], v, _ => .ok v
  | k :: ks, v, j =>
    match j with
    | .obj ms =>
      match j.member k with
      | some old => (setPath ks v old).map fun new => .obj (setMember k new ms)
      | none => .ok (.obj (setMember k (build ks v) ms))
    | .arr _ => .error ("cannot set array element for non-numeric key '" ++ k ++ "'")
    | _ => .ok (build (k :: ks) v)

/-- `sjson.Delete` at a path of keys that are not numbers. -/
def deletePath : List String → Json → Json
  | [], j => j
  | k :: ks, j =>
    match j with
    | .obj ms =>
      if ks = [] then .obj (deleteMember k ms)
      else match j.member k with
        | some old => .obj (setMember k (deletePath ks old) ms)
        | none => j
    | j => j

/-- One assignment after another, until one is refused. -/
def setEachPath (es : List (List String × Json)) (j : Json) : Except String Json :=
  es.foldlM (fun j e => setPath e.1 e.2 j) j

/-! ## Views -/

/-- A value up to the members of an object. -/
def shape : Json → Json
  | .obj _ => .obj []
  | j => j

/-- What stands at each path. -/
abbrev View := List String → Option Json

def view (j : Json) : View := fun q => (j.get q).map shape

/-- Nothing at these paths and below them. -/
def View.delete (ps : List (List String)) (w : View) : View :=
  fun q => if ∃ p ∈ ps, p <+: q then none else w q

/-- The value `v` at the path `p`. -/
@[simp] def View.set (p : List String) (v w : View) : View :=
  fun q => if p <+: q then v (q.drop p.length) else if q <+: p then some (.obj []) else w q

/-- An array stands above the path. -/
def View.Blocked (p : List String) (w : View) : Prop :=
  ∃ r es, r <+: p ∧ r ≠ p ∧ w r = some (.arr es)

/-- `w'` is `w` with the values of `f` at their paths. -/
structure View.Overlaid (f : List String → Option Json) (w w' : View) : Prop where
  below : ∀ {p v q}, f p = some v → p <+: q → w' q = v.view (q.drop p.length)
  above : ∀ {p q}, f p ≠ none → q <+: p → q ≠ p → w' q = some (.obj [])
  elsewhere : ∀ {q}, (∀ p, f p ≠ none → ¬ p <+: q ∧ ¬ q <+: p) → w' q = w q

/-- No path of the list lies above another one. -/
def Separate (ps : List (List String)) : Prop := ∀ p ∈ ps, ∀ q ∈ ps, p <+: q → p = q

/-- No object on a path repeats a key. -/
def Distinct (j : Json) : Prop :=
  ∀ path ms, j.get path = some (.obj ms) → (ms.map Prod.fst).Nodup

/-- No array on a path. -/
def ArrayFree (w : View) : Prop := ∀ q es, w q ≠ some (.arr es)

/-! ## Members -/

theorem member_setMember_self (key : String) (v : Json) (ms : List (String × Json)) :
    (obj (setMember key v ms)).member key = some v := by
  unfold member values
  dsimp only
  rw [valuesIn_setMember_self]
  rfl

variable {key : String}

theorem member_setMember_of_ne {k : String} (v : Json) (ms : List (String × Json)) (hk : k ≠ key) :
    (obj (setMember k v ms)).member key = (obj ms).member key := by
  unfold member values
  dsimp only
  rw [valuesIn_setMember_of_ne v ms hk]

theorem member_deleteMember_of_ne {k : String} (ms : List (String × Json)) (hk : k ≠ key) :
    (obj (deleteMember k ms)).member key = (obj ms).member key := by
  unfold member values
  dsimp only
  rw [valuesIn_deleteMember_of_ne ms hk]

variable {ms : List (String × Json)}

theorem member_eq_none_iff : (obj ms).member key = none ↔ key ∉ ms.map Prod.fst := by
  unfold member values valuesIn
  rw [head?_eq_none_iff, map_eq_nil_iff, filter_eq_nil_iff, mem_map]
  constructor
  · rintro h ⟨m, hm, rfl⟩
    exact h m hm (by simp)
  · intro h m hm hk
    exact h ⟨m, hm, of_decide_eq_true hk⟩

theorem keys_deleteMember (key : String) (ms : List (String × Json)) :
    (deleteMember key ms).map Prod.fst = (ms.map Prod.fst).erase key := by
  induction ms with
  | nil => rfl
  | cons m ms ih =>
    rw [deleteMember]
    by_cases h : m.1 = key
    · simp [h]
    · simp [h, ih]

theorem member_deleteMember_self (h : (ms.map Prod.fst).Nodup) :
    (obj (deleteMember key ms)).member key = none := by
  rw [member_eq_none_iff, keys_deleteMember]
  exact h.not_mem_erase

variable {v : Json}

theorem mem_keys_setMember {k : String} :
    k ∈ (setMember key v ms).map Prod.fst ↔ k = key ∨ k ∈ ms.map Prod.fst := by
  induction ms with
  | nil => simp [setMember]
  | cons m ms ih =>
    rw [setMember]
    by_cases h : m.1 = key
    · rw [if_pos h, map_cons, map_cons, mem_cons, mem_cons, h]
      tauto
    · rw [if_neg h, map_cons, map_cons, mem_cons, mem_cons]
      tauto

theorem nodup_keys_setMember (h : (ms.map Prod.fst).Nodup) : ((setMember key v ms).map Prod.fst).Nodup := by
  induction ms with
  | nil => simp [setMember]
  | cons m ms ih =>
    rw [map_cons, nodup_cons] at h
    rw [setMember]
    by_cases hk : m.1 = key
    · rw [if_pos hk, map_cons, nodup_cons, ← hk]
      exact h
    · rw [if_neg hk, map_cons, nodup_cons, mem_keys_setMember, not_or]
      exact ⟨⟨hk, h.1⟩, ih h.2⟩

/-! ## Paths of one key -/

variable (k : String)

theorem setPath_singleton (v j : Json) : setPath [k] v j = j.set k v := by
  cases j with
  | obj ms =>
    rw [setPath]
    cases (obj ms).member k with
    | none => rfl
    | some old => rfl
  | _ => rfl

theorem deletePath_singleton (j : Json) : deletePath [k] j = j.delete k := by
  cases j with
  | obj ms =>
    rfl
  | _ => rfl

/-! ## Views of documents -/

@[simp] theorem view_nil (j : Json) : j.view [] = some j.shape := rfl

theorem view_cons (j : Json) (k : String) (q : List String) :
    j.view (k :: q) = (j.member k).bind fun m => m.view q := by
  unfold view
  rw [get]
  cases j.member k with
  | none => rfl
  | some m => rfl

variable {j : Json}

theorem member_of_forall_ne_obj (h : ∀ ms, j ≠ .obj ms) (k : String) : j.member k = none := by
  cases j with
  | obj ms => exact absurd rfl (h ms)
  | _ => rfl

theorem view_cons_of_forall_ne_obj (h : ∀ ms, j ≠ .obj ms) (k : String) (q : List String) :
    j.view (k :: q) = none := by
  rw [view_cons, member_of_forall_ne_obj h]
  rfl

theorem view_eq_none_of_prefix {p q : List String} (h : j.view p = none) (hpq : p <+: q) :
    j.view q = none := by
  induction p generalizing j q with
  | nil => cases h
  | cons k p ih =>
    obtain ⟨t, rfl⟩ := hpq
    rw [cons_append, view_cons]
    rw [view_cons] at h
    cases hm : j.member k with
    | none => rfl
    | some m =>
      rw [hm] at h
      exact ih h (prefix_append p t)

variable (ks : List String)

theorem member_build_self (v : Json) : (build (k :: ks) v).member k = some (build ks v) := by
  simp [build, member, values, valuesIn]

theorem member_build_of_ne {k k' : String} (v : Json) (hk : k ≠ k') :
    (build (k :: ks) v).member k' = none := by
  simp [build, member, values, valuesIn, hk]

theorem view_build (p : List String) (v : Json) : (build p v).view = View.set p v.view fun _ => none := by
  funext q
  induction p generalizing q with
  | nil => simp [build]
  | cons k ks ih =>
    cases q with
    | nil => simp [build, shape]
    | cons k' q =>
      rw [view_cons]
      by_cases hk : k = k'
      · subst hk
        rw [member_build_self, Option.bind_some, ih]
        simp [cons_prefix_cons]
      · rw [member_build_of_ne ks v hk]
        simp [cons_prefix_cons, hk, Ne.symm hk]

theorem distinct_obj_iff :
    Distinct (.obj ms) ↔ (ms.map Prod.fst).Nodup ∧ ∀ k j, (obj ms).member k = some j → Distinct j := by
  constructor
  · intro h
    refine ⟨h [] ms rfl, fun k j hj path ms' hget => h (k :: path) ms' ?_⟩
    rw [get, hj]
    exact hget
  · rintro ⟨hnodup, hmem⟩ path ms' hget
    cases path with
    | nil =>
      cases hget
      exact hnodup
    | cons k path =>
      rw [get, Option.bind_eq_some_iff] at hget
      obtain ⟨j, hj, hget⟩ := hget
      exact hmem k j hj path ms' hget

theorem distinct_of_forall_ne_obj (h : ∀ ms, j ≠ .obj ms) : Distinct j := by
  intro path ms hget
  cases path with
  | nil =>
    cases hget
    exact absurd rfl (h ms)
  | cons k path =>
    rw [get, member_of_forall_ne_obj h] at hget
    cases hget

theorem distinct_obj_nil : Distinct (.obj []) :=
  distinct_obj_iff.mpr ⟨nodup_nil, fun _ _ hj => nomatch hj⟩

theorem distinct_build (p : List String) (hv : Distinct v) : Distinct (build p v) := by
  induction p with
  | nil => exact hv
  | cons k ks ih =>
    refine distinct_obj_iff.mpr ⟨by simp, fun k' j hj => ?_⟩
    by_cases hk : k = k'
    · subst hk
      rw [show obj [(k, build ks v)] = build (k :: ks) v from rfl, member_build_self] at hj
      cases hj
      exact ih
    · rw [show obj [(k, build ks v)] = build (k :: ks) v from rfl, member_build_of_ne ks v hk] at hj
      cases hj

theorem distinct_setMember {k : String} (h : Distinct (.obj ms)) (hv : Distinct v) :
    Distinct (.obj (setMember k v ms)) := by
  obtain ⟨hnodup, hmem⟩ := distinct_obj_iff.mp h
  refine distinct_obj_iff.mpr ⟨nodup_keys_setMember hnodup, fun k' j hj => ?_⟩
  by_cases hk : k = k'
  · subst hk
    rw [member_setMember_self] at hj
    cases hj
    exact hv
  · rw [member_setMember_of_ne v ms hk] at hj
    exact hmem k' j hj

/-! ## Deleting -/

theorem deletePath_of_forall_ne_obj (h : ∀ ms, j ≠ .obj ms) (p : List String) : deletePath p j = j := by
  cases p with
  | nil => rfl
  | cons k ks =>
    cases j with
    | obj ms => exact absurd rfl (h ms)
    | _ => rfl

theorem distinct_deletePath (p : List String) (h : Distinct j) : Distinct (deletePath p j) := by
  induction p generalizing j with
  | nil => exact h
  | cons k ks ih =>
    cases j with
    | obj ms =>
      obtain ⟨hnodup, hmem⟩ := distinct_obj_iff.mp h
      rw [deletePath]
      by_cases hks : ks = []
      · rw [if_pos hks]
        refine distinct_obj_iff.mpr ⟨?_, fun k' j hj => ?_⟩
        · rw [keys_deleteMember]
          exact hnodup.erase k
        · by_cases hk : k = k'
          · subst hk
            rw [member_deleteMember_self hnodup] at hj
            cases hj
          · rw [member_deleteMember_of_ne ms hk] at hj
            exact hmem k' j hj
      · rw [if_neg hks]
        cases hold : (obj ms).member k with
        | none => exact h
        | some old => exact distinct_setMember h (ih (hmem k old hold))
    | _ => exact h

variable {p : List String}

theorem view_deletePath (hp : p ≠ []) (h : Distinct j) : (deletePath p j).view = View.delete [p] j.view := by
  funext q
  have hdelete (w : View) : View.delete [p] w q = if p <+: q then none else w q := by
    simp [View.delete]
  rw [hdelete]
  clear hdelete
  induction p generalizing j q with
  | nil => exact absurd rfl hp
  | cons k ks ih =>
    cases q with
    | nil =>
      cases j with
      | obj ms =>
        rw [deletePath]
        by_cases hks : ks = []
        · rw [if_pos hks]
          rfl
        · rw [if_neg hks]
          cases (obj ms).member k <;> rfl
      | _ => rfl
    | cons k' q =>
      cases j with
      | obj ms =>
        obtain ⟨hnodup, hmem⟩ := distinct_obj_iff.mp h
        rw [deletePath, view_cons, view_cons]
        by_cases hk : k = k'
        · subst hk
          simp only [cons_prefix_cons, true_and]
          by_cases hks : ks = []
          · rw [if_pos hks, if_pos (by simp [hks]), member_deleteMember_self hnodup]
            rfl
          · rw [if_neg hks]
            cases hold : (obj ms).member k with
            | none => simp [hold]
            | some old =>
              rw [member_setMember_self, Option.bind_some, Option.bind_some, ih hks (hmem k old hold) q]
        · have hnot : ¬ k :: ks <+: k' :: q := by simp [cons_prefix_cons, hk]
          rw [if_neg hnot]
          by_cases hks : ks = []
          · rw [if_pos hks, member_deleteMember_of_ne ms hk]
          · rw [if_neg hks]
            cases hold : (obj ms).member k with
            | none => rfl
            | some old => rw [member_setMember_of_ne _ ms hk]
      | null | bool _ | num _ | str _ | arr _ =>
        rw [deletePath_of_forall_ne_obj (by simp), view_cons_of_forall_ne_obj (by simp), ite_self]

theorem View.delete_nil (w : View) : View.delete [] w = w := by
  funext q
  simp [View.delete]

theorem View.delete_delete (ps qs : List (List String)) (w : View) :
    View.delete ps (View.delete qs w) = View.delete (qs ++ ps) w := by
  funext q
  unfold View.delete
  by_cases hps : ∃ p ∈ ps, p <+: q
  · obtain ⟨p, hp, hpq⟩ := hps
    rw [if_pos ⟨p, hp, hpq⟩, if_pos ⟨p, mem_append_right _ hp, hpq⟩]
  · by_cases hqs : ∃ p ∈ qs, p <+: q
    · obtain ⟨p, hp, hpq⟩ := hqs
      rw [if_neg hps, if_pos ⟨p, hp, hpq⟩, if_pos ⟨p, mem_append_left _ hp, hpq⟩]
    · have hboth : ¬ ∃ p ∈ qs ++ ps, p <+: q := by
        rintro ⟨p, hp, hpq⟩
        rcases mem_append.mp hp with hp | hp
        · exact hqs ⟨p, hp, hpq⟩
        · exact hps ⟨p, hp, hpq⟩
      rw [if_neg hps, if_neg hqs, if_neg hboth]

theorem distinct_foldl_deletePath (ps : List (List String)) (h : Distinct j) :
    Distinct (ps.foldl (fun j p => deletePath p j) j) := by
  induction ps generalizing j with
  | nil => exact h
  | cons p ps ih => exact ih (distinct_deletePath p h)

variable {ps : List (List String)}

theorem view_foldl_deletePath (hps : ∀ p ∈ ps, p ≠ []) (h : Distinct j) :
    (ps.foldl (fun j p => deletePath p j) j).view = View.delete ps j.view := by
  induction ps generalizing j with
  | nil => exact (View.delete_nil _).symm
  | cons p ps ih =>
    rw [foldl_cons, ih (fun p' hp' => hps p' (mem_cons_of_mem _ hp'))
      (distinct_deletePath p h), view_deletePath (hps p mem_cons_self) h, View.delete_delete]
    rfl

/-! ## Setting -/

theorem View.blocked_cons_iff {k : String} {ks : List String} :
    View.Blocked (k :: ks) (obj ms).view ↔
      ∃ old, (obj ms).member k = some old ∧ View.Blocked ks old.view := by
  constructor
  · rintro ⟨r, es, hr, hne, hview⟩
    cases r with
    | nil => cases hview
    | cons k' r =>
      obtain ⟨rfl, hrest⟩ := cons_prefix_cons.mp hr
      rw [view_cons, Option.bind_eq_some_iff] at hview
      obtain ⟨old, hold, hview⟩ := hview
      exact ⟨old, hold, r, es, hrest, fun he => hne (by rw [he]), hview⟩
  · rintro ⟨old, hold, r, es, hr, hne, hview⟩
    refine ⟨k :: r, es, cons_prefix_cons.mpr ⟨rfl, hr⟩, fun he => hne (List.cons.inj he).2, ?_⟩
    rw [view_cons, hold]
    exact hview

theorem view_setMember {m : Json} (hm : m.view = View.set ks v.view fun q => (obj ms).view (k :: q)) :
    (obj (setMember k m ms)).view = View.set (k :: ks) v.view (obj ms).view := by
  funext q
  cases q with
  | nil => simp [shape]
  | cons k' q =>
    rw [view_cons]
    by_cases hk : k = k'
    · subst hk
      rw [member_setMember_self, Option.bind_some, hm]
      simp [cons_prefix_cons]
    · rw [member_setMember_of_ne m ms hk, ← view_cons]
      simp [cons_prefix_cons, hk, Ne.symm hk]

/-- An assignment is refused if there is an array above the path, and else goes through. -/
theorem setPath_spec (p : List String) (v j : Json) :
    (∃ e, setPath p v j = .error e ∧ View.Blocked p j.view) ∨
      ∃ j', setPath p v j = .ok j' ∧ ¬ View.Blocked p j.view ∧ j'.view = View.set p v.view j.view := by
  induction p generalizing j with
  | nil =>
    refine .inr ⟨v, rfl, ?_, ?_⟩
    · rintro ⟨r, es, hr, hne, -⟩
      exact hne (prefix_nil.mp hr)
    · funext q
      simp
  | cons k ks ih =>
    cases j with
    | obj ms =>
      rw [setPath, View.blocked_cons_iff]
      cases hold : (obj ms).member k with
      | none =>
        refine .inr ⟨_, rfl, by simp, view_setMember k ks ?_⟩
        rw [view_build]
        congr 1
        funext q
        rw [view_cons, hold]
        rfl
      | some old =>
        have hview : old.view = fun q => (obj ms).view (k :: q) := by
          funext q
          rw [view_cons, hold]
          rfl
        rcases ih old with ⟨e, herror, hblocked⟩ | ⟨new, hok, hfree, hnew⟩
        · exact .inl ⟨e, by simp [herror, Except.map], old, rfl, hblocked⟩
        · refine .inr ⟨.obj (setMember k new ms), by simp [hok, Except.map], ?_, ?_⟩
          · rintro ⟨old', heq, hblocked⟩
            cases heq
            exact hfree hblocked
          · exact view_setMember k ks (hview ▸ hnew)
    | arr es =>
      exact .inl ⟨_, rfl, [], es, nil_prefix, by simp, rfl⟩
    | null | bool _ | num _ | str _ =>
      refine .inr ⟨build (k :: ks) v, rfl, ?_, ?_⟩
      · rintro ⟨r, es, -, -, hview⟩
        cases r with
        | nil => cases hview
        | cons k' r =>
          cases hview
      · rw [view_build]
        funext q
        cases q with
        | nil => simp
        | cons k' q => rw [View.set, View.set, view_cons_of_forall_ne_obj (by simp)]

theorem distinct_setPath {j' : Json} (hv : Distinct v) (hj : Distinct j)
    (h : setPath p v j = .ok j') : Distinct j' := by
  induction p generalizing j j' with
  | nil =>
    cases h
    exact hv
  | cons k ks ih =>
    cases j with
    | obj ms =>
      rw [setPath] at h
      cases hold : (obj ms).member k with
      | none =>
        rw [hold] at h
        cases h
        exact distinct_setMember hj (distinct_build ks hv)
      | some old =>
        simp only [hold] at h
        obtain ⟨new, hnew, rfl⟩ := Results.map_eq_ok h
        exact distinct_setMember hj (ih ((distinct_obj_iff.mp hj).2 k old hold) hnew)
    | arr es => cases h
    | null | bool _ | num _ | str _ =>
      cases h
      exact distinct_build (k :: ks) hv

variable {es : List (List String × Json)}

theorem distinct_setEachPath (hes : ∀ e ∈ es, Distinct e.2) {j' : Json} (hj : Distinct j)
    (h : setEachPath es j = .ok j') : Distinct j' := by
  unfold setEachPath at h
  induction es generalizing j with
  | nil =>
    cases h
    exact hj
  | cons e es ih =>
    rw [foldlM_cons] at h
    obtain ⟨j1, hstep, h⟩ := Results.bind_eq_ok h
    exact ih (fun e' he' => hes e' (mem_cons_of_mem _ he'))
      (distinct_setPath (hes e mem_cons_self) hj hstep) h

/-! ## Many assignments -/

variable {q : List String}

theorem View.set_below (v w : View) (h : p <+: q) : View.set p v w q = v (q.drop p.length) := by
  rw [View.set, if_pos h]

theorem View.set_above (v w : View) (h : q <+: p) (hne : q ≠ p) : View.set p v w q = some (.obj []) := by
  have hnot : ¬ p <+: q := fun hpq => hne (h.eq_of_length_le hpq.length_le)
  rw [View.set, if_neg hnot, if_pos h]

theorem View.set_elsewhere (v w : View) (hpq : ¬ p <+: q) (hqp : ¬ q <+: p) : View.set p v w q = w q := by
  rw [View.set, if_neg hpq, if_neg hqp]

theorem Separate.eq_of_above (h : Separate ps) {p' q : List String} (hp : p ∈ ps) (hp' : p' ∈ ps)
    (hpq : p <+: q) (hp'q : p' <+: q) : p = p' := by
  rcases List.prefix_or_prefix_of_prefix hpq hp'q with hpre | hpre
  · exact h p hp p' hp' hpre
  · exact (h p' hp' p hp hpre).symm

theorem Separate.tail (h : Separate (p :: ps)) : Separate ps :=
  fun q hq r hr => h q (mem_cons_of_mem _ hq) r (mem_cons_of_mem _ hr)

theorem Separate.left {qs : List (List String)} (h : Separate (ps ++ qs)) : Separate ps :=
  fun p hp q hq => h p (mem_append_left _ hp) q (mem_append_left _ hq)

theorem Separate.right {qs : List (List String)} (h : Separate (ps ++ qs)) : Separate qs :=
  fun p hp q hq => h p (mem_append_right _ hp) q (mem_append_right _ hq)

theorem View.blocked_set_iff {p' : List String} {v w : View} (hpp' : p <+: p' → p = p')
    (hfree : ¬ View.Blocked p w) : View.Blocked p' (View.set p v w) ↔ View.Blocked p' w := by
  have hbelow {r : List String} (hr : r <+: p') (hne : r ≠ p') : ¬ p <+: r := by
    intro hpr
    have heq := hpp' (hpr.trans hr)
    subst heq
    exact hne (hr.eq_of_length_le hpr.length_le)
  constructor
  · rintro ⟨r, es, hr, hne, hview⟩
    refine ⟨r, es, hr, hne, ?_⟩
    by_cases hrp : r <+: p
    · have hrne : r ≠ p := fun he => hbelow hr hne (he ▸ prefix_rfl)
      rw [View.set_above v w hrp hrne] at hview
      cases hview
    · rwa [View.set_elsewhere v w (hbelow hr hne) hrp] at hview
  · rintro ⟨r, es, hr, hne, hview⟩
    have hrp : ¬ r <+: p := by
      intro hrp
      have hrne : r ≠ p := fun he => hbelow hr hne (he ▸ prefix_rfl)
      exact hfree ⟨r, es, hrp, hrne, hview⟩
    exact ⟨r, es, hr, hne, by rwa [View.set_elsewhere v w (hbelow hr hne) hrp]⟩

theorem View.delete_of_forall_not (h : ∀ p ∈ ps, ¬ p <+: q) (w : View) : View.delete ps w q = w q := by
  rw [View.delete, if_neg]
  rintro ⟨p, hp, hpq⟩
  exact h p hp hpq

/-- One overlay after another, with deletions between them that the second makes up for. -/
theorem View.Overlaid.or {f g : List String → Option Json} {w w1 w2 : View}
    (hf : View.Overlaid f w w1) (hg : View.Overlaid g (View.delete ps w1) w2)
    (hsep : ∀ {p p' q}, f p ≠ none → g p' ≠ none → p <+: q → p' <+: q ∨ q <+: p' → p = p')
    (hrestored : ∀ {p v r}, f p = some v → r ∈ ps →
      r <+: p ∨ p <+: r ∧ v.view (r.drop p.length) ≠ none → g p ≠ none) :
    View.Overlaid (fun p => (g p).or (f p)) (View.delete ps w) w2 := by
  refine ⟨?_, ?_, ?_⟩
  · intro p v q hv hpq
    rw [Option.or_eq_some_iff] at hv
    rcases hv with hv | ⟨hnone, hv⟩
    · exact hg.below hv hpq
    · -- below a path of the first alone, the second deletes only where the value has nothing
      have hp : f p ≠ none := by simp [hv]
      rw [hg.elsewhere]
      · unfold View.delete
        split
        next hdeleted =>
          obtain ⟨r, hr, hrq⟩ := hdeleted
          symm
          rcases prefix_or_prefix_of_prefix hrq hpq with hrp | hpr
          · exact absurd hnone (hrestored hv hr (.inl hrp))
          · have hempty : v.view (r.drop p.length) = none := by
              by_contra hsome
              exact hrestored hv hr (.inr ⟨hpr, hsome⟩) hnone
            exact view_eq_none_of_prefix hempty (hrq.drop p.length)
        · exact hf.below hv hpq
      · intro p' hp'
        constructor
        · intro hp'q
          exact hp' (hsep hp hp' hpq (.inl hp'q) ▸ hnone)
        · intro hqp'
          exact hp' (hsep hp hp' hpq (.inr hqp') ▸ hnone)
  · intro p q hp hqp hne
    by_cases hlater : ∃ p', g p' ≠ none ∧ q <+: p' ∧ q ≠ p'
    · obtain ⟨p', hp', hqp', hne'⟩ := hlater
      exact hg.above hp' hqp' hne'
    · have hnone : g p = none := by
        by_contra hsome
        exact hlater ⟨p, hsome, hqp, hne⟩
      have hsome : f p ≠ none := by simpa [hnone] using hp
      obtain ⟨v, hv⟩ := Option.ne_none_iff_exists'.mp hsome
      rw [hg.elsewhere, View.delete_of_forall_not, hf.above hsome hqp hne]
      · intro r hr hrq
        exact hrestored hv hr (.inl (hrq.trans hqp)) hnone
      · intro p' hp'
        have hp'q : ¬ p' <+: q := by
          intro hp'q
          exact hp' (hsep hsome hp' prefix_rfl (.inl (hp'q.trans hqp)) ▸ hnone)
        exact ⟨hp'q, fun hqp' => hlater ⟨p', hp', hqp', fun he => hp'q (he ▸ prefix_rfl)⟩⟩
  · intro q hall
    rw [hg.elsewhere fun p hp => hall p (by simp [hp])]
    unfold View.delete
    split
    · rfl
    · exact hf.elsewhere fun p hp => hall p (by simp [hp])

theorem View.Overlaid.cons {e : List String × Json} (hsep : Separate ((e :: es).map Prod.fst))
    {w w' : View} (h : View.Overlaid (fun p => lastValue p es) (View.set e.1 e.2.view w) w') :
    View.Overlaid (fun p => lastValue p (e :: es)) w w' := by
  have hhead : View.Overlaid (fun p => if e.1 = p then some e.2 else none) w (View.set e.1 e.2.view w) := by
    refine ⟨?_, ?_, ?_⟩
    · intro p v q hv hpq
      rw [Option.ite_none_right_eq_some, Option.some.injEq] at hv
      obtain ⟨rfl, rfl⟩ := hv
      exact View.set_below _ _ hpq
    · intro p q hp hqp hne
      obtain rfl : e.1 = p := by simpa using hp
      exact View.set_above _ _ hqp hne
    · intro q hall
      obtain ⟨hpq, hqp⟩ := hall e.1 (by simp)
      exact View.set_elsewhere _ _ hpq hqp
  rw [← View.delete_nil (View.set e.1 e.2.view w)] at h
  rw [← View.delete_nil w]
  refine hhead.or h (fun {p p' q} hp hp' hpq hq => ?_) fun _ hr => absurd hr not_mem_nil
  obtain rfl : e.1 = p := by simpa using hp
  have hmem : p' ∈ (e :: es).map Prod.fst := mem_cons_of_mem _ (lastValue_ne_none_iff.mp hp')
  rcases hq with hp'q | hqp'
  · exact hsep.eq_of_above (by simp) hmem hpq hp'q
  · exact hsep _ (by simp) _ hmem (hpq.trans hqp')

/-- Assignments to separate paths: refused if there is an array above one of them, and else the
last one to each path is seen. -/
theorem setEachPath_spec (hsep : Separate (es.map Prod.fst)) (j : Json) :
    (∃ err, setEachPath es j = .error err ∧ ∃ p ∈ es.map Prod.fst, View.Blocked p j.view) ∨
      ∃ j', setEachPath es j = .ok j' ∧ (∀ p ∈ es.map Prod.fst, ¬ View.Blocked p j.view) ∧
        View.Overlaid (fun p => lastValue p es) j.view j'.view := by
  unfold setEachPath
  induction es generalizing j with
  | nil =>
    refine .inr ⟨j, rfl, by simp, ⟨?_, ?_, ?_⟩⟩
    · intro p v q h
      cases h
    · intro p q h
      exact absurd rfl h
    · intro q _
      rfl
  | cons e es ih =>
    rw [foldlM_cons]
    rcases setPath_spec e.1 e.2 j with ⟨err, herror, hblocked⟩ | ⟨j1, hok, hfree, hview⟩
    · exact .inl ⟨err, by rw [herror]; rfl, e.1, mem_cons_self, hblocked⟩
    · have hiff (p : List String) (hp : p ∈ es.map Prod.fst) :
          View.Blocked p j1.view ↔ View.Blocked p j.view := by
        rw [hview]
        exact View.blocked_set_iff (hsep e.1 (by simp) p (mem_cons_of_mem _ hp)) hfree
      rw [hok]
      rcases ih hsep.tail j1 with ⟨err, herror, p, hp, hblocked⟩ | ⟨j', hok', hfree', hover⟩
      · exact .inl ⟨err, herror, p, mem_cons_of_mem _ hp, (hiff p hp).mp hblocked⟩
      · exact .inr ⟨j', hok', forall_mem_cons.mpr
          ⟨hfree, fun p hp hblocked => hfree' p hp ((hiff p hp).mpr hblocked)⟩,
          View.Overlaid.cons hsep (hview ▸ hover)⟩

theorem View.Overlaid.unique {f : List String → Option Json} {w w1 w2 : View}
    (h1 : View.Overlaid f w w1) (h2 : View.Overlaid f w w2) : w1 = w2 := by
  funext q
  by_cases hbelow : ∃ p, f p ≠ none ∧ p <+: q
  · obtain ⟨p, hp, hpq⟩ := hbelow
    obtain ⟨v, hv⟩ := Option.ne_none_iff_exists'.mp hp
    rw [h1.below hv hpq, h2.below hv hpq]
  · by_cases habove : ∃ p, f p ≠ none ∧ q <+: p
    · obtain ⟨p, hp, hqp⟩ := habove
      have hne : q ≠ p := fun he => hbelow ⟨p, hp, he ▸ prefix_rfl⟩
      rw [h1.above hp hqp hne, h2.above hp hqp hne]
    · have hall (p : List String) (hp : f p ≠ none) : ¬ p <+: q ∧ ¬ q <+: p :=
        ⟨fun hpq => hbelow ⟨p, hp, hpq⟩, fun hqp => habove ⟨p, hp, hqp⟩⟩
      rw [h1.elsewhere hall, h2.elsewhere hall]

theorem setEachPath_append (es es' : List (List String × Json)) (j : Json) :
    setEachPath (es ++ es') j = setEachPath es j >>= setEachPath es' := by
  unfold setEachPath
  rw [foldlM_append]

/-! ## Documents without arrays -/

theorem arrayFree_obj_nil : ArrayFree (obj []).view := by
  intro q es hview
  cases q with
  | nil => cases hview
  | cons k q =>
    cases hview

theorem arrayFree_str (s : String) : ArrayFree (str s).view := by
  intro q es hview
  cases q with
  | nil => cases hview
  | cons k q =>
    cases hview

theorem ArrayFree.not_blocked {w : View} (h : ArrayFree w) (p : List String) : ¬ View.Blocked p w := by
  rintro ⟨r, es, -, -, hview⟩
  exact h r es hview

theorem ArrayFree.set {v w : View} (hv : ArrayFree v) (hw : ArrayFree w) (p : List String) :
    ArrayFree (View.set p v w) := by
  intro q es hview
  unfold View.set at hview
  split at hview
  · exact hv _ es hview
  · split at hview
    · cases hview
    · exact hw q es hview

theorem ArrayFree.delete {w : View} (hw : ArrayFree w) (ps : List (List String)) :
    ArrayFree (View.delete ps w) := by
  intro q es hview
  unfold View.delete at hview
  split at hview
  · cases hview
  · exact hw q es hview

theorem exists_setEachPath (hes : ∀ e ∈ es, ArrayFree e.2.view) (hj : ArrayFree j.view) :
    ∃ j', setEachPath es j = .ok j' ∧ ArrayFree j'.view := by
  unfold setEachPath
  induction es generalizing j with
  | nil => exact ⟨j, rfl, hj⟩
  | cons e es ih =>
    rw [foldlM_cons]
    rcases setPath_spec e.1 e.2 j with ⟨err, -, hblocked⟩ | ⟨j1, hok, -, hview⟩
    · exact absurd hblocked (hj.not_blocked e.1)
    · rw [hok]
      refine ih (fun e' he' => hes e' (mem_cons_of_mem _ he')) ?_
      rw [hview]
      exact (hes e mem_cons_self).set hj e.1

end AgentRouter.Json
