import AgentRouter.MCP.Session

/-!
# Capabilities: what a session advertises for its backends

`unionServerCapabilities` puts the capabilities of the backends of a session together.  A capability
is there if a backend has it, and its flags are or-ed.  The settings of an extension are those of the
first backend that declares it, and `mergedCapabilities` visits the backends in the order of a map:

    every order gives the same capabilities
      ↔  backends that declare the same extension have the same settings for it
      (mergedCapabilities_independent_iff)
-/

namespace AgentRouter.MCPSession

open List

variable {ε : Type}

/-! ## Algorithm -/

/-- `mcpsdk.ServerCapabilities` with extensions. -/
structure DeclaredCapabilities (ε : Type) extends ServerCapabilities where
  extensions : GoMap String ε

def ResourceCapabilities.or (a b : ResourceCapabilities) : ResourceCapabilities :=
  ⟨a.listChanged || b.listChanged, a.subscribe || b.subscribe⟩

def ServerCapabilities.or (merged caps : ServerCapabilities) : ServerCapabilities where
  tools := Option.merge Bool.or merged.tools caps.tools
  prompts := Option.merge Bool.or merged.prompts caps.prompts
  logging := merged.logging || caps.logging
  resources := Option.merge .or merged.resources caps.resources
  completions := merged.completions || caps.completions

/-- The first to declare an extension wins. -/
def declareExtension (merged : GoMap String ε) (e : String × ε) : GoMap String ε :=
  if e.1 ∈ merged then merged else merged.insert e.1 e.2

variable (order : IterOrder String ε)

/-- The capabilities of one more backend; they may be nil. -/
def mergeCapabilities (merged : DeclaredCapabilities ε) :
    Option (DeclaredCapabilities ε) → DeclaredCapabilities ε
  | none => merged
  | some caps => ⟨merged.toServerCapabilities.or caps.toServerCapabilities,
      (order.visit caps.extensions).foldl declareExtension merged.extensions⟩

def unionServerCapabilities (all : List (Option (DeclaredCapabilities ε))) : DeclaredCapabilities ε :=
  all.foldl (mergeCapabilities order) ⟨.none, ∅⟩

def mergedCapabilities (backends : IterOrder String (Option (DeclaredCapabilities ε)))
    (perBackendSessions : GoMap String (Option (DeclaredCapabilities ε))) : DeclaredCapabilities ε :=
  unionServerCapabilities order ((backends.visit perBackendSessions).map Prod.snd)

/-! ## Lemmas -/

/-- The settings that a backend declares for an extension. -/
def settings (id : String) (caps : Option (DeclaredCapabilities ε)) : Option ε :=
  caps.bind (·.extensions.lookup id)

structure SameCapabilities (c d : DeclaredCapabilities ε) : Prop where
  server : c.toServerCapabilities = d.toServerCapabilities
  extensions : ∀ id, c.extensions.lookup id = d.extensions.lookup id

theorem merge_right_comm {α : Type} {f : α → α → α} (hcomm : ∀ x y, f x y = f y x)
    (hright : ∀ x y z, f (f x y) z = f (f x z) y) (x y z : Option α) :
    Option.merge f (Option.merge f x y) z = Option.merge f (Option.merge f x z) y := by
  cases x <;> cases y <;> cases z <;> simp [hright, hcomm]

theorem ServerCapabilities.or_right_comm (a b c : ServerCapabilities) : (a.or b).or c = (a.or c).or b := by
  have hflag := merge_right_comm Bool.or_comm Bool.or_right_comm
  have hresources := merge_right_comm (f := ResourceCapabilities.or)
    (fun x y => by simp [ResourceCapabilities.or, Bool.or_comm])
    (fun x y z => by simp [ResourceCapabilities.or, Bool.or_right_comm])
  simp only [ServerCapabilities.or, hflag, hresources, Bool.or_right_comm]

variable (merged : DeclaredCapabilities ε) (all : List (Option (DeclaredCapabilities ε)))

theorem toServerCapabilities_foldl :
    (all.foldl (mergeCapabilities order) merged).toServerCapabilities =
      (all.filterMap (·.map (·.toServerCapabilities))).foldl .or merged.toServerCapabilities := by
  induction all generalizing merged with
  | nil => rfl
  | cons caps all ih =>
    rw [foldl_cons, ih]
    cases caps with
    | none => rfl
    | some caps => rfl

theorem lookup_mergeCapabilities (caps : Option (DeclaredCapabilities ε)) (id : String) :
    (mergeCapabilities order merged caps).extensions.lookup id =
      (merged.extensions.lookup id).or (settings id caps) := by
  cases caps with
  | none => simp [mergeCapabilities, settings]
  | some caps =>
    simp only [mergeCapabilities, settings, Option.bind_some]
    rw [order.foldl_view caps.extensions declareExtension (·.lookup id) fun v found => found.or v]
    · cases caps.extensions.lookup id <;> simp
    · intro m e he
      unfold declareExtension
      split
      · rfl
      · exact AList.lookup_insert_ne (Ne.symm he)
    · intro m v
      unfold declareExtension
      split
      next h =>
        obtain ⟨w, hw⟩ := Option.isSome_iff_exists.mp (AList.lookup_isSome.mpr h)
        simp only [hw, Option.some_or]
      next h => simp [AList.lookup_eq_none.mpr h]

theorem lookup_unionServerCapabilities (id : String) :
    (unionServerCapabilities order all).extensions.lookup id = all.findSome? (settings id) := by
  suffices h : ∀ merged : DeclaredCapabilities ε,
      (all.foldl (mergeCapabilities order) merged).extensions.lookup id =
        (merged.extensions.lookup id).or (all.findSome? (settings id)) by
    simpa [unionServerCapabilities] using h ⟨.none, ∅⟩
  intro merged
  induction all generalizing merged with
  | nil => simp
  | cons caps all ih =>
    rw [foldl_cons, ih, lookup_mergeCapabilities, findSome?_cons]
    cases settings id caps <;> simp

/-- Backends that declare the same extension have the same settings for it. -/
def Agree (sessions : GoMap String (Option (DeclaredCapabilities ε))) : Prop :=
  ∀ b b' c c', sessions.lookup b = some c → sessions.lookup b' = some c' →
    ∀ id, ∀ v ∈ settings id c, ∀ v' ∈ settings id c', v = v'

/-! ## Top theorem -/

theorem mergedCapabilities_independent_iff
    (sessions : GoMap String (Option (DeclaredCapabilities ε))) :
    (∀ order order' backends backends', SameCapabilities (mergedCapabilities order backends sessions)
        (mergedCapabilities order' backends' sessions)) ↔
      Agree sessions := by
  constructor
  · intro h b b' c c' hc hc' id v hv v' hv'
    -- the backend that is visited first decides
    have hfirst : ∀ b c, sessions.lookup b = some c → ∀ v ∈ settings id c,
        (mergedCapabilities GoMap.storedOrder (.visitFirst b) sessions).extensions.lookup id =
          some v := by
      intro b c hc v hv
      obtain ⟨es, hes⟩ := IterOrder.visit_visitFirst hc
      rw [mergedCapabilities, lookup_unionServerCapabilities, hes, map_cons, findSome?_cons,
        Option.mem_def.mp hv]
    have hsame := (h GoMap.storedOrder GoMap.storedOrder (.visitFirst b) (.visitFirst b')).extensions id
    rw [hfirst b c hc v hv, hfirst b' c' hc' v' hv'] at hsame
    exact Option.some.inj hsame
  · intro h order order' backends backends'
    have hperm := ((backends.perm sessions).trans (backends'.perm sessions).symm).map Prod.snd
    constructor
    · rw [mergedCapabilities, mergedCapabilities, unionServerCapabilities, unionServerCapabilities,
        toServerCapabilities_foldl, toServerCapabilities_foldl]
      exact (hperm.filterMap _).foldl_eq' (fun x _ y _ z => z.or_right_comm x y) _
    · intro id
      have hmem : ∀ (ord : IterOrder String (Option (DeclaredCapabilities ε))) c,
          c ∈ (ord.visit sessions).map Prod.snd → ∃ b, sessions.lookup b = some c := by
        intro ord c hc
        obtain ⟨e, he, rfl⟩ := mem_map.mp hc
        exact ⟨e.1, (ord.mem_visit sessions e).mp he⟩
      rw [mergedCapabilities, mergedCapabilities, lookup_unionServerCapabilities,
        lookup_unionServerCapabilities]
      cases hfound : ((backends.visit sessions).map Prod.snd).findSome? (settings id) with
      | none =>
        rw [findSome?_eq_none_iff] at hfound
        exact (findSome?_eq_none_iff.mpr fun c hc => hfound c (hperm.mem_iff.mpr hc)).symm
      | some v =>
        obtain ⟨c, hc, hv⟩ := exists_of_findSome?_eq_some hfound
        cases hfound' : ((backends'.visit sessions).map Prod.snd).findSome? (settings id) with
        | none => simp [findSome?_eq_none_iff.mp hfound' c (hperm.mem_iff.mp hc)] at hv
        | some v' =>
          obtain ⟨c', hc', hv'⟩ := exists_of_findSome?_eq_some hfound'
          obtain ⟨b, hb⟩ := hmem backends c hc
          obtain ⟨b', hb'⟩ := hmem backends' c' hc'
          rw [h b b' c c' hb hb' id v hv v' hv']

/-- Two backends that declare one extension, each with settings of its own. -/
def declaringTwo : GoMap String (Option (DeclaredCapabilities Nat)) :=
  let declaring (settings : Nat) : DeclaredCapabilities Nat :=
    ⟨.none, (∅ : GoMap String Nat).insert "io.example/ui" settings⟩
  ((∅ : GoMap String (Option (DeclaredCapabilities Nat))).insert "a" (some (declaring 1))).insert "b"
    (some (declaring 2))

theorem settings_by_order :
    let advertised (first : String) : Option Nat :=
      (mergedCapabilities GoMap.storedOrder (.visitFirst first) declaringTwo).extensions.lookup
        "io.example/ui"
    advertised "a" = some 1 ∧ advertised "b" = some 2 :=
  ⟨by decide, by decide⟩

end AgentRouter.MCPSession
