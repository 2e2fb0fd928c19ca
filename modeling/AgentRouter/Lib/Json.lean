import Mathlib.Data.List.Basic

/-!
# Json: JSON documents edited in place

The sources edit request bodies without decoding them, one top-level key at a time
(sjson).  A document keeps its members in the order of the text, and nothing keeps
a client from sending the same key twice: an edit touches the first member of the
key and leaves the others where they are.

    values under k after setting k    =  the new value, then the old values but the first
    values under k after any other edit  =  the old values       (values_set_self, values_set_of_ne)
-/

namespace AgentRouter

open List

inductive Json where
  | null
  | bool (b : Bool)
  | num (n : Int)
  | str (s : String)
  | arr (elems : List Json)
  | obj (members : List (String × Json))

namespace Json

/-! ## Members -/

/-- The values of the members with this key, in the order of the text. -/
def valuesIn (key : String) (ms : List (String × Json)) : List Json :=
  (ms.filter fun m => m.1 = key).map Prod.snd

def values (j : Json) (key : String) : List Json :=
  match j with
  | .obj ms => valuesIn key ms
  | _ => []

/-- The strings among the elements of an array. -/
def strings (j : Json) : List String :=
  match j with
  | .arr elems => elems.filterMap fun e => match e with
    | .str s => some s
    | _ => none
  | _ => []

def setMember (key : String) (v : Json) : List (String × Json) → List (String × Json)
  | [] => [(key, v)]
  | m :: ms => if m.1 = key then (key, v) :: ms else m :: setMember key v ms

def deleteMember (key : String) : List (String × Json) → List (String × Json)
  | [] => []
  | m :: ms => if m.1 = key then ms else m :: deleteMember key ms

/-! ## Edits -/

/-- `sjson.Set` at a top-level key that is not a number.  A scalar document is
replaced by an object; an array is refused. -/
def set (j : Json) (key : String) (v : Json) : Except String Json :=
  match j with
  | .obj ms => .ok (.obj (setMember key v ms))
  | .arr _ => .error ("cannot set array element for non-numeric key '" ++ key ++ "'")
  | _ => .ok (.obj [(key, v)])

/-- `sjson.Delete` at a top-level key. -/
def delete (j : Json) (key : String) : Json :=
  match j with
  | .obj ms => .obj (deleteMember key ms)
  | j => j

/-! ## Lemmas -/

variable (key : String)

theorem valuesIn_cons (m : String × Json) (ms : List (String × Json)) :
    valuesIn key (m :: ms) = if m.1 = key then m.2 :: valuesIn key ms else valuesIn key ms := by
  by_cases h : m.1 = key <;> simp [valuesIn, h]

theorem valuesIn_setMember_self (v : Json) (ms : List (String × Json)) :
    valuesIn key (setMember key v ms) = v :: (valuesIn key ms).tail := by
  induction ms with
  | nil => simp [setMember, valuesIn]
  | cons m ms ih =>
    rw [setMember]
    by_cases h : m.1 = key
    · simp [h, valuesIn_cons]
    · simp [h, valuesIn_cons, ih]

variable {key k : String}

theorem valuesIn_setMember_of_ne (v : Json) (ms : List (String × Json)) (hk : k ≠ key) :
    valuesIn key (setMember k v ms) = valuesIn key ms := by
  induction ms with
  | nil => simp [setMember, valuesIn, hk]
  | cons m ms ih =>
    rw [setMember]
    by_cases h : m.1 = k
    · simp [h, valuesIn_cons, hk]
    · simp [h, valuesIn_cons, ih]

variable (ms : List (String × Json))

theorem valuesIn_deleteMember_of_ne (hk : k ≠ key) : valuesIn key (deleteMember k ms) = valuesIn key ms := by
  induction ms with
  | nil => rfl
  | cons m ms ih =>
    rw [deleteMember]
    by_cases h : m.1 = k
    · simp [h, valuesIn_cons, hk]
    · simp [h, valuesIn_cons, ih]

theorem valuesIn_deleteMember_self : valuesIn key (deleteMember key ms) = (valuesIn key ms).tail := by
  induction ms with
  | nil => rfl
  | cons m ms ih =>
    rw [deleteMember]
    by_cases h : m.1 = key
    · simp [h, valuesIn_cons]
    · simp [h, valuesIn_cons, ih]

theorem filter_deleteMember : (deleteMember key ms).filter (·.1 ≠ key) = ms.filter (·.1 ≠ key) := by
  induction ms with
  | nil => rfl
  | cons m ms ih =>
    rw [deleteMember]
    by_cases h : m.1 = key
    · simp [h]
    · simpa [h] using ih

theorem filter_setMember (v : Json) (ms : List (String × Json)) :
    (setMember key v ms).filter (·.1 ≠ key) = ms.filter (·.1 ≠ key) := by
  induction ms with
  | nil => simp [setMember]
  | cons m ms ih =>
    rw [setMember]
    by_cases h : m.1 = key
    · simp [h]
    · simpa [h] using ih

theorem setMember_filter (v : Json) (ms : List (String × Json)) :
    setMember key v (ms.filter (·.1 ≠ key)) = ms.filter (·.1 ≠ key) ++ [(key, v)] := by
  induction ms with
  | nil => rfl
  | cons m ms ih =>
    by_cases h : m.1 = key
    · simpa [h] using ih
    · simpa [h, setMember] using ih

variable {j v : Json}

theorem values_set_of_ne {j' : Json} (hk : k ≠ key) (h : j.set k v = .ok j') :
    j'.values key = j.values key := by
  cases j with
  | obj ms =>
    cases h
    exact valuesIn_setMember_of_ne v ms hk
  | arr _ => cases h
  | null | bool _ | num _ | str _ =>
    cases h
    simp [values, valuesIn, hk]

theorem values_set_self {j' : Json} (h : j.set key v = .ok j') :
    j'.values key = v :: (j.values key).tail := by
  cases j with
  | obj ms =>
    cases h
    exact valuesIn_setMember_self key v ms
  | arr _ => cases h
  | null | bool _ | num _ | str _ =>
    cases h
    simp [values, valuesIn]

theorem values_delete_of_ne (hk : k ≠ key) : (j.delete k).values key = j.values key := by
  cases j with
  | obj ms => exact valuesIn_deleteMember_of_ne ms hk
  | _ => rfl

/-- What a successful edit leaves is an object, so every later edit succeeds too. -/
def IsObject (j : Json) : Prop := ∃ ms, j = .obj ms

theorem isObject_of_set {j' : Json} (h : j.set key v = .ok j') : j'.IsObject := by
  cases j <;> cases h <;> exact ⟨_, rfl⟩

theorem IsObject.delete (h : j.IsObject) (key : String) : (j.delete key).IsObject := by
  obtain ⟨ms, rfl⟩ := h
  exact ⟨_, rfl⟩

theorem IsObject.set (h : j.IsObject) (key : String) (v : Json) : ∃ j', j.set key v = .ok j' := by
  obtain ⟨ms, rfl⟩ := h
  exact ⟨_, rfl⟩

/-- Only an array refuses an edit, and an array has no members. -/
theorem values_eq_nil_of_set_error {e : String} (h : j.set k v = .error e) (key : String) :
    j.values key = [] := by
  cases j with
  | arr _ => rfl
  | _ => cases h

end Json

end AgentRouter
