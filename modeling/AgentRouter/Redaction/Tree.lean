import AgentRouter.Lib.Json
import Mathlib.Data.List.Forall2

/-!
# Tree: redacting a JSON value for the debug log

`RedactJSONTree` replaces the strings of a JSON value by placeholders.  The value of a `type` key
is taken over as it is, since it tells the members of a union apart; but nothing says that it is
a string, and below it nothing is replaced:

    every string left in the redacted value is empty, a placeholder or the value of a `type` key
      ↔  this holds already of everything below the `type` keys that the walk comes to
      (redacted_leaves_iff)

The results hold for every content hash, so `computeContentHash` is a parameter.
-/

namespace AgentRouter.Redaction

open List

section

variable (computeContentHash : String → String)

/-! ## Algorithm -/

/-- The length is that of the UTF-8 text. -/
def redactString (s : String) : String :=
  if s = "" then ""
  else "[REDACTED LENGTH=" ++ s.utf8ByteSize.repr ++ " HASH=" ++ computeContentHash s ++ "]"

mutual

def redactJSONTree : Json → Json
  | .str s => .str (redactString computeContentHash s)
  | .arr elems => .arr (redactElems elems)
  | .obj members => .obj (redactMembers members)
  | .null => .null
  | .bool b => .bool b
  | .num n => .num n

def redactElems : List Json → List Json
  | [] => []
  | e :: es => redactJSONTree e :: redactElems es

def redactMembers : List (String × Json) → List (String × Json)
  | [] => []
  | (k, e) :: ms => (k, if k = "type" then e else redactJSONTree e) :: redactMembers ms

end

/-- How the values of a type are written as JSON and read back. -/
structure Codec (τ : Type) where
  marshal : τ → Option Json
  unmarshal : Json → Option τ
  zero : τ

def redactInterfaceValue {τ : Type} (marshal : τ → Option Json) (v : τ) : Json :=
  match marshal v with
  | none => .str (redactString computeContentHash "redaction-error")
  | some generic => redactJSONTree computeContentHash generic

/-- A field that cannot be marshalled, or not be read back, is logged as absent. -/
def redactUnionField {τ : Type} (c : Codec τ) (v : τ) : τ :=
  match c.marshal v with
  | none => c.zero
  | some generic => (c.unmarshal (redactJSONTree computeContentHash generic)).getD c.zero

/-! ## Leaves -/

/-- A string in a JSON value, and the key it is the value of, if it is the value of a key. -/
structure Leaf where
  key : Option String
  text : String

mutual

/-- The strings of a value that stands under `key`. -/
def leavesUnder (key : Option String) : Json → List Leaf
  | .str s => [⟨key, s⟩]
  | .arr elems => elemLeaves elems
  | .obj members => memberLeaves members
  | .null => []
  | .bool _ => []
  | .num _ => []

def elemLeaves : List Json → List Leaf
  | [] => []
  | e :: es => leavesUnder none e ++ elemLeaves es

def memberLeaves : List (String × Json) → List Leaf
  | [] => []
  | (k, e) :: ms => leavesUnder (some k) e ++ memberLeaves ms

end

def leaves (v : Json) : List Leaf := leavesUnder none v

/-- What may be left in the log. -/
def Allowed (l : Leaf) : Prop :=
  l.text = "" ∨ (∃ s, s ≠ "" ∧ l.text = redactString computeContentHash s) ∨ l.key = some "type"

mutual

/-- The values of the `type` keys that the walk comes to. -/
def typeValues : Json → List Json
  | .arr elems => elemTypeValues elems
  | .obj members => memberTypeValues members
  | .null => []
  | .bool _ => []
  | .num _ => []
  | .str _ => []

def elemTypeValues : List Json → List Json
  | [] => []
  | e :: es => typeValues e ++ elemTypeValues es

def memberTypeValues : List (String × Json) → List Json
  | [] => []
  | (k, e) :: ms => (if k = "type" then [e] else typeValues e) ++ memberTypeValues ms

end

/-- What is read back from a value and written again has no strings of its own, and what is logged
for an absent field has none at all. -/
structure Codec.Faithful {τ : Type} (c : Codec τ) : Prop where
  leaves_unmarshal : ∀ {j x j'}, c.unmarshal j = some x → c.marshal x = some j' →
    ∀ l ∈ leaves j', l.text = "" ∨ l ∈ leaves j
  leaves_zero : ∀ {j}, c.marshal c.zero = some j → ∀ l ∈ leaves j, l.text = ""

/-! ## Lemmas -/

theorem ne_redactString {s t : String} (hs : s.toList.head? ≠ some '[') (ht : t ≠ "") :
    s ≠ redactString computeContentHash t := by
  rintro rfl
  apply hs
  rw [redactString, if_neg ht]
  simp

mutual

/-- The strings that the redaction leaves are allowed, apart from those below `type` keys. -/
theorem allowed_leavesUnder_iff (key : Option String) (v : Json) :
    (∀ l ∈ leavesUnder key (redactJSONTree computeContentHash v), Allowed computeContentHash l) ↔
      ∀ e ∈ typeValues v, ∀ l ∈ leavesUnder (some "type") e, Allowed computeContentHash l := by
  cases v with
  | null | bool _ | num _ => simp [redactJSONTree, leavesUnder, typeValues]
  | str s =>
    rw [redactJSONTree, leavesUnder, typeValues]
    simp only [mem_singleton, forall_eq, not_mem_nil, false_implies, implies_true, iff_true]
    by_cases h : s = ""
    · exact .inl (by rw [redactString, if_pos h])
    · exact .inr (.inl ⟨s, h, rfl⟩)
  | arr elems =>
    rw [redactJSONTree, leavesUnder, typeValues]
    exact allowed_elemLeaves_iff elems
  | obj members =>
    rw [redactJSONTree, leavesUnder, typeValues]
    exact allowed_memberLeaves_iff members

theorem allowed_elemLeaves_iff (elems : List Json) :
    (∀ l ∈ elemLeaves (redactElems computeContentHash elems), Allowed computeContentHash l) ↔
      ∀ e ∈ elemTypeValues elems, ∀ l ∈ leavesUnder (some "type") e, Allowed computeContentHash l := by
  cases elems with
  | nil => simp [redactElems, elemLeaves, elemTypeValues]
  | cons e es =>
    rw [redactElems, elemLeaves, elemTypeValues, forall_mem_append, forall_mem_append,
      allowed_leavesUnder_iff none e, allowed_elemLeaves_iff es]

theorem allowed_memberLeaves_iff (members : List (String × Json)) :
    (∀ l ∈ memberLeaves (redactMembers computeContentHash members), Allowed computeContentHash l) ↔
      ∀ e ∈ memberTypeValues members, ∀ l ∈ leavesUnder (some "type") e, Allowed computeContentHash l := by
  cases members with
  | nil => simp [redactMembers, memberLeaves, memberTypeValues]
  | cons m ms =>
    obtain ⟨k, e⟩ := m
    rw [redactMembers, memberLeaves, memberTypeValues, forall_mem_append,
      forall_mem_append, allowed_memberLeaves_iff ms]
    by_cases hk : k = "type"
    · rw [if_pos hk, if_pos hk, hk]
      simp
    · rw [if_neg hk, if_neg hk, allowed_leavesUnder_iff (some k) e]

end

def Leaf.RedactedTo (l l' : Leaf) : Prop :=
  l'.key = l.key ∧ (l'.text = l.text ∨ l'.text = redactString computeContentHash l.text)

mutual

theorem leavesUnder_redactJSONTree (key : Option String) (v : Json) :
    Forall₂ (Leaf.RedactedTo computeContentHash) (leavesUnder key v)
      (leavesUnder key (redactJSONTree computeContentHash v)) := by
  cases v with
  | null | bool _ | num _ => exact .nil
  | str s => exact .cons ⟨rfl, .inr rfl⟩ .nil
  | arr elems => exact elemLeaves_redactElems elems
  | obj members => exact memberLeaves_redactMembers members

theorem elemLeaves_redactElems (elems : List Json) :
    Forall₂ (Leaf.RedactedTo computeContentHash) (elemLeaves elems)
      (elemLeaves (redactElems computeContentHash elems)) := by
  cases elems with
  | nil => exact .nil
  | cons e es => exact rel_append (leavesUnder_redactJSONTree none e) (elemLeaves_redactElems es)

theorem memberLeaves_redactMembers (members : List (String × Json)) :
    Forall₂ (Leaf.RedactedTo computeContentHash) (memberLeaves members)
      (memberLeaves (redactMembers computeContentHash members)) := by
  cases members with
  | nil => exact .nil
  | cons m ms =>
    refine rel_append ?_ (memberLeaves_redactMembers ms)
    split
    · exact forall₂_same.mpr fun _ _ => ⟨rfl, .inl rfl⟩
    · exact leavesUnder_redactJSONTree (some m.1) m.2

end
/-- No string is dropped, added or moved. -/
theorem leaves_redactJSONTree (v : Json) : Forall₂ (Leaf.RedactedTo computeContentHash) (leaves v)
    (leaves (redactJSONTree computeContentHash v)) :=
  leavesUnder_redactJSONTree computeContentHash none v

/-- What is logged for a field has the strings of the redacted value, or none. -/
theorem leaves_redactUnionField {τ : Type} {c : Codec τ} (hc : c.Faithful) {x : τ} {v j : Json}
    (hv : c.marshal x = some v)
    (hj : c.marshal (redactUnionField computeContentHash c x) = some j) :
    ∀ l ∈ leaves j, l.text = "" ∨ l ∈ leaves (redactJSONTree computeContentHash v) := by
  intro l hl
  rw [redactUnionField, hv] at hj
  dsimp only at hj
  cases hread : c.unmarshal (redactJSONTree computeContentHash v) with
  | none =>
    rw [hread] at hj
    exact .inl (hc.leaves_zero hj l hl)
  | some y =>
    rw [hread] at hj
    exact hc.leaves_unmarshal hread hj l hl

/-! ## Top theorem -/

/-- The strings left in the redacted value, and in whatever is logged for a field of any type that
is marshalled to this value. -/
theorem redacted_leaves_iff (v : Json) :
    ((∀ l ∈ leaves (redactJSONTree computeContentHash v), Allowed computeContentHash l) ∧
      ∀ (τ : Type) (c : Codec τ), c.Faithful → ∀ (x : τ) (j : Json), c.marshal x = some v →
        c.marshal (redactUnionField computeContentHash c x) = some j →
        ∀ l ∈ leaves j, Allowed computeContentHash l) ↔
      ∀ e ∈ typeValues v, ∀ l ∈ leavesUnder (some "type") e, Allowed computeContentHash l := by
  rw [← allowed_leavesUnder_iff computeContentHash none v]
  constructor
  · intro h
    exact h.1
  · intro h
    refine ⟨h, ?_⟩
    intro τ c hc x j hx hj l hl
    rcases leaves_redactUnionField computeContentHash hc hx hj l hl with hempty | hmem
    · exact .inl hempty
    · exact h l hmem

end

/-! ### A value that is not replaced -/

/-- The input of a tool call with a member `type` that is an object. -/
def nestedType : Json := .obj [("input", .obj [("type", .obj [("name", .str "Alice")])])]

/-- JSON values as their own type. -/
def treeCodec : Codec Json := ⟨some, some, .null⟩

theorem treeCodec_faithful : treeCodec.Faithful where
  leaves_unmarshal := by
    intro j x j' hx hj' l hl
    cases hx
    cases hj'
    exact .inr hl
  leaves_zero := by
    intro j hj l hl
    cases hj
    cases hl

/-- A hash of 16 digits. -/
def zeroHash : String → String := fun _ => "0000000000000000"

/-- The name is logged as it is. -/
theorem nested_type_is_logged :
    ¬ ((∀ l ∈ leaves (redactJSONTree zeroHash nestedType), Allowed zeroHash l) ∧
        ∀ (τ : Type) (c : Codec τ), c.Faithful → ∀ (x : τ) (j : Json),
          c.marshal x = some nestedType → c.marshal (redactUnionField zeroHash c x) = some j →
          ∀ l ∈ leaves j, Allowed zeroHash l) := by
  rintro ⟨-, h⟩
  have hleaves : ∀ l ∈ leaves (redactJSONTree zeroHash nestedType), Allowed zeroHash l :=
    h Json treeCodec treeCodec_faithful nestedType _ rfl rfl
  have hmem : (⟨some "name", "Alice"⟩ : Leaf) ∈ leaves (redactJSONTree zeroHash nestedType) := by
    simp [nestedType, redactJSONTree, redactMembers, leaves, leavesUnder, memberLeaves]
  rcases hleaves _ hmem with hempty | ⟨s, hs, htext⟩ | hkey
  · exact absurd hempty (by decide)
  · exact ne_redactString zeroHash (by decide) hs htext
  · exact absurd hkey (by decide)

end AgentRouter.Redaction
