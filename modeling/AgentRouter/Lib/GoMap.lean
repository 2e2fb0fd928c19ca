import Mathlib.Data.List.AList
import Mathlib.Data.List.Nodup

/-!
# GoMap: Go maps and their iteration order

A map is an association list with distinct keys (`AList`).  A `range` loop over a
map visits its entries in an order the language leaves open, and may choose anew
each time: an `IterOrder` is one such choice, and a statement that quantifies over
it holds for every order.
-/

namespace AgentRouter

open List

/-- A Go `map[κ]α`. -/
abbrev GoMap (κ α : Type) : Type := AList fun _ : κ => α

/-- The order in which a `range` loop visits the entries of each map. -/
structure IterOrder (κ α : Type) where
  visit : GoMap κ α → List (κ × α)
  perm : ∀ m, (visit m).Perm (m.entries.map fun e => (e.1, e.2))

namespace GoMap

variable {κ α : Type}

/-- The order in which the entries are stored. -/
def storedOrder : IterOrder κ α := ⟨fun m => m.entries.map fun e => (e.1, e.2), fun _ => .rfl⟩

/-- `for _, x := range xs { m[key(x)] = x }`. -/
def setAll [DecidableEq κ] (key : α → κ) (m : GoMap κ α) (xs : List α) : GoMap κ α :=
  xs.foldl (fun m x => m.insert (key x) x) m

/-! ## Assignments in sequence -/

section

variable [DecidableEq κ]

/-- The value that the last assignment to the key leaves, if there is one. -/
def lastValue (k : κ) : List (κ × α) → Option α
  | [] => none
  | e :: es => (lastValue k es).or (if e.1 = k then some e.2 else none)

/-- `m[k] = v` for each pair, in order. -/
def setEach (m : GoMap κ α) (es : List (κ × α)) : GoMap κ α :=
  es.foldl (fun m e => m.insert e.1 e.2) m

/-- `delete(m, k)` for each key. -/
def deleteEach (m : GoMap κ α) (ks : List κ) : GoMap κ α := ks.foldl (fun m k => m.erase k) m

variable {m : GoMap κ α} {k : κ}

theorem lookup_of_lookup_erase {k' : κ} {a : α} (h : (m.erase k).lookup k' = some a) :
    m.lookup k' = some a := by
  by_cases hk : k' = k
  · subst hk
    rw [AList.lookup_erase] at h
    cases h
  · rwa [AList.lookup_erase_ne hk] at h

@[simp] theorem lastValue_nil (k : κ) : lastValue k ([] : List (κ × α)) = none := rfl

@[simp] theorem lastValue_append (k : κ) (xs ys : List (κ × α)) :
    lastValue k (xs ++ ys) = (lastValue k ys).or (lastValue k xs) := by
  induction xs with
  | nil => simp
  | cons x xs ih => rw [cons_append, lastValue, lastValue, ih, Option.or_assoc]

@[simp] theorem lastValue_singleton (k : κ) (e : κ × α) :
    lastValue k [e] = if e.1 = k then some e.2 else none := rfl

theorem lastValue_map {β : Type} (g : α → β) (k : κ) (es : List (κ × α)) :
    lastValue k (es.map fun e => (e.1, g e.2)) = (lastValue k es).map g := by
  induction es with
  | nil => rfl
  | cons e es ih =>
    rw [map_cons, lastValue, lastValue, ih]
    cases lastValue k es with
    | some v => rfl
    | none =>
      by_cases h : e.1 = k
      · simp [h]
      · simp [h]

theorem lastValue_map_key {κ' : Type} [DecidableEq κ'] {g : κ → κ'} (hg : Function.Injective g)
    (k : κ) (es : List (κ × α)) : lastValue (g k) (es.map fun e => (g e.1, e.2)) = lastValue k es := by
  induction es with
  | nil => rfl
  | cons e es ih =>
    rw [map_cons, lastValue, lastValue, ih]
    by_cases h : e.1 = k
    · simp [h]
    · have hne : g e.1 ≠ g k := fun he => h (hg he)
      simp [h, hne]

theorem lastValue_filter {p : κ × α → Bool} (hp : ∀ v, p (k, v) = true) (es : List (κ × α)) :
    lastValue k (es.filter p) = lastValue k es := by
  induction es with
  | nil => rfl
  | cons e es ih =>
    rw [lastValue, filter_cons]
    by_cases hk : e.1 = k
    · obtain ⟨k', v⟩ := e
      subst hk
      rw [if_pos (hp v), lastValue, ih]
    · rw [if_neg hk, Option.or_none]
      split
      · rw [lastValue, if_neg hk, Option.or_none, ih]
      · exact ih

variable {es : List (κ × α)}

theorem lastValue_eq_none_iff : lastValue k es = none ↔ k ∉ es.map Prod.fst := by
  induction es with
  | nil => simp
  | cons e es ih =>
    rw [lastValue, Option.or_eq_none_iff, ih, and_comm]
    simp [eq_comm]

theorem lastValue_ne_none_iff : lastValue k es ≠ none ↔ k ∈ es.map Prod.fst := by
  rw [ne_eq, lastValue_eq_none_iff, not_not]

theorem mem_of_lastValue {v : α} (h : lastValue k es = some v) : (k, v) ∈ es := by
  induction es with
  | nil => cases h
  | cons e es ih =>
    rw [lastValue, Option.or_eq_some_iff] at h
    rcases h with h | ⟨-, h⟩
    · exact mem_cons_of_mem _ (ih h)
    · split at h
      next hk =>
        cases h
        subst hk
        exact mem_cons_self
      · cases h

theorem lookup_setEach (k : κ) (m : GoMap κ α) (es : List (κ × α)) :
    (setEach m es).lookup k = (lastValue k es).or (m.lookup k) := by
  unfold setEach
  induction es generalizing m with
  | nil => rfl
  | cons e es ih =>
    rw [foldl_cons, ih, lastValue, Option.or_assoc]
    by_cases h : e.1 = k
    · subst h
      rw [AList.lookup_insert, if_pos rfl]
      rfl
    · rw [AList.lookup_insert_ne (Ne.symm h), if_neg h]
      rfl

theorem lookup_setAll (key : α → κ) (k : κ) (m : GoMap κ α) (xs : List α) :
    (setAll key m xs).lookup k = (lastValue k (xs.map fun x => (key x, x))).or (m.lookup k) := by
  rw [← lookup_setEach]
  unfold setAll setEach
  rw [foldl_map]

variable {xs : List α} {key : α → κ}

theorem lookup_setAll_of_mem (h : (xs.map key).Nodup) {x : α} (hx : x ∈ xs) :
    (setAll key m xs).lookup (key x) = some x := by
  rw [lookup_setAll]
  cases hlast : lastValue (key x) (xs.map fun x => (key x, x)) with
  | none =>
    have hnone := lastValue_eq_none_iff.mp hlast
    rw [map_map] at hnone
    exact absurd (mem_map_of_mem hx) hnone
  | some y =>
    obtain ⟨y', hy', heq⟩ := mem_map.mp (mem_of_lastValue hlast)
    obtain ⟨hkey, rfl⟩ := Prod.mk.inj heq
    rw [inj_on_of_nodup_map h hy' hx hkey]
    rfl

theorem mem_setAll_empty (h : k ∈ setAll key ∅ xs) : ∃ x ∈ xs, key x = k := by
  rw [← AList.lookup_isSome, lookup_setAll, AList.lookup_empty, Option.or_none, Option.isSome_iff_exists] at h
  obtain ⟨x, hx⟩ := h
  obtain ⟨y, hy, heq⟩ := mem_map.mp (mem_of_lastValue hx)
  exact ⟨y, hy, (Prod.mk.inj heq).1⟩

theorem mem_setAll_of_mem (key : α → κ) {x : α} (hx : x ∈ xs) : key x ∈ setAll key m xs := by
  have hne : lastValue (key x) (xs.map fun x => (key x, x)) ≠ none := by
    rw [Ne, lastValue_eq_none_iff, map_map, not_not]
    exact mem_map_of_mem hx
  obtain ⟨y, hy⟩ := Option.ne_none_iff_exists'.mp hne
  rw [← AList.lookup_isSome, lookup_setAll, hy]
  rfl

theorem perm_keys_setAll (h : (xs.map key).Nodup) : (setAll key ∅ xs).keys.Perm (xs.map key) := by
  rw [perm_ext_iff_of_nodup (AList.keys_nodup _) h]
  intro k
  rw [mem_map]
  constructor
  · exact mem_setAll_empty
  · rintro ⟨x, hx, rfl⟩
    exact mem_setAll_of_mem key hx

theorem lookup_deleteEach (k : κ) (m : GoMap κ α) (ks : List κ) :
    (deleteEach m ks).lookup k = if k ∈ ks then none else m.lookup k := by
  unfold deleteEach
  induction ks generalizing m with
  | nil => simp
  | cons x ks ih =>
    rw [foldl_cons, ih]
    by_cases h : k = x
    · subst h
      simp
    · simp [h, AList.lookup_erase_ne h]

end

end GoMap

/-! ## Loops over a map -/

section

variable {κ α σ β : Type} {step : σ → κ × α → σ} {view : σ → β} {k : κ}

theorem foldl_view_of_forall_ne (hne : ∀ s e, e.1 ≠ k → view (step s e) = view s)
    (l : List (κ × α)) (s : σ) (hl : k ∉ l.map Prod.fst) : view (l.foldl step s) = view s := by
  induction l generalizing s with
  | nil => rfl
  | cons e l ih =>
    rw [map_cons, mem_cons, not_or] at hl
    rw [foldl_cons, ih _ hl.2, hne s e (Ne.symm hl.1)]

variable (ord : IterOrder κ α)

section

variable (m : GoMap κ α)

theorem IterOrder.mem_visit [DecidableEq κ] (e : κ × α) : e ∈ ord.visit m ↔ m.lookup e.1 = some e.2 := by
  rw [(ord.perm m).mem_iff, ← Option.mem_def, AList.mem_lookup_iff, mem_map]
  constructor
  · rintro ⟨x, hx, rfl⟩
    exact hx
  · intro h
    exact ⟨⟨e.1, e.2⟩, h, rfl⟩

theorem IterOrder.mem_keys_visit [DecidableEq κ] (k : κ) : k ∈ (ord.visit m).map Prod.fst ↔ k ∈ m := by
  rw [← AList.lookup_isSome, Option.isSome_iff_exists]
  simp [ord.mem_visit]

theorem IterOrder.nodup_visit : ((ord.visit m).map Prod.fst).Nodup := by
  rw [((ord.perm m).map Prod.fst).nodup_iff, map_map]
  exact m.nodupKeys

theorem IterOrder.lastValue_visit [DecidableEq κ] (k : κ) : GoMap.lastValue k (ord.visit m) = m.lookup k := by
  cases hlast : GoMap.lastValue k (ord.visit m) with
  | some v => exact ((ord.mem_visit m (k, v)).mp (GoMap.mem_of_lastValue hlast)).symm
  | none =>
    rw [GoMap.lastValue_eq_none_iff] at hlast
    cases hk : m.lookup k with
    | none => rfl
    | some v =>
      exact absurd (mem_map_of_mem ((ord.mem_visit m (k, v)).mpr hk)) hlast

end

theorem IterOrder.visit_of_lookup [DecidableEq κ] {m : GoMap κ α} {v : α} (h : m.lookup k = some v) :
    ∃ l₁ l₂, ord.visit m = l₁ ++ (k, v) :: l₂ ∧ k ∉ l₁.map Prod.fst ∧ k ∉ l₂.map Prod.fst := by
  have hnd := ord.nodup_visit m
  obtain ⟨l₁, l₂, hl⟩ := append_of_mem ((ord.mem_visit m (k, v)).mpr h)
  rw [hl, map_append] at hnd
  exact ⟨l₁, l₂, hl, fun hmem => disjoint_of_nodup_append hnd hmem mem_cons_self,
    (nodup_cons.mp hnd.of_append_right).1⟩

theorem IterOrder.filter_visit [DecidableEq κ] (m : GoMap κ α) (k : κ) :
    (ord.visit m).filter (fun e => e.1 = k) = ((m.lookup k).map fun v => (k, v)).toList := by
  cases hk : m.lookup k with
  | none =>
    show _ = []
    rw [filter_eq_nil_iff]
    intro e he hek
    have hlookup := (ord.mem_visit m e).mp he
    rw [of_decide_eq_true hek, hk] at hlookup
    cases hlookup
  | some v =>
    obtain ⟨l₁, l₂, hl, h₁, h₂⟩ := ord.visit_of_lookup hk
    have hout : ∀ l : List (κ × α), k ∉ l.map Prod.fst → l.filter (fun e => e.1 = k) = [] := by
      intro l h
      rw [filter_eq_nil_iff]
      intro e he hek
      exact h (mem_map.mpr ⟨e, he, of_decide_eq_true hek⟩)
    rw [hl, filter_append, filter_cons_of_pos (by simp), hout l₁ h₁, hout l₂ h₂]
    rfl

/-- The order that comes to one key last. -/
def IterOrder.visitLast [DecidableEq κ] (k : κ) : IterOrder κ α where
  visit m := (GoMap.storedOrder.visit m).filter (fun e => e.1 ≠ k) ++
    (GoMap.storedOrder.visit m).filter fun e => e.1 = k
  perm m := by
    have hperm := List.filter_append_perm (fun e : κ × α => decide (e.1 ≠ k)) (GoMap.storedOrder.visit m)
    have hnot (e : κ × α) : (!decide (e.1 ≠ k)) = decide (e.1 = k) := by simp
    simp only [hnot] at hperm
    exact hperm

theorem IterOrder.visit_visitLast [DecidableEq κ] {a : α} (h : m.lookup k = some a) :
    ∃ es, (IterOrder.visitLast k).visit m = es ++ [(k, a)] := by
  refine ⟨(GoMap.storedOrder.visit m).filter fun e => e.1 ≠ k, ?_⟩
  show _ ++ _ = _
  rw [IterOrder.filter_visit, h]
  rfl

/-- The order that comes to one key first. -/
def IterOrder.visitFirst [DecidableEq κ] (k : κ) : IterOrder κ α where
  visit m := (GoMap.storedOrder.visit m).filter (fun e => e.1 = k) ++
    (GoMap.storedOrder.visit m).filter fun e => e.1 ≠ k
  perm m := by
    have hperm := List.filter_append_perm (fun e : κ × α => decide (e.1 = k)) (GoMap.storedOrder.visit m)
    have hnot (e : κ × α) : (!decide (e.1 = k)) = decide (e.1 ≠ k) := by simp
    simp only [hnot] at hperm
    exact hperm

theorem IterOrder.visit_visitFirst [DecidableEq κ] {a : α} (h : m.lookup k = some a) :
    ∃ es, (IterOrder.visitFirst k).visit m = (k, a) :: es := by
  refine ⟨(GoMap.storedOrder.visit m).filter fun e => e.1 ≠ k, ?_⟩
  show _ ++ _ = _
  rw [IterOrder.filter_visit, h]
  rfl

/-- A loop over a map, seen at one key: the entry of the key acts once and the other
entries leave the view alone, so the order of the visit does not matter. -/
theorem IterOrder.foldl_view [DecidableEq κ] (m : GoMap κ α) (step : σ → κ × α → σ) (view : σ → β)
    (act : α → β → β) (hne : ∀ s e, e.1 ≠ k → view (step s e) = view s)
    (hself : ∀ s v, view (step s (k, v)) = act v (view s)) (s : σ) :
    view ((ord.visit m).foldl step s) = (m.lookup k).elim (view s) fun v => act v (view s) := by
  cases hk : m.lookup k with
  | none =>
    refine foldl_view_of_forall_ne hne _ s ?_
    intro hmem
    obtain ⟨e, he, rfl⟩ := mem_map.mp hmem
    rw [(ord.mem_visit m e).mp he] at hk
    cases hk
  | some v =>
    obtain ⟨l₁, l₂, hl, h₁, h₂⟩ := ord.visit_of_lookup hk
    rw [hl, foldl_append, foldl_cons, foldl_view_of_forall_ne hne _ _ h₂, hself,
      foldl_view_of_forall_ne hne _ _ h₁]
    rfl

end

end AgentRouter
