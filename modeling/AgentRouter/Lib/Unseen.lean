import Mathlib.Data.List.Nodup

/-!
# Unseen: collecting what has not been seen

A loop that keeps a set of the keys it has met, skips an item whose key is in it and
else appends the item.  A test that singles out a key finds the first item of the key:

    among the collected items as among all   (find?_addAll)
-/

namespace AgentRouter.Unseen

open List

variable {α κ : Type} [DecidableEq κ] (key : α → κ)

/-- Append an item unless its key has been seen. -/
def add (acc : List α) (a : α) : List α := if key a ∈ acc.map key then acc else acc ++ [a]

def addAll (acc as : List α) : List α := as.foldl (add key) acc

variable {key}

theorem addAll_nil (acc : List α) : addAll key acc [] = acc := rfl

variable {a : α} {acc as : List α}

theorem addAll_cons_of_mem (h : key a ∈ acc.map key) : addAll key acc (a :: as) = addAll key acc as := by
  rw [addAll, foldl_cons, add, if_pos h, addAll]

theorem addAll_cons_of_notMem (h : key a ∉ acc.map key) :
    addAll key acc (a :: as) = addAll key (acc ++ [a]) as := by
  rw [addAll, foldl_cons, add, if_neg h, addAll]

theorem addAll_concat (acc as : List α) (a : α) :
    addAll key acc (as ++ [a]) = add key (addAll key acc as) a :=
  foldl_append

theorem mem_of_mem_addAll (h : a ∈ addAll key acc as) : a ∈ acc ∨ a ∈ as := by
  induction as generalizing acc with
  | nil => exact .inl h
  | cons a' as ih =>
    by_cases hseen : key a' ∈ acc.map key
    · rw [addAll_cons_of_mem hseen] at h
      exact (ih h).imp_right (mem_cons_of_mem _)
    · rw [addAll_cons_of_notMem hseen] at h
      rcases ih h with h | h
      · rcases mem_append.mp h with h | h
        · exact .inl h
        · exact .inr (mem_cons.mpr (.inl (mem_singleton.mp h)))
      · exact .inr (mem_cons_of_mem _ h)

variable (key) in
theorem exists_addAll_eq_append (acc as : List α) : ∃ rest, addAll key acc as = acc ++ rest := by
  induction as generalizing acc with
  | nil => exact ⟨[], (append_nil acc).symm⟩
  | cons a as ih =>
    by_cases hseen : key a ∈ acc.map key
    · rw [addAll_cons_of_mem hseen]
      exact ih acc
    · rw [addAll_cons_of_notMem hseen]
      obtain ⟨rest, hrest⟩ := ih (acc ++ [a])
      exact ⟨a :: rest, by rw [hrest, append_assoc, singleton_append]⟩

theorem mem_keys_addAll (acc : List α) {as : List α} (h : a ∈ as) : key a ∈ (addAll key acc as).map key := by
  induction as generalizing acc with
  | nil => cases h
  | cons a' as ih =>
    by_cases hseen : key a' ∈ acc.map key
    · rw [addAll_cons_of_mem hseen]
      rcases mem_cons.mp h with rfl | h
      · obtain ⟨rest, hrest⟩ := exists_addAll_eq_append key acc as
        rw [hrest, map_append]
        exact mem_append_left _ hseen
      · exact ih acc h
    · rw [addAll_cons_of_notMem hseen]
      rcases mem_cons.mp h with rfl | h
      · obtain ⟨rest, hrest⟩ := exists_addAll_eq_append key (acc ++ [a]) as
        rw [hrest]
        simp
      · exact ih _ h

theorem nodup_keys_addAll {acc : List α} (as : List α) (h : (acc.map key).Nodup) :
    ((addAll key acc as).map key).Nodup := by
  induction as generalizing acc with
  | nil => exact h
  | cons a as ih =>
    by_cases hseen : key a ∈ acc.map key
    · rw [addAll_cons_of_mem hseen]
      exact ih h
    · rw [addAll_cons_of_notMem hseen]
      refine ih ?_
      rw [map_append, map_singleton, ← concat_eq_append, nodup_concat]
      exact ⟨hseen, h⟩

theorem mem_addAll_nil {as : List α} (hkey : ∀ a ∈ as, ∀ b ∈ as, key a = key b → a = b) (h : a ∈ as) :
    a ∈ addAll key [] as := by
  have hkeys : key a ∈ (addAll key [] as).map key := mem_keys_addAll [] h
  obtain ⟨b, hb, hab⟩ := mem_map.mp hkeys
  have hmem : b ∈ as := (mem_of_mem_addAll hb).resolve_left not_mem_nil
  rw [← hkey b hmem a h hab]
  exact hb

theorem find?_addAll {p : α → Bool} {k : κ} (hp : ∀ a ∈ acc ++ as, p a = true ↔ key a = k) :
    (addAll key acc as).find? p = (acc ++ as).find? p := by
  induction as generalizing acc with
  | nil => rw [addAll_nil, append_nil]
  | cons a as ih =>
    by_cases hseen : key a ∈ acc.map key
    · have hsub : ∀ a' ∈ acc ++ as, a' ∈ acc ++ a :: as := by
        intro a' ha'
        rcases mem_append.mp ha' with ha' | ha'
        · exact mem_append_left _ ha'
        · exact mem_append_right _ (mem_cons_of_mem _ ha')
      rw [addAll_cons_of_mem hseen, ih fun a' ha' => hp a' (hsub a' ha'), find?_append, find?_append]
      by_cases hpa : p a = true
      · -- an item that was seen before passes the test as well
        obtain ⟨a', ha', hkey⟩ := mem_map.mp hseen
        have hk : key a = k := (hp a (by simp)).mp hpa
        have hpa' : p a' = true := (hp a' (mem_append_left _ ha')).mpr (hkey.trans hk)
        obtain ⟨x, hx⟩ := Option.isSome_iff_exists.mp (find?_isSome.mpr ⟨a', ha', hpa'⟩)
        rw [hx]
        rfl
      · rw [find?_cons_of_neg hpa]
    · have hassoc : acc ++ [a] ++ as = acc ++ a :: as := by simp
      rw [addAll_cons_of_notMem hseen, ih (by rw [hassoc]; exact hp), hassoc]

end AgentRouter.Unseen
