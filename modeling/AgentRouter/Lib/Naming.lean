import Mathlib.Data.List.Nodup
import Mathlib.Data.List.Pairwise

/-!
# Naming: entries of several owners under one set of names

Each owner has entries with names of its own.  Towards the outside an entry is exposed either
under its bare name, when an index says who owns that name, or under the name joined with its
owner.  A name that comes back from the outside is looked up in the index first and taken apart
otherwise.

    expose b n = some s           →  resolve s = some (b, n)   (resolve_of_expose)
    resolve s = some (b, n)       →  b's entry n is exposed   (expose_of_resolve)

The only entries that are not exposed are those whose joined name is someone's bare name.
-/

namespace AgentRouter.Naming

open List

variable {β ν : Type}

/-- The owners of the bare names, and how the name of an owner is joined with a name. -/
structure Scheme (β ν : Type) where
  index : ν → Option β
  join : β → ν → ν
  split : ν → Option (β × ν)

variable (s : Scheme β ν)

def expose [DecidableEq β] (b : β) (n : ν) : Option ν :=
  if s.index n = some b then some n
  else if (s.index (s.join b n)).isSome then none
  else some (s.join b n)

def resolve (name : ν) : Option (β × ν) :=
  match s.index name with
  | some b => some (b, name)
  | none => s.split name

/-- The entries of a family of owners. -/
def entries (family : List (β × List ν)) : List (β × ν) :=
  family.flatMap fun f => f.2.map fun n => (f.1, n)

/-! ## Lemmas -/

variable {s} {b : β} {n name : ν}

theorem expose_of_bare [DecidableEq β] (h : s.index n = some b) : expose s b n = some n := if_pos h

theorem expose_of_not_bare [DecidableEq β] (h : s.index n ≠ some b) :
    expose s b n = if (s.index (s.join b n)).isSome then none else some (s.join b n) := if_neg h

theorem resolve_of_expose [DecidableEq β] (hjoin : s.split (s.join b n) = some (b, n))
    (h : expose s b n = some name) : resolve s name = some (b, n) := by
  by_cases hbare : s.index n = some b
  · rw [expose_of_bare hbare] at h
    cases h
    simp only [resolve, hbare]
  · rw [expose_of_not_bare hbare] at h
    split at h
    · cases h
    next hnone =>
      cases h
      rw [Option.not_isSome_iff_eq_none] at hnone
      simp only [resolve, hnone, hjoin]

theorem expose_of_resolve [DecidableEq β]
    (hsplit : ∀ {b n}, s.split name = some (b, n) → name = s.join b n)
    (h : resolve s name = some (b, n)) : ∃ name', expose s b n = some name' := by
  unfold resolve at h
  by_cases hbare : s.index n = some b
  · exact ⟨n, expose_of_bare hbare⟩
  split at h
  next c hindex =>
    cases h
    exact absurd hindex hbare
  next hnone =>
    obtain rfl := hsplit h
    refine ⟨s.join b n, ?_⟩
    rw [expose_of_not_bare hbare, hnone]
    rfl

variable {family : List (β × List ν)}

theorem mem_entries : (b, n) ∈ entries family ↔ ∃ names, (b, names) ∈ family ∧ n ∈ names := by
  simp only [entries, mem_flatMap, mem_map, Prod.mk.injEq, Prod.exists]
  constructor
  · rintro ⟨b', names, hf, n', hn, rfl, rfl⟩
    exact ⟨names, hf, hn⟩
  · rintro ⟨names, hf, hn⟩
    exact ⟨b, names, hf, n, hn, rfl, rfl⟩

theorem nodup_entries (howners : (family.map Prod.fst).Nodup) (hnames : ∀ f ∈ family, f.2.Nodup) :
    (entries family).Nodup := by
  unfold entries
  rw [nodup_flatMap]
  constructor
  · intro f hf
    exact (hnames f hf).map fun _ _ heq => (Prod.mk.inj heq).2
  · rw [List.Nodup, pairwise_map] at howners
    refine howners.imp fun {f g} hne => ?_
    intro e he he'
    obtain ⟨_, _, rfl⟩ := mem_map.mp he
    obtain ⟨_, _, heq⟩ := mem_map.mp he'
    exact hne (Prod.mk.inj heq).1.symm

end AgentRouter.Naming
