import AgentRouter.Lib.GoMap

/-!
# Ownership: objects under names, each with an owner

A store keeps objects under keys, and an object may have an owner.  `of w k` says that `k` is
one of the keys that `w` uses.  As long as every owned object lies under a key of its owner
(`Named`), and no key is used by two owners, a write at a key of `w` leaves the objects of all
other owners alone:

    Named m  →  of w k  →  KeepsOthers w m (m.insert k a)   (keepsOthers_insert)
    Named m  →  of w k  →  KeepsOthers w m (m.erase k)   (keepsOthers_erase)
-/

namespace AgentRouter.Ownership

variable {κ α ω : Type} [DecidableEq κ] {owner : α → Option ω} {of : ω → κ → Prop}

/-- Every owned object lies under a key of its owner. -/
def Named (owner : α → Option ω) (of : ω → κ → Prop) (m : GoMap κ α) : Prop :=
  ∀ k a w, m.lookup k = some a → owner a = some w → of w k

/-- The objects of every owner but `w` are as they were. -/
def KeepsOthers (owner : α → Option ω) (w : ω) (m m' : GoMap κ α) : Prop :=
  ∀ k a w', m.lookup k = some a → owner a = some w' → w' ≠ w → m'.lookup k = some a

theorem KeepsOthers.refl (w : ω) (m : GoMap κ α) : KeepsOthers owner w m m :=
  fun _ _ _ h _ _ => h

theorem KeepsOthers.trans {w : ω} {m m' m'' : GoMap κ α} (h : KeepsOthers owner w m m')
    (h' : KeepsOthers owner w m' m'') : KeepsOthers owner w m m'' :=
  fun k a w' hk hw hne => h' k a w' (h k a w' hk hw hne) hw hne

theorem named_empty : Named owner of (∅ : GoMap κ α) := by
  intro k a w h
  cases h

variable {m : GoMap κ α}

theorem Named.insert (hm : Named owner of m) {k : κ} {a : α} (ha : ∀ w, owner a = some w → of w k) :
    Named owner of (m.insert k a) := by
  intro k' a' w hk' hw
  by_cases h : k' = k
  · subst h
    rw [AList.lookup_insert] at hk'
    cases hk'
    exact ha w hw
  · rw [AList.lookup_insert_ne h] at hk'
    exact hm k' a' w hk' hw

theorem Named.erase (hm : Named owner of m) (k : κ) : Named owner of (m.erase k) := by
  intro k' a' w hk' hw
  exact hm k' a' w (GoMap.lookup_of_lookup_erase hk') hw

variable (hunique : ∀ w w' k, of w k → of w' k → w = w')
include hunique

variable (hm : Named owner of m)

include hm

theorem key_ne {w w' : ω} {k k' : κ} {a : α} (hk : of w k)
    (hk' : m.lookup k' = some a) (hw' : owner a = some w') (hne : w' ≠ w) : k' ≠ k := by
  rintro rfl
  exact hne (hunique w' w k' (hm k' a w' hk' hw') hk)

theorem keepsOthers_insert {w : ω} {k : κ} (a : α) (hk : of w k) : KeepsOthers owner w m (m.insert k a) := by
  intro k' a' w' hk' hw' hne
  rw [AList.lookup_insert_ne (key_ne hunique hm hk hk' hw' hne)]
  exact hk'

theorem keepsOthers_erase {w : ω} {k : κ} (hk : of w k) : KeepsOthers owner w m (m.erase k) := by
  intro k' a' w' hk' hw' hne
  rw [AList.lookup_erase_ne (key_ne hunique hm hk hk' hw' hne)]
  exact hk'

end AgentRouter.Ownership
