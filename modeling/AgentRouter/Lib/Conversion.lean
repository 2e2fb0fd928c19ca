import AgentRouter.Lib.Results

/-!
# Conversion: sequences that are converted item by item

An item becomes any number of elements, or the conversion fails.  The result keeps the items if it
has, in order, an element for each item that holds something (`Conversion.Keeps`).  When an item
becomes at most one element that carries something, and this one carries what the item holds,
nothing else can take the place of an item that becomes none:

    the items are kept or the conversion fails
      ↔  some item is rejected, or no item that holds something is dropped   (keeps_or_fails_iff)
-/

namespace AgentRouter

open List Results

structure Conversion (α β ε : Type) where
  convert : α → Except ε (List β)
  /-- the item holds something. -/
  holds : α → Bool
  /-- the element carries what the item holds. -/
  carries : β → α → Prop

namespace Conversion

variable {α β ε : Type} (c : Conversion α β ε)

/-- All items, one after the other, up to the first that fails. -/
def convertAll (items : List α) : Except ε (List β) := (items.mapM c.convert).map List.flatten

def Keeps (items : List α) (out : List β) : Prop :=
  ∃ sub, sub.Sublist out ∧ List.Forall₂ (fun a b => c.carries b a) (items.filter c.holds) sub

/-- The element carries what some item can hold. -/
def Full (b : β) : Prop := ∃ a, c.holds a = true ∧ c.carries b a

/-- The items that become no element are those that are `dropped`. -/
structure Drops (dropped : α → Bool) : Prop where
  kept : ∀ {a : α} {out : List β}, c.convert a = .ok out → c.holds a = true → dropped a = false →
    ∃ b ∈ out, c.carries b a
  atMost : ∀ {a : α} {out sub : List β}, c.convert a = .ok out → sub.Sublist out → (∀ b ∈ sub, c.Full b) →
    sub.length ≤ if c.holds a = true ∧ dropped a = false then 1 else 0

variable {c}

theorem length_le_of_head {b : β} {rest sub : List β} {P : Prop} [Decidable P]
    (hsub : sub.Sublist (b :: rest)) (hfull : ∀ x ∈ sub, c.Full x)
    (hrest : ∀ x ∈ rest, ¬ c.Full x) (hb : c.Full b → P) : sub.length ≤ if P then 1 else 0 := by
  have hnil : ∀ l : List β, l.Sublist rest → (∀ x ∈ l, c.Full x) → l = [] := by
    intro l hl hfull
    rw [eq_nil_iff_forall_not_mem]
    intro x hx
    exact hrest x (hl.subset hx) (hfull x hx)
  rcases sublist_cons_iff.mp hsub with hsub | ⟨tail, rfl, htail⟩
  · rw [hnil sub hsub hfull]
    exact Nat.zero_le _
  · rw [hnil tail htail fun x hx => hfull x (mem_cons_of_mem b hx), if_pos (hb (hfull b mem_cons_self))]
    exact Nat.le_refl 1

variable {dropped : α → Bool} (h : c.Drops dropped)
include h

variable {items : List α}

theorem Drops.keeps {outs : List (List β)}
    (hall : List.Forall₂ (fun a out => c.convert a = .ok out) items outs)
    (hnone : ∀ a ∈ items, c.holds a = true → dropped a = false) : c.Keeps items outs.flatten := by
  induction hall with
  | nil => exact ⟨[], List.Sublist.refl _, .nil⟩
  | @cons a out items outs ha hrest ih =>
    obtain ⟨sub, hsub, hcarries⟩ := ih fun a' ha' => hnone a' (mem_cons_of_mem a ha')
    by_cases hfull : c.holds a = true
    · obtain ⟨b, hb, hcarry⟩ := h.kept ha hfull (hnone a mem_cons_self hfull)
      refine ⟨b :: sub, (singleton_sublist.mpr hb).append hsub, ?_⟩
      rw [filter_cons_of_pos hfull]
      exact .cons hcarry hcarries
    · refine ⟨sub, hsub.trans (sublist_append_right out _), ?_⟩
      rw [filter_cons_of_neg hfull]
      exact hcarries

theorem Drops.length_le {outs : List (List β)}
    (hall : List.Forall₂ (fun a out => c.convert a = .ok out) items outs) {sub : List β}
    (hsub : sub.Sublist outs.flatten) (hfull : ∀ b ∈ sub, c.Full b) :
    sub.length ≤ ((items.filter c.holds).filter fun a => !dropped a).length := by
  induction hall generalizing sub with
  | nil =>
    rw [flatten_nil, sublist_nil] at hsub
    rw [hsub]
    exact Nat.zero_le _
  | @cons a out items outs ha hrest ih =>
    rw [flatten_cons, sublist_append_iff] at hsub
    obtain ⟨front, rest, rfl, hfront, hback⟩ := hsub
    have hhead := h.atMost ha hfront fun b hb => hfull b (mem_append_left rest hb)
    have htail := ih hback fun b hb => hfull b (mem_append_right front hb)
    rw [length_append]
    by_cases hholds : c.holds a = true
    · rw [filter_cons_of_pos hholds]
      by_cases hdropped : dropped a = false
      · rw [if_pos ⟨hholds, hdropped⟩] at hhead
        rw [filter_cons_of_pos (by simp [hdropped]), length_cons]
        omega
      · rw [if_neg fun hno => hdropped hno.2] at hhead
        rw [filter_cons_of_neg (by simpa using hdropped)]
        omega
    · rw [if_neg fun hno => hholds hno.1] at hhead
      rw [filter_cons_of_neg hholds]
      omega

theorem Drops.keeps_iff {out : List β} (hok : c.convertAll items = .ok out) :
    c.Keeps items out ↔ ∀ a ∈ items, c.holds a = true → dropped a = false := by
  obtain ⟨outs, houts, rfl⟩ := map_eq_ok hok
  have hall := forall₂_of_mapM_eq_ok items houts
  constructor
  · rintro ⟨sub, hsub, hcarries⟩
    have hfull : ∀ b ∈ sub, c.Full b := by
      intro b hb
      obtain ⟨a, ha, hcarry⟩ := exists_of_forall₂ hcarries b hb
      exact ⟨a, (mem_filter.mp ha).2, hcarry⟩
    have hle := h.length_le hall hsub hfull
    rw [← hcarries.length_eq] at hle
    have heq : ((items.filter c.holds).filter fun a => !dropped a).length =
        (items.filter c.holds).length := Nat.le_antisymm (length_filter_le _ _) hle
    rw [length_filter_eq_length_iff] at heq
    intro a ha hholds
    simpa using heq a (mem_filter.mpr ⟨ha, hholds⟩)
  · exact h.keeps hall

omit h in
theorem convertAll_eq_ok_iff {rejected : α → Bool}
    (hrejected : ∀ a, rejected a = true ↔ ∃ e, c.convert a = .error e) (items : List α) :
    (∃ out, c.convertAll items = .ok out) ↔ ∀ a ∈ items, rejected a = false := by
  have hok : ∀ a, rejected a = false ↔ ∃ out, c.convert a = .ok out := by
    intro a
    rw [← Bool.not_eq_true, hrejected]
    cases c.convert a with
    | error e => simp
    | ok out => simp
  constructor
  · rintro ⟨out, hout⟩ a ha
    obtain ⟨outs, houts, -⟩ := map_eq_ok hout
    obtain ⟨out, -, hconvert⟩ := (mem_mapM houts).2 a ha
    exact (hok a).mpr ⟨out, hconvert⟩
  · intro hall
    obtain ⟨outs, houts⟩ : ∃ outs, items.mapM c.convert = .ok outs := by
      induction items with
      | nil => exact ⟨[], rfl⟩
      | cons a items ih =>
        obtain ⟨out, hout⟩ := (hok a).mp (hall a mem_cons_self)
        obtain ⟨outs, houts⟩ := ih fun a' ha' => hall a' (mem_cons_of_mem a ha')
        refine ⟨out :: outs, ?_⟩
        rw [mapM_cons, hout, houts]
        rfl
    refine ⟨outs.flatten, ?_⟩
    rw [convertAll, houts]
    rfl

theorem Drops.keeps_or_fails_iff {rejected : α → Bool}
    (hrejected : ∀ a, rejected a = true ↔ ∃ e, c.convert a = .error e) (items : List α) :
    (∀ out, c.convertAll items = .ok out → c.Keeps items out) ↔
      (∃ a ∈ items, rejected a = true) ∨ ∀ a ∈ items, c.holds a = true → dropped a = false := by
  have hok := convertAll_eq_ok_iff hrejected items
  constructor
  · intro hkeeps
    by_cases hany : ∃ a ∈ items, rejected a = true
    · exact .inl hany
    · obtain ⟨out, hout⟩ := hok.mpr fun a ha => by
        rw [← Bool.not_eq_true]
        exact fun hrej => hany ⟨a, ha, hrej⟩
      exact .inr ((h.keeps_iff hout).mp (hkeeps out hout))
  · rintro (⟨a, ha, hrej⟩ | hnone) out hout
    · have hno := hok.mp ⟨out, hout⟩ a ha
      rw [hrej] at hno
      cases hno
    · exact (h.keeps_iff hout).mpr hnone

end Conversion

end AgentRouter
