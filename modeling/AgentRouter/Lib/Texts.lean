import Mathlib.Data.List.Forall2

/-!
# Texts: the texts inside of a value

`Texts κ α σ` says where the values of type `σ` hold texts of type `α`, each of a kind `κ`: `list`
is all of them in order, `map` replaces each one.  A value is made up of its shape, which is what
is left when all texts are replaced by the same one, and of its texts:

    map f x = map f y
      ↔  x and y have the same shape, and texts in the same place have the same image
      (map_eq_map_iff)

The texts of records, unions and lists are put together from those of their parts (`focus`, `pair`,
`either`, `optional`, `each`).
-/

namespace AgentRouter

open List

structure Texts (κ α σ : Type) [Inhabited α] where
  map : (κ → α → α) → σ → σ
  list : σ → List (κ × α)
  list_map : ∀ f x, list (map f x) = (list x).map fun p => (p.1, f p.1 p.2)
  map_map : ∀ f g x, map f (map g x) = map (fun k s => f k (g k s)) x
  ext : ∀ {x y}, map (fun _ _ => default) x = map (fun _ _ => default) y → list x = list y → x = y

namespace Texts

variable {κ α σ τ : Type} [Inhabited α]

/-- The same value apart from its texts. -/
def SameShape (t : Texts κ α σ) (x y : σ) : Prop :=
  t.map (fun _ _ => default) x = t.map (fun _ _ => default) y

/-! ## Lemmas -/

section

variable {t : Texts κ α σ} {x y : σ}

theorem sameShape_map (f : κ → α → α) (x : σ) : t.SameShape (t.map f x) x :=
  t.map_map (fun _ _ => default) f x

theorem SameShape.symm (h : t.SameShape x y) : t.SameShape y x := Eq.symm h

theorem SameShape.trans {z : σ} (h : t.SameShape x y) (h' : t.SameShape y z) : t.SameShape x z :=
  Eq.trans h h'

theorem SameShape.length_eq (h : t.SameShape x y) : (t.list x).length = (t.list y).length := by
  have hlist := congrArg (fun z => (t.list z).length) h
  simpa only [t.list_map, length_map] using hlist

theorem map_eq_map_iff (f : κ → α → α) :
    t.map f x = t.map f y ↔ t.SameShape x y ∧
        List.Forall₂ (fun p q => p.1 = q.1 ∧ f p.1 p.2 = f q.1 q.2) (t.list x) (t.list y) := by
  have hlists : t.list (t.map f x) = t.list (t.map f y) ↔
      List.Forall₂ (fun p q => p.1 = q.1 ∧ f p.1 p.2 = f q.1 q.2) (t.list x) (t.list y) := by
    rw [t.list_map, t.list_map, ← forall₂_eq_eq_eq, forall₂_map_left_iff, forall₂_map_right_iff]
    simp only [Prod.mk.injEq]
  constructor
  · intro h
    refine ⟨?_, hlists.mp (congrArg t.list h)⟩
    exact ((sameShape_map f x).symm.trans (congrArg _ h)).trans (sameShape_map f y)
  · rintro ⟨hshape, htexts⟩
    refine t.ext ?_ (hlists.mpr htexts)
    exact ((sameShape_map f x).trans hshape).trans (sameShape_map f y).symm

end

/-! ## Parts -/

/-- A text of its own. -/
def one (k : κ) : Texts κ α α where
  map f s := f k s
  list s := [(k, s)]
  list_map _ _ := rfl
  map_map _ _ _ := rfl
  ext := by
    intro x y _ h
    cases h
    rfl

def pair (t : Texts κ α σ) (u : Texts κ α τ) : Texts κ α (σ × τ) where
  map f x := (t.map f x.1, u.map f x.2)
  list x := t.list x.1 ++ u.list x.2
  list_map f x := by rw [t.list_map, u.list_map, List.map_append]
  map_map f g x := by rw [t.map_map, u.map_map]
  ext := by
    intro x y hshape hlist
    obtain ⟨hfst, hsnd⟩ := Prod.mk.inj hshape
    obtain ⟨hleft, hright⟩ := List.append_inj hlist (SameShape.length_eq (t := t) hfst)
    exact Prod.ext (t.ext hfst hleft) (u.ext hsnd hright)

/-- The texts of a part of a record; the part may be the whole in another form. -/
def focus (get : τ → σ) (put : τ → σ → τ) (get_put : ∀ x v, get (put x v) = v)
    (put_get : ∀ x, put x (get x) = x) (put_put : ∀ x v w, put (put x v) w = put x w)
    (t : Texts κ α σ) : Texts κ α τ where
  map f x := put x (t.map f (get x))
  list x := t.list (get x)
  list_map f x := by rw [get_put, t.list_map]
  map_map f g x := by rw [get_put, put_put, t.map_map]
  ext := by
    intro x y hshape hlist
    have hpart : get x = get y := by
      refine t.ext ?_ hlist
      have := congrArg get hshape
      rwa [get_put, get_put] at this
    have hrest := congrArg (fun z => put z (get x)) hshape
    rwa [put_put, put_put, put_get, hpart, put_get] at hrest

def each (t : Texts κ α σ) : Texts κ α (List σ) where
  map f xs := xs.map (t.map f)
  list xs := xs.flatMap t.list
  list_map f xs := by
    rw [List.flatMap_map, List.map_flatMap]
    simp only [t.list_map]
  map_map f g xs := by
    rw [List.map_map]
    exact List.map_congr_left fun x _ => t.map_map f g x
  ext := by
    intro xs ys hshape hlist
    induction xs generalizing ys with
    | nil =>
      rw [List.map_nil] at hshape
      exact (List.map_eq_nil_iff.mp hshape.symm).symm
    | cons x xs ih =>
      cases ys with
      | nil => cases hshape
      | cons y ys =>
        rw [List.map_cons, List.map_cons, List.cons.injEq] at hshape
        rw [List.flatMap_cons, List.flatMap_cons] at hlist
        obtain ⟨hhead, htail⟩ := List.append_inj hlist (SameShape.length_eq (t := t) hshape.1)
        rw [t.ext hshape.1 hhead, ih hshape.2 htail]

def either (t : Texts κ α σ) (u : Texts κ α τ) : Texts κ α (σ ⊕ τ) where
  map f x := x.map (t.map f) (u.map f)
  list x := x.elim t.list u.list
  list_map f x := by
    cases x with
    | inl x => exact t.list_map f x
    | inr x => exact u.list_map f x
  map_map f g x := by
    cases x with
    | inl x => exact congrArg Sum.inl (t.map_map f g x)
    | inr x => exact congrArg Sum.inr (u.map_map f g x)
  ext := by
    intro x y hshape hlist
    cases x with
    | inl x =>
      cases y with
      | inl y => exact congrArg Sum.inl (t.ext (Sum.inl.inj hshape) hlist)
      | inr y => cases hshape
    | inr x =>
      cases y with
      | inl y => cases hshape
      | inr y => exact congrArg Sum.inr (u.ext (Sum.inr.inj hshape) hlist)

def optional (t : Texts κ α σ) : Texts κ α (Option σ) where
  map f x := x.map (t.map f)
  list x := (x.map t.list).getD []
  list_map f x := by
    cases x with
    | none => rfl
    | some x => exact t.list_map f x
  map_map f g x := by
    cases x with
    | none => rfl
    | some x => exact congrArg some (t.map_map f g x)
  ext := by
    intro x y hshape hlist
    cases x with
    | none =>
      cases y with
      | none => rfl
      | some y => cases hshape
    | some x =>
      cases y with
      | none => cases hshape
      | some y => exact congrArg some (t.ext (Option.some.inj hshape) hlist)

end Texts

end AgentRouter
