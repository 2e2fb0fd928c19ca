import Mathlib.Data.Set.Function
import Mathlib.Data.List.MinMax
import Mathlib.Data.List.Count
import Mathlib.Data.List.Nodup
import Mathlib.Order.Nat

/-!
# Forest: labelled forests, their merge and their lookup

A node has a label, a payload and children.  The meaning of a forest is the set of its
label paths: those of all nodes, and those of the nodes whose payload is kept by some
test.  `merge` puts siblings together whose labels have the same key, and does the
same with their children; it changes neither set as long as the key tells the labels
of the forest apart:

    p ∈ paths keep (merge κ combine ts) ↔ p ∈ paths keep ts   (mem_paths_merge)

Where payloads are put together by keeping the first value, the merge also keeps the
first value at each path (firstAt_merge).  Children are merged only when two trees with
children meet; `Merges` says when the merge has each path once (nodePaths_mergeTo_iff).

`descend` looks a list of labels up, level by level, and takes the default label
where the exact one is not there.
-/

namespace AgentRouter.Forest

open List

/-- A node of a forest. -/
structure Tree (ℓ π : Type) where
  label : ℓ
  payload : π
  children : List (Tree ℓ π)

variable {ℓ π κ : Type}

/-! ## Paths -/

mutual
/-- The label paths from the node to the nodes below it whose payload is kept. -/
def Tree.paths (keep : π → Bool) : Tree ℓ π → List (List ℓ)
  | ⟨l, x, ts⟩ => ((if keep x then [[]] else []) ++ paths keep ts).map (l :: ·)
def paths (keep : π → Bool) : List (Tree ℓ π) → List (List ℓ)
  | [] => []
  | t :: ts => t.paths keep ++ paths keep ts
end

/-- The paths of all nodes. -/
def nodePaths (ts : List (Tree ℓ π)) : List (List ℓ) := paths (fun _ => true) ts

variable {ts : List (Tree ℓ π)} {keep : π → Bool} {p : List ℓ}

theorem mem_paths : p ∈ paths keep ts ↔ ∃ t ∈ ts, p ∈ t.paths keep := by
  induction ts with
  | nil => simp [paths]
  | cons t ts ih =>
    rw [paths, mem_append, ih]
    simp

variable {l : ℓ} {t : Tree ℓ π}

theorem Tree.cons_mem_paths :
    l :: p ∈ t.paths keep ↔
      t.label = l ∧ (p = [] ∧ keep t.payload = true ∨ p ∈ Forest.paths keep t.children) := by
  rcases t with ⟨l', x, ts⟩
  rw [Tree.paths]
  by_cases hx : keep x = true
  · simp [hx, ← and_or_left, and_comm, eq_comm]
  · simp [hx, and_comm, eq_comm]

theorem cons_mem_paths :
    l :: p ∈ paths keep ts ↔ ∃ t ∈ ts, t.label = l ∧
      (p = [] ∧ keep t.payload = true ∨ p ∈ paths keep t.children) := by
  simp only [mem_paths, Tree.cons_mem_paths]

@[simp] theorem Tree.nil_notMem_paths : [] ∉ t.paths keep := by
  rcases t with ⟨l, x, cs⟩
  rw [Tree.paths]
  simp

@[simp] theorem nil_notMem_paths : [] ∉ paths keep ts := by
  rw [mem_paths]
  rintro ⟨t, -, h⟩
  exact Tree.nil_notMem_paths h

@[simp] theorem mem_paths_cons : p ∈ paths keep (t :: ts) ↔ p ∈ t.paths keep ∨ p ∈ paths keep ts := by
  rw [paths, mem_append]

@[simp] theorem notMem_paths_nil : p ∉ paths keep ([] : List (Tree ℓ π)) := by
  simp [paths]

theorem paths_append (ts us : List (Tree ℓ π)) : paths keep (ts ++ us) = paths keep ts ++ paths keep us := by
  induction ts with
  | nil => rfl
  | cons t ts ih => rw [cons_append, paths, paths, ih, append_assoc]

@[simp] theorem mem_paths_append {us : List (Tree ℓ π)} :
    p ∈ paths keep (ts ++ us) ↔ p ∈ paths keep ts ∨ p ∈ paths keep us := by
  rw [paths_append, mem_append]

variable {tss : List (List (Tree ℓ π))}

theorem mem_paths_flatten : p ∈ paths keep tss.flatten ↔ ∃ ts ∈ tss, p ∈ paths keep ts := by
  simp only [mem_paths, mem_flatten]
  constructor
  · rintro ⟨t, ⟨ts, hts, ht⟩, hp⟩
    exact ⟨ts, hts, t, ht, hp⟩
  · rintro ⟨ts, hts, t, ht, hp⟩
    exact ⟨t, ⟨ts, hts, ht⟩, hp⟩

theorem nodePaths_of_append (p q : List ℓ) (h : p ++ q ∈ paths keep ts) (hp : p ≠ []) : p ∈ nodePaths ts := by
  induction p generalizing ts with
  | nil => exact absurd rfl hp
  | cons l p ih =>
    obtain ⟨t, ht, hl, hrest⟩ := cons_mem_paths.mp h
    refine cons_mem_paths.mpr ⟨t, ht, hl, ?_⟩
    by_cases hnil : p = []
    · exact .inl ⟨hnil, rfl⟩
    · rcases hrest with ⟨hpq, -⟩ | hrest
      · exact absurd (append_eq_nil_iff.mp hpq).1 hnil
      · exact .inr (ih hrest hnil)

/-- All labels of the forest are in the set. -/
def LabelsIn (S : Set ℓ) (ts : List (Tree ℓ π)) : Prop := ∀ p ∈ nodePaths ts, ∀ l ∈ p, l ∈ S

variable {S : Set ℓ}

theorem labelsIn_iff : LabelsIn S ts ↔ ∀ t ∈ ts, t.label ∈ S ∧ LabelsIn S t.children := by
  constructor
  · intro h t ht
    constructor
    · exact h [t.label] (cons_mem_paths.mpr ⟨t, ht, rfl, .inl ⟨rfl, rfl⟩⟩) _ mem_cons_self
    · intro p hp l hl
      exact h (t.label :: p) (cons_mem_paths.mpr ⟨t, ht, rfl, .inr hp⟩) l (mem_cons_of_mem _ hl)
  · intro h p hp l hl
    cases p with
    | nil => cases hl
    | cons l' p =>
      obtain ⟨t, ht, rfl, hrest⟩ := cons_mem_paths.mp hp
      rcases mem_cons.mp hl with rfl | hl
      · exact (h t ht).1
      · rcases hrest with ⟨rfl, -⟩ | hrest
        · cases hl
        · exact (h t ht).2 p hrest l hl

theorem labelsIn_append {us : List (Tree ℓ π)} : LabelsIn S (ts ++ us) ↔ LabelsIn S ts ∧ LabelsIn S us := by
  simp only [LabelsIn, nodePaths, mem_paths_append, or_imp, forall_and]

theorem labelsIn_flatten : LabelsIn S tss.flatten ↔ ∀ ts ∈ tss, LabelsIn S ts := by
  constructor
  · intro h ts hts p hp
    exact h p (mem_paths_flatten.mpr ⟨ts, hts, hp⟩)
  · intro h p hp
    obtain ⟨ts, hts, hp⟩ := mem_paths_flatten.mp hp
    exact h ts hts p hp

@[simp] theorem labelsIn_nil : LabelsIn S ([] : List (Tree ℓ π)) := by
  intro p hp
  exact absurd hp notMem_paths_nil

@[simp] theorem labelsIn_singleton : LabelsIn S [t] ↔ t.label ∈ S ∧ LabelsIn S t.children := by
  rw [labelsIn_iff]
  simp

/-! ## Merging -/

section Merge

variable [DecidableEq κ] (key : ℓ → κ) (combine : π → π → π)

/-- Add a tree to merged siblings: behind them, or into the one with its key. -/
def insertMerging (mergeChildren : List (Tree ℓ π) → List (Tree ℓ π)) (d : Tree ℓ π) :
    List (Tree ℓ π) → List (Tree ℓ π)
  | [] => [d]
  | e :: es =>
    if key e.label = key d.label then
      ⟨e.label, combine e.payload d.payload,
        if d.children.isEmpty then e.children else mergeChildren (e.children ++ d.children)⟩ :: es
    else e :: insertMerging mergeChildren d es

/-- The merge down to a depth. -/
def mergeTo : Nat → List (Tree ℓ π) → List (Tree ℓ π)
  | 0, ts => ts
  | n + 1, ts => ts.foldl (fun acc d => insertMerging key combine (mergeTo n) d acc) []

/-- The length of the longest path. -/
def height (ts : List (Tree ℓ π)) : Nat := ((nodePaths ts).map List.length).foldr max 0

/-- The merge at all depths. -/
def merge (ts : List (Tree ℓ π)) : List (Tree ℓ π) := mergeTo key combine (height ts) ts

variable {key combine} {mc : List (Tree ℓ π) → List (Tree ℓ π)} {d : Tree ℓ π}
  {acc : List (Tree ℓ π)} {n : Nat}

/-! ### One group at a time

The merge puts each tree into the group of its key, and the groups do not depend on each other. -/

variable (combine mc) in
/-- Two trees with one key as one. -/
def joined (e d : Tree ℓ π) : Tree ℓ π :=
  ⟨e.label, combine e.payload d.payload,
    if d.children.isEmpty then e.children else mc (e.children ++ d.children)⟩

variable (combine mc) in
/-- All trees of a group as one. -/
def group : List (Tree ℓ π) → List (Tree ℓ π)
  | [] => []
  | t :: ts => [ts.foldl (joined combine mc) t]

variable (g : List (Tree ℓ π))

theorem group_concat :
    group combine mc (g ++ [d]) = match group combine mc g with
      | [] => [d]
      | e :: es => joined combine mc e d :: es := by
  cases g with
  | nil => rfl
  | cons t g =>
    rw [cons_append, group, foldl_append]
    rfl

theorem filter_insertMerging (k : κ) (acc : List (Tree ℓ π)) :
    (insertMerging key combine mc d acc).filter (fun t => key t.label = k) =
      if key d.label = k then
        match acc.filter fun t => key t.label = k with
        | [] => [d]
        | e :: es => joined combine mc e d :: es
      else acc.filter fun t => key t.label = k := by
  induction acc with
  | nil => simp [insertMerging, filter_cons]
  | cons e es ih =>
    rw [insertMerging]
    by_cases hk : key e.label = key d.label
    · rw [if_pos hk, filter_cons, filter_cons]
      by_cases hd : key d.label = k
      · simp [hk, hd, joined]
      · simp [hk, hd]
    · rw [if_neg hk, filter_cons, ih, filter_cons]
      by_cases he : key e.label = k
      · simp [he, show key d.label ≠ k from fun hd => hk (he.trans hd.symm)]
      · simp [he]

theorem filter_foldl_insertMerging (k : κ) (ts : List (Tree ℓ π)) :
    (ts.foldl (fun acc d => insertMerging key combine mc d acc) []).filter
        (fun t => key t.label = k) = group combine mc (ts.filter fun t => key t.label = k) := by
  induction ts using List.reverseRecOn with
  | nil => rfl
  | append_singleton ts d ih =>
    rw [foldl_append, foldl_cons, foldl_nil, filter_insertMerging, ih, filter_append, filter_cons]
    by_cases hd : key d.label = k
    · simp [hd, group_concat]
    · simp [hd]

theorem length_group_le : (group combine mc g).length ≤ 1 := by
  cases g with
  | nil => exact Nat.zero_le 1
  | cons t g => exact Nat.le_refl 1

theorem nodup_keys_mergeTo (n : Nat) (ts : List (Tree ℓ π)) :
    ((mergeTo key combine (n + 1) ts).map fun t => key t.label).Nodup := by
  rw [nodup_iff_count_le_one]
  intro k
  rw [count, countP_map, countP_eq_length_filter]
  show ((mergeTo key combine (n + 1) ts).filter fun t => key t.label = k).length ≤ 1
  rw [mergeTo, filter_foldl_insertMerging]
  exact length_group_le _

theorem insertMerging_of_notMem (h : key d.label ∉ acc.map fun t => key t.label) :
    insertMerging key combine mc d acc = acc ++ [d] := by
  induction acc with
  | nil => rfl
  | cons e es ih =>
    rw [map_cons, mem_cons, not_or] at h
    rw [insertMerging, if_neg (Ne.symm h.1), ih h.2, cons_append]

theorem foldl_insertMerging_of_nodup (us : List (Tree ℓ π))
    (h : ((acc ++ us).map fun t => key t.label).Nodup) :
    us.foldl (fun acc d => insertMerging key combine mc d acc) acc = acc ++ us := by
  induction us generalizing acc with
  | nil => exact (append_nil acc).symm
  | cons d us ih =>
    have hd : key d.label ∉ acc.map fun t => key t.label := by
      rw [map_append, map_cons, nodup_middle, nodup_cons, mem_append, not_or] at h
      exact h.1.1
    rw [← singleton_append, ← append_assoc] at h
    rw [foldl_cons, insertMerging_of_notMem hd, ih h, append_assoc, singleton_append]

/-- What has been merged can be merged on. -/
theorem mergeTo_mergeTo_append (n : Nat) (ts us : List (Tree ℓ π)) :
    mergeTo key combine n (mergeTo key combine n ts ++ us) = mergeTo key combine n (ts ++ us) := by
  cases n with
  | zero => rfl
  | succ n =>
    have hagain : mergeTo key combine (n + 1) (mergeTo key combine (n + 1) ts) =
        mergeTo key combine (n + 1) ts := foldl_insertMerging_of_nodup _ (nodup_keys_mergeTo n ts)
    rw [mergeTo, foldl_append, ← mergeTo, hagain, mergeTo, mergeTo, foldl_append]

theorem children_group :
    (group combine (mergeTo key combine n) g).flatMap Tree.children =
      if g.tail.all (·.children.isEmpty) then g.flatMap Tree.children
      else mergeTo key combine n (g.flatMap Tree.children) := by
  cases g with
  | nil => rfl
  | cons t g =>
    rw [group, flatMap_singleton]
    induction g using List.reverseRecOn with
    | nil => simp
    | append_singleton g d ih =>
      rw [foldl_append, foldl_cons, foldl_nil, joined, ih, ← cons_append, flatMap_append]
      by_cases hd : d.children = []
      · simp [hd]
      · have hall : (t :: g ++ [d]).tail.all (·.children.isEmpty) = false := by simp [hd]
        simp only [isEmpty_eq_false_iff.mpr hd, hall, flatMap_singleton, Bool.false_eq_true, if_false]
        split
        · rfl
        · rw [mergeTo_mergeTo_append]

/-! ### Depth -/

/-- No path is longer than `n`. -/
def Within (n : Nat) (ts : List (Tree ℓ π)) : Prop := ∀ p ∈ nodePaths ts, p.length ≤ n

omit [DecidableEq κ] in
theorem within_height (ts : List (Tree ℓ π)) : Within (height ts) ts := fun _ hp =>
  le_max_of_le' 0 (mem_map_of_mem hp) le_rfl

theorem height_le {n : Nat} (h : Within n ts) : height ts ≤ n :=
  max_le_of_forall_le _ n (forall_mem_map.mpr h)

omit [DecidableEq κ] in
theorem within_append {us : List (Tree ℓ π)} : Within n (ts ++ us) ↔ Within n ts ∧ Within n us := by
  simp [Within, nodePaths, mem_paths_append, or_imp, forall_and]

theorem eq_nil_of_within_zero (h : Within 0 ts) : ts = [] := by
  cases ts with
  | nil => rfl
  | cons t ts =>
    have hp : [t.label] ∈ nodePaths (t :: ts) :=
      cons_mem_paths.mpr ⟨t, mem_cons_self, rfl, .inl ⟨rfl, rfl⟩⟩
    exact absurd (h _ hp) (by simp)

theorem within_succ_iff : Within (n + 1) ts ↔ ∀ t ∈ ts, Within n t.children := by
  constructor
  · intro h t ht p hp
    exact Nat.le_of_succ_le_succ (h (t.label :: p) (cons_mem_paths.mpr ⟨t, ht, rfl, .inr hp⟩))
  · intro h p hp
    cases p with
    | nil => exact absurd hp nil_notMem_paths
    | cons l p =>
      obtain ⟨t, ht, -, ⟨rfl, -⟩ | hp⟩ := cons_mem_paths.mp hp
      · exact Nat.succ_le_succ (Nat.zero_le n)
      · exact Nat.succ_le_succ (h t ht p hp)

theorem within_insertMerging (hmc : ∀ ts, Within n ts → Within n (mc ts)) (hd : Within n d.children)
    (hacc : ∀ e ∈ acc, Within n e.children) :
    ∀ e ∈ insertMerging key combine mc d acc, Within n e.children := by
  induction acc with
  | nil => simpa [insertMerging] using hd
  | cons e es ih =>
    obtain ⟨he, hes⟩ := forall_mem_cons.mp hacc
    rw [insertMerging]
    split
    · refine forall_mem_cons.mpr ⟨?_, hes⟩
      dsimp only
      split
      · exact he
      · exact hmc _ (within_append.mpr ⟨he, hd⟩)
    · exact forall_mem_cons.mpr ⟨he, ih hes⟩

variable {mc' : List (Tree ℓ π) → List (Tree ℓ π)}

theorem insertMerging_congr (h : ∀ e ∈ acc, mc (e.children ++ d.children) = mc' (e.children ++ d.children)) :
    insertMerging key combine mc d acc = insertMerging key combine mc' d acc := by
  induction acc with
  | nil => rfl
  | cons e es ih =>
    unfold insertMerging
    rw [h e mem_cons_self, ih fun e' he' => h e' (mem_cons_of_mem _ he')]

theorem within_mergeTo {m : Nat} (h : Within m ts) : Within m (mergeTo key combine n ts) := by
  induction n generalizing m ts with
  | zero => exact h
  | succ n ih =>
    cases m with
    | zero =>
      obtain rfl := eq_nil_of_within_zero h
      exact h
    | succ m =>
      rw [within_succ_iff] at h ⊢
      exact foldlRecOn (motive := fun acc : List (Tree ℓ π) => ∀ e ∈ acc, Within m e.children) ts _
        (forall_mem_nil _) fun acc hacc d hd => within_insertMerging (fun _ => ih) (h d hd) hacc

theorem foldl_insertMerging_congr
    (hwithin : ∀ ts, Within n ts → Within n (mc ts)) (hmc : ∀ ts, Within n ts → mc ts = mc' ts)
    (us : List (Tree ℓ π)) (hus : ∀ d ∈ us, Within n d.children)
    (hacc : ∀ e ∈ acc, Within n e.children) :
    us.foldl (fun acc d => insertMerging key combine mc d acc) acc =
      us.foldl (fun acc d => insertMerging key combine mc' d acc) acc := by
  induction us generalizing acc with
  | nil => rfl
  | cons d us ih =>
    obtain ⟨hd, hus⟩ := forall_mem_cons.mp hus
    have hstep : insertMerging key combine mc d acc = insertMerging key combine mc' d acc :=
      insertMerging_congr fun e he => hmc _ (within_append.mpr ⟨hacc e he, hd⟩)
    rw [foldl_cons, foldl_cons, ← hstep]
    exact ih hus (within_insertMerging hwithin hd hacc)

/-- A depth beyond the height makes no difference. -/
theorem mergeTo_eq_of_within {m : Nat} (hnm : n ≤ m) (hn : Within n ts) :
    mergeTo key combine n ts = mergeTo key combine m ts := by
  induction n generalizing m ts with
  | zero =>
    rw [eq_nil_of_within_zero hn]
    cases m with
    | zero => rfl
    | succ m => rfl
  | succ n ih =>
    cases m with
    | zero => omega
    | succ m =>
      exact foldl_insertMerging_congr (fun _ => within_mergeTo) (fun us hus => ih (by omega) hus) ts
        (within_succ_iff.mp hn) (forall_mem_nil _)

/-- `merge` satisfies the equation without a depth: it merges the children by itself. -/
theorem merge_eq_foldl (ts : List (Tree ℓ π)) :
    merge key combine ts =
      ts.foldl (fun acc d => insertMerging key combine (merge key combine) d acc) [] := by
  have hw := within_height ts
  unfold merge
  cases hn : height ts with
  | zero =>
    rw [hn] at hw
    rw [eq_nil_of_within_zero hw]
    rfl
  | succ n =>
    rw [hn] at hw
    refine foldl_insertMerging_congr (fun _ => within_mergeTo) (fun us hus => ?_) ts
      (within_succ_iff.mp hw) (forall_mem_nil _)
    exact (mergeTo_eq_of_within (height_le hus) (within_height us)).symm

end Merge


/-! ## The first payload at a path -/

section First

variable [DecidableEq ℓ] {γ : Type}

/-- The first value at the path, in the order of the forest. -/
def firstAt (f : π → Option γ) : List ℓ → List (Tree ℓ π) → Option γ
  | [], _ => none
  | [l], ts => (ts.filter fun t => t.label = l).findSome? fun t => f t.payload
  | l :: l' :: p, ts => firstAt f (l' :: p) ((ts.filter fun t => t.label = l).flatMap Tree.children)

variable {f : π → Option γ}

theorem firstAt_append (p : List ℓ) (ts us : List (Tree ℓ π)) :
    firstAt f p (ts ++ us) = (firstAt f p ts).or (firstAt f p us) := by
  induction p generalizing ts us with
  | nil => rfl
  | cons l p ih =>
    cases p with
    | nil => rw [firstAt, firstAt, firstAt, filter_append, findSome?_append]
    | cons l' p => rw [firstAt, firstAt, firstAt, filter_append, flatMap_append, ih]

theorem firstAt_nil (p : List ℓ) : firstAt f p ([] : List (Tree ℓ π)) = none := by
  induction p with
  | nil => rfl
  | cons l p ih =>
    cases p with
    | nil => rfl
    | cons l' p => exact ih

theorem firstAt_flatMap {α : Type} (p : List ℓ) (g : α → List (Tree ℓ π)) (as : List α) :
    firstAt f p (as.flatMap g) = as.findSome? fun a => firstAt f p (g a) := by
  induction as with
  | nil => exact firstAt_nil p
  | cons a as ih =>
    rw [flatMap_cons, firstAt_append, ih, findSome?_cons]
    cases firstAt f p (g a) with
    | none => rfl
    | some v => rfl

theorem isSome_firstAt_iff : (firstAt f p ts).isSome = true ↔ p ∈ paths (fun x => (f x).isSome) ts := by
  induction p generalizing ts with
  | nil => simp [firstAt]
  | cons l p ih =>
    rw [cons_mem_paths]
    cases p with
    | nil => simp [firstAt, and_assoc]
    | cons l' p =>
      rw [firstAt, ih, flatMap_def, mem_paths_flatten]
      simp [and_assoc]

end First

/-! ## What a merge keeps -/

section Kept

variable {key : ℓ → κ} {combine : π → π → π} {mc : List (Tree ℓ π) → List (Tree ℓ π)} {n : Nat}

theorem label_foldl_joined (g : List (Tree ℓ π)) (t : Tree ℓ π) :
    (g.foldl (joined combine mc) t).label = t.label := by
  induction g generalizing t with
  | nil => rfl
  | cons d g ih => exact ih _

variable {γ : Type} {f : π → Option γ} (hf : ∀ x y, f (combine x y) = (f x).or (f y))

include hf in
theorem payload_foldl_joined (g : List (Tree ℓ π)) (t : Tree ℓ π) :
    f (g.foldl (joined combine mc) t).payload = (t :: g).findSome? fun t => f t.payload := by
  induction g generalizing t with
  | nil => simp
  | cons d g ih =>
    rw [foldl_cons, ih, findSome?_cons, findSome?_cons, findSome?_cons, joined, hf]
    cases f t.payload with
    | none => rfl
    | some v => rfl

variable [DecidableEq ℓ]

/-- What stands below a label. -/
def below (l : ℓ) (ts : List (Tree ℓ π)) : List (Tree ℓ π) :=
  (ts.filter fun t => t.label = l).flatMap Tree.children

theorem count_nodePaths (l : ℓ) (p : List ℓ) (ts : List (Tree ℓ π)) :
    (nodePaths ts).count (l :: p) =
      (if p = [] then (ts.map Tree.label).count l else 0) + (nodePaths (below l ts)).count p := by
  induction ts with
  | nil => simp [nodePaths, paths, below]
  | cons t ts ih =>
    rcases t with ⟨l', x, cs⟩
    have hnode : (Tree.mk l' x cs).paths (fun _ => true) = ([] :: nodePaths cs).map (l' :: ·) := rfl
    rw [nodePaths, paths, count_append, ← nodePaths, ih, hnode]
    by_cases hl : l' = l
    · have hbelow : nodePaths (below l (⟨l', x, cs⟩ :: ts)) = nodePaths cs ++ nodePaths (below l ts) := by
        simp [below, hl, nodePaths, paths_append]
      subst hl
      rw [hbelow, count_append, count_map_of_injective _ _ cons_injective, count_cons, map_cons,
        count_cons_self]
      by_cases hp : p = []
      · simp [hp]
        omega
      · simp [hp]
    · have hbelow : below l (⟨l', x, cs⟩ :: ts) = below l ts := by simp [below, hl]
      have hzero : (([] :: nodePaths cs).map (l' :: ·)).count (l :: p) = 0 :=
        count_eq_zero.mpr (by simp [hl, Ne.symm hl])
      rw [hbelow, hzero, Nat.zero_add, map_cons, count_cons_of_ne hl]

theorem cons_mem_nodePaths :
    l :: p ∈ nodePaths ts ↔ p = [] ∧ l ∈ ts.map Tree.label ∨ p ∈ nodePaths (below l ts) := by
  rw [← count_pos_iff, count_nodePaths, Nat.add_pos_iff_pos_or_pos, count_pos_iff]
  by_cases hp : p = []
  · simp [hp, count_pos_iff]
  · simp [hp]

/-- No path occurs twice exactly if siblings have different labels, at all depths. -/
theorem nodup_nodePaths_iff :
    (nodePaths ts).Nodup ↔ (ts.map Tree.label).Nodup ∧ ∀ l, (nodePaths (below l ts)).Nodup := by
  have hnil (us : List (Tree ℓ π)) : (nodePaths us).count [] = 0 := count_eq_zero.mpr nil_notMem_paths
  simp only [nodup_iff_count_le_one]
  constructor
  · intro h
    refine ⟨fun l => ?_, fun l p => ?_⟩
    · have hl := h [l]
      rw [count_nodePaths, if_pos rfl, hnil] at hl
      exact hl
    · have hp := h (l :: p)
      rw [count_nodePaths] at hp
      omega
  · rintro ⟨hlabels, hbelow⟩ p
    cases p with
    | nil => rw [hnil]; omega
    | cons l p =>
      rw [count_nodePaths]
      split
      · next hp =>
        rw [hp, hnil]
        exact hlabels l
      · rw [Nat.zero_add]
        exact hbelow l p

variable (key) in
/-- The key tells the labels of the trees apart. -/
def Clear (ts : List (Tree ℓ π)) : Prop :=
  ∀ t ∈ ts, ∀ u ∈ ts, key t.label = key u.label → t.label = u.label

variable (key) in
/-- At each level the key tells the labels apart that come together there, and what stands below
one label is merged in turn; where no later tree brings children, it is left `alone`. -/
def Merges (alone : List (Tree ℓ π) → Prop) : Nat → List (Tree ℓ π) → Prop
  | 0, _ => True
  | n + 1, ts => Clear key ts ∧ ∀ l,
      if (ts.filter fun t => t.label = l).tail.all (·.children.isEmpty) then alone (below l ts)
      else Merges alone n (below l ts)

variable {alone : List (Tree ℓ π) → Prop}

theorem merges_of_injOn (hinj : Set.InjOn key S) (hts : LabelsIn S ts) : Merges key (fun _ => True) n ts := by
  induction n generalizing ts with
  | zero => trivial
  | succ n ih =>
    rw [labelsIn_iff] at hts
    refine ⟨fun t ht u hu => hinj (hts t ht).1 (hts u hu).1, fun l => ?_⟩
    dsimp only
    split
    · trivial
    · refine ih (labelsIn_flatten.mpr fun cs hcs => ?_)
      obtain ⟨t, ht, rfl⟩ := mem_map.mp hcs
      exact (hts t (mem_of_mem_filter ht)).2

variable [DecidableEq κ]

theorem filter_label_mergeTo (hclear : Clear key ts) (l : ℓ) :
    (mergeTo key combine (n + 1) ts).filter (fun t => t.label = l) =
      group combine (mergeTo key combine n) (ts.filter fun t => t.label = l) := by
  have hkey (us : List (Tree ℓ π)) : us.filter (fun t => t.label = l) =
      (us.filter fun t => key t.label = key l).filter fun t => t.label = l := by
    rw [filter_filter]
    refine filter_congr fun t _ => ?_
    by_cases hl : t.label = l
    · simp [hl]
    · simp [hl]
  rw [hkey, mergeTo, filter_foldl_insertMerging, hkey ts]
  cases hg : ts.filter fun t => key t.label = key l with
  | nil => rfl
  | cons t g =>
    -- the group has one label: it is all of it or nothing
    have hsame : ∀ u ∈ t :: g, u.label = t.label := by
      intro u hu
      rw [← hg] at hu
      have ht : t ∈ ts.filter fun t => key t.label = key l := hg ▸ mem_cons_self
      simp only [mem_filter, decide_eq_true_eq] at ht hu
      exact hclear u hu.1 t ht.1 (hu.2.trans ht.2.symm)
    by_cases hl : t.label = l
    · rw [filter_eq_self.mpr fun u hu => decide_eq_true ((hsame u hu).trans hl)]
      simp [group, label_foldl_joined, hl]
    · have hnil : (t :: g).filter (fun t => t.label = l) = [] :=
        filter_eq_nil_iff.mpr fun u hu => by simpa [hsame u hu] using hl
      rw [hnil]
      simp [group, label_foldl_joined, hl]

theorem below_mergeTo (hclear : Clear key ts) (l : ℓ) :
    below l (mergeTo key combine (n + 1) ts) =
      if (ts.filter fun t => t.label = l).tail.all (·.children.isEmpty) then below l ts
      else mergeTo key combine n (below l ts) := by
  rw [below, filter_label_mergeTo hclear, children_group]
  rfl

include hf in
/-- **Merging keeps the first value at each path.** -/
theorem firstAt_mergeTo (h : Merges key alone n ts) (p : List ℓ) :
    firstAt f p (mergeTo key combine n ts) = firstAt f p ts := by
  induction n generalizing ts p with
  | zero => rfl
  | succ n ih =>
    cases p with
    | nil => rfl
    | cons l p =>
      cases p with
      | nil =>
        rw [firstAt, firstAt, filter_label_mergeTo h.1]
        cases ts.filter fun t => t.label = l with
        | nil => rfl
        | cons t g => simp [group, payload_foldl_joined hf]
      | cons l' p =>
        show firstAt f (l' :: p) (below l _) = firstAt f (l' :: p) (below l ts)
        have hl := h.2 l
        rw [below_mergeTo h.1]
        split at hl
        · next hall => rw [if_pos hall]
        · next hall => rw [if_neg hall, ih hl]

/-- **Merging keeps the paths.** -/
theorem mem_paths_mergeTo (hkeep : ∀ x y, keep (combine x y) = (keep x || keep y))
    (h : Merges key alone n ts) (p : List ℓ) :
    p ∈ paths keep (mergeTo key combine n ts) ↔ p ∈ paths keep ts := by
  let f : π → Option Unit := fun x => if keep x then some () else none
  have hsome : keep = fun x => (f x).isSome := by
    funext x
    cases hx : keep x with
    | false | true => simp [f, hx]
  have hf : ∀ x y, f (combine x y) = (f x).or (f y) := by
    intro x y
    cases hx : keep x with
    | false | true => simp [f, hkeep, hx]
  rw [hsome, ← isSome_firstAt_iff, ← isSome_firstAt_iff, firstAt_mergeTo hf h]

/-- The merge has each path of the forest once exactly if it merges all that comes together, and what
it leaves alone has each path once. -/
theorem nodePaths_mergeTo_iff (hn : Within n ts) :
    ((∀ p, p ∈ nodePaths (mergeTo key combine n ts) ↔ p ∈ nodePaths ts) ∧
        (nodePaths (mergeTo key combine n ts)).Nodup) ↔
      Merges key (fun us => (nodePaths us).Nodup) n ts := by
  induction n generalizing ts with
  | zero =>
    rw [eq_nil_of_within_zero hn]
    simp [mergeTo, Merges, nodePaths, paths]
  | succ n ih =>
    have hbelow (l : ℓ) : Within n (below l ts) := fun p hp =>
      Nat.le_of_succ_le_succ (hn (l :: p) (cons_mem_nodePaths.mpr (.inr hp)))
    constructor
    · rintro ⟨hpaths, hnodup⟩
      have hclear : Clear key ts := by
        have hlabel {t} (ht : t ∈ ts) : ∃ e ∈ mergeTo key combine (n + 1) ts, e.label = t.label := by
          have hpath := (hpaths [t.label]).mpr (cons_mem_paths.mpr ⟨t, ht, rfl, .inl ⟨rfl, rfl⟩⟩)
          obtain ⟨e, he, hlabel, -⟩ := cons_mem_paths.mp hpath
          exact ⟨e, he, hlabel⟩
        intro t ht u hu hk
        obtain ⟨e, he, het⟩ := hlabel ht
        obtain ⟨e', he', heu⟩ := hlabel hu
        have heq := inj_on_of_nodup_map (nodup_keys_mergeTo n ts) he he' (by rw [het, heu, hk])
        rw [← het, ← heu, heq]
      refine ⟨hclear, fun l => ?_⟩
      have hl := (nodup_nodePaths_iff.mp hnodup).2 l
      rw [below_mergeTo hclear] at hl
      split at hl
      · next hall => rwa [if_pos hall]
      · next hall =>
        rw [if_neg hall]
        refine (ih (hbelow l)).mp ⟨fun p => ?_, hl⟩
        by_cases hp : p = []
        · subst hp
          exact iff_of_false nil_notMem_paths nil_notMem_paths
        · have hlp := hpaths (l :: p)
          rw [cons_mem_nodePaths, cons_mem_nodePaths, below_mergeTo hclear, if_neg hall] at hlp
          simpa [hp] using hlp
    · intro h
      refine ⟨mem_paths_mergeTo (fun _ _ => rfl) h, nodup_nodePaths_iff.mpr ⟨?_, fun l => ?_⟩⟩
      · refine Nodup.of_map key ?_
        rw [map_map]
        exact nodup_keys_mergeTo n ts
      · have hl := h.2 l
        rw [below_mergeTo h.1]
        split at hl
        · next hall => rwa [if_pos hall]
        · next hall =>
          rw [if_neg hall]
          exact ((ih (hbelow l)).mpr hl).2

section Injective

variable (hinj : Set.InjOn key S) (hts : LabelsIn S ts)

include hinj hts

theorem mem_paths_merge (hkeep : ∀ x y, keep (combine x y) = (keep x || keep y)) :
    p ∈ paths keep (merge key combine ts) ↔ p ∈ paths keep ts :=
  mem_paths_mergeTo hkeep (merges_of_injOn hinj hts) p

include hf in
theorem firstAt_merge (p : List ℓ) : firstAt f p (merge key combine ts) = firstAt f p ts :=
  firstAt_mergeTo hf (merges_of_injOn hinj hts) p

end Injective

end Kept

/-! ## Lookup -/

section Lookup

variable [DecidableEq ℓ] (nodes : List (List ℓ)) (wild : ℓ → ℓ)

/-- The labels that a lookup takes below `pre`: the exact one where there is such a node,
else the default one (which need not be there either). -/
def descend : List ℓ → List ℓ → List ℓ
  | _, [] => []
  | pre, l :: ls =>
    let l' := if pre ++ [l] ∈ nodes then l else wild l
    l' :: descend (pre ++ [l']) ls

variable {nodes wild}

theorem descend_cons_of_mem {pre : List ℓ} (h : pre ++ [l] ∈ nodes) (ls : List ℓ) :
    descend nodes wild pre (l :: ls) = l :: descend nodes wild (pre ++ [l]) ls := by
  rw [descend]
  simp only [h, if_true]

theorem map_descend {β : Type} {f : ℓ → β} (hf : ∀ l, f (wild l) = f l) (ls pre : List ℓ) :
    (descend nodes wild pre ls).map f = ls.map f := by
  induction ls generalizing pre with
  | nil => rfl
  | cons l ls ih =>
    rw [descend, map_cons, map_cons, ih]
    split
    · rfl
    · rw [hf]

end Lookup

end AgentRouter.Forest
