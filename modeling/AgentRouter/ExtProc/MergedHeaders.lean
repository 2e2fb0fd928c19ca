import AgentRouter.Controller.FilterConfig
import AgentRouter.ExtProc.HeaderMutator

/-!
# MergedHeaders: header mutations of a route and of a backend

A backendRef of a route and the AIServiceBackend it names can both have a header mutation.  The
controller merges the two into one for the external processor: the names that are set are set, with
the route's value if both have one, and the names that either of them removes are removed.  The
processor removes first and sets then, so a name that the backend sets and the route removes is set:

    the merged mutation gives the headers that the backend's and then the route's would give
    ↔ the backend sets no name that the route removes and does not set   (mergedHeaders_iff)
-/

namespace AgentRouter.ExtProc

open Kube Controller Text AgentRouter.Translator List GoMap

/-! ## Algorithm -/

/-- The headers that the upstream gets on a first attempt: Envoy carries out the removes of `Mutate`
and then its sets. -/
def forwardedHeaders (m : Option HTTPHeaderMutation) (headers : Headers) : Headers :=
  let st := mutateConfigured m headers
  setEach (deleteEach headers st.removes) st.sets

/-- The mutation of a level as the external processor gets it. -/
def levelMutation (m : Option HTTPHeaderMutation) : Option HTTPHeaderMutation :=
  m.map headerMutationToFilterAPI

/-! ## Lemmas -/

theorem lookup_forwardedHeaders_view (m : Option HTTPHeaderMutation) (headers : Headers) (k : String) :
    (forwardedHeaders m headers).lookup k =
      ((mutateConfigured m headers).view k).setTo.or
        (if ((mutateConfigured m headers).view k).removed then none else headers.lookup k) := by
  unfold forwardedHeaders Progress.view
  rw [lookup_setEach, lookup_deleteEach]
  simp

theorem lookup_forwardedHeaders {k : String} (hk : shouldIgnoreHeader k = false)
    (m : Option HTTPHeaderMutation) (headers : Headers) :
    (forwardedHeaders m headers).lookup k =
      (setValue m k).or (if k ∈ removedKeys m then none else headers.lookup k) := by
  rw [lookup_forwardedHeaders_view, view_mutateConfigured hk]
  by_cases hremoved : k ∈ removedKeys m
  · cases hlookup : headers.lookup k with
    | none | some v => simp [hremoved]
  · simp [hremoved]

theorem lookup_forwardedHeaders_ignored {k : String} (hk : shouldIgnoreHeader k = true)
    (m : Option HTTPHeaderMutation) (headers : Headers) :
    (forwardedHeaders m headers).lookup k = headers.lookup k := by
  have hview := view_mutate_ignored hk ⟨storedOrder, storedOrder⟩ ∅ m headers false
  rw [lookup_forwardedHeaders_view, show (mutateConfigured m headers).view k = _ from hview]
  rfl

/-- The value that a `set` list gives a header, for the names as the processor gets them. -/
theorem setValue_level (m : HTTPHeaderMutation) (k : String) :
    setValue (levelMutation (some m)) k =
      (lastValue k (m.set.map fun h => (toLower h.name, h))).map (·.value) := by
  rw [← lastValue_map]
  simp only [setValue, levelMutation, headerMutationToFilterAPI, Option.map_some, Option.elim_some, map_map]
  rfl

theorem setValue_merged (ord : MergeOrders) (route backend : Option HTTPHeaderMutation) (k : String) :
    setValue (levelMutation (mergeHeaderMutations ord route backend)) k =
      (setValue (levelMutation route) k).or (setValue (levelMutation backend) k) := by
  cases route with
  | none => rfl
  | some r =>
    cases backend with
    | none => exact (Option.or_none).symm
    | some b =>
      rw [mergeHeaderMutations, setValue_level, setValue_level, setValue_level, lastValue_mergeSets,
        Option.map_or]

theorem mem_removedKeys_level {m : HTTPHeaderMutation} {k : String} :
    k ∈ removedKeys (levelMutation (some m)) ↔ k ∈ m.remove.map toLower ∧ shouldIgnoreHeader k = false := by
  simp [removedKeys, levelMutation, headerMutationToFilterAPI]

theorem mem_removedKeys_merged (ord : MergeOrders) (route backend : Option HTTPHeaderMutation) (k : String) :
    k ∈ removedKeys (levelMutation (mergeHeaderMutations ord route backend)) ↔
      k ∈ removedKeys (levelMutation route) ∨ k ∈ removedKeys (levelMutation backend) := by
  cases route with
  | none => exact (or_iff_right (by simp [levelMutation, removedKeys])).symm
  | some r =>
    cases backend with
    | none => exact (or_iff_left (by simp [levelMutation, removedKeys])).symm
    | some b =>
      -- lower-casing the merged list once more changes nothing
      have hlower : (mergeRemoves toLower ord.removes b.remove r.remove).map toLower =
          mergeRemoves toLower ord.removes b.remove r.remove := by
        refine (map_congr_left fun x hx => ?_).trans (map_id _)
        rw [mem_mergeRemoves, ← mem_append, ← map_append] at hx
        obtain ⟨y, -, rfl⟩ := mem_map.mp hx
        exact toLower_toLower y
      rw [mergeHeaderMutations, mem_removedKeys_level, mem_removedKeys_level, mem_removedKeys_level,
        hlower, mem_mergeRemoves]
      tauto

/-! ## Top theorem -/

theorem mergedHeaders_iff (ord : MergeOrders) (route backend : Option HTTPHeaderMutation)
    (headers : Headers) :
    (∀ k, (forwardedHeaders (levelMutation (mergeHeaderMutations ord route backend)) headers).lookup k =
        (forwardedHeaders (levelMutation route)
          (forwardedHeaders (levelMutation backend) headers)).lookup k) ↔
      ∀ k ∈ removedKeys (levelMutation route), setValue (levelMutation route) k = none →
        setValue (levelMutation backend) k = none := by
  constructor
  · intro hsame k hremoved hroute
    have hk : shouldIgnoreHeader k = false := by
      have h := (mem_filter.mp hremoved).2
      simpa using h
    have h := hsame k
    rw [lookup_forwardedHeaders hk, lookup_forwardedHeaders hk, setValue_merged, hroute, Option.none_or,
      Option.none_or, if_pos hremoved, Option.or_eq_none_iff] at h
    exact h.1
  · intro hroute k
    cases hk : shouldIgnoreHeader k with
    | true =>
      rw [lookup_forwardedHeaders_ignored hk, lookup_forwardedHeaders_ignored hk,
        lookup_forwardedHeaders_ignored hk]
    | false =>
      rw [lookup_forwardedHeaders hk, lookup_forwardedHeaders hk, lookup_forwardedHeaders hk,
        setValue_merged]
      cases hset : setValue (levelMutation route) k with
      | some v => rfl
      | none =>
        simp only [Option.none_or, mem_removedKeys_merged]
        by_cases hremoved : k ∈ removedKeys (levelMutation route)
        · simp [hremoved, hroute k hremoved hset]
        · simp [hremoved]

/-- The backend sets `x-team` and the route removes it, but the upstream gets it. -/
theorem removed_header_is_set :
    let backend : HTTPHeaderMutation := ⟨[⟨"X-Team", "a"⟩], []⟩
    let route : HTTPHeaderMutation := ⟨[], ["X-Team"]⟩
    (forwardedHeaders (levelMutation (mergeHeaderMutations .stored (some route) (some backend)))
        ∅).lookup "x-team" = some "a" ∧
      (forwardedHeaders (levelMutation (some route))
        (forwardedHeaders (levelMutation (some backend)) ∅)).lookup "x-team" = none := by
  decide

end AgentRouter.ExtProc
