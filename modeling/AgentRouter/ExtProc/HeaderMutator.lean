import AgentRouter.Translator.Anthropic

/-!
# HeaderMutator: a backend's header mutation and the restoration on retry

`Mutate` walks the backend's `Remove` and `Set` lists and, on a retry, puts the
headers of the client's request back.  It edits a local map and returns the sets and
removes for Envoy.

Seen at one header `k`, with `h` its value on entry, `o` the client's value, `m` the
value `Set` gives it and `rm` for `k` being on the `Remove` list:

                first attempt               retry
    local map   m, else h                   m, else (rm: h, else o), else o
    set to      m                           m, else (not rm) o
    removed     rm and present              rm and present, or left over

(view_mutate_first, view_mutate_retry)
-/

namespace AgentRouter.ExtProc

open Kube Text AgentRouter.Translator GoMap

/-! ## Algorithm -/

def envoyAIGatewayHeaderPrefix : String := "x-ai-eg-"
def envoyOriginalPathHeader : String := "x-envoy-original-path"

def shouldIgnoreHeader (key : String) : Bool :=
  startsWith key ":" || startsWith key envoyAIGatewayHeaderPrefix ||
    toLower key = envoyOriginalPathHeader

/-- The variables of `Mutate`; `setKeys` is `setHeadersSet`. -/
structure Progress where
  headers : Headers
  sets : List Header
  removes : List String
  setKeys : List String

/-- The header names a mutation removes, without the ignored ones. -/
def removedKeys (m : Option HTTPHeaderMutation) : List String :=
  (m.elim [] (·.remove)).filter fun key => !shouldIgnoreHeader key

def setStep (st : Progress) (h : HTTPHeader) : Progress :=
  if shouldIgnoreHeader h.name then st
  else
    { st with
      headers := st.headers.insert h.name h.value
      sets := st.sets ++ [(h.name, h.value)]
      setKeys := h.name :: st.setKeys }

/-- The loop over the original headers, for those that are gone. -/
def restoreStep (removed : List String) (st : Progress) (e : String × String) : Progress :=
  if shouldIgnoreHeader e.1 then st
  else if st.headers.lookup e.1 = none ∧ e.1 ∉ st.setKeys then
    if e.1 ∈ removed then { st with headers := st.headers.insert e.1 e.2 }
    else
      { st with
        headers := st.headers.insert e.1 e.2
        sets := st.sets ++ [e]
        setKeys := e.1 :: st.setKeys }
  else st

/-- The loop over the current headers: what an earlier attempt added goes, what it
changed is put back. -/
def sweepStep (original : Headers) (removed : List String) (st : Progress) (e : String × String) :
    Progress :=
  if shouldIgnoreHeader e.1 then st
  else if e.1 ∈ removed ∨ e.1 ∈ st.setKeys then st
  else
    match original.lookup e.1 with
    | none => { st with headers := st.headers.erase e.1, removes := st.removes ++ [e.1] }
    | some v => { st with headers := st.headers.insert e.1 v, sets := st.sets ++ [(e.1, v)] }

/-- The orders of the two loops over maps. -/
structure RetryOrders where
  originals : IterOrder String String
  current : IterOrder String String

/-- The state after the `Remove` and `Set` lists. -/
def mutateConfigured (m : Option HTTPHeaderMutation) (headers : Headers) : Progress :=
  (m.elim [] (·.set)).foldl setStep
    ⟨headers, [], (removedKeys m).filter fun key => (headers.lookup key).isSome, []⟩

/-- The state after the first loop of a retry. -/
def restoreMissing (ord : RetryOrders) (original : Headers) (m : Option HTTPHeaderMutation)
    (headers : Headers) : Progress :=
  (ord.originals.visit original).foldl (restoreStep (removedKeys m)) (mutateConfigured m headers)

def mutate (ord : RetryOrders) (original : Headers) (m : Option HTTPHeaderMutation)
    (headers : Headers) (onRetry : Bool) : Progress :=
  if onRetry then
    (ord.current.visit (restoreMissing ord original m headers).headers).foldl
      (sweepStep original (removedKeys m)) (restoreMissing ord original m headers)
  else mutateConfigured m headers

/-! ## One header -/

/-- What `Mutate` has done to one header so far. -/
structure KeyView where
  /-- the value in the local map. -/
  value : Option String
  /-- the value the last of the sets gives it. -/
  setTo : Option String
  removed : Bool
  isSet : Bool

def Progress.view (st : Progress) (k : String) : KeyView :=
  ⟨st.headers.lookup k, lastValue k st.sets, decide (k ∈ st.removes), decide (k ∈ st.setKeys)⟩

/-- The value the `Set` list of a mutation gives a header. -/
def setValue (m : Option HTTPHeaderMutation) (k : String) : Option String :=
  lastValue k ((m.elim [] (·.set)).map fun h => (h.name, h.value))

variable {k : String} {st : Progress}

theorem view_setStep_of_ne {h : HTTPHeader} (hk : h.name ≠ k) : (setStep st h).view k = st.view k := by
  unfold setStep Progress.view
  split
  · rfl
  · simp [AList.lookup_insert_ne (Ne.symm hk), hk, Ne.symm hk]

theorem view_setStep_self {h : HTTPHeader} (hi : shouldIgnoreHeader h.name = false) :
    (setStep st h).view h.name = ⟨some h.value, some h.value, (st.view h.name).removed, true⟩ := by
  unfold setStep Progress.view
  rw [if_neg (by simp [hi])]
  simp

variable (hi : shouldIgnoreHeader k = false)

include hi in
theorem view_foldl_setStep (hs : List HTTPHeader) (st : Progress) :
    (hs.foldl setStep st).view k =
      (lastValue k (hs.map fun h => (h.name, h.value))).elim (st.view k)
        fun v => ⟨some v, some v, (st.view k).removed, true⟩ := by
  induction hs generalizing st with
  | nil => rfl
  | cons h hs ih =>
    rw [List.foldl_cons, ih, List.map_cons, lastValue]
    by_cases hk : h.name = k
    · subst hk
      rw [view_setStep_self hi]
      cases lastValue h.name (hs.map fun h => (h.name, h.value)) <;> simp
    · rw [view_setStep_of_ne hk]
      cases lastValue k (hs.map fun h => (h.name, h.value)) <;> simp [hk]

include hi in
theorem view_mutateConfigured (m : Option HTTPHeaderMutation) (headers : Headers) :
    (mutateConfigured m headers).view k =
      ⟨(setValue m k).or (headers.lookup k), setValue m k,
        decide (k ∈ removedKeys m) && (headers.lookup k).isSome, (setValue m k).isSome⟩ := by
  unfold mutateConfigured setValue
  rw [view_foldl_setStep hi]
  cases lastValue k ((m.elim [] (·.set)).map fun h => (h.name, h.value)) <;>
    simp [Progress.view, Bool.decide_and]

/-- What the first loop of a retry does at a header with the original value `v`. -/
def restoreView (rm : Bool) (v : String) (w : KeyView) : KeyView :=
  if w.value = none ∧ w.isSet = false then
    if rm then { w with value := some v } else ⟨some v, some v, w.removed, true⟩
  else w

/-- What the second loop does at a header that is present. -/
def sweepView (rm : Bool) (o : Option String) (w : KeyView) : KeyView :=
  if rm ∨ w.isSet then w
  else
    match o with
    | none => ⟨none, w.setTo, true, w.isSet⟩
    | some v => ⟨some v, some v, w.removed, w.isSet⟩

variable {removed : List String}

theorem view_restoreStep_of_ne {e : String × String} (hk : e.1 ≠ k) :
    (restoreStep removed st e).view k = st.view k := by
  unfold restoreStep Progress.view
  split
  · rfl
  split
  · split <;> simp [AList.lookup_insert_ne (Ne.symm hk), hk, Ne.symm hk]
  · rfl

include hi in
theorem view_restoreStep_self {v : String} :
    (restoreStep removed st (k, v)).view k = restoreView (k ∈ removed) v (st.view k) := by
  unfold restoreStep restoreView Progress.view
  rw [if_neg (by simp [hi])]
  simp only [decide_eq_false_iff_not, decide_eq_true_eq]
  split
  · split <;> simp
  · rfl

theorem view_sweepStep_of_ne {original : Headers} {e : String × String} (hk : e.1 ≠ k) :
    (sweepStep original removed st e).view k = st.view k := by
  unfold sweepStep Progress.view
  split
  · rfl
  split
  · rfl
  split
  · simp [AList.lookup_erase_ne (Ne.symm hk), Ne.symm hk]
  · simp [AList.lookup_insert_ne (Ne.symm hk), hk]

include hi in
theorem view_sweepStep_self {original : Headers} {v : String} :
    (sweepStep original removed st (k, v)).view k =
      sweepView (k ∈ removed) (original.lookup k) (st.view k) := by
  unfold sweepStep sweepView Progress.view
  rw [if_neg (by simp [hi])]
  simp only [decide_eq_true_eq]
  split
  · rfl
  · cases original.lookup k <;> simp

/-! ## The whole call -/

section

variable (hi : shouldIgnoreHeader k = false) (ord : RetryOrders) (original : Headers)
  (m : Option HTTPHeaderMutation) (headers : Headers)

include hi

theorem view_mutate_first :
    (mutate ord original m headers false).view k =
      ⟨(setValue m k).or (headers.lookup k), setValue m k,
        decide (k ∈ removedKeys m) && (headers.lookup k).isSome, (setValue m k).isSome⟩ :=
  view_mutateConfigured hi m headers

/-- The two loops of a retry as a function of what they find at one header. -/
def retryView (rm : Bool) (o : Option String) (w : KeyView) : KeyView :=
  let w := o.elim w fun v => restoreView rm v w
  w.value.elim w fun _ => sweepView rm o w

theorem view_mutate_retry :
    (mutate ord original m headers true).view k =
      retryView (k ∈ removedKeys m) (original.lookup k) ((mutateConfigured m headers).view k) := by
  have hrestore := ord.originals.foldl_view original (restoreStep (removedKeys m)) (·.view k)
    (restoreView (k ∈ removedKeys m)) (fun s e => view_restoreStep_of_ne)
    (fun s v => view_restoreStep_self hi) (mutateConfigured m headers)
  have hsweep := ord.current.foldl_view (restoreMissing ord original m headers).headers
    (sweepStep original (removedKeys m)) (·.view k)
    (fun _ => sweepView (k ∈ removedKeys m) (original.lookup k))
    (fun s e => view_sweepStep_of_ne) (fun s v => view_sweepStep_self hi)
    (restoreMissing ord original m headers)
  unfold retryView
  rw [← hrestore]
  exact hsweep

end

/-- The table of a retry: `m` is what `Set` gives, `h` what was there, `o` the client's value. -/
theorem retryView_eq (rm : Bool) (m h o : Option String) :
    let w := retryView rm o ⟨m.or h, m, rm && h.isSome, m.isSome⟩
    w.value = m.or (if rm then h.or o else o) ∧ w.setTo = m.or (if rm then none else o) ∧
      w.removed = (h.isSome && (rm || (m.isNone && o.isNone))) := by
  cases rm <;> cases m <;> cases h <;> cases o <;> simp [retryView, restoreView, sweepView]

theorem view_mutate_ignored (hi : shouldIgnoreHeader k = true) (ord : RetryOrders)
    (original : Headers) (m : Option HTTPHeaderMutation) (headers : Headers) (onRetry : Bool) :
    (mutate ord original m headers onRetry).view k = ⟨headers.lookup k, none, false, false⟩ := by
  have hset : ∀ (hs : List HTTPHeader) (st : Progress), (hs.foldl setStep st).view k = st.view k := by
    intro hs st
    refine List.foldlRecOn (motive := (Progress.view · k = _)) hs _ rfl fun st' hst h _ => ?_
    rw [← hst]
    by_cases hk : h.name = k
    · rw [setStep, if_pos (by rw [hk, hi])]
    · exact view_setStep_of_ne hk
  have hconf : (mutateConfigured m headers).view k = ⟨headers.lookup k, none, false, false⟩ := by
    unfold mutateConfigured
    rw [hset]
    simp [Progress.view, removedKeys, hi]
  have hid : ∀ (x : Option String) (w : KeyView), (x.elim w fun _ => w) = w := by
    intro x w
    cases x <;> rfl
  cases onRetry with
  | false => exact hconf
  | true =>
    have hrestore := ord.originals.foldl_view original (restoreStep (removedKeys m)) (·.view k)
      (fun _ w => w) (fun s e => view_restoreStep_of_ne)
      (fun s v => by rw [restoreStep, if_pos hi]) (mutateConfigured m headers)
    have hsweep := ord.current.foldl_view (restoreMissing ord original m headers).headers
      (sweepStep original (removedKeys m)) (·.view k)
      (fun _ w => w) (fun s e => view_sweepStep_of_ne)
      (fun s v => by rw [sweepStep, if_pos hi]) (restoreMissing ord original m headers)
    rw [hid] at hrestore hsweep
    exact hsweep.trans (hrestore.trans hconf)

/-! ## What a retry forwards -/

/-- The headers with some taken away and then some set. -/
def applied (headers : Headers) (removes : List String) (sets : List Header) : Headers :=
  setEach (deleteEach headers removes) sets

theorem lookup_applied (headers : Headers) (removes : List String) (sets : List Header)
    (k : String) : (applied headers removes sets).lookup k =
      (lastValue k sets).or (if k ∈ removes then none else headers.lookup k) := by
  unfold applied
  rw [lookup_setEach, lookup_deleteEach]

/-- Whatever earlier attempts left, a retry forwards what the mutation makes of the client's
headers. -/
theorem retry_forwards_client_headers (hi : shouldIgnoreHeader k = false) (ord : RetryOrders)
    (original : Headers) (m : Option HTTPHeaderMutation) (headers : Headers) :
    let st := mutate ord original m headers true
    (applied headers st.removes st.sets).lookup k =
      (applied original (m.elim [] (·.remove))
        ((m.elim [] (·.set)).map fun h => (h.name, h.value))).lookup k := by
  have hview := view_mutate_retry hi ord original m headers
  rw [view_mutateConfigured hi] at hview
  obtain ⟨-, hset, hremoved⟩ := retryView_eq (k ∈ removedKeys m) (setValue m k)
    (headers.lookup k) (original.lookup k)
  rw [← hview] at hset hremoved
  have hrm : k ∈ removedKeys m ↔ k ∈ m.elim [] (·.remove) := by simp [removedKeys, hi]
  simp only [Progress.view, hrm] at hset hremoved
  intro st
  rw [lookup_applied, lookup_applied, hset, ← setValue]
  have hmem : k ∈ st.removes ↔ (headers.lookup k).isSome ∧
      (k ∈ m.elim [] (·.remove) ∨ setValue m k = none ∧ original.lookup k = none) := by
    rw [← decide_eq_true_iff (p := k ∈ st.removes), hremoved]
    simp
  simp only [hmem]
  cases setValue m k with
  | some v => rfl
  | none =>
    by_cases hk : k ∈ m.elim [] (·.remove)
    · cases headers.lookup k <;> simp [hk]
    · cases headers.lookup k <;> cases original.lookup k <;> simp [hk]

/-- An earlier attempt changed one header and added another. -/
theorem retry_restores_changed_header :
    let original : Headers := AList.insert "a" "1" ∅
    let current : Headers := AList.insert "b" "2" (AList.insert "a" "3" ∅)
    let st := mutate ⟨storedOrder, storedOrder⟩ original none current true
    (applied current st.removes st.sets).lookup "a" = some "1" :=
  retry_forwards_client_headers (k := "a") (by decide) ⟨storedOrder, storedOrder⟩
    (AList.insert "a" "1" ∅) none (AList.insert "b" "2" (AList.insert "a" "3" ∅))

end AgentRouter.ExtProc
