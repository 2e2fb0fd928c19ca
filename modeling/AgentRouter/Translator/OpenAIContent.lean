import AgentRouter.Lib.Text
import AgentRouter.Lib.Unseen
import AgentRouter.Translator.OpenAIBlocks

/-!
# OpenAIContent: what the chunks hold comes out once and in order

Apart from being in the right place, the texts, the reasoning and the arguments of an OpenAI stream
are all there: `Carries` says that the deltas of the output make up what the deltas of the first
choice held, that each tool call has a block that all its arguments went to, and that the blocks are
numbered afresh and stopped once.

A part either starts one block and writes deltas into it, or it writes deltas into a block that is
there (`part_cases`).  Starts, stops and used indices are read off that.

    UsageLast chunks → Carries chunks (translate m chunks)   (translate_carries)
-/

namespace AgentRouter.OpenAIStream

open List hiding beq_eq_decide getElem?_eq_some_iff

open AnthropicStream Text

/-! ## What is in the output -/

/-- The index of the block that an event is about. -/
def eventIndex : Event → Option Nat
  | .contentBlockStart i _ => some i
  | .contentBlockDelta i _ => some i
  | .contentBlockStop i => some i
  | _ => none

def eventDelta : Event → Option Delta
  | .contentBlockDelta _ d => some d
  | _ => none

def textOf : Delta → Option String
  | .text t => some t
  | _ => none

def thinkingOf : Delta → Option String
  | .thinking t => some t
  | _ => none

def signatureOf : Delta → Option String
  | .signature g => some g
  | _ => none

def isReasoning : Delta → Bool
  | .thinking _ => true
  | .signature _ => true
  | _ => false

/-- The arguments that an event sends to the block `i`. -/
def argumentsTo (i : Nat) : Event → Option String
  | .contentBlockDelta j (.inputJSON arguments) => if i = j then some arguments else none
  | _ => none

def startOf : Event → Option (Nat × BlockStart)
  | .contentBlockStart i b => some (i, b)
  | _ => none

/-- The index of the block of a tool call with the call's id and name. -/
def toolStart : Nat × BlockStart → Option (Nat × String × String)
  | (i, .toolUse id name) => some (i, id, name)
  | _ => none

def stopOf : Event → Option Nat
  | .contentBlockStop i => some i
  | _ => none

/-- The tool blocks with all arguments that are sent to them. -/
def toolBlocks (out : List Event) : List (String × String × String) :=
  ((out.filterMap startOf).filterMap toolStart).map fun t =>
    (t.2.1, t.2.2, String.join (out.filterMap (argumentsTo t.1)))

/-! ## What is in the chunks -/

def contents (chunks : List Chunk) : List String := (deltas chunks).filterMap (·.content)

def reasonings (chunks : List Chunk) : List (String × String) := (deltas chunks).flatMap reasoningsOf

def toolCalls (chunks : List Chunk) : List ToolCallDelta := (deltas chunks).flatMap (·.toolCalls)

/-- The first delta of each tool index. -/
def firstCalls (calls : List ToolCallDelta) : List ToolCallDelta := Unseen.addAll (·.index) [] calls

/-- All that comes for a tool index. -/
def argumentsOf (k : Int) (calls : List ToolCallDelta) : String :=
  String.join ((calls.filter (·.index = k)).map (·.arguments))

/-- The output holds what the chunks hold, in blocks that are started afresh and stopped once. -/
structure Carries (chunks : List Chunk) (out : List Event) : Prop where
  text : String.join ((out.filterMap eventDelta).filterMap textOf) = String.join (contents chunks)
  thinking : String.join ((out.filterMap eventDelta).filterMap thinkingOf) =
    String.join ((reasonings chunks).map (·.1))
  signature : String.join ((out.filterMap eventDelta).filterMap signatureOf) =
    String.join ((reasonings chunks).map (·.2))
  reasoning : (out.filterMap eventDelta).filter isReasoning =
    (reasonings chunks).flatMap fun r => reasoningPieces r.1 r.2
  arguments : toolBlocks out = (firstCalls (toolCalls chunks)).map fun tc =>
    (tc.id.getD "", tc.name, argumentsOf tc.index (toolCalls chunks))
  fresh : out.Pairwise fun e e' => ∀ i, (startOf e').map (·.1) = some i → eventIndex e ≠ some i
  stopped : ∀ i b, .contentBlockStart i b ∈ out → (out.filterMap stopOf).count i = 1

/-! ## One part -/

section

variable {blocks : List Entry}

theorem mem_reasoningPieces {t g : String} {d : Delta} (h : d ∈ reasoningPieces t g) :
    d = .thinking t ∨ d = .signature g := by
  rcases mem_append.mp h with h | h
  · split at h
    · cases h
    · exact .inl (mem_singleton.mp h)
  · split at h
    · cases h
    · exact .inr (mem_singleton.mp h)

/-! ## Starts, stops and indices -/

theorem filterMap_startOf_deltas (i : Nat) (ds : List Delta) :
    (ds.map (.contentBlockDelta i)).filterMap startOf = [] := by
  rw [filterMap_map]
  exact filterMap_eq_nil_iff.mpr fun _ _ => rfl

theorem filterMap_stopOf_deltas (i : Nat) (ds : List Delta) :
    (ds.map (.contentBlockDelta i)).filterMap stopOf = [] := by
  rw [filterMap_map]
  exact filterMap_eq_nil_iff.mpr fun _ _ => rfl

/-- Blocks with their numbers. -/
def numbered (blocks : List Entry) : List (Nat × BlockStart) :=
  (blocks.map Entry.start).zipIdx.map fun b => (b.2, b.1)

theorem filterMap_stopEvents {β : Type} {f : Event → Option β} (blocks : List Entry)
    (hstop : ∀ i, f (.contentBlockStop i) = none) : (stopEvents blocks).filterMap f = [] := by
  unfold stopEvents
  split
  · rfl
  · rw [filterMap_cons_none (hstop _)]
    rfl

theorem starts_partEvents (blocks : List Entry) (p : Part) :
    numbered blocks ++ (partEvents blocks p).filterMap startOf = numbered (addPart blocks p) := by
  rcases part_cases blocks p with ⟨-, hadd, hevents⟩ | ⟨i, -, -, hadd, hevents⟩
  · rw [hevents, hadd, filterMap_append, filterMap_startOf_deltas]
    rw [startEvents, filterMap_append]
    simp [numbered, startOf, zipIdx_append]
  · rw [hevents, hadd, filterMap_startOf_deltas, append_nil, numbered, numbered, starts_modify_add]

theorem stops_partEvents (blocks : List Entry) (p : Part) :
    List.range (blocks.length - 1) ++ (partEvents blocks p).filterMap stopOf =
      List.range ((addPart blocks p).length - 1) := by
  rcases part_cases blocks p with ⟨-, hadd, hevents⟩ | ⟨i, -, -, hadd, hevents⟩
  · rw [hevents, hadd, filterMap_append, filterMap_stopOf_deltas]
    rcases eq_nil_or_concat' blocks with rfl | ⟨init, last, rfl⟩
    · rfl
    · simp [startEvents, stopOf, range_succ]
  · rw [hevents, hadd, filterMap_stopOf_deltas, append_nil, length_modify]

/-- What a view of the blocks and the events of each part have in common, all parts have. -/
theorem partsEvents_view {β : Type} {f : Event → Option β} {view : List Entry → List β}
    (h : ∀ blocks p, view blocks ++ (partEvents blocks p).filterMap f = view (addPart blocks p))
    (blocks : List Entry) (ps : List Part) :
    view blocks ++ (partsEvents blocks ps).filterMap f = view (ps.foldl addPart blocks) := by
  induction ps generalizing blocks with
  | nil => exact append_nil _
  | cons p ps ih =>
    rw [partsEvents, filterMap_append, ← append_assoc, h, ih, foldl_cons]

theorem length_le_addPart (blocks : List Entry) (p : Part) : blocks.length ≤ (addPart blocks p).length := by
  rcases part_cases blocks p with ⟨-, hadd, -⟩ | ⟨i, -, -, hadd, -⟩
  · rw [hadd, length_append]
    exact Nat.le_add_right _ _
  · rw [hadd, length_modify]

/-- `e'` starts no block that `e` is about. -/
def StartsOther (e e' : Event) : Prop :=
  ∀ i, (startOf e').map (·.1) = some i → eventIndex e ≠ some i

theorem startsOther_of_no_start {e e' : Event} (h : startOf e' = none) : StartsOther e e' := by
  intro i hi
  rw [h] at hi
  cases hi

theorem pairwise_of_no_start {es : List Event} (h : ∀ e ∈ es, startOf e = none) : es.Pairwise StartsOther :=
  pairwise_of_forall_mem_list fun _ _ e' he' => startsOther_of_no_start (h e' he')

theorem no_start_deltas {i : Nat} {ds : List Delta} {e : Event}
    (h : e ∈ ds.map (.contentBlockDelta i)) : startOf e = none ∧ eventIndex e = some i := by
  obtain ⟨d, -, rfl⟩ := mem_map.mp h
  exact ⟨rfl, rfl⟩

theorem mem_startEvents {b : BlockStart} {e : Event} (h : e ∈ startEvents blocks b) :
    (e = .contentBlockStop (blocks.length - 1) ∧ blocks ≠ []) ∨ e = .contentBlockStart blocks.length b := by
  unfold startEvents stopEvents at h
  split at h
  next => exact .inr (mem_singleton.mp h)
  next hne =>
    rcases mem_cons.mp h with h | h
    · exact .inl ⟨h, hne⟩
    · exact .inr (mem_singleton.mp h)

section

variable (blocks : List Entry)

theorem fresh_startEvents (b : BlockStart) : (startEvents blocks b).Pairwise StartsOther := by
  rcases eq_nil_or_concat' blocks with rfl | ⟨init, last, rfl⟩
  · exact pairwise_singleton _ _
  · simp only [startEvents, stopEvents, append_eq_nil_iff, cons_ne_nil, and_false, if_false,
      singleton_append, pairwise_cons, mem_singleton, forall_eq, not_mem_nil,
      IsEmpty.forall_iff, implies_true, List.Pairwise.nil, and_true]
    intro i hi hindex
    simp only [startOf, Option.map_some, Option.some.injEq] at hi
    simp only [eventIndex, Option.some.injEq, length_append, length_singleton] at hi hindex
    omega

theorem fresh_partEvents (p : Part) :
    (partEvents blocks p).Pairwise StartsOther ∧
      (∀ e ∈ partEvents blocks p, ∀ i, eventIndex e = some i → i < (addPart blocks p).length) ∧
      ∀ e ∈ partEvents blocks p, ∀ i, (startOf e).map (·.1) = some i → blocks.length ≤ i := by
  rcases part_cases blocks p with ⟨-, hadd, hevents⟩ | ⟨k, hk, -, hadd, hevents⟩
  · rw [hevents, hadd, length_append, length_singleton]
    refine ⟨?_, ?_, ?_⟩
    · refine pairwise_append.mpr ⟨fresh_startEvents blocks p.entry.start, ?_, ?_⟩
      · exact pairwise_of_no_start fun e he => (no_start_deltas he).1
      · exact fun _ _ e' he' => startsOther_of_no_start (no_start_deltas he').1
    · intro e he i hi
      rcases mem_append.mp he with he | he
      · rcases mem_startEvents he with ⟨rfl, -⟩ | rfl
        · cases hi
          omega
        · cases hi
          omega
      · cases (no_start_deltas he).2.symm.trans hi
        omega
    · intro e he i hi
      rcases mem_append.mp he with he | he
      · rcases mem_startEvents he with ⟨rfl, -⟩ | rfl
        · cases hi
        · cases hi
          exact Nat.le_refl _
      · rw [(no_start_deltas he).1] at hi
        cases hi
  · rw [hevents, hadd, length_modify]
    refine ⟨pairwise_of_no_start fun e he => (no_start_deltas he).1, ?_, ?_⟩
    · intro e he i hi
      cases (no_start_deltas he).2.symm.trans hi
      exact hk
    · intro e he i hi
      rw [(no_start_deltas he).1] at hi
      cases hi

theorem fresh_partsEvents (ps : List Part) :
    (partsEvents blocks ps).Pairwise StartsOther ∧
      ∀ e ∈ partsEvents blocks ps, ∀ i, (startOf e).map (·.1) = some i → blocks.length ≤ i := by
  induction ps generalizing blocks with
  | nil => exact ⟨.nil, fun e he => absurd he not_mem_nil⟩
  | cons p ps ih =>
    obtain ⟨hpart, hindex, hstart⟩ := fresh_partEvents blocks p
    obtain ⟨hrest, hlater⟩ := ih (addPart blocks p)
    constructor
    · refine pairwise_append.mpr ⟨hpart, hrest, ?_⟩
      -- what comes later starts blocks that are not there yet
      intro e he e' he' i hi hused
      have hlt := hindex e he i hused
      have hle := hlater e' he' i hi
      omega
    · intro e he i hi
      rcases mem_append.mp he with he | he
      · exact hstart e he i hi
      · exact (length_le_addPart blocks p).trans (hlater e he i hi)

theorem filterMap_partEvents {β : Type} {f : Event → Option β} (p : Part)
    (hstart : ∀ i b, f (.contentBlockStart i b) = none) (hstop : ∀ i, f (.contentBlockStop i) = none) :
    ∃ i, (partEvents blocks p).filterMap f = (pieces p).filterMap fun d => f (.contentBlockDelta i d) := by
  rcases part_cases blocks p with ⟨-, -, hevents⟩ | ⟨i, -, -, -, hevents⟩
  · refine ⟨blocks.length, ?_⟩
    rw [hevents, startEvents, filterMap_append, filterMap_append, filterMap_stopEvents _ hstop,
      filterMap_cons_none (hstart _ _), filterMap_map]
    rfl
  · refine ⟨i, ?_⟩
    rw [hevents, filterMap_map]
    rfl

theorem eventDelta_partsEvents (ps : List Part) :
    (partsEvents blocks ps).filterMap eventDelta = ps.flatMap pieces := by
  induction ps generalizing blocks with
  | nil => rfl
  | cons p ps ih =>
    obtain ⟨i, hpart⟩ := filterMap_partEvents (f := eventDelta) blocks p (fun _ _ => rfl) fun _ => rfl
    rw [partsEvents, filterMap_append, hpart, ih]
    exact congrArg (· ++ _) filterMap_some

end

/-! ## Tool calls -/

/-- The call that a tool block belongs to: its index, id and name. -/
def Entry.call : Entry → Option (Int × String × String)
  | .tool k id name _ => some (k, id, name)
  | _ => none

def callKey (tc : ToolCallDelta) : Int × String × String := (tc.index, tc.id.getD "", tc.name)

theorem hasIndex_iff {e : Entry} {k : Int} : e.hasIndex k = true ↔ ∃ c, e.call = some c ∧ c.1 = k := by
  cases e with
  | thinking t g | text t | tool k' id name json => simp [Entry.hasIndex, Entry.call]

/-- The call that a part begins. -/
def newCall (blocks : List Entry) (p : Part) : List (Int × String × String) :=
  if (place blocks p).isSome then [] else (p.tool?.map callKey).toList

theorem call_addPart (blocks : List Entry) (p : Part) :
    ∃ rest, (addPart blocks p).map Entry.call = blocks.map Entry.call ++ rest ∧
      rest.filterMap id = newCall blocks p := by
  have hadd : ∀ e : Entry, (e.add p).call = e.call := fun e => by cases e <;> cases p <;> rfl
  unfold newCall
  rcases part_cases blocks p with ⟨hplace, h, -⟩ | ⟨i, -, hplace, h, -⟩
  · refine ⟨[p.entry.call], by rw [h, map_append, map_singleton], ?_⟩
    rw [hplace]
    cases p <;> rfl
  · refine ⟨[], ?_, by rw [hplace]; rfl⟩
    rw [h, Positions.map_modify_of_comp hadd, append_nil]

theorem findIdx?_hasIndex (blocks : List Entry) (k : Int) :
    blocks.findIdx? (·.hasIndex k) = (blocks.map Entry.call).findIdx? fun c => c.any (·.1 == k) := by
  have hindex : ∀ e : Entry, e.hasIndex k = e.call.any (·.1 == k) := by
    intro e
    cases e with
    | thinking t g | text t | tool k' id name json => rfl
  rw [findIdx?_map]
  exact congrArg (List.findIdx? · blocks) (funext hindex)

theorem findIdx?_parts {k : Int} {i : Nat} (ps : List Part) (h : blocks.findIdx? (·.hasIndex k) = some i) :
    (ps.foldl addPart blocks).findIdx? (·.hasIndex k) = some i := by
  induction ps generalizing blocks with
  | nil => exact h
  | cons p ps ih =>
    obtain ⟨rest, hrest, -⟩ := call_addPart blocks p
    refine ih ?_
    rw [findIdx?_hasIndex] at h ⊢
    rw [hrest, findIdx?_append, h]
    rfl

theorem argumentsTo_argumentsDeltas (i j : Nat) (arguments : String) :
    (argumentsDeltas j arguments).filterMap (argumentsTo i) = if j = i then nonEmpty [arguments] else [] := by
  unfold argumentsDeltas
  by_cases harguments : arguments = ""
  · simp [harguments, nonEmpty]
  · by_cases hi : j = i
    · simp [harguments, hi, argumentsTo, nonEmpty]
    · simp [harguments, hi, Ne.symm hi, argumentsTo]

theorem argumentsTo_message {p : Part} (h : p.tool? = none) (blocks : List Entry) (i : Nat) :
    (partEvents blocks p).filterMap (argumentsTo i) = [] := by
  obtain ⟨j, hpieces⟩ := filterMap_partEvents (f := argumentsTo i) blocks p (fun _ _ => rfl) fun _ => rfl
  rw [hpieces]
  refine filterMap_eq_nil_iff.mpr fun d hd => ?_
  cases p with
  | reasoning t g =>
    rcases mem_reasoningPieces hd with rfl | rfl
    · rfl
    · rfl
  | text t =>
    cases mem_singleton.mp hd
    rfl
  | tool tc => cases h

theorem argumentsTo_tool (blocks : List Entry) (tc : ToolCallDelta) :
    ∃ j, (addPart blocks (.tool tc)).findIdx? (·.hasIndex tc.index) = some j ∧
      ∀ i, (partEvents blocks (.tool tc)).filterMap (argumentsTo i) =
        if j = i then nonEmpty [tc.arguments] else [] := by
  cases hfind : blocks.findIdx? (·.hasIndex tc.index) with
  | some j =>
    refine ⟨j, findIdx?_parts [.tool tc] hfind, fun i => ?_⟩
    rw [partEvents, toolEvents, hfind]
    exact argumentsTo_argumentsDeltas i j tc.arguments
  | none =>
    refine ⟨blocks.length, ?_, fun i => ?_⟩
    · rw [addPart, addTool, hfind, findIdx?_concat, hfind]
      simp [Entry.hasIndex]
    · rw [partEvents, toolEvents, hfind]
      simp only [startEvents, filterMap_append, argumentsTo_argumentsDeltas]
      rw [filterMap_stopEvents (f := argumentsTo i) blocks fun _ => rfl]
      rfl

theorem eq_tool {p : Part} {tc : ToolCallDelta} (h : p.tool? = some tc) : p = .tool tc := by
  cases p with
  | reasoning t g => cases h
  | text t => cases h
  | tool tc' =>
    cases h
    rfl

theorem argumentsTo_partsEvents (blocks : List Entry) (ps : List Part) (i : Nat) :
    (partsEvents blocks ps).filterMap (argumentsTo i) =
      nonEmpty (((ps.filterMap Part.tool?).filter fun tc =>
        (ps.foldl addPart blocks).findIdx? (·.hasIndex tc.index) = some i).map (·.arguments)) := by
  induction ps generalizing blocks with
  | nil => rfl
  | cons p ps ih =>
    rw [partsEvents, filterMap_append, ih, foldl_cons]
    cases hcall : p.tool? with
    | none => rw [argumentsTo_message hcall, filterMap_cons_none hcall, nil_append]
    | some tc =>
      obtain rfl : p = .tool tc := eq_tool hcall
      obtain ⟨j, hfind, harguments⟩ := argumentsTo_tool blocks tc
      rw [filterMap_cons_some hcall, harguments, filter_cons, findIdx?_parts ps hfind]
      by_cases hi : j = i
      · rw [if_pos hi, if_pos (by simp [hi]), nonEmpty, nonEmpty, ← filter_append]
        rfl
      · simp [hi]

theorem isSome_findIdx?_iff (blocks : List Entry) (k : Int) :
    (blocks.findIdx? (·.hasIndex k)).isSome = true ↔ k ∈ (blocks.filterMap Entry.call).map (·.1) := by
  rw [findIdx?_isSome, any_eq_true, mem_map]
  constructor
  · rintro ⟨e, he, hindex⟩
    obtain ⟨c, hc, hk⟩ := hasIndex_iff.mp hindex
    exact ⟨c, mem_filterMap.mpr ⟨e, he, hc⟩, hk⟩
  · rintro ⟨c, hc, hk⟩
    obtain ⟨e, he, hcall⟩ := mem_filterMap.mp hc
    exact ⟨e, he, hasIndex_iff.mpr ⟨c, hcall, hk⟩⟩

/-- The tool blocks are the tool calls in the order of their first deltas. -/
theorem calls_parts (ps : List Part) :
    (ps.foldl addPart []).filterMap Entry.call = (firstCalls (ps.filterMap Part.tool?)).map callKey := by
  induction ps using List.reverseRecOn with
  | nil => rfl
  | append_singleton ps p ih =>
    obtain ⟨rest, hrest, hnew⟩ := call_addPart (ps.foldl addPart []) p
    have hview (blocks : List Entry) :
        blocks.filterMap Entry.call = (blocks.map Entry.call).filterMap id := by
      rw [filterMap_map]
      rfl
    have hcalls : (addPart (ps.foldl addPart []) p).filterMap Entry.call =
        (firstCalls (ps.filterMap Part.tool?)).map callKey ++ newCall (ps.foldl addPart []) p := by
      rw [hview, hrest, filterMap_append, ← hview, ih, hnew]
    rw [foldl_append, filterMap_append]
    refine hcalls.trans ?_
    unfold newCall
    cases hcall : p.tool? with
    | none => simp [hcall]
    | some tc =>
      obtain rfl : p = .tool tc := eq_tool hcall
      have hseen : (place (ps.foldl addPart []) (.tool tc)).isSome = true ↔
          tc.index ∈ (firstCalls (ps.filterMap Part.tool?)).map (·.index) := by
        rw [place, isSome_findIdx?_iff, ih, map_map]
        rfl
      rw [filterMap_cons_some hcall, filterMap_nil]
      simp only [firstCalls, Unseen.addAll_concat, Unseen.add] at hseen ⊢
      by_cases h : tc.index ∈ (Unseen.addAll (·.index) [] (ps.filterMap Part.tool?)).map (·.index)
      · rw [if_pos (hseen.mpr h), if_pos h, append_nil]
      · rw [if_neg (mt hseen.mp h), if_neg h, map_append]
        rfl

theorem findIdx?_of_call {ps : List Part} {e : Entry} {i : Nat}
    (h : (ps.foldl addPart [])[i]? = some e) {c : Int × String × String} (hc : e.call = some c) (k : Int) :
    (ps.foldl addPart []).findIdx? (·.hasIndex k) = some i ↔ c.1 = k := by
  have hkeys : (((ps.foldl addPart []).filterMap Entry.call).map (·.1)).Nodup := by
    rw [calls_parts, map_map]
    exact Unseen.nodup_keys_addAll (ps.filterMap Part.tool?) (by simp)
  generalize ps.foldl addPart [] = blocks at h hkeys
  have hdistinct := pairwise_iff_getElem.mp (pairwise_filterMap.mp (pairwise_map.mp hkeys))
  obtain ⟨hi, rfl⟩ := List.getElem?_eq_some_iff.mp h
  constructor
  · intro hfind
    obtain ⟨_, hindex, -⟩ := findIdx?_eq_some_iff_getElem.mp hfind
    obtain ⟨c', hc', hk⟩ := hasIndex_iff.mp hindex
    cases hc.symm.trans hc'
    exact hk
  · rintro rfl
    have hsome := (isSome_findIdx?_iff blocks c.1).mpr
      (mem_map_of_mem (mem_filterMap.mpr ⟨_, getElem_mem hi, hc⟩))
    obtain ⟨j, hfind⟩ := Option.isSome_iff_exists.mp hsome
    obtain ⟨hj, hindex, -⟩ := findIdx?_eq_some_iff_getElem.mp hfind
    obtain ⟨c', hc', hk⟩ := hasIndex_iff.mp hindex
    rcases Nat.lt_trichotomy i j with hlt | rfl | hlt
    · exact absurd hk.symm (hdistinct i j hi hj hlt c hc c' hc')
    · exact hfind
    · exact absurd hk (hdistinct j i hj hi hlt c' hc' c hc)

end

/-! ## Parts and deltas -/

theorem filterMap_filter_of {α β : Type} {f : α → Option β} {p : α → Bool}
    (h : ∀ a, p a = false → f a = none) (l : List α) : (l.filter p).filterMap f = l.filterMap f := by
  rw [filterMap_filter]
  refine filterMap_congr fun a _ => ?_
  cases ha : p a with
  | true => rfl
  | false => rw [h a ha]; rfl

variable (delta : ChoiceDelta)

theorem pieces_partsOf :
    (partsOf delta).flatMap pieces =
      (reasoningsOf delta).flatMap (fun r => reasoningPieces r.1 r.2) ++
        ((nonEmpty delta.content.toList).map .text ++
          delta.toolCalls.flatMap fun tc => pieces (.tool tc)) := by
  have hreasoning (rs : List (String × String)) :
      ((rs.map fun r => Part.reasoning r.1 r.2).filter (!·.isEmpty)).flatMap pieces =
        rs.flatMap fun r => reasoningPieces r.1 r.2 := by
    induction rs with
    | nil => rfl
    | cons r rs ih =>
      rw [map_cons, flatMap_cons, ← ih]
      cases hr : (Part.reasoning r.1 r.2).isEmpty with
      | true =>
        have hempty : r.1 = "" ∧ r.2 = "" := by simpa [Part.isEmpty] using hr
        rw [filter_cons_of_neg (by simp [hr])]
        simp [reasoningPieces, hempty]
      | false =>
        rw [filter_cons_of_pos (by simp [hr])]
        rfl
  have htext : (delta.content.toList.map Part.text).filter (!·.isEmpty) =
      (nonEmpty delta.content.toList).map .text := by
    rw [filter_map]
    refine congrArg (List.map Part.text) (filter_congr fun t _ => ?_)
    simp [Part.isEmpty, beq_eq_decide]
  have htools : (delta.toolCalls.map Part.tool).filter (!·.isEmpty) = delta.toolCalls.map .tool := by
    rw [filter_map]
    simp [Function.comp_def, Part.isEmpty]
  rw [partsOf, allParts_eq, filter_append, filter_append, flatMap_append,
    flatMap_append, hreasoning, htext, htools, flatMap_map, flatMap_map,
    append_assoc, ← flatMap_singleton' ((nonEmpty _).map _), flatMap_map]
  rfl

theorem mem_pieces_tool {tc : ToolCallDelta} {d : Delta} (h : d ∈ pieces (.tool tc)) :
    d = .inputJSON tc.arguments := by
  simp only [pieces] at h
  split at h
  · cases h
  · exact mem_singleton.mp h

theorem reasoning_partsOf :
    ((partsOf delta).flatMap pieces).filter isReasoning =
      (reasoningsOf delta).flatMap fun r => reasoningPieces r.1 r.2 := by
  have hall : ((reasoningsOf delta).flatMap fun r => reasoningPieces r.1 r.2).filter isReasoning =
      (reasoningsOf delta).flatMap fun r => reasoningPieces r.1 r.2 := by
    refine filter_eq_self.mpr fun d hd => ?_
    obtain ⟨r, -, hr⟩ := mem_flatMap.mp hd
    rcases mem_reasoningPieces hr with rfl | rfl
    · rfl
    · rfl
  rw [pieces_partsOf, filter_append, hall, append_right_eq_self]
  refine filter_eq_nil_iff.mpr fun d hd => ?_
  rcases mem_append.mp hd with hd | hd
  · obtain ⟨t, -, rfl⟩ := mem_map.mp hd
    simp [isReasoning]
  · obtain ⟨tc, -, hd⟩ := mem_flatMap.mp hd
    simp [mem_pieces_tool hd, isReasoning]

theorem text_partsOf : ((partsOf delta).flatMap pieces).filterMap textOf = nonEmpty delta.content.toList := by
  have hreasoning : ((reasoningsOf delta).flatMap fun r => reasoningPieces r.1 r.2).filterMap textOf =
      [] := by
    refine filterMap_eq_nil_iff.mpr fun d hd => ?_
    obtain ⟨r, -, hr⟩ := mem_flatMap.mp hd
    rcases mem_reasoningPieces hr with rfl | rfl
    · rfl
    · rfl
  have htools : (delta.toolCalls.flatMap fun tc => pieces (.tool tc)).filterMap textOf = [] := by
    refine filterMap_eq_nil_iff.mpr fun d hd => ?_
    obtain ⟨tc, -, hd⟩ := mem_flatMap.mp hd
    rw [mem_pieces_tool hd]
    rfl
  rw [pieces_partsOf, filterMap_append, filterMap_append, hreasoning, htools]
  simp [Function.comp_def, textOf]

/-! ## Whole streams -/

/-- Around the events of the parts there are only those of the message and the last stop. -/
theorem translate_parts (requestModel : String) {chunks : List Chunk} (h : UsageLast chunks) :
    ∃ (front : List Event) (inputTokens outputTokens : Int), (∀ e ∈ front, ∃ m, e = .messageStart m) ∧
      translate requestModel chunks = front ++ partsEvents [] (streamParts chunks) ++
        closingEvents (streamBlocks chunks) (streamReason chunks) inputTokens outputTokens := by
  obtain ⟨events, it, ot, hevents, hbegins⟩ := translate_eq requestModel h
  unfold Begins at hbegins
  split at hbegins
  · obtain ⟨m, rfl⟩ := hbegins
    exact ⟨[.messageStart m], it, ot, fun e he => ⟨m, mem_singleton.mp he⟩, hevents⟩
  · obtain ⟨rfl, hparts⟩ := hbegins
    refine ⟨[], it, ot, fun e he => absurd he not_mem_nil, ?_⟩
    rw [hevents, hparts]
    rfl

theorem filterMap_translate {β : Type} {f : Event → Option β} (requestModel : String)
    {chunks : List Chunk} (h : UsageLast chunks) (hstart : ∀ m, f (.messageStart m) = none)
    (hdelta : ∀ r it ot, f (.messageDelta r it ot) = none) (hstop : f .messageStop = none) :
    (translate requestModel chunks).filterMap f =
      (partsEvents [] (streamParts chunks)).filterMap f ++
        (stopEvents (streamBlocks chunks)).filterMap f := by
  obtain ⟨front, it, ot, hfront, htranslate⟩ := translate_parts requestModel h
  have hnone : front.filterMap f = [] := by
    refine filterMap_eq_nil_iff.mpr fun e he => ?_
    obtain ⟨m, rfl⟩ := hfront e he
    exact hstart m
  rw [htranslate]
  simp [filterMap_append, hnone, hdelta, hstop]

section

variable {chunks : List Chunk} (requestModel : String) (h : UsageLast chunks)
include h

theorem eventDelta_translate :
    (translate requestModel chunks).filterMap eventDelta = (streamParts chunks).flatMap pieces := by
  rw [filterMap_translate requestModel h (fun _ => rfl) (fun _ _ _ => rfl) rfl,
    filterMap_stopEvents _ fun _ => rfl, append_nil, eventDelta_partsEvents]

theorem text_translate :
    ((translate requestModel chunks).filterMap eventDelta).filterMap textOf = nonEmpty (contents chunks) := by
  rw [eventDelta_translate requestModel h, streamParts_eq, contents]
  induction deltas chunks with
  | nil => rfl
  | cons d ds ih =>
    rw [flatMap_cons, flatMap_append, filterMap_append, text_partsOf, ih]
    cases hd : d.content with
    | none => rw [filterMap_cons_none hd]; rfl
    | some t =>
      rw [filterMap_cons_some hd, nonEmpty, nonEmpty, ← filter_append]
      rfl

theorem reasoning_translate :
    ((translate requestModel chunks).filterMap eventDelta).filter isReasoning =
      (reasonings chunks).flatMap fun r => reasoningPieces r.1 r.2 := by
  rw [eventDelta_translate requestModel h, streamParts_eq, reasonings, flatMap_assoc,
    filter_flatMap, flatMap_assoc]
  exact flatMap_congr fun d _ => reasoning_partsOf d

theorem starts_translate :
    (translate requestModel chunks).filterMap startOf = numbered (streamBlocks chunks) := by
  rw [filterMap_translate requestModel h (fun _ => rfl) (fun _ _ _ => rfl) rfl,
    filterMap_stopEvents _ fun _ => rfl, append_nil]
  exact partsEvents_view starts_partEvents [] (streamParts chunks)

theorem stops_translate :
    (translate requestModel chunks).filterMap stopOf = List.range (streamBlocks chunks).length := by
  have hparts := partsEvents_view stops_partEvents [] (streamParts chunks)
  rw [filterMap_translate requestModel h (fun _ => rfl) (fun _ _ _ => rfl) rfl]
  rw [length_nil, range_zero, nil_append, ← streamBlocks] at hparts
  rw [hparts]
  rcases eq_nil_or_concat' (streamBlocks chunks) with hnil | ⟨init, e, hconcat⟩
  · rw [hnil]
    rfl
  · rw [hconcat]
    simp [stopOf, range_succ]

theorem argumentsTo_translate (i : Nat) :
    String.join ((translate requestModel chunks).filterMap (argumentsTo i)) =
      String.join (((toolCalls chunks).filter fun tc =>
        (streamBlocks chunks).findIdx? (·.hasIndex tc.index) = some i).map (·.arguments)) := by
  rw [filterMap_translate requestModel h (fun _ => rfl) (fun _ _ _ => rfl) rfl,
    filterMap_stopEvents _ fun _ => rfl, append_nil, argumentsTo_partsEvents, join_nonEmpty,
    calls_streamParts]
  rfl

theorem arguments_translate :
    toolBlocks (translate requestModel chunks) = (firstCalls (toolCalls chunks)).map fun tc =>
      (tc.id.getD "", tc.name, argumentsOf tc.index (toolCalls chunks)) := by
  -- block by block: the block at `i` gets the arguments of the calls with its index
  have hentry : ∀ x ∈ (streamBlocks chunks).zipIdx,
      ((toolStart (x.2, x.1.start)).map fun t => (t.2.1, t.2.2,
        String.join ((translate requestModel chunks).filterMap (argumentsTo t.1)))) =
      x.1.call.map fun c => (c.2.1, c.2.2, argumentsOf c.1 (toolCalls chunks)) := by
    rintro ⟨e, i⟩ hx
    have hi : (streamBlocks chunks)[i]? = some e := mem_zipIdx_iff_getElem?.mp hx
    cases e with
    | thinking t g => rfl
    | text t => rfl
    | tool k id name json =>
      have hown := findIdx?_of_call hi (c := (k, id, name)) rfl
      simp only [toolStart, Entry.start, Entry.call, Option.map_some, argumentsTo_translate requestModel h]
      simp only [streamBlocks, hown, argumentsOf, eq_comm]
  calc toolBlocks (translate requestModel chunks)
      = (streamBlocks chunks).zipIdx.filterMap (fun x => (toolStart (x.2, x.1.start)).map fun t =>
          (t.2.1, t.2.2, String.join ((translate requestModel chunks).filterMap (argumentsTo t.1)))) := by
        rw [toolBlocks, starts_translate requestModel h, numbered, zipIdx_map, map_map,
          filterMap_map, map_filterMap]
        rfl
    _ = (streamBlocks chunks).zipIdx.filterMap (fun x => x.1.call.map fun c =>
          (c.2.1, c.2.2, argumentsOf c.1 (toolCalls chunks))) := filterMap_congr hentry
    _ = ((streamBlocks chunks).filterMap Entry.call).map (fun c =>
          (c.2.1, c.2.2, argumentsOf c.1 (toolCalls chunks))) := by
        rw [map_filterMap]
        conv_rhs => rw [← zipIdx_map_fst 0 (streamBlocks chunks), filterMap_map]
        rfl
    _ = _ := by
        rw [streamBlocks, calls_parts, calls_streamParts, map_map]
        rfl

theorem fresh_translate : (translate requestModel chunks).Pairwise StartsOther := by
  obtain ⟨front, it, ot, hfront, htranslate⟩ := translate_parts requestModel h
  have hend : ∀ e ∈ closingEvents (streamBlocks chunks) (streamReason chunks) it ot, startOf e = none := by
    intro e he
    rcases mem_append.mp he with he | he
    · unfold stopEvents at he
      split at he
      · cases he
      · cases mem_singleton.mp he
        rfl
    · rcases mem_pair.mp he with rfl | rfl
      · rfl
      · rfl
  rw [htranslate]
  refine pairwise_append.mpr ⟨pairwise_append.mpr ⟨?_, ?_, ?_⟩, ?_, ?_⟩
  · refine pairwise_of_no_start fun e he => ?_
    obtain ⟨m, rfl⟩ := hfront e he
    rfl
  · exact (fresh_partsEvents [] _).1
  · intro e he e' _ i _ hindex
    obtain ⟨m, rfl⟩ := hfront e he
    cases hindex
  · exact pairwise_of_no_start hend
  · exact fun _ _ e' he' => startsOther_of_no_start (hend e' he')

omit h in
theorem thinking_reasoningPieces (t g : String) :
    (reasoningPieces t g).filterMap thinkingOf = nonEmpty [t] ∧
      (reasoningPieces t g).filterMap signatureOf = nonEmpty [g] := by
  unfold reasoningPieces
  by_cases ht : t = ""
  · by_cases hg : g = ""
    · simp [ht, hg, nonEmpty]
    · simp [ht, hg, nonEmpty, thinkingOf, signatureOf]
  · by_cases hg : g = ""
    · simp [ht, hg, nonEmpty, thinkingOf, signatureOf]
    · simp [ht, hg, nonEmpty, thinkingOf, signatureOf, filterMap_cons]

theorem join_reasoning {f : Delta → Option String} {side : String × String → String}
    (hf : ∀ d, isReasoning d = false → f d = none)
    (hside : ∀ r, (reasoningPieces r.1 r.2).filterMap f = nonEmpty [side r]) :
    String.join (((translate requestModel chunks).filterMap eventDelta).filterMap f) =
      String.join ((reasonings chunks).map side) := by
  rw [← filterMap_filter_of hf, reasoning_translate requestModel h, filterMap_flatMap]
  induction reasonings chunks with
  | nil => rfl
  | cons r rs ih =>
    rw [flatMap_cons, String.join_append, hside, join_nonEmpty, ih, map_cons,
      String.join_cons, String.join_cons, String.join_nil, String.append_empty]

/-! ## Top theorem -/

/-- All texts, all reasoning and all arguments come out once and in order, in blocks that are
started afresh and stopped once. -/
theorem translate_carries : Carries chunks (translate requestModel chunks) where
  text := by rw [text_translate requestModel h, join_nonEmpty]
  thinking := by
    refine join_reasoning requestModel h ?_ fun r => (thinking_reasoningPieces r.1 r.2).1
    intro d hd
    cases d with
    | text t | signature g | inputJSON a => rfl
    | thinking t => cases hd
  signature := by
    refine join_reasoning requestModel h ?_ fun r => (thinking_reasoningPieces r.1 r.2).2
    intro d hd
    cases d with
    | text t | thinking t | inputJSON a => rfl
    | signature g => cases hd
  reasoning := reasoning_translate requestModel h
  arguments := arguments_translate requestModel h
  fresh := fresh_translate requestModel h
  stopped := by
    intro i b hmem
    have hstart : (i, b) ∈ (translate requestModel chunks).filterMap startOf :=
      mem_filterMap.mpr ⟨_, hmem, rfl⟩
    rw [starts_translate requestModel h] at hstart
    obtain ⟨⟨b', j⟩, hb', hj⟩ := mem_map.mp hstart
    cases hj
    have hlt : j < (streamBlocks chunks).length := by
      simpa using (List.getElem?_eq_some_iff.mp (mem_zipIdx_iff_getElem?.mp hb')).1
    rw [stops_translate requestModel h]
    exact count_eq_one_of_mem nodup_range (mem_range.mpr hlt)

end

/-- The deltas of two tool calls that come in turns, with a text between them. -/
def callsInTurns : List Chunk :=
  [call 0, call 1, hello, call 0].map fun d => chunkWith d.2

/-- The text is written into the block of the second call and the rest of the first call into a block
that is closed, but nothing is lost. -/
theorem calls_in_turns_carried :
    UsageLast callsInTurns ∧ Carries callsInTurns (translate "m" callsInTurns) ∧
      toolBlocks (translate "m" callsInTurns) = [("t", "f", "11"), ("t", "f", "1")] := by
  have h : UsageLast callsInTurns := by decide
  exact ⟨h, translate_carries "m" h, by decide⟩

end AgentRouter.OpenAIStream
