import AgentRouter.Lib.Results
import AgentRouter.Translator.AnthropicParser

/-!
# AnthropicToolCalls: the arguments of streamed tool calls

The arguments of a tool call come with the start of its block and with the deltas that follow,
and the parser writes them as they come.  While the block is open the parser also keeps them, and
a stream that ends inside a tool block makes it write all of them once more.

    arguments written under index i = arguments given to the i-th tool block, for every i
      ↔  no arguments are given from a refused event on, and a stream without one does not end
         inside a tool block with arguments   (arguments_written_once_iff)
-/

namespace AgentRouter.AnthropicParser

open Completion Emit OpenAIStream List Results

variable {ι : Type}

/-! ## Sequential blocks -/

/-- The input of a tool block. -/
def StartBlock.toolInput : StartBlock ι → Option (ToolInput ι)
  | .toolUse _ _ input => some input
  | .serverToolUse _ _ input => some input
  | _ => none

/-- Where in a stream the next event stands. -/
inductive Phase where
  | start
  | between
  | inside (tool : Bool)
  deriving DecidableEq

/-- One message, and its blocks one after the other. -/
def advance : Phase → SourceEvent ι → Option Phase
  | .start, .messageStart _ _ => some .between
  | .between, .contentBlockStart block => some (.inside block.toolInput.isSome)
  | .inside tool, .contentBlockDelta _ => some (.inside tool)
  | .inside _, .contentBlockStop => some .between
  | .between, .messageDelta _ _ => some .between
  | .between, .messageStop => some .between
  | phase, .error _ _ => some phase
  | phase, .ping => some phase
  | phase, .other => some phase
  | phase, .malformed _ => some phase
  | _, _ => none

def phaseOf (events : List (SourceEvent ι)) : Option Phase := events.foldlM advance .start

def Sequential (events : List (SourceEvent ι)) : Prop := (phaseOf events).isSome = true

/-- The stream ends inside a tool block. -/
def InTool (events : List (SourceEvent ι)) : Prop := phaseOf events = some (.inside true)

instance (events : List (SourceEvent ι)) : Decidable (Sequential events) :=
  inferInstanceAs (Decidable (_ = _))

instance (events : List (SourceEvent ι)) : Decidable (InTool events) :=
  inferInstanceAs (Decidable (_ = _))

/-! ## The arguments that are given -/

/-- The arguments of the tool blocks so far, and whether the last block is one. -/
def noteArguments (o : JsonObjects ι) (s : List String × Bool) : SourceEvent ι → List String × Bool
  | .contentBlockStart block =>
    (s.1 ++ (block.toolInput.map (startArguments o)).toList, block.toolInput.isSome)
  | .contentBlockDelta (.inputJSON partialJSON) =>
    (if s.2 then s.1.modify (s.1.length - 1) (· ++ partialJSON) else s.1, s.2)
  | _ => s

def noted (o : JsonObjects ι) (events : List (SourceEvent ι)) : List String × Bool :=
  events.foldl (noteArguments o) ([], false)

/-- The arguments of the tool blocks: the input at the start, then the deltas. -/
def given (o : JsonObjects ι) (events : List (SourceEvent ι)) : List String := (noted o events).1

def argumentsOf (calls : List String) (index : Int) : String :=
  if 0 ≤ index then calls.getD index.toNat "" else ""

/-- The arguments of the tool block the stream ends in. -/
def openArguments (o : JsonObjects ι) (events : List (SourceEvent ι)) : String :=
  if InTool events then (given o events).getLastD "" else ""

/-- The deltas of tool calls in the output, in the order they are written. -/
def callsIn (out : List Written) : List ToolCallDelta := callsOf (out.flatMap Written.choices)

/-! ## The events that are refused -/

def noteReason (reason : SourceStopReason) : SourceEvent ι → SourceStopReason
  | .messageDelta stopReason _ => stopReason.getD reason
  | _ => reason

/-- The last stop reason, or the default one. -/
def reasonOf (events : List (SourceEvent ι)) : SourceStopReason :=
  events.foldl noteReason .endTurn

def ToolInput.isObject : ToolInput ι → Bool
  | .other _ => false
  | _ => true

/-- Errors, undecodable data, tool inputs that are no objects, arguments outside of a tool block
and unknown stop reasons end the stream. -/
def accepts (before : List (SourceEvent ι)) : SourceEvent ι → Bool
  | .error _ _ => false
  | .malformed _ => false
  | .contentBlockStart block => block.toolInput.all ToolInput.isObject
  | .contentBlockDelta (.inputJSON _) => InTool before
  | .messageStop => (reasonOf before).known
  | _ => true

/-- The events before the first one that is refused. -/
def untilRefused (events : List (SourceEvent ι)) : List (SourceEvent ι) :=
  takeAccepted accepts [] events

/-! ## Lemmas -/

@[simp] theorem callsIn_append (out out' : List Written) :
    callsIn (out ++ out') = callsIn out ++ callsIn out' := by
  rw [callsIn, flatMap_append, callsOf_append]
  rfl

theorem argumentsAt_singleton (i : Int) (d : ToolCallDelta) :
    argumentsAt i [d] = if d.index = i then d.arguments else "" := by
  unfold argumentsAt
  by_cases h : d.index = i
  · simp [h]
  · simp [h]

theorem argumentsOf_concat (calls : List String) (a : String) (i : Int) :
    argumentsOf (calls ++ [a]) i = if i = calls.length then a else argumentsOf calls i := by
  unfold argumentsOf
  by_cases hi : 0 ≤ i
  · rw [if_pos hi, if_pos hi]
    obtain ⟨n, rfl⟩ := Int.eq_ofNat_of_zero_le hi
    simp only [Int.toNat_natCast, Nat.cast_inj, getD_eq_getElem?_getD]
    rcases Nat.lt_trichotomy n calls.length with hlt | rfl | hgt
    · rw [getElem?_append_left hlt, if_neg (by omega)]
    · simp
    · rw [getElem?_eq_none (by simp; omega), getElem?_eq_none (by omega), if_neg (by omega)]
  · have hne : ¬ i = calls.length := by omega
    rw [if_neg hi, if_neg hi, if_neg hne]

theorem argumentsOf_length (calls : List String) : argumentsOf calls calls.length = "" := by
  unfold argumentsOf
  simp

theorem phaseOf_concat (events : List (SourceEvent ι)) (e : SourceEvent ι) :
    phaseOf (events ++ [e]) = (phaseOf events).bind fun phase => advance phase e := by
  unfold phaseOf
  rw [foldlM_append]
  simp only [foldlM_cons, foldlM_nil, bind_pure]
  rfl

theorem given_concat (o : JsonObjects ι) (events : List (SourceEvent ι)) (e : SourceEvent ι) :
    given o (events ++ [e]) = (noteArguments o (noted o events) e).1 := by
  unfold given noted
  rw [foldl_append]
  rfl

variable {before after : List (SourceEvent ι)}

theorem Sequential.of_append (h : Sequential (before ++ after)) : Sequential before := by
  unfold Sequential phaseOf at *
  rw [foldlM_append] at h
  cases hbefore : before.foldlM advance Phase.start with
  | none =>
    rw [hbefore] at h
    cases h
  | some phase => rfl

/-! ## What an event does to the tool calls -/

/-- Events that leave the tool calls alone. -/
def SourceEvent.quiet : SourceEvent ι → Bool
  | .messageStart _ _ => false
  | .contentBlockStart block => block.toolInput.isNone
  | .contentBlockDelta (.inputJSON _) => false
  | .contentBlockStop => false
  | _ => true

/-- The event takes the parser from `p` to `p'` and writes these deltas. -/
inductive ToolStep (o : JsonObjects ι) (p p' : Parser) : SourceEvent ι → List ToolCallDelta → Prop
  | start {block : StartBlock ι} {input : ToolInput ι} {id name : String}
      (hblock : block.toolInput = some input) (hindex : p'.toolIndex = p.toolIndex + 1)
      (hactive : p'.activeToolCalls =
        p.activeToolCalls.insert (p.toolIndex + 1) ⟨id, name, startArguments o input⟩) :
      ToolStep o p p' (.contentBlockStart block)
        [⟨p.toolIndex + 1, some id, name, startArguments o input⟩]
  | extend {tool : StreamingToolCall} {partialJSON : String}
      (htool : p.activeToolCalls.lookup p.toolIndex = some tool)
      (hindex : p'.toolIndex = p.toolIndex)
      (hactive : p'.activeToolCalls = p.activeToolCalls.insert p.toolIndex
        { tool with inputJSON := tool.inputJSON ++ partialJSON }) :
      ToolStep o p p' (.contentBlockDelta (.inputJSON partialJSON))
        [⟨p.toolIndex, none, "", partialJSON⟩]
  | stop (hindex : p'.toolIndex = p.toolIndex)
      (hactive : p'.activeToolCalls = p.activeToolCalls.erase p.toolIndex) :
      ToolStep o p p' .contentBlockStop []
  | reset {id : String} {usage : MessageUsage} (hindex : p'.toolIndex = -1)
      (hactive : p'.activeToolCalls = p.activeToolCalls) :
      ToolStep o p p' (.messageStart id usage) []
  | quiet {e : SourceEvent ι} (he : e.quiet = true) (hindex : p'.toolIndex = p.toolIndex)
      (hactive : p'.activeToolCalls = p.activeToolCalls) : ToolStep o p p' e []

variable {e : SourceEvent ι} {o : JsonObjects ι}

theorem writeEvent_eq_ok {p p' : Parser} (h : (writeEvent o p e).result = .ok p') :
    ∃ chunk, handleAnthropicStreamEvent o p e = .ok (p', chunk) ∧
      (writeEvent o p e).out = chunk.toList.map .chunk := by
  unfold writeEvent at *
  split at h
  next p₁ chunk heq =>
    cases h
    rw [heq]
    exact ⟨chunk, rfl, rfl⟩
  next err heq =>
    obtain ⟨e', he'⟩ := overload_result err
    rw [he'] at h
    cases h

theorem callsIn_of_error {p : Parser} {err : StreamError}
    (h : (writeEvent o p e).result = .error err) : callsIn (writeEvent o p e).out = [] := by
  unfold writeEvent at *
  split at h
  next => cases h
  next err heq =>
    unfold overload
    split
    · split <;> rfl
    · rfl

theorem result_writeEvent (o : JsonObjects ι) (p : Parser) (e : SourceEvent ι) :
    (∃ p', (writeEvent o p e).result = .ok p') ↔ ∃ r, handleAnthropicStreamEvent o p e = .ok r := by
  constructor
  · rintro ⟨p', h⟩
    obtain ⟨chunk, hhandle, -⟩ := writeEvent_eq_ok h
    exact ⟨_, hhandle⟩
  · rintro ⟨⟨p', chunk⟩, h⟩
    refine ⟨p', ?_⟩
    unfold writeEvent
    rw [h]

variable {input : ToolInput ι}

theorem argsJSON_eq_ok {args : String} (h : argsJSON o input = .ok args) : args = startArguments o input := by
  cases input with
  | absent | object input =>
    cases h
    rfl
  | other goType => cases h

theorem step_startToolCall {p p' : Parser} {block : StartBlock ι} {id name : String}
    {chunk : Option CompletionChunk} (hblock : block.toolInput = some input)
    (h : (argsJSON o input).map (startToolCall p id name) = .ok (p', chunk)) :
    ToolStep o p p' (.contentBlockStart block) (callsIn (chunk.toList.map .chunk)) ∧
      p'.stopReason.getD .endTurn = noteReason (p.stopReason.getD .endTurn) (.contentBlockStart block) := by
  obtain ⟨args, hargs, heq⟩ := Results.map_eq_ok h
  have hstart := argsJSON_eq_ok hargs
  subst hstart
  cases heq
  exact ⟨.start hblock rfl rfl, rfl⟩

/-- All that an accepted event does to the tool calls and to the stop reason. -/
theorem step_of_ok {p p' : Parser} (h : (writeEvent o p e).result = .ok p') :
    ToolStep o p p' e (callsIn (writeEvent o p e).out) ∧
      p'.stopReason.getD .endTurn = noteReason (p.stopReason.getD .endTurn) e := by
  obtain ⟨chunk, hhandle, hout⟩ := writeEvent_eq_ok h
  rw [hout]
  cases e with
  | messageStart id usage =>
    cases hhandle
    exact ⟨.reset rfl rfl, rfl⟩
  | contentBlockStart block =>
    cases block with
    | toolUse _ _ _ | serverToolUse _ _ _ => exact step_startToolCall rfl hhandle
    | text | thinking | redactedThinking _ | other =>
      cases hhandle
      exact ⟨.quiet rfl rfl rfl, rfl⟩
  | contentBlockDelta delta =>
    cases delta with
    | inputJSON partialJSON =>
      rw [handleAnthropicStreamEvent, handleContentBlockDelta] at hhandle
      split at hhandle
      · cases hhandle
      next tool htool =>
        cases hhandle
        exact ⟨.extend htool rfl rfl, rfl⟩
    | text _ | thinking _ | other =>
      cases hhandle
      exact ⟨.quiet rfl rfl rfl, rfl⟩
  | contentBlockStop =>
    cases hhandle
    exact ⟨.stop rfl rfl, rfl⟩
  | messageStop =>
    obtain ⟨reason, -, heq⟩ := Results.map_eq_ok hhandle
    cases heq
    exact ⟨.quiet rfl rfl rfl, rfl⟩
  | messageDelta stopReason usage =>
    cases hhandle
    refine ⟨.quiet rfl rfl rfl, ?_⟩
    cases stopReason <;> rfl
  | ping | other =>
    cases hhandle
    exact ⟨.quiet rfl rfl rfl, rfl⟩
  | error _ _ | malformed _ => cases hhandle

theorem argsJSON_isOk (o : JsonObjects ι) (input : ToolInput ι) :
    input.isObject = true ↔ ∃ args, argsJSON o input = .ok args := by
  cases input <;> simp [ToolInput.isObject, argsJSON]

/-! ## The invariant -/

/-- The parser after these events, and the output so far. -/
structure Tracks (o : JsonObjects ι) (p : Parser) (events : List (SourceEvent ι))
    (out : List Written) : Prop where
  index : p.toolIndex = (given o events).length - 1
  active : ∀ i, (p.activeToolCalls.lookup i).map (·.inputJSON) =
    if InTool events ∧ i = p.toolIndex then (given o events).getLast? else none
  arguments : ∀ i, argumentsAt i (callsIn out) = argumentsOf (given o events) i

theorem tracks_start (o : JsonObjects ι) (requestModel : String) :
    Tracks o (newAnthropicStreamParser requestModel) [] [] where
  index := rfl
  active := fun _ => rfl
  arguments := by
    intro i
    unfold argumentsOf
    split <;> rfl

variable {events : List (SourceEvent ι)}

theorem Sequential.advance (h : Sequential (events ++ [e])) :
    ∃ phase phase', phaseOf events = some phase ∧ advance phase e = some phase' ∧
      phaseOf (events ++ [e]) = some phase' := by
  unfold Sequential at h
  rw [phaseOf_concat] at h ⊢
  cases hphase : phaseOf events with
  | none =>
    rw [hphase] at h
    cases h
  | some phase =>
    rw [hphase] at h
    obtain ⟨phase', hphase'⟩ := Option.isSome_iff_exists.mp h
    exact ⟨phase, phase', rfl, hphase', hphase'⟩

theorem noteArguments_of_quiet (o : JsonObjects ι) (s : List String × Bool) (he : e.quiet = true) :
    (noteArguments o s e).1 = s.1 := by
  unfold noteArguments
  split
  next block =>
    have hnone : block.toolInput = none := Option.isNone_iff_eq_none.mp he
    rw [hnone]
    exact append_nil s.1
  next => cases he
  next => rfl

theorem given_of_start (o : JsonObjects ι) (h : phaseOf events = some .start) : given o events = [] := by
  induction events using List.reverseRecOn with
  | nil => rfl
  | append_singleton events e ih =>
    rw [phaseOf_concat, Option.bind_eq_some_iff] at h
    obtain ⟨phase, hphase, hadvance⟩ := h
    have hstart : phase = .start ∧ e.quiet = true := by
      unfold advance at hadvance
      split at hadvance <;> cases hadvance <;> exact ⟨rfl, rfl⟩
    rw [hstart.1] at hphase
    rw [given_concat, noteArguments_of_quiet o _ hstart.2]
    exact ih hphase

theorem advance_eq_inTool {phase : Phase} (h : advance phase e = some (.inside true)) :
    phase = .inside true ∨ ∃ block input, e = .contentBlockStart block ∧ block.toolInput = some input := by
  cases e with
  | contentBlockStart block =>
    have hblock : block.toolInput.isSome = true := by
      cases phase <;> simp_all [advance]
    obtain ⟨input, hinput⟩ := Option.isSome_iff_exists.mp hblock
    exact .inr ⟨block, input, rfl, hinput⟩
  | _ => cases phase <;> cases h <;> exact .inl rfl

theorem noted_of_inTool (o : JsonObjects ι) (h : InTool events) : (noted o events).2 = true := by
  induction events using List.reverseRecOn with
  | nil => cases h
  | append_singleton events e ih =>
    unfold InTool at h
    rw [phaseOf_concat, Option.bind_eq_some_iff] at h
    obtain ⟨phase, hphase, hadvance⟩ := h
    have hnoted : noted o (events ++ [e]) = noteArguments o (noted o events) e := by
      rw [noted, foldl_append]
      rfl
    rw [hnoted]
    rcases advance_eq_inTool hadvance with rfl | ⟨block, input, rfl, hblock⟩
    · unfold noteArguments
      split
      · cases hadvance
      · exact ih hphase
      · exact ih hphase
    · simp [noteArguments, hblock]

theorem given_ne_nil (o : JsonObjects ι) (h : InTool events) : given o events ≠ [] := by
  induction events using List.reverseRecOn with
  | nil => cases h
  | append_singleton events e ih =>
    unfold InTool at h
    rw [phaseOf_concat, Option.bind_eq_some_iff] at h
    obtain ⟨phase, hphase, hadvance⟩ := h
    rw [given_concat]
    rcases advance_eq_inTool hadvance with rfl | ⟨block, input, rfl, hblock⟩
    · have h := ih hphase
      unfold noteArguments
      split
      · cases hadvance
      · simpa [noted_of_inTool o hphase, modify_eq_nil_iff, given] using h
      · exact h
    · simp [noteArguments, hblock]

section

variable {o : JsonObjects ι} {p p' : Parser} {events : List (SourceEvent ι)}
  {out written : List Written} (ht : Tracks o p events out)

include ht

theorem Tracks.start {block : StartBlock ι} {id name : String}
    (hseq : Sequential (events ++ [.contentBlockStart block]))
    (hblock : block.toolInput = some input) (hindex : p'.toolIndex = p.toolIndex + 1)
    (hactive : p'.activeToolCalls = p.activeToolCalls.insert (p.toolIndex + 1) ⟨id, name, startArguments o input⟩)
    (hcalls : callsIn written = [⟨p.toolIndex + 1, some id, name, startArguments o input⟩]) :
    Tracks o p' (events ++ [.contentBlockStart block]) (out ++ written) := by
  obtain ⟨phase, phase', hphase, hadvance, hphase'⟩ := hseq.advance
  obtain ⟨rfl, rfl⟩ : phase = .between ∧ phase' = .inside true := by
    cases phase <;> simp_all [AnthropicParser.advance]
  have hnot : ¬ InTool events := by
    unfold InTool
    rw [hphase]
    simp
  have hgiven : given o (events ++ [.contentBlockStart block]) =
      given o events ++ [startArguments o input] := by
    rw [given_concat]
    simp [noteArguments, hblock, given]
  have hlength : p.toolIndex + 1 = (given o events).length := by
    have := ht.index
    omega
  constructor
  · rw [hgiven, length_append, length_singleton]
    omega
  · intro i
    rw [hactive, hindex, hgiven, getLast?_concat]
    by_cases hi : i = p.toolIndex + 1
    · subst hi
      rw [AList.lookup_insert, if_pos ⟨hphase', rfl⟩]
      rfl
    · rw [AList.lookup_insert_ne hi, ht.active, if_neg (fun h => hnot h.1), if_neg (fun h => hi h.2)]
  · intro i
    rw [callsIn_append, hcalls, argumentsAt_append, argumentsAt_singleton, ht.arguments, hgiven,
      argumentsOf_concat, hlength]
    by_cases hi : i = (given o events).length
    · subst hi
      rw [if_pos rfl, if_pos rfl, argumentsOf_length, String.empty_append]
    · rw [if_neg hi, if_neg (Ne.symm hi), String.append_empty]

theorem Tracks.extend {tool : StreamingToolCall} {partialJSON : String}
    (hseq : Sequential (events ++ [.contentBlockDelta (.inputJSON partialJSON)]))
    (htool : p.activeToolCalls.lookup p.toolIndex = some tool)
    (hindex : p'.toolIndex = p.toolIndex)
    (hactive : p'.activeToolCalls = p.activeToolCalls.insert p.toolIndex
      { tool with inputJSON := tool.inputJSON ++ partialJSON })
    (hcalls : callsIn written = [⟨p.toolIndex, none, "", partialJSON⟩]) :
    Tracks o p' (events ++ [.contentBlockDelta (.inputJSON partialJSON)]) (out ++ written) := by
  obtain ⟨phase, phase', hphase, hadvance, hphase'⟩ := hseq.advance
  -- Only inside a tool block a tool call is active, the last one.
  have hlast := ht.active p.toolIndex
  rw [htool] at hlast
  have hin : InTool events := by
    by_contra hnot
    rw [if_neg (fun h => hnot h.1)] at hlast
    cases hlast
  rw [if_pos ⟨hin, rfl⟩] at hlast
  obtain ⟨init, hinit⟩ := getLast?_eq_some_iff.mp hlast.symm
  have hin' : InTool (events ++ [.contentBlockDelta (.inputJSON partialJSON)]) := by
    unfold InTool at *
    rw [hphase] at hin
    cases hin
    rw [hphase', ← hadvance]
    rfl
  have hgiven : given o (events ++ [.contentBlockDelta (.inputJSON partialJSON)]) =
      init ++ [tool.inputJSON ++ partialJSON] := by
    rw [given_concat, noteArguments, noted_of_inTool o hin, if_pos rfl, ← given, hinit, length_append,
      length_singleton, Nat.add_sub_cancel, Positions.modify_concat]
  have hlength : p.toolIndex = init.length := by
    have := ht.index
    rw [hinit, length_append, length_singleton] at this
    omega
  constructor
  · rw [hgiven, length_append, length_singleton]
    omega
  · intro i
    rw [hactive, hindex, hgiven, getLast?_concat]
    by_cases hi : i = p.toolIndex
    · subst hi
      rw [AList.lookup_insert, if_pos ⟨hin', rfl⟩]
      rfl
    · rw [AList.lookup_insert_ne hi, ht.active, if_neg (fun h => hi h.2), if_neg (fun h => hi h.2)]
  · intro i
    rw [callsIn_append, hcalls, argumentsAt_append, argumentsAt_singleton, ht.arguments, hgiven,
      hinit, argumentsOf_concat, argumentsOf_concat, hlength]
    by_cases hi : i = init.length
    · subst hi
      rw [if_pos rfl, if_pos rfl, if_pos rfl]
    · rw [if_neg hi, if_neg hi, if_neg (Ne.symm hi), String.append_empty]

theorem Tracks.stopBlock (hseq : Sequential (events ++ [.contentBlockStop]))
    (hindex : p'.toolIndex = p.toolIndex)
    (hactive : p'.activeToolCalls = p.activeToolCalls.erase p.toolIndex)
    (hcalls : callsIn written = []) :
    Tracks o p' (events ++ [.contentBlockStop]) (out ++ written) := by
  obtain ⟨phase, phase', hphase, hadvance, hphase'⟩ := hseq.advance
  have hnot : ¬ InTool (events ++ [SourceEvent.contentBlockStop]) := by
    unfold InTool
    rw [hphase']
    cases phase <;> cases hadvance
    simp
  have hgiven : given o (events ++ [.contentBlockStop]) = given o events := given_concat o _ _
  constructor
  · rw [hindex, hgiven]
    exact ht.index
  · intro i
    rw [hactive, if_neg (fun h => hnot h.1)]
    by_cases hi : i = p.toolIndex
    · subst hi
      rw [AList.lookup_erase]
      rfl
    · rw [AList.lookup_erase_ne hi, ht.active, if_neg (fun h => hi h.2)]
  · intro i
    rw [callsIn_append, hcalls, append_nil, hgiven]
    exact ht.arguments i

theorem Tracks.reset {id : String} {usage : MessageUsage}
    (hseq : Sequential (events ++ [.messageStart id usage])) (hindex : p'.toolIndex = -1)
    (hactive : p'.activeToolCalls = p.activeToolCalls) (hcalls : callsIn written = []) :
    Tracks o p' (events ++ [.messageStart id usage]) (out ++ written) := by
  obtain ⟨phase, phase', hphase, hadvance, hphase'⟩ := hseq.advance
  obtain ⟨rfl, rfl⟩ : phase = .start ∧ phase' = .between := by
    cases phase <;> cases hadvance
    exact ⟨rfl, rfl⟩
  have hempty : given o events = [] := given_of_start o hphase
  have hgiven : given o (events ++ [.messageStart id usage]) = given o events := given_concat o _ _
  have hnot : ¬ InTool events := by
    unfold InTool
    rw [hphase]
    simp
  have hnot' : ¬ InTool (events ++ [.messageStart id usage]) := by
    unfold InTool
    rw [hphase']
    simp
  constructor
  · rw [hindex, hgiven, hempty]
    rfl
  · intro i
    rw [hactive, ht.active, if_neg (fun h => hnot h.1), if_neg (fun h => hnot' h.1)]
  · intro i
    rw [callsIn_append, hcalls, append_nil, hgiven]
    exact ht.arguments i

theorem Tracks.quiet (hseq : Sequential (events ++ [e]))
    (he : e.quiet = true) (hindex : p'.toolIndex = p.toolIndex)
    (hactive : p'.activeToolCalls = p.activeToolCalls) (hcalls : callsIn written = []) :
    Tracks o p' (events ++ [e]) (out ++ written) := by
  obtain ⟨phase, phase', hphase, hadvance, hphase'⟩ := hseq.advance
  have hgiven : given o (events ++ [e]) = given o events := by
    rw [given_concat, noteArguments_of_quiet o _ he]
    rfl
  have hin : InTool (events ++ [e]) ↔ InTool events := by
    unfold InTool
    unfold advance at hadvance
    split at hadvance <;> cases hadvance <;> simp_all [SourceEvent.quiet]
  constructor
  · rw [hindex, hgiven]
    exact ht.index
  · intro i
    rw [hactive, hindex, hgiven, ht.active]
    simp only [hin]
  · intro i
    rw [callsIn_append, hcalls, append_nil, hgiven]
    exact ht.arguments i

theorem Tracks.step (hseq : Sequential (events ++ [e])) (hok : (writeEvent o p e).result = .ok p') :
    Tracks o p' (events ++ [e]) (out ++ (writeEvent o p e).out) := by
  obtain ⟨hstep, -⟩ := step_of_ok hok
  generalize hcalls : callsIn (writeEvent o p e).out = calls at hstep
  cases hstep with
  | start hblock hindex hactive => exact ht.start hseq hblock hindex hactive hcalls
  | extend htool hindex hactive => exact ht.extend hseq htool hindex hactive hcalls
  | stop hindex hactive => exact ht.stopBlock hseq hindex hactive hcalls
  | reset hindex hactive => exact ht.reset hseq hindex hactive hcalls
  | quiet he hindex hactive => exact ht.quiet hseq he hindex hactive hcalls

theorem Tracks.accepts_iff (hreason : p.stopReason.getD .endTurn = reasonOf events) (e : SourceEvent ι) :
    accepts events e = true ↔ ∃ p', (writeEvent o p e).result = .ok p' := by
  rw [result_writeEvent]
  cases e with
  | contentBlockStart block =>
    cases block with
    | toolUse _ _ input | serverToolUse _ _ input =>
      exact (argsJSON_isOk o input).trans map_isOk.symm
    | text | thinking | redactedThinking _ | other => exact ⟨fun _ => ⟨_, rfl⟩, fun _ => rfl⟩
  | contentBlockDelta delta =>
    cases delta with
    | inputJSON partialJSON =>
      have hactive := ht.active p.toolIndex
      rw [handleAnthropicStreamEvent, handleContentBlockDelta, accepts]
      cases hlookup : p.activeToolCalls.lookup p.toolIndex with
      | none =>
        -- A tool block that is open would have its call in the map.
        have hnot : ¬ InTool events := by
          intro hin
          rw [hlookup, if_pos ⟨hin, rfl⟩] at hactive
          have hnil := getLast?_eq_none_iff.mp hactive.symm
          exact absurd hnil (given_ne_nil o hin)
        simp [hnot]
      | some tool =>
        have hin : InTool events := by
          by_contra hnot
          rw [hlookup, if_neg (fun h => hnot h.1)] at hactive
          cases hactive
        simp [hin]
    | text _ | thinking _ | other => exact ⟨fun _ => ⟨_, rfl⟩, fun _ => rfl⟩
  | messageStop =>
    rw [accepts, ← hreason, finishReason_isOk]
    exact map_isOk.symm
  | error _ _ | malformed _ =>
    constructor
    · intro h
      cases h
    · rintro ⟨r, h⟩
      cases h
  | messageStart _ _ | contentBlockStop | messageDelta _ _ | ping | other =>
    exact ⟨fun _ => ⟨_, rfl⟩, fun _ => rfl⟩

theorem Tracks.activeCalls (order : IterOrder Int StreamingToolCall) (i : Int) :
    argumentsAt i (activeCalls order p) = if i = p.toolIndex then openArguments o events else "" := by
  have hvisit : (AnthropicParser.activeCalls order p).filter (fun d => d.index = i) =
      ((order.visit p.activeToolCalls).filter fun e => e.1 = i).map
        fun e => ⟨e.1, some e.2.id, e.2.name, e.2.inputJSON⟩ := by
    rw [AnthropicParser.activeCalls, filter_map]
    rfl
  have hactive := ht.active i
  unfold argumentsAt openArguments
  rw [hvisit, order.filter_visit]
  cases hlookup : p.activeToolCalls.lookup i with
  | none =>
    rw [hlookup] at hactive
    by_cases hi : i = p.toolIndex
    · rw [if_pos hi]
      by_cases hin : InTool events
      · rw [if_pos ⟨hin, hi⟩] at hactive
        rw [if_pos hin, getLastD_eq_getLast?, ← hactive]
        rfl
      · rw [if_neg hin]
        rfl
    · rw [if_neg hi]
      rfl
  | some tool =>
    rw [hlookup] at hactive
    by_cases hboth : InTool events ∧ i = p.toolIndex
    · rw [if_pos hboth] at hactive
      rw [if_pos hboth.2, if_pos hboth.1, getLastD_eq_getLast?, ← hactive]
      simp
    · rw [if_neg hboth] at hactive
      cases hactive

end

/-! ## Streams that are cut -/

variable (order : IterOrder Int StreamingToolCall)

theorem callsIn_finish (p : Parser) : callsIn (finish order p).out = activeCalls order p := by
  unfold finish
  rw [callsIn_append]
  have hchoices : callsOf (finalChoices order p) = activeCalls order p := by
    unfold finalChoices
    split
    next hnil => rw [hnil]; rfl
    next => exact append_nil _
  have hdone : callsIn [Written.done] = [] := rfl
  rw [hdone, append_nil]
  split
  next => exact (congrArg callsOf (append_nil _)).trans hchoices
  next hnone =>
    rw [not_or, not_or, not_not] at hnone
    rw [← hchoices, hnone.2.2]
    rfl

/-- The last index is the one of the tool block the stream ends in. -/
theorem openArguments_eq_empty_iff {p : Parser} {out : List Written} (ht : Tracks o p events out) :
    (∀ i, argumentsAt i (callsIn (out ++ (finish order p).out)) = argumentsOf (given o events) i) ↔
      openArguments o events = "" := by
  have hout : ∀ i, argumentsAt i (callsIn (out ++ (finish order p).out)) =
      argumentsOf (given o events) i ++ (if i = p.toolIndex then openArguments o events else "") := by
    intro i
    rw [callsIn_append, argumentsAt_append, ht.arguments, callsIn_finish, ht.activeCalls]
  constructor
  · intro h
    have hindex := h p.toolIndex
    rw [hout, if_pos rfl, String.append_eq_left_iff] at hindex
    exact hindex
  · intro h i
    rw [hout, h, ite_self, String.append_empty]

variable (decode : Bytes → Bytes → SourceEvent ι) (o : JsonObjects ι)
  (order : IterOrder Int StreamingToolCall) (requestModel : String)

theorem Sequential.through (hseq : Sequential events)
    (hsplit : before ++ e :: after = events) : Sequential (before ++ [e]) := by
  have h : Sequential (before ++ [e] ++ after) := by
    rw [append_assoc, singleton_append, hsplit]
    exact hseq
  exact h.of_append

theorem accepted_eq_untilRefused (hseq : Sequential events) :
    accepted (writeEvent o) (newAnthropicStreamParser requestModel) events = untilRefused events := by
  refine accepted_eq_takeAccepted
    (fun p before => p.stopReason.getD .endTurn = reasonOf before ∧ ∃ out, Tracks o p before out)
    ⟨rfl, [], tracks_start o requestModel⟩ ?_ ?_
  · rintro p p' e before after hsplit ⟨hreason, out, ht⟩ hok
    refine ⟨?_, _, ht.step (hseq.through hsplit) hok⟩
    rw [(step_of_ok hok).2, hreason, reasonOf, reasonOf, foldl_append]
    rfl
  · rintro p e before after hsplit ⟨hreason, out, ht⟩
    exact ht.accepts_iff hreason e

theorem tracks_untilRefused (hseq : Sequential events) :
    (∀ p, (runAll (writeEvent o) (newAnthropicStreamParser requestModel) events).result = .ok p →
      Tracks o p events (runAll (writeEvent o) (newAnthropicStreamParser requestModel) events).out ∧
      untilRefused events = events) ∧
    ∀ e, (runAll (writeEvent o) (newAnthropicStreamParser requestModel) events).result = .error e →
      ∀ i, argumentsAt i
        (callsIn (runAll (writeEvent o) (newAnthropicStreamParser requestModel) events).out) =
        argumentsOf (given o (untilRefused events)) i := by
  rw [← accepted_eq_untilRefused o requestModel hseq]
  refine runAll_invariant (Tracks o)
    (fun before out => ∀ i, argumentsAt i (callsIn out) = argumentsOf (given o before) i)
    (tracks_start o requestModel) ?_ ?_
  · intro p p' e before after out hsplit ht hok
    exact ht.step (hseq.through hsplit) hok
  · intro p e err before after out hsplit ht herr i
    rw [callsIn_append, callsIn_of_error herr, append_nil]
    exact ht.arguments i

/-- Every argument is written once, unless an event is refused before it or the stream ends inside a
tool block whose arguments have begun. -/
theorem arguments_written_once_iff (pieces : List Bytes) (last : Bytes)
    (hseq : Sequential (eventsOf decode (pieces.flatten ++ last))) :
    (∀ i, argumentsAt i (callsIn (processAll decode o order requestModel pieces last).out) =
      argumentsOf (given o (eventsOf decode (pieces.flatten ++ last))) i) ↔
    (∀ i, argumentsOf (given o (untilRefused (eventsOf decode (pieces.flatten ++ last)))) i =
        argumentsOf (given o (eventsOf decode (pieces.flatten ++ last))) i) ∧
      (untilRefused (eventsOf decode (pieces.flatten ++ last)) =
          eventsOf decode (pieces.flatten ++ last) →
        openArguments o (eventsOf decode (pieces.flatten ++ last)) = "") := by
  rw [processAll_eq]
  obtain ⟨hended, hfailed⟩ := tracks_untilRefused o requestModel hseq
  have hself := accepted_eq_self_iff (writeEvent o) (newAnthropicStreamParser requestModel)
    (eventsOf decode (pieces.flatten ++ last))
  rw [accepted_eq_untilRefused o requestModel hseq] at hself
  generalize eventsOf decode (pieces.flatten ++ last) = events at *
  cases hrun : runAll (writeEvent o) (newAnthropicStreamParser requestModel) events with
  | mk result out =>
    rw [hrun] at hended hfailed hself
    cases result with
    | error e =>
      have hne : untilRefused events ≠ events := by
        intro heq
        obtain ⟨p, hp⟩ := hself.mp heq
        cases hp
      rw [and_iff_left (fun h => absurd h hne)]
      refine forall_congr' fun i => ?_
      rw [← hfailed e rfl i]
      rfl
    | ok p =>
      obtain ⟨ht, heq⟩ := hended p rfl
      rw [heq, and_iff_right (fun _ => rfl), forall_prop_of_true rfl]
      exact openArguments_eq_empty_iff order ht

/-! ## Streams of a few events -/

/-- A tool call with the arguments `{}`. -/
def callDocuments : List (Document ObjectText) := [messageStarts, toolStarts, argumentsCome, blockStops]

/-- A stream that is cut after a tool block, in two pieces. -/
theorem stopped_block_written_once :
    Sequential (eventsOf (decodeListed callDocuments)
      ([bytesOf messageStarts ++ bytesOf toolStarts].flatten ++
        (bytesOf argumentsCome ++ bytesOf blockStops))) ∧
    ∀ i, argumentsAt i (callsIn (processAll (decodeListed callDocuments) objectTexts
        GoMap.storedOrder "m" [bytesOf messageStarts ++ bytesOf toolStarts]
        (bytesOf argumentsCome ++ bytesOf blockStops)).out) =
      argumentsOf (given objectTexts (eventsOf (decodeListed callDocuments)
        ([bytesOf messageStarts ++ bytesOf toolStarts].flatten ++
          (bytesOf argumentsCome ++ bytesOf blockStops)))) i := by
  have hevents : eventsOf (decodeListed callDocuments)
      ([bytesOf messageStarts ++ bytesOf toolStarts].flatten ++
        (bytesOf argumentsCome ++ bytesOf blockStops)) = callDocuments.map (·.2.2) := by
    decide +kernel
  have hseq : Sequential (eventsOf (decodeListed callDocuments)
      ([bytesOf messageStarts ++ bytesOf toolStarts].flatten ++
        (bytesOf argumentsCome ++ bytesOf blockStops))) := by
    rw [hevents]
    decide
  refine ⟨hseq, (arguments_written_once_iff _ objectTexts _ "m" _ _ hseq).mpr ?_⟩
  have haccepted : untilRefused (callDocuments.map (·.2.2)) = callDocuments.map (·.2.2) := by
    decide
  rw [hevents, haccepted]
  exact ⟨fun _ => rfl, fun _ => by decide⟩

/-- A stream that is cut inside a tool block: the arguments `{}` are written twice. -/
theorem open_block_written_twice :
    (let stream := bytesOf messageStarts ++ bytesOf toolStarts ++ bytesOf argumentsCome
     let events := eventsOf (decodeListed callDocuments) stream
     Sequential events ∧ untilRefused events = events ∧
       argumentsOf (given objectTexts events) 0 = "\x7b\x7d" ∧
       argumentsAt 0 (callsIn (processAll (decodeListed callDocuments) objectTexts
         GoMap.storedOrder "m" [] stream).out) = "\x7b\x7d\x7b\x7d") := by
  have hevents : eventsOf (decodeListed callDocuments)
      (bytesOf messageStarts ++ bytesOf toolStarts ++ bytesOf argumentsCome) =
      [messageStarts.2.2, toolStarts.2.2, argumentsCome.2.2] := by
    decide +kernel
  dsimp only
  rw [processAll_eq, flatten_nil, nil_append, hevents]
  decide

end AgentRouter.AnthropicParser
