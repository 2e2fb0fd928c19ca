import AgentRouter.Translator.Gemini

/-!
# GeminiChoices: a whole response against the chunks of its stream

A stream brings the candidates of a response in chunks: the parts of a candidate are those of the
candidates at its position, one chunk after the other (`Forms`).  The client of the stream has the
same text, reasoning and tool calls as the response converted in one go, in every response mode.
The finish reason is the same, except that a candidate that stops is taken for one that calls a
tool when any candidate has called one by then:

    every choice is the same
      ↔  every candidate that stops has a tool call exactly if the stream has had one by then
      (streamed_choices_agree_iff)
-/

namespace AgentRouter.Gemini

open List hiding getElem?_eq_some_iff

open Completion OpenAIStream

variable {ι : Type}

/-! ## Responses in chunks -/

/-- The candidate at a position, if it is there and not nil. -/
def candidateAt (i : Nat) (candidates : List (Option (Candidate ι))) : Option (Candidate ι) :=
  candidates[i]?.join

def Candidate.parts (c : Candidate ι) : List (Option (Part ι)) := c.content.getD []

open Candidate

def Candidate.hasCalls (c : Candidate ι) : Bool := !(callParts c.parts).isEmpty

/-- One content with the parts of all, if there is any. -/
def joinContents (contents : List (List (Option (Part ι)))) : Option (List (Option (Part ι))) :=
  if contents = [] then none else some contents.flatten

/-- The candidate that comes in these pieces: all their parts, and the last finish reason. -/
def joinCandidates (pieces : List (Candidate ι)) : Option (Candidate ι) :=
  if pieces = [] then none
  else some
    { content := joinContents (pieces.filterMap (·.content))
      finishReason := (pieces.filterMap (·.finishReason)).getLast? }

/-- The pieces of the candidate at a position. -/
def piecesAt (i : Nat) (chunks : List (GenerateContentResponse ι)) : List (Candidate ι) :=
  chunks.filterMap fun chunk => candidateAt i chunk.candidates

/-- The chunks put together by position are the response. -/
def Forms (chunks : List (GenerateContentResponse ι)) (candidates : List (Option (Candidate ι))) :
    Prop :=
  ∀ i, candidateAt i candidates = joinCandidates (piecesAt i chunks)

/-! ## What it means to agree -/

/-- The reasoning of a converted candidate is a plain text. -/
def reasoningText (message : ResponseMessage) : String :=
  match message.reasoningContent with
  | some (.text text) => text
  | _ => ""

/-- The client of the stream has the same choice, the ids of the tool calls aside. -/
structure SameFolded (choices : List Choice) (c : CompletionChoice) : Prop where
  text : textOf choices = c.message.content.getD ""
  reasoning : reasoningOf choices = reasoningText c.message
  calls : (foldCalls (callsOf choices)).map (fun f => (f.name, f.arguments)) =
    c.message.toolCalls.map fun t => (t.name, t.arguments)
  finishReason : finishReasonOf choices = c.finishReason

/-- The last finish reason of the candidate at `i`, and whether there has been a tool call of any
candidate by then; `seen` tells whether there was one before. -/
def finishAt (i : Nat) : Bool → List (GenerateContentResponse ι) → Option (Reason × Bool)
  | _, [] => none
  | seen, chunk :: chunks =>
    (finishAt i (seen || chunk.candidates.any fun c => c.any Candidate.hasCalls) chunks).or
      ((candidateAt i chunk.candidates).bind fun c => c.finishReason.map fun reason =>
        (reason, seen || (chunk.candidates.take (i + 1)).any fun c => c.any Candidate.hasCalls))

/-- A candidate that stops has a tool call of its own exactly if the stream has had one by then. -/
def StopsWithOwnCalls (chunks : List (GenerateContentResponse ι)) : Prop :=
  ∀ i seen, finishAt i false chunks = some (.stop, seen) →
    seen = (piecesAt i chunks).any Candidate.hasCalls

/-! ## One chunk -/

section

variable (marshal : ι → String) (ids : Nat → String) (mode : ResponseMode)

/-- The state after some candidates. -/
def stateAfter (s : ToolState) (candidates : List (Option (Candidate ι))) : ToolState :=
  (streamingChoicesFrom marshal ids mode s 0 candidates).1

section

variable (s : ToolState)

theorem fst_streamingChoicesFrom (n : Nat) (candidates : List (Option (Candidate ι))) :
    (streamingChoicesFrom marshal ids mode s n candidates).1 = stateAfter marshal ids mode s candidates := by
  unfold stateAfter
  generalize 0 = m
  induction candidates generalizing s n m with
  | nil => rfl
  | cons c candidates ih =>
    cases c with
    | none => exact ih s (n + 1) (m + 1)
    | some c => exact ih _ (n + 1) (m + 1)

@[simp] theorem stateAfter_nil : stateAfter marshal ids mode s ([] : List (Option (Candidate ι))) = s := rfl

@[simp] theorem stateAfter_none (candidates : List (Option (Candidate ι))) :
    stateAfter marshal ids mode s (none :: candidates) = stateAfter marshal ids mode s candidates :=
  fst_streamingChoicesFrom marshal ids mode s 1 candidates

@[simp] theorem stateAfter_some (c : Candidate ι) (candidates : List (Option (Candidate ι))) :
    stateAfter marshal ids mode s (some c :: candidates) =
      stateAfter marshal ids mode (streamingChoice marshal ids mode s 0 c).1 candidates :=
  fst_streamingChoicesFrom marshal ids mode _ 1 candidates

end

variable {candidates : List (Option (Candidate ι))} {s : ToolState}

theorem index_streamingChoicesFrom {n : Nat} {c : Choice}
    (h : c ∈ (streamingChoicesFrom marshal ids mode s n candidates).2) : (n : Int) ≤ c.index := by
  induction candidates generalizing s n with
  | nil => cases h
  | cons candidate candidates ih =>
    cases candidate with
    | none =>
      have := ih h
      omega
    | some candidate =>
      rcases mem_cons.mp h with rfl | h
      · exact Int.le_refl n
      · have := ih h
        omega

theorem filter_streamingChoicesFrom (s : ToolState) (n i : Nat) (candidates : List (Option (Candidate ι))) :
    (streamingChoicesFrom marshal ids mode s n candidates).2.filter
        (fun c => c.index = ((n + i : Nat) : Int)) =
      ((candidateAt i candidates).map fun c => (streamingChoice marshal ids mode
        (stateAfter marshal ids mode s (candidates.take i)) (n + i) c).2).toList := by
  have hlater : ∀ (s : ToolState) (m k : Nat) (cs : List (Option (Candidate ι))), k < m →
      (streamingChoicesFrom marshal ids mode s m cs).2.filter (fun c => c.index = (k : Int)) = [] := by
    intro s m k cs hk
    rw [filter_eq_nil_iff]
    intro c hc heq
    have hle := index_streamingChoicesFrom marshal ids mode hc
    rw [decide_eq_true_iff] at heq
    omega
  induction candidates generalizing s n i with
  | nil => rfl
  | cons candidate candidates ih =>
    cases i with
    | zero =>
      cases candidate with
      | none => exact hlater s (n + 1) n candidates (Nat.lt_succ_self n)
      | some candidate =>
        have hrest := hlater (streamingChoice marshal ids mode s n candidate).1 (n + 1) n candidates
          (Nat.lt_succ_self n)
        rw [streamingChoicesFrom, filter_cons_of_pos (by simp [streamingChoice])]
        exact congrArg (_ :: ·) hrest
    | succ i =>
      have hshift : n + (i + 1) = n + 1 + i := by omega
      rw [hshift]
      cases candidate with
      | none =>
        rw [take_succ_cons, stateAfter_none]
        exact ih s (n + 1) i
      | some candidate =>
        have hne : ¬ decide ((streamingChoice marshal ids mode s n candidate).2.index =
            ((n + 1 + i : Nat) : Int)) = true := by
          rw [decide_eq_true_iff]
          show ¬ (n : Int) = _
          omega
        rw [take_succ_cons, stateAfter_some, streamingChoicesFrom, filter_cons, if_neg hne, ih]
        rfl

end

/-! ## The parts of a candidate -/

/-- The answer and the thoughts in some parts. -/
def answerOf (mode : ResponseMode) (parts : List (Option (Part ι))) : String :=
  (extractTextAndThoughtSummaryFromGeminiParts parts mode).2.1

def thoughtOf (mode : ResponseMode) (parts : List (Option (Part ι))) : String :=
  (extractTextAndThoughtSummaryFromGeminiParts parts mode).1

/-- The names and arguments of the function calls in some parts. -/
def callsIn (marshal : ι → String) (parts : List (Option (Part ι))) : List (String × String) :=
  (callParts parts).map fun c => (c.2.name, marshal c.2.args)

section

variable (marshal : ι → String)

theorem join_textParts_flatten (f : Part ι → String) (l : List (List (Option (Part ι)))) :
    String.join ((textParts l.flatten).map f) =
      String.join (l.map fun ps => String.join ((textParts ps).map f)) := by
  induction l with
  | nil => rfl
  | cons ps l ih =>
    rw [flatten_cons, map_cons, String.join_cons, ← ih, textParts_append, map_append, String.join_append]

variable (l : List (List (Option (Part ι))))

theorem callsIn_flatten : callsIn marshal l.flatten = l.flatMap (callsIn marshal) := by
  induction l with
  | nil => rfl
  | cons ps l ih =>
    rw [flatten_cons, flatMap_cons, ← ih]
    simp only [callsIn, callParts_append, map_append]

theorem callParts_flatten_isEmpty :
    (!(callParts l.flatten).isEmpty) = l.any fun ps => !(callParts ps).isEmpty := by
  induction l with
  | nil => rfl
  | cons ps l ih =>
    rw [flatten_cons, callParts_append, any_cons, ← ih]
    cases callParts ps <;> rfl

variable {c : Candidate ι}

theorem parts_joinCandidates {pieces : List (Candidate ι)} (h : joinCandidates pieces = some c) :
    c.parts = (pieces.map parts).flatten := by
  unfold joinCandidates at h
  split at h
  next => cases h
  next hne =>
    cases h
    have hflatten : ∀ l : List (Candidate ι), (l.filterMap (·.content)).flatten = (l.map parts).flatten := by
      intro l
      induction l with
      | nil => rfl
      | cons c l ih =>
        rw [filterMap_cons, map_cons, flatten_cons, ← ih]
        unfold parts
        cases c.content <;> rfl
    rw [← hflatten]
    unfold parts joinContents
    split
    next hnil => rw [hnil]; rfl
    next => rfl

end

/-! ## The stream -/

section

variable (marshal : ι → String) (ids : Nat → String) (mode : ResponseMode) (requestModel : String)

variable (chunk : GenerateContentResponse ι)

theorem flatMap_choices_usageChunk : (usageChunk requestModel chunk).flatMap Written.choices = [] := by
  unfold usageChunk
  split
  · split <;> rfl
  · rfl

variable (s : ToolState) (i : Nat) (chunks : List (GenerateContentResponse ι))

theorem choicesAt_writeChunks_cons :
    choicesAt i (writeChunks marshal ids mode requestModel s (chunk :: chunks)).2 =
      ((candidateAt i chunk.candidates).map fun c => (streamingChoice marshal ids mode
        (stateAfter marshal ids mode s (chunk.candidates.take i)) i c).2).toList ++
      choicesAt i (writeChunks marshal ids mode requestModel
        (stateAfter marshal ids mode s chunk.candidates) chunks).2 := by
  have husage : choicesAt i (usageChunk requestModel chunk) = [] := by
    unfold choicesAt
    rw [flatMap_choices_usageChunk]
    rfl
  have hchunk := filter_streamingChoicesFrom marshal ids mode s 0 i chunk.candidates
  rw [Nat.zero_add] at hchunk
  rw [writeChunks, cons_append, ← singleton_append, choicesAt_append, choicesAt_append, husage, ← hchunk]
  congr 1
  show ((streamingChoicesFrom marshal ids mode s 0 chunk.candidates).2 ++ []).filter _ = _
  rw [append_nil]

theorem choicesAt_writeChunks_eq {β : Type} {f : Choice → β} {g : Candidate ι → β}
    (hfg : ∀ s n c, f (streamingChoice marshal ids mode s n c).2 = g c) :
    (choicesAt i (writeChunks marshal ids mode requestModel s chunks).2).map f =
      (piecesAt i chunks).map g := by
  induction chunks generalizing s with
  | nil => rfl
  | cons chunk chunks ih =>
    unfold piecesAt at ih ⊢
    rw [choicesAt_writeChunks_cons, map_append, ih, filterMap_cons]
    cases candidateAt i chunk.candidates with
    | none => rfl
    | some c => exact congrArg (· :: _) (hfg _ i c)

theorem content_streamingChoice (n : Nat) (c : Candidate ι) :
    (streamingChoice marshal ids mode s n c).2.delta.content.getD "" = answerOf mode c.parts := by
  unfold parts
  cases hc : c.content with
  | none => simp only [streamingChoice, hc]; rfl
  | some parts => simp only [streamingChoice, hc, candidateDelta, optionalText_getD]; rfl

theorem reasoning_streamingChoice (n : Nat) (c : Candidate ι) :
    ((streamingChoice marshal ids mode s n c).2.delta.reasoningContent.map (·.text)).getD "" =
      thoughtOf mode c.parts := by
  unfold parts
  cases hc : c.content with
  | none => simp only [streamingChoice, hc]; rfl
  | some parts =>
    have hsame : ∀ o : Option String,
        (o.map fun text => (⟨text, "", ""⟩ : StreamReasoningContent)).map (·.text) = o := by
      intro o
      cases o <;> rfl
    simp only [streamingChoice, hc, candidateDelta, hsame, optionalText_getD]
    rfl

theorem toolCalls_candidateDelta (n : Nat) (c : Candidate ι) :
    (candidateDelta marshal ids mode n c.content).toolCalls =
      (extractToolCallsFromGeminiPartsStream marshal ids n c.parts).1 := by
  unfold parts
  cases c.content with
  | none => rfl
  | some parts => rfl

theorem calls_streamingChoice (n : Nat) (c : Candidate ι) :
    (streamingChoice marshal ids mode s n c).2.delta.toolCalls.map
      (fun d => (d.name, d.arguments)) = callsIn marshal c.parts := by
  show (candidateDelta marshal ids mode s.toolCallIndex c.content).toolCalls.map _ = _
  rw [toolCalls_candidateDelta]
  apply Positions.map_mapIdx_of_comp
  intro k call
  rfl

theorem textOf_choicesAt :
    textOf (choicesAt i (writeChunks marshal ids mode requestModel s chunks).2) =
      answerOf mode ((piecesAt i chunks).map parts).flatten := by
  rw [show answerOf mode _ = _ from join_textParts_flatten (Part.answer mode) _, map_map]
  exact congrArg String.join
    (choicesAt_writeChunks_eq marshal ids mode requestModel s i chunks
      (content_streamingChoice marshal ids mode))

theorem reasoningOf_choicesAt :
    reasoningOf (choicesAt i (writeChunks marshal ids mode requestModel s chunks).2) =
      thoughtOf mode ((piecesAt i chunks).map parts).flatten := by
  rw [show thoughtOf mode _ = _ from join_textParts_flatten Part.thoughtText _, map_map]
  exact congrArg String.join
    (choicesAt_writeChunks_eq marshal ids mode requestModel s i chunks
      (reasoning_streamingChoice marshal ids mode))

theorem callsOf_choicesAt :
    (callsOf (choicesAt i (writeChunks marshal ids mode requestModel s chunks).2)).map
        (fun d => (d.name, d.arguments)) =
      callsIn marshal ((piecesAt i chunks).map parts).flatten := by
  rw [callsIn_flatten, callsOf, map_flatMap, flatMap_map]
  exact congrArg List.flatten
    (choicesAt_writeChunks_eq marshal ids mode requestModel s i chunks
      (calls_streamingChoice marshal ids mode))

end

/-! ## The numbers of the tool calls -/

/-- How many tool calls there are in some candidates. -/
def callCount (candidates : List (Option (Candidate ι))) : Nat :=
  ((candidates.filterMap id).map fun c => (callParts c.parts).length).sum

variable {i : Nat}

theorem callCount_take_le (h : candidateAt i candidates = some c) :
    callCount (candidates.take i) + (callParts c.parts).length ≤ callCount candidates := by
  induction candidates generalizing i with
  | nil => cases h
  | cons d candidates ih =>
    cases i with
    | zero =>
      have hd : d = some c := h
      rw [hd]
      show 0 + _ ≤ (callParts c.parts).length + callCount candidates
      omega
    | succ i =>
      have hle := ih (i := i) h
      cases d with
      | none => exact hle
      | some d =>
        show (callParts d.parts).length + callCount (candidates.take i) + _ ≤
          (callParts d.parts).length + callCount candidates
        omega

section

variable (marshal : ι → String) (ids : Nat → String) (mode : ResponseMode) (requestModel : String)

theorem toolCalls_ne_nil (n : Nat) (c : Candidate ι) :
    decide ((candidateDelta marshal ids mode n c.content).toolCalls ≠ []) = c.hasCalls := by
  rw [toolCalls_candidateDelta]
  unfold extractToolCallsFromGeminiPartsStream hasCalls
  cases callParts c.parts with
  | nil => rfl
  | cons call calls => simp

theorem fst_streamingChoice (s : ToolState) (n : Nat) (c : Candidate ι) :
    (streamingChoice marshal ids mode s n c).1 =
      ⟨s.toolCallIndex + (callParts c.parts).length, s.streamedToolCall || c.hasCalls⟩ := by
  simp only [streamingChoice, toolCalls_ne_nil]
  rw [toolCalls_candidateDelta, extractToolCallsFromGeminiPartsStream, length_mapIdx]

theorem stateAfter_eq (s : ToolState) (candidates : List (Option (Candidate ι))) :
    stateAfter marshal ids mode s candidates =
      ⟨s.toolCallIndex + callCount candidates,
        s.streamedToolCall || candidates.any fun c => c.any hasCalls⟩ := by
  induction candidates generalizing s with
  | nil => simp [callCount]
  | cons c candidates ih =>
    cases c with
    | none =>
      rw [stateAfter_none, ih]
      rfl
    | some c =>
      rw [stateAfter_some, ih, fst_streamingChoice]
      simp [callCount, Nat.add_assoc, Bool.or_assoc]

/-- The numbers of the tool calls at a position grow, from the first one that is free. -/
theorem pairwise_callsOf (s : ToolState) (i : Nat) (chunks : List (GenerateContentResponse ι)) :
    let calls := callsOf (choicesAt i (writeChunks marshal ids mode requestModel s chunks).2)
    (∀ d ∈ calls, (s.toolCallIndex : Int) ≤ d.index) ∧ calls.Pairwise fun d d' => d.index < d'.index := by
  induction chunks generalizing s with
  | nil => exact ⟨fun d hd => (not_mem_nil hd).elim, List.Pairwise.nil⟩
  | cons chunk chunks ih =>
    obtain ⟨hlater, hsorted⟩ := ih (stateAfter marshal ids mode s chunk.candidates)
    rw [choicesAt_writeChunks_cons, callsOf_append]
    generalize callsOf (choicesAt _ (writeChunks marshal ids mode requestModel _ chunks).2) = later
      at hlater hsorted
    rw [stateAfter_eq] at hlater
    dsimp only at hlater
    have hlow : ∀ d ∈ later, (s.toolCallIndex : Int) ≤ d.index := by
      intro d hd
      have := hlater d hd
      omega
    cases hc : candidateAt i chunk.candidates with
    | none => exact ⟨hlow, hsorted⟩
    | some c =>
      have hroom := callCount_take_le hc
      -- the calls of this candidate stand between those before it and those after it
      have hnow : ∀ (k : Nat) (d : ToolCallDelta),
          (streamingChoice marshal ids mode (stateAfter marshal ids mode s
            (chunk.candidates.take i)) i c).2.delta.toolCalls[k]? = some d →
          d.index = (s.toolCallIndex + callCount (chunk.candidates.take i) + k : Nat) ∧
            k < (callParts c.parts).length := by
        intro k d hd
        rw [stateAfter_eq, show (streamingChoice marshal ids mode _ i c).2.delta.toolCalls = _ from
          toolCalls_candidateDelta .., extractToolCallsFromGeminiPartsStream, getElem?_mapIdx,
          Option.map_eq_some_iff] at hd
        obtain ⟨call, hcall, rfl⟩ := hd
        exact ⟨rfl, (List.getElem?_eq_some_iff.mp hcall).1⟩
      show (∀ d ∈ callsOf [_] ++ later, _) ∧ (callsOf [_] ++ later).Pairwise _
      rw [callsOf, flatMap_cons, flatMap_nil, append_nil]
      generalize (streamingChoice marshal ids mode (stateAfter marshal ids mode s
        (chunk.candidates.take i)) i c).2.delta.toolCalls = now at hnow
      have hmem : ∀ d ∈ now, ∃ k : Nat, k < (callParts c.parts).length ∧
          d.index = (s.toolCallIndex + callCount (chunk.candidates.take i) + k : Nat) := by
        intro d hd
        obtain ⟨k, hk⟩ := mem_iff_getElem?.mp hd
        exact ⟨k, (hnow k d hk).2, (hnow k d hk).1⟩
      constructor
      · intro d hd
        rcases mem_append.mp hd with hd | hd
        · obtain ⟨k, -, hk⟩ := hmem d hd
          omega
        · exact hlow d hd
      · rw [pairwise_append]
        refine ⟨?_, hsorted, ?_⟩
        · rw [pairwise_iff_getElem]
          intro k k' hk hk' hlt
          have hd := (hnow k _ (getElem?_eq_getElem hk)).1
          have hd' := (hnow k' _ (getElem?_eq_getElem hk')).1
          omega
        · intro d hd d' hd'
          obtain ⟨k, hlt, hk⟩ := hmem d hd
          have := hlater d' hd'
          omega

end

/-! ## Finish reasons -/

theorem geminiFinishReasonToOpenAI_isSome (b : Bool) (r : Reason) :
    (geminiFinishReasonToOpenAI b (some r)).isSome = true := by
  cases r <;> rfl

/-- Only the reason of a stop depends on the tool calls. -/
theorem geminiFinishReasonToOpenAI_eq_iff (a b : Bool) (r : Reason) :
    geminiFinishReasonToOpenAI a (some r) = geminiFinishReasonToOpenAI b (some r) ↔ (r = .stop → a = b) := by
  cases r with
  | stop => cases a <;> cases b <;> decide
  | _ => simp [geminiFinishReasonToOpenAI]

theorem fst_finishAt (i : Nat) (seen : Bool) (chunks : List (GenerateContentResponse ι)) :
    (finishAt i seen chunks).map (·.1) = ((piecesAt i chunks).filterMap (·.finishReason)).getLast? := by
  induction chunks generalizing seen with
  | nil => rfl
  | cons chunk chunks ih =>
    unfold piecesAt at ih ⊢
    rw [finishAt, Option.map_or, ih, filterMap_cons]
    cases candidateAt i chunk.candidates with
    | none => exact Option.or_none
    | some c =>
      cases hr : c.finishReason with
      | none => simp [hr]
      | some r => simp [hr, getLast?_cons, Option.or_some]

section

variable (marshal : ι → String) (ids : Nat → String) (mode : ResponseMode) (requestModel : String)

theorem finishReason_streamingChoice (s : ToolState) (n : Nat) (c : Candidate ι) :
    (streamingChoice marshal ids mode s n c).2.finishReason =
      geminiFinishReasonToOpenAI (s.streamedToolCall || c.hasCalls) c.finishReason := by
  simp only [streamingChoice, toolCalls_ne_nil]
  cases c.finishReason with
  | none => rfl
  | some r =>
    cases r with
    | stop => cases s.streamedToolCall <;> cases c.hasCalls <;> rfl
    | _ => rfl

theorem hasCalls_take_succ (h : candidateAt i candidates = some c) :
    (candidates.take (i + 1)).any (fun c => c.any hasCalls) =
      ((candidates.take i).any (fun c => c.any hasCalls) || c.hasCalls) := by
  have hget : candidates[i]? = some (some c) := Option.join_eq_some_iff.mp h
  rw [take_add_one, hget]
  simp

theorem finishReasonOf_choicesAt (s : ToolState) (i : Nat) (chunks : List (GenerateContentResponse ι)) :
    finishReasonOf (choicesAt i (writeChunks marshal ids mode requestModel s chunks).2) =
      (finishAt i s.streamedToolCall chunks).bind fun p =>
        geminiFinishReasonToOpenAI p.2 (some p.1) := by
  have hor : ∀ x y : Option (Reason × Bool),
      ((x.or y).bind fun p => geminiFinishReasonToOpenAI p.2 (some p.1)) =
        (x.bind fun p => geminiFinishReasonToOpenAI p.2 (some p.1)).or
          (y.bind fun p => geminiFinishReasonToOpenAI p.2 (some p.1)) := by
    intro x y
    cases x with
    | none => rfl
    | some p =>
      have hsome := geminiFinishReasonToOpenAI_isSome p.2 p.1
      exact (Option.or_of_isSome hsome).symm
  induction chunks generalizing s with
  | nil => rfl
  | cons chunk chunks ih =>
    rw [choicesAt_writeChunks_cons, finishReasonOf_append, ih, finishAt, hor, stateAfter_eq]
    congr 1
    cases hc : candidateAt i chunk.candidates with
    | none => rfl
    | some c =>
      rw [hasCalls_take_succ hc, ← Bool.or_assoc]
      show (streamingChoice marshal ids mode _ i c).2.finishReason.or none = _
      rw [finishReason_streamingChoice, stateAfter_eq]
      cases hr : c.finishReason with
      | none => simp [hr, geminiFinishReasonToOpenAI]
      | some r => simp [hr]

/-! ## The whole response -/

theorem mem_choicesFrom {n : Nat} {c : CompletionChoice} :
    c ∈ choicesFrom marshal ids mode n candidates ↔ ∃ i candidate, candidateAt i candidates = some candidate ∧
        c = candidateChoice marshal ids mode (n + i) candidate := by
  induction candidates generalizing n with
  | nil => simp [choicesFrom, candidateAt]
  | cons d candidates ih =>
    have hsplit : (∃ i candidate, candidateAt i (d :: candidates) = some candidate ∧
        c = candidateChoice marshal ids mode (n + i) candidate) ↔
        (∃ candidate, d = some candidate ∧ c = candidateChoice marshal ids mode n candidate) ∨
          ∃ i candidate, candidateAt i candidates = some candidate ∧
            c = candidateChoice marshal ids mode (n + 1 + i) candidate := by
      constructor
      · rintro ⟨i, candidate, hat, rfl⟩
        cases i with
        | zero => exact .inl ⟨candidate, hat, rfl⟩
        | succ i =>
          refine .inr ⟨i, candidate, hat, ?_⟩
          rw [Nat.add_assoc, Nat.add_comm 1 i]
      · rintro (⟨candidate, rfl, rfl⟩ | ⟨i, candidate, hat, rfl⟩)
        · exact ⟨0, candidate, rfl, rfl⟩
        · refine ⟨i + 1, candidate, hat, ?_⟩
          rw [Nat.add_assoc, Nat.add_comm 1 i]
    rw [hsplit, ← ih]
    cases d with
    | none | some d => simp [choicesFrom]

theorem candidateMessage_spec (c : Candidate ι) :
    (candidateMessage marshal ids mode c.content).content.getD "" = answerOf mode c.parts ∧
      reasoningText (candidateMessage marshal ids mode c.content) = thoughtOf mode c.parts ∧
      (candidateMessage marshal ids mode c.content).toolCalls.map (fun t => (t.name, t.arguments)) =
        callsIn marshal c.parts := by
  unfold parts
  cases c.content with
  | none => exact ⟨rfl, rfl, rfl⟩
  | some parts =>
    refine ⟨optionalText_getD _, ?_, ?_⟩
    · have hthought : ∀ s : String, ∀ m : ResponseMessage,
          m.reasoningContent = (optionalText s).map .text → reasoningText m = s := by
        intro s m hm
        unfold reasoningText
        rw [hm]
        by_cases hs : s = "" <;> simp [optionalText, hs]
      exact hthought _ _ rfl
    · apply Positions.map_mapIdx_of_comp
      intro k call
      rfl

theorem finishReason_candidateChoice (n : Nat) (c : Candidate ι) :
    (candidateChoice marshal ids mode n c).finishReason =
      geminiFinishReasonToOpenAI c.hasCalls c.finishReason := by
  have hcalls : decide ((candidateMessage marshal ids mode c.content).toolCalls ≠ []) = c.hasCalls := by
    have hmap := (candidateMessage_spec marshal ids mode c).2.2
    unfold hasCalls
    unfold callsIn at hmap
    generalize (candidateMessage marshal ids mode c.content).toolCalls = calls at hmap ⊢
    have hlen := congrArg List.length hmap
    rw [length_map, length_map] at hlen
    cases calls with
    | nil => rw [length_eq_zero_iff.mp hlen.symm]; rfl
    | cons t calls =>
      cases hparts : callParts c.parts with
      | nil => rw [hparts] at hlen; cases hlen
      | cons p ps => rfl
  unfold candidateChoice
  rw [← hcalls]

variable {chunks : List (GenerateContentResponse ι)}

theorem sameFolded_iff (ids' : Nat → String) (h : joinCandidates (piecesAt i chunks) = some c) :
    SameFolded (choicesAt i (writeChunks marshal ids mode requestModel ⟨0, false⟩ chunks).2)
        (candidateChoice marshal ids' mode i c) ↔
      ∀ seen, finishAt i false chunks = some (.stop, seen) → seen = (piecesAt i chunks).any hasCalls := by
  have hparts := parts_joinCandidates h
  have hcalls : c.hasCalls = (piecesAt i chunks).any hasCalls := by
    rw [hasCalls, hparts, callParts_flatten_isEmpty, any_map]
    rfl
  have hreason : c.finishReason = (finishAt i false chunks).map (·.1) := by
    rw [fst_finishAt]
    unfold joinCandidates at h
    split at h
    next => cases h
    next => cases h; rfl
  obtain ⟨htext, hthought, hmessageCalls⟩ := candidateMessage_spec marshal ids' mode c
  rw [hparts] at htext hthought hmessageCalls
  constructor
  · intro hsame seen hstop
    have heq := hsame.finishReason
    rw [finishReasonOf_choicesAt, finishReason_candidateChoice, hreason, hstop, hcalls] at heq
    exact (geminiFinishReasonToOpenAI_eq_iff _ _ .stop).mp heq rfl
  · intro hstops
    refine ⟨?_, ?_, ?_, ?_⟩
    · rw [textOf_choicesAt]
      exact htext.symm
    · rw [reasoningOf_choicesAt]
      exact hthought.symm
    · have hindices := (pairwise_callsOf marshal ids mode requestModel ⟨0, false⟩ i chunks).2
      rw [foldCalls_of_nodup (pairwise_map.mpr (hindices.imp Int.ne_of_lt)), map_map]
      exact (callsOf_choicesAt marshal ids mode requestModel ⟨0, false⟩ i chunks).trans hmessageCalls.symm
    · rw [finishReasonOf_choicesAt, finishReason_candidateChoice, hreason, hcalls]
      cases hfinish : finishAt i false chunks with
      | none => rfl
      | some p =>
        apply (geminiFinishReasonToOpenAI_eq_iff _ _ _).mpr
        intro hp
        exact hstops p.2 (by rw [hfinish, ← hp])

theorem index_nonneg_of_mem {choice : Choice}
    (h : choice ∈ (writeChunks marshal ids mode requestModel s chunks).2.flatMap Written.choices) :
    0 ≤ choice.index := by
  induction chunks generalizing s with
  | nil => cases h
  | cons chunk chunks ih =>
    rw [writeChunks, cons_append, flatMap_cons, flatMap_append, flatMap_choices_usageChunk, mem_append] at h
    rcases h with h | h
    · exact index_streamingChoicesFrom marshal ids mode h
    · exact ih h

theorem piecesAt_ne_nil_of_mem {choice : Choice}
    (h : choice ∈ (writeChunks marshal ids mode requestModel s chunks).2.flatMap Written.choices) :
    ∃ i : Nat, choice.index = i ∧ piecesAt i chunks ≠ [] := by
  have hnonneg := index_nonneg_of_mem marshal ids mode requestModel h
  obtain ⟨i, hi⟩ := Int.eq_ofNat_of_zero_le hnonneg
  refine ⟨i, hi, ?_⟩
  intro hnil
  have hmap := choicesAt_writeChunks_eq (f := fun _ => ()) (g := fun _ => ()) marshal ids mode
    requestModel s i chunks fun _ _ _ => rfl
  rw [hnil] at hmap
  have hmem : choice ∈ choicesAt i (writeChunks marshal ids mode requestModel s chunks).2 :=
    mem_filter.mpr ⟨h, decide_eq_true hi⟩
  rw [map_eq_nil_iff.mp hmap] at hmem
  cases hmem

theorem mem_choices_of_piecesAt (hforms : Forms chunks candidates) (hne : piecesAt i chunks ≠ []) :
    ∃ c, joinCandidates (piecesAt i chunks) = some c ∧
      candidateChoice marshal ids mode i c ∈ geminiCandidatesToOpenAIChoices marshal ids mode candidates := by
  have hjoin : ∃ c, joinCandidates (piecesAt i chunks) = some c := by
    unfold joinCandidates
    rw [if_neg hne]
    exact ⟨_, rfl⟩
  obtain ⟨c, hc⟩ := hjoin
  refine ⟨c, hc, ?_⟩
  rw [geminiCandidatesToOpenAIChoices, mem_choicesFrom]
  exact ⟨i, c, (hforms i).trans hc, by rw [Nat.zero_add]⟩

/-! ## The result -/

/-- The client of the stream has the choices of the response. -/
def StreamAgrees (out : List Written) (choices : List CompletionChoice) : Prop :=
  (∀ choice ∈ out.flatMap Written.choices, ∃ c ∈ choices, c.index = choice.index) ∧
    ∀ c ∈ choices, SameFolded (choicesAt c.index out) c

theorem streamed_choices_agree_iff (ids' : Nat → String)
    (chunks : List (GenerateContentResponse ι)) (response : GenerateContentResponse ι)
    (hforms : Forms chunks response.candidates) :
    StreamAgrees (writeChunks marshal ids mode requestModel ⟨0, false⟩ chunks).2
        (geminiCandidatesToOpenAIChoices marshal ids' mode response.candidates) ↔
      StopsWithOwnCalls chunks := by
  constructor
  · rintro ⟨-, hsame⟩ i seen hstop
    have hne : piecesAt i chunks ≠ [] := by
      intro hnil
      have hreason := fst_finishAt i false chunks
      rw [hstop, hnil] at hreason
      cases hreason
    obtain ⟨c, hjoin, hmem⟩ := mem_choices_of_piecesAt marshal ids' mode hforms hne
    exact (sameFolded_iff marshal ids mode requestModel ids' hjoin).mp (hsame _ hmem) seen hstop
  · intro hstops
    constructor
    · intro choice hchoice
      obtain ⟨i, hi, hne⟩ := piecesAt_ne_nil_of_mem marshal ids mode requestModel hchoice
      obtain ⟨c, -, hmem⟩ := mem_choices_of_piecesAt marshal ids' mode hforms hne
      exact ⟨_, hmem, hi.symm⟩
    · intro choice hchoice
      rw [geminiCandidatesToOpenAIChoices, mem_choicesFrom] at hchoice
      obtain ⟨i, c, hat, rfl⟩ := hchoice
      rw [Nat.zero_add]
      have hjoin := (hforms i).symm.trans hat
      exact (sameFolded_iff marshal ids mode requestModel ids' hjoin).mpr (hstops i)

end

/-! ## Examples -/

/-- How many positions the chunks use. -/
def width (chunks : List (GenerateContentResponse ι)) : Nat :=
  (chunks.map (·.candidates.length)).foldr max 0

theorem piecesAt_of_width_le (h : width chunks ≤ i) : piecesAt i chunks = [] := by
  unfold piecesAt
  induction chunks with
  | nil => rfl
  | cons chunk chunks ih =>
    have hle : max chunk.candidates.length (width chunks) ≤ i := h
    have hnone : candidateAt i chunk.candidates = none := by
      unfold candidateAt
      rw [getElem?_eq_none (by omega)]
      rfl
    rw [filterMap_cons, hnone]
    exact ih (by omega)

instance [DecidableEq ι] (chunks : List (GenerateContentResponse ι))
    (candidates : List (Option (Candidate ι))) : Decidable (Forms chunks candidates) :=
  decidable_of_iff (∀ i < max (width chunks) candidates.length,
      candidateAt i candidates = joinCandidates (piecesAt i chunks)) <| by
    constructor
    · intro h i
      by_cases hi : i < max (width chunks) candidates.length
      · exact h i hi
      · rw [piecesAt_of_width_le (by omega), candidateAt, getElem?_eq_none (by omega)]
        rfl
    · intro h i _
      exact h i

instance (chunks : List (GenerateContentResponse ι)) : Decidable (StopsWithOwnCalls chunks) :=
  decidable_of_iff (∀ i < width chunks,
      finishAt i false chunks ≠
        some (.stop, !(piecesAt i chunks).any hasCalls)) <| by
    constructor
    · intro h i seen hstop
      have hi : i < width chunks := by
        by_contra hge
        have hreason := fst_finishAt i false chunks
        rw [hstop, piecesAt_of_width_le (by omega)] at hreason
        cases hreason
      by_contra hne
      rw [Bool.eq_not.mpr hne] at hstop
      exact h i hi hstop
    · intro h i _ hstop
      exact Bool.not_ne_self _ (h i _ hstop)

def textPart (text : String) : Option (Part String) := some ⟨text, false, none, none⟩

def callPart (name args : String) : Option (Part String) :=
  some ⟨"", false, some ⟨name, args⟩, none⟩

/-- One candidate stops before the other one calls a tool. -/
theorem stop_before_call_agrees :
    let chunks : List (GenerateContentResponse String) :=
      [⟨"r", [some ⟨some [textPart "Hel"], none⟩, some ⟨some [textPart "No"], some .stop⟩], none⟩,
        ⟨"r", [some ⟨some [textPart "lo", callPart "f" "\x7b\x7d"], some .stop⟩], none⟩]
    let response : GenerateContentResponse String :=
      ⟨"r", [some ⟨some [textPart "Hel", textPart "lo", callPart "f" "\x7b\x7d"], some .stop⟩,
        some ⟨some [textPart "No"], some .stop⟩], none⟩
    Forms chunks response.candidates ∧
      StreamAgrees (writeChunks id Nat.repr .regex "gemini" ⟨0, false⟩ chunks).2
        (geminiCandidatesToOpenAIChoices id Nat.repr .regex response.candidates) := by
  intro chunks response
  have hforms : Forms chunks response.candidates := by decide
  have hstops : StopsWithOwnCalls chunks := by decide
  exact ⟨hforms, (streamed_choices_agree_iff id Nat.repr .regex "gemini" Nat.repr chunks response
    hforms).mpr hstops⟩

-- a text that the stream cuts into two parts does not form the response: each part is trimmed
example : answerOf .enum [textPart "very good"] = "very good" ∧
    answerOf .enum [textPart "very ", textPart "good"] = "verygood" ∧
    answerOf .regex [textPart "\"a\"b\""] = "a\"b" ∧
    answerOf .regex [textPart "\"a\"", textPart "b\""] = "ab" := by
  decide

/-- The second candidate stops without a tool call, after the tool call of the first. -/
theorem call_of_other_candidate_disagrees :
    let candidates : List (Option (Candidate String)) :=
      [some ⟨some [callPart "f" "\x7b\x7d"], some .stop⟩, some ⟨some [textPart "No"], some .stop⟩]
    let out := (writeChunks id Nat.repr .none "gemini" ⟨0, false⟩ [⟨"r", candidates, none⟩]).2
    let choices := geminiCandidatesToOpenAIChoices id Nat.repr .none candidates
    Forms [⟨"r", candidates, none⟩] candidates ∧
      finishReasonOf (choicesAt 1 out) = some .toolCalls ∧
      choices.map (·.finishReason) = [some .toolCalls, some .stop] ∧
      ¬ StreamAgrees out choices := by
  intro candidates out choices
  refine ⟨by decide, by decide, by decide, ?_⟩
  rintro ⟨-, hsame⟩
  have hmem : candidateChoice id Nat.repr .none 1 ⟨some [textPart "No"], some .stop⟩ ∈ choices :=
    mem_cons_of_mem _ mem_cons_self
  have hfinish := (hsame _ hmem).finishReason
  revert hfinish
  decide

end AgentRouter.Gemini
