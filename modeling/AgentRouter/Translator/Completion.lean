import AgentRouter.Translator.OpenAIResponse

/-!
# Completion: OpenAI chunks as they are written, and what a client makes of them

The translators that answer OpenAI clients write chunks with any number of choices.  A client
puts the deltas of a choice together: the texts are joined, and the parts of a tool call are
recognised by its index (`foldCalls`).  A response that is not streamed has the same choices in
one piece.
-/

namespace AgentRouter.Completion

open OpenAIStream List

/-! ## Chunks -/

/-- `ChatCompletionResponseChunkChoiceDelta`. -/
structure Delta extends ChoiceDelta where
  role : String

def Delta.empty : Delta := ⟨⟨none, none, [], []⟩, ""⟩

structure Choice where
  index : Int
  delta : Delta
  finishReason : Option FinishReason

structure UsageDetails where
  promptTokens : Int
  completionTokens : Int
  totalTokens : Int
  cachedTokens : Int
  cacheWriteTokens : Int
  reasoningTokens : Int

structure CompletionChunk where
  id : String
  model : String
  choices : List Choice
  usage : Option UsageDetails

/-- The server-sent events of a response. -/
inductive Written where
  | chunk (chunk : CompletionChunk)
  | overloaded (message : String)
  | done

/-! ## Whole responses -/

structure ResponseMessage extends Message where
  role : String

structure CompletionChoice where
  index : Int
  message : ResponseMessage
  finishReason : Option FinishReason

/-- `ChatCompletionResponse`. -/
structure ChatCompletion where
  id : String
  model : String
  choices : List CompletionChoice
  usage : UsageDetails

/-! ## The client -/

def Written.choices : Written → List Choice
  | .chunk c => c.choices
  | .overloaded _ => []
  | .done => []

/-- The choices at one position, in the order they are written. -/
def choicesAt (index : Int) (out : List Written) : List Choice :=
  (out.flatMap Written.choices).filter fun c => c.index = index

def textOf (choices : List Choice) : String :=
  String.join (choices.map fun c => c.delta.content.getD "")

def reasoningOf (choices : List Choice) : String :=
  String.join (choices.map fun c => (c.delta.reasoningContent.map (·.text)).getD "")

def callsOf (choices : List Choice) : List ToolCallDelta :=
  choices.flatMap fun c => c.delta.toolCalls

def finishReasonOf (choices : List Choice) : Option FinishReason :=
  choices.foldl (fun reason c => c.finishReason.or reason) none

/-- The arguments written under an index of a tool call. -/
def argumentsAt (index : Int) (calls : List ToolCallDelta) : String :=
  String.join ((calls.filter fun d => d.index = index).map (·.arguments))

structure FoldedCall where
  index : Int
  id : Option String
  name : String
  arguments : String
  deriving DecidableEq

def FoldedCall.extend (c : FoldedCall) (d : ToolCallDelta) : FoldedCall :=
  { c with id := c.id.or d.id, name := c.name ++ d.name, arguments := c.arguments ++ d.arguments }

/-- A delta with a new index starts a tool call, every other one goes on with its call. -/
def foldCall (calls : List FoldedCall) (d : ToolCallDelta) : List FoldedCall :=
  match calls.findIdx? fun c => c.index = d.index with
  | some k => calls.modify k (·.extend d)
  | none => calls ++ [⟨d.index, d.id, d.name, d.arguments⟩]

def foldCalls (deltas : List ToolCallDelta) : List FoldedCall := deltas.foldl foldCall []

/-! ## Lemmas -/

@[simp] theorem choicesAt_append (index : Int) (out out' : List Written) :
    choicesAt index (out ++ out') = choicesAt index out ++ choicesAt index out' := by
  rw [choicesAt, flatMap_append, filter_append]
  rfl

@[simp] theorem textOf_append (cs cs' : List Choice) : textOf (cs ++ cs') = textOf cs ++ textOf cs' := by
  rw [textOf, map_append, String.join_append]
  rfl

variable (cs : List Choice)

theorem finishReasonOf_append (cs' : List Choice) :
    finishReasonOf (cs ++ cs') = (finishReasonOf cs').or (finishReasonOf cs) := by
  unfold finishReasonOf
  rw [foldl_append]
  induction cs' using List.reverseRecOn with
  | nil => rfl
  | append_singleton cs' c ih =>
    rw [foldl_append, foldl_append, foldl_cons, ih, ← Option.or_assoc]
    rfl

@[simp] theorem callsOf_append (cs cs' : List Choice) :
    callsOf (cs ++ cs') = callsOf cs ++ callsOf cs' := flatMap_append

@[simp] theorem argumentsAt_append (index : Int) (ds ds' : List ToolCallDelta) :
    argumentsAt index (ds ++ ds') = argumentsAt index ds ++ argumentsAt index ds' := by
  rw [argumentsAt, filter_append, map_append, String.join_append]
  rfl

/-! ## Choices that say something -/

def Choice.counts (c : Choice) : Bool :=
  c.delta.content.isSome || !c.delta.toolCalls.isEmpty || c.finishReason.isSome

theorem Choice.of_not_counts {c : Choice} (h : ¬ c.counts = true) :
    c.delta.content = none ∧ c.delta.toolCalls = [] ∧ c.finishReason = none := by
  unfold Choice.counts at h
  simp only [Bool.or_eq_true, Bool.not_eq_true', not_or, Bool.not_eq_true, Option.isSome_eq_false_iff,
    Option.isNone_iff_eq_none, Bool.not_eq_false, List.isEmpty_iff] at h
  exact ⟨h.1.1, h.1.2, h.2⟩

theorem textOf_filter_counts : textOf (cs.filter Choice.counts) = textOf cs := by
  refine Text.join_map_filter (fun c hc => ?_) cs
  rw [(Choice.of_not_counts hc).1]
  rfl

theorem callsOf_filter_counts : callsOf (cs.filter Choice.counts) = callsOf cs := by
  unfold callsOf
  induction cs with
  | nil => rfl
  | cons c cs ih =>
    by_cases hc : c.counts = true
    · rw [filter_cons_of_pos hc, flatMap_cons, flatMap_cons, ih]
    · rw [filter_cons_of_neg hc, flatMap_cons, ih, (Choice.of_not_counts hc).2.1]
      rfl

theorem finishReasonOf_filter_counts : finishReasonOf (cs.filter Choice.counts) = finishReasonOf cs := by
  rw [finishReasonOf, foldl_filter]
  refine foldl_ext _ _ _ fun reason c _ => ?_
  by_cases hc : c.counts = true
  · exact if_pos hc
  · rw [if_neg hc, (Choice.of_not_counts hc).2.2, Option.none_or]

/-! ## Tool calls one after the other -/

/-- The calls have the indices 0, 1, 2, … -/
def Numbered (calls : List FoldedCall) : Prop :=
  ∀ (k : Nat) (c : FoldedCall), calls[k]? = some c → c.index = k

theorem numbered_nil : Numbered [] := by
  intro k c h
  cases h

variable {calls : List FoldedCall}

section

variable (h : Numbered calls)

include h

theorem Numbered.concat {c : FoldedCall} (hc : c.index = calls.length) : Numbered (calls ++ [c]) := by
  intro k c' hk
  rcases Nat.lt_or_ge k calls.length with hlt | hge
  · rw [getElem?_append_left hlt] at hk
    exact h k c' hk
  · rw [getElem?_append_right hge, getElem?_singleton] at hk
    split at hk
    next hzero =>
      cases hk
      omega
    next => cases hk

theorem Numbered.findIdx?_length : (calls.findIdx? fun c => c.index = (calls.length : Int)) = none := by
  rw [findIdx?_eq_none_iff]
  intro c hc
  obtain ⟨k, hk, hget⟩ := getElem_of_mem hc
  have hindex := h k c (by rw [getElem?_eq_getElem hk, hget])
  rw [decide_eq_false_iff_not]
  omega

theorem foldCall_last {c : FoldedCall} {d : ToolCallDelta}
    (hc : c.index = calls.length) (hd : d.index = calls.length) :
    foldCall (calls ++ [c]) d = calls ++ [c.extend d] := by
  have hfind : ((calls ++ [c]).findIdx? fun c => c.index = d.index) = some calls.length := by
    rw [findIdx?_append, hd, h.findIdx?_length]
    simp [hc]
  unfold foldCall
  rw [hfind]
  exact Positions.modify_concat calls c _

theorem foldl_foldCall {id : Option String} {name args : String} (parts : List String) :
    (⟨calls.length, id, name, args⟩ :: parts.map fun s => (⟨calls.length, none, "", s⟩ :
      ToolCallDelta)).foldl foldCall calls =
      calls ++ [⟨calls.length, id, name, args ++ String.join parts⟩] := by
  rw [foldl_cons, foldCall]
  rw [h.findIdx?_length]
  induction parts generalizing args with
  | nil => simp
  | cons s parts ih =>
    rw [map_cons, foldl_cons, foldCall_last h rfl rfl]
    have hextend : (⟨calls.length, id, name, args⟩ : FoldedCall).extend ⟨calls.length, none, "", s⟩ =
        ⟨calls.length, id, name, args ++ s⟩ := by
      simp [FoldedCall.extend]
    rw [hextend, ih, String.join_cons, String.append_assoc]

end

/-! ## Tool calls in one piece -/

variable {deltas : List ToolCallDelta}

theorem foldl_foldCall_of_nodup (h : (calls.map (·.index) ++ deltas.map (·.index)).Nodup) :
    deltas.foldl foldCall calls = calls ++ deltas.map fun d => ⟨d.index, d.id, d.name, d.arguments⟩ := by
  induction deltas generalizing calls with
  | nil => exact (append_nil calls).symm
  | cons d deltas ih =>
    have hnew : (calls.findIdx? fun c => c.index = d.index) = none := by
      rw [findIdx?_eq_none_iff]
      intro c hc
      rw [decide_eq_false_iff_not]
      intro heq
      exact (nodup_append.mp h).2.2 c.index (mem_map_of_mem hc) d.index (mem_map_of_mem mem_cons_self) heq
    have hfirst : foldCall calls d = calls ++ [⟨d.index, d.id, d.name, d.arguments⟩] := by
      unfold foldCall
      rw [hnew]
    rw [foldl_cons, hfirst, ih, append_assoc]
    · rfl
    · rw [map_append, append_assoc]
      exact h

theorem foldCalls_of_nodup (h : (deltas.map (·.index)).Nodup) :
    foldCalls deltas = deltas.map fun d => ⟨d.index, d.id, d.name, d.arguments⟩ :=
  foldl_foldCall_of_nodup h

end AgentRouter.Completion
