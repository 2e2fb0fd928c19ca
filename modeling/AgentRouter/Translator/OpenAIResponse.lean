import AgentRouter.Lib.Text
import AgentRouter.Translator.OpenAIBlocks

/-!
# OpenAIResponse: a whole response against the stream of its chunks

`openAIResponseToAnthropic` converts a response in one go; a stream that spells the same message is
translated delta by delta, and the client puts the events together (`received`).  The two agree when

* the deltas come in the order reasoning, text, tool calls (`Staged`),
* the reasoning of the response is one block that the stream brings once (`ReasoningOnce`), and
* the calls start in the order in which the response lists them,

and otherwise they do not (`received_agrees_iff`): a later block cannot move before an earlier one,
redacted thinking has no event, several thinking blocks run into one, and a text that comes both as
reasoning content and in a thinking block comes twice.
-/

namespace AgentRouter.OpenAIStream

open AnthropicStream List Positions Text

/-! ## The response -/

structure ToolCall where
  id : Option String
  name : String
  arguments : String
  deriving DecidableEq

structure ReasoningText where
  text : String
  signature : String

structure ReasoningContentBlock where
  reasoningText : Option ReasoningText
  redactedContent : String

/-- A plain text, or a structure that may be missing. -/
inductive ReasoningContentUnion where
  | text (text : String)
  | block (content : Option ReasoningContentBlock)

structure Message where
  content : Option String
  toolCalls : List ToolCall
  reasoningContent : Option ReasoningContentUnion
  thinkingBlocks : List ThinkingBlock

structure ResponseChoice where
  message : Message
  finishReason : Option FinishReason

/-- `ChatCompletionResponse`. -/
structure Response where
  id : String
  choices : List ResponseChoice
  usage : Usage

/-- The content of an Anthropic message; `ι` is the type of JSON objects. -/
inductive ContentBlock (ι : Type) where
  | thinking (thinking signature : String)
  | redactedThinking (data : String)
  | text (text : String)
  | toolUse (id name : String) (input : ι)
  deriving DecidableEq

structure MessagesResponse (ι : Type) where
  id : String
  content : List (ContentBlock ι)
  model : String
  stopReason : Option StopReason
  inputTokens : Int
  outputTokens : Int

/-- JSON decoding to an object, and the empty object. -/
structure Objects (ι : Type) where
  decode : String → Option ι
  empty : ι

section

variable {ι : Type}

/-- Arguments that are missing or malformed give the empty object. -/
def Objects.input (o : Objects ι) (arguments : String) : ι :=
  if arguments = "" then o.empty else (o.decode arguments).getD o.empty

def thinkingContent (tb : ThinkingBlock) : Option (ContentBlock ι) :=
  match tb.type with
  | .thinking => some (.thinking tb.thinking tb.signature)
  | .redactedThinking => some (.redactedThinking tb.data)
  | .other _ => none

@[simp] def reasoningBlockContent (rc : ReasoningContentBlock) : List (ContentBlock ι) :=
  (rc.reasoningText.map fun r => .thinking r.text r.signature).toList ++
    if rc.redactedContent = "" then [] else [.redactedThinking rc.redactedContent]

/-- Thinking blocks take priority over the reasoning content. -/
def appendThinkingBlocks (msg : Message) : List (ContentBlock ι) :=
  if msg.thinkingBlocks ≠ [] then msg.thinkingBlocks.filterMap thinkingContent
  else
    match msg.reasoningContent with
    | none => []
    | some (.text t) => if t = "" then [] else [.thinking t ""]
    | some (.block none) => []
    | some (.block (some rc)) => reasoningBlockContent rc

def textContent (text : String) : List (ContentBlock ι) := if text = "" then [] else [.text text]

def toolCallContent (o : Objects ι) (tc : ToolCall) : ContentBlock ι :=
  .toolUse (tc.id.getD "") tc.name (o.input tc.arguments)

def messageContent (o : Objects ι) (msg : Message) : List (ContentBlock ι) :=
  appendThinkingBlocks msg ++ textContent (msg.content.getD "") ++
    msg.toolCalls.map (toolCallContent o)

@[simp] def openAIResponseToAnthropic (o : Objects ι) (resp : Response) (model : String) :
    MessagesResponse ι :=
  { id := resp.id
    content := match resp.choices with
      | [] => []
      | choice :: _ => messageContent o choice.message
    model := model
    stopReason := resp.choices.head?.map fun choice =>
      openAIFinishReasonToAnthropic choice.finishReason
    inputTokens := resp.usage.promptTokens
    outputTokens := resp.usage.completionTokens }

/-! ## The client of the stream -/

def finish (o : Objects ι) : Content → ContentBlock ι
  | .text t => .text t
  | .thinking t g => .thinking t g
  | .toolUse id name json => .toolUse id name (o.input json)

/-- What the client has when the stream is over. -/
def received (o : Objects ι) (events : List Event) : List (ContentBlock ι) :=
  (events.foldl foldContent []).map (finish o)

/-! ## Streams that spell a message -/

/-- The reasoning content of a message. -/
def Message.reasoning (msg : Message) : StreamReasoningContent :=
  match msg.reasoningContent with
  | none => ⟨"", "", ""⟩
  | some (.text t) => ⟨t, "", ""⟩
  | some (.block none) => ⟨"", "", ""⟩
  | some (.block (some rc)) =>
    ⟨(rc.reasoningText.map (·.text)).getD "", (rc.reasoningText.map (·.signature)).getD "",
      rc.redactedContent⟩

/-- Fragments of one thinking block. -/
structure SpellsBlock (fragments : List ThinkingBlock) (tb : ThinkingBlock) : Prop where
  nonempty : fragments ≠ []
  type : ∀ f ∈ fragments, f.type = tb.type
  thinking : String.join (fragments.map (·.thinking)) = tb.thinking
  signature : String.join (fragments.map (·.signature)) = tb.signature
  data : String.join (fragments.map (·.data)) = tb.data

/-- Fragments of the thinking blocks, one block after the other. -/
def SpellsBlocks (fragments tbs : List ThinkingBlock) : Prop :=
  ∃ groups : List (List ThinkingBlock), fragments = groups.flatten ∧
    List.Forall₂ SpellsBlock groups tbs

/-- A tool call as it is put together from its deltas. -/
structure StreamedCall where
  index : Int
  call : ToolCall
  deriving DecidableEq

def StreamedCall.addArguments (arguments : String) (c : StreamedCall) : StreamedCall :=
  { c with call := { c.call with arguments := c.call.arguments ++ arguments } }

/-- The first delta of an index starts a call, the others add to its arguments. -/
def addCall (calls : List StreamedCall) (tc : ToolCallDelta) : List StreamedCall :=
  match calls.findIdx? (·.index == tc.index) with
  | some i => calls.modify i (·.addArguments tc.arguments)
  | none => calls ++ [⟨tc.index, tc.id, tc.name, tc.arguments⟩]

/-- The tool calls in the order in which the stream starts them. -/
def streamCalls (chunks : List Chunk) : List StreamedCall :=
  ((deltas chunks).flatMap (·.toolCalls)).foldl addCall []

/-- The fields of the deltas, put together, are the fields of the message.  Where the reasoning
content has the text of the thinking blocks, their fragments may come without it.  The calls of
the message stand in the order of their indices. -/
structure Spells (chunks : List Chunk) (choice : ResponseChoice) : Prop where
  text : String.join ((deltas chunks).map (·.content.getD "")) = choice.message.content.getD ""
  reasoningText : String.join ((deltas chunks).map fun d => (d.reasoningContent.map (·.text)).getD "")
    = choice.message.reasoning.text
  reasoningSignature :
    String.join ((deltas chunks).map fun d => (d.reasoningContent.map (·.signature)).getD "")
    = choice.message.reasoning.signature
  redacted :
    String.join ((deltas chunks).map fun d => (d.reasoningContent.map (·.redactedContent)).getD "")
    = choice.message.reasoning.redactedContent
  thinking : SpellsBlocks ((deltas chunks).flatMap (·.thinkingBlocks)) choice.message.thinkingBlocks ∨
    choice.message.reasoning.text = String.join (choice.message.thinkingBlocks.map (·.thinking)) ∧
      SpellsBlocks ((deltas chunks).flatMap (·.thinkingBlocks))
        (choice.message.thinkingBlocks.map fun tb => { tb with thinking := "" })
  calls : ∃ ordered : List StreamedCall, ordered.Perm (streamCalls chunks) ∧
    ordered.Pairwise (fun a b => a.index < b.index) ∧
    choice.message.toolCalls = ordered.map (·.call)
  finishReason : choice.finishReason = streamReason chunks
  usageLast : UsageLast chunks

end

/-! ## Parts by kind -/

def Part.kind : Part → Nat
  | .reasoning _ _ => 0
  | .text _ => 1
  | .tool _ => 2

def Entry.kind : Entry → Nat
  | .thinking _ _ => 0
  | .text _ => 1
  | .tool _ _ _ _ => 2

open Entry

/-- Reasoning before text before tool calls. -/
def Staged (ps : List Part) : Prop := ps.Pairwise fun p q => p.kind ≤ q.kind

instance (ps : List Part) : Decidable (Staged ps) := inferInstanceAs (Decidable (ps.Pairwise _))

@[simp] def Part.reasoning? : Part → Option (String × String)
  | .reasoning t g => some (t, g)
  | _ => none

def Part.text? : Part → Option String
  | .text t => some t
  | _ => none

def Part.reasoningText : Part → String
  | .reasoning t _ => t
  | _ => ""

def Part.reasoningSignature : Part → String
  | .reasoning _ g => g
  | _ => ""

@[simp] def Part.plainText : Part → String
  | .text t => t
  | _ => ""

/-- A value of the parts, put together. -/
def joined (v : Part → String) (ps : List Part) : String := String.join (ps.map v)

/-- The texts of all reasoning that comes, of both forms. -/
abbrev reasoningText : List Part → String := joined Part.reasoningText

abbrev reasoningSignature : List Part → String := joined Part.reasoningSignature

abbrev plainText : List Part → String := joined Part.plainText

variable {v : Part → String}

theorem joined_eq_filterMap {α : Type} {select : Part → Option α} {value : α → String}
    (h : ∀ p, v p = ((select p).map value).getD "") (ps : List Part) :
    joined v ps = String.join ((ps.filterMap select).map value) := by
  unfold joined
  induction ps with
  | nil => rfl
  | cons p ps ih =>
    rw [map_cons, String.join_cons, ih, h p, filterMap_cons]
    cases select p with
    | none => simp
    | some a => simp

variable {ps : List Part}

theorem staged_split (h : Staged ps) :
    ps = (ps.filterMap Part.reasoning?).map (fun r => .reasoning r.1 r.2) ++
      ((ps.filterMap Part.text?).map .text ++ (ps.filterMap Part.tool?).map .tool) := by
  induction ps with
  | nil => rfl
  | cons p ps ih =>
    obtain ⟨hp, hps⟩ := pairwise_cons.mp h
    have hsplit := ih hps
    have hnone {α : Type} {select : Part → Option α} {k : Nat}
        (hselect : ∀ q : Part, q.kind ≠ k → select q = none) (hkind : k < p.kind) :
        ps.filterMap select = [] :=
      filterMap_eq_nil_iff.mpr fun q hq => hselect q (Nat.ne_of_gt (hkind.trans_le (hp q hq)))
    have hreasoning : 0 < p.kind → ps.filterMap Part.reasoning? = [] :=
      hnone fun q hq => by cases q <;> first | rfl | exact absurd rfl hq
    have htext : 1 < p.kind → ps.filterMap Part.text? = [] :=
      hnone fun q hq => by cases q <;> first | rfl | exact absurd rfl hq
    cases p with
    | reasoning t g => simpa [filterMap_cons, Part.text?, Part.tool?] using hsplit
    | text t =>
      simpa [filterMap_cons, Part.text?, Part.tool?, hreasoning Nat.one_pos] using hsplit
    | tool tc =>
      simpa [filterMap_cons, Part.text?, Part.tool?, hreasoning Nat.two_pos, htext Nat.one_lt_two] using hsplit

/-! ## The blocks of a staged stream -/

theorem foldl_reasoning_concat (init : List Entry) (t g : String) (rs : List (String × String)) :
    (rs.map fun r => Part.reasoning r.1 r.2).foldl addPart (init ++ [.thinking t g]) =
      init ++ [.thinking (t ++ String.join (rs.map (·.1))) (g ++ String.join (rs.map (·.2)))] := by
  induction rs generalizing t g with
  | nil => simp
  | cons r rs ih =>
    rw [map_cons, foldl_cons]
    simp only [addPart, getLast?_concat, addReasoning, dropLast_concat]
    rw [ih]
    simp [String.append_assoc]

theorem foldl_reasoning (rs : List (String × String)) :
    (rs.map fun r => Part.reasoning r.1 r.2).foldl addPart [] =
      if rs = [] then []
      else [.thinking (String.join (rs.map (·.1))) (String.join (rs.map (·.2)))] := by
  cases rs with
  | nil => rfl
  | cons r rs =>
    rw [map_cons, foldl_cons]
    have hstep : addPart [] (.reasoning r.1 r.2) = [] ++ [.thinking r.1 r.2] := rfl
    rw [hstep, foldl_reasoning_concat]
    simp

theorem foldl_text_concat (init : List Entry) (t : String) (ts : List String) :
    (ts.map Part.text).foldl addPart (init ++ [.text t]) = init ++ [.text (t ++ String.join ts)] := by
  induction ts generalizing t with
  | nil => simp
  | cons t' ts ih =>
    rw [map_cons, foldl_cons]
    simp only [addPart, getLast?_concat, addText, dropLast_concat]
    rw [ih]
    simp [String.append_assoc]

variable {blocks : List Entry}

theorem foldl_text (h : ∀ e ∈ blocks, e.kind = 0) (ts : List String) :
    (ts.map Part.text).foldl addPart blocks = blocks ++ if ts = [] then [] else [.text (String.join ts)] := by
  cases ts with
  | nil => simp
  | cons t ts =>
    have hstep : addPart blocks (.text t) = blocks ++ [.text t] := by
      rcases eq_nil_or_concat' blocks with rfl | ⟨init, e, rfl⟩
      · rfl
      · have hkind := h e (by simp)
        rw [addPart, getLast?_concat]
        cases e with
        | thinking t' g' => rfl
        | text t' | tool i id name json => cases hkind
    rw [map_cons, foldl_cons, hstep, foldl_text_concat]
    simp

/-- The block of a call. -/
def StreamedCall.entry (c : StreamedCall) : Entry :=
  .tool c.index (c.call.id.getD "") c.call.name c.call.arguments

theorem findIdx?_entries (h : ∀ e ∈ blocks, e.kind ≠ 2) (calls : List StreamedCall) (k : Int) :
    (blocks ++ calls.map StreamedCall.entry).findIdx? (·.hasIndex k) =
      (calls.findIdx? (·.index == k)).map (· + blocks.length) := by
  have hnone : blocks.findIdx? (·.hasIndex k) = none := by
    rw [findIdx?_eq_none_iff]
    intro e he
    have hkind := h e he
    cases e with
    | thinking t g => rfl
    | text t => rfl
    | tool i id name json => exact absurd rfl hkind
  rw [findIdx?_append, hnone, findIdx?_map]
  rfl

theorem foldl_tools (h : ∀ e ∈ blocks, e.kind ≠ 2) (calls : List StreamedCall) (tcs : List ToolCallDelta) :
    (tcs.map Part.tool).foldl addPart (blocks ++ calls.map StreamedCall.entry) =
      blocks ++ (tcs.foldl addCall calls).map StreamedCall.entry := by
  induction tcs generalizing calls with
  | nil => rfl
  | cons tc tcs ih =>
    have hstep : addPart (blocks ++ calls.map StreamedCall.entry) (.tool tc) =
        blocks ++ (addCall calls tc).map StreamedCall.entry := by
      simp only [addPart, addTool, addCall]
      rw [findIdx?_entries h]
      cases calls.findIdx? (·.index == tc.index) with
      | none => simp [StreamedCall.entry]
      | some i =>
        simp only [Option.map_some]
        have hentry : ∀ c : StreamedCall, (c.addArguments tc.arguments).entry =
            c.entry.addArguments tc.arguments := fun c => rfl
        rw [map_modify hentry, Nat.add_comm]
        exact modifyTailIdx_add _ i blocks _
    rw [map_cons, foldl_cons, hstep, ih, foldl_cons]

theorem eq_of_mem_unless {α : Type} {a b : α} {c : Prop} [Decidable c]
    (h : b ∈ if c then [] else [a]) : b = a := by
  split at h
  · exact absurd h not_mem_nil
  · exact mem_singleton.mp h

/-- The thinking of a staged stream is one block. -/
def thinkingEntries (t g : String) : List Entry := if t = "" ∧ g = "" then [] else [.thinking t g]

def textEntries (t : String) : List Entry := if t = "" then [] else [.text t]

theorem join_pair_eq_empty_iff {rs : List (String × String)} (h : ∀ r ∈ rs, ¬ (r.1 = "" ∧ r.2 = "")) :
    (String.join (rs.map (·.1)) = "" ∧ String.join (rs.map (·.2)) = "") ↔ rs = [] := by
  cases rs with
  | nil => simp
  | cons r rs =>
    simp only [map_cons, String.join_cons, String.append_eq_empty_iff, reduceCtorEq, iff_false]
    exact fun hjoin => h r mem_cons_self ⟨hjoin.1.1, hjoin.2.1⟩

theorem blocks_of_staged (hstaged : Staged ps) (hps : ∀ p ∈ ps, p.isEmpty = false) :
    ps.foldl addPart [] =
      thinkingEntries (reasoningText ps) (reasoningSignature ps) ++ textEntries (plainText ps) ++
        ((ps.filterMap Part.tool?).foldl addCall []).map StreamedCall.entry := by
  have hrs : ∀ r ∈ ps.filterMap Part.reasoning?, ¬ (r.1 = "" ∧ r.2 = "") := by
    intro r hr
    obtain ⟨p, hp, hpr⟩ := mem_filterMap.mp hr
    have hempty := hps p hp
    cases p with
    | reasoning t g =>
      cases hpr
      simpa [Part.isEmpty] using hempty
    | text t | tool tc => cases hpr
  have hts : ∀ t ∈ ps.filterMap Part.text?, t ≠ "" := by
    intro t ht
    obtain ⟨p, hp, hpt⟩ := mem_filterMap.mp ht
    have hempty := hps p hp
    cases p with
    | reasoning t g | tool tc => cases hpt
    | text t =>
      cases hpt
      simpa [Part.isEmpty] using hempty
  have hthinking : (if ps.filterMap Part.reasoning? = [] then [] else
      [.thinking (String.join ((ps.filterMap Part.reasoning?).map (·.1)))
        (String.join ((ps.filterMap Part.reasoning?).map (·.2)))]) =
      thinkingEntries (reasoningText ps) (reasoningSignature ps) := by
    have ht : reasoningText ps = String.join ((ps.filterMap Part.reasoning?).map (·.1)) :=
      joined_eq_filterMap (fun p => by cases p <;> rfl) ps
    have hg : reasoningSignature ps = String.join ((ps.filterMap Part.reasoning?).map (·.2)) :=
      joined_eq_filterMap (fun p => by cases p <;> rfl) ps
    unfold thinkingEntries
    rw [ht, hg]
    simp only [join_pair_eq_empty_iff hrs]
  have htext : (if ps.filterMap Part.text? = [] then [] else
      [.text (String.join (ps.filterMap Part.text?))]) = textEntries (plainText ps) := by
    have ht : plainText ps = String.join ((ps.filterMap Part.text?).map id) :=
      joined_eq_filterMap (fun p => by cases p <;> rfl) ps
    unfold textEntries
    rw [ht, map_id]
    simp only [Text.join_eq_empty_iff hts]
  have hkinds : ∀ e ∈ thinkingEntries (reasoningText ps) (reasoningSignature ps), e.kind = 0 := by
    intro e he
    rw [eq_of_mem_unless he]
    rfl
  have hkinds' : ∀ e ∈ thinkingEntries (reasoningText ps) (reasoningSignature ps) ++
      textEntries (plainText ps), e.kind ≠ 2 := by
    intro e he
    rcases mem_append.mp he with he | he
    · rw [hkinds e he]
      decide
    · rw [eq_of_mem_unless he]
      exact Nat.ne_of_lt (Nat.lt_succ_self 1)
  conv => lhs; rw [staged_split hstaged]
  rw [foldl_append, foldl_reasoning, hthinking, foldl_append, foldl_text hkinds, htext]
  simpa using foldl_tools hkinds' [] (ps.filterMap Part.tool?)

/-! ## Only staged streams -/

/-- A text that is lost. -/
def lost (blocks : List Entry) : Part → Bool
  | .text _ => (blocks.getLast?.map Entry.isTool).getD false
  | _ => false

variable {p : Part}

theorem kind_of_place {i : Nat} (h : place blocks p = some i) :
    lost blocks p = true ∨ p.kind = 2 ∧ 2 ∈ blocks.map kind ∨ (blocks.map kind).getLast? = some p.kind := by
  cases p with
  | tool tc =>
    obtain ⟨hi, hindex, -⟩ := findIdx?_eq_some_iff_getElem.mp h
    refine .inr (.inl ⟨rfl, mem_map.mpr ⟨blocks[i], getElem_mem hi, ?_⟩⟩)
    cases he : blocks[i] with
    | thinking t g | text t => rw [he] at hindex; cases hindex
    | tool i id name json => rfl
  | reasoning t g =>
    rcases eq_nil_or_concat' blocks with rfl | ⟨init, e, rfl⟩
    · cases h
    · cases e with
      | thinking t' g' => exact .inr (.inr (by simp [kind, Part.kind]))
      | text t' | tool i id name json => simp [place] at h
  | text t =>
    rcases eq_nil_or_concat' blocks with rfl | ⟨init, e, rfl⟩
    · cases h
    · cases e with
      | thinking t' g' => simp [place] at h
      | text t' => exact .inr (.inr (by simp [kind, Part.kind]))
      | tool i id name json => exact .inl (by simp [lost, isTool])

theorem kinds_addPart (blocks : List Entry) (p : Part) :
    (addPart blocks p).map kind = blocks.map kind ++ [p.kind] ∨
      (addPart blocks p).map kind = blocks.map kind ∧
        (lost blocks p = true ∨ p.kind = 2 ∧ 2 ∈ blocks.map kind ∨
          (blocks.map kind).getLast? = some p.kind) := by
  have hadd : ∀ e : Entry, (e.add p).kind = e.kind := fun e => by cases e <;> cases p <;> rfl
  have hentry : p.entry.kind = p.kind := by cases p <;> rfl
  rcases part_cases blocks p with ⟨-, h, -⟩ | ⟨i, -, hplace, h, -⟩
  · exact .inl (by rw [h, map_append, map_singleton, hentry])
  · rw [h]
    exact .inr ⟨map_modify_of_comp hadd blocks i, kind_of_place hplace⟩

theorem kind_le_two (e : Entry) : e.kind ≤ 2 := by
  cases e <;> simp [kind]

/-- Blocks in the order thinking, text, tools. -/
def Sorted (blocks : List Entry) : Prop := (blocks.map Entry.kind).Pairwise (· ≤ ·)

theorem sorted_of_addPart (h : Sorted (addPart blocks p)) : Sorted blocks := by
  unfold Sorted at h ⊢
  rcases kinds_addPart blocks p with hkinds | ⟨hkinds, -⟩
  · rw [hkinds, pairwise_append] at h
    exact h.1
  · rwa [hkinds] at h

theorem sorted_of_foldl (h : Sorted (ps.foldl addPart blocks)) : Sorted blocks := by
  induction ps generalizing blocks with
  | nil => exact h
  | cons p ps ih => exact sorted_of_addPart (ih h)

theorem kind_mem_addPart (h : lost blocks p = false) : p.kind ∈ (addPart blocks p).map kind := by
  rcases kinds_addPart blocks p with hkinds | ⟨hkinds, hlost | ⟨hkind, hmem⟩ | hlast⟩
  · rw [hkinds]
    simp
  · rw [h] at hlost
    cases hlost
  · rw [hkinds, hkind]
    exact hmem
  · rw [hkinds]
    exact mem_of_getLast? hlast

theorem kind_le_of_sorted (h : Sorted (addPart blocks p)) (hlost : lost blocks p = false) :
    ∀ k ∈ blocks.map kind, k ≤ p.kind := by
  intro k hk
  have hsorted : Sorted blocks := sorted_of_addPart h
  unfold Sorted at h hsorted
  rcases kinds_addPart blocks p with hkinds | ⟨hkinds, hlost' | ⟨hkind, -⟩ | hlast⟩
  · rw [hkinds, pairwise_append] at h
    exact h.2.2 k hk p.kind (by simp)
  · rw [hlost] at hlost'
    cases hlost'
  · obtain ⟨e, -, rfl⟩ := mem_map.mp hk
    rw [hkind]
    exact kind_le_two e
  · obtain ⟨init, hinit⟩ := getLast?_eq_some_iff.mp hlast
    rw [hinit] at hk hsorted
    rcases mem_append.mp hk with hk | hk
    · exact (pairwise_append.mp hsorted).2.2 k hk p.kind (by simp)
    · exact Nat.le_of_eq (mem_singleton.mp hk)

def Entry.plainText : Entry → String
  | .text t => t
  | _ => ""

/-- The text of the blocks. -/
def blocksText (blocks : List Entry) : String := String.join (blocks.map Entry.plainText)

theorem blocksText_addPart (blocks : List Entry) (p : Part) :
    blocksText (addPart blocks p) =
      blocksText blocks ++ if lost blocks p = true then "" else p.plainText := by
  unfold blocksText
  rcases part_cases blocks p with ⟨hplace, hadd, -⟩ | ⟨i, -, hplace, hadd, -⟩
  · have hlost : lost blocks p = false := by
      cases p with
      | reasoning t g => rfl
      | text t => exact misplaced_of_no_place hplace
      | tool tc => rfl
    have hentry : p.entry.plainText = p.plainText := by cases p <;> rfl
    rw [hadd, map_append, map_singleton, hentry, hlost]
    simp
  · rw [hadd]
    cases p with
    | reasoning t g =>
      have hsame : ∀ e : Entry, (e.add (.reasoning t g)).plainText = e.plainText := by
        intro e
        cases e <;> rfl
      simp [map_modify_of_comp hsame]
    | text t =>
      rcases eq_nil_or_concat' blocks with rfl | ⟨init, e, rfl⟩
      · cases hplace
      · obtain ⟨hthinking, rfl⟩ : e.isThinking = false ∧ init.length = i := by
          simpa [place] using hplace
        rw [modify_concat]
        cases e with
        | thinking t' g' => cases hthinking
        | text t' => simp [lost, Entry.isTool, Entry.add, Entry.plainText, String.append_assoc]
        | tool k id name json => simp [lost, isTool, add]
    | tool tc =>
      have hsame : ∀ e : Entry, (e.add (.tool tc)).plainText = e.plainText := by
        intro e
        cases e <;> rfl
      simp [map_modify_of_comp hsame]

theorem length_blocksText_foldl (blocks : List Entry) (ps : List Part) :
    (blocksText (ps.foldl addPart blocks)).length ≤ (blocksText blocks).length + (plainText ps).length := by
  induction ps generalizing blocks with
  | nil => simp
  | cons p ps ih =>
    have hrest := ih (addPart blocks p)
    have hlength : (if lost blocks p = true then "" else p.plainText).length ≤ p.plainText.length := by
      split
      · exact Nat.zero_le _
      · exact Nat.le_refl _
    rw [blocksText_addPart] at hrest
    simp only [foldl_cons, joined, map_cons, String.join_cons, String.length_append] at *
    omega

/-- Blocks in order that lack no text come from parts in order. -/
theorem staged_of_sorted (hps : ∀ p ∈ ps, p.isEmpty = false)
    (hsorted : Sorted (ps.foldl addPart blocks))
    (hlength : (blocksText blocks).length + (plainText ps).length ≤
      (blocksText (ps.foldl addPart blocks)).length) :
    Staged ps ∧ ∀ p ∈ ps, ∀ k ∈ blocks.map kind, k ≤ p.kind := by
  induction ps generalizing blocks with
  | nil => exact ⟨List.Pairwise.nil, fun p hp => absurd hp not_mem_nil⟩
  | cons p ps ih =>
    have hle := length_blocksText_foldl (addPart blocks p) ps
    have htext : (plainText (p :: ps)).length = p.plainText.length + (plainText ps).length := by
      simp [joined]
    rw [foldl_cons] at hsorted hlength
    have hlost : lost blocks p = false := by
      cases hl : lost blocks p with
      | false => rfl
      | true =>
        rw [blocksText_addPart, if_pos hl] at hle
        have hzero : p.plainText.length = 0 := by
          simp only [String.append_empty] at hle
          omega
        cases p with
        | reasoning t g | tool tc => cases hl
        | text t =>
          have hempty := hps (.text t) mem_cons_self
          simp [Part.isEmpty] at hempty
          exact absurd (String.length_eq_zero_iff.mp hzero) hempty
    have hadd : (blocksText (addPart blocks p)).length = (blocksText blocks).length + p.plainText.length := by
      rw [blocksText_addPart, hlost]
      simp
    obtain ⟨hstaged, hkinds⟩ := ih (fun q hq => hps q (mem_cons_of_mem _ hq)) hsorted (by omega)
    have hsorted' : Sorted (addPart blocks p) := sorted_of_foldl hsorted
    refine ⟨pairwise_cons.mpr ⟨?_, hstaged⟩, ?_⟩
    · intro q hq
      exact hkinds q hq p.kind (kind_mem_addPart hlost)
    · intro q hq k hk
      rcases mem_cons.mp hq with rfl | hq
      · exact kind_le_of_sorted hsorted' hlost k hk
      · refine hkinds q hq k ?_
        rcases kinds_addPart blocks p with h | ⟨h, -⟩
        · rw [h]
          exact mem_append_left _ hk
        · rw [h]
          exact hk

/-! ## What the client has -/

theorem foldContent_startEvents (cs : List Content) (blocks : List Entry) (b : BlockStart) :
    (startEvents blocks b).foldl foldContent cs = cs ++ [b.content] := by
  unfold startEvents stopEvents
  split
  · rfl
  · rfl

theorem foldContent_deltas (cs : List Content) (i : Nat) (ds : List Delta) :
    (ds.map (.contentBlockDelta i)).foldl foldContent cs = cs.modify i (ds.foldl Content.append ·) := by
  induction ds generalizing cs with
  | nil => exact (modify_id i cs).symm
  | cons d ds ih =>
    rw [map_cons, foldl_cons, ih, foldContent, modify_modify_eq]
    rfl

/-- Writing the deltas of a part into a block; the client ignores a text in a tool block. -/
theorem content_add (p : Part) (e : Entry) :
    (e.add p).content = (pieces p).foldl Content.append e.content := by
  cases p with
  | reasoning t g =>
    by_cases ht : t = ""
    · by_cases hg : g = ""
      · cases e <;> simp [reasoningPieces, ht, hg, add]
      · cases e <;> simp [pieces, reasoningPieces, ht, hg, add, content, Content.append]
    · by_cases hg : g = ""
      · cases e <;> simp [pieces, reasoningPieces, ht, hg, add, content, Content.append]
      · cases e <;> simp [pieces, reasoningPieces, ht, hg, add, content, Content.append]
  | text t => cases e <;> rfl
  | tool tc =>
    by_cases h : tc.arguments = ""
    · cases e <;> simp [h, add]
    · cases e <;> simp [pieces, h, add, content, Content.append]

/-- A block with nothing in it. -/
def Part.start : Part → Entry
  | .reasoning _ _ => .thinking "" ""
  | .text _ => .text ""
  | .tool tc => .tool tc.index (tc.id.getD "") tc.name ""

theorem content_entry (p : Part) :
    (pieces p).foldl Content.append p.entry.start.content = p.entry.content := by
  have hstart : p.entry.start.content = p.start.content := by cases p <;> rfl
  have hentry : p.start.add p = p.entry := by cases p <;> simp [Part.start, add]
  rw [hstart, ← content_add, hentry]

theorem foldContent_partEvents (blocks : List Entry) (p : Part) :
    (partEvents blocks p).foldl foldContent (blocks.map content) = (addPart blocks p).map content := by
  rcases part_cases blocks p with ⟨-, hadd, hevents⟩ | ⟨i, -, -, hadd, hevents⟩
  · have hmodify := modify_concat (blocks.map content) p.entry.start.content
      ((pieces p).foldl Content.append ·)
    rw [length_map, content_entry] at hmodify
    rw [hevents, hadd, foldl_append, foldContent_startEvents, foldContent_deltas, hmodify, map_append]
    rfl
  · rw [hevents, hadd, foldContent_deltas]
    exact (map_modify (content_add p) blocks i).symm

theorem foldContent_partsEvents (blocks : List Entry) (ps : List Part) :
    (partsEvents blocks ps).foldl foldContent (blocks.map content) =
      (ps.foldl addPart blocks).map content := by
  induction ps generalizing blocks with
  | nil => rfl
  | cons p ps ih =>
    rw [partsEvents, foldl_append, foldContent_partEvents, ih, foldl_cons]

section

variable {ι : Type} {chunks : List Chunk} (o : Objects ι)

/-- The client ends up with the blocks of the message. -/
theorem received_translate (requestModel : String) (h : UsageLast chunks) :
    received o (translate requestModel chunks) = (streamBlocks chunks).map fun e => finish o e.content := by
  obtain ⟨events, it, ot, htranslate, hbegins⟩ := translate_eq requestModel h
  have hevents : events.foldl foldContent [] = (streamBlocks chunks).map content := by
    unfold Begins at hbegins
    split at hbegins
    · obtain ⟨m, rfl⟩ := hbegins
      exact foldContent_partsEvents [] (streamParts chunks)
    · obtain ⟨rfl, hparts⟩ := hbegins
      rw [streamBlocks, hparts]
      rfl
  rw [received, htranslate, foldl_append, hevents]
  unfold closingEvents stopEvents
  split
  · exact map_map
  · exact map_map

theorem stopReasonOf_translate (requestModel : String) (h : UsageLast chunks) :
    stopReasonOf (translate requestModel chunks) =
      some (openAIFinishReasonToAnthropic (streamReason chunks)) := by
  obtain ⟨events, it, ot, htranslate, -⟩ := translate_eq requestModel h
  rw [htranslate]
  simp [stopReasonOf, foldl_append]

/-! ## Deltas and parts -/

theorem isEmpty_of_mem_streamParts (h : p ∈ streamParts chunks) : p.isEmpty = false := by
  rw [streamParts_eq] at h
  obtain ⟨d, -, hp⟩ := mem_flatMap.mp h
  exact isEmpty_of_mem_partsOf hp

variable (hv : ∀ p : Part, p.isEmpty = true → v p = "")

include hv in
theorem joined_partsOf (d : ChoiceDelta) : joined v (partsOf d) = joined v (allParts d) :=
  join_map_filter (fun p hp => hv p (by simpa using hp)) _

include hv in
theorem joined_streamParts (chunks : List Chunk) :
    joined v (streamParts chunks) = String.join ((deltas chunks).map fun d => joined v (allParts d)) := by
  rw [streamParts_eq]
  induction deltas chunks with
  | nil => rfl
  | cons d ds ih =>
    rw [map_cons, String.join_cons, ← ih, ← joined_partsOf hv d]
    simp [joined]

theorem joined_allParts (htool : ∀ tc, v (.tool tc) = "") (d : ChoiceDelta) :
    joined v (allParts d) = String.join ((reasoningsOf d).map fun r => v (.reasoning r.1 r.2)) ++
      (d.content.map fun t => v (.text t)).getD "" := by
  have htools : (d.toolCalls.map fun tc => v (.tool tc)) = d.toolCalls.map fun _ => "" := by
    simp only [htool]
  rw [joined, allParts_eq]
  simp only [map_append, map_map, Function.comp_def, htools, String.join_append,
    join_map_empty, String.append_empty]
  cases d.content with
  | none => simp
  | some t => simp

theorem plainText_allParts (d : ChoiceDelta) : plainText (allParts d) = d.content.getD "" := by
  rw [plainText, joined_allParts fun tc => rfl]
  simp only [Part.plainText, join_map_empty, String.empty_append]
  rw [Option.map_id']

include hv in
theorem joined_reasoning (htext : ∀ t, v (.text t) = "") (htool : ∀ tc, v (.tool tc) = "")
    (h : ∀ d ∈ deltas chunks, d.thinkingBlocks = []) :
    joined v (streamParts chunks) = String.join ((deltas chunks).map fun d =>
      (d.reasoningContent.map fun rc => v (.reasoning rc.text rc.signature)).getD "") := by
  rw [joined_streamParts hv]
  refine congrArg String.join (map_congr_left fun d hd => ?_)
  rw [joined_allParts htool, reasoningsOf, h d hd]
  cases d.reasoningContent with
  | none | some rc => cases d.content <;> simp [htext]

theorem empty_of_isEmpty (h : p.isEmpty = true) :
    p.reasoningText = "" ∧ p.reasoningSignature = "" ∧ p.plainText = "" := by
  cases p with
  | reasoning t g =>
    obtain ⟨ht, hg⟩ : t = "" ∧ g = "" := by simpa [Part.isEmpty] using h
    exact ⟨ht, hg, rfl⟩
  | text t =>
    have ht : t = "" := by simpa [Part.isEmpty] using h
    exact ⟨rfl, rfl, ht⟩
  | tool tc => exact ⟨rfl, rfl, rfl⟩

/-! ## Agreement -/

def ContentBlock.kind : ContentBlock ι → Nat
  | .thinking _ _ => 0
  | .redactedThinking _ => 0
  | .text _ => 1
  | .toolUse _ _ _ => 2

def ContentBlock.plainText : ContentBlock ι → String
  | .text t => t
  | _ => ""

/-- Types of thinking blocks that a response may have. -/
@[simp] def ThinkingType.known : ThinkingType → Bool
  | .other _ => false
  | _ => true

/-- Reasoning content that becomes at most one block, which is not redacted. -/
@[simp] def OnceFromContent : Option ReasoningContentUnion → Prop
  | some (.block (some rc)) => rc.redactedContent = "" ∧ rc.reasoningText ≠ some ⟨"", ""⟩
  | _ => True

/-- Thinking blocks that are at most one block, which is not redacted and has this text and
signature. -/
def OnceFromBlocks (text signature : String) : List ThinkingBlock → Prop
  | [] => text = "" ∧ signature = ""
  | [b] => b.type = .thinking ∧ ¬ (b.thinking = "" ∧ b.signature = "") ∧
      text = b.thinking ∧ signature = b.signature
  | _ => False

/-- The reasoning of the response is at most one block of thinking, and the stream brings it once:
the text does not come in the reasoning content and in a thinking block both. -/
def ReasoningOnce (msg : Message) (ps : List Part) : Prop :=
  if msg.thinkingBlocks = [] then OnceFromContent msg.reasoningContent
  else OnceFromBlocks (reasoningText ps) (reasoningSignature ps)
    (msg.thinkingBlocks.filter (·.type.known))

/-- The thinking that the client of the stream gets when it comes first. -/
def streamedThinking (t g : String) : List (ContentBlock ι) :=
  if t = "" ∧ g = "" then [] else [.thinking t g]

theorem thinkingContent_eq_none_iff (tb : ThinkingBlock) :
    (thinkingContent tb : Option (ContentBlock ι)) = none ↔ tb.type.known = false := by
  unfold thinkingContent
  cases tb.type with
  | thinking | redactedThinking | other name => simp

theorem filterMap_thinkingContent (tbs : List ThinkingBlock) :
    (tbs.filterMap thinkingContent : List (ContentBlock ι)) =
      (tbs.filter (·.type.known)).filterMap thinkingContent := by
  rw [filterMap_filter]
  congr 1
  funext tb
  cases hknown : tb.type.known with
  | true => rfl
  | false => exact (thinkingContent_eq_none_iff tb).mpr hknown

theorem length_filterMap_thinkingContent {tbs : List ThinkingBlock} (h : ∀ tb ∈ tbs, tb.type.known = true) :
    (tbs.filterMap thinkingContent : List (ContentBlock ι)).length = tbs.length := by
  rw [filterMap_length_eq_length]
  intro tb htb
  rw [Option.isSome_iff_ne_none, Ne, thinkingContent_eq_none_iff, h tb htb]
  decide

theorem streamedThinking_eq_nil_iff (t g : String) :
    (streamedThinking t g : List (ContentBlock ι)) = [] ↔ t = "" ∧ g = "" := by
  unfold streamedThinking
  split
  next h => simp [h]
  next h => simp [h]

theorem streamedThinking_eq_singleton_iff (t g t' g' : String) :
    (streamedThinking t g : List (ContentBlock ι)) = [.thinking t' g'] ↔
      ¬ (t' = "" ∧ g' = "") ∧ t = t' ∧ g = g' := by
  unfold streamedThinking
  split
  next h =>
    obtain ⟨rfl, rfl⟩ := h
    simp only [nil_eq, reduceCtorEq, false_iff]
    rintro ⟨hne, rfl, rfl⟩
    exact hne ⟨rfl, rfl⟩
  next h =>
    simp only [List.cons.injEq, ContentBlock.thinking.injEq, and_true]
    constructor
    · rintro ⟨rfl, rfl⟩
      exact ⟨h, rfl, rfl⟩
    · exact fun heq => heq.2

theorem redacted_not_mem_streamedThinking (t g data : String) :
    (.redactedThinking data : ContentBlock ι) ∉ streamedThinking t g := by
  unfold streamedThinking
  split
  · exact not_mem_nil
  · simp

theorem length_streamedThinking_le (t g : String) :
    (streamedThinking t g : List (ContentBlock ι)).length ≤ 1 := by
  unfold streamedThinking
  split
  · exact Nat.zero_le 1
  · exact Nat.le_refl 1

theorem SpellsBlocks.eq_nil {fragments : List ThinkingBlock} (h : SpellsBlocks fragments []) :
    fragments = [] := by
  obtain ⟨groups, rfl, hgroups⟩ := h
  cases hgroups
  rfl

variable {choice : ResponseChoice}

theorem Spells.no_fragments (h : Spells chunks choice) (hnil : choice.message.thinkingBlocks = []) :
    ∀ d ∈ deltas chunks, d.thinkingBlocks = [] := by
  have hfragments : (deltas chunks).flatMap (·.thinkingBlocks) = [] := by
    rcases h.thinking with hspells | ⟨-, hspells⟩
    · rw [hnil] at hspells
      exact hspells.eq_nil
    · rw [hnil] at hspells
      exact hspells.eq_nil
  exact flatMap_eq_nil_iff.mp hfragments

theorem reasoning_of_spells (h : Spells chunks choice) (hnil : choice.message.thinkingBlocks = []) :
    reasoningText (streamParts chunks) = choice.message.reasoning.text ∧
      reasoningSignature (streamParts chunks) = choice.message.reasoning.signature := by
  have hfragments := h.no_fragments hnil
  constructor
  · rw [← h.reasoningText]
    exact joined_reasoning (fun p hp => (empty_of_isEmpty hp).1) (fun t => rfl) (fun tc => rfl) hfragments
  · rw [← h.reasoningSignature]
    exact joined_reasoning (fun p hp => (empty_of_isEmpty hp).2.1) (fun t => rfl) (fun tc => rfl) hfragments

theorem streamedThinking_eq_block_iff (rc : ReasoningContentBlock) :
    (streamedThinking ((rc.reasoningText.map (·.text)).getD "")
        ((rc.reasoningText.map (·.signature)).getD "") : List (ContentBlock ι)) =
      reasoningBlockContent rc ↔
      rc.redactedContent = "" ∧ rc.reasoningText ≠ some ⟨"", ""⟩ := by
  by_cases hredacted : rc.redactedContent = ""
  · cases htext : rc.reasoningText with
    | none => simp [htext, hredacted, streamedThinking_eq_nil_iff]
    | some r =>
      have hmk : r = ⟨"", ""⟩ ↔ r.text = "" ∧ r.signature = "" := by
        cases r
        simp
      simp [htext, hredacted, streamedThinking_eq_singleton_iff, hmk]
  · simp only [hredacted, false_and, iff_false]
    intro heq
    have hmem : (.redactedThinking rc.redactedContent : ContentBlock ι) ∈ reasoningBlockContent rc := by
      simp [hredacted]
    rw [← heq] at hmem
    exact redacted_not_mem_streamedThinking _ _ _ hmem

theorem reasoningOnce_iff_of_blocks {msg : Message} (hne : msg.thinkingBlocks ≠ []) (ps : List Part) :
    (streamedThinking (reasoningText ps) (reasoningSignature ps) : List (ContentBlock ι)) =
      appendThinkingBlocks msg ↔ ReasoningOnce msg ps := by
  rw [appendThinkingBlocks, if_pos hne, ReasoningOnce, if_neg hne, filterMap_thinkingContent]
  have hknown : ∀ b ∈ msg.thinkingBlocks.filter (·.type.known), b.type.known = true :=
    fun b hb => (mem_filter.mp hb).2
  generalize msg.thinkingBlocks.filter (·.type.known) = kept at hknown
  match kept with
  | [] => exact streamedThinking_eq_nil_iff _ _
  | [b] =>
    have hb := hknown b mem_cons_self
    cases htype : b.type with
    | thinking =>
      have hcontent : ([b].filterMap thinkingContent : List (ContentBlock ι)) =
          [.thinking b.thinking b.signature] := by simp [thinkingContent, htype]
      rw [hcontent, streamedThinking_eq_singleton_iff]
      simp [OnceFromBlocks, htype]
    | redactedThinking =>
      have hcontent : ([b].filterMap thinkingContent : List (ContentBlock ι)) =
          [.redactedThinking b.data] := by simp [thinkingContent, htype]
      rw [hcontent]
      constructor
      · intro heq
        exact absurd (heq ▸ mem_singleton_self _) (redacted_not_mem_streamedThinking _ _ b.data)
      · rintro ⟨hthinking, -⟩
        rw [htype] at hthinking
        cases hthinking
    | other name =>
      rw [htype] at hb
      cases hb
  | b :: b' :: rest =>
    have hlength : ((b :: b' :: rest).filterMap thinkingContent : List (ContentBlock ι)).length =
        rest.length + 2 := length_filterMap_thinkingContent hknown
    refine ⟨fun heq => ?_, fun h => absurd h id⟩
    have hle : (streamedThinking (reasoningText ps) (reasoningSignature ps) :
        List (ContentBlock ι)).length ≤ 1 := length_streamedThinking_le _ _
    rw [heq] at hle
    omega

/-! ## The order of the content -/

theorem kind_finish (e : Entry) : (finish o e.content).kind = e.kind := by
  cases e with
  | thinking t g | text t | tool i id name json => rfl

theorem plainText_finish (e : Entry) : (finish o e.content).plainText = e.plainText := by
  cases e with
  | thinking t g | text t | tool i id name json => rfl

variable {b : ContentBlock ι}

theorem kind_of_mem_appendThinkingBlocks {msg : Message} (h : b ∈ appendThinkingBlocks msg) : b.kind = 0 := by
  unfold appendThinkingBlocks at h
  split at h
  · obtain ⟨tb, -, htb⟩ := mem_filterMap.mp h
    unfold thinkingContent at htb
    cases htype : tb.type with
    | thinking | redactedThinking =>
      simp only [htype, Option.some.injEq] at htb
      rw [← htb]
      rfl
    | other name => simp [htype] at htb
  · cases hrc : msg.reasoningContent with
    | none => simp [hrc] at h
    | some rc =>
      cases rc with
      | text t =>
        simp only [hrc] at h
        rw [eq_of_mem_unless h]
        rfl
      | block rc =>
        cases rc with
        | none => simp [hrc] at h
        | some rc =>
          simp only [hrc, reasoningBlockContent, mem_append] at h
          rcases h with h | h
          · obtain ⟨r, -, rfl⟩ := Option.map_eq_some_iff.mp (Option.mem_toList.mp h)
            rfl
          · rw [eq_of_mem_unless h]
            rfl

theorem kind_of_mem_textContent {t : String} (h : b ∈ textContent t) : b.kind = 1 := by
  rw [eq_of_mem_unless h]
  rfl

theorem kind_of_mem_map_toolCallContent {o : Objects ι} {calls : List ToolCall}
    (h : b ∈ calls.map (toolCallContent o)) : b.kind = 2 := by
  obtain ⟨tc, -, rfl⟩ := mem_map.mp h
  rfl

variable {l : List (ContentBlock ι)}

theorem filter_kind_self {k : Nat} (h : ∀ b ∈ l, b.kind = k) : l.filter (·.kind == k) = l :=
  filter_eq_self.mpr fun b hb => by simp [h b hb]

theorem filter_kind_nil {k k' : Nat} (h : ∀ b ∈ l, b.kind = k) (hk : k ≠ k') : l.filter (·.kind == k') = [] :=
  filter_eq_nil_iff.mpr fun b hb => by simp [h b hb, hk]

theorem append_eq_append_iff_of_kind {as as' ts cs cs' : List (ContentBlock ι)}
    (has : ∀ b ∈ as, b.kind = 0) (has' : ∀ b ∈ as', b.kind = 0) (hts : ∀ b ∈ ts, b.kind = 1)
    (hcs : ∀ b ∈ cs, b.kind = 2) (hcs' : ∀ b ∈ cs', b.kind = 2) :
    as ++ ts ++ cs = as' ++ ts ++ cs' ↔ as = as' ∧ cs = cs' := by
  constructor
  · intro heq
    have hthinking := congrArg (List.filter (·.kind == 0)) heq
    have hcalls := congrArg (List.filter (·.kind == 2)) heq
    simp only [filter_append, filter_kind_self has, filter_kind_self has',
      filter_kind_nil hts Nat.one_ne_zero, filter_kind_nil hcs (show 2 ≠ 0 by decide),
      filter_kind_nil hcs' (show 2 ≠ 0 by decide), append_nil] at hthinking
    simp only [filter_append, filter_kind_self hcs, filter_kind_self hcs',
      filter_kind_nil hts (show 1 ≠ 2 by decide), filter_kind_nil has (show 0 ≠ 2 by decide),
      filter_kind_nil has' (show 0 ≠ 2 by decide), nil_append] at hcalls
    exact ⟨hthinking, hcalls⟩
  · rintro ⟨rfl, rfl⟩
    rfl

theorem plainText_of_kind (h : ∀ b ∈ l, b.kind ≠ 1) : String.join (l.map ContentBlock.plainText) = "" := by
  have hmap : l.map ContentBlock.plainText = l.map fun _ => "" := by
    refine map_congr_left fun b hb => ?_
    have hkind := h b hb
    cases b with
    | thinking t g | redactedThinking data | toolUse id name input => rfl
    | text t => exact absurd rfl hkind
  rw [hmap, join_map_empty]

theorem plainText_messageContent (msg : Message) :
    String.join ((messageContent o msg).map ContentBlock.plainText) = msg.content.getD "" := by
  have hthinking : String.join ((appendThinkingBlocks msg : List (ContentBlock ι)).map
      ContentBlock.plainText) = "" :=
    plainText_of_kind fun b hb => by simp [kind_of_mem_appendThinkingBlocks hb]
  have hcalls : String.join ((msg.toolCalls.map (toolCallContent o)).map ContentBlock.plainText) = "" :=
    plainText_of_kind fun b hb => by simp [kind_of_mem_map_toolCallContent hb]
  unfold messageContent
  rw [map_append, map_append, String.join_append, String.join_append, hthinking, hcalls]
  unfold textContent
  by_cases ht : msg.content.getD "" = ""
  · simp [ht]
  · simp [ht, ContentBlock.plainText]

variable (h : Spells chunks choice)

include h

theorem plainText_of_spells : plainText (streamParts chunks) = choice.message.content.getD "" := by
  rw [← h.text]
  refine (joined_streamParts (fun p hp => (empty_of_isEmpty hp).2.2) chunks).trans ?_
  exact congrArg String.join (map_congr_left fun d _ => plainText_allParts d)

theorem staged_of_agree
    (hagree : ((streamBlocks chunks).map fun e => finish o e.content) = messageContent o choice.message) :
    Staged (streamParts chunks) := by
  have hsorted : Sorted (streamBlocks chunks) := by
    have hkinds := congrArg (List.map ContentBlock.kind) hagree
    simp only [map_map, Function.comp_def, kind_finish] at hkinds
    unfold Sorted
    rw [hkinds]
    unfold messageContent
    rw [pairwise_map, pairwise_append, pairwise_append]
    have hsame : ∀ {l : List (ContentBlock ι)} {k : Nat}, (∀ b ∈ l, b.kind = k) →
        l.Pairwise fun a b => a.kind ≤ b.kind := fun h =>
      pairwise_of_forall_mem_list fun a ha b hb => Nat.le_of_eq ((h a ha).trans (h b hb).symm)
    refine ⟨⟨hsame fun b => kind_of_mem_appendThinkingBlocks,
      hsame fun b => kind_of_mem_textContent, ?_⟩,
      hsame fun b => kind_of_mem_map_toolCallContent, ?_⟩
    · intro a ha b hb
      rw [kind_of_mem_appendThinkingBlocks ha]
      exact Nat.zero_le _
    · intro a ha b hb
      rw [kind_of_mem_map_toolCallContent hb]
      rcases mem_append.mp ha with ha | ha
      · rw [kind_of_mem_appendThinkingBlocks ha]
        exact Nat.zero_le 2
      · rw [kind_of_mem_textContent ha]
        exact Nat.le_succ 1
  have htext : blocksText (streamBlocks chunks) = plainText (streamParts chunks) := by
    have htexts := congrArg (fun l => String.join (l.map ContentBlock.plainText)) hagree
    simp only [map_map, Function.comp_def, plainText_finish, plainText_messageContent] at htexts
    exact htexts.trans (plainText_of_spells h).symm
  refine (staged_of_sorted (fun p => isEmpty_of_mem_streamParts) hsorted ?_).1
  change _ ≤ (blocksText (streamBlocks chunks)).length
  rw [htext]
  simp [blocksText]

theorem received_of_staged (hstaged : Staged (streamParts chunks)) :
    ((streamBlocks chunks).map fun e => finish o e.content) =
      streamedThinking (reasoningText (streamParts chunks))
          (reasoningSignature (streamParts chunks)) ++
        textContent (choice.message.content.getD "") ++
        (streamCalls chunks).map fun c => toolCallContent o c.call := by
  unfold streamBlocks
  rw [blocks_of_staged hstaged fun p => isEmpty_of_mem_streamParts, calls_streamParts,
    plainText_of_spells h, map_append, map_append, map_map]
  unfold thinkingEntries textEntries streamedThinking textContent
  congr 1
  congr 1
  · split
    · rfl
    · rfl
  · split
    · rfl
    · rfl

end

/-- The stream and the response give the client the same message exactly when the deltas are
staged, the reasoning comes once, and the calls start in the order of the response. -/
theorem received_agrees_iff {ι : Type} (o : Objects ι) (decode : Bytes → Option Chunk)
    (requestModel model : String) (pieces : List Bytes) (last : Bytes) (resp : Response)
    {choice : ResponseChoice} {rest : List ResponseChoice} (hresp : resp.choices = choice :: rest)
    (h : Spells (chunksOf decode (pieces.flatten ++ last)) choice) :
    (received o (translateBytes decode requestModel pieces last) =
        (openAIResponseToAnthropic o resp model).content ∧
      stopReasonOf (translateBytes decode requestModel pieces last) =
        (openAIResponseToAnthropic o resp model).stopReason) ↔
    Staged (streamParts (chunksOf decode (pieces.flatten ++ last))) ∧
      ReasoningOnce choice.message (streamParts (chunksOf decode (pieces.flatten ++ last))) ∧
      (streamCalls (chunksOf decode (pieces.flatten ++ last))).map
          (fun c => toolCallContent o c.call) =
        choice.message.toolCalls.map (toolCallContent o) := by
  rw [translateBytes_eq]
  generalize chunksOf decode (pieces.flatten ++ last) = chunks at h ⊢
  have hcontent : (openAIResponseToAnthropic o resp model).content =
      messageContent o choice.message := by
    simp [hresp]
  have hreason : stopReasonOf (translate requestModel chunks) =
      (openAIResponseToAnthropic o resp model).stopReason := by
    rw [stopReasonOf_translate requestModel h.usageLast, ← h.finishReason]
    simp [hresp]
  rw [hcontent, received_translate o requestModel h.usageLast, and_iff_left hreason]
  have hparts (hstaged : Staged (streamParts chunks)) :
      ((streamBlocks chunks).map fun e => finish o e.content) = messageContent o choice.message ↔
        ReasoningOnce choice.message (streamParts chunks) ∧
          (streamCalls chunks).map (fun c => toolCallContent o c.call) =
            choice.message.toolCalls.map (toolCallContent o) := by
    rw [received_of_staged o h hstaged, messageContent, append_eq_append_iff_of_kind]
    · refine and_congr_left fun _ => ?_
      by_cases hnil : choice.message.thinkingBlocks = []
      · obtain ⟨htext, hsignature⟩ := reasoning_of_spells h hnil
        rw [htext, hsignature]
        rw [appendThinkingBlocks, if_neg (not_not_intro hnil), ReasoningOnce, if_pos hnil,
          Message.reasoning]
        cases choice.message.reasoningContent with
        | none => simp [streamedThinking_eq_nil_iff]
        | some rc =>
          cases rc with
          | text t =>
            by_cases ht : t = ""
            · simp [ht, streamedThinking_eq_nil_iff]
            · simp [ht, streamedThinking_eq_singleton_iff]
          | block rc =>
            cases rc with
            | none => simp [streamedThinking_eq_nil_iff]
            | some rc => exact streamedThinking_eq_block_iff rc
      · exact reasoningOnce_iff_of_blocks hnil _
    · intro b hb
      rw [eq_of_mem_unless hb]
      rfl
    · exact fun b => kind_of_mem_appendThinkingBlocks
    · exact fun b => kind_of_mem_textContent
    · intro b hb
      obtain ⟨c, -, rfl⟩ := mem_map.mp hb
      rfl
    · exact fun b => kind_of_mem_map_toolCallContent
  constructor
  · intro hagree
    have hstaged := staged_of_agree o h hagree
    exact ⟨hstaged, (hparts hstaged).mp hagree⟩
  · rintro ⟨hstaged, hrest⟩
    exact (hparts hstaged).mpr hrest

/-! ## Messages of a few deltas -/

/-- JSON objects with one number, as far as the documents below have them. -/
def numberObjects : Objects (List (String × Int)) where
  decode s := if s = "\x7b\"n\":1\x7d" then some [("n", 1)] else none
  empty := []

def think : String × ChoiceDelta :=
  ("\x7b\"choices\":[\x7b\"delta\":\x7b\"reasoning_content\":\"think\"\x7d\x7d]\x7d",
    { content := none, reasoningContent := some ⟨"think", "", ""⟩, thinkingBlocks := [],
      toolCalls := [] })

/-- The same text in both forms. -/
def thinkTwice : String × ChoiceDelta :=
  ("\x7b\"choices\":[\x7b\"delta\":\x7b\"reasoning_content\":\"think\",\"thinking_blocks\":[" ++
      "\x7b\"type\":\"thinking\",\"thinking\":\"think\",\"signature\":\"s\"\x7d]\x7d\x7d]\x7d",
    { content := none, reasoningContent := some ⟨"think", "", ""⟩,
      thinkingBlocks := [⟨.thinking, "think", "s", ""⟩], toolCalls := [] })

def redacted : String × ChoiceDelta :=
  ("\x7b\"choices\":[\x7b\"delta\":\x7b\"thinking_blocks\":[" ++
      "\x7b\"type\":\"redacted_thinking\",\"data\":\"d\"\x7d]\x7d\x7d]\x7d",
    { content := none, reasoningContent := none,
      thinkingBlocks := [⟨.redactedThinking, "", "", "d"⟩], toolCalls := [] })

def oneChoice (message : Message) : Response :=
  { id := "c", choices := [⟨message, none⟩], usage := ⟨1, 1⟩ }

def thoughtful : Message :=
  { content := some "hello", toolCalls := [⟨some "t", "f", "1"⟩],
    reasoningContent := some (.text "think"), thinkingBlocks := [] }

/-- Reasoning, then a text, then a call, each in a piece of its own. -/
theorem staged_stream_agrees :
    Spells (chunksOf (decodeListed [think, hello, call 0])
      ([eventOf think.1, eventOf hello.1].flatten ++ eventOf (call 0).1)) ⟨thoughtful, none⟩ ∧
    received numberObjects (translateBytes (decodeListed [think, hello, call 0]) "m"
        [eventOf think.1, eventOf hello.1] (eventOf (call 0).1)) =
      (openAIResponseToAnthropic numberObjects (oneChoice thoughtful) "m").content ∧
    stopReasonOf (translateBytes (decodeListed [think, hello, call 0]) "m"
        [eventOf think.1, eventOf hello.1] (eventOf (call 0).1)) =
      (openAIResponseToAnthropic numberObjects (oneChoice thoughtful) "m").stopReason := by
  have hchunks : chunksOf (decodeListed [think, hello, call 0])
      ([eventOf think.1, eventOf hello.1].flatten ++ eventOf (call 0).1) =
      [chunkWith think.2, chunkWith hello.2, chunkWith (call 0).2] := by
    decide +kernel
  have h : Spells (chunksOf (decodeListed [think, hello, call 0])
      ([eventOf think.1, eventOf hello.1].flatten ++ eventOf (call 0).1)) ⟨thoughtful, none⟩ := by
    rw [hchunks]
    exact
      { text := by decide
        reasoningText := by decide
        reasoningSignature := by decide
        redacted := by decide
        thinking := .inl ⟨[], by decide, .nil⟩
        calls := ⟨[⟨0, some "t", "f", "1"⟩], by decide, by decide, rfl⟩
        finishReason := rfl
        usageLast := by decide }
  refine ⟨h, (received_agrees_iff numberObjects _ "m" "m" _ _ (oneChoice thoughtful) rfl h).mpr ?_⟩
  rw [hchunks]
  exact ⟨by decide, trivial, by decide⟩

def twofold : Message :=
  { content := none, toolCalls := [], reasoningContent := some (.text "think"),
    thinkingBlocks := [⟨.thinking, "think", "s", ""⟩] }

def withheld : Message :=
  { content := none, toolCalls := [], reasoningContent := none,
    thinkingBlocks := [⟨.redactedThinking, "", "", "d"⟩] }

/-- Reasoning in both forms comes twice through the stream, and redacted thinking not at all. -/
theorem twofold_and_redacted_disagree :
    (Spells (chunksOf (decodeListed [thinkTwice]) (eventOf thinkTwice.1)) ⟨twofold, none⟩ ∧
      received numberObjects (translateBytes (decodeListed [thinkTwice]) "m" []
        (eventOf thinkTwice.1)) = [.thinking "thinkthink" "s"] ∧
      (openAIResponseToAnthropic numberObjects (oneChoice twofold) "m").content =
        [.thinking "think" "s"]) ∧
    Spells (chunksOf (decodeListed [redacted]) (eventOf redacted.1)) ⟨withheld, none⟩ ∧
      received numberObjects (translateBytes (decodeListed [redacted]) "m" []
        (eventOf redacted.1)) = [] ∧
      (openAIResponseToAnthropic numberObjects (oneChoice withheld) "m").content =
        [.redactedThinking "d"] := by
  have htwice : chunksOf (decodeListed [thinkTwice]) (eventOf thinkTwice.1) =
      [chunkWith thinkTwice.2] := by
    decide +kernel
  have hredacted : chunksOf (decodeListed [redacted]) (eventOf redacted.1) =
      [chunkWith redacted.2] := by
    decide +kernel
  rw [translateBytes_eq, translateBytes_eq, flatten_nil, nil_append, nil_append, htwice, hredacted]
  refine ⟨⟨?_, by decide, by decide⟩, ?_, by decide, by decide⟩
  · exact
      { text := by decide
        reasoningText := by decide
        reasoningSignature := by decide
        redacted := by decide
        thinking := .inl ⟨[[⟨.thinking, "think", "s", ""⟩]], by decide,
          .cons ⟨by decide, by decide, by decide, by decide, by decide⟩ .nil⟩
        calls := ⟨[], by decide, by decide, rfl⟩
        finishReason := rfl
        usageLast := by decide }
  · exact
      { text := by decide
        reasoningText := by decide
        reasoningSignature := by decide
        redacted := by decide
        thinking := .inl ⟨[[⟨.redactedThinking, "", "", "d"⟩]], by decide,
          .cons ⟨by decide, by decide, by decide, by decide, by decide⟩ .nil⟩
        calls := ⟨[], by decide, by decide, rfl⟩
        finishReason := rfl
        usageLast := by decide }

end AgentRouter.OpenAIStream
