import AgentRouter.Lib.Grouping
import AgentRouter.Lib.Text
import AgentRouter.Schema.ChatRequest
import AgentRouter.Schema.Messages

/-!
# AnthropicToOpenAI: Anthropic messages for a backend with the OpenAI API

One message becomes a group of messages: a user message becomes a tool message for each result of a
tool and a message for its own text, and the uses of tools in an assistant message become its tool
calls.  Texts may be put together but are not changed, so that what a group shows can be compared
with what the message had:

    every text, tool use and tool result is shown once, in the order of the conversation
      ↔  user messages use no tools, assistant messages have no tool results,
         and messages of other roles have nothing at all   (messages_shown_iff)
-/

namespace AgentRouter.AnthropicToOpenAI

open OpenAI Anthropic Text List

/-! ## Texts -/

section

variable {ι : Type}

@[simp] def ContentBlock.text? : ContentBlock ι → Option String
  | .text t => some t
  | _ => none

def ToolResultContentItem.text? : ToolResultContentItem → Option String
  | .text t => some t
  | _ => none

/-- The array is empty if the content is a text. -/
def anthropicContentToText : MessageContent ι → String
  | .string s => s
  | .array blocks => String.join (blocks.filterMap ContentBlock.text?)

def anthropicSystemPromptToText : SystemPrompt → String
  | .string s => s
  | .array texts => String.join texts

def toolResultToText (tr : ToolResultBlock) : String :=
  match tr.content with
  | none => ""
  | some (.string s) => s
  | some (.array items) => String.join (items.filterMap ToolResultContentItem.text?)

def anthropicImageSourceToURL : ImageSource → String
  | .base64 mediaType data => "data:" ++ mediaType ++ ";base64," ++ data
  | .url url => url
  | .unknown => ""

end

/-! ## Assistant messages -/

section

variable {ι : Type} (marshal : ι → Option String)

/-- The variables of the loop of `appendAnthropicAssistantMessage`. -/
structure AssistantLoop where
  toolCalls : List ToolCall
  contentParts : List AssistantPart
  hasThinking : Bool

/-- The arguments are the JSON text of the input. -/
def toolCall (block : ToolUseBlock ι) : ToolCall :=
  ⟨some block.id, block.name, (marshal block.input).getD "\x7b\x7d", "function", none⟩

def assistantBlock (s : AssistantLoop) : ContentBlock ι → AssistantLoop
  | .thinking thinking signature =>
    { s with
      hasThinking := true
      contentParts := s.contentParts ++
        [⟨"thinking", none, some thinking, some signature, none, none⟩] }
  | .redactedThinking data =>
    { s with
      hasThinking := true
      contentParts := s.contentParts ++
        [⟨"redacted_thinking", none, none, none, some (.string data), none⟩] }
  | .text text =>
    { s with contentParts := s.contentParts ++ [⟨"text", none, some text, none, none, none⟩] }
  | .toolUse block => { s with toolCalls := s.toolCalls ++ [toolCall marshal block] }
  | _ => s

@[simp] def appendAnthropicAssistantMessage (messages : List Message) (msg : MessageParam ι) :
    List Message :=
  let s := msg.content.blocks.foldl (assistantBlock marshal) ⟨[], [], false⟩
  let text := anthropicContentToText msg.content
  let content : AssistantContent :=
    if s.hasThinking then .parts s.contentParts
    else if text ≠ "" then .string text
    else .absent
  messages ++ [.assistant ⟨"", content, "", "", s.toolCalls, []⟩]

/-! ## User messages -/

def toolMessage (tr : ToolResultBlock) : Message :=
  .tool ⟨.string (toolResultToText tr), tr.toolUseID, none⟩

def appendToolMessage (messages : List Message) : ContentBlock ι → List Message
  | .toolResult tr => messages ++ [toolMessage tr]
  | _ => messages

/-- The variables of the second loop of `appendAnthropicUserMessage`. -/
structure UserLoop where
  parts : List UserPart
  hasImages : Bool

def userBlock (s : UserLoop) : ContentBlock ι → UserLoop
  | .text text => { s with parts := s.parts ++ [.text ⟨text, "text", none⟩] }
  | .image source =>
    { parts := s.parts ++ [.imageURL ⟨anthropicImageSourceToURL source, "", none⟩]
      hasImages := true }
  | _ => s

def appendAnthropicUserMessage (messages : List Message) (msg : MessageParam ι) : List Message :=
  let messages := msg.content.blocks.foldl appendToolMessage messages
  let s := msg.content.blocks.foldl userBlock ⟨[], false⟩
  if s.hasImages then
    if 0 < s.parts.length then messages ++ [.user ⟨.parts s.parts, ""⟩] else messages
  else
    let text := anthropicContentToText msg.content
    if text ≠ "" then messages ++ [.user ⟨.string text, ""⟩] else messages

/-! ## Requests -/

def systemMessages : Option SystemPrompt → List Message
  | none => []
  | some system =>
    let systemText := anthropicSystemPromptToText system
    if systemText ≠ "" then [.system ⟨.string systemText, ""⟩] else []

@[simp] def appendAnthropicMessage (messages : List Message) (msg : MessageParam ι) : List Message :=
  match msg.role with
  | .user => appendAnthropicUserMessage messages msg
  | .assistant => appendAnthropicAssistantMessage marshal messages msg
  | _ => messages

def anthropicMessagesToOpenAI (body : MessagesRequest ι) : List Message :=
  body.messages.foldl (appendAnthropicMessage marshal) (systemMessages body.system)

end

/-! ## What is said

What the turns of a conversation hold, in their order: texts that are not empty, the uses of tools
and the results of tools. -/

section

variable {ι : Type}

def ContentBlock.toolUse? : ContentBlock ι → Option (ToolUseBlock ι)
  | .toolUse block => some block
  | _ => none

def ContentBlock.toolResult? : ContentBlock ι → Option ToolResultBlock
  | .toolResult block => some block
  | _ => none

def texts : MessageContent ι → List String
  | .string s => nonEmpty [s]
  | .array blocks => nonEmpty (blocks.filterMap ContentBlock.text?)

def toolUses (content : MessageContent ι) : List (ToolUseBlock ι) :=
  content.blocks.filterMap ContentBlock.toolUse?

def toolResults (content : MessageContent ι) : List ToolResultBlock :=
  content.blocks.filterMap ContentBlock.toolResult?

/-- The texts of a tool result. -/
def resultTexts (tr : ToolResultBlock) : List String :=
  match tr.content with
  | none => []
  | some (.string s) => nonEmpty [s]
  | some (.array items) => nonEmpty (items.filterMap ToolResultContentItem.text?)

def promptTexts : SystemPrompt → List String
  | .string s => nonEmpty [s]
  | .array texts => nonEmpty texts

/-- The system prompt comes before the messages. -/
inductive Turn (ι : Type) where
  | prompt (system : SystemPrompt)
  | message (msg : MessageParam ι)

def turns (body : MessagesRequest ι) : List (Turn ι) :=
  body.system.toList.map .prompt ++ body.messages.map .message

namespace Turn

def role : Turn ι → MessageRole
  | .prompt _ => .system
  | .message msg => msg.role

def texts : Turn ι → List String
  | .prompt system => promptTexts system
  | .message msg => AnthropicToOpenAI.texts msg.content

def toolUses : Turn ι → List (ToolUseBlock ι)
  | .prompt _ => []
  | .message msg => AnthropicToOpenAI.toolUses msg.content

def toolResults : Turn ι → List ToolResultBlock
  | .prompt _ => []
  | .message msg => AnthropicToOpenAI.toolResults msg.content

end Turn

end

/-! ## What is shown -/

def UserPart.text? : UserPart → Option String
  | .text p => some p.text
  | _ => none

def AssistantPart.text? (p : AssistantPart) : Option String := if p.type = "text" then p.text else none

def instructionTexts : Content → List String
  | .absent => []
  | .string s => [s]
  | .parts ps => ps.map (·.text)

/-- The texts of a message; the text of a tool message belongs to the result. -/
def shownTexts : Message → List String
  | .user m =>
    match m.content with
    | .absent => []
    | .string s => [s]
    | .parts ps => ps.filterMap UserPart.text?
  | .assistant m =>
    match m.content with
    | .absent => []
    | .string s => [s]
    | .parts ps => ps.filterMap AssistantPart.text?
    | .single p => (AssistantPart.text? p).toList
  | .system m => instructionTexts m.content
  | .developer m => instructionTexts m.content
  | .tool _ => []

def shownCalls : Message → List ToolCall
  | .assistant m => m.toolCalls
  | _ => []

def shownResults : Message → List ToolMessage
  | .tool m => [m]
  | _ => []

def isTool (m : Message) : Bool := !(shownResults m).isEmpty

def speaks (role : MessageRole) : Message → Bool
  | .user _ => role = .user
  | .assistant _ => role = .assistant
  | .system _ => role = .system
  | _ => false

/-- The text is made of the pieces. -/
def MadeOf (text : String) (pieces : List String) : Prop := text = String.join pieces

def IsCallOf {ι : Type} (marshal : ι → Option String) (use : ToolUseBlock ι) (call : ToolCall) :
    Prop :=
  call.id = some use.id ∧ call.name = use.name ∧ call.type = "function" ∧
    call.arguments = (marshal use.input).getD "\x7b\x7d"

def IsResultOf (result : ToolResultBlock) (m : ToolMessage) : Prop :=
  m.toolCallID = result.toolUseID ∧ m.content = .string (String.join (resultTexts result))

/-- The messages show these texts, uses and results, each of them once, and nothing else. -/
structure Shows {ι : Type} (marshal : ι → Option String) (texts : List String)
    (uses : List (ToolUseBlock ι)) (results : List ToolResultBlock) (group : List Message) : Prop where
  texts : Grouped MadeOf (group.flatMap shownTexts) texts
  uses : List.Forall₂ (IsCallOf marshal) uses (group.flatMap shownCalls)
  results : List.Forall₂ IsResultOf results (group.flatMap shownResults)

/-- The messages show all that is said in the turn. -/
structure Renders {ι : Type} (marshal : ι → Option String) (turn : Turn ι) (group : List Message) :
    Prop where
  shows : Shows marshal turn.texts turn.toolUses turn.toolResults group
  roles : ∀ m ∈ group, isTool m = true ∨ speaks turn.role m = true
  /-- the tool messages of a user message come directly before its own. -/
  toolsFirst : turn.role = .user → ∃ tools own, group = tools ++ own ∧
    (∀ m ∈ tools, isTool m = true) ∧ ∀ m ∈ own, isTool m = false

/-! ## The groups -/

section

variable {ι : Type} (marshal : ι → Option String)

/-- What becomes of one turn. -/
def group : Turn ι → List Message
  | .prompt system => systemMessages (some system)
  | .message msg => appendAnthropicMessage marshal [] msg

/-- The message for the text of a user message itself. -/
def ownMessages (msg : MessageParam ι) : List Message :=
  let s := msg.content.blocks.foldl userBlock ⟨[], false⟩
  if s.hasImages then
    if 0 < s.parts.length then [.user ⟨.parts s.parts, ""⟩] else []
  else
    let text := anthropicContentToText msg.content
    if text ≠ "" then [.user ⟨.string text, ""⟩] else []

variable (blocks : List (ContentBlock ι)) (messages : List Message)

theorem foldl_appendToolMessage :
    blocks.foldl appendToolMessage messages =
      messages ++ (blocks.filterMap ContentBlock.toolResult?).map toolMessage := by
  induction blocks generalizing messages with
  | nil => simp
  | cons block blocks ih =>
    rw [foldl_cons, ih]
    cases block <;> simp [appendToolMessage, ContentBlock.toolResult?, filterMap_cons]

theorem appendAnthropicUserMessage_eq (msg : MessageParam ι) :
    appendAnthropicUserMessage messages msg =
      messages ++ ((toolResults msg.content).map toolMessage ++ ownMessages msg) := by
  rw [← append_assoc, toolResults, ← foldl_appendToolMessage]
  simp only [appendAnthropicUserMessage, ownMessages]
  split
  · split
    · rfl
    · exact (append_nil _).symm
  · split
    · rfl
    · exact (append_nil _).symm

theorem appendAnthropicMessage_eq (msg : MessageParam ι) :
    appendAnthropicMessage marshal messages msg = messages ++ group marshal (.message msg) := by
  cases hrole : msg.role with
  | user =>
    simp only [appendAnthropicMessage, group, hrole]
    rw [appendAnthropicUserMessage_eq, appendAnthropicUserMessage_eq, nil_append]
  | assistant | system | other name => simp [group, hrole]

theorem anthropicMessagesToOpenAI_eq (body : MessagesRequest ι) :
    anthropicMessagesToOpenAI marshal body = (turns body).flatMap (group marshal) := by
  have hmessages (messages : List Message) : body.messages.foldl (appendAnthropicMessage marshal) messages =
        messages ++ (body.messages.map Turn.message).flatMap (group marshal) := by
    rw [foldl_ext _ _ _ fun ms msg _ => appendAnthropicMessage_eq marshal ms msg,
      foldl_append_eq_append, flatMap_def, map_map]
    rfl
  rw [anthropicMessagesToOpenAI, hmessages, turns]
  cases body.system with
  | none => rfl
  | some system => simp [group]

/-! ## Texts in pieces -/

theorem grouped_each (ts : List String) : Grouped MadeOf ts (nonEmpty ts) := by
  induction ts with
  | nil => exact Grouped.nil
  | cons t ts ih =>
    by_cases ht : t = ""
    · rw [nonEmpty, filter_cons_of_neg (by simpa using ht)]
      exact Grouped.cons (g := []) ht ih
    · rw [nonEmpty, filter_cons_of_pos (by simpa using ht)]
      exact Grouped.cons (g := [t]) (by simp [MadeOf]) ih

/-! ## What each group shows -/

variable {marshal}

omit ι in
theorem grouped_optional (ts : List String) :
    Grouped MadeOf (if String.join ts ≠ "" then [String.join ts] else []) (nonEmpty ts) := by
  by_cases ht : String.join ts = ""
  · have hnil : nonEmpty ts = [] := by
      rw [← join_nonEmpty] at ht
      exact (join_eq_empty_iff fun t h => by simpa using of_mem_filter h).mp ht
    rw [if_neg (not_not_intro ht), hnil]
    exact Grouped.nil
  · rw [if_pos ht]
    exact Grouped.singleton (join_nonEmpty ts).symm

omit ι in
theorem flatMap_optional {c : Prop} [Decidable c] {m : Message} {text : String} (hm : shownTexts m = [text]) :
    (if c then [m] else []).flatMap shownTexts = if c then [text] else [] := by
  split
  · rw [flatMap_singleton, hm]
  · rfl

theorem Shows.of_texts {ts : List String} {g : List Message}
    (htexts : Grouped MadeOf (g.flatMap shownTexts) ts) (hcalls : g.flatMap shownCalls = [])
    (hresults : g.flatMap shownResults = []) : Shows marshal ts [] [] g where
  texts := htexts
  uses := by
    rw [hcalls]
    exact .nil
  results := by
    rw [hresults]
    exact .nil

theorem shows_systemMessages (system : SystemPrompt) :
    Shows marshal (promptTexts system) [] [] (systemMessages (some system)) := by
  obtain ⟨ts, htext, hts⟩ : ∃ ts, anthropicSystemPromptToText system = String.join ts ∧
      promptTexts system = nonEmpty ts := by
    cases system with
    | string s => exact ⟨[s], by simp [anthropicSystemPromptToText], rfl⟩
    | array ts => exact ⟨ts, rfl, rfl⟩
  simp only [systemMessages, htext, hts]
  refine Shows.of_texts ?_ ?_ ?_
  · rw [flatMap_optional rfl]
    exact grouped_optional ts
  · split <;> rfl
  · split <;> rfl

theorem anthropicContentToText_eq (content : MessageContent ι) :
    ∃ ts, anthropicContentToText content = String.join ts ∧ texts content = nonEmpty ts ∧
      (content.blocks ≠ [] → ts = content.blocks.filterMap ContentBlock.text?) := by
  cases content with
  | string s => exact ⟨[s], by simp [anthropicContentToText], rfl, fun h => absurd rfl h⟩
  | array blocks => exact ⟨_, rfl, rfl, fun _ => rfl⟩

/-! ### User messages -/

theorem texts_foldl_userBlock (s : UserLoop) :
    (blocks.foldl userBlock s).parts.filterMap UserPart.text? =
      s.parts.filterMap UserPart.text? ++ blocks.filterMap ContentBlock.text? := by
  induction blocks generalizing s with
  | nil => simp
  | cons block blocks ih =>
    rw [foldl_cons, ih]
    cases block <;> simp [userBlock, UserPart.text?, filterMap_cons]

variable {msg : MessageParam ι}

theorem mem_ownMessages {m : Message} (h : m ∈ ownMessages msg) : ∃ um, m = .user um := by
  simp only [ownMessages] at h
  split at h
  · split at h
    · exact ⟨_, mem_singleton.mp h⟩
    · cases h
  · split at h
    · exact ⟨_, mem_singleton.mp h⟩
    · cases h

theorem join_resultTexts (tr : ToolResultBlock) : toolResultToText tr = String.join (resultTexts tr) := by
  unfold toolResultToText resultTexts
  split
  · rfl
  · rw [join_nonEmpty]
    simp
  · rw [join_nonEmpty]

variable (marshal) in
theorem shows_user (msg : MessageParam ι) :
    Shows marshal (texts msg.content) [] (toolResults msg.content)
      ((toolResults msg.content).map toolMessage ++ ownMessages msg) where
  texts := by
    have htools : ((toolResults msg.content).map toolMessage).flatMap shownTexts = [] := by
      simp [toolMessage, shownTexts]
    rw [flatMap_append, htools]
    obtain ⟨ts, htext, hts, hblocks⟩ := anthropicContentToText_eq msg.content
    simp only [ownMessages, htext, hts]
    split
    · next himages =>
      have hparts := texts_foldl_userBlock msg.content.blocks ⟨[], false⟩
      have hne : msg.content.blocks ≠ [] := by
        intro hnil
        rw [hnil] at himages
        cases himages
      rw [filterMap_nil, nil_append, ← hblocks hne] at hparts
      split
      · rw [flatMap_singleton, ← hparts]
        exact grouped_each _
      · next hempty =>
        rw [eq_nil_of_length_eq_zero (Nat.eq_zero_of_not_pos hempty)] at hparts
        rw [← hparts]
        exact Grouped.nil
    · rw [flatMap_optional rfl]
      exact grouped_optional ts
  uses := by
    have hnil : ((toolResults msg.content).map toolMessage ++ ownMessages msg).flatMap shownCalls = [] := by
      rw [flatMap_eq_nil_iff]
      intro m hm
      rcases mem_append.mp hm with hm | hm
      · obtain ⟨tr, -, rfl⟩ := mem_map.mp hm
        rfl
      · obtain ⟨um, rfl⟩ := mem_ownMessages hm
        rfl
    rw [hnil]
    exact .nil
  results := by
    have hown : (ownMessages msg).flatMap shownResults = [] := by
      rw [flatMap_eq_nil_iff]
      intro m hm
      obtain ⟨um, rfl⟩ := mem_ownMessages hm
      rfl
    rw [flatMap_append, hown]
    generalize toolResults msg.content = results
    induction results with
    | nil => exact .nil
    | cons tr results ih =>
      exact .cons ⟨rfl, congrArg Content.string (join_resultTexts tr)⟩ ih

/-! ### Assistant messages -/

variable (marshal) in
theorem foldl_assistantBlock (s : AssistantLoop) :
    (blocks.foldl (assistantBlock marshal) s).toolCalls =
        s.toolCalls ++ (blocks.filterMap ContentBlock.toolUse?).map (toolCall marshal) ∧
      (blocks.foldl (assistantBlock marshal) s).contentParts.filterMap AssistantPart.text? =
        s.contentParts.filterMap AssistantPart.text? ++ blocks.filterMap ContentBlock.text? := by
  induction blocks generalizing s with
  | nil => simp
  | cons block blocks ih =>
    rw [foldl_cons, (ih _).1, (ih _).2]
    cases block <;>
      simp [assistantBlock, ContentBlock.toolUse?, AssistantPart.text?, filterMap_cons]

omit ι in
theorem shownTexts_optional (text : String) (calls : List ToolCall) :
    shownTexts (.assistant ⟨"", if text ≠ "" then .string text else .absent, "", "", calls, []⟩) =
      if text ≠ "" then [text] else [] := by
  by_cases ht : text = ""
  · simp [shownTexts, ht]
  · simp [shownTexts, ht]

variable (marshal) in
theorem shows_assistant (msg : MessageParam ι) :
    Shows marshal (texts msg.content) (toolUses msg.content) []
      (appendAnthropicAssistantMessage marshal [] msg) where
  texts := by
    obtain ⟨ts, htext, hts, hblocks⟩ := anthropicContentToText_eq msg.content
    simp only [appendAnthropicAssistantMessage, htext, hts, nil_append, flatMap_singleton]
    split
    · next hthinking =>
      have hparts := (foldl_assistantBlock marshal msg.content.blocks ⟨[], [], false⟩).2
      have hne : msg.content.blocks ≠ [] := by
        intro hnil
        rw [hnil] at hthinking
        cases hthinking
      rw [filterMap_nil, nil_append, ← hblocks hne] at hparts
      rw [← hparts]
      exact grouped_each _
    · rw [shownTexts_optional]
      exact grouped_optional ts
  uses := by
    have hcalls : (appendAnthropicAssistantMessage marshal [] msg).flatMap shownCalls =
        (toolUses msg.content).map (toolCall marshal) := by
      have hloop := (foldl_assistantBlock marshal msg.content.blocks ⟨[], [], false⟩).1
      simpa [shownCalls, toolUses] using hloop
    rw [hcalls, forall₂_map_right_iff, forall₂_same]
    intro block _
    exact ⟨rfl, rfl, rfl, rfl⟩
  results := .nil

/-! ## Weights -/

def weight (m : Message) : Nat :=
  ((shownTexts m).map String.length).sum + (shownCalls m).length + (shownResults m).length

def Turn.weight (turn : Turn ι) : Nat :=
  (turn.texts.map String.length).sum + turn.toolUses.length + turn.toolResults.length

omit ι in
theorem sum_weight (g : List Message) :
    (g.map weight).sum = ((g.flatMap shownTexts).map String.length).sum +
      (g.flatMap shownCalls).length + (g.flatMap shownResults).length := by
  induction g with
  | nil => rfl
  | cons m g ih =>
    simp only [map_cons, sum_cons, ih, flatMap_cons, map_append, sum_append, length_append, weight]
    omega

theorem Shows.sum_weight {ts : List String} {uses : List (ToolUseBlock ι)}
    {results : List ToolResultBlock} {g : List Message} (h : Shows marshal ts uses results g) :
    (g.map weight).sum = (ts.map String.length).sum + uses.length + results.length := by
  have hpieces : ∀ text pieces, MadeOf text pieces → (pieces.map String.length).sum = text.length := by
    intro text pieces hmade
    rw [hmade, String.length_join]
  rw [AnthropicToOpenAI.sum_weight, h.texts.sum_eq hpieces, h.uses.length_eq, h.results.length_eq]

/-! ## Turns that are rendered -/

theorem renders_prompt (system : SystemPrompt) :
    Renders marshal (.prompt system) (group marshal (.prompt system)) where
  shows := shows_systemMessages system
  roles := by
    intro m hm
    simp only [group, systemMessages] at hm
    split at hm
    · rw [mem_singleton.mp hm]
      exact .inr rfl
    · cases hm
  toolsFirst := fun h => by cases h

theorem group_user (hrole : msg.role = .user) :
    group marshal (.message msg) = (toolResults msg.content).map toolMessage ++ ownMessages msg := by
  simp only [group, appendAnthropicMessage, hrole]
  rw [appendAnthropicUserMessage_eq, nil_append]

theorem renders_user (hrole : msg.role = .user) (huses : toolUses msg.content = []) :
    Renders marshal (.message msg) (group marshal (.message msg)) := by
  have htools : ∀ m ∈ (toolResults msg.content).map toolMessage, isTool m = true := by
    exact forall_mem_map.mpr fun _ _ => rfl
  rw [group_user hrole]
  refine ⟨?_, ?_, fun _ => ⟨_, _, rfl, htools, ?_⟩⟩
  · have h := shows_user marshal msg
    rwa [← huses] at h
  · refine forall_mem_append.mpr ⟨fun m hm => .inl (htools m hm), fun m hm => ?_⟩
    · obtain ⟨um, rfl⟩ := mem_ownMessages hm
      exact .inr (by simp [Turn.role, hrole, speaks])
  · intro m hm
    obtain ⟨um, rfl⟩ := mem_ownMessages hm
    rfl

theorem group_assistant (hrole : msg.role = .assistant) :
    group marshal (.message msg) = appendAnthropicAssistantMessage marshal [] msg := by
  simp only [group, appendAnthropicMessage, hrole]

theorem renders_assistant (hrole : msg.role = .assistant) (hresults : toolResults msg.content = []) :
    Renders marshal (.message msg) (group marshal (.message msg)) := by
  rw [group_assistant hrole]
  refine ⟨?_, ?_, ?_⟩
  · have h := shows_assistant marshal msg
    rwa [← hresults] at h
  · intro m hm
    rw [mem_singleton.mp hm]
    exact .inr (by simp [Turn.role, hrole, speaks])
  · intro huser
    have hne : MessageRole.assistant = .user := hrole.symm.trans huser
    cases hne

theorem group_other (huser : msg.role ≠ .user) (hassistant : msg.role ≠ .assistant) :
    group marshal (.message msg) = [] := by
  simp only [group, appendAnthropicMessage]

theorem renders_other (huser : msg.role ≠ .user) (hassistant : msg.role ≠ .assistant)
    (htexts : texts msg.content = []) (huses : toolUses msg.content = [])
    (hresults : toolResults msg.content = []) :
    Renders marshal (.message msg) (group marshal (.message msg)) := by
  rw [group_other huser hassistant]
  refine ⟨⟨?_, ?_, ?_⟩, by simp, fun h => absurd h huser⟩
  · rw [Turn.texts, htexts]
    exact Grouped.nil
  · rw [Turn.toolUses, huses]
    exact .nil
  · rw [Turn.toolResults, hresults]
    exact .nil

/-- The role has a place for all that is said. -/
def HasPlace (msg : MessageParam ι) : Prop :=
  match msg.role with
  | .user => toolUses msg.content = []
  | .assistant => toolResults msg.content = []
  | _ => texts msg.content = [] ∧ toolUses msg.content = [] ∧ toolResults msg.content = []

theorem renders_of_hasPlace (h : HasPlace msg) :
    Renders marshal (.message msg) (group marshal (.message msg)) := by
  unfold HasPlace at h
  split at h
  · next hrole => exact renders_user hrole h
  · next hrole => exact renders_assistant hrole h
  · next huser hassistant => exact renders_other huser hassistant h.1 h.2.1 h.2.2

theorem ne_of_mem_texts {content : MessageContent ι} : ∀ t ∈ texts content, t ≠ "" := by
  obtain ⟨ts, -, hts, -⟩ := anthropicContentToText_eq content
  rw [hts]
  intro t ht
  simpa using of_mem_filter ht

theorem hasPlace_of_weight
    (h : Turn.weight (.message msg) ≤ ((group marshal (.message msg)).map weight).sum) :
    HasPlace msg := by
  simp only [Turn.weight, Turn.texts, Turn.toolUses, Turn.toolResults] at h
  unfold HasPlace
  split
  · next hrole =>
    rw [group_user hrole, (shows_user marshal msg).sum_weight, length_nil] at h
    exact eq_nil_of_length_eq_zero (by omega)
  · next hrole =>
    rw [group_assistant hrole, (shows_assistant marshal msg).sum_weight, length_nil] at h
    exact eq_nil_of_length_eq_zero (by omega)
  · next huser hassistant =>
    rw [group_other huser hassistant, map_nil, sum_nil, ← String.length_join] at h
    have hjoin : String.join (texts msg.content) = "" := String.length_eq_zero_iff.mp (by omega)
    exact ⟨(join_eq_empty_iff ne_of_mem_texts).mp hjoin, eq_nil_of_length_eq_zero (by omega),
      eq_nil_of_length_eq_zero (by omega)⟩

theorem renders_iff (msg : MessageParam ι) :
    Renders marshal (.message msg) (group marshal (.message msg)) ↔ HasPlace msg := by
  constructor
  · intro h
    exact hasPlace_of_weight (Nat.le_of_eq h.shows.sum_weight.symm)
  · exact renders_of_hasPlace

theorem lighter {turn : Turn ι} (h : ¬ Renders marshal turn (group marshal turn)) :
    ((group marshal turn).map weight).sum < turn.weight := by
  cases turn with
  | prompt system => exact absurd (renders_prompt system) h
  | message msg =>
    by_contra hle
    exact h (renders_of_hasPlace (hasPlace_of_weight (Nat.le_of_not_lt hle)))

/-! ## Top theorem -/

variable (marshal)

/-- For every conversation, with messages of any roles and blocks of all types. -/
theorem messages_shown_iff (body : MessagesRequest ι) :
    Grouped (Renders marshal) (turns body) (anthropicMessagesToOpenAI marshal body) ↔
      ∀ msg ∈ body.messages, HasPlace msg := by
  rw [anthropicMessagesToOpenAI_eq,
    grouped_flatMap_iff (fun _ _ h => h.shows.sum_weight) (fun _ => lighter)]
  constructor
  · intro h msg hmsg
    exact (renders_iff msg).mp
      (h (.message msg) (mem_append_right _ (mem_map_of_mem hmsg)))
  · intro h
    exact forall_mem_append.mpr ⟨forall_mem_map.mpr fun system _ => renders_prompt system,
      forall_mem_map.mpr fun msg hmsg => (renders_iff msg).mpr (h msg hmsg)⟩

end

/-- An instruction in the middle of a conversation. -/
def instructed : MessagesRequest Unit where
  messages := [⟨.user, .string "Hi"⟩, ⟨.system, .string "Be brief."⟩]
  system := none

theorem system_message_is_lost :
    anthropicMessagesToOpenAI (fun _ => none) instructed = [.user ⟨.string "Hi", ""⟩] ∧
      ¬ Grouped (Renders fun _ => none) (turns instructed)
        (anthropicMessagesToOpenAI (fun _ => none) instructed) := by
  refine ⟨rfl, fun h => ?_⟩
  have hsum := h.sum_eq fun _ _ hr => hr.shows.sum_weight
  exact absurd hsum (by decide)

end AgentRouter.AnthropicToOpenAI
