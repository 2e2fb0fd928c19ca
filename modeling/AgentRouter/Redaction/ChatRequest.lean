import AgentRouter.Lib.Sha256
import AgentRouter.Lib.Texts
import AgentRouter.Redaction.Tree
import AgentRouter.Schema.ChatRequest

/-!
# ChatRequest: the debug log of chat completion requests

`RedactSensitiveInfoFromRequest` replaces the contents of all messages by placeholders before the
request is logged.  It goes from field to field, and some fields are left out: the URLs of audio
and video parts, the refusal of an assistant message, and the texts of its thinking blocks.

`Message.texts` says which texts of a message are content, and of what kind each one is.  The
redaction replaces a content by its kind alone:

    redactMessage m = Message.texts.map (redactKind …) m   (redactMessage_eq)

Two requests that differ in contents with the same placeholders have the same log if and only if
the contents of the kinds that are left out are the same in both (redacted_requests_eq_iff).
-/

namespace AgentRouter.Redaction

open OpenAI

/-! ## Algorithm -/

section

variable (computeContentHash : String → String)

def redactTextPart (part : TextPart) : TextPart :=
  { part with text := redactString computeContentHash part.text }

def redactContentUnion : Content → Content
  | .string s => .string (redactString computeContentHash s)
  | .parts ps => .parts (ps.map (redactTextPart computeContentHash))
  | .absent => .absent

def redactUserContentPart : UserPart → UserPart
  | .text part => .text (redactTextPart computeContentHash part)
  | .imageURL part => .imageURL { part with url := redactString computeContentHash part.url }
  | .inputAudio part => .inputAudio { part with data := redactString computeContentHash part.data }
  | .file part =>
    .file (if part.fileData ≠ "" then
      { part with fileData := redactString computeContentHash part.fileData } else part)
  | .audioURL part => .audioURL part
  | .videoURL part => .videoURL part

def redactStringOrUserRoleContentUnion : UserContent → UserContent
  | .string s => .string (redactString computeContentHash s)
  | .parts ps => .parts (ps.map (redactUserContentPart computeContentHash))
  | .absent => .absent

/-- A part of an assistant message; a part on its own and one of several are treated alike. -/
def redactAssistantPart (part : AssistantPart) : AssistantPart :=
  { part with
    text := part.text.map (redactString computeContentHash)
    refusal := part.refusal.map (redactString computeContentHash) }

def redactStringOrAssistantRoleContentUnion : AssistantContent → AssistantContent
  | .string s => .string (redactString computeContentHash s)
  | .parts ps => .parts (ps.map (redactAssistantPart computeContentHash))
  | .single p => .single (redactAssistantPart computeContentHash p)
  | .absent => .absent

def redactUserMessage (m : UserMessage) : UserMessage :=
  { m with content := redactStringOrUserRoleContentUnion computeContentHash m.content }

def redactToolCall (tc : ToolCall) : ToolCall :=
  { tc with arguments := redactString computeContentHash tc.arguments }

def redactAssistantMessage (m : AssistantMessage) : AssistantMessage :=
  { m with
    content := redactStringOrAssistantRoleContentUnion computeContentHash m.content
    toolCalls := m.toolCalls.map (redactToolCall computeContentHash) }

/-- A message of the system or of the developer. -/
def redactInstructionMessage (m : InstructionMessage) : InstructionMessage :=
  { m with content := redactContentUnion computeContentHash m.content }

def redactSystemMessage : InstructionMessage → InstructionMessage :=
  redactInstructionMessage computeContentHash

def redactDeveloperMessage : InstructionMessage → InstructionMessage :=
  redactInstructionMessage computeContentHash

def redactToolMessage (m : ToolMessage) : ToolMessage :=
  { m with content := redactContentUnion computeContentHash m.content }

def redactMessage : Message → Message
  | .user m => .user (redactUserMessage computeContentHash m)
  | .assistant m => .assistant (redactAssistantMessage computeContentHash m)
  | .system m => .system (redactSystemMessage computeContentHash m)
  | .developer m => .developer (redactDeveloperMessage computeContentHash m)
  | .tool m => .tool (redactToolMessage computeContentHash m)

def redactPrediction (p : PredictionContent) : PredictionContent :=
  { p with content := redactContentUnion computeContentHash p.content }

def redactSensitiveInfoFromRequest {ω : Type} (req : ChatCompletionRequest ω) :
    ChatCompletionRequest ω :=
  { req with
    messages := req.messages.map (redactMessage computeContentHash)
    predictionContent := req.predictionContent.map (redactPrediction computeContentHash) }

end

/-! ## Contents -/

/-- The kinds of content that users and models write. -/
inductive Kind where
  /-- texts of any message, which includes thinking in a part and tool results. -/
  | text
  | imageURL
  | audioData
  | audioURL
  | videoURL
  | fileData
  | partRefusal
  | arguments
  /-- the refusal of an assistant message, outside of its parts. -/
  | refusal
  /-- the text of a thinking block. -/
  | thinking
  deriving DecidableEq

/-- The kinds that are logged as they are. -/
def Kind.logged : Kind → Bool
  | .audioURL => true
  | .videoURL => true
  | .refusal => true
  | .thinking => true
  | _ => false

abbrev Contents (σ : Type) : Type := Texts Kind String σ

def textPartContents : Contents TextPart :=
  .focus TextPart.text (fun p s => { p with text := s }) (fun _ _ => rfl) (fun _ => rfl)
    (fun _ _ _ => rfl) (.one .text)

/-- A text or parts, or nothing. -/
def contentContents : Contents Content :=
  .focus
    (fun
      | .absent => none
      | .string s => some (.inl s)
      | .parts ps => some (.inr ps))
    (fun _ v =>
      match v with
      | none => .absent
      | some (.inl s) => .string s
      | some (.inr ps) => .parts ps)
    (by rintro _ (_ | _ | _) <;> rfl) (by rintro (_ | _ | _) <;> rfl) (fun _ _ _ => rfl)
    (.optional (.either (.one .text) (.each textPartContents)))

def inputAudioContents : Contents InputAudioPart :=
  .focus InputAudioPart.data (fun p s => { p with data := s }) (fun _ _ => rfl) (fun _ => rfl)
    (fun _ _ _ => rfl) (.one .audioData)

def imageContents : Contents ImagePart :=
  .focus ImagePart.url (fun p s => { p with url := s }) (fun _ _ => rfl) (fun _ => rfl)
    (fun _ _ _ => rfl) (.one .imageURL)

def mediaContents (kind : Kind) : Contents MediaPart :=
  .focus MediaPart.url (fun p s => { p with url := s }) (fun _ _ => rfl) (fun _ => rfl)
    (fun _ _ _ => rfl) (.one kind)

def fileContents : Contents FilePart :=
  .focus FilePart.fileData (fun p s => { p with fileData := s }) (fun _ _ => rfl) (fun _ => rfl)
    (fun _ _ _ => rfl) (.one .fileData)

def userPartContents : Contents UserPart :=
  .focus
    (fun
      | .text p => .inl (.inl (.inl p))
      | .inputAudio p => .inl (.inl (.inr p))
      | .imageURL p => .inl (.inr p)
      | .audioURL p => .inr (.inl (.inl p))
      | .videoURL p => .inr (.inl (.inr p))
      | .file p => .inr (.inr p))
    (fun _ v =>
      match v with
      | .inl (.inl (.inl p)) => .text p
      | .inl (.inl (.inr p)) => .inputAudio p
      | .inl (.inr p) => .imageURL p
      | .inr (.inl (.inl p)) => .audioURL p
      | .inr (.inl (.inr p)) => .videoURL p
      | .inr (.inr p) => .file p)
    (by rintro _ (((_ | _) | _) | ((_ | _) | _)) <;> rfl)
    (by rintro (_ | _ | _ | _ | _ | _) <;> rfl) (fun _ _ _ => rfl)
    (.either (.either (.either textPartContents inputAudioContents) imageContents)
      (.either (.either (mediaContents .audioURL) (mediaContents .videoURL)) fileContents))

def userContentContents : Contents UserContent :=
  .focus
    (fun
      | .absent => none
      | .string s => some (.inl s)
      | .parts ps => some (.inr ps))
    (fun _ v =>
      match v with
      | none => .absent
      | some (.inl s) => .string s
      | some (.inr ps) => .parts ps)
    (by rintro _ (_ | _ | _) <;> rfl) (by rintro (_ | _ | _) <;> rfl) (fun _ _ _ => rfl)
    (.optional (.either (.one .text) (.each userPartContents)))

def assistantPartContents : Contents AssistantPart :=
  .focus (fun p => (p.text, p.refusal)) (fun p v => { p with text := v.1, refusal := v.2 })
    (fun _ _ => rfl) (fun _ => rfl) (fun _ _ _ => rfl)
    (.pair (.optional (.one .text)) (.optional (.one .partRefusal)))

def assistantContentContents : Contents AssistantContent :=
  .focus
    (fun
      | .absent => none
      | .string s => some (.inl s)
      | .parts ps => some (.inr (.inl ps))
      | .single p => some (.inr (.inr p)))
    (fun _ v =>
      match v with
      | none => .absent
      | some (.inl s) => .string s
      | some (.inr (.inl ps)) => .parts ps
      | some (.inr (.inr p)) => .single p)
    (by rintro _ (_ | _ | _ | _) <;> rfl) (by rintro (_ | _ | _ | _) <;> rfl) (fun _ _ _ => rfl)
    (.optional (.either (.one .text)
      (.either (.each assistantPartContents) assistantPartContents)))

def toolCallContents : Contents ToolCall :=
  .focus ToolCall.arguments (fun tc s => { tc with arguments := s }) (fun _ _ => rfl)
    (fun _ => rfl) (fun _ _ _ => rfl) (.one .arguments)

def thinkingBlockContents : Contents ThinkingBlock :=
  .focus ThinkingBlock.thinking (fun b s => { b with thinking := s }) (fun _ _ => rfl)
    (fun _ => rfl) (fun _ _ _ => rfl) (.one .thinking)

def assistantMessageContents : Contents AssistantMessage :=
  .focus (fun m => ((m.content, m.refusal), m.toolCalls, m.thinkingBlocks))
    (fun m v => { m with
      content := v.1.1, refusal := v.1.2, toolCalls := v.2.1, thinkingBlocks := v.2.2 })
    (fun _ _ => rfl) (fun _ => rfl) (fun _ _ _ => rfl)
    (.pair (.pair assistantContentContents (.one .refusal))
      (.pair (.each toolCallContents) (.each thinkingBlockContents)))

def userMessageContents : Contents UserMessage :=
  .focus UserMessage.content (fun m c => { m with content := c }) (fun _ _ => rfl) (fun _ => rfl)
    (fun _ _ _ => rfl) userContentContents

def instructionMessageContents : Contents InstructionMessage :=
  .focus InstructionMessage.content (fun m c => { m with content := c }) (fun _ _ => rfl)
    (fun _ => rfl) (fun _ _ _ => rfl) contentContents

def toolMessageContents : Contents ToolMessage :=
  .focus ToolMessage.content (fun m c => { m with content := c }) (fun _ _ => rfl) (fun _ => rfl)
    (fun _ _ _ => rfl) contentContents

def messageContents : Contents Message :=
  .focus
    (fun
      | .user m => .inl (.inl m)
      | .assistant m => .inl (.inr m)
      | .system m => .inr (.inl (.inl m))
      | .developer m => .inr (.inl (.inr m))
      | .tool m => .inr (.inr m))
    (fun _ v =>
      match v with
      | .inl (.inl m) => .user m
      | .inl (.inr m) => .assistant m
      | .inr (.inl (.inl m)) => .system m
      | .inr (.inl (.inr m)) => .developer m
      | .inr (.inr m) => .tool m)
    (by rintro _ ((_ | _) | ((_ | _) | _)) <;> rfl) (by rintro (_ | _ | _ | _ | _) <;> rfl)
    (fun _ _ _ => rfl)
    (.either (.either userMessageContents assistantMessageContents)
      (.either (.either instructionMessageContents instructionMessageContents)
        toolMessageContents))

/-- The content inside of the messages of a request. -/
def requestContents {ω : Type} : Contents (ChatCompletionRequest ω) :=
  .focus ChatCompletionRequest.messages (fun req ms => { req with messages := ms })
    (fun _ _ => rfl) (fun _ => rfl) (fun _ _ _ => rfl) (.each messageContents)

/-! ## Lemmas -/

section

variable (computeContentHash : String → String)

/-- What the redaction does to a content. -/
def redactKind (k : Kind) (s : String) : String :=
  if k.logged then s else redactString computeContentHash s

theorem redactContentUnion_eq (c : Content) :
    redactContentUnion computeContentHash c = contentContents.map (redactKind computeContentHash) c := by
  cases c with
  | absent | string s | parts ps => rfl

theorem redactUserContentPart_eq (p : UserPart) :
    redactUserContentPart computeContentHash p = userPartContents.map (redactKind computeContentHash) p := by
  cases p with
  | file p =>
    -- an empty text stays as it is with the check and without it
    by_cases h : p.fileData = ""
    · have hempty : redactString computeContentHash p.fileData = p.fileData := by
        rw [redactString, if_pos h, h]
      show UserPart.file (if p.fileData ≠ "" then _ else p) =
        .file { p with fileData := redactString computeContentHash p.fileData }
      rw [if_neg (by simp [h]), hempty]
    · show UserPart.file (if p.fileData ≠ "" then _ else p) = _
      rw [if_pos h]
      rfl
  | _ => rfl

theorem redactStringOrUserRoleContentUnion_eq (c : UserContent) :
    redactStringOrUserRoleContentUnion computeContentHash c =
      userContentContents.map (redactKind computeContentHash) c := by
  cases c with
  | absent => rfl
  | string s => rfl
  | parts ps =>
    show UserContent.parts _ = .parts (ps.map (userPartContents.map (redactKind computeContentHash)))
    congr 1
    exact List.map_congr_left fun p _ => redactUserContentPart_eq computeContentHash p

theorem redactAssistantContent_eq (c : AssistantContent) :
    redactStringOrAssistantRoleContentUnion computeContentHash c =
      assistantContentContents.map (redactKind computeContentHash) c := by
  cases c with
  | absent | string s | parts ps | single p => rfl

theorem redactAssistantMessage_eq (m : AssistantMessage) :
    redactAssistantMessage computeContentHash m =
      assistantMessageContents.map (redactKind computeContentHash) m := by
  have hblocks : m.thinkingBlocks.map
      (thinkingBlockContents.map (redactKind computeContentHash)) = m.thinkingBlocks := by
    simp [thinkingBlockContents, Texts.focus, Texts.one, redactKind, Kind.logged]
  show _ = { m with
    content := assistantContentContents.map (redactKind computeContentHash) m.content
    refusal := m.refusal
    toolCalls := m.toolCalls.map (toolCallContents.map (redactKind computeContentHash))
    thinkingBlocks := m.thinkingBlocks.map
      (thinkingBlockContents.map (redactKind computeContentHash)) }
  rw [hblocks, ← redactAssistantContent_eq]
  rfl

theorem redactMessage_eq (m : Message) :
    redactMessage computeContentHash m = messageContents.map (redactKind computeContentHash) m := by
  cases m with
  | user m =>
    show Message.user { m with content := _ } = .user { m with content := _ }
    rw [redactStringOrUserRoleContentUnion_eq]
  | assistant m => exact congrArg Message.assistant (redactAssistantMessage_eq computeContentHash m)
  | system m =>
    show Message.system { m with content := _ } = .system { m with content := _ }
    rw [redactContentUnion_eq]
  | developer m =>
    show Message.developer { m with content := _ } = .developer { m with content := _ }
    rw [redactContentUnion_eq]
  | tool m =>
    show Message.tool { m with content := _ } = .tool { m with content := _ }
    rw [redactContentUnion_eq]

/-- Contents of one kind that are both empty or have the same placeholder. -/
def Alike (p q : Kind × String) : Prop :=
  p.1 = q.1 ∧ (p.2 = "" ∧ q.2 = "" ∨
    p.2 ≠ "" ∧ q.2 ≠ "" ∧
      redactString computeContentHash p.2 = redactString computeContentHash q.2)

instance (p q : Kind × String) : Decidable (Alike computeContentHash p q) :=
  inferInstanceAs (Decidable (_ ∧ (_ ∨ _)))

/-- The requests differ only in contents inside of messages, and contents in the same place are
alike. -/
structure SameButContents {ω : Type} (req req' : ChatCompletionRequest ω) : Prop where
  shape : requestContents.SameShape req req'
  contents : List.Forall₂ (Alike computeContentHash) (requestContents.list req)
    (requestContents.list req')

/-- The contents that are logged as they are. -/
def loggedContents {ω : Type} (req : ChatCompletionRequest ω) : List (Kind × String) :=
  (requestContents.list req).filter fun p => p.1.logged

theorem Alike.redactString_eq {p q : Kind × String} (h : Alike computeContentHash p q) :
    redactString computeContentHash p.2 = redactString computeContentHash q.2 := by
  obtain ⟨-, ⟨hp, hq⟩ | ⟨-, -, heq⟩⟩ := h
  · rw [hp, hq]
  · exact heq

theorem forall₂_redactKind_iff {ps qs : List (Kind × String)}
    (h : List.Forall₂ (Alike computeContentHash) ps qs) :
    List.Forall₂ (fun p q => p.1 = q.1 ∧
        redactKind computeContentHash p.1 p.2 = redactKind computeContentHash q.1 q.2) ps qs ↔
      (ps.filter fun p => p.1.logged) = qs.filter fun p => p.1.logged := by
  induction h with
  | nil => simp
  | @cons p q ps qs halike _ ih =>
    obtain ⟨k, s⟩ := p
    obtain ⟨k', s'⟩ := q
    obtain rfl : k = k' := halike.1
    have hplaceholder := halike.redactString_eq
    rw [List.forall₂_cons, ih]
    by_cases hk : k.logged = true
    · simp [redactKind, hk]
    · simp [redactKind, hk, hplaceholder]

theorem redactSensitiveInfoFromRequest_eq {ω : Type} (req : ChatCompletionRequest ω) :
    redactSensitiveInfoFromRequest computeContentHash req =
      { requestContents.map (redactKind computeContentHash) req with
        predictionContent := req.predictionContent.map (redactPrediction computeContentHash) } := by
  have hmessages : req.messages.map (redactMessage computeContentHash) =
      req.messages.map (messageContents.map (redactKind computeContentHash)) :=
    List.map_congr_left fun m _ => redactMessage_eq computeContentHash m
  show ({ req with messages := _, predictionContent := _ } : ChatCompletionRequest ω) = _
  rw [hmessages]
  rfl

/-! ## Top theorem -/

theorem redacted_requests_eq_iff {ω : Type} {req req' : ChatCompletionRequest ω}
    (h : SameButContents computeContentHash req req') :
    redactSensitiveInfoFromRequest computeContentHash req =
        redactSensitiveInfoFromRequest computeContentHash req' ↔
      loggedContents req = loggedContents req' := by
  -- the prediction and the other fields are the same in both requests
  have hshape : requestContents.map (fun _ _ => "") req =
      requestContents.map (fun _ _ => "") req' := h.shape
  have hprediction := congrArg ChatCompletionRequest.predictionContent hshape
  have hothers := congrArg ChatCompletionRequest.others hshape
  change req.predictionContent = req'.predictionContent at hprediction
  change req.others = req'.others at hothers
  unfold loggedContents
  rw [← forall₂_redactKind_iff computeContentHash h.contents]
  have hmap := Texts.map_eq_map_iff (t := requestContents) (x := req) (y := req')
    (redactKind computeContentHash)
  rw [redactSensitiveInfoFromRequest_eq, redactSensitiveInfoFromRequest_eq]
  constructor
  · intro heq
    refine (hmap.mp ?_).2
    have hmessages := congrArg ChatCompletionRequest.messages heq
    show ({ req with messages := _ } : ChatCompletionRequest ω) = { req' with messages := _ }
    rw [hprediction, hothers]
    exact congrArg (fun ms => (⟨ms, req'.predictionContent, req'.others⟩ : ChatCompletionRequest ω))
      hmessages
  · intro hcontents
    rw [hmap.mpr ⟨h.shape, hcontents⟩, hprediction]

end

/-! ### Requests with one message -/

/-- A request with one user message of one part. -/
def requestWith (part : UserPart) : ChatCompletionRequest Unit :=
  ⟨[.user ⟨.parts [part], ""⟩], none, ()⟩

/-! ### The hash of the sources -/

/-- The first 64 bits of the SHA-256 sum, in hexadecimal. -/
def computeContentHash (s : String) : String :=
  .ofList ((Sha256.hex (Sha256.sum256 s.toUTF8.data.toList)).take 16)

def firstURL : String := "https://example.com/976402570291852a.mp4"

def secondURL : String := "https://example.com/08ba753ec3eea519.mp4"

/-- 64 bits are few enough for a collision to be found by search. -/
theorem computeContentHash_collision :
    computeContentHash firstURL = computeContentHash secondURL := by decide +kernel

theorem redactString_collision :
    redactString computeContentHash firstURL = redactString computeContentHash secondURL := by
  rw [redactString, computeContentHash_collision]
  rfl

/-- Texts with the same placeholder cannot be told apart in the log. -/
theorem texts_are_redacted :
    redactSensitiveInfoFromRequest computeContentHash (requestWith (.text ⟨firstURL, "text", none⟩)) =
      redactSensitiveInfoFromRequest computeContentHash
        (requestWith (.text ⟨secondURL, "text", none⟩)) := by
  have hfirst : firstURL ≠ "" := by decide
  have hsecond : secondURL ≠ "" := by decide
  have hsame : SameButContents computeContentHash (requestWith (.text ⟨firstURL, "text", none⟩))
      (requestWith (.text ⟨secondURL, "text", none⟩)) :=
    ⟨rfl, .cons ⟨rfl, .inr ⟨hfirst, hsecond, redactString_collision⟩⟩ .nil⟩
  exact (redacted_requests_eq_iff computeContentHash hsame).mpr rfl

/-- Two videos with the same placeholder can be told apart in the log. -/
theorem video_url_is_logged :
    SameButContents computeContentHash (requestWith (.videoURL ⟨firstURL, none⟩))
        (requestWith (.videoURL ⟨secondURL, none⟩)) ∧
      redactSensitiveInfoFromRequest computeContentHash (requestWith (.videoURL ⟨firstURL, none⟩)) ≠
        redactSensitiveInfoFromRequest computeContentHash
          (requestWith (.videoURL ⟨secondURL, none⟩)) := by
  have hfirst : firstURL ≠ "" := by decide
  have hsecond : secondURL ≠ "" := by decide
  refine ⟨⟨rfl, .cons ⟨rfl, .inr ⟨hfirst, hsecond, redactString_collision⟩⟩ .nil⟩, ?_⟩
  decide

end AgentRouter.Redaction
