import AgentRouter.Lib.Emit
import AgentRouter.Translator.AnthropicStream
import AgentRouter.Translator.SSE

/-!
# BedrockStream: Bedrock ConverseStream events as Anthropic events

`ResponseBody` takes the whole frames off its buffer, looks through the events of this call for
usage, and then converts them one by one.  An event reads the usage only for the token counts of
`message_start` and `message_delta`, so what a run writes is settled by the events and by the usage
that is known at each of them (`annotateBatches`):

    output of the calls = emitAll a (annotateBatches a.streamingUsage batches)
      (responseBodies_out)

So a cut matters for the calls in which the usage and the events with counts arrive.  In a stream
with one usage, the counts of events in calls before that of the usage stay 0
(responseBodies_eq_iff).
-/

namespace AgentRouter.BedrockStream

open AnthropicStream Emit List

/-! ## Events -/

inductive EventType where
  | messageStart | contentBlockStart | contentBlockDelta | contentBlockStop | messageStop | metadata
  | other (name : String)
  deriving DecidableEq

structure ToolUseBlockStart where
  name : String
  toolUseID : String
  deriving DecidableEq

structure ContentBlockStart where
  toolUse : Option ToolUseBlockStart
  deriving DecidableEq

structure ReasoningContentBlockDelta where
  text : String
  signature : String
  redactedContent : Option Bytes
  deriving DecidableEq

/-- `toolUse` is the input of a `ToolUseBlockDelta`. -/
structure ContentBlockDelta where
  text : Option String
  toolUse : Option String
  reasoningContent : Option ReasoningContentBlockDelta
  deriving DecidableEq

structure TokenUsage where
  inputTokens : Int
  outputTokens : Int
  cacheReadInputTokens : Option Int
  cacheWriteInputTokens : Option Int
  deriving DecidableEq

inductive BedrockStopReason where
  | endTurn | maxTokens | stopSequence | toolUse | contentFiltered
  | other (name : String)
  deriving DecidableEq

/-- `ConverseStreamEvent`; `serviceTier` is the type in it. -/
structure StreamEvent where
  eventType : EventType
  contentBlockIndex : Nat
  delta : Option ContentBlockDelta
  role : Option String
  stopReason : Option BedrockStopReason
  usage : Option TokenUsage
  start : Option ContentBlockStart
  serviceTier : Option String
  deriving DecidableEq

section

variable {μ : Type} (decode : Framing.Decoder UInt8 μ) (unmarshal : μ → Option StreamEvent)

/-- The events of the whole frames, and what is left; payloads that are no events are passed over. -/
@[simp] def extractAmazonEventStreamEvents (bufferedBody : Bytes) : List StreamEvent × Bytes :=
  let frames := Framing.drain decode bufferedBody
  (frames.1.filterMap unmarshal, frames.2)

end

/-! ## The translator -/

/-- `anthropicToAWSBedrockTranslator` on the response side. -/
structure Translator where
  requestModel : String
  responseID : String
  role : String
  bufferedBody : Bytes
  pendingBlockStart : Bool
  pendingBlockStartIdx : Nat
  streamingUsage : Option TokenUsage

/-- A translator before the first bytes. -/
def Translator.init (requestModel responseID : String) : Translator :=
  { requestModel, responseID, role := "", bufferedBody := [], pendingBlockStart := false,
    pendingBlockStartIdx := 0, streamingUsage := none }

def bedrockStopReasonToAnthropicStopReason : BedrockStopReason → StopReason
  | .endTurn => .endTurn
  | .maxTokens => .maxTokens
  | .stopSequence => .stopSequence
  | .toolUse => .toolUse
  | .contentFiltered => .endTurn
  | .other _ => .endTurn

def flushPendingBlockStart (a : Translator) (block : BlockStart) : Translator × List Event :=
  if a.pendingBlockStart then
    ({ a with pendingBlockStart := false }, [.contentBlockStart a.pendingBlockStartIdx block])
  else (a, [])

def inputTokens (usage : Option TokenUsage) : Int := (usage.map (·.inputTokens)).getD 0

def outputTokens (usage : Option TokenUsage) : Int := (usage.map (·.outputTokens)).getD 0

@[simp] def convertMessageStart (a : Translator) : Option String → Translator × List Event
  | none => (a, [])
  | some role =>
    ({ a with role := role },
      [.messageStart { id := a.responseID, role := role, model := a.requestModel,
                       inputTokens := inputTokens a.streamingUsage, outputTokens := 0 }])

/-- Only a tool block is announced at once; others wait for their first delta. -/
def convertBlockStart (a : Translator) (index : Nat) (start : Option ContentBlockStart) :
    Translator × List Event :=
  match start.bind (·.toolUse) with
  | some tool => (a, [.contentBlockStart index (.toolUse tool.toolUseID tool.name)])
  | none => ({ a with pendingBlockStart := true, pendingBlockStartIdx := index }, [])

def reasoningEvents (index : Nat) (rc : ReasoningContentBlockDelta) : List Event :=
  (if rc.text = "" then [] else [.contentBlockDelta index (.thinking rc.text)]) ++
    if rc.signature = "" then [] else [.contentBlockDelta index (.signature rc.signature)]

def convertDelta (a : Translator) (index : Nat) : Option ContentBlockDelta → Translator × List Event
  | none => (a, [])
  | some delta =>
    match delta.text, delta.toolUse, delta.reasoningContent with
    | some text, _, _ =>
      let flushed := flushPendingBlockStart a .text
      (flushed.1, flushed.2 ++ [.contentBlockDelta index (.text text)])
    | none, some input, _ => (a, [.contentBlockDelta index (.inputJSON input)])
    | none, none, some rc =>
      let flushed := flushPendingBlockStart a .thinking
      (flushed.1, flushed.2 ++ reasoningEvents index rc)
    | none, none, none => (a, [])

@[simp] def convertMessageStop (a : Translator) : Option BedrockStopReason → Translator × List Event
  | none => (a, [])
  | some reason =>
    (a, [.messageDelta (bedrockStopReasonToAnthropicStopReason reason) none
          (outputTokens a.streamingUsage), .messageStop])

def convertEventToAnthropicSSE (a : Translator) (event : StreamEvent) : Translator × List Event :=
  match event.eventType with
  | .messageStart => convertMessageStart a event.role
  | .contentBlockStart => convertBlockStart a event.contentBlockIndex event.start
  | .contentBlockDelta => convertDelta a event.contentBlockIndex event.delta
  | .contentBlockStop => (a, [.contentBlockStop event.contentBlockIndex])
  | .messageStop => convertMessageStop a event.stopReason
  | .metadata => ({ a with streamingUsage := event.usage.or a.streamingUsage }, [])
  | .other _ => (a, [])

def convertEvents : Translator → List StreamEvent → Translator × List Event :=
  writeAll convertEventToAnthropicSSE

/-- The usage that an event brings. -/
def usageOf (event : StreamEvent) : Option TokenUsage :=
  if event.eventType = .metadata then event.usage else none

/-- The last usage among the events. -/
def scanUsage (usage : Option TokenUsage) (events : List StreamEvent) : Option TokenUsage :=
  events.foldl (fun usage e => (usageOf e).or usage) usage

section

variable {μ : Type} (decode : Framing.Decoder UInt8 μ) (unmarshal : μ → Option StreamEvent)

/-- `ResponseBody` of a stream. -/
def responseBody (a : Translator) (body : Bytes) : Translator × List Event :=
  let r := extractAmazonEventStreamEvents decode unmarshal (a.bufferedBody ++ body)
  convertEvents
    { a with bufferedBody := r.2, streamingUsage := scanUsage a.streamingUsage r.1 } r.1

/-- The calls of a response. -/
def responseBodies : Translator → List Bytes → Translator × List Event :=
  writeAll (responseBody decode unmarshal)

/-- The events that come with each call. -/
def batches (buffer : Bytes) (pieces : List Bytes) : List (List StreamEvent) :=
  (Framing.feed decode buffer pieces).1.map (·.filterMap unmarshal)

end

/-! ## Counts and cuts -/

/-- The token counts that an event takes from the usage. -/
def countsRead (e : StreamEvent) : List (Option TokenUsage → Int) :=
  match e.eventType with
  | .messageStart => if e.role = none then [] else [inputTokens]
  | .messageStop => if e.stopReason = none then [] else [outputTokens]
  | _ => []

def lastUsage (events : List StreamEvent) : Option TokenUsage := (events.filterMap usageOf).getLast?

/-- Where the last usages come, seen from an event: in the calls before its call, in its call before
and behind it, and in the calls after that.  A count is not that of one call if a usage behind the
event replaces one of the earlier calls, or if the first usages come in later calls. -/
def CountKept (count : Option TokenUsage → Int) (earlier before behind later : Option TokenUsage) :
    Prop :=
  before = none →
    (earlier ≠ none → behind ≠ none → count behind = count earlier) ∧
      (earlier = none → later ≠ none → count later = count behind)

/-- Every count is the same for these calls as for one call with all events. -/
def CutKeepsCounts (calls : List (List StreamEvent)) : Prop :=
  ∀ earlier before e behind later, calls = earlier ++ (before ++ e :: behind) :: later →
    ∀ count ∈ countsRead e, CountKept count (lastUsage earlier.flatten) (lastUsage before)
      (lastUsage behind) (lastUsage later.flatten)

/-! ## The usage that is known at an event -/

def annotate (usage : Option TokenUsage) : List StreamEvent → List (StreamEvent × Option TokenUsage)
  | [] => []
  | e :: es => (e, usage) :: annotate ((usageOf e).or usage) es

/-- Each event with the usage that is known when it is converted: that of the last metadata event
before it in its call, or else of the last one in its call, or else of the calls before. -/
def annotateBatches (usage : Option TokenUsage) :
    List (List StreamEvent) → List (StreamEvent × Option TokenUsage)
  | [] => []
  | b :: bs => annotate (scanUsage usage b) b ++ annotateBatches (scanUsage usage b) bs

/-- What is written for events with the usage that is known at each. -/
def emitAll : Translator → List (StreamEvent × Option TokenUsage) → List Event
  | _, [] => []
  | a, (e, usage) :: rest =>
    let r := convertEventToAnthropicSSE { a with streamingUsage := usage } e
    r.2 ++ emitAll r.1 rest

/-! ## What an event reads of the state -/

/-- The state without the usage and the buffer. -/
def Translator.core (a : Translator) : Translator :=
  { a with streamingUsage := none, bufferedBody := [] }

variable {a b : Translator}

theorem eq_update_of_core_eq (h : a.core = b.core) :
    a = { b with streamingUsage := a.streamingUsage, bufferedBody := a.bufferedBody } := by
  cases a
  simp only [Translator.core, Translator.mk.injEq] at h
  simp [h]

theorem flush_update (b : Translator) (usage : Option TokenUsage) (buffer : Bytes) (block : BlockStart) :
    flushPendingBlockStart { b with streamingUsage := usage, bufferedBody := buffer } block =
      ({ (flushPendingBlockStart b block).1 with streamingUsage := usage, bufferedBody := buffer },
        (flushPendingBlockStart b block).2) := by
  unfold flushPendingBlockStart
  cases hpending : b.pendingBlockStart with
  | true => simp
  | false => simp [hpending]

theorem convertDelta_update (b : Translator) (usage : Option TokenUsage) (buffer : Bytes)
    (index : Nat) (delta : Option ContentBlockDelta) :
    convertDelta { b with streamingUsage := usage, bufferedBody := buffer } index delta =
      ({ (convertDelta b index delta).1 with streamingUsage := usage, bufferedBody := buffer },
        (convertDelta b index delta).2) := by
  unfold convertDelta
  cases delta with
  | none => rfl
  | some delta =>
    obtain ⟨text, toolUse, reasoningContent⟩ := delta
    cases text with
    | some text =>
      rw [flush_update]
    | none =>
      cases toolUse with
      | some input => rfl
      | none =>
        cases reasoningContent with
        | some rc =>
          dsimp only
          rw [flush_update]
        | none => rfl

theorem convertBlockStart_update (b : Translator) (usage : Option TokenUsage) (buffer : Bytes)
    (index : Nat) (start : Option ContentBlockStart) :
    convertBlockStart { b with streamingUsage := usage, bufferedBody := buffer } index start =
      ({ (convertBlockStart b index start).1 with streamingUsage := usage, bufferedBody := buffer },
        (convertBlockStart b index start).2) := by
  unfold convertBlockStart
  cases start.bind (·.toolUse) with
  | none => rfl
  | some tool => rfl

theorem convert_kept (a : Translator) (e : StreamEvent) :
    (convertEventToAnthropicSSE a e).1.streamingUsage = (usageOf e).or a.streamingUsage ∧
      (convertEventToAnthropicSSE a e).1.bufferedBody = a.bufferedBody := by
  unfold convertEventToAnthropicSSE usageOf
  cases e.eventType with
  | messageStart =>
    cases e.role with
    | none | some role => exact ⟨rfl, rfl⟩
  | contentBlockStart =>
    have h := convertBlockStart_update a a.streamingUsage a.bufferedBody e.contentBlockIndex e.start
    exact ⟨congrArg (·.1.streamingUsage) h, congrArg (·.1.bufferedBody) h⟩
  | contentBlockDelta =>
    have h := convertDelta_update a a.streamingUsage a.bufferedBody e.contentBlockIndex e.delta
    exact ⟨congrArg (·.1.streamingUsage) h, congrArg (·.1.bufferedBody) h⟩
  | contentBlockStop | metadata | other name => exact ⟨rfl, rfl⟩
  | messageStop =>
    cases e.stopReason with
    | none | some reason => exact ⟨rfl, rfl⟩

/-- The token counts that an event takes from the usage are the same. -/
def SameCounts (e : StreamEvent) (usage usage' : Option TokenUsage) : Prop :=
  ∀ count ∈ countsRead e, count usage = count usage'

/-- Two states that differ in usage and buffer only go on to such states and write as many events,
which are the same exactly when the token counts are. -/
theorem convert_update (b : Translator) (usage usage' : Option TokenUsage) (buffer buffer' : Bytes)
    (e : StreamEvent) :
    let r := convertEventToAnthropicSSE { b with streamingUsage := usage, bufferedBody := buffer } e
    let r' := convertEventToAnthropicSSE { b with streamingUsage := usage', bufferedBody := buffer' } e
    r.1.core = r'.1.core ∧ r.2.length = r'.2.length ∧ (r.2 = r'.2 ↔ SameCounts e usage usage') := by
  unfold convertEventToAnthropicSSE SameCounts countsRead
  cases htype : e.eventType with
  | messageStart =>
    cases hrole : e.role with
    | none | some role => exact ⟨rfl, rfl, by simp⟩
  | contentBlockStart =>
    rw [convertBlockStart_update, convertBlockStart_update b usage']
    exact ⟨rfl, rfl, by simp⟩
  | contentBlockDelta =>
    rw [convertDelta_update, convertDelta_update b usage']
    exact ⟨rfl, rfl, by simp⟩
  | contentBlockStop | metadata | other name => exact ⟨rfl, rfl, by simp⟩
  | messageStop =>
    cases hreason : e.stopReason with
    | none | some reason => exact ⟨rfl, rfl, by simp⟩

theorem convert_of_core_eq (h : a.core = b.core) (e : StreamEvent) :
    (convertEventToAnthropicSSE a e).1.core = (convertEventToAnthropicSSE b e).1.core ∧
      (convertEventToAnthropicSSE a e).2.length = (convertEventToAnthropicSSE b e).2.length ∧
      ((convertEventToAnthropicSSE a e).2 = (convertEventToAnthropicSSE b e).2 ↔
        SameCounts e a.streamingUsage b.streamingUsage) := by
  have hupdate := convert_update b a.streamingUsage b.streamingUsage a.bufferedBody b.bufferedBody e
  rw [← eq_update_of_core_eq h] at hupdate
  exact hupdate

/-! ## Runs -/

theorem convertEvents_cons (a : Translator) (e : StreamEvent) (es : List StreamEvent) :
    convertEvents a (e :: es) =
      ((convertEvents (convertEventToAnthropicSSE a e).1 es).1,
        (convertEventToAnthropicSSE a e).2 ++ (convertEvents (convertEventToAnthropicSSE a e).1 es).2) :=
  rfl

/-- Two runs over the same events write the same exactly when all token counts are the same. -/
theorem emitAll_eq_iff (h : a.core = b.core) {xs ys : List (StreamEvent × Option TokenUsage)}
    (hevents : xs.map (·.1) = ys.map (·.1)) :
    emitAll a xs = emitAll b ys ↔ List.Forall₂ (fun x y => SameCounts x.1 x.2 y.2) xs ys := by
  rw [← forall₂_eq_eq_eq, forall₂_map_left_iff, forall₂_map_right_iff] at hevents
  induction hevents generalizing a b with
  | nil => exact ⟨fun _ => .nil, fun _ => rfl⟩
  | @cons x y _ _ he _ ih =>
    obtain ⟨e, u⟩ := x
    obtain ⟨_, u'⟩ := y
    cases he
    have hcore : ({ a with streamingUsage := u } : Translator).core =
        ({ b with streamingUsage := u' } : Translator).core := h
    obtain ⟨hnext, hlength, heq⟩ := convert_of_core_eq hcore e
    rw [emitAll, emitAll, forall₂_cons, ← ih hnext, ← heq]
    constructor
    · exact fun happend => append_inj happend hlength
    · rintro ⟨hfirst, htail⟩
      rw [hfirst, htail]

theorem emitAll_of_core_eq (h : a.core = b.core) (xs : List (StreamEvent × Option TokenUsage)) :
    emitAll a xs = emitAll b xs := by
  rw [emitAll_eq_iff h rfl]
  exact forall₂_same.mpr fun x _ count _ => rfl

theorem emitAll_annotate_append (a : Translator) (es : List StreamEvent)
    (xs : List (StreamEvent × Option TokenUsage)) :
    emitAll a (annotate a.streamingUsage es ++ xs) =
      (convertEvents a es).2 ++ emitAll (convertEvents a es).1 xs := by
  induction es generalizing a with
  | nil => rfl
  | cons e es ih =>
    have husage := (convert_kept a e).1
    rw [annotate, cons_append, emitAll, convertEvents_cons, ← husage]
    rw [ih, append_assoc]

theorem convertEvents_kept (a : Translator) (es : List StreamEvent) :
    (convertEvents a es).1.streamingUsage = scanUsage a.streamingUsage es ∧
      (convertEvents a es).1.bufferedBody = a.bufferedBody := by
  induction es generalizing a with
  | nil => exact ⟨rfl, rfl⟩
  | cons e es ih =>
    obtain ⟨husage, hbuffer⟩ := convert_kept a e
    obtain ⟨husage', hbuffer'⟩ := ih (convertEventToAnthropicSSE a e).1
    refine ⟨husage'.trans ?_, hbuffer'.trans hbuffer⟩
    rw [husage]
    rfl

variable (usage : Option TokenUsage)

section

variable (es : List StreamEvent)

theorem scanUsage_eq_or : scanUsage usage es = (lastUsage es).or usage := by
  unfold scanUsage lastUsage
  induction es using List.reverseRecOn with
  | nil => rfl
  | append_singleton es e ih =>
    rw [foldl_append, ih, filterMap_append, getLast?_append, Option.or_assoc]
    cases husage : usageOf e with
    | none | some u => simp [husage]

/-- Going through a call's events again brings no other usage. -/
theorem scanUsage_scanUsage : scanUsage (scanUsage usage es) es = scanUsage usage es := by
  rw [scanUsage_eq_or (scanUsage usage es), scanUsage_eq_or usage, ← Option.or_assoc, Option.or_self]

theorem map_fst_annotate : (annotate usage es).map (·.1) = es := by
  induction es generalizing usage with
  | nil => rfl
  | cons e es ih => rw [annotate, map_cons, ih]

end

theorem map_fst_annotateBatches (bs : List (List StreamEvent)) :
    (annotateBatches usage bs).map (·.1) = bs.flatten := by
  induction bs generalizing usage with
  | nil => rfl
  | cons b bs ih =>
    rw [annotateBatches, map_append, map_fst_annotate, ih, flatten_cons]

section

variable {μ : Type} (decode : Framing.Decoder UInt8 μ) (unmarshal : μ → Option StreamEvent)

theorem responseBodies_out (a : Translator) (pieces : List Bytes) :
    (responseBodies decode unmarshal a pieces).2 =
      emitAll a (annotateBatches a.streamingUsage (batches decode unmarshal a.bufferedBody pieces)) := by
  induction pieces generalizing a with
  | nil => rfl
  | cons p ps ih =>
    have hbatches : batches decode unmarshal a.bufferedBody (p :: ps) =
        ((Framing.drain decode (a.bufferedBody ++ p)).1.filterMap unmarshal) ::
          batches decode unmarshal (Framing.drain decode (a.bufferedBody ++ p)).2 ps := rfl
    rw [responseBodies] at ih ⊢
    rw [hbatches, annotateBatches, writeAll, ih]
    unfold responseBody extractAmazonEventStreamEvents
    dsimp only
    generalize (Framing.drain decode (a.bufferedBody ++ p)).1.filterMap unmarshal = events
    generalize (Framing.drain decode (a.bufferedBody ++ p)).2 = buffer
    have hb : ∃ b : Translator, b = { a with
        bufferedBody := buffer
        streamingUsage := scanUsage a.streamingUsage events } := ⟨_, rfl⟩
    obtain ⟨b, hb⟩ := hb
    have hcore : a.core = b.core := by rw [hb]; rfl
    have husage : b.streamingUsage = scanUsage a.streamingUsage events := by rw [hb]
    have hbuffer : b.bufferedBody = buffer := by rw [hb]
    rw [← hb]
    obtain ⟨hkept, hkept'⟩ := convertEvents_kept b events
    rw [emitAll_of_core_eq hcore, ← husage, emitAll_annotate_append, hkept, hkept', hbuffer, husage,
      scanUsage_scanUsage]

end

/-! ## Counts in calls and in one call -/

theorem forall₂_append_iff {α β : Type} {R : α → β → Prop} {xs xs' : List α} {ys ys' : List β}
    (h : xs.length = ys.length) :
    List.Forall₂ R (xs ++ xs') (ys ++ ys') ↔ List.Forall₂ R xs ys ∧ List.Forall₂ R xs' ys' := by
  induction xs generalizing ys with
  | nil =>
    rw [length_nil, eq_comm, length_eq_zero_iff] at h
    simp [h]
  | cons x xs ih =>
    cases ys with
    | nil => simp at h
    | cons y ys =>
      rw [length_cons, length_cons, Nat.add_right_cancel_iff] at h
      rw [cons_append, cons_append, forall₂_cons, forall₂_cons, ih h, and_assoc]

theorem annotate_append (es es' : List StreamEvent) :
    annotate usage (es ++ es') = annotate usage es ++ annotate (scanUsage usage es) es' := by
  induction es generalizing usage with
  | nil => rfl
  | cons e es ih =>
    rw [cons_append, annotate, ih, annotate]
    rfl

theorem forall₂_annotate_iff (usage' : Option TokenUsage) (es : List StreamEvent) :
    List.Forall₂ (fun x y => SameCounts x.1 x.2 y.2) (annotate usage es) (annotate usage' es) ↔
      ∀ before e behind, es = before ++ e :: behind →
        SameCounts e (scanUsage usage before) (scanUsage usage' before) := by
  induction es generalizing usage usage' with
  | nil => simp [annotate]
  | cons x es ih =>
    rw [annotate, annotate, forall₂_cons, ih]
    constructor
    · rintro ⟨hx, hes⟩ before e behind heq
      cases before with
      | nil =>
        cases heq
        exact hx
      | cons y before =>
        cases heq
        exact hes before e behind rfl
    · intro h
      exact ⟨h [] x es rfl, fun before e behind heq => h (x :: before) e behind (congrArg _ heq)⟩

theorem forall₂_annotateBatches_iff (usage' : Option TokenUsage) (bs : List (List StreamEvent)) :
    List.Forall₂ (fun x y => SameCounts x.1 x.2 y.2) (annotateBatches usage bs)
        (annotate usage' bs.flatten) ↔
      ∀ earlier before e behind later, bs = earlier ++ (before ++ e :: behind) :: later →
        SameCounts e
          (scanUsage (scanUsage usage (earlier.flatten ++ (before ++ e :: behind))) before)
          (scanUsage usage' (earlier.flatten ++ before)) := by
  induction bs generalizing usage usage' with
  | nil => simp [annotateBatches, annotate]
  | cons b bs ih =>
    have hlength : (annotate (scanUsage usage b) b).length = (annotate usage' b).length := by
      have hevents := (map_fst_annotate (scanUsage usage b) b).trans (map_fst_annotate usage' b).symm
      simpa using congrArg length hevents
    have hscan (u : Option TokenUsage) (es : List StreamEvent) :
        scanUsage u (b ++ es) = scanUsage (scanUsage u b) es := foldl_append
    rw [annotateBatches, flatten_cons, annotate_append, forall₂_append_iff hlength,
      forall₂_annotate_iff, ih]
    constructor
    · rintro ⟨hb, hbs⟩ earlier before e behind later heq
      cases earlier with
      | nil =>
        cases heq
        exact hb before e behind rfl
      | cons b' earlier =>
        cases heq
        rw [flatten_cons, append_assoc, append_assoc, hscan, hscan]
        exact hbs earlier before e behind later rfl
    · intro h
      constructor
      · intro before e behind heq
        subst heq
        exact h [] before e behind bs rfl
      · intro earlier before e behind later heq
        have hcall := h (b :: earlier) before e behind later (congrArg _ heq)
        rw [flatten_cons, append_assoc, append_assoc, hscan, hscan] at hcall
        exact hcall

theorem lastUsage_append (es es' : List StreamEvent) :
    lastUsage (es ++ es') = (lastUsage es').or (lastUsage es) := by
  rw [lastUsage, filterMap_append, getLast?_append]
  rfl

variable {count : Option TokenUsage → Int}

theorem countKept_iff (earlier before behind later : Option TokenUsage) :
    count (before.or ((behind.or before).or earlier)) =
        count ((before.or earlier).or (later.or ((behind.or before).or earlier))) ↔
      CountKept count earlier before behind later := by
  unfold CountKept
  cases before with
  | some u => simp
  | none =>
    cases earlier with
    | some u =>
      cases behind with
      | none | some v => simp
    | none =>
      cases later with
      | none | some v => simp [eq_comm]

/-- An event with counts brings no usage, and without usage the counts are 0. -/
theorem of_mem_countsRead {e : StreamEvent} (h : count ∈ countsRead e) :
    usageOf e = none ∧ count none = 0 := by
  unfold countsRead at h
  unfold usageOf
  cases htype : e.eventType with
  | messageStart =>
    simp only [htype, mem_ite_nil_left, mem_singleton] at h
    exact ⟨rfl, by rw [h.2]; rfl⟩
  | messageStop =>
    simp only [htype, mem_ite_nil_left, mem_singleton] at h
    exact ⟨rfl, by rw [h.2]; rfl⟩
  | contentBlockStart | contentBlockDelta | contentBlockStop | metadata | other name =>
    simp [htype] at h

theorem cutKeepsCounts_iff (calls : List (List StreamEvent)) :
    List.Forall₂ (fun x y => SameCounts x.1 x.2 y.2) (annotateBatches none calls)
        (annotateBatches none [calls.flatten]) ↔ CutKeepsCounts calls := by
  rw [annotateBatches, annotateBatches, append_nil, forall₂_annotateBatches_iff]
  unfold CutKeepsCounts SameCounts
  refine forall₅_congr fun earlier before e behind later => ?_
  refine forall₃_congr fun heq count hcount => ?_
  have hcall : lastUsage (e :: behind) = lastUsage behind := by
    rw [lastUsage, filterMap_cons_none (of_mem_countsRead hcount).1]
    rfl
  have hall : calls.flatten = earlier.flatten ++ (before ++ e :: behind) ++ later.flatten := by
    rw [heq, flatten_append, flatten_cons, ← append_assoc]
  simp only [scanUsage_eq_or, Option.or_none, hall, lastUsage_append, hcall]
  exact countKept_iff _ _ _ _

theorem length_pos_of_lastUsage {es : List StreamEvent} (h : lastUsage es ≠ none) :
    0 < (es.filterMap usageOf).length :=
  length_pos_iff.mpr fun hnil => h (getLast?_eq_none_iff.mpr hnil)

/-- With one usage, the events with counts in calls before it have to read 0. -/
theorem cutKeepsCounts_iff_of_one {earlier later : List (List StreamEvent)} {call : List StreamEvent}
    {u : TokenUsage} (hone : (earlier ++ call :: later).flatten.filterMap usageOf = [u])
    (hcall : lastUsage call = some u) :
    CutKeepsCounts (earlier ++ call :: later) ↔
      ∀ e ∈ earlier.flatten, ∀ count ∈ countsRead e, count (some u) = 0 := by
  have hsome : lastUsage call ≠ none := by simp [hcall]
  have hlast : lastUsage (earlier ++ call :: later).flatten = some u := by
    rw [lastUsage, hone]
    rfl
  have hlen := congrArg length hone
  rw [length_singleton] at hlen
  constructor
  · intro h e he count hcount
    obtain ⟨l, hl, hel⟩ := mem_flatten.mp he
    obtain ⟨front, back, rfl⟩ := append_of_mem hl
    obtain ⟨before, behind, rfl⟩ := append_of_mem hel
    have hpos := length_pos_of_lastUsage hsome
    simp only [flatten_append, flatten_cons, filterMap_append, length_append] at hlen
    have hnone {es : List StreamEvent} (hes : (es.filterMap usageOf).length = 0) : lastUsage es = none :=
      getLast?_eq_none_iff.mpr (length_eq_zero_iff.mp hes)
    have hbehind : ((e :: behind).filterMap usageOf).length = 0 := by omega
    rw [filterMap_cons_none (of_mem_countsRead hcount).1] at hbehind
    have hkept := h front before e behind (back ++ call :: later) (by simp) count hcount
    have hlater : lastUsage (back ++ call :: later).flatten = some u := by
      rw [flatten_append, flatten_cons, lastUsage_append, lastUsage_append, hcall,
        hnone (by omega : (later.flatten.filterMap usageOf).length = 0)]
      rfl
    rw [hnone (by omega : (front.flatten.filterMap usageOf).length = 0),
      hnone (by omega : (before.filterMap usageOf).length = 0), hnone hbehind, hlater] at hkept
    exact ((hkept rfl).2 rfl (by simp)).trans (of_mem_countsRead hcount).2
  · intro h front before e behind back heq count hcount hbefore
    obtain ⟨husage, hzero⟩ := of_mem_countsRead hcount
    rw [heq] at hlen hlast
    simp only [flatten_append, flatten_cons, filterMap_append, length_append,
      filterMap_cons_none husage] at hlen
    constructor
    · intro hfront hbehind
      have h₁ := length_pos_of_lastUsage hfront
      have h₂ := length_pos_of_lastUsage hbehind
      omega
    · intro hfront hback
      have hpos := length_pos_of_lastUsage hback
      have hbehind : lastUsage behind = none :=
        getLast?_eq_none_iff.mpr (length_eq_zero_iff.mp (by omega))
      have hnotCall : lastUsage (before ++ e :: behind) = none := by
        rw [lastUsage_append, hbefore, lastUsage, filterMap_cons_none husage, ← lastUsage, hbehind]
        rfl
      -- the call of the usage comes after that of the event
      have hmem : e ∈ earlier.flatten := by
        rcases append_eq_append_iff.mp heq with ⟨mid, hmid, htail⟩ | ⟨mid, hmid, htail⟩
        · cases mid with
          | nil =>
            cases htail
            exact absurd hnotCall hsome
          | cons c mid =>
            cases htail
            rw [hmid, flatten_append, flatten_cons, lastUsage_append, lastUsage_append, hcall] at hfront
            simp at hfront
        · cases mid with
          | nil =>
            cases htail
            exact absurd hnotCall hsome
          | cons c mid =>
            cases htail
            simp [hmid]
      rw [flatten_append, flatten_cons, lastUsage_append, lastUsage_append, hnotCall, hfront] at hlast
      have hu : lastUsage back.flatten = some u := by simpa using hlast
      rw [hu, hbehind, hzero]
      exact h e hmem count hcount

/-- The way the bytes are cut matters exactly for the token counts of each `message_start` and
`message_delta` that is written.  If the stream has one usage, those in the calls before that of the
usage have to be 0. -/
theorem responseBodies_eq_iff {μ : Type} {decode : Framing.Decoder UInt8 μ}
    (hstable : Framing.Stable decode) (unmarshal : μ → Option StreamEvent)
    (requestModel responseID : String) (pieces : List Bytes) :
    let calls := batches decode unmarshal [] pieces
    let cut := (responseBodies decode unmarshal (.init requestModel responseID) pieces).2
    let whole := (responseBodies decode unmarshal (.init requestModel responseID) [pieces.flatten]).2
    (cut = whole ↔ CutKeepsCounts calls) ∧
      ∀ earlier call later u, calls = earlier ++ call :: later →
        calls.flatten.filterMap usageOf = [u] → lastUsage call = some u →
        (cut = whole ↔ ∀ e ∈ earlier.flatten, ∀ count ∈ countsRead e, count (some u) = 0) := by
  intro calls cut whole
  have hwhole : batches decode unmarshal [] [pieces.flatten] =
      [(batches decode unmarshal [] pieces).flatten] := by
    have hfeed := (Framing.feed_flatten hstable [] pieces hstable.decode_nil).1
    unfold batches
    rw [← filterMap_flatten, hfeed]
    simp [Framing.feed]
  have hiff : cut = whole ↔ CutKeepsCounts calls := by
    rw [← cutKeepsCounts_iff, ← emitAll_eq_iff (a := .init requestModel responseID) rfl, ← hwhole]
    · simp only [cut, whole, responseBodies_out]
      rfl
    · rw [map_fst_annotateBatches, map_fst_annotateBatches, flatten_singleton]
  refine ⟨hiff, ?_⟩
  intro earlier call later u hcalls hone hcall
  rw [hiff, hcalls]
  exact cutKeepsCounts_iff_of_one (hcalls ▸ hone) hcall

/-! ## Event-stream frames -/

/-- A frame starts with its length, four bytes, and is at least 16 bytes long. -/
def decodeFrame : Framing.Decoder UInt8 Bytes
  | b₃ :: b₂ :: b₁ :: b₀ :: rest =>
    let length := ((b₃.toNat * 256 + b₂.toNat) * 256 + b₁.toNat) * 256 + b₀.toNat
    if 16 ≤ length ∧ length ≤ rest.length + 4 then
      some ((b₃ :: b₂ :: b₁ :: b₀ :: rest).take length, (b₃ :: b₂ :: b₁ :: b₀ :: rest).drop length)
    else none
  | _ => none

theorem stable_decodeFrame : Framing.Stable decodeFrame where
  shorter := by
    intro s m rest h
    unfold decodeFrame at h
    split at h
    · dsimp only at h
      split at h
      next hlength =>
        cases h
        simp only [length_drop, length_cons]
        omega
      · cases h
    · cases h
  extend := by
    intro s m rest h more
    unfold decodeFrame at h
    split at h
    next b₃ b₂ b₁ b₀ tail =>
      dsimp only at h
      split at h
      next hlength =>
        cases h
        have hle : ((b₃.toNat * 256 + b₂.toNat) * 256 + b₁.toNat) * 256 + b₀.toNat ≤
            (b₃ :: b₂ :: b₁ :: b₀ :: tail).length := by
          simpa using hlength.2
        have htake : ((b₃ :: b₂ :: b₁ :: b₀ :: tail) ++ more).take _ = _ :=
          take_append_of_le_length hle
        have hdrop : ((b₃ :: b₂ :: b₁ :: b₀ :: tail) ++ more).drop _ = _ :=
          drop_append_of_le_length hle
        rw [← htake, ← hdrop]
        simp only [cons_append, decodeFrame, length_append]
        rw [if_pos ⟨hlength.1, by omega⟩]
      · cases h
    · cases h

/-- A frame with the event type as its only header, and its two checksums. -/
def frame (eventType payload : String) (preludeCRC messageCRC : Bytes) : Bytes :=
  [0, 0, 0, (eventType.length + payload.length + 31).toUInt8, 0, 0, 0, (eventType.length + 15).toUInt8] ++
    preludeCRC ++ [11] ++ SSE.ascii ":event-type" ++ [7, 0, eventType.length.toUInt8] ++
    SSE.ascii eventType ++ SSE.ascii payload ++ messageCRC

def noEvent : StreamEvent :=
  { eventType := .other "", contentBlockIndex := 0, delta := none, role := none, stopReason := none,
    usage := none, start := none, serviceTier := none }

def messageStartFrame : Bytes × StreamEvent :=
  (frame "messageStart" "\x7b\"role\":\"assistant\"\x7d" [204, 54, 57, 210] [19, 188, 221, 218],
    { noEvent with eventType := .messageStart, role := some "assistant" })

def messageStopFrame : Bytes × StreamEvent :=
  (frame "messageStop" "\x7b\"stopReason\":\"end_turn\"\x7d" [135, 19, 4, 138] [40, 119, 95, 69],
    { noEvent with eventType := .messageStop, stopReason := some .endTurn })

def metadataFrame : Bytes × StreamEvent :=
  (frame "metadata" "\x7b\"usage\":\x7b\"inputTokens\":7,\"outputTokens\":9\x7d\x7d"
      [153, 66, 239, 181] [43, 4, 169, 116],
    { noEvent with eventType := .metadata, usage := some ⟨7, 9, none, none⟩ })

/-- Unmarshalling for the frames listed. -/
def unmarshalListed (frames : List (Bytes × StreamEvent)) (bytes : Bytes) : Option StreamEvent :=
  (frames.find? (·.1 == bytes)).map (·.2)

def unmarshalFrame : Bytes → Option StreamEvent :=
  unmarshalListed [messageStartFrame, messageStopFrame, metadataFrame]

/-- A frame that is cut in two is completed before anything is written. -/
theorem cut_frame_same_output :
    Framing.Stable decodeFrame ∧
    (responseBodies decodeFrame unmarshalFrame (.init "m" "id")
        [messageStartFrame.1.take 20,
          messageStartFrame.1.drop 20 ++ messageStopFrame.1 ++ metadataFrame.1]).2 =
      (responseBodies decodeFrame unmarshalFrame (.init "m" "id")
        [[messageStartFrame.1.take 20,
          messageStartFrame.1.drop 20 ++ messageStopFrame.1 ++ metadataFrame.1].flatten]).2 := by
  have hbatches : batches decodeFrame unmarshalFrame [] [messageStartFrame.1.take 20,
      messageStartFrame.1.drop 20 ++ messageStopFrame.1 ++ metadataFrame.1] =
      [[], [messageStartFrame.2, messageStopFrame.2, metadataFrame.2]] := by
    decide +kernel
  refine ⟨stable_decodeFrame, ?_⟩
  refine ((responseBodies_eq_iff stable_decodeFrame unmarshalFrame "m" "id" _).2 [[]] _ [] ⟨7, 9, none, none⟩
    hbatches ?_ ?_).mpr ?_
  · rw [hbatches]
    decide
  · decide
  · decide

/-- The usage comes after everything else, and a call of its own is too late for it. -/
theorem late_usage_is_not_counted :
    Framing.Stable decodeFrame ∧
    (responseBodies decodeFrame unmarshalFrame (.init "m" "id")
        [messageStartFrame.1 ++ messageStopFrame.1, metadataFrame.1]).2 =
      [.messageStart ⟨"id", "assistant", "m", 0, 0⟩, .messageDelta .endTurn none 0, .messageStop] ∧
    (responseBodies decodeFrame unmarshalFrame (.init "m" "id")
        [messageStartFrame.1 ++ messageStopFrame.1 ++ metadataFrame.1]).2 =
      [.messageStart ⟨"id", "assistant", "m", 7, 0⟩, .messageDelta .endTurn none 9,
        .messageStop] :=
  ⟨stable_decodeFrame, by decide +kernel, by decide +kernel⟩

end AgentRouter.BedrockStream
