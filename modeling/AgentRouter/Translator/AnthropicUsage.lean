import AgentRouter.Lib.Registers
import AgentRouter.Translator.AnthropicParser

/-!
# AnthropicUsage: the tokens of an Anthropic stream, counted by two translators

The events of an Anthropic backend go to a client with the Anthropic API as they are, and their usage
is read in passing (`reflectStreamingEvent`); for a client with the OpenAI API `anthropicStreamParser`
translates them.  Both add the tokens of the cache to those of the input and take them off again where
a later event has only some of the counts.  As long as nothing overflows this gives back what was
added:

    both report the same counts
      ↔  for each count, the last one the translator takes is the last one the parser takes
      (usage_agrees_iff)
    the parser has the sum of the latest counts after each event   (hasLatest_of_fits)

The translator cannot tell a zero from a count that is missing; the parser takes the output tokens of
a `message_start` never and its other counts in any case.
-/

namespace AgentRouter.AnthropicUsage

open AnthropicParser Emit Metrics Registers List

/-! ## Events -/

/-- The counts of a usage that are there and not null. -/
structure UsageCounts where
  inputTokens : Option Int
  outputTokens : Option Int
  cacheReadInputTokens : Option Int
  cacheCreationInputTokens : Option Int
  thinkingTokens : Option Int

/-- The usage of a `message_start` may be missing; to a `message_delta` this is a usage without
counts. -/
inductive UsageEvent where
  | messageStart (id : String) (usage : Option UsageCounts)
  | messageDelta (stopReason : Option SourceStopReason) (usage : UsageCounts)

/-! ## The translator -/

/-- A count above zero takes the place of the one before. -/
def ifPositive (count : Option Int) (before : UInt32) : UInt32 :=
  if 0 < count.getD 0 then uint32 (count.getD 0) else before

/-- The input tokens so far without those of the cache. -/
def recoveredInput (u : TokenUsage) : UInt32 :=
  let cacheRead := u.cachedInputTokens.getD 0
  let cacheCreation := u.cacheCreationInputTokens.getD 0
  let unifiedInput := u.inputTokens.getD 0
  if cacheRead + cacheCreation ≤ unifiedInput then unifiedInput - cacheRead - cacheCreation else 0

def reflectMessageDelta (u : TokenUsage) (m : UsageCounts) : TokenUsage :=
  let u := if 0 ≤ m.outputTokens.getD 0 then
      { u with outputTokens := some (uint32 (m.outputTokens.getD 0)) }
    else u
  if 0 < m.inputTokens.getD 0 ∨ 0 < m.cacheReadInputTokens.getD 0 ∨
      0 < m.cacheCreationInputTokens.getD 0 then
    let rawInput := ifPositive m.inputTokens (recoveredInput u)
    let cacheRead := ifPositive m.cacheReadInputTokens (u.cachedInputTokens.getD 0)
    let cacheCreation := ifPositive m.cacheCreationInputTokens (u.cacheCreationInputTokens.getD 0)
    { u with
      cachedInputTokens := some cacheRead
      cacheCreationInputTokens := some cacheCreation
      inputTokens := some (rawInput + cacheRead + cacheCreation) }
  else u

def reflectStreamingEvent (u : TokenUsage) : UsageEvent → TokenUsage
  | .messageStart _ none => u
  | .messageStart _ (some m) =>
    u.override (extractTokenUsageFromExplicitCaching (m.inputTokens.getD 0) (m.outputTokens.getD 0)
      (some (m.cacheReadInputTokens.getD 0)) (some (m.cacheCreationInputTokens.getD 0)))
  | .messageDelta _ m => reflectMessageDelta u m

def updateTotalTokens (u : TokenUsage) : TokenUsage :=
  match u.outputTokens with
  | none => u
  | some output =>
    { u with
      inputTokens := some (u.inputTokens.getD 0)
      cachedInputTokens := some (u.cachedInputTokens.getD 0)
      cacheCreationInputTokens := some (u.cacheCreationInputTokens.getD 0)
      totalTokens := some (u.inputTokens.getD 0 + output) }

/-- A call with some events. -/
def extractUsage (u : TokenUsage) (events : List UsageEvent) : TokenUsage :=
  updateTotalTokens (events.foldl reflectStreamingEvent u)

/-- What the last of the calls for a stream reports. -/
def translatorUsage (calls : List (List UsageEvent)) : TokenUsage := calls.foldl extractUsage .zero

/-! ## The parser -/

def messageUsage (usage : Option UsageCounts) : MessageUsage where
  inputTokens := (usage.bind (·.inputTokens)).getD 0
  outputTokens := (usage.bind (·.outputTokens)).getD 0
  cacheReadInputTokens := (usage.bind (·.cacheReadInputTokens)).getD 0
  cacheCreationInputTokens := (usage.bind (·.cacheCreationInputTokens)).getD 0

def sourceEvent {ι : Type} : UsageEvent → SourceEvent ι
  | .messageStart id usage => .messageStart id (messageUsage usage)
  | .messageDelta stopReason m => .messageDelta stopReason
      ⟨m.inputTokens, m.cacheReadInputTokens, m.cacheCreationInputTokens, m.outputTokens,
        m.thinkingTokens⟩

/-- The parser reads the events and comes to the end of the stream. -/
def parse {ι : Type} (o : JsonObjects ι) (order : IterOrder Int StreamingToolCall)
    (requestModel : String) (events : List UsageEvent) : Except StreamError Parser :=
  ((runAll (writeEvent o) (newAnthropicStreamParser requestModel) (events.map sourceEvent)).andThen
    (finish order)).result

/-! ## Counts -/

inductive Field where
  | input | cacheRead | cacheCreation | output
  deriving DecidableEq

def UsageCounts.get (m : UsageCounts) : Field → Option Int
  | .input => m.inputTokens
  | .cacheRead => m.cacheReadInputTokens
  | .cacheCreation => m.cacheCreationInputTokens
  | .output => m.outputTokens

def UsageEvent.count (f : Field) : UsageEvent → Option Int
  | .messageStart _ usage => usage.bind (·.get f)
  | .messageDelta _ m => m.get f

/-- The count that the translator takes from an event. -/
def takenByTranslator (f : Field) : UsageEvent → Option Int
  | .messageStart _ none => none
  | .messageStart _ (some m) => some ((m.get f).getD 0)
  | .messageDelta _ m =>
    if f = .output then some ((m.get f).getD 0) else (m.get f).filter fun n => 0 < n

/-- The count that the parser takes from an event. -/
def takenByParser (f : Field) : UsageEvent → Option Int
  | .messageStart _ usage => if f = .output then none else some ((usage.bind (·.get f)).getD 0)
  | .messageDelta _ m => m.get f

/-- No count is negative, and the sums of counts are below 2³². -/
def InRange (events : List UsageEvent) : Prop :=
  ∃ limit : Field → Int, (∀ f, 0 ≤ limit f) ∧
    limit .input + limit .cacheRead + limit .cacheCreation + limit .output < 2 ^ 32 ∧
    ∀ e ∈ events, ∀ f, ∀ n ∈ e.count f, 0 ≤ n ∧ n ≤ limit f

/-- The same counts; one that is not set is zero. -/
structure SameCounts (u v : TokenUsage) : Prop where
  input : u.inputTokens.getD 0 = v.inputTokens.getD 0
  cached : u.cachedInputTokens.getD 0 = v.cachedInputTokens.getD 0
  creation : u.cacheCreationInputTokens.getD 0 = v.cacheCreationInputTokens.getD 0
  output : u.outputTokens.getD 0 = v.outputTokens.getD 0
  total : u.totalTokens.getD 0 = v.totalTokens.getD 0

/-! ## Usages that stand for counts -/

/-- Counts that are in range. -/
structure Bounded (limit r : Field → Int) : Prop where
  sum : limit .input + limit .cacheRead + limit .cacheCreation + limit .output < 2 ^ 32
  nonneg : ∀ f, 0 ≤ r f
  le : ∀ f, r f ≤ limit f

/-- The sum of the input counts is a 32-bit number. -/
structure InputFits (r : Field → Int) : Prop where
  nonneg : ∀ f, 0 ≤ r f
  sum_lt : r .input + r .cacheRead + r .cacheCreation < 2 ^ 32

/-- The tokens of the cache are part of the input tokens. -/
structure Holds (u : TokenUsage) (r : Field → Int) : Prop where
  input : u.inputTokens.getD 0 = uint32 (r .input + r .cacheRead + r .cacheCreation)
  cached : u.cachedInputTokens.getD 0 = uint32 (r .cacheRead)
  creation : u.cacheCreationInputTokens.getD 0 = uint32 (r .cacheCreation)
  output : u.outputTokens.getD 0 = uint32 (r .output)

variable {limit r : Field → Int} {u v : TokenUsage}

theorem Bounded.sum_lt (hr : Bounded limit r) :
    r .input + r .cacheRead + r .cacheCreation + r .output < 2 ^ 32 := by
  have hsum := hr.sum
  have hinput := hr.le .input
  have hread := hr.le .cacheRead
  have hcreation := hr.le .cacheCreation
  have houtput := hr.le .output
  omega

theorem Bounded.inputFits (hr : Bounded limit r) : InputFits r := by
  have hsum := hr.sum_lt
  have houtput := hr.nonneg .output
  exact ⟨hr.nonneg, by omega⟩

variable {r' : Field → Int}

theorem Holds.with_output (h : Holds u r) (hkept : ∀ f, f ≠ .output → r' f = r f)
    (hinput : v.inputTokens = u.inputTokens) (hcached : v.cachedInputTokens = u.cachedInputTokens)
    (hcreation : v.cacheCreationInputTokens = u.cacheCreationInputTokens)
    (houtput : v.outputTokens.getD 0 = uint32 (r' .output)) : Holds v r' where
  input := by
    rw [hinput, hkept _ (by decide), hkept _ (by decide), hkept _ (by decide)]
    exact h.input
  cached := by
    rw [hcached, hkept _ (by decide)]
    exact h.cached
  creation := by
    rw [hcreation, hkept _ (by decide)]
    exact h.creation
  output := houtput

theorem holds_zero : Holds .zero fun _ => 0 := ⟨rfl, rfl, rfl, rfl⟩

/-! ### The translator -/

theorem Holds.recoveredInput_eq (h : Holds u r) (hr : InputFits r) :
    recoveredInput u = uint32 (r .input) := by
  have hinput := hr.nonneg .input
  have hread := hr.nonneg .cacheRead
  have hcreation := hr.nonneg .cacheCreation
  have hsum := hr.sum_lt
  have hle : uint32 (r .cacheRead + r .cacheCreation) ≤ uint32 (r .input + r .cacheRead + r .cacheCreation) :=
    uint32_le (by omega) (by omega) (by omega)
  simp only [recoveredInput]
  rw [h.input, h.cached, h.creation, ← uint32_add, if_pos hle, ← uint32_sub, ← uint32_sub]
  congr 1
  omega

theorem ifPositive_uint32 (count : Option Int) (n : Int) :
    ifPositive count (uint32 n) = uint32 ((count.filter fun c => 0 < c).getD n) := by
  cases count with
  | none => rfl
  | some c =>
    by_cases hc : 0 < c
    · simp [ifPositive, Option.filter, hc]
    · simp [ifPositive, Option.filter, hc]

variable {count : Option Int}

theorem filter_of_not_pos (h : ¬ 0 < count.getD 0) : (count.filter fun c => 0 < c) = none := by
  cases count with
  | none => rfl
  | some c => simpa using h

variable {m : UsageCounts}

theorem holds_reflectMessageDelta (h : Holds u r) (hr : InputFits r)
    (stopReason : Option SourceStopReason) (hm : 0 ≤ m.outputTokens.getD 0) :
    Holds (reflectMessageDelta u m) (write takenByTranslator r (.messageDelta stopReason m)) := by
  simp only [reflectMessageDelta, if_pos hm]
  by_cases hany : 0 < m.inputTokens.getD 0 ∨ 0 < m.cacheReadInputTokens.getD 0 ∨
      0 < m.cacheCreationInputTokens.getD 0
  · have hraw : ifPositive m.inputTokens (recoveredInput
        { u with outputTokens := some (uint32 (m.outputTokens.getD 0)) }) =
          uint32 ((m.inputTokens.filter fun n => 0 < n).getD (r .input)) := by
      rw [← ifPositive_uint32, ← h.recoveredInput_eq hr]
      rfl
    rw [if_pos hany, hraw, h.cached, h.creation, ifPositive_uint32, ifPositive_uint32, ← uint32_add,
      ← uint32_add]
    exact ⟨rfl, rfl, rfl, rfl⟩
  · rw [if_neg hany]
    obtain ⟨hinput, hread, hcreation⟩ : _ ∧ _ ∧ _ := by simpa only [not_or] using hany
    have hkept : ∀ f, f ≠ .output → write takenByTranslator r (.messageDelta stopReason m) f = r f := by
      intro f hf
      have hnone : ((m.get f).filter fun n => 0 < n) = none := by
        cases f with
        | input => exact filter_of_not_pos hinput
        | cacheRead => exact filter_of_not_pos hread
        | cacheCreation => exact filter_of_not_pos hcreation
        | output => exact absurd rfl hf
      simp only [write, takenByTranslator, if_neg hf, hnone, Option.getD_none]
    exact h.with_output hkept rfl rfl rfl rfl

theorem nonneg_output {stopReason : Option SourceStopReason}
    (he : ∀ f, ∀ n ∈ (UsageEvent.messageDelta stopReason m).count f, 0 ≤ n) :
    0 ≤ m.outputTokens.getD 0 := by
  cases hm : m.outputTokens with
  | none => exact Int.le_refl 0
  | some n => exact he .output n hm

variable {e : UsageEvent}

theorem holds_reflectStreamingEvent (h : Holds u r) (hr : InputFits r) (he : ∀ f, ∀ n ∈ e.count f, 0 ≤ n) :
    Holds (reflectStreamingEvent u e) (write takenByTranslator r e) := by
  cases e with
  | messageStart id usage =>
    cases usage with
    | none => exact h
    | some m =>
      refine ⟨?_, rfl, rfl, rfl⟩
      show uint32 _ = uint32 _
      congr 1
      simp only [write, takenByTranslator, Option.getD_some, UsageCounts.get]
      omega
  | messageDelta stopReason m =>
    exact holds_reflectMessageDelta h hr stopReason (nonneg_output he)

/-- Nothing is set without the output tokens. -/
def OutputFirst (u : TokenUsage) : Prop :=
  u.outputTokens = none → u.inputTokens = none ∧ u.totalTokens = none

theorem outputFirst_reflectStreamingEvent (h : OutputFirst u) (he : ∀ f, ∀ n ∈ e.count f, 0 ≤ n) :
    OutputFirst (reflectStreamingEvent u e) := by
  cases e with
  | messageStart id usage =>
    cases usage with
    | none => exact h
    | some m => exact fun hnone => nomatch hnone
  | messageDelta stopReason m =>
    have hset : (reflectMessageDelta u m).outputTokens = some (uint32 (m.outputTokens.getD 0)) := by
      simp only [reflectMessageDelta, if_pos (nonneg_output he)]
      split <;> rfl
    intro hnone
    rw [reflectStreamingEvent, hset] at hnone
    cases hnone

theorem holds_updateTotalTokens (h : Holds u r) : Holds (updateTotalTokens u) r := by
  cases hout : u.outputTokens with
  | none => simpa only [updateTotalTokens, hout] using h
  | some output =>
    have houtput := h.output
    rw [hout] at houtput
    simp only [updateTotalTokens, hout]
    exact ⟨h.input, h.cached, h.creation, houtput⟩

/-- The total is the sum of the input and the output. -/
def Totalled (u : TokenUsage) : Prop :=
  u.totalTokens.getD 0 = u.inputTokens.getD 0 + u.outputTokens.getD 0

theorem totalled_updateTotalTokens (h : OutputFirst u) : Totalled (updateTotalTokens u) := by
  cases hout : u.outputTokens with
  | none =>
    obtain ⟨hinput, htotal⟩ := h hout
    simp only [Totalled, updateTotalTokens, hout, hinput, htotal]
    rfl
  | some output => simp only [Totalled, updateTotalTokens, hout, Option.getD_some]

theorem outputFirst_updateTotalTokens (h : OutputFirst u) : OutputFirst (updateTotalTokens u) := by
  cases hout : u.outputTokens with
  | none => simpa only [updateTotalTokens, hout] using h
  | some output =>
    intro hnone
    simp only [updateTotalTokens, hout] at hnone
    cases hnone

/-! ### The parser -/

/-- The parser takes the tokens of the cache off one after the other. -/
theorem Holds.baseInputTokens_eq (h : Holds u r) (hr : InputFits r) :
    baseInputTokens u = uint32 (r .input) := by
  have hinput := hr.nonneg .input
  have hread := hr.nonneg .cacheRead
  have hcreation := hr.nonneg .cacheCreation
  have hsum := hr.sum_lt
  have hoff : ∀ {m n : Int} {count : Option UInt32}, count.getD 0 = uint32 n → 0 ≤ n → n ≤ m →
      m < 2 ^ 32 → withoutTokens (uint32 m) count = uint32 (m - n) := by
    intro m n count hcount hn hle hm
    cases count with
    | none =>
      have hzero : n = 0 :=
        ((uint32_inj (Int.le_refl 0) (by decide) hn (by omega)).mp hcount).symm
      rw [hzero, Int.sub_zero]
      rfl
    | some c =>
      have hc : c = uint32 n := hcount
      rw [withoutTokens, hc, if_pos (uint32_le hn hle hm), uint32_sub]
  have hunified := h.input
  unfold baseInputTokens
  cases hu : u.inputTokens with
  | none =>
    rw [hu] at hunified
    have hzero := (uint32_inj (Int.le_refl 0) (by decide) (by omega) (by omega)).mp hunified
    have hnil : r .input = 0 := by omega
    rw [hnil]
    rfl
  | some n =>
    rw [hu] at hunified
    have hn : n = uint32 (r .input + r .cacheRead + r .cacheCreation) := hunified
    simp only [hn]
    rw [hoff h.cached hread (by omega) (by omega), hoff h.creation hcreation (by omega) (by omega)]
    congr 1
    omega

theorem reported_of_nonneg (h : ∀ n ∈ count, 0 ≤ n) : reported count = count.map uint32 := by
  cases count with
  | none => rfl
  | some n => simp [reported, Option.filter, h n rfl]

theorem getD_map_uint32 (count : Option Int) (n : Int) :
    (count.map uint32).getD (uint32 n) = uint32 (count.getD n) := by
  cases count with
  | none => rfl
  | some c => rfl

variable {n : Int}

theorem getD_or_uint32 {before : Option UInt32} (h : before.getD 0 = uint32 n) :
    ((count.map uint32).or before).getD 0 = uint32 (count.getD n) := by
  cases count with
  | none => exact h
  | some c => rfl

/-- One event, as `handleAnthropicStreamEvent` counts it. -/
def noteUsage (u : TokenUsage) : UsageEvent → TokenUsage
  | .messageStart _ usage => noteStartUsage u (messageUsage usage)
  | .messageDelta _ m => noteDeltaUsage u
      ⟨m.inputTokens, m.cacheReadInputTokens, m.cacheCreationInputTokens, m.outputTokens,
        m.thinkingTokens⟩

theorem holds_noteDelta (h : Holds u r) (hr : InputFits r) (stopReason : Option SourceStopReason)
    (he : ∀ f, ∀ n ∈ m.get f, 0 ≤ n) :
    Holds (noteUsage u (.messageDelta stopReason m))
      (write takenByParser r (.messageDelta stopReason m)) := by
  have houtput : ((m.outputTokens.map uint32).or u.outputTokens).getD 0 =
      uint32 (m.outputTokens.getD (r .output)) := getD_or_uint32 h.output
  have hinput : reported m.inputTokens = m.inputTokens.map uint32 :=
    reported_of_nonneg (he .input)
  have hread : reported m.cacheReadInputTokens = m.cacheReadInputTokens.map uint32 :=
    reported_of_nonneg (he .cacheRead)
  have hcreation : reported m.cacheCreationInputTokens = m.cacheCreationInputTokens.map uint32 :=
    reported_of_nonneg (he .cacheCreation)
  simp only [noteUsage, noteDeltaUsage, updateInputUsageFromMessageDelta, hinput, hread, hcreation]
  split
  · next hnone =>
    obtain ⟨hinput, hread, hcreation⟩ := hnone
    have hkept : ∀ f, f ≠ .output → write takenByParser r (.messageDelta stopReason m) f = r f := by
      intro f hf
      have hmissing : m.get f = none := by
        cases f with
        | input => exact Option.map_eq_none_iff.mp hinput
        | cacheRead => exact Option.map_eq_none_iff.mp hread
        | cacheCreation => exact Option.map_eq_none_iff.mp hcreation
        | output => exact absurd rfl hf
      simp only [write, takenByParser, hmissing, Option.getD_none]
    exact h.with_output hkept rfl rfl rfl houtput
  · refine ⟨?_, getD_or_uint32 h.cached, getD_or_uint32 h.creation, houtput⟩
    show _ + _ + _ = uint32 _
    rw [h.baseInputTokens_eq hr, h.cached, h.creation]
    simp only [getD_map_uint32, ← uint32_add]
    rfl

theorem holds_noteUsage (h : Holds u r) (hr : InputFits r) (he : ∀ f, ∀ n ∈ e.count f, 0 ≤ n) :
    Holds (noteUsage u e) (write takenByParser r e) := by
  cases e with
  | messageStart id usage =>
    refine ⟨?_, rfl, rfl, h.output⟩
    show uint32 _ = uint32 _
    congr 1
    simp only [write, takenByParser, Option.getD_some, messageUsage, reduceCtorEq, if_false, UsageCounts.get]
    omega
  | messageDelta stopReason m => exact holds_noteDelta h hr stopReason he

/-! ## Whole streams -/

theorem mem_takenByTranslator {f : Field} (h : n ∈ takenByTranslator f e) : n = 0 ∨ n ∈ e.count f := by
  have hgetD : ∀ {count : Option Int}, some (count.getD 0) = some n → n = 0 ∨ n ∈ count := by
    intro count hn
    cases count with
    | none => exact .inl (Option.some.inj hn).symm
    | some c => exact .inr hn
  cases e with
  | messageStart id usage =>
    cases usage with
    | none => cases h
    | some m => exact hgetD h
  | messageDelta stopReason m =>
    simp only [takenByTranslator] at h
    split at h
    · exact hgetD h
    · exact .inr (Option.mem_filter_iff.mp h).1

theorem mem_takenByParser {f : Field} (h : n ∈ takenByParser f e) : n = 0 ∨ n ∈ e.count f := by
  cases e with
  | messageStart id usage =>
    simp only [takenByParser] at h
    split at h
    · cases h
    · cases hcount : usage.bind (·.get f) with
      | none =>
        rw [hcount] at h
        exact .inl (Option.some.inj h).symm
      | some c =>
        rw [hcount] at h
        exact .inr (hcount.trans h)
  | messageDelta stopReason m => exact .inr h

theorem Bounded.write {w : Field → UsageEvent → Option Int} (hr : Bounded limit r)
    (hw : ∀ f, ∀ n ∈ w f e, n = 0 ∨ n ∈ e.count f) (he : ∀ f, ∀ n ∈ e.count f, 0 ≤ n ∧ n ≤ limit f) :
    Bounded limit (Registers.write w r e) := by
  have hvalue : ∀ f, 0 ≤ Registers.write w r e f ∧ Registers.write w r e f ≤ limit f := by
    intro f
    have hnonneg := hr.nonneg f
    have hle := hr.le f
    unfold Registers.write
    cases hn : w f e with
    | none => exact ⟨hnonneg, hle⟩
    | some n =>
      show 0 ≤ n ∧ n ≤ limit f
      rcases hw f n hn with rfl | hmem
      · omega
      · exact he f n hmem
  exact ⟨hr.sum, fun f => (hvalue f).1, fun f => (hvalue f).2⟩

/-- What the translator keeps between events. -/
structure TranslatorHolds (limit : Field → Int) (u : TokenUsage) (r : Field → Int) : Prop where
  holds : Holds u r
  bounded : Bounded limit r
  outputFirst : OutputFirst u

variable {events : List UsageEvent} (hrange : ∀ e ∈ events, ∀ f, ∀ n ∈ e.count f, 0 ≤ n ∧ n ≤ limit f)

include hrange in
theorem translatorHolds_foldl (h : TranslatorHolds limit u r) :
    TranslatorHolds limit (events.foldl reflectStreamingEvent u)
      (fun f => lastOf (takenByTranslator f) (r f) events) := by
  refine represents_foldl takenByTranslator (TranslatorHolds limit) (fun e he u r h => ?_) h
  have hnonneg : ∀ f, ∀ n ∈ e.count f, 0 ≤ n := fun f n hn => (hrange e he f n hn).1
  exact ⟨holds_reflectStreamingEvent h.holds h.bounded.inputFits hnonneg,
    h.bounded.write (fun _ _ => mem_takenByTranslator) (hrange e he),
    outputFirst_reflectStreamingEvent h.outputFirst hnonneg⟩

theorem translatorHolds_calls {calls : List (List UsageEvent)}
    (hrange : ∀ e ∈ calls.flatten, ∀ f, ∀ n ∈ e.count f, 0 ≤ n ∧ n ≤ limit f)
    (h : TranslatorHolds limit u r) (htotal : Totalled u) :
    TranslatorHolds limit (calls.foldl extractUsage u)
        (fun f => lastOf (takenByTranslator f) (r f) calls.flatten) ∧
      Totalled (calls.foldl extractUsage u) := by
  induction calls generalizing u r with
  | nil => exact ⟨h, htotal⟩
  | cons call calls ih =>
    have hcall := translatorHolds_foldl (fun e he => hrange e (mem_append_left _ he)) h
    simp only [foldl_cons, flatten_cons, lastOf_append]
    exact ih (fun e he => hrange e (mem_append_right _ he))
      ⟨holds_updateTotalTokens hcall.holds, hcall.bounded, outputFirst_updateTotalTokens hcall.outputFirst⟩
      (totalled_updateTotalTokens hcall.outputFirst)

include hrange in
theorem parserHolds_foldl (h : Holds u r ∧ Bounded limit r) :
    Holds (events.foldl noteUsage u) (fun f => lastOf (takenByParser f) (r f) events) ∧
      Bounded limit (fun f => lastOf (takenByParser f) (r f) events) := by
  refine represents_foldl takenByParser (fun u r => Holds u r ∧ Bounded limit r) (fun e he u r h => ?_) h
  have hnonneg : ∀ f, ∀ n ∈ e.count f, 0 ≤ n := fun f n hn => (hrange e he f n hn).1
  exact ⟨holds_noteUsage h.1 h.2.inputFits hnonneg, h.2.write (fun _ _ => mem_takenByParser) (hrange e he)⟩

section

variable {ι : Type} (o : JsonObjects ι) (order : IterOrder Int StreamingToolCall)

theorem runAll_sourceEvent (p : Parser) (events : List UsageEvent) :
    ∃ p', (runAll (writeEvent o) p (events.map sourceEvent)).result = .ok p' ∧
      p'.tokenUsage = events.foldl noteUsage p.tokenUsage := by
  induction events generalizing p with
  | nil => exact ⟨p, rfl, rfl⟩
  | cons e events ih =>
    have hstep : ∃ p', writeEvent o p (sourceEvent e) = .silent p' ∧
        p'.tokenUsage = noteUsage p.tokenUsage e := by
      cases e with
      | messageStart id usage | messageDelta stopReason m => exact ⟨_, rfl, rfl⟩
    obtain ⟨p', hwrite, husage⟩ := hstep
    obtain ⟨p'', hresult, husage'⟩ := ih p'
    refine ⟨p'', ?_, ?_⟩
    · rw [map_cons, runAll_cons, hwrite]
      exact hresult
    · rw [husage', husage, foldl_cons]

/-- The usage at the end of the stream. -/
def parserUsage (events : List UsageEvent) : TokenUsage :=
  let u := events.foldl noteUsage .zero
  { u with totalTokens := some (u.inputTokens.getD 0 + u.outputTokens.getD 0) }

theorem parse_eq (requestModel : String) (events : List UsageEvent) :
    ∃ p, parse o order requestModel events = .ok p ∧ p.tokenUsage = parserUsage events := by
  obtain ⟨p, hresult, husage⟩ := runAll_sourceEvent o (newAnthropicStreamParser requestModel) events
  have hfinish : parse o order requestModel events = (finish order p).result := by
    rw [parse, Outcome.andThen, hresult]
  have hzero : p.tokenUsage = events.foldl noteUsage .zero := husage
  rw [hfinish, parserUsage, ← hzero]
  exact ⟨_, rfl, rfl⟩

end

theorem Holds.eq_of_sameCounts (h : Holds u r) (hr : Bounded limit r) (h' : Holds v r')
    (hr' : Bounded limit r') (hsame : SameCounts u v) (f : Field) : r f = r' f := by
  have hsum := hr.sum_lt
  have hsum' := hr'.sum_lt
  have hi := hr.nonneg .input
  have hc := hr.nonneg .cacheRead
  have hw := hr.nonneg .cacheCreation
  have ho := hr.nonneg .output
  have hi' := hr'.nonneg .input
  have hc' := hr'.nonneg .cacheRead
  have hw' := hr'.nonneg .cacheCreation
  have ho' := hr'.nonneg .output
  have hcached := hsame.cached
  rw [h.cached, h'.cached, uint32_inj hc (by omega) hc' (by omega)] at hcached
  have hcreation := hsame.creation
  rw [h.creation, h'.creation, uint32_inj hw (by omega) hw' (by omega)] at hcreation
  have houtput := hsame.output
  rw [h.output, h'.output, uint32_inj ho (by omega) ho' (by omega)] at houtput
  have hinput := hsame.input
  rw [h.input, h'.input, uint32_inj (by omega) (by omega) (by omega) (by omega)] at hinput
  cases f with
  | input => omega
  | cacheRead => exact hcached
  | cacheCreation => exact hcreation
  | output => exact houtput

theorem Holds.sameCounts_iff (h : Holds u r) (hr : Bounded limit r) (h' : Holds v r')
    (hr' : Bounded limit r') (ht : Totalled u) (ht' : Totalled v) :
    SameCounts u v ↔ ∀ f, r f = r' f := by
  refine ⟨h.eq_of_sameCounts hr h' hr', fun heq => ?_⟩
  have hinput : u.inputTokens.getD 0 = v.inputTokens.getD 0 := by
    rw [h.input, h'.input, heq, heq, heq]
  have houtput : u.outputTokens.getD 0 = v.outputTokens.getD 0 := by
    rw [h.output, h'.output, heq]
  refine ⟨hinput, ?_, ?_, houtput, ?_⟩
  · rw [h.cached, h'.cached, heq]
  · rw [h.creation, h'.creation, heq]
  · rw [ht, ht', hinput, houtput]

/-! ## Top theorem -/

/-- For every sequence of events and every way in which they come in calls. -/
theorem usage_agrees_iff {ι : Type} (o : JsonObjects ι) (order : IterOrder Int StreamingToolCall)
    (requestModel : String) (calls : List (List UsageEvent)) (hrange : InRange calls.flatten) :
    (∃ p, parse o order requestModel calls.flatten = .ok p ∧
        SameCounts (translatorUsage calls) p.tokenUsage) ↔
      ∀ f, lastOf (takenByTranslator f) 0 calls.flatten = lastOf (takenByParser f) 0 calls.flatten := by
  obtain ⟨limit, hlimit, hsum, hcounts⟩ := hrange
  have hzero : Bounded limit fun _ => 0 := ⟨hsum, fun _ => Int.le_refl 0, hlimit⟩
  obtain ⟨htranslator, htotal⟩ := translatorHolds_calls hcounts
    ⟨holds_zero, hzero, fun _ => ⟨rfl, rfl⟩⟩ (rfl : Totalled .zero)
  obtain ⟨hparser, hbounded⟩ := parserHolds_foldl hcounts ⟨holds_zero, hzero⟩
  have hend : Holds (parserUsage calls.flatten)
      (fun f => lastOf (takenByParser f) 0 calls.flatten) :=
    ⟨hparser.input, hparser.cached, hparser.creation, hparser.output⟩
  obtain ⟨p, hparse, husage⟩ := parse_eq o order requestModel calls.flatten
  rw [← htranslator.holds.sameCounts_iff htranslator.bounded hend hbounded htotal
    rfl, ← husage]
  constructor
  · rintro ⟨p', hparse', hsame⟩
    rw [hparse] at hparse'
    cases hparse'
    exact hsame
  · intro hsame
    exact ⟨p, hparse, hsame⟩

def onlyOutput (n : Int) : UsageCounts := ⟨none, some n, none, none, none⟩

/-- Ten input tokens, three more that are read from the cache, and five output tokens. -/
def usualEvents : List UsageEvent :=
  [.messageStart "m1" (some ⟨some 10, some 1, some 3, none, none⟩),
    .messageDelta (some .endTurn) (onlyOutput 5)]

theorem usualEvents_counts (f : Field) (he : e ∈ usualEvents) (hn : n ∈ e.count f) : 0 ≤ n ∧ n ≤ 10 := by
  rcases mem_pair.mp he with rfl | rfl
  · cases f <;> simp [UsageEvent.count, UsageCounts.get] at hn <;> omega
  · cases f <;> simp [UsageEvent.count, UsageCounts.get, onlyOutput] at hn
    omega

theorem usual_events_agree :
    InRange [usualEvents].flatten ∧
      ∃ p, parse objectTexts GoMap.storedOrder "m" [usualEvents].flatten = .ok p ∧
        SameCounts (translatorUsage [usualEvents]) p.tokenUsage := by
  have hrange : InRange [usualEvents].flatten := by
    refine ⟨fun _ => 10, fun _ => Int.natCast_nonneg 10, by decide, ?_⟩
    intro e he f n hn
    exact usualEvents_counts f (by simpa using he) hn
  refine ⟨hrange, (usage_agrees_iff objectTexts GoMap.storedOrder "m" [usualEvents] hrange).mpr ?_⟩
  intro f
  cases f <;> rfl

/-- A last `message_delta` without usage. -/
def usageThenNone : List UsageEvent :=
  usualEvents ++ [.messageDelta none ⟨none, none, none, none, none⟩]

theorem output_is_forgotten :
    ((translatorUsage [usageThenNone]).outputTokens = some 0 ∧
      (translatorUsage [usageThenNone]).totalTokens = some 13) ∧
    ∃ p, parse objectTexts GoMap.storedOrder "m" usageThenNone = .ok p ∧
      p.tokenUsage.outputTokens = some 5 ∧ p.tokenUsage.totalTokens = some 18 ∧
      ¬ SameCounts (translatorUsage [usageThenNone]) p.tokenUsage := by
  refine ⟨by decide, _, rfl, by decide, by decide, ?_⟩
  intro hsame
  exact absurd hsame.output (by decide)

/-! ## The counts after each event -/

/-- The latest count; a `message_start` reports zero for what its usage does not have. -/
def latest (events : List UsageEvent) (f : Field) : Int := lastOf (takenByParser f) 0 events

/-- The counts are not negative, and their sums stay below 2³². -/
structure Fits (events : List UsageEvent) : Prop where
  nonneg : ∀ e ∈ events, ∀ f, ∀ n ∈ e.count f, 0 ≤ n
  input : ∀ before, before <+: events →
    latest before .input + latest before .cacheRead + latest before .cacheCreation < 2 ^ 32
  output : ∀ before, before <+: events → latest before .output < 2 ^ 32

/-- The usage has the latest counts, and what the next update takes off the input tokens, first the
tokens read from the cache and then those written to it, is not more than there is. -/
structure HasLatest (u : TokenUsage) (events : List UsageEvent) : Prop where
  input : (u.inputTokens.getD 0).toNat =
    latest events .input + latest events .cacheRead + latest events .cacheCreation
  output : (u.outputTokens.getD 0).toNat = latest events .output
  cached_le : u.cachedInputTokens.getD 0 ≤ u.inputTokens.getD 0
  creation_le : u.cacheCreationInputTokens.getD 0 ≤
    u.inputTokens.getD 0 - u.cachedInputTokens.getD 0

theorem Fits.of_prefix {before : List UsageEvent} (h : Fits events) (hbefore : before <+: events) :
    Fits before where
  nonneg e he := h.nonneg e (hbefore.subset he)
  input l hl := h.input l (hl.trans hbefore)
  output l hl := h.output l (hl.trans hbefore)

theorem Fits.holds (h : Fits events) :
    Holds (events.foldl noteUsage .zero) (latest events) ∧ InputFits (latest events) := by
  induction events using List.reverseRecOn with
  | nil => exact ⟨holds_zero, fun _ => Int.le_refl 0, by decide⟩
  | append_singleton events e ih =>
    obtain ⟨hholds, hfits⟩ := ih (h.of_prefix (prefix_append events [e]))
    have hcounts : ∀ f, ∀ n ∈ e.count f, 0 ≤ n := h.nonneg e (mem_append_right _ (by simp))
    have hwrite : latest (events ++ [e]) = write takenByParser (latest events) e := by
      funext f
      rw [latest, lastOf_append, lastOf_cons]
      rfl
    refine ⟨?_, ?_, h.input _ (prefix_refl _)⟩
    · rw [hwrite, foldl_append]
      exact holds_noteUsage hholds hfits hcounts
    · intro f
      rw [hwrite, write]
      cases hn : takenByParser f e with
      | none => exact hfits.nonneg f
      | some n =>
        rcases mem_takenByParser hn with hzero | hmem
        · exact Int.le_of_eq hzero.symm
        · exact hcounts f n hmem

theorem toNat_uint32_of_lt (hn : 0 ≤ n) (hlt : n < 2 ^ 32) : ((uint32 n).toNat : Int) = n := by
  rw [toNat_uint32]
  omega

/-- After each event of a stream. -/
theorem hasLatest_of_fits {ι : Type} (o : JsonObjects ι) (requestModel : String)
    (events : List UsageEvent) (hfits : Fits events) (before : List UsageEvent)
    (hbefore : before <+: events) :
    ∃ p, (runAll (writeEvent o) (newAnthropicStreamParser requestModel)
        (before.map sourceEvent)).result = .ok p ∧ HasLatest p.tokenUsage before := by
  obtain ⟨p, hrun, husage⟩ := runAll_sourceEvent o (newAnthropicStreamParser requestModel) before
  obtain ⟨hholds, hinput⟩ := (hfits.of_prefix hbefore).holds
  have husage : p.tokenUsage = before.foldl noteUsage .zero := husage
  rw [← husage] at hholds
  have hi := hinput.nonneg .input
  have hr := hinput.nonneg .cacheRead
  have hc := hinput.nonneg .cacheCreation
  have hsum := hinput.sum_lt
  refine ⟨p, hrun, ?_, ?_, ?_, ?_⟩
  · rw [hholds.input, toNat_uint32_of_lt (by omega) hsum]
  · rw [hholds.output, toNat_uint32_of_lt (hinput.nonneg .output) (hfits.output before hbefore)]
  · rw [hholds.input, hholds.cached]
    exact uint32_le hr (by omega) hsum
  · rw [hholds.input, hholds.cached, hholds.creation, ← uint32_sub]
    exact uint32_le hc (by omega) (by omega)

theorem usual_events_have_latest :
    Fits usualEvents ∧
      ∃ p, (runAll (writeEvent objectTexts) (newAnthropicStreamParser "m")
        (usualEvents.map sourceEvent)).result = .ok p ∧ HasLatest p.tokenUsage usualEvents := by
  have hsum : ∀ before ∈ usualEvents.inits, latest before .input + latest before .cacheRead +
      latest before .cacheCreation < 2 ^ 32 ∧ latest before .output < 2 ^ 32 := by decide
  have hfits : Fits usualEvents :=
    ⟨fun _ he f _ hn => (usualEvents_counts f he hn).1,
      fun before h => (hsum before ((mem_inits _ _).mpr h)).1,
      fun before h => (hsum before ((mem_inits _ _).mpr h)).2⟩
  exact ⟨hfits, hasLatest_of_fits objectTexts "m" usualEvents hfits usualEvents (prefix_refl _)⟩

/-- A second `message_start`, without a count of the tokens read from the cache. -/
theorem start_without_count_resets :
    let events : List UsageEvent :=
      [.messageStart "m1" (some ⟨some 10, none, some 3, none, none⟩),
        .messageStart "m2" (some ⟨some 10, none, none, none, none⟩)]
    lastOf (UsageEvent.count .input) 0 events + lastOf (UsageEvent.count .cacheRead) 0 events +
        lastOf (UsageEvent.count .cacheCreation) 0 events = 13 ∧
      ∃ p, (runAll (writeEvent objectTexts) (newAnthropicStreamParser "m")
        (events.map sourceEvent)).result = .ok p ∧ p.tokenUsage.inputTokens = some 10 :=
  ⟨by decide, _, rfl, rfl⟩

end AgentRouter.AnthropicUsage
