import AgentRouter.Lib.Positions
import AgentRouter.Translator.OpenAIStream

/-!
# OpenAIBlocks: the blocks that the chunks of an OpenAI stream make

`partsOf` lists what a delta adds, and `addPart` says which blocks there are after a part: reasoning
and text go on with the last block or start a new one, arguments go to the block of their tool call.
The state machine knows less than these blocks, but `Tracks` holds between the two along every run,
so what it writes is a function of the parts alone:

    translate m chunks = message_start, the events of the parts, the end   (translate_eq)

A text that comes while a tool block is the last one is written into that block, and arguments
are written into their block even when it is closed.  Apart from these the stream is valid:

    Valid fits (translateBytes decode m pieces last)
      ↔ some delta came ∧ no part is misplaced   (translateBytes_valid_iff)
-/

namespace AgentRouter.OpenAIStream

open AnthropicStream List Positions

/-! ## Parts -/

/-- One thing that a delta adds to the message. -/
inductive Part where
  | reasoning (text signature : String)
  | text (text : String)
  | tool (call : ToolCallDelta)

/-- Parts that are passed over. -/
def Part.isEmpty : Part → Bool
  | .reasoning t g => t == "" && g == ""
  | .text t => t == ""
  | .tool _ => false

def handlePart (s : State) : Part → State
  | .reasoning t g => handleReasoningDelta s t g
  | .text t => handleTextDelta s t
  | .tool tc => handleToolCallDelta s tc

/-- What a delta holds, in the order in which it is handled. -/
def allParts (delta : ChoiceDelta) : List Part :=
  (delta.reasoningContent.map fun rc => .reasoning rc.text rc.signature).toList ++
    delta.thinkingBlocks.map (fun tb => .reasoning tb.thinking tb.signature) ++
    (delta.content.map .text).toList ++ delta.toolCalls.map .tool

/-- What a delta adds. -/
def partsOf (delta : ChoiceDelta) : List Part := (allParts delta).filter (!·.isEmpty)

/-- The delta of the choice that is looked at. -/
def deltaOf (chunk : Chunk) : Option ChoiceDelta := chunk.choices.head?.bind (·.delta)

def chunkParts (chunk : Chunk) : List Part := ((deltaOf chunk).map partsOf).getD []

/-! ## Blocks -/

/-- A block of the message; a tool block remembers the index of its tool call. -/
inductive Entry where
  | thinking (text signature : String)
  | text (text : String)
  | tool (index : Int) (id name json : String)

open Entry

def Entry.content : Entry → Content
  | .thinking t g => .thinking t g
  | .text t => .text t
  | .tool _ id name json => .toolUse id name json

@[simp] def Entry.start : Entry → BlockStart
  | .thinking _ _ => .thinking
  | .text _ => .text
  | .tool _ id name _ => .toolUse id name

@[simp] def Entry.isThinking : Entry → Bool
  | .thinking _ _ => true
  | _ => false

def Entry.isTool : Entry → Bool
  | .tool _ _ _ _ => true
  | _ => false

/-- The block of the tool call with this index. -/
def Entry.hasIndex (k : Int) : Entry → Bool
  | .tool i _ _ _ => i == k
  | _ => false

def Entry.addArguments (arguments : String) : Entry → Entry
  | .tool i id name json => .tool i id name (json ++ arguments)
  | e => e

def addReasoning (t g : String) : List Entry → Option Entry → List Entry
  | blocks, some (.thinking t' g') => blocks.dropLast ++ [.thinking (t' ++ t) (g' ++ g)]
  | blocks, _ => blocks ++ [.thinking t g]

/-- A text is lost while a tool block is the last one. -/
def addText (t : String) : List Entry → Option Entry → List Entry
  | blocks, some (.text t') => blocks.dropLast ++ [.text (t' ++ t)]
  | blocks, some (.tool _ _ _ _) => blocks
  | blocks, _ => blocks ++ [.text t]

def addTool (tc : ToolCallDelta) (blocks : List Entry) : List Entry :=
  match blocks.findIdx? (·.hasIndex tc.index) with
  | some i => blocks.modify i (·.addArguments tc.arguments)
  | none => blocks ++ [.tool tc.index (tc.id.getD "") tc.name tc.arguments]

/-- The blocks after a part. -/
def addPart (blocks : List Entry) : Part → List Entry
  | .reasoning t g => addReasoning t g blocks blocks.getLast?
  | .text t => addText t blocks blocks.getLast?
  | .tool tc => addTool tc blocks

/-- A text while a tool block is the last one, or arguments for a block that is not the last. -/
@[simp] def misplaced (blocks : List Entry) : Part → Bool
  | .reasoning _ _ => false
  | .text _ => (blocks.getLast?.map Entry.isTool).getD false
  | .tool tc =>
    match blocks.findIdx? (·.hasIndex tc.index) with
    | some i => tc.arguments != "" && i + 1 != blocks.length
    | none => false

/-- No part is misplaced. -/
def inOrder : List Entry → List Part → Bool
  | _, [] => true
  | blocks, p :: ps => !misplaced blocks p && inOrder (addPart blocks p) ps

/-! ## Events of parts -/

/-- The stop of the last block. -/
@[simp] def stopEvents (blocks : List Entry) : List Event :=
  if blocks = [] then [] else [.contentBlockStop (blocks.length - 1)]

def startEvents (blocks : List Entry) (b : BlockStart) : List Event :=
  stopEvents blocks ++ [.contentBlockStart blocks.length b]

def reasoningDeltas (i : Nat) (t g : String) : List Event :=
  (if t = "" then [] else [.contentBlockDelta i (.thinking t)]) ++
    if g = "" then [] else [.contentBlockDelta i (.signature g)]

def argumentsDeltas (i : Nat) (arguments : String) : List Event :=
  if arguments = "" then [] else [.contentBlockDelta i (.inputJSON arguments)]

def reasoningEvents (t g : String) : List Entry → Option Entry → List Event
  | blocks, some (.thinking _ _) => reasoningDeltas (blocks.length - 1) t g
  | blocks, _ => startEvents blocks .thinking ++ reasoningDeltas blocks.length t g

def textEvents (t : String) : List Entry → Option Entry → List Event
  | blocks, some (.text _) => [.contentBlockDelta (blocks.length - 1) (.text t)]
  | blocks, some (.tool _ _ _ _) => [.contentBlockDelta (blocks.length - 1) (.text t)]
  | blocks, _ => startEvents blocks .text ++ [.contentBlockDelta blocks.length (.text t)]

def toolEvents (tc : ToolCallDelta) (blocks : List Entry) : List Event :=
  match blocks.findIdx? (·.hasIndex tc.index) with
  | some i => argumentsDeltas i tc.arguments
  | none => startEvents blocks (.toolUse (tc.id.getD "") tc.name) ++
      argumentsDeltas blocks.length tc.arguments

/-- What is written for a part. -/
def partEvents (blocks : List Entry) : Part → List Event
  | .reasoning t g => reasoningEvents t g blocks blocks.getLast?
  | .text t => textEvents t blocks blocks.getLast?
  | .tool tc => toolEvents tc blocks

def partsEvents : List Entry → List Part → List Event
  | _, [] => []
  | blocks, p :: ps => partEvents blocks p ++ partsEvents (addPart blocks p) ps

/-! ## One block at a time -/

/-- Reasoning as deltas; an empty text or signature is left out. -/
def reasoningPieces (t g : String) : List Delta :=
  (if t = "" then [] else [.thinking t]) ++ if g = "" then [] else [.signature g]

/-- What a part is written as. -/
@[simp] def pieces : Part → List Delta
  | .reasoning t g => reasoningPieces t g
  | .text t => [.text t]
  | .tool tc => if tc.arguments = "" then [] else [.inputJSON tc.arguments]

/-- The block that a part starts. -/
@[simp] def Part.entry : Part → Entry
  | .reasoning t g => .thinking t g
  | .text t => .text t
  | .tool tc => .tool tc.index (tc.id.getD "") tc.name tc.arguments

/-- A block with a part written into it; a text is lost in a tool block. -/
def Entry.add (p : Part) : Entry → Entry
  | .thinking t g => match p with
    | .reasoning t' g' => .thinking (t ++ t') (g ++ g')
    | _ => .thinking t g
  | .text t => match p with
    | .text t' => .text (t ++ t')
    | _ => .text t
  | .tool i id name json => match p with
    | .tool tc => .tool i id name (json ++ tc.arguments)
    | _ => .tool i id name json

/-- The block that a part is written into, unless it starts one. -/
def place (blocks : List Entry) : Part → Option Nat
  | .reasoning _ _ =>
    if (blocks.getLast?.map Entry.isThinking).getD false then some (blocks.length - 1) else none
  | .text _ =>
    if (blocks.getLast?.map (!·.isThinking)).getD false then some (blocks.length - 1) else none
  | .tool tc => blocks.findIdx? (·.hasIndex tc.index)

section

variable {blocks : List Entry} {p : Part}

theorem reasoningDeltas_eq (i : Nat) (t g : String) :
    reasoningDeltas i t g = (reasoningPieces t g).map (.contentBlockDelta i) := by
  rw [reasoningPieces, map_append, apply_ite (map _), apply_ite (map _)]
  rfl

theorem argumentsDeltas_eq (i : Nat) (tc : ToolCallDelta) :
    argumentsDeltas i tc.arguments = (pieces (.tool tc)).map (.contentBlockDelta i) := by
  rw [pieces, apply_ite (map _)]
  rfl

theorem Entry.add_same (p : Part) (e : Entry) :
    (e.add p).start = e.start ∧ ∀ k, (e.add p).hasIndex k = e.hasIndex k := by
  cases e <;> cases p <;> exact ⟨rfl, fun _ => rfl⟩

theorem starts_modify_add (blocks : List Entry) (i : Nat) (p : Part) :
    (blocks.modify i (·.add p)).map start = blocks.map start :=
  map_modify_of_comp (fun e => (add_same p e).1) blocks i

/-- A part starts a block, or it is written into one that is there. -/
theorem part_cases (blocks : List Entry) (p : Part) :
    (place blocks p = none ∧ addPart blocks p = blocks ++ [p.entry] ∧
      partEvents blocks p =
        startEvents blocks p.entry.start ++ (pieces p).map (.contentBlockDelta blocks.length)) ∨
    ∃ i < blocks.length, place blocks p = some i ∧ addPart blocks p = blocks.modify i (·.add p) ∧
      partEvents blocks p = (pieces p).map (.contentBlockDelta i) := by
  cases p with
  | reasoning t g =>
    simp only [place, addPart, partEvents, pieces, ← reasoningDeltas_eq]
    rcases eq_nil_or_concat' blocks with rfl | ⟨init, e, rfl⟩
    · exact .inl ⟨rfl, rfl, rfl⟩
    · rw [getLast?_concat]
      cases e with
      | thinking t' g' => exact .inr ⟨init.length, by simp [reasoningEvents, addReasoning, modify_concat, add]⟩
      | text t' | tool k id name json => exact .inl ⟨rfl, rfl, rfl⟩
  | text t =>
    simp only [place, addPart, partEvents, pieces, map_cons, map_nil]
    rcases eq_nil_or_concat' blocks with rfl | ⟨init, e, rfl⟩
    · exact .inl ⟨rfl, rfl, rfl⟩
    · rw [getLast?_concat]
      cases e with
      | thinking t' g' => exact .inl ⟨rfl, rfl, rfl⟩
      | text t' => exact .inr ⟨init.length, by simp [textEvents, addText, modify_concat, add]⟩
      | tool k id name json => exact .inr ⟨init.length, by simp [textEvents, addText, modify_concat, add]⟩
  | tool tc =>
    have hadd : (·.addArguments tc.arguments) = add (.tool tc) := by
      funext e
      cases e <;> rfl
    simp only [place, addPart, addTool, partEvents, toolEvents, argumentsDeltas_eq]
    cases hfind : blocks.findIdx? (·.hasIndex tc.index) with
    | none => exact .inl ⟨rfl, rfl, rfl⟩
    | some i =>
      obtain ⟨hi, -⟩ := findIdx?_eq_some_iff_getElem.mp hfind
      exact .inr ⟨i, hi, rfl, congrArg (blocks.modify i) hadd, rfl⟩

end

/-! ## The state and the blocks -/

/-- What the state knows of the blocks. -/
structure Tracks (s : State) (blocks : List Entry) : Prop where
  opened : s.hasOpenBlock = true ↔ blocks ≠ []
  thinking : s.hasThinkingBlock = (blocks.getLast?.map Entry.isThinking).getD false
  index : s.blockIndex = blocks.length - 1
  tools : ∀ k, (s.activeTools.lookup k).map (·.blockIdx) = blocks.findIdx? (·.hasIndex k)

/-- The parts of the state that a delta does not touch. -/
structure SameMessage (s s' : State) : Prop where
  messageStarted : s'.messageStarted = s.messageStarted
  closingEmitted : s'.closingEmitted = s.closingEmitted
  stopReason : s'.stopReason = s.stopReason

/-- One part: the state goes on tracking the blocks and writes the events of the part. -/
structure Handles (s s' : State) (blocks : List Entry) (events : List Event) : Prop where
  tracks : Tracks s' blocks
  same : SameMessage s s'
  out : s'.out = s.out ++ events

section

variable {s : State} {blocks : List Entry} {p : Part}

theorem emit_reasoningDeltas (s : State) (t g : String) :
    (let s := if t = "" then s else emitDelta (.thinking t) s
     if g = "" then s else emitDelta (.signature g) s) =
      { s with out := s.out ++ reasoningDeltas s.blockIndex t g } := by
  unfold reasoningDeltas
  by_cases ht : t = ""
  · by_cases hg : g = ""
    · simp [ht, hg]
    · simp [ht, hg, emitDelta, emit]
  · by_cases hg : g = ""
    · simp [ht, hg, emitDelta, emit]
    · simp [ht, hg, emitDelta, emit]

theorem emitArguments_eq (i : Nat) (arguments : String) (s : State) :
    emitArguments i arguments s = { s with out := s.out ++ argumentsDeltas i arguments } := by
  unfold emitArguments argumentsDeltas
  by_cases h : arguments = ""
  · simp [h]
  · simp [h, emit]

theorem findIdx?_concat (blocks : List Entry) (e : Entry) (k : Int) :
    (blocks ++ [e]).findIdx? (·.hasIndex k) =
      (blocks.findIdx? (·.hasIndex k)).or (if e.hasIndex k then some blocks.length else none) := by
  cases h : e.hasIndex k with
  | true | false => simp [h]

theorem Tracks.not_open (h : Tracks s []) : s.hasOpenBlock = false ∧ s.hasThinkingBlock = false :=
  ⟨Bool.eq_false_iff.mpr fun hopen => h.opened.mp hopen rfl, h.thinking⟩

theorem Tracks.open_concat {init : List Entry} {e : Entry} (h : Tracks s (init ++ [e])) :
    s.hasOpenBlock = true ∧ s.hasThinkingBlock = e.isThinking ∧ s.blockIndex = init.length := by
  refine ⟨h.opened.mpr (by simp), ?_, ?_⟩
  · simpa using h.thinking
  · simpa using h.index

variable (h : Tracks s blocks)

include h

theorem Tracks.place_eq (p : Part) :
    place blocks p = match p with
      | .reasoning _ _ => if s.hasThinkingBlock then some s.blockIndex else none
      | .text _ => if s.hasOpenBlock && !s.hasThinkingBlock then some s.blockIndex else none
      | .tool tc => (s.activeTools.lookup tc.index).map (·.blockIdx) := by
  cases p with
  | tool tc => exact (h.tools tc.index).symm
  | reasoning t g => rw [place, ← h.thinking, h.index]
  | text t =>
    rcases eq_nil_or_concat' blocks with rfl | ⟨init, e, rfl⟩
    · simp [place, h.not_open]
    · simp [place, h.open_concat]

theorem Tracks.start_eq (b : BlockStart) :
    blocks.length = (if s.hasOpenBlock then s.blockIndex + 1 else s.blockIndex) ∧
      startEvents blocks b = (if s.hasOpenBlock then [.contentBlockStop s.blockIndex] else []) ++
        [.contentBlockStart (if s.hasOpenBlock then s.blockIndex + 1 else s.blockIndex) b] := by
  rcases eq_nil_or_concat' blocks with rfl | ⟨init, e, rfl⟩
  · simp [h.not_open, h.index, startEvents]
  · simp [h.open_concat, startEvents]

theorem handlePart_of_place (hp : p.isEmpty = false) {i : Nat} (hplace : place blocks p = some i) :
    handlePart s p = { s with out := s.out ++ (pieces p).map (.contentBlockDelta i) } := by
  rw [h.place_eq] at hplace
  cases p with
  | reasoning t g =>
    have hne : ¬ (t = "" ∧ g = "") := by simpa [Part.isEmpty] using hp
    obtain ⟨hthinking, rfl⟩ : s.hasThinkingBlock = true ∧ s.blockIndex = i := by simpa using hplace
    simp only [handlePart, handleReasoningDelta, if_neg hne, emit_reasoningDeltas]
    simp [closeOtherBlock, hthinking, reasoningDeltas_eq]
  | text t =>
    have hne : t ≠ "" := by simpa [Part.isEmpty] using hp
    obtain ⟨⟨hopen, hthinking⟩, rfl⟩ : (s.hasOpenBlock = true ∧ s.hasThinkingBlock = false) ∧
        s.blockIndex = i := by simpa using hplace
    -- nothing tells the state whether the open block is a text block
    simp [handlePart, handleTextDelta, hne, hopen, hthinking, emitDelta, emit]
  | tool tc =>
    obtain ⟨tool, hlookup, rfl⟩ := Option.map_eq_some_iff.mp hplace
    simp only [handlePart, handleToolCallDelta, hlookup, emitArguments_eq, argumentsDeltas_eq]

/-- The tool calls that are known after a part has started a block. -/
@[simp] def startedTools (s : State) (n : Nat) : Part → GoMap Int StreamToolCall
  | .tool tc => s.activeTools.insert tc.index ⟨n, tc.id.getD "", tc.name⟩
  | _ => s.activeTools

theorem handlePart_of_no_place (hp : p.isEmpty = false) (hplace : place blocks p = none) :
    handlePart s p =
      { s with
        hasOpenBlock := true, hasThinkingBlock := p.entry.isThinking, blockIndex := blocks.length
        activeTools := startedTools s blocks.length p
        out := s.out ++ (startEvents blocks p.entry.start ++
          (pieces p).map (.contentBlockDelta blocks.length)) } := by
  obtain ⟨hlength, hevents⟩ := h.start_eq p.entry.start
  rw [h.place_eq] at hplace
  rw [hevents, hlength]
  cases p with
  | reasoning t g =>
    have hne : ¬ (t = "" ∧ g = "") := by simpa [Part.isEmpty] using hp
    have hthinking : s.hasThinkingBlock = false := by simpa using hplace
    simp only [handlePart, handleReasoningDelta, if_neg hne, emit_reasoningDeltas, reasoningDeltas_eq]
    cases hopen : s.hasOpenBlock with
    | true => simp [closeOtherBlock, emitThinkingBlockStart, emitContentBlockStop, emit, hopen, hthinking]
    | false => simp [closeOtherBlock, emitThinkingBlockStart, emit, hopen, hthinking]
  | text t =>
    have hne : t ≠ "" := by simpa [Part.isEmpty] using hp
    cases hthinking : s.hasThinkingBlock with
    | true =>
      have hopen : s.hasOpenBlock = true := h.opened.mpr (by rintro rfl; simp [h.not_open] at hthinking)
      simp [handlePart, handleTextDelta, hne, hopen, hthinking, closeThinkingBlock, emitTextBlockStart, emitContentBlockStop, emitDelta, emit]
    | false =>
      have hopen : s.hasOpenBlock = false := by simpa [hthinking] using hplace
      simp [handlePart, handleTextDelta, hne, hopen, hthinking, emitTextBlockStart, emitDelta, emit]
  | tool tc =>
    have hlookup : s.activeTools.lookup tc.index = none := Option.map_eq_none_iff.mp hplace
    simp only [handlePart, handleToolCallDelta, hlookup, emitArguments_eq, argumentsDeltas_eq]
    cases hopen : s.hasOpenBlock with
    | true => simp [openToolBlock, emitContentBlockStop, emit, hopen]
    | false =>
      have hthinking : s.hasThinkingBlock = false := by
        rw [h.thinking, show blocks = [] by simpa [hopen] using h.opened]
        rfl
      simp [openToolBlock, emit, hopen, hthinking]

theorem Tracks.write (i : Nat) (p : Part) (events : List Event) :
    Tracks { s with out := s.out ++ events } (blocks.modify i (·.add p)) := by
  constructor
  · rw [Ne, modify_eq_nil_iff]
    exact h.opened
  · have hthinking : ∀ e : Entry, (e.add p).isThinking = e.isThinking := fun e => by
      cases e <;> cases p <;> rfl
    rw [← getLast?_map, map_modify_of_comp hthinking, getLast?_map]
    exact h.thinking
  · rw [length_modify]
    exact h.index
  · intro k
    have hmap := map_modify_of_comp (fun e => (add_same p e).2 k) blocks i
    have hfind := congrArg (List.findIdx? id) hmap
    rw [findIdx?_map, findIdx?_map] at hfind
    exact (h.tools k).trans hfind.symm

theorem handles_part (hp : p.isEmpty = false) :
    Handles s (handlePart s p) (addPart blocks p) (partEvents blocks p) := by
  rcases part_cases blocks p with ⟨hplace, hadd, hevents⟩ | ⟨i, -, hplace, hadd, hevents⟩
  · rw [handlePart_of_no_place h hp hplace, hadd, hevents]
    refine ⟨⟨by simp, by simp, by simp, fun k => ?_⟩, ⟨rfl, rfl, rfl⟩, rfl⟩
    rw [findIdx?_concat, ← h.tools]
    cases p with
    | reasoning t g | text t => simp [hasIndex]
    | tool tc =>
      rw [h.place_eq] at hplace
      by_cases hk : tc.index = k
      · subst hk
        simp [hasIndex, Option.map_eq_none_iff.mp hplace]
      · simp [hasIndex, hk, AList.lookup_insert_ne (Ne.symm hk)]
  · rw [handlePart_of_place h hp hplace, hadd, hevents]
    exact ⟨h.write i p _, ⟨rfl, rfl, rfl⟩, rfl⟩

theorem handles_parts {ps : List Part} (hps : ∀ p ∈ ps, p.isEmpty = false) :
    Handles s (ps.foldl handlePart s) (ps.foldl addPart blocks) (partsEvents blocks ps) := by
  induction ps generalizing s blocks with
  | nil => exact ⟨h, ⟨rfl, rfl, rfl⟩, (append_nil _).symm⟩
  | cons p ps ih =>
    have hfirst := handles_part h (hps p mem_cons_self)
    have hrest := ih hfirst.tracks fun p hp => hps p (mem_cons_of_mem _ hp)
    refine ⟨hrest.tracks, ⟨?_, ?_, ?_⟩, ?_⟩
    · exact hrest.same.messageStarted.trans hfirst.same.messageStarted
    · exact hrest.same.closingEmitted.trans hfirst.same.closingEmitted
    · exact hrest.same.stopReason.trans hfirst.same.stopReason
    · rw [foldl_cons, hrest.out, hfirst.out, partsEvents, append_assoc]

omit h

theorem handlePart_of_isEmpty (s : State) (hp : p.isEmpty = true) : handlePart s p = s := by
  cases p with
  | reasoning t g =>
    have htg : t = "" ∧ g = "" := by simpa [Part.isEmpty] using hp
    exact if_pos htg
  | text t =>
    have ht : t = "" := by simpa [Part.isEmpty] using hp
    simp [handlePart, handleTextDelta, ht]
  | tool tc => cases hp

theorem foldl_handlePart_filter (s : State) (ps : List Part) :
    (ps.filter (!·.isEmpty)).foldl handlePart s = ps.foldl handlePart s := by
  rw [foldl_filter]
  refine foldl_ext _ _ _ fun s p _ => ?_
  cases hp : p.isEmpty with
  | true => exact (handlePart_of_isEmpty s hp).symm
  | false => rfl

theorem handleDelta_eq (s : State) (delta : ChoiceDelta) :
    handleDelta s delta = (partsOf delta).foldl handlePart s := by
  unfold handleDelta partsOf allParts
  rw [foldl_handlePart_filter, foldl_append, foldl_append, foldl_append, foldl_map, foldl_map]
  cases delta.reasoningContent with
  | none | some rc =>
    cases delta.content with
    | none => rfl
    | some text => rfl

end

/-! ## Whole streams -/

/-- A chunk with usage and no choices. -/
def usageOnly (chunk : Chunk) : Bool := chunk.choices.isEmpty && chunk.usage.isSome

/-- No chunk with choices follows the chunk with the usage. -/
def UsageLast (chunks : List Chunk) : Prop :=
  chunks.Pairwise fun a b => usageOnly a = true → b.choices = []

instance (chunks : List Chunk) : Decidable (UsageLast chunks) :=
  inferInstanceAs (Decidable (chunks.Pairwise _))

/-- The deltas of the first choices. -/
def deltas (chunks : List Chunk) : List ChoiceDelta := chunks.filterMap deltaOf

/-- The parts of all chunks. -/
def streamParts (chunks : List Chunk) : List Part := chunks.flatMap chunkParts

/-- The blocks of the message. -/
def streamBlocks (chunks : List Chunk) : List Entry := (streamParts chunks).foldl addPart []

def chunkReason (chunk : Chunk) : Option FinishReason := chunk.choices.head?.bind (·.finishReason)

/-- The last finish reason that came. -/
def streamReason (chunks : List Chunk) : Option FinishReason :=
  chunks.foldl (fun r c => (chunkReason c).or r) none

/-- The state while the usage has not come: after these parts, with or without a delta, and with
the last finish reason. -/
structure Midway (s : State) (ps : List Part) (started : Bool) (reason : Option FinishReason) :
    Prop where
  tracks : Tracks s (ps.foldl addPart [])
  notClosed : s.closingEmitted = false
  messageStarted : s.messageStarted = started
  stopReason : s.stopReason = reason.map fun r => openAIFinishReasonToAnthropic (some r)
  out : if started then ∃ m, s.out = .messageStart m :: partsEvents [] ps else s.out = [] ∧ ps = []

theorem partsEvents_append (blocks : List Entry) (ps qs : List Part) :
    partsEvents blocks (ps ++ qs) = partsEvents blocks ps ++ partsEvents (ps.foldl addPart blocks) qs := by
  induction ps generalizing blocks with
  | nil => rfl
  | cons p ps ih =>
    rw [cons_append, partsEvents, partsEvents, ih, append_assoc, foldl_cons]

theorem isEmpty_of_mem_partsOf {delta : ChoiceDelta} {p : Part} (h : p ∈ partsOf delta) :
    p.isEmpty = false := by
  have hp := (mem_filter.mp h).2
  simpa using hp

theorem streamParts_eq (chunks : List Chunk) : streamParts chunks = (deltas chunks).flatMap partsOf := by
  unfold streamParts deltas
  induction chunks with
  | nil => rfl
  | cons c cs ih =>
    rw [flatMap_cons, ih, filterMap_cons, chunkParts]
    cases deltaOf c with
    | none => rfl
    | some d => rfl

/-- The reasoning of a delta, each with its signature. -/
def reasoningsOf (delta : ChoiceDelta) : List (String × String) :=
  (delta.reasoningContent.map fun rc => (rc.text, rc.signature)).toList ++
    delta.thinkingBlocks.map fun tb => (tb.thinking, tb.signature)

theorem allParts_eq (delta : ChoiceDelta) :
    allParts delta = (reasoningsOf delta).map (fun r => .reasoning r.1 r.2) ++
      delta.content.toList.map .text ++ delta.toolCalls.map .tool := by
  unfold allParts reasoningsOf
  rw [map_append, map_map]
  cases delta.reasoningContent with
  | none | some rc =>
    cases delta.content with
    | none => rfl
    | some text => rfl

def Part.tool? : Part → Option ToolCallDelta
  | .tool tc => some tc
  | _ => none

theorem calls_partsOf (d : ChoiceDelta) : (partsOf d).filterMap Part.tool? = d.toolCalls := by
  have hselect : (fun p : Part => if (!p.isEmpty) = true then p.tool? else none) = Part.tool? := by
    funext p
    cases p with
    | reasoning t g | text t => simp [Part.tool?]
    | tool tc => rfl
  rw [partsOf, filterMap_filter, hselect, allParts_eq]
  simp [filterMap_map, Function.comp_def, Part.tool?]

theorem calls_streamParts (chunks : List Chunk) :
    (streamParts chunks).filterMap Part.tool? = (deltas chunks).flatMap (·.toolCalls) := by
  rw [streamParts_eq, filterMap_flatMap]
  simp only [calls_partsOf]

section

variable {s : State} {ps : List Part} {started : Bool} {reason : Option FinishReason}

theorem midway_init (requestModel : String) :
    Midway (State.init requestModel) [] false none where
  tracks := ⟨by simp [State.init], rfl, rfl, fun k => rfl⟩
  notClosed := rfl
  messageStarted := rfl
  stopReason := rfl
  out := ⟨rfl, rfl⟩

variable (h : Midway s ps started reason)

include h

theorem Midway.start : Midway (if s.messageStarted then s else emitMessageStart s) ps true reason := by
  have hout := h.out
  have hstarted := h.messageStarted
  cases started with
  | true =>
    rw [if_pos hstarted]
    exact h
  | false =>
    rw [if_neg (by simp [hstarted])]
    obtain ⟨hnil, rfl⟩ := hout
    have ht := h.tracks
    refine ⟨⟨ht.opened, ht.thinking, ht.index, ht.tools⟩, h.notClosed, rfl, h.stopReason, ?_⟩
    simp [emitMessageStart, emit, hnil, partsEvents]

theorem Midway.delta (delta : Option ChoiceDelta) :
    Midway (handleChoiceDelta s delta) (ps ++ (delta.map partsOf).getD [])
      (started || delta.isSome) reason := by
  cases delta with
  | none => simpa [handleChoiceDelta] using h
  | some delta =>
    have hstart := h.start
    obtain ⟨m, hout⟩ := hstart.out
    have hhandles := handles_parts hstart.tracks fun p hp =>
      isEmpty_of_mem_partsOf (show p ∈ partsOf delta from hp)
    simp only [handleChoiceDelta, handleDelta_eq, Option.map_some, Option.getD_some,
      Option.isSome_some, Bool.or_true]
    refine ⟨?_, hhandles.same.closingEmitted.trans hstart.notClosed,
      hhandles.same.messageStarted.trans hstart.messageStarted,
      hhandles.same.stopReason.trans hstart.stopReason, m, ?_⟩
    · rw [foldl_append]
      exact hhandles.tracks
    · rw [hhandles.out, hout, partsEvents_append, cons_append]

theorem Midway.finish (r : Option FinishReason) : Midway (noteFinishReason s r) ps started (r.or reason) := by
  cases r with
  | none => exact h
  | some r =>
    have ht := h.tracks
    exact ⟨⟨ht.opened, ht.thinking, ht.index, ht.tools⟩, h.notClosed, h.messageStarted, rfl, h.out⟩

theorem Midway.identity (c : Chunk) : Midway (noteIdentity s c) ps started reason := by
  have ht := h.tracks
  exact ⟨⟨ht.opened, ht.thinking, ht.index, ht.tools⟩, h.notClosed, h.messageStarted, h.stopReason, h.out⟩

theorem Midway.chunk {c : Chunk} (hc : usageOnly c = false) :
    Midway (handleChunk s c) (ps ++ chunkParts c) (started || (deltaOf c).isSome)
      ((chunkReason c).or reason) := by
  unfold handleChunk chunkParts deltaOf chunkReason
  cases hchoices : c.choices with
  | nil =>
    have husage : c.usage = none := by simpa [usageOnly, hchoices] using hc
    simpa [husage] using h.identity c
  | cons choice rest => exact ((h.identity c).delta choice.delta).finish choice.finishReason

end

section

variable {chunks : List Chunk} {s : State}

theorem midway_chunks (pre : List Chunk)
    (hs : Midway s (streamParts pre) (pre.any fun c => (deltaOf c).isSome) (streamReason pre))
    (h : ∀ c ∈ chunks, usageOnly c = false) :
    Midway (chunks.foldl handleChunk s) (streamParts (pre ++ chunks))
      ((pre ++ chunks).any fun c => (deltaOf c).isSome) (streamReason (pre ++ chunks)) := by
  induction chunks generalizing s pre with
  | nil => simpa using hs
  | cons c cs ih =>
    have hnext := hs.chunk (h c mem_cons_self)
    have hmid : Midway (handleChunk s c) (streamParts (pre ++ [c]))
        ((pre ++ [c]).any fun c => (deltaOf c).isSome) (streamReason (pre ++ [c])) := by
      simpa [streamParts, streamReason, foldl_append] using hnext
    simpa using ih (pre ++ [c]) hmid fun c hc => h c (mem_cons_of_mem _ hc)

/-- The end of the stream, with the last block's stop. -/
@[simp] def closingEvents (blocks : List Entry) (reason : Option FinishReason) (inputTokens outputTokens : Int) :
    List Event :=
  stopEvents blocks ++ [.messageDelta (openAIFinishReasonToAnthropic reason) (some inputTokens)
    outputTokens, .messageStop]

variable {reason : Option FinishReason}

theorem emitClosingEvents_out {ps : List Part} {started : Bool} (h : Midway s ps started reason) :
    (emitClosingEvents s).closingEmitted = true ∧
      (emitClosingEvents s).out = s.out ++
        closingEvents (ps.foldl addPart []) reason s.inputTokens s.outputTokens := by
  unfold emitClosingEvents
  rw [if_neg (by simp [h.notClosed])]
  have hreason : s.stopReason.getD .endTurn = openAIFinishReasonToAnthropic reason := by
    rw [h.stopReason]
    cases reason with
    | none => rfl
    | some r => rfl
  have ht := h.tracks
  rcases eq_nil_or_concat' (ps.foldl addPart []) with hnil | ⟨init, e, hconcat⟩
  · rw [hnil] at ht ⊢
    simp [ht.not_open.1, emit, hreason]
  · rw [hconcat] at ht ⊢
    obtain ⟨hopen, -, hindex⟩ := ht.open_concat
    simp [hopen, hindex, emitContentBlockStop, emit, hreason]

theorem foldl_handleChunk_closed (hs : s.closingEmitted = true) (h : ∀ c ∈ chunks, c.choices = []) :
    (chunks.foldl handleChunk s).closingEmitted = true ∧ (chunks.foldl handleChunk s).out = s.out := by
  induction chunks generalizing s with
  | nil => exact ⟨hs, rfl⟩
  | cons c cs ih =>
    have hc := h c mem_cons_self
    have hstep : (handleChunk s c).closingEmitted = true ∧ (handleChunk s c).out = s.out := by
      unfold handleChunk
      simp only [hc]
      cases c.usage with
      | none => exact ⟨hs, rfl⟩
      | some usage => simp [emitClosingEvents, noteIdentity, hs]
    obtain ⟨hclosed, hout⟩ := ih hstep.1 fun c hc => h c (mem_cons_of_mem _ hc)
    exact ⟨hclosed, hout.trans hstep.2⟩

theorem exists_usage_split (h : UsageLast chunks) :
    (∀ c ∈ chunks, usageOnly c = false) ∨
      ∃ (front : List Chunk) (u : Chunk) (back : List Chunk), chunks = front ++ u :: back ∧
        (∀ c ∈ front, usageOnly c = false) ∧ usageOnly u = true ∧ ∀ c ∈ back, c.choices = [] := by
  induction chunks with
  | nil => exact .inl fun c hc => absurd hc not_mem_nil
  | cons c cs ih =>
    obtain ⟨hc, hcs⟩ := pairwise_cons.mp h
    cases husage : usageOnly c with
    | true =>
      refine .inr ⟨[], c, cs, rfl, fun c hc => absurd hc not_mem_nil, husage, ?_⟩
      exact fun b hb => hc b hb husage
    | false =>
      rcases ih hcs with hnone | ⟨front, u, back, rfl, hfront, hu, hback⟩
      · exact .inl (forall_mem_cons.mpr ⟨husage, hnone⟩)
      · exact .inr ⟨c :: front, u, back, rfl, forall_mem_cons.mpr ⟨husage, hfront⟩, hu, hback⟩

theorem streamReason_append (front back : List Chunk) :
    streamReason (front ++ back) = (streamReason back).or (streamReason front) := by
  unfold streamReason
  rw [foldl_append]
  induction back using List.reverseRecOn with
  | nil => rfl
  | append_singleton cs c ih => simp [foldl_append, ih, Option.or_assoc]

theorem stream_of_no_choices (h : ∀ c ∈ chunks, c.choices = []) :
    streamParts chunks = [] ∧ (chunks.any fun c => (deltaOf c).isSome) = false ∧
      streamReason chunks = none := by
  refine ⟨?_, ?_, ?_⟩
  · refine flatMap_eq_nil_iff.mpr fun c hc => ?_
    simp [chunkParts, deltaOf, h c hc]
  · refine any_eq_false.mpr fun c hc => ?_
    simp [deltaOf, h c hc]
  · induction chunks using List.reverseRecOn with
    | nil => rfl
    | append_singleton cs c ih =>
      rw [streamReason_append, ih fun c hc => h c (mem_append_left _ hc)]
      simp [streamReason, chunkReason, h c (by simp)]

theorem handleChunk_usage {ps : List Part} {started : Bool} (h : Midway s ps started reason)
    {u : Chunk} (hu : usageOnly u = true) :
    ∃ (inputTokens outputTokens : Int), (handleChunk s u).closingEmitted = true ∧
      (handleChunk s u).out = s.out ++
        closingEvents (ps.foldl addPart []) reason inputTokens outputTokens := by
  obtain ⟨hchoices, husage⟩ : u.choices = [] ∧ u.usage.isSome = true := by
    simpa [usageOnly] using hu
  obtain ⟨usage, husage⟩ := Option.isSome_iff_exists.mp husage
  have hmid := h.identity u
  have ht := hmid.tracks
  have hnoted (tokenUsage : Metrics.TokenUsage) : Midway { noteIdentity s u with
      inputTokens := usage.promptTokens, outputTokens := usage.completionTokens,
      tokenUsage := tokenUsage } ps started reason :=
    ⟨⟨ht.opened, ht.thinking, ht.index, ht.tools⟩, hmid.notClosed, hmid.messageStarted,
      hmid.stopReason, hmid.out⟩
  refine ⟨usage.promptTokens, usage.completionTokens, ?_⟩
  simp only [handleChunk, hchoices, husage]
  exact emitClosingEvents_out (hnoted _)

/-- What is written before the end: nothing until the first delta has come. -/
def Begins (events : List Event) (chunks : List Chunk) : Prop :=
  if (chunks.any fun c => (deltaOf c).isSome) = true then
    ∃ m, events = .messageStart m :: partsEvents [] (streamParts chunks)
  else events = [] ∧ streamParts chunks = []

theorem translate_eq (requestModel : String) (h : UsageLast chunks) :
    ∃ (events : List Event) (inputTokens outputTokens : Int),
      translate requestModel chunks = events ++
        closingEvents (streamBlocks chunks) (streamReason chunks) inputTokens outputTokens ∧
      Begins events chunks := by
  unfold translate Begins finished
  rcases exists_usage_split h with hnone | ⟨front, u, back, rfl, hfront, hu, hback⟩
  · have hmid := midway_chunks [] (midway_init requestModel) hnone
    obtain ⟨-, hout⟩ := emitClosingEvents_out hmid
    simp only [hmid.notClosed, Bool.false_eq_true, if_false]
    exact ⟨_, _, _, hout, hmid.out⟩
  · -- the chunks from the usage on add nothing to the message
    have hchoices : ∀ c ∈ u :: back, c.choices = [] := by
      refine forall_mem_cons.mpr ⟨?_, hback⟩
      exact isEmpty_iff.mp (Bool.and_eq_true_iff.mp hu).1
    obtain ⟨hparts, hany, hreason⟩ := stream_of_no_choices hchoices
    have hparts' : streamParts (front ++ u :: back) = streamParts front := by
      rw [streamParts, flatMap_append, ← streamParts, ← streamParts, hparts, append_nil]
    have hmid := midway_chunks [] (midway_init requestModel) hfront
    obtain ⟨it, ot, hclosed, hout⟩ := handleChunk_usage hmid hu
    obtain ⟨hclosed', hout'⟩ := foldl_handleChunk_closed hclosed hback
    rw [foldl_append, foldl_cons, if_pos hclosed', hout', hout, streamBlocks,
      streamReason_append front, hreason, any_append, hany, Bool.or_false, hparts']
    exact ⟨_, it, ot, rfl, hmid.out⟩

end

/-! ## Validity -/

/-- Where a reader of the stream stands after these blocks. -/
def phase (blocks : List Entry) : Phase :=
  match blocks.getLast? with
  | none => .between 0
  | some e => .inside (blocks.length - 1) e.start

section

variable {blocks : List Entry}

theorem phase_concat (blocks : List Entry) (e : Entry) :
    phase (blocks ++ [e]) = .inside blocks.length e.start := by
  simp [phase]

theorem phase_modify_add (i : Nat) (p : Part) : phase (blocks.modify i (·.add p)) = phase blocks := by
  have hlast := congrArg List.getLast? (starts_modify_add blocks i p)
  rw [getLast?_map, getLast?_map] at hlast
  unfold phase
  rw [length_modify]
  cases h : blocks.getLast? with
  | none => simp_all
  | some e =>
    rw [h, Option.map_some, Option.map_eq_some_iff] at hlast
    obtain ⟨e', he', hstart'⟩ := hlast
    rw [he']
    simp only [hstart']

theorem scanAll_startEvents (b : BlockStart) (es : List Event) :
    scanAll fits (phase blocks) (startEvents blocks b ++ es) = scanAll fits (.inside blocks.length b) es := by
  rcases eq_nil_or_concat' blocks with rfl | ⟨init, e, rfl⟩
  · simp [startEvents, phase, scanAll_cons, scan]
  · rw [phase_concat]
    simp [startEvents, scanAll_cons, scan]

theorem scanAll_deltas_eq (n i : Nat) (b : BlockStart) (ds : List Delta) :
    scanAll fits (.inside n b) (ds.map (.contentBlockDelta i)) =
      if ds.all (fun d => i == n && fits b d) then some (.inside n b) else none := by
  induction ds with
  | nil => rfl
  | cons d ds ih =>
    rw [map_cons, scanAll_cons, scan]
    by_cases h : i = n ∧ fits b d = true
    · obtain ⟨rfl, hfits⟩ := h
      simpa [hfits] using ih
    · simp [h]

theorem fits_pieces (p : Part) : ∀ d ∈ pieces p, fits p.entry.start d = true := by
  intro d hd
  cases p with
  | reasoning t g =>
    simp only [pieces, reasoningPieces, mem_append] at hd
    rcases hd with hd | hd
    · split at hd
      · cases hd
      · cases mem_singleton.mp hd
        rfl
    · split at hd
      · cases hd
      · cases mem_singleton.mp hd
        rfl
  | text t =>
    cases mem_singleton.mp hd
    rfl
  | tool tc =>
    simp only [pieces] at hd
    split at hd
    · cases hd
    · cases mem_singleton.mp hd
      rfl

theorem misplaced_of_no_place {p : Part} (h : place blocks p = none) : misplaced blocks p = false := by
  cases p with
  | reasoning t g => rfl
  | tool tc => simp [show blocks.findIdx? (·.hasIndex tc.index) = none from h]
  | text t =>
    rcases eq_nil_or_concat' blocks with rfl | ⟨init, e, rfl⟩
    · rfl
    · have hthinking : e.isThinking = true := by simpa [place] using h
      cases e with
      | thinking t' g' => simp [isTool]
      | text t' | tool k id name json => cases hthinking

theorem misplaced_of_place {init : List Entry} {e : Entry} {p : Part} {i : Nat}
    (h : place (init ++ [e]) p = some i) :
    (pieces p).all (fun d => i == init.length && fits e.start d) = !misplaced (init ++ [e]) p := by
  cases p with
  | reasoning t g =>
    obtain ⟨hthinking, rfl⟩ : e.isThinking = true ∧ init.length = i := by simpa [place] using h
    obtain ⟨t', g', rfl⟩ : ∃ t' g', e = .thinking t' g' := by cases e <;> simp_all [isThinking]
    have hfits : ∀ d ∈ pieces (.reasoning t g), fits .thinking d = true := fits_pieces (.reasoning t g)
    simpa using hfits
  | text t =>
    obtain ⟨hthinking, rfl⟩ : e.isThinking = false ∧ init.length = i := by simpa [place] using h
    cases e with
    | thinking t' g' => cases hthinking
    | text t' | tool k id name json => simp [fits, isTool]
  | tool tc =>
    have hfind : (init ++ [e]).findIdx? (·.hasIndex tc.index) = some i := h
    obtain ⟨hi, hindex, -⟩ := findIdx?_eq_some_iff_getElem.mp hfind
    by_cases harguments : tc.arguments = ""
    · simp [harguments, hfind]
    · by_cases hlast : i = init.length
      · subst hlast
        rw [getElem_concat_length rfl] at hindex
        cases e with
        | thinking t g | text t => cases hindex
        | tool k id name json => simp [harguments, hfind, fits]
      · simp [harguments, hfind, bne, beq_eq_false_iff_ne.mpr hlast]

theorem scanAll_partEvents (p : Part) :
    scanAll fits (phase blocks) (partEvents blocks p) =
      if misplaced blocks p = true then none else some (phase (addPart blocks p)) := by
  rcases part_cases blocks p with ⟨hplace, hadd, hevents⟩ | ⟨i, hi, hplace, hadd, hevents⟩
  · rw [hevents, hadd, misplaced_of_no_place hplace, scanAll_startEvents, phase_concat,
      scanAll_deltas (fits_pieces p)]
    rfl
  · rw [hevents, hadd, phase_modify_add]
    rcases eq_nil_or_concat' blocks with rfl | ⟨init, e, rfl⟩
    · exact absurd hi (Nat.not_lt_zero _)
    · rw [phase_concat, scanAll_deltas_eq, misplaced_of_place hplace]
      cases misplaced (init ++ [e]) p with
      | true => rfl
      | false => rfl

theorem scanAll_partsEvents (ps : List Part) :
    scanAll fits (phase blocks) (partsEvents blocks ps) =
      if inOrder blocks ps = true then some (phase (ps.foldl addPart blocks)) else none := by
  induction ps generalizing blocks with
  | nil => rfl
  | cons p ps ih =>
    rw [partsEvents, scanAll_append, scanAll_partEvents, inOrder]
    cases misplaced blocks p with
    | true => rfl
    | false => simpa using ih

theorem scanAll_closingEvents (reason : Option FinishReason) (inputTokens outputTokens : Int) :
    scanAll fits (phase blocks) (closingEvents blocks reason inputTokens outputTokens) = some .done := by
  rcases eq_nil_or_concat' blocks with rfl | ⟨init, e, rfl⟩
  · rfl
  · rw [phase_concat]
    simp [scanAll_cons, scan]

end

/-- The stream is valid when a delta came and no part was misplaced, however its bytes came. -/
theorem translateBytes_valid_iff (decode : Bytes → Option Chunk) (requestModel : String)
    (pieces : List Bytes) (last : Bytes)
    (h : UsageLast (chunksOf decode (pieces.flatten ++ last))) :
    Valid fits (translateBytes decode requestModel pieces last) ↔
      (∃ c ∈ chunksOf decode (pieces.flatten ++ last), (deltaOf c).isSome = true) ∧
        inOrder [] (streamParts (chunksOf decode (pieces.flatten ++ last))) = true := by
  rw [translateBytes_eq]
  generalize chunksOf decode (pieces.flatten ++ last) = chunks at h ⊢
  obtain ⟨events, it, ot, htranslate, hbegins⟩ := translate_eq requestModel h
  rw [valid_iff, htranslate, scanAll_append, ← any_eq_true]
  unfold Begins at hbegins
  split at hbegins
  next hany =>
    obtain ⟨m, rfl⟩ := hbegins
    rw [scanAll_cons, scan, Option.bind_some, show Phase.between 0 = phase [] from rfl,
      scanAll_partsEvents, hany]
    cases inOrder [] (streamParts chunks) with
    | false => simp
    | true =>
      rw [if_pos rfl, Option.bind_some, ← streamBlocks, scanAll_closingEvents]
      simp
  next hany =>
    obtain ⟨rfl, hparts⟩ := hbegins
    simp [hany, streamBlocks, hparts, scanAll_cons, scan]

/-! ## Streams of a few deltas -/

def chunkWith (delta : ChoiceDelta) : Chunk :=
  { id := "", model := "", choices := [⟨some delta, none⟩], usage := none }

/-- JSON decoding for the documents listed, all with one choice. -/
def decodeListed (documents : List (String × ChoiceDelta)) (data : Bytes) : Option Chunk :=
  (documents.find? fun d => SSE.ascii d.1 == data).map fun d => chunkWith d.2

def hello : String × ChoiceDelta :=
  ("\x7b\"choices\":[\x7b\"delta\":\x7b\"content\":\"hello\"\x7d\x7d]\x7d",
    { content := some "hello", reasoningContent := none, thinkingBlocks := [], toolCalls := [] })

/-- A tool call whose arguments are the JSON text `1`. -/
def call (index : Nat) : String × ChoiceDelta :=
  ("\x7b\"choices\":[\x7b\"delta\":\x7b\"tool_calls\":[\x7b\"index\":" ++ index.repr ++
      ",\"id\":\"t\",\"function\":\x7b\"name\":\"f\",\"arguments\":\"1\"\x7d\x7d]\x7d\x7d]\x7d",
    { content := none, reasoningContent := none, thinkingBlocks := [],
      toolCalls := [⟨index, some "t", "f", "1"⟩] })

def eventOf (document : String) : Bytes :=
  SSE.ascii "data: " ++ SSE.ascii document ++ SSE.blankLine

/-- A text and then a tool call, in two pieces. -/
theorem hello_then_call_valid :
    UsageLast (chunksOf (decodeListed [hello, call 0])
      ([eventOf hello.1].flatten ++ eventOf (call 0).1)) ∧
    Valid fits (translateBytes (decodeListed [hello, call 0]) "m" [eventOf hello.1]
      (eventOf (call 0).1)) := by
  have hchunks : chunksOf (decodeListed [hello, call 0])
      ([eventOf hello.1].flatten ++ eventOf (call 0).1) =
      [chunkWith hello.2, chunkWith (call 0).2] := by
    decide +kernel
  have h : UsageLast (chunksOf (decodeListed [hello, call 0])
      ([eventOf hello.1].flatten ++ eventOf (call 0).1)) := by
    rw [hchunks]
    decide
  refine ⟨h, (translateBytes_valid_iff _ "m" _ _ h).mpr ?_⟩
  rw [hchunks]
  decide

/-- A text after a tool call ends up in the tool block, and so do arguments of a call whose block
has been closed. -/
theorem text_or_arguments_in_other_block :
    (let bytes := eventOf (call 0).1 ++ eventOf hello.1
     (∃ c ∈ chunksOf (decodeListed [hello, call 0]) bytes, (deltaOf c).isSome = true) ∧
       UsageLast (chunksOf (decodeListed [hello, call 0]) bytes) ∧
       ¬ Valid fits (translateBytes (decodeListed [hello, call 0]) "m" [] bytes)) ∧
    let bytes := eventOf (call 0).1 ++ eventOf (call 1).1 ++ eventOf (call 0).1
    (∃ c ∈ chunksOf (decodeListed [call 0, call 1]) bytes, (deltaOf c).isSome = true) ∧
      UsageLast (chunksOf (decodeListed [call 0, call 1]) bytes) ∧
      ¬ Valid fits (translateBytes (decodeListed [call 0, call 1]) "m" [] bytes) := by
  constructor
  · have hchunks : chunksOf (decodeListed [hello, call 0]) (eventOf (call 0).1 ++ eventOf hello.1) =
        [chunkWith (call 0).2, chunkWith hello.2] := by
      decide +kernel
    dsimp only
    rw [translateBytes_eq, flatten_nil, nil_append, hchunks]
    decide
  · have hchunks : chunksOf (decodeListed [call 0, call 1])
        (eventOf (call 0).1 ++ eventOf (call 1).1 ++ eventOf (call 0).1) =
        [chunkWith (call 0).2, chunkWith (call 1).2, chunkWith (call 0).2] := by
      decide +kernel
    dsimp only
    rw [translateBytes_eq, flatten_nil, nil_append, hchunks]
    decide

end AgentRouter.OpenAIStream
