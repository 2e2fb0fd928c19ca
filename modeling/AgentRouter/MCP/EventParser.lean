import AgentRouter.Translator.Trimming

/-!
# EventParser: the event streams of the MCP proxy as bytes

`sseEventParser` takes the events off its buffer at blank lines; the line ends of every read are
normalized on their own.  Repeated calls of `next` return the events one by one:

    what the calls return  =  the blocks of the normalized reads, parsed, and then the end
      (allCalls_eq)

`writeAndMaybeFlush` is the other direction.  It ends an event with two line feeds after the one
that ends its last line, so one line feed is left over in front of the next event; since empty
lines are skipped, the events come back as they were written (parsed_written_events).
-/

namespace AgentRouter.MCPEvents

open Framing SSE List

variable {μ : Type}

/-! ## Algorithm -/

/-- `event:` -/
def sseEventPrefix : Bytes := [101, 118, 101, 110, 116, 58]

/-- `id:` -/
def sseIDPrefix : Bytes := [105, 100, 58]

/-- `data:` -/
@[simp] def sseDataPrefix : Bytes := [100, 97, 116, 97, 58]

def sseCR : UInt8 := 13
def sseLF : UInt8 := 10
def sseLFLF : Bytes := [10, 10]

structure SseEvent (μ : Type) where
  event : Bytes
  id : Bytes
  messages : List μ
  backend : Bytes
  deriving DecidableEq

/-- `bytes.ReplaceAll` of CR LF by LF. -/
def replaceCRLF : Bytes → Bytes
  | [] => []
  | [c] => [c]
  | c :: d :: rest =>
    if c = sseCR ∧ d = sseLF then sseLF :: replaceCRLF rest else c :: replaceCRLF (d :: rest)

/-- `bytes.ReplaceAll` of CR by LF. -/
def replaceCR (b : Bytes) : Bytes := b.map fun c => if c = sseCR then sseLF else c

def normalizeNewlines (b : Bytes) : Bytes := replaceCR (replaceCRLF b)

section

variable (decodeMessage : Bytes → Except String μ)

/-- One round of the loop over the lines. -/
def parseLine (ret : SseEvent μ) (line : Bytes) : Except String (SseEvent μ) :=
  if sseEventPrefix.isPrefixOf line then
    .ok { ret with event := trimSpace (line.drop sseEventPrefix.length) }
  else if sseIDPrefix.isPrefixOf line then
    .ok { ret with id := trimSpace (line.drop sseIDPrefix.length) }
  else if sseDataPrefix.isPrefixOf line then
    let data := trimSpace (line.drop sseDataPrefix.length)
    if data = [] then .ok ret
    else
      match decodeMessage data with
      | .error err => .error ("failed to decode jsonrpc message from sse data: " ++ err)
      | .ok msg => .ok { ret with messages := ret.messages ++ [msg] }
  else .ok ret

def parseEvent (backend chunk : Bytes) : Except String (SseEvent μ) :=
  (chunk.splitOn sseLF).foldlM (parseLine decodeMessage) ⟨[], [], [], backend⟩

inductive NextError where
  | eof
  /-- the last event cannot be parsed. -/
  | eofAndParse (err : String)
  | parse (err : String)
  /-- a read failed for another reason. -/
  | read (err : String)
  deriving DecidableEq

structure NextResult (μ : Type) where
  event : Option (SseEvent μ)
  err : Option NextError
  deriving DecidableEq

/-- What the reader gives, read by read, and the error it ends with if that is not `io.EOF`. -/
structure Reader where
  reads : List Bytes
  failure : Option String

/-- The result of a parsed block. -/
def parsedResult (backend chunk : Bytes) : NextResult μ :=
  match parseEvent decodeMessage backend chunk with
  | .error err => ⟨none, some (.parse err)⟩
  | .ok event => ⟨some event, none⟩

/-- The result at the end of the stream, with what is left in the buffer. -/
def finalResult (backend : Bytes) (failure : Option String) (buf : Bytes) : NextResult μ :=
  match failure with
  | some err => ⟨none, some (.read err)⟩
  | none =>
    if buf = [] then ⟨none, some .eof⟩
    else
      match parseEvent decodeMessage backend buf with
      | .error err => ⟨none, some (.eofAndParse err)⟩
      | .ok event => ⟨some event, some .eof⟩

def extractEvent (backend buf : Bytes) : Option (NextResult μ × Bytes) :=
  (Cut.cut sseLFLF buf).map fun r => (parsedResult decodeMessage backend r.1, r.2)

/-- A call of `next`: its result, the buffer and the reads that are left.  A read without bytes only
makes the loop go round. -/
def next (backend : Bytes) (failure : Option String) : Bytes → List Bytes →
    NextResult μ × Bytes × List Bytes
  | buf, [] =>
    match extractEvent decodeMessage backend buf with
    | some (r, rest) => (r, rest, [])
    | none => (finalResult decodeMessage backend failure buf, [], [])
  | buf, read :: reads =>
    match extractEvent decodeMessage backend buf with
    | some (r, rest) => (r, rest, read :: reads)
    | none => next backend failure (buf ++ normalizeNewlines read) reads

/-- The error ends the stream. -/
def NextError.ends : NextError → Bool
  | .parse _ => false
  | _ => true

def NextResult.ends (r : NextResult μ) : Bool := (r.err.map NextError.ends).getD false

/-- The results of repeated calls, up to the one that ends the stream. -/
def calls (backend : Bytes) (failure : Option String) : Nat → Bytes → List Bytes →
    List (NextResult μ)
  | 0, _, _ => []
  | fuel + 1, buf, reads =>
    let r := next decodeMessage backend failure buf reads
    if r.1.ends then [r.1] else r.1 :: calls backend failure fuel r.2.1 r.2.2

/-- The bytes that are parsed in the end. -/
def normalized (reads : List Bytes) : Bytes := reads.flatMap normalizeNewlines

/-- All calls on a stream: every call but the last takes up two bytes at least. -/
def allCalls (backend : Bytes) (r : Reader) : List (NextResult μ) :=
  calls decodeMessage backend r.failure ((normalized r.reads).length + 1) [] r.reads

end

/-! ## Lemmas -/

theorem stable_sseLFLF : Stable (Cut.cut sseLFLF) := stable_cut (by decide)

section

variable (decodeMessage : Bytes → Except String μ) (backend : Bytes) (failure : Option String)

theorem ends_parsedResult (chunk : Bytes) : (parsedResult decodeMessage backend chunk).ends = false := by
  unfold parsedResult
  split <;> rfl

theorem ends_finalResult (buf : Bytes) : (finalResult decodeMessage backend failure buf).ends = true := by
  unfold finalResult
  split
  · rfl
  · split
    · rfl
    · split <;> rfl

/-- A call returns the first block of what is in the buffer and what is still to be read. -/
theorem next_eq (reads : List Bytes) (buf : Bytes) :
    match Cut.cut sseLFLF (buf ++ normalized reads) with
    | some (chunk, rest) => ∃ buf' reads', next decodeMessage backend failure buf reads =
        (parsedResult decodeMessage backend chunk, buf', reads') ∧ buf' ++ normalized reads' = rest
    | none => next decodeMessage backend failure buf reads =
        (finalResult decodeMessage backend failure (buf ++ normalized reads), [], []) := by
  induction reads generalizing buf with
  | nil =>
    rw [show normalized [] = [] from rfl, append_nil]
    cases hbuf : Cut.cut sseLFLF buf with
    | none =>
      rw [next, extractEvent, hbuf]
      rfl
    | some r =>
      refine ⟨r.2, [], ?_, append_nil r.2⟩
      rw [next, extractEvent, hbuf]
      rfl
  | cons read reads ih =>
    rw [next, extractEvent]
    cases hbuf : Cut.cut sseLFLF buf with
    | none =>
      rw [show normalized (read :: reads) = normalizeNewlines read ++ normalized reads from rfl,
        ← append_assoc]
      exact ih _
    | some r =>
      rw [stable_sseLFLF.extend (show Cut.cut sseLFLF buf = some (r.1, r.2) from hbuf)]
      exact ⟨r.2, read :: reads, rfl, rfl⟩

theorem calls_eq {reads : List Bytes} {fuel : Nat} {buf : Bytes}
    (hfuel : (buf ++ normalized reads).length < fuel) :
    calls decodeMessage backend failure fuel buf reads =
      (drain (Cut.cut sseLFLF) (buf ++ normalized reads)).1.map
          (parsedResult decodeMessage backend) ++
        [finalResult decodeMessage backend failure
          (drain (Cut.cut sseLFLF) (buf ++ normalized reads)).2] := by
  induction fuel generalizing buf reads with
  | zero => exact absurd hfuel (Nat.not_lt_zero _)
  | succ fuel ih =>
    have hnext := next_eq decodeMessage backend failure reads buf
    cases hcut : Cut.cut sseLFLF (buf ++ normalized reads) with
    | none =>
      rw [hcut] at hnext
      rw [calls, hnext, drain_of_none hcut]
      rw [if_pos (ends_finalResult decodeMessage backend failure _)]
      rfl
    | some r =>
      rw [hcut] at hnext
      obtain ⟨buf', reads', hnext, hrest⟩ := hnext
      have hshorter := stable_sseLFLF.shorter hcut
      rw [calls, hnext, drain_of_some stable_sseLFLF hcut]
      rw [if_neg (by rw [ends_parsedResult]; simp), ih (by rw [hrest]; omega), hrest]
      rfl

theorem allCalls_eq (r : Reader) :
    allCalls decodeMessage backend r =
      (drain (Cut.cut sseLFLF) (normalized r.reads)).1.map (parsedResult decodeMessage backend) ++
        [finalResult decodeMessage backend r.failure (drain (Cut.cut sseLFLF) (normalized r.reads)).2] :=
  calls_eq decodeMessage backend r.failure (Nat.lt_succ_self _)

end

/-! ## Writing -/

/-- `event: ` -/
def sseEventPrefixSpace : Bytes := sseEventPrefix ++ [32]

/-- `id: ` -/
def sseIDPrefixSpace : Bytes := sseIDPrefix ++ [32]

/-- `data: ` -/
@[simp] def sseDataPrefixSpace : Bytes := sseDataPrefix ++ [32]

/-- What `writeAndMaybeFlush` writes. -/
def writeEvent (encodeMessage : μ → Bytes) (s : SseEvent μ) : Bytes :=
  (if s.event ≠ [] then sseEventPrefixSpace ++ s.event ++ [sseLF] else []) ++
  (if s.id ≠ [] then sseIDPrefixSpace ++ s.id ++ [sseLF] else []) ++
  (s.messages.flatMap fun msg => sseDataPrefixSpace ++ encodeMessage msg ++ [sseLF]) ++
  sseLFLF

/-- JSON-RPC messages: decoding inverts encoding, and a message is encoded as one JSON object without
a line end. -/
structure JsonRpc (encodeMessage : μ → Bytes) (decodeMessage : Bytes → Except String μ) : Prop where
  decode_encode : ∀ msg, decodeMessage (encodeMessage msg) = .ok msg
  notMem : ∀ msg, sseCR ∉ encodeMessage msg ∧ sseLF ∉ encodeMessage msg
  object : ∀ msg, ∃ members, encodeMessage msg = 123 :: (members ++ [125])

/-- A name or an id that stands on a line of its own. -/
structure Trimmed (s : Bytes) : Prop where
  trimSpace_eq : trimSpace s = s
  notMem : sseCR ∉ s ∧ sseLF ∉ s

/-- No name, no id and no messages. -/
def SseEvent.blank (e : SseEvent μ) : Bool := e.event = [] ∧ e.id = [] ∧ e.messages.isEmpty

/-- The lines of an event. -/
def eventLines (encodeMessage : μ → Bytes) (e : SseEvent μ) : List Bytes :=
  (if e.event ≠ [] then [sseEventPrefixSpace ++ e.event] else []) ++
  (if e.id ≠ [] then [sseIDPrefixSpace ++ e.id] else []) ++
  e.messages.map fun msg => sseDataPrefixSpace ++ encodeMessage msg

/-- The text of lines, each with its line feed. -/
def lineText (lines : List Bytes) : Bytes := lines.flatMap fun line => line ++ [sseLF]

section

variable {encodeMessage : μ → Bytes}

theorem writeEvent_eq (e : SseEvent μ) :
    writeEvent encodeMessage e = lineText (eventLines encodeMessage e) ++ sseLFLF := by
  unfold writeEvent eventLines lineText
  rw [flatMap_append, flatMap_append, flatMap_map]
  congr 3
  · by_cases h : e.event = []
    · simp [h]
    · simp [h]
  · by_cases h : e.id = []
    · simp [h]
    · simp [h]

theorem eventLines_eq_nil_iff (e : SseEvent μ) : eventLines encodeMessage e = [] ↔ e.blank = true := by
  unfold eventLines SseEvent.blank
  by_cases hevent : e.event = []
  · by_cases hid : e.id = []
    · simp [hevent, hid]
    · simp [hevent, hid]
  · simp [hevent]

/-! ### Lines -/

theorem Trimmed.trimSpace_space {s : Bytes} (h : Trimmed s) : trimSpace (32 :: s) = s := by
  have hspace : White [32] := by decide
  have htrim := trimSpace_white_append hspace s
  rw [singleton_append] at htrim
  rw [htrim, h.trimSpace_eq]

theorem parseLine_event (decodeMessage : Bytes → Except String μ) (ret : SseEvent μ) {name : Bytes}
    (h : Trimmed name) :
    parseLine decodeMessage ret (sseEventPrefixSpace ++ name) = .ok { ret with event := name } := by
  show Except.ok { ret with event := trimSpace (32 :: name) } = _
  rw [h.trimSpace_space]

theorem parseLine_id (decodeMessage : Bytes → Except String μ) (ret : SseEvent μ) {id : Bytes}
    (h : Trimmed id) :
    parseLine decodeMessage ret (sseIDPrefixSpace ++ id) = .ok { ret with id := id } := by
  show Except.ok { ret with id := trimSpace (32 :: id) } = _
  rw [h.trimSpace_space]

variable {decodeMessage : Bytes → Except String μ} (hjson : JsonRpc encodeMessage decodeMessage)

include hjson in
theorem JsonRpc.trimmed (msg : μ) : Trimmed (encodeMessage msg) where
  notMem := hjson.notMem msg
  trimSpace_eq := by
    obtain ⟨members, h⟩ := hjson.object msg
    have hopen : Solid 123 := by decide
    have hclose : Solid 125 := by decide
    have htrim := trimSpace_append_solid hopen [] (members ++ [125])
    rw [nil_append, trimRightSpace_append_solid hclose] at htrim
    rw [h, htrim]
    rfl

include hjson in
theorem parseLine_data (ret : SseEvent μ) (msg : μ) :
    parseLine decodeMessage ret (sseDataPrefixSpace ++ encodeMessage msg) =
      .ok { ret with messages := ret.messages ++ [msg] } := by
  have hne : encodeMessage msg ≠ [] := by
    obtain ⟨members, h⟩ := hjson.object msg
    rw [h]
    simp
  have hdata : trimSpace ((sseDataPrefixSpace ++ encodeMessage msg).drop sseDataPrefix.length) =
      encodeMessage msg := (hjson.trimmed msg).trimSpace_space
  unfold parseLine
  rw [if_neg (by simp [sseEventPrefix]),
    if_neg (by simp [sseIDPrefix]),
    if_pos (by simp)]
  rw [hdata, if_neg hne, hjson.decode_encode]

include hjson in
theorem foldlM_parseLine_messages (ret : SseEvent μ) (msgs : List μ) :
    (msgs.map fun msg => sseDataPrefixSpace ++ encodeMessage msg).foldlM (parseLine decodeMessage) ret =
      .ok { ret with messages := ret.messages ++ msgs } := by
  induction msgs generalizing ret with
  | nil =>
    rw [append_nil]
    rfl
  | cons msg msgs ih =>
    rw [map_cons, foldlM_cons, parseLine_data hjson]
    show (msgs.map _).foldlM _ _ = _
    rw [ih]
    simp

variable {e : SseEvent μ}

include hjson in
theorem foldlM_parseLine_eventLines (hevent : Trimmed e.event) (hid : Trimmed e.id) (backend : Bytes) :
    (eventLines encodeMessage e).foldlM (parseLine decodeMessage) ⟨[], [], [], backend⟩ =
      .ok { e with backend := backend } := by
  have hname : (if e.event ≠ [] then [sseEventPrefixSpace ++ e.event] else []).foldlM
      (parseLine decodeMessage) ⟨[], [], [], backend⟩ = .ok ⟨e.event, [], [], backend⟩ := by
    by_cases h : e.event = []
    · rw [h]
      rfl
    · rw [if_pos h, foldlM_cons, parseLine_event _ _ hevent]
      rfl
  have hident : (if e.id ≠ [] then [sseIDPrefixSpace ++ e.id] else []).foldlM
      (parseLine decodeMessage) ⟨e.event, [], [], backend⟩ = .ok ⟨e.event, e.id, [], backend⟩ := by
    by_cases h : e.id = []
    · rw [h]
      rfl
    · rw [if_pos h, foldlM_cons, parseLine_id _ _ hid]
      rfl
  unfold eventLines
  rw [foldlM_append, foldlM_append, hname]
  show (_ >>= fun ret => _) = _
  rw [show (Except.ok ⟨e.event, [], [], backend⟩ >>= fun ret : SseEvent μ =>
      (if e.id ≠ [] then [sseIDPrefixSpace ++ e.id] else []).foldlM (parseLine decodeMessage) ret) =
    .ok ⟨e.event, e.id, [], backend⟩ from hident]
  exact foldlM_parseLine_messages hjson ⟨e.event, e.id, [], backend⟩ e.messages

/-- What a line of an event looks like. -/
structure PlainLine (line : Bytes) : Prop where
  ne_nil : line ≠ []
  notMem : sseCR ∉ line ∧ sseLF ∉ line

theorem PlainLine.of_field {front s : Bytes} (hfront : PlainLine front)
    (hs : sseCR ∉ s ∧ sseLF ∉ s) : PlainLine (front ++ s) where
  ne_nil := by simp [hfront.ne_nil]
  notMem := by simp [hfront.notMem, hs]

include hjson in
theorem plainLine_eventLines (hevent : Trimmed e.event) (hid : Trimmed e.id) :
    ∀ line ∈ eventLines encodeMessage e, PlainLine line := by
  intro line hline
  rcases mem_append.mp hline with hline | hline
  · rcases mem_append.mp hline with hline | hline
    · split at hline
      · rw [mem_singleton.mp hline]
        exact .of_field ⟨by decide, by decide⟩ hevent.notMem
      · cases hline
    · split at hline
      · rw [mem_singleton.mp hline]
        exact .of_field ⟨by decide, by decide⟩ hid.notMem
      · cases hline
  · obtain ⟨msg, -, rfl⟩ := mem_map.mp hline
    exact .of_field ⟨by decide, by decide⟩ (hjson.notMem msg)

/-! ### Blocks -/

variable {lines : List Bytes}

theorem not_blank_lineText (h : ∀ line ∈ lines, PlainLine line) :
    Cut.StartsOutside sseLFLF (lineText lines) ∧ ¬ sseLFLF <:+: lineText lines := by
  refine Cut.not_infix_flatten (by decide) fun part hpart => ?_
  obtain ⟨line, hmem, rfl⟩ := mem_map.mp hpart
  have hline := h line hmem
  constructor
  · intro c hc hlf
    obtain ⟨d, t, rfl⟩ := exists_cons_of_ne_nil hline.ne_nil
    obtain rfl : d = c := by simpa using hc
    have hd : d = sseLF := by simpa [sseLFLF, sseLF] using hlf
    exact hline.notMem.2 (hd ▸ mem_cons_self)
  · intro hinfix
    have hcount := hinfix.sublist.count_le sseLF
    rw [count_append, count_eq_zero.mpr hline.notMem.2] at hcount
    exact absurd hcount (by decide)

variable {carry : Bytes}

/-- The line feed that is left over in front of an event does no harm. -/
theorem not_blank_carry (hcarry : carry = [] ∨ carry = [sseLF]) (h : ∀ line ∈ lines, PlainLine line) :
    ¬ sseLFLF <:+: carry ++ lineText lines := by
  intro hinfix
  rcases Cut.infix_append_of_startsOutside (not_blank_lineText h).1 hinfix with hin | hin
  · rcases hcarry with rfl | rfl
    · exact absurd hin.length_le (by decide)
    · exact absurd hin.length_le (by decide)
  · exact (not_blank_lineText h).2 hin

theorem cut_written (hcarry : carry = [] ∨ carry = [sseLF]) (h : ∀ line ∈ lines, PlainLine line)
    (hne : lines ≠ []) (rest : Bytes) :
    Cut.cut sseLFLF (carry ++ (lineText lines ++ sseLFLF ++ rest)) =
      some (carry ++ [sseLF].intercalate lines, sseLF :: rest) := by
  have htext : lineText lines = [sseLF].intercalate lines ++ [sseLF] :=
    Cut.flatMap_append_sep [sseLF] lines hne
  have hblank := not_blank_carry hcarry h
  rw [htext, ← append_assoc] at hblank
  rw [htext]
  have hbytes : carry ++ ([sseLF].intercalate lines ++ [sseLF] ++ sseLFLF ++ rest) =
      carry ++ [sseLF].intercalate lines ++ sseLFLF ++ (sseLF :: rest) := by
    simp [sseLFLF, sseLF]
  rw [hbytes]
  exact Cut.cut_append (sseLF :: rest) (by decide) hblank

theorem parseEvent_cons_lf (decodeMessage : Bytes → Except String μ) (backend chunk : Bytes) :
    parseEvent decodeMessage backend (sseLF :: chunk) = parseEvent decodeMessage backend chunk := by
  rfl

theorem parseEvent_intercalate (decodeMessage : Bytes → Except String μ) (backend : Bytes)
    (h : ∀ line ∈ lines, PlainLine line) (hne : lines ≠ []) :
    parseEvent decodeMessage backend ([sseLF].intercalate lines) =
      lines.foldlM (parseLine decodeMessage) ⟨[], [], [], backend⟩ := by
  unfold parseEvent
  rw [splitOn_intercalate sseLF (fun line hline => (h line hline).notMem.2) hne]

include hjson in
theorem parsedResult_written (hevent : Trimmed e.event) (hid : Trimmed e.id)
    (hblank : e.blank = false) (backend : Bytes) (hcarry : carry = [] ∨ carry = [sseLF]) :
    parsedResult decodeMessage backend (carry ++ [sseLF].intercalate (eventLines encodeMessage e)) =
      ⟨some { e with backend := backend }, none⟩ := by
  have hplain := plainLine_eventLines hjson hevent hid
  have hne : eventLines encodeMessage e ≠ [] := by
    intro hnil
    rw [eventLines_eq_nil_iff, hblank] at hnil
    cases hnil
  have hparse : parseEvent decodeMessage backend
      (carry ++ [sseLF].intercalate (eventLines encodeMessage e)) = .ok { e with backend := backend } := by
    rw [← foldlM_parseLine_eventLines hjson hevent hid backend,
      ← parseEvent_intercalate decodeMessage backend hplain hne]
    rcases hcarry with rfl | rfl
    · rfl
    · exact parseEvent_cons_lf decodeMessage backend _
  unfold parsedResult
  rw [hparse]

/-! ### All events -/

/-- The events among the results, without the blank ones. -/
def eventsOf (results : List (NextResult μ)) : List (SseEvent μ) :=
  (results.filterMap NextResult.event).filter fun e => !e.blank

/-- No call reports an error other than the end of the stream. -/
def NoError (results : List (NextResult μ)) : Prop :=
  ∀ r ∈ results, r.err = none ∨ r.err = some .eof

/-- The results on what is in the buffer, when nothing more comes. -/
def resultsOf (decodeMessage : Bytes → Except String μ) (backend b : Bytes) :
    List (NextResult μ) :=
  (drain (Cut.cut sseLFLF) b).1.map (parsedResult decodeMessage backend) ++
    [finalResult decodeMessage backend none (drain (Cut.cut sseLFLF) b).2]

theorem resultsOf_of_some (decodeMessage : Bytes → Except String μ) (backend : Bytes)
    {b chunk rest : Bytes} (h : Cut.cut sseLFLF b = some (chunk, rest)) :
    resultsOf decodeMessage backend b =
      parsedResult decodeMessage backend chunk :: resultsOf decodeMessage backend rest := by
  unfold resultsOf
  rw [drain_of_some stable_sseLFLF h]
  rfl

theorem resultsOf_lfLF (decodeMessage : Bytes → Except String μ) (backend rest : Bytes) :
    resultsOf decodeMessage backend (sseLFLF ++ rest) =
      ⟨some ⟨[], [], [], backend⟩, none⟩ :: resultsOf decodeMessage backend rest := by
  have hcut : Cut.cut sseLFLF ([] ++ sseLFLF ++ rest) = some ([], rest) :=
    Cut.cut_append rest (by decide) (by decide)
  exact resultsOf_of_some decodeMessage backend hcut

theorem noError_cons {event : SseEvent μ} {results : List (NextResult μ)} (h : NoError results) :
    NoError (⟨some event, none⟩ :: results) := by
  exact forall_mem_cons.mpr ⟨.inl rfl, h⟩

include hjson in
/-- The events come back, whether or not a line feed is left over in front of them. -/
theorem resultsOf_written (backend : Bytes) {events : List (SseEvent μ)}
    (hevents : ∀ e ∈ events, Trimmed e.event ∧ Trimmed e.id)
    (hcarry : carry = [] ∨ carry = [sseLF]) :
    NoError (resultsOf decodeMessage backend (carry ++ events.flatMap (writeEvent encodeMessage))) ∧
      eventsOf (resultsOf decodeMessage backend (carry ++ events.flatMap (writeEvent encodeMessage))) =
        (events.filter fun e => !e.blank).map fun e => { e with backend := backend } := by
  induction events generalizing carry with
  | nil =>
    rcases hcarry with rfl | rfl
    all_goals
      refine ⟨?_, rfl⟩
      intro r hr
      rw [mem_singleton.mp hr]
      exact .inr rfl
  | cons e events ih =>
    have htail : ∀ e' ∈ events, Trimmed e'.event ∧ Trimmed e'.id :=
      fun e' he' => hevents e' (mem_cons_of_mem e he')
    obtain ⟨hevent, hid⟩ := hevents e mem_cons_self
    have hplain := plainLine_eventLines hjson hevent hid
    rw [flatMap_cons, writeEvent_eq]
    by_cases hblank : e.blank = true
    · -- nothing but the two line feeds is written
      have hlines : eventLines encodeMessage e = [] := (eventLines_eq_nil_iff e).mpr hblank
      have hswap : carry ++ (lineText (eventLines encodeMessage e) ++ sseLFLF ++
          events.flatMap (writeEvent encodeMessage)) =
          sseLFLF ++ (carry ++ events.flatMap (writeEvent encodeMessage)) := by
        rw [hlines]
        rcases hcarry with rfl | rfl
        · rfl
        · rfl
      obtain ⟨hnone, hback⟩ := ih htail hcarry
      rw [hswap, resultsOf_lfLF, filter_cons_of_neg (by simp [hblank]), ← hback]
      exact ⟨noError_cons hnone, by simp [eventsOf, SseEvent.blank]⟩
    · have hsome : e.blank = false := by simpa using hblank
      have hne : eventLines encodeMessage e ≠ [] :=
        fun hnil => hblank ((eventLines_eq_nil_iff e).mp hnil)
      have hnamed : SseEvent.blank { e with backend := backend } = false := hsome
      have hcut := cut_written hcarry hplain hne (events.flatMap (writeEvent encodeMessage))
      obtain ⟨hnone, hback⟩ := ih htail (show [sseLF] = [] ∨ [sseLF] = [sseLF] from .inr rfl)
      rw [resultsOf_of_some decodeMessage backend hcut,
        parsedResult_written hjson hevent hid hsome backend hcarry,
        filter_cons_of_pos (by simp [hsome]), map_cons, ← hback]
      exact ⟨noError_cons hnone, by simp [eventsOf, hnamed]⟩

/-! ### Line ends -/

theorem replaceCRLF_of_notMem {b : Bytes} (h : sseCR ∉ b) : replaceCRLF b = b := by
  fun_induction replaceCRLF b with
  | case1 => rfl
  | case2 c => rfl
  | case3 c d rest hcr => exact absurd (hcr.1 ▸ mem_cons_self) h
  | case4 c d rest hcr ih => rw [ih fun hmem => h (mem_cons_of_mem c hmem)]

theorem normalizeNewlines_of_notMem {b : Bytes} (h : sseCR ∉ b) : normalizeNewlines b = b := by
  unfold normalizeNewlines replaceCR
  rw [replaceCRLF_of_notMem h]
  conv_rhs => rw [← map_id b]
  apply map_congr_left
  intro c hc
  exact if_neg fun hcr : c = sseCR => h (hcr ▸ hc)

theorem normalized_of_notMem (h : sseCR ∉ reads.flatten) : normalized reads = reads.flatten := by
  induction reads with
  | nil => rfl
  | cons read reads ih =>
    rw [flatten_cons, mem_append, not_or] at h
    rw [normalized, flatMap_cons, normalizeNewlines_of_notMem h.1, flatten_cons, ← ih h.2]
    rfl

include hjson in
theorem notMem_writeEvent (hevent : Trimmed e.event) (hid : Trimmed e.id) :
    sseCR ∉ writeEvent encodeMessage e := by
  rw [writeEvent_eq, mem_append, not_or]
  refine ⟨?_, by decide⟩
  intro hmem
  obtain ⟨line, hline, hcr⟩ := mem_flatMap.mp hmem
  have hplain := plainLine_eventLines hjson hevent hid line hline
  rcases mem_append.mp hcr with hcr | hcr
  · exact hplain.notMem.1 hcr
  · exact absurd hcr (by decide)

/-- Events that are written one after the other are parsed back, however the bytes are cut into
reads; events with no name, no id and no messages are dropped from both sides. -/
theorem parsed_written_events {decodeMessage : Bytes → Except String μ}
    (hjson : JsonRpc encodeMessage decodeMessage) (backend : Bytes) {events : List (SseEvent μ)}
    (hevents : ∀ e ∈ events, Trimmed e.event ∧ Trimmed e.id) {reads : List Bytes}
    (hreads : reads.flatten = events.flatMap (writeEvent encodeMessage)) :
    NoError (allCalls decodeMessage backend ⟨reads, none⟩) ∧
      eventsOf (allCalls decodeMessage backend ⟨reads, none⟩) =
        (events.filter fun e => !e.blank).map fun e => { e with backend := backend } := by
  have hcr : sseCR ∉ reads.flatten := by
    rw [hreads]
    intro hmem
    obtain ⟨e, he, hmem⟩ := mem_flatMap.mp hmem
    exact notMem_writeEvent hjson (hevents e he).1 (hevents e he).2 hmem
  rw [allCalls_eq, normalized_of_notMem hcr, hreads]
  exact resultsOf_written hjson backend hevents (.inl rfl)

end

/-! ### The only message is a ping -/

def pingText : Bytes := ascii "\x7b\"jsonrpc\":\"2.0\",\"method\":\"ping\"\x7d"

def decodePing (data : Bytes) : Except String Unit :=
  if data = pingText then .ok () else .error "unexpected message"

theorem jsonRpc_ping : JsonRpc (fun _ => pingText) decodePing where
  decode_encode := fun _ => if_pos rfl
  notMem := fun _ => by decide
  object := fun _ => ⟨ascii "\"jsonrpc\":\"2.0\",\"method\":\"ping\"", by decide⟩

/-- An event with a name, a blank one and one with an id. -/
def pingEvents : List (SseEvent Unit) :=
  [⟨ascii "message", [], [()], []⟩, ⟨[], [], [], []⟩, ⟨[], ascii "7", [(), ()], []⟩]

def pingBytes : Bytes := pingEvents.flatMap (writeEvent fun _ => pingText)

theorem ping_events_parsed :
    eventsOf (allCalls decodePing (ascii "b") ⟨[pingBytes.take 60, pingBytes.drop 60], none⟩) =
      [⟨ascii "message", [], [()], ascii "b"⟩, ⟨[], ascii "7", [(), ()], ascii "b"⟩] := by
  have htrimmed : ∀ e ∈ pingEvents, Trimmed e.event ∧ Trimmed e.id := by
    intro e he
    simp only [pingEvents, mem_cons, not_mem_nil, or_false] at he
    rcases he with rfl | rfl | rfl
    · exact ⟨⟨by decide, by decide⟩, ⟨by decide, by decide⟩⟩
    · exact ⟨⟨by decide, by decide⟩, ⟨by decide, by decide⟩⟩
    · exact ⟨⟨by decide, by decide⟩, ⟨by decide, by decide⟩⟩
  have hreads : [pingBytes.take 60, pingBytes.drop 60].flatten =
      pingEvents.flatMap (writeEvent fun _ => pingText) := by
    simp [pingBytes]
  exact (parsed_written_events jsonRpc_ping (ascii "b") htrimmed hreads).2

end AgentRouter.MCPEvents
