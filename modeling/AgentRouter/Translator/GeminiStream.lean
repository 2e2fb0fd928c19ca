import AgentRouter.Translator.Gemini
import AgentRouter.Translator.Trimming

/-!
# GeminiStream: the bytes of a Gemini stream

`ResponseBody` is called with the bytes of a stream as they arrive.  Each call puts what the last
one kept before the new bytes, takes the whole apart at the delimiter of the stream, and tries to
unmarshal every part.  A part that is no JSON text yet is kept, without the spaces at its ends and
without the name of its field.

`decode` is `json.Unmarshal` into a pointer: `none` is an error and `some none` a JSON null.
Usage metrics and tracing are left out.
-/

namespace AgentRouter.Gemini

open Completion SSE List

/-! ## Delimiters -/

/-- `\n\n` -/
def lineFeedSSEDelimiter : Bytes := [10, 10]

/-- `\r\r` -/
def carriageReturnSSEDelimiter : Bytes := [13, 13]

/-- `\r\n\r\n` -/
def carriageReturnLineFeedSSEDelimiter : Bytes := [13, 10, 13, 10]

def detectSSEDelimiter (data : Bytes) : Option Bytes :=
  if Cut.contains data carriageReturnLineFeedSSEDelimiter then some carriageReturnLineFeedSSEDelimiter
  else if Cut.contains data lineFeedSSEDelimiter then some lineFeedSSEDelimiter
  else if Cut.contains data carriageReturnSSEDelimiter then some carriageReturnSSEDelimiter
  else none

/-- `bytes.Split`. -/
def split (sep data : Bytes) : List Bytes :=
  (Framing.drain (Cut.cut sep) data).1 ++ [(Framing.drain (Cut.cut sep) data).2]

theorem split_of_absent {sep data : Bytes} (hsep : sep ≠ []) (h : ¬ sep <:+: data) :
    split sep data = [data] := by
  unfold split
  rw [Framing.drain_of_none ((Cut.cut_eq_none_iff hsep).mpr h)]
  rfl

theorem split_of_cut {sep data a b : Bytes} (hsep : sep ≠ []) (h : Cut.cut sep data = some (a, b)) :
    split sep data = a :: split sep b := by
  unfold split
  rw [Framing.drain_of_some (Framing.stable_cut hsep) h]
  rfl

theorem split_append {sep a : Bytes} (b : Bytes) (hsep : sep ≠ []) (ha : ¬ sep <:+: a)
    (hends : Cut.EndsOutside sep a) : split sep (a ++ sep ++ b) = a :: split sep b := by
  apply split_of_cut hsep
  apply Cut.cut_append b hsep
  intro h
  rcases Cut.infix_append_of_endsOutside hends h with h | h
  · exact ha h
  · have hle := h.length_le
    have hpos := length_pos_iff.mpr hsep
    rw [length_dropLast] at hle
    omega

/-! ## Parsing -/

structure Buffer where
  streamDelimiter : Option Bytes
  bufferedBody : Bytes

def Buffer.empty : Buffer := ⟨none, []⟩

/-- The part without its field name, if it has one. -/
def lineOf (part : Bytes) : Bytes := (cutSSEDataPrefix part).getD part

section

variable {R : Type} (decode : Bytes → Option (Option R))

/-- The responses in some parts, and what is kept then; `bufferedBody` is what was kept before. -/
def parseParts (bufferedBody : Bytes) : List Bytes → Bytes × List R
  | [] => (bufferedBody, [])
  | part :: parts =>
    let part := trimSpace part
    if part = [] then parseParts bufferedBody parts
    else
      match decode (lineOf part) with
      | some chunk =>
        let rest := parseParts [] parts
        (rest.1, chunk.toList ++ rest.2)
      | none => parseParts (lineOf part) parts

variable {bufferedBody part : Bytes} {parts : List Bytes}

theorem parseParts_of_white (h : trimSpace part = []) :
    parseParts decode bufferedBody (part :: parts) = parseParts decode bufferedBody parts := by
  exact if_pos h

theorem parseParts_of_some {chunk : Option R} (hne : trimSpace part ≠ [])
    (h : decode (lineOf (trimSpace part)) = some chunk) :
    parseParts decode bufferedBody (part :: parts) =
      ((parseParts decode [] parts).1, chunk.toList ++ (parseParts decode [] parts).2) := by
  rw [parseParts]
  rw [if_neg hne, h]

theorem parseParts_of_none (hne : trimSpace part ≠ []) (h : decode (lineOf (trimSpace part)) = none) :
    parseParts decode bufferedBody (part :: parts) = parseParts decode (lineOf (trimSpace part)) parts := by
  rw [parseParts]
  rw [if_neg hne, h]

def parseGCPStreamingChunks (s : Buffer) (body : Bytes) : Buffer × List R :=
  let allData := s.bufferedBody ++ body
  if allData = [] then (s, [])
  else
    let streamDelimiter := s.streamDelimiter.or (detectSSEDelimiter allData)
    let parts := match streamDelimiter with
      | some sep => split sep allData
      | none => [allData]
    let r := parseParts decode s.bufferedBody parts
    (⟨streamDelimiter, r.1⟩, r.2)

/-- The responses parsed by successive calls. -/
def parsedChunks : Buffer → List Bytes → List R
  | _, [] => []
  | s, body :: bodies =>
    let r := parseGCPStreamingChunks decode s body
    r.2 ++ parsedChunks r.1 bodies

end

/-! ## Responses -/

variable {ι : Type} (decode : Bytes → Option (Option (GenerateContentResponse ι)))
  (marshal : ι → String) (ids : Nat → String) (mode : ResponseMode) (requestModel : String)

def handleStreamingResponse (s : Buffer × ToolState) (body : Bytes) (endOfStream : Bool) :
    (Buffer × ToolState) × List Written :=
  let parsed := parseGCPStreamingChunks decode s.1 body
  let written := writeChunks marshal ids mode requestModel s.2 parsed.2
  ((parsed.1, written.1), written.2 ++ if endOfStream then [.done] else [])

/-- What successive calls write; `last` is the body of the call with the end of the stream. -/
def writtenBy (s : Buffer × ToolState) : List Bytes → Bytes → List Written
  | [], last => (handleStreamingResponse decode marshal ids mode requestModel s last true).2
  | body :: bodies, last =>
    let r := handleStreamingResponse decode marshal ids mode requestModel s body false
    r.2 ++ writtenBy r.1 bodies last

/-- The client gets what the parsed responses say, whichever calls they came with. -/
theorem writtenBy_eq (s : Buffer × ToolState) (bodies : List Bytes) (last : Bytes) :
    writtenBy decode marshal ids mode requestModel s bodies last =
      (writeChunks marshal ids mode requestModel s.2
        (parsedChunks decode s.1 (bodies ++ [last]))).2 ++ [.done] := by
  induction bodies generalizing s with
  | nil =>
    show _ = (writeChunks _ _ _ _ _ (_ ++ [])).2 ++ _
    rw [append_nil]
    rfl
  | cons body bodies ih =>
    rw [writtenBy, ih, cons_append, parsedChunks, writeChunks_append]
    simp only [handleStreamingResponse, Bool.false_eq_true, if_false, append_nil, append_assoc]

end AgentRouter.Gemini
