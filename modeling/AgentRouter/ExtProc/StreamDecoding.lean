import AgentRouter.Lib.Base64
import AgentRouter.Lib.Results
import Mathlib.Data.List.Chain

/-!
# StreamDecoding: compressed response bodies that arrive in chunks

`decodeStreamingContent` keeps all compressed bytes of a response.  With every chunk it decompresses
them from the start and hands on what lies behind the offset of the last call.  The end of the input
in the middle of the stream is not an error before the last chunk; but the header of a gzip stream
is read when the reader is made, and there it is one:

    no call fails and the data handed on is the whole body
      ↔  wherever the stream is cut, the reader can be made and has read no less than before
      (decoded_in_chunks_iff)

`Decompressors` has what the decompressors do on a given input, and `ValidStream` what is known of
them on a valid stream and its prefixes.
-/

namespace AgentRouter.ExtProc

open List

/-! ## Algorithm -/

inductive IOError where
  /-- `io.ErrUnexpectedEOF`. -/
  | unexpectedEOF
  | other (text : String)
  deriving DecidableEq

/-- What `io.ReadAll` gets from a reader. -/
structure ReadResult where
  data : Bytes
  err : Option IOError
  deriving DecidableEq

/-- The readers of the two encodings over a given input.  Making a gzip reader reads the header. -/
structure Decompressors where
  gzip : Bytes → Except IOError ReadResult
  brotli : Bytes → ReadResult

inductive DecodeError where
  /-- "failed to decode gzip: %w". -/
  | gzip (err : IOError)
  /-- "failed to decompress streaming content: %w". -/
  | decompress (err : IOError)
  /-- the slice of the new data starts behind its end. -/
  | sliceBounds

structure ContentDecodingResult where
  reader : ReadResult
  isEncoded : Bool

/-- An empty body has nothing to decompress. -/
def decodeContentIfNeeded (lib : Decompressors) (body : Bytes) (contentEncoding : String) :
    Except DecodeError ContentDecodingResult :=
  if body = [] then .ok ⟨⟨body, none⟩, false⟩
  else if contentEncoding = "gzip" then
    match lib.gzip body with
    | .error err => .error (.gzip err)
    | .ok reader => .ok ⟨reader, true⟩
  else if contentEncoding = "br" then .ok ⟨lib.brotli body, true⟩
  else .ok ⟨⟨body, none⟩, false⟩

/-- What the upstream processor keeps between the chunks of a response. -/
structure StreamDecoder where
  responseEncoding : String
  compressedBuf : Bytes
  decompressedOffset : Nat

/-- The end of the input is expected as long as the stream goes on. -/
def fatal (err : Option IOError) (endOfStream : Bool) : Option IOError :=
  match err with
  | none => none
  | some .unexpectedEOF => if endOfStream then some .unexpectedEOF else none
  | some (.other text) => some (.other text)

def decodeStreamingContent (lib : Decompressors) (u : StreamDecoder) (chunk : Bytes)
    (endOfStream : Bool) : Except DecodeError (ContentDecodingResult × StreamDecoder) :=
  let compressedBuf := u.compressedBuf ++ chunk
  match decodeContentIfNeeded lib compressedBuf u.responseEncoding with
  | .error err => .error err
  | .ok decodingResult =>
    match fatal decodingResult.reader.err endOfStream with
    | some err => .error (.decompress err)
    | none =>
      let allDecompressed := decodingResult.reader.data
      if allDecompressed.length < u.decompressedOffset then .error .sliceBounds
      else
        .ok (⟨⟨allDecompressed.drop u.decompressedOffset, none⟩, true⟩,
          { u with compressedBuf, decompressedOffset := allDecompressed.length })

/-- The part of `ProcessResponseBody` that decodes; `stream` is whether the request asked for a
stream. -/
def decodeResponseBody (lib : Decompressors) (stream : Bool) (u : StreamDecoder) (body : Bytes)
    (endOfStream : Bool) : Except DecodeError (ContentDecodingResult × StreamDecoder) :=
  if stream = true ∧ u.responseEncoding ≠ "" then decodeStreamingContent lib u body endOfStream
  else (decodeContentIfNeeded lib body u.responseEncoding).map fun r => (r, u)

/-- What the translator gets call by call; `last` is the chunk with the end of the stream.  Nothing
follows a call that fails. -/
def decodeChunks (lib : Decompressors) : StreamDecoder → List Bytes → Bytes →
    Except DecodeError (List Bytes)
  | u, [], last => (decodeResponseBody lib true u last true).map fun r => [r.1.reader.data]
  | u, chunk :: chunks, last =>
    match decodeResponseBody lib true u chunk false with
    | .error err => .error err
    | .ok (r, u') => (decodeChunks lib u' chunks last).map fun out => r.reader.data :: out

/-! ## Valid streams -/

/-- The encodings that are decompressed. -/
inductive Encoding where
  | gzip
  | br

def Encoding.name : Encoding → String
  | .gzip => "gzip"
  | .br => "br"

/-- Making a reader and reading all of it. -/
def Decompressors.read (lib : Decompressors) : Encoding → Bytes → Except IOError ReadResult
  | .gzip, input => lib.gzip input
  | .br, input => .ok (lib.brotli input)

/-- The reader over this input can be made. -/
def Decompressors.Opens (lib : Decompressors) (enc : Encoding) (input : Bytes) : Prop :=
  ∃ r, lib.read enc input = .ok r

/-- What is read of an input. -/
def Decompressors.plain (lib : Decompressors) (enc : Encoding) (input : Bytes) : Bytes :=
  if input = [] then []
  else match lib.read enc input with
    | .error _ => []
    | .ok r => r.data

/-- A compressed body: the whole is read without an error, and a part of it up to an unexpected end,
which comes when the reader is made or behind a part of the body. -/
structure ValidStream (lib : Decompressors) (enc : Encoding) (compressed body : Bytes) : Prop where
  nonempty : compressed ≠ []
  whole : lib.read enc compressed = .ok ⟨body, none⟩
  part : ∀ p, p <+: compressed → p ≠ [] → p ≠ compressed →
    lib.read enc p = .error .unexpectedEOF ∨
      ∃ data, data <+: body ∧ lib.read enc p = .ok ⟨data, some .unexpectedEOF⟩

/-- What has been received after each chunk. -/
def received (buffer : Bytes) : List Bytes → List Bytes
  | [] => []
  | chunk :: chunks => (buffer ++ chunk) :: received (buffer ++ chunk) chunks

/-- With these bytes a call can go on: the reader can be made, and the new data starts within what
is read. -/
def Decompressors.Continues (lib : Decompressors) (enc : Encoding) (offset : Nat)
    (buffer : Bytes) : Prop :=
  (buffer ≠ [] → lib.Opens enc buffer) ∧ offset ≤ (lib.plain enc buffer).length

/-! ## Lemmas -/

section

variable {lib : Decompressors} {enc : Encoding} {compressed body : Bytes}

theorem Encoding.name_ne_empty (enc : Encoding) : enc.name ≠ "" := by
  cases enc <;> decide

theorem plain_nil (lib : Decompressors) (enc : Encoding) : lib.plain enc [] = [] := rfl

variable {buffer : Bytes}

theorem decodeContentIfNeeded_name (lib : Decompressors) (enc : Encoding) (h : buffer ≠ []) :
    decodeContentIfNeeded lib buffer enc.name =
      match lib.read enc buffer with
      | .error err => .error (.gzip err)
      | .ok reader => .ok ⟨reader, true⟩ := by
  unfold decodeContentIfNeeded
  rw [if_neg h]
  cases enc with
  | gzip => rfl
  | br => rfl

theorem plain_of_read {r : ReadResult} (hne : buffer ≠ []) (h : lib.read enc buffer = .ok r) :
    lib.plain enc buffer = r.data := by
  unfold Decompressors.plain
  rw [if_neg hne, h]

variable (hvalid : ValidStream lib enc compressed body)
include hvalid

theorem ValidStream.plain_whole : lib.plain enc compressed = body :=
  plain_of_read hvalid.nonempty hvalid.whole

theorem ValidStream.isPrefix_plain (h : buffer <+: compressed) : lib.plain enc buffer <+: body := by
  by_cases hnil : buffer = []
  · rw [hnil]
    exact nil_prefix
  by_cases hwhole : buffer = compressed
  · have hplain : lib.plain enc buffer = body := by rw [hwhole, hvalid.plain_whole]
    exact hplain ▸ prefix_rfl
  rcases hvalid.part buffer h hnil hwhole with herr | ⟨data, hdata, hread⟩
  · unfold Decompressors.plain
    rw [if_neg hnil, herr]
    exact nil_prefix
  · rw [plain_of_read hnil hread]
    exact hdata

/-- A reader that can be made fails at most with an unexpected end, and not on the whole stream. -/
theorem ValidStream.read_of_opens (h : buffer <+: compressed) (hne : buffer ≠ [])
    (hopens : lib.Opens enc buffer) {endOfStream : Bool}
    (hend : endOfStream = true → buffer = compressed) :
    ∃ err, lib.read enc buffer = .ok ⟨lib.plain enc buffer, err⟩ ∧ fatal err endOfStream = none := by
  by_cases hwhole : buffer = compressed
  · refine ⟨none, ?_, rfl⟩
    rw [hwhole, hvalid.plain_whole]
    exact hvalid.whole
  · have hnot : endOfStream = false := by
      cases endOfStream with
      | false => rfl
      | true => exact absurd (hend rfl) hwhole
    rcases hvalid.part buffer h hne hwhole with herr | ⟨data, hdata, hread⟩
    · obtain ⟨r, hr⟩ := hopens
      rw [herr] at hr
      cases hr
    · refine ⟨some .unexpectedEOF, ?_, ?_⟩
      · rw [plain_of_read hne hread]
        exact hread
      · rw [hnot]
        rfl

variable {u : StreamDecoder}

theorem decodeResponseBody_of_opens {chunk : Bytes} (endOfStream : Bool)
    (henc : u.responseEncoding = enc.name) (hbuffer : u.compressedBuf ++ chunk <+: compressed)
    (hend : endOfStream = true → u.compressedBuf ++ chunk = compressed)
    (hopens : u.compressedBuf ++ chunk ≠ [] → lib.Opens enc (u.compressedBuf ++ chunk)) :
    decodeResponseBody lib true u chunk endOfStream =
      if (lib.plain enc (u.compressedBuf ++ chunk)).length < u.decompressedOffset then
        .error .sliceBounds
      else
        .ok (⟨⟨(lib.plain enc (u.compressedBuf ++ chunk)).drop u.decompressedOffset, none⟩, true⟩,
          { u with
            compressedBuf := u.compressedBuf ++ chunk
            decompressedOffset := (lib.plain enc (u.compressedBuf ++ chunk)).length }) := by
  unfold decodeResponseBody
  rw [if_pos ⟨rfl, by rw [henc]; exact enc.name_ne_empty⟩]
  unfold decodeStreamingContent
  dsimp only
  by_cases hnil : u.compressedBuf ++ chunk = []
  · rw [hnil, plain_nil]
    rfl
  · obtain ⟨err, hread, hfatal⟩ := hvalid.read_of_opens hbuffer hnil (hopens hnil) hend
    rw [henc, decodeContentIfNeeded_name lib enc hnil, hread]
    dsimp only
    rw [hfatal]

theorem decodeResponseBody_of_not_continues {chunk : Bytes} (henc : u.responseEncoding = enc.name)
    (hbuffer : u.compressedBuf ++ chunk <+: compressed)
    (h : ¬ lib.Continues enc u.decompressedOffset (u.compressedBuf ++ chunk)) :
    ∃ err, decodeResponseBody lib true u chunk false = .error err := by
  by_cases hopens : u.compressedBuf ++ chunk ≠ [] → lib.Opens enc (u.compressedBuf ++ chunk)
  · have hoffset : ¬ u.decompressedOffset ≤ (lib.plain enc (u.compressedBuf ++ chunk)).length :=
      fun hle => h ⟨hopens, hle⟩
    rw [decodeResponseBody_of_opens hvalid false henc hbuffer (by simp) hopens, if_pos (by omega)]
    exact ⟨_, rfl⟩
  · obtain ⟨hnil, hopens⟩ := Classical.not_imp.mp hopens
    unfold decodeResponseBody
    rw [if_pos ⟨rfl, by rw [henc]; exact enc.name_ne_empty⟩]
    unfold decodeStreamingContent
    dsimp only
    rw [henc, decodeContentIfNeeded_name lib enc hnil]
    cases hread : lib.read enc (u.compressedBuf ++ chunk) with
    | error err => exact ⟨.gzip err, rfl⟩
    | ok r => exact absurd ⟨r, hread⟩ hopens

theorem plain_append_drop {more : Bytes} (hbuffer : buffer ++ more <+: compressed)
    (hle : (lib.plain enc buffer).length ≤ (lib.plain enc (buffer ++ more)).length) :
    lib.plain enc buffer ++ (lib.plain enc (buffer ++ more)).drop (lib.plain enc buffer).length =
      lib.plain enc (buffer ++ more) := by
  have hbefore : lib.plain enc buffer <+: lib.plain enc (buffer ++ more) := by
    refine prefix_of_prefix_length_le ?_ (hvalid.isPrefix_plain hbuffer) hle
    exact hvalid.isPrefix_plain ((prefix_append _ _).trans hbuffer)
  obtain ⟨new, hnew⟩ := hbefore
  rw [← hnew, drop_left]

theorem decodeChunks_last (henc : u.responseEncoding = enc.name)
    (hoffset : u.decompressedOffset = (lib.plain enc u.compressedBuf).length) {last : Bytes}
    (hwhole : u.compressedBuf ++ last = compressed) :
    ∃ outs, decodeChunks lib u [] last = .ok outs ∧ lib.plain enc u.compressedBuf ++ outs.flatten = body := by
  have hbuffer : u.compressedBuf ++ last <+: compressed := hwhole ▸ prefix_rfl
  have hplain : lib.plain enc (u.compressedBuf ++ last) = body := by
    rw [hwhole, hvalid.plain_whole]
  have hle : (lib.plain enc u.compressedBuf).length ≤ (lib.plain enc (u.compressedBuf ++ last)).length := by
    rw [hplain]
    exact (hvalid.isPrefix_plain ⟨last, hwhole⟩).length_le
  have hopens : lib.Opens enc (u.compressedBuf ++ last) := by
    rw [hwhole]
    exact ⟨_, hvalid.whole⟩
  rw [decodeChunks, decodeResponseBody_of_opens hvalid true henc hbuffer (fun _ => hwhole)
    fun _ => hopens, hoffset, if_neg (not_lt.mpr hle)]
  refine ⟨_, rfl, ?_⟩
  rw [flatten_singleton, plain_append_drop hvalid hbuffer hle, hplain]

/-- The calls from a state on: they go on at every cut, and what they hand on is the rest of the
body. -/
theorem decodeChunks_eq_ok_iff (henc : u.responseEncoding = enc.name)
    (hoffset : u.decompressedOffset = (lib.plain enc u.compressedBuf).length) (chunks : List Bytes)
    (last : Bytes) (hall : u.compressedBuf ++ chunks.flatten ++ last = compressed) :
    (∃ outs, decodeChunks lib u chunks last = .ok outs ∧
        lib.plain enc u.compressedBuf ++ outs.flatten = body) ↔
      (∀ p ∈ received u.compressedBuf chunks, p ≠ [] → lib.Opens enc p) ∧
        List.IsChain (fun p q => (lib.plain enc p).length ≤ (lib.plain enc q).length)
          (u.compressedBuf :: received u.compressedBuf chunks) := by
  induction chunks generalizing u with
  | nil =>
    simp only [received, not_mem_nil, false_implies, implies_true, isChain_singleton, and_self, iff_true]
    exact decodeChunks_last hvalid henc hoffset (by simpa using hall)
  | cons chunk chunks ih =>
    have hbuffer : u.compressedBuf ++ chunk <+: compressed :=
      ⟨chunks.flatten ++ last, by rw [← hall]; simp⟩
    rw [received, forall_mem_cons, isChain_cons_cons, ← hoffset]
    by_cases hcontinues : lib.Continues enc u.decompressedOffset (u.compressedBuf ++ chunk)
    · obtain ⟨hopens, hle⟩ := hcontinues
      have hrest := ih (u := { u with
          compressedBuf := u.compressedBuf ++ chunk
          decompressedOffset := (lib.plain enc (u.compressedBuf ++ chunk)).length })
        henc rfl (by rw [← hall]; simp)
      have hjoin := plain_append_drop hvalid hbuffer (hoffset ▸ hle)
      rw [decodeChunks, decodeResponseBody_of_opens hvalid false henc hbuffer (by simp) hopens,
        if_neg (not_lt.mpr hle)]
      dsimp only at hrest ⊢
      rw [and_iff_right hopens, and_iff_right hle, ← hrest]
      constructor
      · rintro ⟨outs, hout, hflat⟩
        obtain ⟨outs', hout', rfl⟩ := Results.map_eq_ok hout
        refine ⟨outs', hout', ?_⟩
        rwa [flatten_cons, ← append_assoc, hoffset, hjoin] at hflat
      · rintro ⟨outs', hout', hflat⟩
        refine ⟨_, by rw [hout']; rfl, ?_⟩
        rwa [flatten_cons, ← append_assoc, hoffset, hjoin]
    · obtain ⟨err, herr⟩ := decodeResponseBody_of_not_continues hvalid henc hbuffer hcontinues
      rw [decodeChunks, herr]
      constructor
      · rintro ⟨outs, hout, -⟩
        cases hout
      · rintro ⟨⟨hopens, -⟩, hle, -⟩
        exact absurd ⟨hopens, hle⟩ hcontinues

end

/-! ## Top theorem -/

/-- The state at the start of a response. -/
def StreamDecoder.init (enc : Encoding) : StreamDecoder := ⟨enc.name, [], 0⟩

theorem decoded_in_chunks_iff (lib : Decompressors) (enc : Encoding) (body : Bytes)
    (chunks : List Bytes) (last : Bytes)
    (hvalid : ValidStream lib enc (chunks.flatten ++ last) body) :
    (∃ outs, decodeChunks lib (.init enc) chunks last = .ok outs ∧ outs.flatten = body) ↔
      (∀ p ∈ received [] chunks, p ≠ [] → lib.Opens enc p) ∧
        (received [] chunks).IsChain
          fun p q => (lib.plain enc p).length ≤ (lib.plain enc q).length := by
  have hrun := decodeChunks_eq_ok_iff hvalid (u := .init enc) rfl rfl chunks last rfl
  have hchain : List.IsChain (fun p q => (lib.plain enc p).length ≤ (lib.plain enc q).length)
      ([] :: received [] chunks) ↔ (received [] chunks).IsChain
        fun p q => (lib.plain enc p).length ≤ (lib.plain enc q).length := by
    rw [isChain_cons]
    exact and_iff_right fun p _ => Nat.zero_le _
  rw [← hchain]
  exact hrun

/-! ### A stream of one stored block -/

/-- The text "hi" as a gzip stream: ten bytes of header, a block that is not compressed, the checksum
and the length. -/
def storedStream : Bytes :=
  [0x1F, 0x8B, 8, 0, 0, 0, 0, 0, 0, 0xFF, 1, 2, 0, 0xFD, 0xFF, 104, 105, 0xAC, 0x2A, 0x93, 0xD8, 2,
    0, 0, 0]

/-- The readers, as far as this stream goes. -/
def storedReaders : Decompressors where
  gzip input :=
    if input.isPrefixOf storedStream then
      if input.length < 10 then .error .unexpectedEOF
      else
        .ok ⟨(input.drop 15).take 2,
          if input.length < storedStream.length then some .unexpectedEOF else none⟩
    else .error (.other "gzip: invalid header")
  brotli _ := ⟨[], some .unexpectedEOF⟩

theorem validStream_storedStream : ValidStream storedReaders .gzip storedStream [104, 105] where
  nonempty := by decide
  whole := by decide
  part := by
    intro p hp hne hwhole
    have hcases : ∀ n < 25, storedReaders.read .gzip (storedStream.take n) =
        .error .unexpectedEOF ∨ ∃ k < 3, storedReaders.read .gzip (storedStream.take n) =
          .ok ⟨[104, 105].take k, some .unexpectedEOF⟩ := by decide
    have hlen : p.length < 25 := by
      by_contra hge
      apply hwhole
      exact hp.eq_of_length_le (by simpa [storedStream] using hge)
    rw [prefix_iff_eq_take.mp hp]
    rcases hcases p.length hlen with herr | ⟨k, -, hread⟩
    · exact .inl herr
    · exact .inr ⟨_, take_prefix k _, hread⟩

/-- Cut behind the header and in the middle of the text. -/
theorem stored_stream_decoded :
    ∃ outs, decodeChunks storedReaders (.init .gzip) [storedStream.take 10, [1, 2, 0, 0xFD, 0xFF, 104]]
      (storedStream.drop 16) = .ok outs ∧ outs.flatten = [104, 105] := by
  have hvalid : ValidStream storedReaders .gzip
      ([storedStream.take 10, [1, 2, 0, 0xFD, 0xFF, 104]].flatten ++ storedStream.drop 16)
      [104, 105] := validStream_storedStream
  refine (decoded_in_chunks_iff storedReaders .gzip [104, 105] _ _ hvalid).mpr ?_
  constructor
  · intro p hp _
    rcases mem_pair.mp hp with rfl | rfl
    · exact ⟨_, rfl⟩
    · exact ⟨_, rfl⟩
  · decide

/-- Cut behind the third byte. -/
theorem cut_in_header_fails :
    ¬ ∃ outs, decodeChunks storedReaders (.init .gzip) [storedStream.take 3] (storedStream.drop 3) =
      .ok outs ∧ outs.flatten = [104, 105] := by
  rintro ⟨outs, hout, -⟩
  cases hout

end AgentRouter.ExtProc
