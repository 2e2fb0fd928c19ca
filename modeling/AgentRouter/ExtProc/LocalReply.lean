import AgentRouter.Lib.Base64
import AgentRouter.Lib.GoMap
import AgentRouter.Lib.JsonText
import AgentRouter.Lib.Text

/-!
# LocalReply: the errors that the gateway answers itself

A request that the external processor cannot serve is answered with a small JSON document.  The
message of the error is written into it between quotation marks, as it is:

    {"type":"error","error":{"type":"<type>","code":"<code>","message":"<message>"}}

Messages quote what clients send and what parsers say about it, so they can have any bytes:

    the body is a document of this shape with that message ↔ the message is a text without
    quotation marks, backslashes and control letters   (validBody_iff)

`LocalError` lists the places that answer so, with the parts of their messages that vary.  A request
on a path without a processor is answered before any of them, with a plain text (`LocalReply`), so
the replies are valid only where there is a processor   (localReply_valid_iff).
-/

namespace AgentRouter.ExtProc

open Text JsonText

/-! ## Algorithm -/

/-- An error with the sentinels that `errors.Is` finds in its chain. -/
structure GoError where
  text : Bytes
  malformedRequest : Bool
  invalidRequestBody : Bool

def getUserFacingError (err : GoError) : Option GoError :=
  if err.malformedRequest then some err
  else if err.invalidRequestBody then some err
  else none

/-- Which response of a files backend an error is about. -/
inductive FilesKind where
  | file | list
  deriving DecidableEq

def FilesKind.text : FilesKind → String
  | .file => "files response"
  | .list => "files list response"

/-- The arguments of `filesReEncodeError`. -/
inductive ReEncodeError where
  | content
  | missingID
  | encodeID
  | noRoute (model : Bytes)
  | unknownBackend (kind : FilesKind)
  | emptyBody (kind : FilesKind)
  | untranslated (kind : FilesKind)
  | notAList
  | encodeListID
  | encodeList
  deriving DecidableEq

/-- The calls of `createUserFacingErrorResponse`. -/
inductive LocalError where
  /-- the router filter cannot parse the body. -/
  | malformedBody (err : Bytes)
  /-- the backend's schema has no translator for the endpoint. -/
  | unsupportedBackend (err : Bytes)
  /-- the request cannot be translated. -/
  | untranslatable (err : Bytes)
  | missingUpstreamCredential
  | unsupportedFilesRequest
  | invalidAfterCursor
  | missingModelQuery
  | missingModelField
  | noSuchFile (gatewayID : Bytes)
  | untranslatableFiles (err : Bytes)
  | reEncode (err : ReEncodeError)
  deriving DecidableEq

namespace LocalError

def statusCode : LocalError → Nat
  | malformedBody _ => 400
  | unsupportedBackend _ | untranslatable _ | untranslatableFiles _ => 422
  | missingUpstreamCredential => 401
  | unsupportedFilesRequest | noSuchFile _ => 404
  | invalidAfterCursor | missingModelQuery | missingModelField => 400
  | reEncode _ => 502

def errorType : LocalError → String
  | malformedBody _ => "BadRequest"
  | unsupportedBackend _ | untranslatable _ | untranslatableFiles _ => "UnprocessableEntity"
  | missingUpstreamCredential => "Unauthorized"
  | unsupportedFilesRequest | noSuchFile _ => "NotFoundError"
  | invalidAfterCursor | missingModelQuery | missingModelField => "invalid_request_error"
  | reEncode _ => "upstream_error"

end LocalError

/-- `%q`; how the letters between the quotation marks are escaped is left open. -/
def goQuote (escape : Bytes → Bytes) (s : Bytes) : Bytes := utf8 "\"" ++ escape s ++ utf8 "\""

section

variable (escape : Bytes → Bytes)

def ReEncodeError.message : ReEncodeError → Bytes
  | content => utf8 "failed to process upstream files content response"
  | missingID => utf8 "missing id in upstream files response"
  | encodeID => utf8 "failed to encode file id in upstream files response"
  | noRoute model => utf8 "no backend route found for model " ++ goQuote escape model
  | unknownBackend kind => utf8 ("backend unknown for upstream " ++ kind.text)
  | emptyBody kind => utf8 ("empty body in upstream " ++ kind.text)
  | untranslated kind => utf8 ("failed to process upstream " ++ kind.text)
  | notAList => utf8 "invalid or non-list body in upstream files list response"
  | encodeListID => utf8 "failed to encode file id in upstream files list response"
  | encodeList => utf8 "failed to encode upstream files list response"

def LocalError.message : LocalError → Bytes
  | malformedBody err | unsupportedBackend err | untranslatable err | untranslatableFiles err => err
  | missingUpstreamCredential => utf8 "missing upstream credential"
  | unsupportedFilesRequest => utf8 "unsupported Files API request"
  | invalidAfterCursor => utf8 "invalid after cursor"
  | missingModelQuery => utf8 "the 'model' query parameter is required"
  | missingModelField => utf8 "the 'model' field is required"
  | noSuchFile gatewayID => utf8 "No such File object: " ++ gatewayID
  | reEncode err => err.message escape

end

def formatUserFacingErrorJSON (errorType : String) (statusCode : Nat) (message : Bytes) : Bytes :=
  utf8 ("\x7b\"type\":\"error\",\"error\":\x7b\"type\":\"" ++ errorType ++ "\",\"code\":\"" ++
    statusCode.repr ++ "\",\"message\":\"") ++ message ++ utf8 "\"\x7d\x7d"

/-- The body of the immediate response. -/
def LocalError.body (escape : Bytes → Bytes) (e : LocalError) : Bytes :=
  formatUserFacingErrorJSON e.errorType e.statusCode (e.message escape)

/-- The reply of `ProcessRequestBody` to a body that it cannot parse; without one the stream fails. -/
def malformedBodyReply (err : GoError) : Option LocalError :=
  (getUserFacingError err).map fun e => .malformedBody e.text

/-- The reply to a request that cannot be translated; without one the stream fails. -/
def untranslatableReply (err : GoError) : Option LocalError :=
  (getUserFacingError err).map fun e => .untranslatable e.text

/-- The same for a files request. -/
def untranslatableFilesReply (err : GoError) : Option LocalError :=
  (getUserFacingError err).map fun e => .untranslatableFiles e.text

/-! ## Paths without a processor -/

/-- `Server`: the processors registered for a path, and for all paths under one. -/
structure Server (φ : Type) where
  processorFactories : GoMap Bytes φ
  prefixProcessorFactories : List (Bytes × φ)

def withoutQuery (path : Bytes) : Bytes := path.takeWhile (· ≠ 63)

/-- The path itself, or one below it. -/
def isUnder (root path : Bytes) : Bool := path = root || (root ++ [47]).isPrefixOf path

/-- The loop over the roots: the longest one so far, and its length. -/
def longerMatch {φ : Type} (path : Bytes) (best : Option φ × Int) (pf : Bytes × φ) : Option φ × Int :=
  if isUnder pf.1 path ∧ (pf.1.length : Int) > best.2 then (some pf.2, pf.1.length) else best

def processorForPath {φ : Type} (s : Server φ) (path : Bytes) : Option φ :=
  let path := withoutQuery path
  (s.processorFactories.lookup path).or
    (s.prefixProcessorFactories.foldl (longerMatch path) (none, -1)).1

/-- What the gateway answers itself. -/
inductive LocalReply where
  | error (e : LocalError)
  | unsupportedPath (path : Bytes)

namespace LocalReply

def statusCode : LocalReply → Nat
  | error e => e.statusCode
  | unsupportedPath _ => 404

def message (escape : Bytes → Bytes) : LocalReply → Bytes
  | error e => e.message escape
  | unsupportedPath path => utf8 "unsupported path: " ++ path

def body (escape : Bytes → Bytes) : LocalReply → Bytes
  | error e => e.body escape
  | unsupportedPath path => utf8 "unsupported path: " ++ path

end LocalReply

/-- The reply to a request on a path that ends with this error if it gets to a processor. -/
def localReply {φ : Type} (s : Server φ) (path : Bytes) (e : LocalError) : LocalReply :=
  if (processorForPath s path).isSome then .error e else .unsupportedPath path

/-! ## The documented shape -/

def errorDocument (errorType code message : String) : Doc :=
  .obj [("type".toList, .str "error".toList),
    ("error".toList, .obj [("type".toList, .str errorType.toList), ("code".toList, .str code.toList),
      ("message".toList, .str message.toList)])]

/-- The body is a JSON document of the documented shape, and its message is the one given. -/
def ValidBody (errorType : String) (statusCode : Nat) (message body : Bytes) : Prop :=
  ∃ text decoded : String, utf8 text = body ∧ utf8 decoded = message ∧
    document text.toList = some (errorDocument errorType statusCode.repr decoded)

/-- The body is such a document; a path without a processor has no error type of its own. -/
def LocalReply.Valid (escape : Bytes → Bytes) (r : LocalReply) : Prop :=
  match r with
  | error e => ValidBody e.errorType r.statusCode (r.message escape) (r.body escape)
  | unsupportedPath _ => ∃ errorType, ValidBody errorType r.statusCode (r.message escape) (r.body escape)

/-- A text that needs no escape. -/
def PlainMessage (message : Bytes) : Prop :=
  ∃ text : String, utf8 text = message ∧ text.toList.all isPlain = true

/-! ## Lemmas -/

/-- A name in quotation marks and a colon. -/
def field (name rest : List Char) : List Char := '"' :: (name ++ '"' :: ':' :: rest)

def quotedText (s rest : List Char) : List Char := '"' :: (s ++ '"' :: rest)

/-- The part of the body behind the opening brace of the inner object. -/
def innerText (errorType code message : List Char) : List Char :=
  field "type".toList (quotedText errorType (',' :: field "code".toList (quotedText code
    (',' :: field "message".toList (quotedText message ['}', '}'])))))

def bodyText (errorType code message : List Char) : List Char :=
  '{' :: field "type".toList (quotedText "error".toList (',' :: field "error".toList
    ('{' :: innerText errorType code message)))

theorem items_stringField {name v : List Char} (hname : name.all isPlain = true)
    (hv : v.all isPlain = true) (depth fuel : Nat) (rest : List Char) :
    itemsUpTo (member (value (depth + 1))) '}' (fuel + 1) (field name (quotedText v (',' :: rest))) =
      (itemsUpTo (member (value (depth + 1))) '}' fuel rest).map
        fun r => ((name, .str v) :: r.1, r.2) := by
  apply itemsUpTo_comma (by decide)
  rw [field, member_plain hname, quotedText, value_plain hv]
  rfl

theorem value_object {v : List Char} (hv : v.all isPlain = true) (depth : Nat) (rest : List Char) :
    ∃ fuel, value (depth + 2) ('{' :: field "type".toList (quotedText v (',' :: rest))) =
      (itemsUpTo (member (value (depth + 1))) '}' (fuel + 2) rest).map fun r =>
        (.obj (("type".toList, .str v) :: r.1), r.2) := by
  obtain ⟨fuel, hfuel⟩ : ∃ fuel, ("type".toList ++ '"' :: ':' :: quotedText v (',' :: rest)).length =
      fuel + 2 := ⟨v.length + rest.length + 7, by simp [quotedText]; omega⟩
  refine ⟨fuel, ?_⟩
  rw [value_brace, field, bracketed_cons (by decide) (by decide), ← field, hfuel,
    items_stringField (by decide) hv, Option.map_map]
  rfl

section

variable {errorType code : List Char} (htype : errorType.all isPlain = true)
  (hcode : code.all isPlain = true)

include htype hcode

theorem value_innerText (depth : Nat) (message : List Char) :
    ∃ fuel, value (depth + 2) ('{' :: innerText errorType code message) =
      (itemsUpTo (member (value (depth + 1))) '}' (fuel + 1)
        (field "message".toList (quotedText message ['}', '}']))).map fun r =>
          (.obj (("type".toList, .str errorType) :: ("code".toList, .str code) :: r.1), r.2) := by
  obtain ⟨fuel, hvalue⟩ := value_object htype depth (field "code".toList (quotedText code
    (',' :: field "message".toList (quotedText message ['}', '}']))))
  rw [innerText, hvalue, items_stringField (by decide) hcode, Option.map_map]
  exact ⟨fuel, rfl⟩

theorem document_bodyText_iff (message : List Char) :
    document (bodyText errorType code message) = some (.obj [("type".toList, .str "error".toList),
        ("error".toList, .obj [("type".toList, .str errorType), ("code".toList, .str code),
          ("message".toList, .str message)])]) ↔ message.all isPlain = true := by
  obtain ⟨depth, hdepth⟩ : ∃ depth, (bodyText errorType code message).length + 1 = depth + 1 + 2 := by
    refine ⟨(bodyText errorType code message).length - 2, ?_⟩
    simp only [bodyText, field, quotedText, List.length_cons, List.length_append]
    omega
  obtain ⟨outerFuel, houter⟩ := value_object (v := "error".toList) (by decide) (depth + 1)
    (field "error".toList ('{' :: innerText errorType code message))
  obtain ⟨innerFuel, hinner⟩ := value_innerText htype hcode depth message
  rw [document_eq_some_iff, hdepth, bodyText, houter]
  constructor
  · rintro ⟨rest, hvalue, -⟩
    -- from the outside in: the last member of each object is followed by its closing brace
    obtain ⟨⟨outer, rest'⟩, hitems, heq⟩ := Option.map_eq_some_iff.mp hvalue
    obtain ⟨rfl, rfl⟩ := heq
    obtain ⟨behindError, herror, hlen⟩ := item_of_itemsUpTo hitems
    rw [field, member_plain (by decide), hinner] at herror
    simp only [Option.map_map, Option.map_eq_some_iff, Function.comp_apply, Prod.mk.injEq,
      Doc.obj.injEq, List.cons.injEq, true_and, Prod.exists] at herror
    obtain ⟨inner, rest'', hitems', rfl, rfl⟩ := herror
    obtain ⟨behindMessage, hmessage, hlen'⟩ := item_of_itemsUpTo hitems'
    rw [field, member_plain (by decide), quotedText, value_quote] at hmessage
    simp only [Option.map_map, Option.map_eq_some_iff, Function.comp_apply, Prod.mk.injEq,
      Doc.str.injEq, true_and, Prod.exists] at hmessage
    obtain ⟨v, rest3, hbody, rfl, rfl⟩ := hmessage
    rcases stringBody_eq_some hbody with ⟨-, hplain⟩ | hshort
    · exact hplain
    · -- what is read behind the message is too long for a message that was written longer
      simp only [List.length_append, List.length_cons, List.length_nil] at hshort
      omega
  · intro hplain
    have hmessage : member (value (depth + 1))
        (field "message".toList (quotedText message ['}', '}'])) =
          some (("message".toList, .str message), ['}', '}']) := by
      rw [field, member_plain (by decide), quotedText, value_plain hplain]
      rfl
    have herror : member (value (depth + 2))
        (field "error".toList ('{' :: innerText errorType code message)) =
          some (("error".toList, .obj [("type".toList, .str errorType), ("code".toList, .str code),
            ("message".toList, .str message)]), ['}']) := by
      rw [field, member_plain (by decide), hinner, itemsUpTo_close (by decide) _ hmessage]
      rfl
    refine ⟨[], ?_, rfl⟩
    rw [itemsUpTo_close (by decide) _ herror]
    rfl

end

theorem toList_bodyText (errorType code message : String) :
    ("\x7b\"type\":\"error\",\"error\":\x7b\"type\":\"" ++ errorType ++ "\",\"code\":\"" ++ code ++
        "\",\"message\":\"" ++ message ++ "\"\x7d\x7d").toList =
      bodyText errorType.toList code.toList message.toList := by
  simp [bodyText, innerText, field, quotedText]

theorem validBody_iff {errorType : String} {statusCode : Nat} (message : Bytes)
    (htype : errorType.toList.all isPlain = true)
    (hcode : statusCode.repr.toList.all isPlain = true) :
    ValidBody errorType statusCode message
        (formatUserFacingErrorJSON errorType statusCode message) ↔ PlainMessage message := by
  have hbody (s : String) : formatUserFacingErrorJSON errorType statusCode (utf8 s) =
      utf8 ("\x7b\"type\":\"error\",\"error\":\x7b\"type\":\"" ++ errorType ++ "\",\"code\":\"" ++
        statusCode.repr ++ "\",\"message\":\"" ++ s ++ "\"\x7d\x7d") := by
    simp only [formatUserFacingErrorJSON, utf8_append]
  constructor
  · rintro ⟨text, decoded, htext, rfl, hdocument⟩
    rw [hbody, utf8_inj] at htext
    rw [htext, toList_bodyText] at hdocument
    exact ⟨decoded, rfl, (document_bodyText_iff htype hcode decoded.toList).mp hdocument⟩
  · rintro ⟨decoded, rfl, hplain⟩
    refine ⟨_, decoded, (hbody decoded).symm, rfl, ?_⟩
    rw [toList_bodyText]
    exact (document_bodyText_iff htype hcode decoded.toList).mpr hplain

theorem LocalError.plain_errorType (e : LocalError) : e.errorType.toList.all isPlain = true := by
  cases e <;> simp only [errorType] <;> decide

theorem LocalError.plain_statusCode (e : LocalError) : e.statusCode.repr.toList.all isPlain = true := by
  cases e <;> simp only [statusCode] <;> decide

/-! ## Top theorem -/

theorem LocalError.valid_iff (escape : Bytes → Bytes) (e : LocalError) :
    (LocalReply.error e).Valid escape ↔ PlainMessage (e.message escape) :=
  validBody_iff (e.message escape) e.plain_errorType e.plain_statusCode

theorem toList_of_utf8_cons {text : String} {b : UInt8} {rest : Bytes} {c : Char}
    (hb : b.toNat < 128) (hc : b.toNat = c.toNat) (h : utf8 text = b :: rest) :
    ∃ s, text.toList = c :: s := by
  rw [utf8_eq_flatMap] at h
  cases htext : text.toList with
  | nil =>
    rw [htext] at h
    cases h
  | cons d s =>
    rw [htext, List.flatMap_cons] at h
    obtain ⟨b', bytes, hd⟩ := List.exists_cons_of_ne_nil (String.utf8EncodeChar_ne_nil (c := d))
    rw [hd, List.cons_append, List.cons.injEq] at h
    have hmem : b ∈ String.utf8EncodeChar d := by
      rw [hd, h.1]
      exact List.mem_cons_self
    have hdc : d = c := Char.toNat_inj.mp ((toNat_of_mem_utf8EncodeChar hmem hb).trans hc)
    exact ⟨s, by rw [hdc]⟩

theorem LocalReply.not_valid_unsupportedPath (escape : Bytes → Bytes) (path : Bytes) :
    ¬ (LocalReply.unsupportedPath path).Valid escape := by
  rintro ⟨errorType, text, decoded, htext, -, hdocument⟩
  obtain ⟨s, hs⟩ := toList_of_utf8_cons (c := 'u') (by decide) rfl htext
  have hnone : document ('u' :: s) = none := rfl
  rw [hs, hnone] at hdocument
  cases hdocument

theorem localReply_valid_iff {φ : Type} (escape : Bytes → Bytes) (s : Server φ) (path : Bytes)
    (e : LocalError) :
    (localReply s path e).Valid escape ↔
      (processorForPath s path).isSome = true ∧ PlainMessage (e.message escape) := by
  unfold localReply
  cases hprocessor : (processorForPath s path).isSome with
  | false => simp [LocalReply.not_valid_unsupportedPath]
  | true => simp [LocalError.valid_iff]

theorem not_plainMessage_of_quote {message : Bytes} (s : String) (h : utf8 s = message)
    (hs : s.toList.all isPlain = false) : ¬ PlainMessage message := by
  rintro ⟨text, rfl, htext⟩
  rw [utf8_inj.mp h, htext] at hs
  cases hs

/-- Chat completions, and everything under `/v1/files`. -/
def chatAndFiles : Server String :=
  ⟨AList.insert (utf8 "/v1/chat/completions") "chat" ∅, [(utf8 "/v1/files", "files")]⟩

/-- What the Gemini translator says about a reasoning effort that it does not know, the id of a file
with a quotation mark, and a model that no route serves.  A path without a processor is answered
with a plain message, but with no document. -/
theorem quoted_messages_break_the_body :
    let unknownEffort := utf8
      "invalid request body: unsupported reasoning effort level: \"x\" (supported: none, low, medium, high)"
    untranslatableReply ⟨unknownEffort, false, true⟩ = some (.untranslatable unknownEffort) ∧
      (∀ r ∈ [("/v1/chat/completions", LocalError.untranslatable unknownEffort),
          ("/v1/files/a\"b", .noSuchFile (utf8 "a\"b")), ("/v1/files?x", .reEncode (.noRoute (utf8 "m")))],
        (processorForPath chatAndFiles (utf8 r.1)).isSome = true ∧
          ¬ (localReply chatAndFiles (utf8 r.1) r.2).Valid id) ∧
      (let r := localReply chatAndFiles (utf8 "/v1/foo") .unsupportedFilesRequest
       r = .unsupportedPath (utf8 "/v1/foo") ∧ r.body id = utf8 "unsupported path: /v1/foo" ∧
         PlainMessage (r.message id) ∧ ¬ r.Valid id) := by
  refine ⟨rfl, ?_, ?_⟩
  · intro r hr
    have hfound : (processorForPath chatAndFiles (utf8 r.1)).isSome = true := by
      simp only [List.mem_cons, List.not_mem_nil, or_false] at hr
      rcases hr with rfl | rfl | rfl
      all_goals decide
    refine ⟨hfound, ?_⟩
    rw [localReply, if_pos hfound, LocalError.valid_iff]
    intro hplain
    simp only [List.mem_cons, List.not_mem_nil, or_false] at hr
    rcases hr with rfl | rfl | rfl
    · exact not_plainMessage_of_quote _ rfl (by decide) hplain
    · refine not_plainMessage_of_quote "No such File object: a\"b" ?_ (by decide) hplain
      decide
    · refine not_plainMessage_of_quote "no backend route found for model \"m\"" ?_ (by decide) hplain
      decide
  · have hreply : localReply chatAndFiles (utf8 "/v1/foo") .unsupportedFilesRequest =
        .unsupportedPath (utf8 "/v1/foo") := by
      rw [localReply, if_neg (by decide)]
    rw [hreply]
    refine ⟨rfl, by decide, ⟨"unsupported path: /v1/foo", by decide, by decide⟩, ?_⟩
    exact LocalReply.not_valid_unsupportedPath id _

end AgentRouter.ExtProc
