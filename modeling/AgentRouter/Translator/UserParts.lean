import AgentRouter.Lib.Conversion
import AgentRouter.Lib.Cut
import AgentRouter.Lib.Text
import AgentRouter.Schema.ChatRequest

/-!
# UserParts: the parts of user messages for Anthropic, Gemini and Bedrock

A user message is a text or a list of parts of six types.  Each translator goes through the parts
and has cases for some of the types; a part of another type leaves no trace:

    a user message is converted with all its parts, or not at all
      ↔  some part is rejected, or no part of a type without a case has content
      (user_parts_kept_iff)

For Anthropic and Gemini these are `audio_url` and `video_url`, for Bedrock also `input_audio` and
`file`.  The parser of URLs and the table of media types are not part of the sources.
-/

namespace AgentRouter.UserParts

open OpenAI Text List

/-! ## Data URIs -/

inductive DataURIError where
  /-- "data uri does not have a valid format". -/
  | format
  /-- the data is not base64. -/
  | base64

/-- `(;base64)?,` -/
def afterType (cs : List Char) : Option (List Char) :=
  if ";base64,".toList.isPrefixOf cs then some (cs.drop ";base64,".length)
  else if ",".toList.isPrefixOf cs then some (cs.drop ",".length)
  else none

/-- `.+?` behind its first character: as short as possible, without a line feed. -/
def findType (seen : List Char) : List Char → Option (List Char × List Char)
  | [] => none
  | c :: cs =>
    match afterType (c :: cs) with
    | some rest => some (seen, rest)
    | none => if c = '\n' then none else findType (seen ++ [c]) cs

/-- `\Adata:(.+?)?(;base64)?,`: the type, which may be missing, and what follows. -/
def matchDataURI (uri : String) : Option (List Char × List Char) :=
  if startsWith uri "data:" then
    let cs := uri.toList.drop "data:".length
    let typed :=
      match cs with
      | [] => none
      | c :: rest => if c = '\n' then none else findType [c] rest
    typed.or ((afterType cs).map fun rest => ([], rest))
  else none

/-- The bytes of a text for the decoder, which knows no byte outside of ASCII. -/
def base64Bytes (cs : List Char) : Bytes :=
  cs.map fun c => if c.toNat < 128 then c.toNat.toUInt8 else 255

def parseDataURI (uri : String) : Except DataURIError (String × Bytes) :=
  match matchDataURI uri with
  | none => .error .format
  | some (contentType, data) =>
    match Base64.decode (base64Bytes data) with
    | none => .error .base64
    | some bin => .ok (String.ofList contentType, bin)

/-! ## Errors -/

inductive PartError where
  /-- "failed to parse image URL: %w". -/
  | imageURL (err : DataURIError)
  /-- "invalid media_type for image '%s'". -/
  | mediaType (contentType : String)
  /-- "invalid image data URI". -/
  | imageDataURI
  /-- "unsupported image format %s". -/
  | imageFormat (contentType : String)
  /-- "invalid image URL". -/
  | invalidImageURL
  /-- "invalid detail". -/
  | detail
  /-- "input audio content not supported yet", "audio content not supported yet". -/
  | audio
  /-- "file content not supported yet". -/
  | file
  /-- "unexpected content type for user message", "message 'content' must be a string or an array". -/
  | content

def isCacheEnabled (fields : Option CacheControl) : Bool := fields.any fun c => c.type = "ephemeral"

/-! ## Anthropic -/

inductive AnthropicSource where
  | base64 (mediaType : String) (data : Bytes)
  | url (url : String)

inductive AnthropicBlock where
  | text (text : String) (cacheControl : Option CacheControl)
  | image (source : AnthropicSource) (cacheControl : Option CacheControl)
  | document (source : AnthropicSource) (cacheControl : Option CacheControl)

def isAnthropicSupportedImageMediaType (mediaType : String) : Bool :=
  mediaType = "image/jpeg" || mediaType = "image/png" || mediaType = "image/gif" ||
    mediaType = "image/webp"

def cacheParam (fields : Option CacheControl) : Option CacheControl :=
  if isCacheEnabled fields then fields else none

def convertImageContentToAnthropic (imageURL : String) (fields : Option CacheControl) :
    Except PartError AnthropicBlock :=
  if startsWith imageURL "data:" then
    match parseDataURI imageURL with
    | .error err => .error (.imageURL err)
    | .ok (contentType, data) =>
      if contentType = "application/pdf" then
        .ok (.document (.base64 contentType (Base64.encode data)) (cacheParam fields))
      else if isAnthropicSupportedImageMediaType contentType then
        .ok (.image (.base64 contentType (Base64.encode data)) (cacheParam fields))
      else .error (.mediaType contentType)
  else if endsWith (toLower imageURL) ".pdf" then
    .ok (.document (.url imageURL) (cacheParam fields))
  else .ok (.image (.url imageURL) (cacheParam fields))

/-- One round of the loop of `convertContentPartsToAnthropic`. -/
@[simp] def anthropicPart : UserPart → Except PartError (List AnthropicBlock)
  | .text p => .ok [.text p.text (cacheParam p.cacheControl)]
  | .imageURL p => (convertImageContentToAnthropic p.url p.cacheControl).map fun block => [block]
  | .inputAudio _ => .error .audio
  | .file _ => .error .file
  | .audioURL _ => .ok []
  | .videoURL _ => .ok []

def convertContentPartsToAnthropic (parts : List UserPart) :
    Except PartError (List AnthropicBlock) :=
  (parts.mapM anthropicPart).map List.flatten

/-- `openAIToAnthropicContent` on the content of a user message. -/
def openAIToAnthropicContent : UserContent → Except PartError (List AnthropicBlock)
  | .absent => .ok []
  | .string v => if v = "" then .ok [] else .ok [.text v none]
  | .parts ps => convertContentPartsToAnthropic ps

/-! ## Gemini -/

/-- `net/url` and `mime`. -/
structure UrlLib where
  /-- the scheme of a URL, if it can be parsed. -/
  scheme : String → Option String
  /-- the media type for the extension of a path, empty if there is none. -/
  typeByExtension : String → String

inductive MediaResolution where
  | low
  | medium
  | high
  | unspecified

inductive GeminiData where
  | text (text : String)
  | bytes (data : Bytes) (mimeType : String)
  | uri (uri mimeType : String)

structure GeminiPart where
  data : GeminiData
  mediaResolution : Option MediaResolution

def mapDetailMediaResolution (detail : String) : Option MediaResolution :=
  if detail = "low" then some .low
  else if detail = "medium" then some .medium
  else if detail = "high" then some .high
  else if detail = "auto" then some .unspecified
  else none

def mediaResolutionAvailable (requestModel : String) : Bool :=
  Cut.contains requestModel.toList "gemini".toList && Cut.contains requestModel.toList "3".toList

section

variable (lib : UrlLib) (requestModel : String)

def geminiImageData (imgURL : String) : Except PartError GeminiData :=
  match lib.scheme imgURL with
  | none => .error .invalidImageURL
  | some scheme =>
    if scheme = "data" then
      match parseDataURI imgURL with
      | .error _ => .error .imageDataURI
      | .ok (mimeType, imgBytes) => .ok (.bytes imgBytes mimeType)
    else
      .ok (.uri imgURL (if lib.typeByExtension imgURL ≠ "" then lib.typeByExtension imgURL
        else "image/jpeg"))

def geminiResolution (detail : String) : Except PartError (Option MediaResolution) :=
  if detail ≠ "" ∧ mediaResolutionAvailable requestModel then
    match mapDetailMediaResolution detail with
    | none => .error .detail
    | some level => .ok (some level)
  else .ok none

/-- One round of the loop of `userMsgToGeminiParts`. -/
@[simp] def geminiPart : UserPart → Except PartError (List GeminiPart)
  | .text p => .ok [⟨.text p.text, none⟩]
  | .imageURL p =>
    if p.url = "" then .ok []
    else do
      let data ← geminiImageData lib p.url
      let resolution ← geminiResolution requestModel p.detail
      .ok [⟨data, resolution⟩]
  | .inputAudio _ => .error .audio
  | .file _ => .error .file
  | .audioURL _ => .ok []
  | .videoURL _ => .ok []

def userMsgToGeminiParts : UserContent → Except PartError (List GeminiPart)
  | .absent => .error .content
  | .string v => if v = "" then .ok [] else .ok [⟨.text v, none⟩]
  | .parts ps => (ps.mapM (geminiPart lib requestModel)).map List.flatten

end

/-! ## Bedrock -/

inductive BedrockBlock where
  | text (text : String)
  | image (format : String) (bytes : Bytes)
  | cachePoint

def bedrockFormat (contentType : String) : Option String :=
  if contentType = "image/png" then some "png"
  else if contentType = "image/jpeg" then some "jpeg"
  else if contentType = "image/gif" then some "gif"
  else if contentType = "image/webp" then some "webp"
  else none

def getCachePoint (fields : Option CacheControl) : List BedrockBlock :=
  if isCacheEnabled fields then [.cachePoint] else []

/-- One round of the loop of `openAIMessageToBedrockMessageRoleUser`. -/
@[simp] def bedrockPart : UserPart → Except PartError (List BedrockBlock)
  | .text p => .ok (.text p.text :: getCachePoint p.cacheControl)
  | .imageURL p =>
    match parseDataURI p.url with
    | .error _ => .error .imageDataURI
    | .ok (contentType, b) =>
      match bedrockFormat contentType with
      | none => .error (.imageFormat contentType)
      | some format => .ok (.image format b :: getCachePoint p.cacheControl)
  | .inputAudio _ => .ok []
  | .audioURL _ => .ok []
  | .videoURL _ => .ok []
  | .file _ => .ok []

/-- The content of the message; its role is the one given. -/
def openAIMessageToBedrockMessageRoleUser : UserContent → Except PartError (List BedrockBlock)
  | .absent => .error .content
  | .string v => .ok [.text v]
  | .parts ps => (ps.mapM bedrockPart).map List.flatten

/-! ## What the elements carry -/

/-- A part that holds something. -/
@[simp] def hasContent : UserPart → Bool
  | .text p => p.text ≠ ""
  | .inputAudio p => p.data ≠ ""
  | .imageURL p => p.url ≠ ""
  | .audioURL p => p.url ≠ ""
  | .videoURL p => p.url ≠ ""
  | .file p => p.fileData ≠ "" || p.fileID ≠ ""

/-- Where the content of a part that is no text comes from. -/
def sources : UserPart → List String
  | .text _ => []
  | .inputAudio p => [p.data]
  | .imageURL p => [p.url]
  | .audioURL p => [p.url]
  | .videoURL p => [p.url]
  | .file p => [p.fileData, p.fileID]

/-- What can be seen of an element: its text, and whether it has the content of a source. -/
structure View (β : Type) where
  textOf : β → Option String
  holdsSource : β → String → Prop

def View.carries {β : Type} (v : View β) (b : β) : UserPart → Prop
  | .text p => v.textOf b = some p.text
  | p => ∃ s ∈ sources p, s ≠ "" ∧ v.holdsSource b s

/-- The data is that of a data URI, or of the source itself. -/
def IsDataOf (data : Bytes) (source : String) : Prop :=
  (∃ contentType, parseDataURI source = .ok (contentType, data)) ∨
    Base64.decode (base64Bytes source.toList) = some data

def AnthropicSource.holds : AnthropicSource → String → Prop
  | .url u, s => u = s
  | .base64 _ data, s => ∃ bin, data = Base64.encode bin ∧ IsDataOf bin s

def anthropicView : View AnthropicBlock where
  textOf
    | .text t _ => some t
    | _ => none
  holdsSource
    | .text _ _, _ => False
    | .image source _, s => source.holds s
    | .document source _, s => source.holds s

def geminiView : View GeminiPart where
  textOf b :=
    match b.data with
    | .text t => some t
    | _ => none
  holdsSource b s :=
    match b.data with
    | .text _ => False
    | .bytes data _ => IsDataOf data s
    | .uri u _ => u = s

def bedrockView : View BedrockBlock where
  textOf
    | .text t => some t
    | _ => none
  holdsSource
    | .image _ bytes, s => IsDataOf bytes s
    | _, _ => False

/-! ### Types without a case -/

def isAudioOrVideoURL : UserPart → Bool
  | .audioURL _ => true
  | .videoURL _ => true
  | _ => false

def isNoTextOrImage : UserPart → Bool
  | .text _ => false
  | .imageURL _ => false
  | _ => true

/-! ### Parts that are rejected -/

@[simp] def anthropicRejects : UserPart → Bool
  | .imageURL p =>
    startsWith p.url "data:" &&
      match parseDataURI p.url with
      | .error _ => true
      | .ok (contentType, _) =>
        contentType ≠ "application/pdf" && !isAnthropicSupportedImageMediaType contentType
  | .inputAudio _ => true
  | .file _ => true
  | _ => false

@[simp] def geminiRejects (lib : UrlLib) (requestModel : String) : UserPart → Bool
  | .imageURL p =>
    p.url ≠ "" &&
      match lib.scheme p.url with
      | none => true
      | some scheme =>
        (scheme = "data" && (parseDataURI p.url).toOption.isNone) ||
          (p.detail ≠ "" && mediaResolutionAvailable requestModel &&
            (mapDetailMediaResolution p.detail).isNone)
  | .inputAudio _ => true
  | .file _ => true
  | _ => false

@[simp] def bedrockRejects : UserPart → Bool
  | .imageURL p =>
    match parseDataURI p.url with
    | .error _ => true
    | .ok (contentType, _) => (bedrockFormat contentType).isNone
  | _ => false

/-! ## Lemmas -/

section

variable {β : Type} {v : View β} {convert : UserPart → Except PartError (List β)}

/-- An element that carries nothing. -/
structure View.Blank (v : View β) (b : β) : Prop where
  text : v.textOf b = none
  source : ∀ s, s ≠ "" → ¬ v.holdsSource b s

variable {p : UserPart}

theorem View.carries_cases {b : β} (h : v.carries b p) :
    (∃ t, p = .text t ∧ v.textOf b = some t.text) ∨ ∃ s, s ≠ "" ∧ v.holdsSource b s := by
  have hsource : (∃ s ∈ sources p, s ≠ "" ∧ v.holdsSource b s) → ∃ s, s ≠ "" ∧ v.holdsSource b s := by
    rintro ⟨s, -, hs⟩
    exact ⟨s, hs⟩
  cases p with
  | text t => exact .inl ⟨t, rfl, h⟩
  | inputAudio p | imageURL p | audioURL p | videoURL p | file p => exact .inr (hsource h)

theorem View.Blank.not_full {b : β} (h : v.Blank b) :
    ¬ Conversion.Full ⟨convert, hasContent, v.carries⟩ b := by
  rintro ⟨p, -, hcarries⟩
  rcases View.carries_cases hcarries with ⟨t, -, htext⟩ | ⟨s, hs, hholds⟩
  · rw [h.text] at htext
    cases htext
  · exact h.source s hs hholds

theorem View.full_text {b : β} {t : String} (htext : v.textOf b = some t)
    (hsource : ∀ s, ¬ v.holdsSource b s)
    (hfull : Conversion.Full ⟨convert, hasContent, v.carries⟩ b) : t ≠ "" := by
  obtain ⟨p, hcontent, hcarries⟩ := hfull
  rcases View.carries_cases hcarries with ⟨q, rfl, hq⟩ | ⟨s, -, hholds⟩
  · rw [htext] at hq
    rw [Option.some.inj hq]
    simpa using hcontent
  · exact absurd hholds (hsource s)

theorem text_or_image (h : ¬ isNoTextOrImage p = true) : (∃ q, p = .text q) ∨ ∃ q, p = .imageURL q := by
  cases p with
  | text q => exact .inl ⟨q, rfl⟩
  | imageURL q => exact .inr ⟨q, rfl⟩
  | _ => exact absurd rfl h

/-- What the three translators have in common: texts and images become one element, which may be
followed by some that carry nothing, and other parts none. -/
structure Converts (v : View β) (convert : UserPart → Except PartError (List β))
    (dropped : UserPart → Bool) : Prop where
  text : ∀ {p out}, convert (.text p) = .ok out → dropped (.text p) = false ∧
    ∃ b rest, out = b :: rest ∧ v.textOf b = some p.text ∧ (∀ s, ¬ v.holdsSource b s) ∧
      ∀ x ∈ rest, v.Blank x
  image : ∀ {p out}, convert (.imageURL p) = .ok out → dropped (.imageURL p) = false ∧
    ((p.url = "" ∧ out = []) ∨ ∃ b rest, out = b :: rest ∧ v.holdsSource b p.url ∧
      (p.url = "" → v.Blank b) ∧ ∀ x ∈ rest, v.Blank x)
  other : ∀ {p out}, isNoTextOrImage p = true → convert p = .ok out → dropped p = true ∧ out = []

variable {dropped : UserPart → Bool} (h : Converts v convert dropped)

include h

theorem Converts.kept {out : List β} (hout : convert p = .ok out)
    (hcontent : hasContent p = true) (hkept : dropped p = false) : ∃ b ∈ out, v.carries b p := by
  by_cases hother : isNoTextOrImage p = true
  · rw [(h.other hother hout).1] at hkept
    cases hkept
  · rcases text_or_image hother with ⟨q, rfl⟩ | ⟨q, rfl⟩
    · obtain ⟨-, b, rest, rfl, htext, -⟩ := h.text hout
      exact ⟨b, mem_cons_self, htext⟩
    · have hne : q.url ≠ "" := by simpa using hcontent
      obtain ⟨-, ⟨hnil, -⟩ | ⟨b, rest, rfl, hholds, -⟩⟩ := h.image hout
      · exact absurd hnil hne
      · exact ⟨b, mem_cons_self, q.url, mem_singleton.mpr rfl, hne, hholds⟩

theorem Converts.atMost {out sub : List β}
    (hout : convert p = .ok out) (hsub : sub.Sublist out)
    (hfull : ∀ b ∈ sub, Conversion.Full ⟨convert, hasContent, v.carries⟩ b) :
    sub.length ≤ if hasContent p = true ∧ dropped p = false then 1 else 0 := by
  have hempty : out = [] → sub.length = 0 := by
    rintro rfl
    rw [sublist_nil.mp hsub]
    rfl
  by_cases hother : isNoTextOrImage p = true
  · rw [hempty (h.other hother hout).2]
    exact Nat.zero_le _
  · rcases text_or_image hother with ⟨q, rfl⟩ | ⟨q, rfl⟩
    · obtain ⟨hkept, b, rest, rfl, htext, hsource, hrest⟩ := h.text hout
      refine Conversion.length_le_of_head hsub hfull (fun x hx => (hrest x hx).not_full) fun hb => ?_
      exact ⟨by simpa using View.full_text htext hsource hb, hkept⟩
    · obtain ⟨hkept, ⟨-, hnil⟩ | ⟨b, rest, rfl, -, hblank, hrest⟩⟩ := h.image hout
      · rw [hempty hnil]
        exact Nat.zero_le _
      · refine Conversion.length_le_of_head hsub hfull (fun x hx => (hrest x hx).not_full)
          fun hb => ⟨?_, hkept⟩
        by_contra hno
        exact (hblank (by simpa using hno)).not_full hb

theorem Converts.drops :
    Conversion.Drops ⟨convert, hasContent, v.carries⟩ dropped where
  kept := h.kept
  atMost := h.atMost

end

/-! ### Anthropic -/

theorem convertImageContentToAnthropic_holds {url : String} {fields : Option CacheControl}
    {block : AnthropicBlock} (h : convertImageContentToAnthropic url fields = .ok block) :
    anthropicView.holdsSource block url ∧ (url = "" → anthropicView.Blank block) := by
  unfold convertImageContentToAnthropic at h
  split at h
  next hdata =>
    have hne : url ≠ "" := by
      rintro rfl
      exact absurd hdata (by decide)
    split at h
    · cases h
    next contentType data hparse =>
      have hholds : AnthropicSource.holds (.base64 contentType (Base64.encode data)) url :=
        ⟨data, rfl, .inl ⟨contentType, hparse⟩⟩
      split at h
      · cases h
        exact ⟨hholds, fun hnil => absurd hnil hne⟩
      · split at h
        · cases h
          exact ⟨hholds, fun hnil => absurd hnil hne⟩
        · cases h
  · have hempty : url = "" → ∀ s, s ≠ "" → ¬ AnthropicSource.holds (.url url) s := by
      intro hnil s hs hholds
      exact hs (Eq.trans (Eq.symm hholds) hnil)
    split at h
    · cases h
      exact ⟨rfl, fun hnil => ⟨rfl, hempty hnil⟩⟩
    · cases h
      exact ⟨rfl, fun hnil => ⟨rfl, hempty hnil⟩⟩

theorem converts_anthropicPart : Converts anthropicView anthropicPart isAudioOrVideoURL where
  text {p out} hout := by
    cases hout
    exact ⟨rfl, _, [], rfl, rfl, fun _ => id, by simp⟩
  image {p out} hout := by
    obtain ⟨block, hblock, rfl⟩ := Results.map_eq_ok hout
    obtain ⟨hholds, hblank⟩ := convertImageContentToAnthropic_holds hblock
    exact ⟨rfl, .inr ⟨block, [], rfl, hholds, hblank, by simp⟩⟩
  other {p out} hother hout := by
    cases p with
    | text p | imageURL p => cases hother
    | inputAudio p | file p => cases hout
    | audioURL p | videoURL p =>
      cases hout
      exact ⟨rfl, rfl⟩

theorem anthropicRejects_iff (p : UserPart) :
    anthropicRejects p = true ↔ ∃ err, anthropicPart p = .error err := by
  cases p with
  | text p | inputAudio p | file p | audioURL p | videoURL p => simp
  | imageURL p =>
    simp only [anthropicRejects, anthropicPart, convertImageContentToAnthropic]
    by_cases hdata : startsWith p.url "data:" = true
    · cases hparse : parseDataURI p.url with
      | error err => simp [hdata, Except.map]
      | ok r =>
        obtain ⟨contentType, data⟩ := r
        by_cases hpdf : contentType = "application/pdf"
        · simp [hdata, hpdf, Except.map]
        · by_cases himage : isAnthropicSupportedImageMediaType contentType = true
          · simp [hdata, hpdf, himage, Except.map]
          · simp [hdata, hpdf, himage, Except.map]
    · by_cases hpdf : endsWith (toLower p.url) ".pdf" = true
      · simp [hdata, hpdf, Except.map]
      · simp [hdata, hpdf, Except.map]

/-! ### Gemini -/

theorem geminiImageData_holds {lib : UrlLib} {url : String} {data : GeminiData}
    (h : geminiImageData lib url = .ok data) (resolution : Option MediaResolution) :
    geminiView.holdsSource ⟨data, resolution⟩ url := by
  unfold geminiImageData at h
  split at h
  · cases h
  · split at h
    · split at h
      · cases h
      next contentType bytes hparse =>
        cases h
        exact .inl ⟨contentType, hparse⟩
    · cases h
      rfl

theorem converts_geminiPart (lib : UrlLib) (requestModel : String) :
    Converts geminiView (geminiPart lib requestModel) isAudioOrVideoURL where
  text {p out} hout := by
    cases hout
    exact ⟨rfl, _, [], rfl, rfl, fun _ => id, by simp⟩
  image {p out} hout := by
    refine ⟨rfl, ?_⟩
    rw [geminiPart] at hout
    by_cases hnil : p.url = ""
    · rw [if_pos hnil] at hout
      cases hout
      exact .inl ⟨hnil, rfl⟩
    · rw [if_neg hnil] at hout
      obtain ⟨data, hdata, hout⟩ := Results.bind_eq_ok hout
      obtain ⟨resolution, -, hout⟩ := Results.bind_eq_ok hout
      cases hout
      exact .inr ⟨_, [], rfl, geminiImageData_holds hdata resolution, fun h => absurd h hnil, by simp⟩
  other {p out} hother hout := by
    cases p with
    | text p | imageURL p => cases hother
    | inputAudio p | file p => cases hout
    | audioURL p | videoURL p =>
      cases hout
      exact ⟨rfl, rfl⟩

theorem geminiImageData_error_iff (lib : UrlLib) (url : String) :
    (∃ err, geminiImageData lib url = .error err) ↔ ∀ scheme, lib.scheme url = some scheme →
        scheme = "data" ∧ (parseDataURI url).toOption.isNone = true := by
  unfold geminiImageData
  cases hscheme : lib.scheme url with
  | none => simp
  | some scheme =>
    by_cases hdata : scheme = "data"
    · cases hparse : parseDataURI url with
      | error err | ok r => simp [hdata, Except.toOption]
    · simp [hdata]

theorem geminiResolution_error_iff (requestModel detail : String) :
    (∃ err, geminiResolution requestModel detail = .error err) ↔
      detail ≠ "" ∧ mediaResolutionAvailable requestModel = true ∧
        (mapDetailMediaResolution detail).isNone = true := by
  unfold geminiResolution
  by_cases hset : detail ≠ "" ∧ mediaResolutionAvailable requestModel = true
  · rw [if_pos hset]
    cases mapDetailMediaResolution detail with
    | none => simp [hset]
    | some level => simp
  · rw [if_neg hset]
    constructor
    · rintro ⟨err, h⟩
      cases h
    · intro h
      exact absurd ⟨h.1, h.2.1⟩ hset

theorem geminiRejects_iff (lib : UrlLib) (requestModel : String) (p : UserPart) :
    geminiRejects lib requestModel p = true ↔ ∃ err, geminiPart lib requestModel p = .error err := by
  cases p with
  | text p | inputAudio p | file p | audioURL p | videoURL p => simp
  | imageURL p =>
    by_cases hnil : p.url = ""
    · simp [hnil]
    · have hsplit : (∃ err, geminiPart lib requestModel (.imageURL p) = .error err) ↔
          (∃ err, geminiImageData lib p.url = .error err) ∨
            ∃ err, geminiResolution requestModel p.detail = .error err := by
        rw [geminiPart, if_neg hnil]
        cases geminiImageData lib p.url with
        | error err => simp [bind, Except.bind]
        | ok data =>
          cases geminiResolution requestModel p.detail with
          | error err | ok resolution => simp [bind, Except.bind]
      rw [hsplit, geminiImageData_error_iff, geminiResolution_error_iff, geminiRejects]
      cases lib.scheme p.url with
      | none => simp [hnil]
      | some scheme => simp [hnil, and_assoc]

/-! ### Bedrock -/

theorem blank_getCachePoint (fields : Option CacheControl) :
    ∀ x ∈ getCachePoint fields, bedrockView.Blank x := by
  intro x hx
  unfold getCachePoint at hx
  split at hx
  · rw [mem_singleton.mp hx]
    exact ⟨rfl, fun _ _ => id⟩
  · cases hx

theorem converts_bedrockPart : Converts bedrockView bedrockPart isNoTextOrImage where
  text {p out} hout := by
    cases hout
    exact ⟨rfl, _, _, rfl, rfl, fun _ => id, blank_getCachePoint p.cacheControl⟩
  image {p out} hout := by
    refine ⟨rfl, .inr ?_⟩
    rw [bedrockPart] at hout
    split at hout
    · cases hout
    next contentType data hparse =>
      split at hout
      · cases hout
      · cases hout
        refine ⟨_, _, rfl, .inl ⟨contentType, hparse⟩, ?_, blank_getCachePoint p.cacheControl⟩
        intro hnil
        rw [hnil] at hparse
        cases hparse
  other {p out} hother hout := by
    cases p with
    | text p | imageURL p => cases hother
    | inputAudio p | file p | audioURL p | videoURL p => exact ⟨rfl, (Except.ok.inj hout).symm⟩

theorem bedrockRejects_iff (p : UserPart) : bedrockRejects p = true ↔ ∃ err, bedrockPart p = .error err := by
  cases p with
  | text p | inputAudio p | file p | audioURL p | videoURL p => simp
  | imageURL p =>
    simp only [bedrockRejects, bedrockPart]
    cases parseDataURI p.url with
    | error err => simp
    | ok r =>
      cases hformat : bedrockFormat r.1 with
      | none | some format => simp [hformat]

/-! ## Top theorem -/

/-- A message that is a text is a text part. -/
def contentParts : UserContent → List UserPart
  | .absent => []
  | .string v => [.text ⟨v, "text", none⟩]
  | .parts ps => ps

/-- The conversion fails, or its result has an element for each part with content, in order. -/
def NothingDropped {β : Type} (v : View β) (result : Except PartError (List β))
    (parts : List UserPart) : Prop :=
  ∀ out, result = .ok out → ∃ sub, sub.Sublist out ∧
    List.Forall₂ (fun p b => v.carries b p) (parts.filter hasContent) sub

section

variable {β : Type} {v : View β} {convert : UserPart → Except PartError (List β)}

theorem nothingDropped_parts {dropped rejected : UserPart → Bool} (h : Converts v convert dropped)
    (hrejected : ∀ p, rejected p = true ↔ ∃ err, convert p = .error err) (ps : List UserPart) :
    NothingDropped v ((ps.mapM convert).map List.flatten) ps ↔
      (∃ p ∈ ps, rejected p = true) ∨ ∀ p ∈ ps, hasContent p = true → dropped p = false :=
  h.drops.keeps_or_fails_iff hrejected ps

theorem nothingDropped_string {s : String} {result : List β}
    (h : s ≠ "" → ∃ b ∈ result, v.textOf b = some s) :
    NothingDropped v (.ok result) (contentParts (.string s)) := by
  intro out hout
  cases hout
  by_cases hs : s = ""
  · refine ⟨[], nil_sublist _, ?_⟩
    rw [contentParts, filter_cons_of_neg (by simp [hs])]
    exact .nil
  · obtain ⟨b, hb, htext⟩ := h hs
    refine ⟨[b], singleton_sublist.mpr hb, ?_⟩
    rw [contentParts, filter_cons_of_pos (by simp [hs])]
    exact .cons htext .nil

theorem nothingDropped_unless_empty {s : String} {b : β} (hb : v.textOf b = some s) :
    NothingDropped v (if s = "" then .ok [] else .ok [b]) (contentParts (.string s)) := by
  by_cases hs : s = ""
  · rw [if_pos hs]
    exact nothingDropped_string fun hne => absurd hs hne
  · rw [if_neg hs]
    exact nothingDropped_string fun _ => ⟨b, mem_singleton.mpr rfl, hb⟩

end

/-- For every user message, whatever its parts are. -/
theorem user_parts_kept_iff (lib : UrlLib) (requestModel : String) (content : UserContent) :
    (NothingDropped anthropicView (openAIToAnthropicContent content) (contentParts content) ↔
      (∃ p ∈ contentParts content, anthropicRejects p = true) ∨
        ∀ p ∈ contentParts content, hasContent p = true → isAudioOrVideoURL p = false) ∧
    (NothingDropped geminiView (userMsgToGeminiParts lib requestModel content)
        (contentParts content) ↔
      (∃ p ∈ contentParts content, geminiRejects lib requestModel p = true) ∨
        ∀ p ∈ contentParts content, hasContent p = true → isAudioOrVideoURL p = false) ∧
    (NothingDropped bedrockView (openAIMessageToBedrockMessageRoleUser content)
        (contentParts content) ↔
      (∃ p ∈ contentParts content, bedrockRejects p = true) ∨
        ∀ p ∈ contentParts content, hasContent p = true → isNoTextOrImage p = false) := by
  cases content with
  | parts ps =>
    exact ⟨nothingDropped_parts converts_anthropicPart anthropicRejects_iff ps,
      nothingDropped_parts (converts_geminiPart lib requestModel)
        (geminiRejects_iff lib requestModel) ps,
      nothingDropped_parts converts_bedrockPart bedrockRejects_iff ps⟩
  | absent =>
    have hnil : ∀ {β : Type} {v : View β} {result : Except PartError (List β)},
        NothingDropped v result [] :=
      fun out _ => ⟨[], nil_sublist out, .nil⟩
    simp [hnil, contentParts]
  | string s =>
    have hanthropic : NothingDropped anthropicView (openAIToAnthropicContent (.string s))
        (contentParts (.string s)) := nothingDropped_unless_empty rfl
    have hgemini : NothingDropped geminiView (userMsgToGeminiParts lib requestModel (.string s))
        (contentParts (.string s)) := nothingDropped_unless_empty rfl
    have hbedrock : NothingDropped bedrockView (openAIMessageToBedrockMessageRoleUser (.string s))
        (contentParts (.string s)) :=
      nothingDropped_string fun _ => ⟨_, mem_singleton.mpr rfl, rfl⟩
    refine ⟨iff_of_true hanthropic (.inr ?_), iff_of_true hgemini (.inr ?_),
      iff_of_true hbedrock (.inr ?_)⟩ <;>
    · intro p hp _
      rw [mem_singleton.mp hp]
      rfl

/-- A message with a video and nothing else. -/
def videoMessage : UserContent := .parts [.videoURL ⟨"https://example.com/a.mp4", none⟩]

/-- URLs with the scheme in front of their first colon, and no media types. -/
def plainUrlLib : UrlLib where
  scheme u := (Cut.cut [':'] u.toList).map fun r => String.ofList r.1
  typeByExtension _ := ""

theorem video_url_is_dropped :
    (openAIToAnthropicContent videoMessage = .ok [] ∧
      userMsgToGeminiParts plainUrlLib "gemini-3-pro" videoMessage = .ok [] ∧
      openAIMessageToBedrockMessageRoleUser videoMessage = .ok []) ∧
    ¬ NothingDropped anthropicView (openAIToAnthropicContent videoMessage)
      (contentParts videoMessage) ∧
    ¬ NothingDropped geminiView (userMsgToGeminiParts plainUrlLib "gemini-3-pro" videoMessage)
      (contentParts videoMessage) ∧
    ¬ NothingDropped bedrockView (openAIMessageToBedrockMessageRoleUser videoMessage)
      (contentParts videoMessage) := by
  have hnone : ∀ {β : Type} (v : View β), ¬ NothingDropped v (.ok []) (contentParts videoMessage) := by
    intro β v h
    obtain ⟨sub, hsub, hcarries⟩ := h [] rfl
    rw [sublist_nil.mp hsub] at hcarries
    have hlength : ((contentParts videoMessage).filter hasContent).length = 0 := hcarries.length_eq
    exact absurd hlength (by decide)
  exact ⟨⟨rfl, rfl, rfl⟩, hnone _, hnone _, hnone _⟩

end AgentRouter.UserParts
