import AgentRouter.Kube.Objects
import AgentRouter.Lib.GoMap
import AgentRouter.Lib.Json

/-!
# Anthropic: the translators of Anthropic messages requests

The request side of the Anthropic-to-AWS and Anthropic-to-GCP translators: the
operator's header value filter, the beta flags read from the `anthropic-beta`
header, and the body and headers sent upstream.

The AWS translator filters the flags of the header and writes them into the first
`anthropic_beta` member of the body.  It never looks at what the client put there:

    only permitted flags are sent upstream  ↔  the flags the client's own body keeps are permitted
      (sendsOnlyPermitted_iff)
-/

namespace AgentRouter.Translator

open Kube Text List Json

/-! ## Headers -/

abbrev Headers := GoMap String String

/-- `internalapi.Header`: a name and the value to set. -/
abbrev Header := String × String

/-- `headers[name]`: the empty text when the header is absent. -/
def headerValue (headers : Headers) (name : String) : String := (headers.lookup name).getD ""

def anthropicBetaHeaderName : String := "anthropic-beta"
def pathHeaderName : String := ":path"
def contentLengthHeaderName : String := "content-length"

def parseCommaSeparatedHeader (headers : Headers) (name : String) : List String :=
  if headerValue headers name = "" then []
  else ((splitOn ',' (headerValue headers name)).map trimSpace).filter fun v => v ≠ ""

/-! ## The operator's filter -/

def headerValueFilterModeDenylist : String := "Denylist"
def headerValueFilterModeAllowlist : String := "Allowlist"

/-- The filtered values, and whether one was dropped. -/
def filterHeaderValues (values : List String) (mode : String) (list : List String) :
    List String × Bool :=
  if values = [] ∨ list = [] then (values, false)
  else if mode = headerValueFilterModeDenylist then
    let filtered := values.filter fun v => v ∉ list
    (filtered, filtered.length ≠ values.length)
  else if mode = headerValueFilterModeAllowlist then
    let filtered := values.filter fun v => v ∈ list
    (filtered, filtered.length ≠ values.length)
  else (values, false)

/-- The filter a translator for `anthropic-beta` has been given. -/
structure BetaFilter where
  mode : String
  values : List String

/-- The fields of a translator no filter was set on. -/
def BetaFilter.unset : BetaFilter := ⟨"", []⟩

/-- `SetHeaderValueFilter`, the same method in both translators. -/
def BetaFilter.setHeaderValueFilter (b : BetaFilter) (f : HTTPHeaderValueFilter) : BetaFilter :=
  if toLower f.name = anthropicBetaHeaderName then ⟨f.mode, f.values⟩ else b

/-- Whether the filter lets a value through. -/
def BetaFilter.permits (b : BetaFilter) (v : String) : Bool :=
  b.values = [] ||
    if b.mode = headerValueFilterModeDenylist then v ∉ b.values
    else if b.mode = headerValueFilterModeAllowlist then v ∈ b.values
    else true

theorem filterHeaderValues_eq (b : BetaFilter) (values : List String) :
    filterHeaderValues values b.mode b.values =
      (values.filter b.permits, values.any fun v => !b.permits v) := by
  obtain ⟨mode, list⟩ := b
  unfold filterHeaderValues BetaFilter.permits
  by_cases hv : values = []
  · simp [hv]
  by_cases hl : list = []
  · simp [hl]
  rw [if_neg (by simp [hv, hl]), Prod.mk.injEq, Bool.eq_iff_iff]
  by_cases hd : mode = headerValueFilterModeDenylist
  · simp [hd, hl]
  by_cases ha : mode = headerValueFilterModeAllowlist
  · subst ha
    simp [hd, hl]
  · simp [hd, ha]

theorem filterHeaderValues_snd (b : BetaFilter) (values : List String) :
    (filterHeaderValues values b.mode b.values).2 = values.any fun v => !b.permits v := by
  rw [filterHeaderValues_eq]

/-! ## The request -/

/-- The fields of a decoded messages request that the translators read. -/
structure MessagesRequest where
  model : String
  stream : Bool

def anthropicVersionKey : String := "anthropic_version"
def anthropicBetaKey : String := "anthropic_beta"

/-- `cmp.Or(modelNameOverride, model)`. -/
def requestModel (modelNameOverride model : String) : String :=
  if modelNameOverride = "" then model else modelNameOverride

/-- What a translator asks Envoy to change. -/
structure Translation where
  newHeaders : List Header
  newBody : Option Json

/-! ## Anthropic to AWS -/

def awsBedrockSupportedAnthropicBetas : List String :=
  ["afk-mode-2026-01-31",
   "computer-use-2024-10-22",
   "computer-use-2025-01-24",
   "context-1m-2025-08-07",
   "context-management-2025-06-27",
   "dangerous-tool-use-2026-09-03",
   "dev-full-thinking-2025-05-14",
   "fine-grained-tool-streaming-2025-05-14",
   "interleaved-thinking-2025-05-14",
   "mcp-client-2025-04-04",
   "mcp-client-2025-11-20",
   "model-context-window-exceeded-2025-08-26",
   "output-128k-2025-02-19",
   "pdfs-2024-09-25",
   "search-results-2025-06-09",
   "thinking-binding-controls-2026-08-01",
   "thinking-token-count-2026-05-13",
   "token-counting-2024-11-01",
   "token-efficient-tools-2025-02-19",
   "tool-search-tool-2025-10-19",
   "web-search-2025-03-05"]

/-- `anthropicAPIToBedrockBetaAliases`, the identity where the map has no entry. -/
def bedrockAlias (beta : String) : String :=
  if beta = "advanced-tool-use-2025-11-20" then "tool-search-tool-2025-10-19" else beta

/-- The loop of `SetRequestHeaders`; `seen` holds the flags already kept. -/
def supportedBetas (seen : List String) : List String → List String
  | [] => []
  | beta :: rest =>
    if bedrockAlias beta ∈ awsBedrockSupportedAnthropicBetas then
      if bedrockAlias beta ∈ seen then supportedBetas seen rest
      else bedrockAlias beta :: supportedBetas (bedrockAlias beta :: seen) rest
    else supportedBetas seen rest

structure AnthropicToAWSAnthropic where
  apiVersion : String
  modelNameOverride : String
  anthropicBetas : List String
  betaFilter : BetaFilter

open AnthropicToAWSAnthropic

namespace AnthropicToAWSAnthropic

def new (apiVersion modelNameOverride : String) : AnthropicToAWSAnthropic :=
  ⟨apiVersion, modelNameOverride, [], .unset⟩

def setRequestHeaders (t : AnthropicToAWSAnthropic) (headers : Headers) : AnthropicToAWSAnthropic :=
  { t with
    anthropicBetas :=
      supportedBetas [] (parseCommaSeparatedHeader headers anthropicBetaHeaderName) }

def setHeaderValueFilter (t : AnthropicToAWSAnthropic) (f : HTTPHeaderValueFilter) :
    AnthropicToAWSAnthropic :=
  { t with betaFilter := t.betaFilter.setHeaderValueFilter f }

/-- The flags of the header that the operator's filter lets through, and whether it
dropped one. -/
def betas (t : AnthropicToAWSAnthropic) : List String × Bool :=
  filterHeaderValues t.anthropicBetas t.betaFilter.mode t.betaFilter.values

/-- The edits of the body: the version is set, model and stream are dropped, and the
filtered flags of the header are written if there are any. -/
def body (t : AnthropicToAWSAnthropic) (rawBody : Json) : Except String Json :=
  match rawBody.set anthropicVersionKey (.str t.apiVersion) with
  | .error e => .error ("failed to set anthropic_version field: " ++ e)
  | .ok newBody =>
    let newBody := (newBody.delete "model").delete "stream"
    if t.betas.1 = [] then .ok newBody
    else
      match newBody.set anthropicBetaKey (.arr (t.betas.1.map .str)) with
      | .error e => .error ("failed to set anthropic_beta field: " ++ e)
      | .ok newBody => .ok newBody

def path (pathEscape : String → String) (t : AnthropicToAWSAnthropic) (req : MessagesRequest) :
    String :=
  "/model/" ++ pathEscape (requestModel t.modelNameOverride req.model) ++
    (if req.stream then "/invoke-with-response-stream" else "/invoke")

/-- `RequestBody`; the force flag is not read. -/
def requestBody (pathEscape : String → String) (size : Json → Nat) (t : AnthropicToAWSAnthropic)
    (rawBody : Json) (req : MessagesRequest) : Except String Translation :=
  match t.body rawBody with
  | .error e => .error e
  | .ok newBody =>
    .ok ⟨[(pathHeaderName, t.path pathEscape req), (contentLengthHeaderName, (size newBody).repr)] ++
        (if t.betas.2 then [(anthropicBetaHeaderName, String.intercalate "," t.betas.1)] else []),
      some newBody⟩

end AnthropicToAWSAnthropic

/-! ## Anthropic to GCP -/

def buildGCPModelPathSuffix (publisher model gcpMethod : String) : String :=
  "publishers/" ++ publisher ++ "/models/" ++ model ++ ":" ++ gcpMethod

structure AnthropicToGCPAnthropic where
  apiVersion : String
  modelNameOverride : String
  anthropicBetas : List String
  betaFilter : BetaFilter

namespace AnthropicToGCPAnthropic

def new (apiVersion modelNameOverride : String) : AnthropicToGCPAnthropic :=
  ⟨apiVersion, modelNameOverride, [], .unset⟩

def setRequestHeaders (t : AnthropicToGCPAnthropic) (headers : Headers) : AnthropicToGCPAnthropic :=
  { t with anthropicBetas := parseCommaSeparatedHeader headers anthropicBetaHeaderName }

def setHeaderValueFilter (t : AnthropicToGCPAnthropic) (f : HTTPHeaderValueFilter) :
    AnthropicToGCPAnthropic :=
  { t with betaFilter := t.betaFilter.setHeaderValueFilter f }

/-- `RequestBody`; the force flag is not read. -/
def requestBody (size : Json → Nat) (t : AnthropicToGCPAnthropic) (raw : Json)
    (req : MessagesRequest) : Except String Translation :=
  if t.apiVersion = "" then
    .error "anthropic_version is required for GCP Vertex AI but not provided in backend configuration"
  else
    match raw.set anthropicVersionKey (.str t.apiVersion) with
    | .error _ =>
      -- the error of the edit is dropped, and the edit left no body
      .ok ⟨[(pathHeaderName, path), (contentLengthHeaderName, "0")] ++ betaHeader, none⟩
    | .ok mutatedBody =>
      let newBody := mutatedBody.delete "model"
      .ok ⟨[(pathHeaderName, path), (contentLengthHeaderName, (size newBody).repr)] ++ betaHeader,
        some newBody⟩
where
  path : String :=
    buildGCPModelPathSuffix "anthropic" (requestModel t.modelNameOverride req.model)
      (if req.stream then "streamRawPredict" else "rawPredict")
  betaHeader : List Header :=
    let (betas, changed) :=
      filterHeaderValues t.anthropicBetas t.betaFilter.mode t.betaFilter.values
    if changed then [(anthropicBetaHeaderName, String.intercalate "," betas)] else []

end AnthropicToGCPAnthropic

/-! ## Flags sent to AWS -/

/-- The flags in the `anthropic_beta` members of a body. -/
def betaValues (j : Json) : List String := (j.values anthropicBetaKey).flatMap Json.strings

/-- The translator's list and the operator's filter both let the flag through. -/
def permitted (f : HTTPHeaderValueFilter) (v : String) : Bool :=
  v ∈ awsBedrockSupportedAnthropicBetas && (BetaFilter.unset.setHeaderValueFilter f).permits v

/-- The translator `SetBackend` prepares for a request. -/
def awsTranslator (apiVersion modelNameOverride : String) (headers : Headers)
    (f : HTTPHeaderValueFilter) : AnthropicToAWSAnthropic :=
  ((AnthropicToAWSAnthropic.new apiVersion modelNameOverride).setRequestHeaders
    headers).setHeaderValueFilter f

theorem mem_supportedBetas {v : String} (betas seen : List String) :
    v ∈ supportedBetas seen betas ↔
      v ∉ seen ∧ v ∈ awsBedrockSupportedAnthropicBetas ∧ ∃ b ∈ betas, bedrockAlias b = v := by
  induction betas generalizing seen with
  | nil => simp [supportedBetas]
  | cons b rest ih =>
    rw [supportedBetas]
    simp only [mem_cons, exists_eq_or_imp]
    by_cases hs : bedrockAlias b ∈ awsBedrockSupportedAnthropicBetas
    · rw [if_pos hs]
      by_cases hd : bedrockAlias b ∈ seen
      · rw [if_pos hd, ih]
        constructor
        · rintro ⟨h1, h2, h3⟩
          exact ⟨h1, h2, .inr h3⟩
        · rintro ⟨h1, h2, rfl | h3⟩
          · exact absurd hd h1
          · exact ⟨h1, h2, h3⟩
      · rw [if_neg hd, mem_cons, ih]
        constructor
        · rintro (rfl | ⟨h1, h2, h3⟩)
          · exact ⟨hd, hs, .inl rfl⟩
          · exact ⟨fun h => h1 (mem_cons_of_mem _ h), h2, .inr h3⟩
        · rintro ⟨h1, h2, h3⟩
          by_cases he : v = bedrockAlias b
          · exact .inl he
          · refine .inr ⟨by simp [he, h1], h2, ?_⟩
            rcases h3 with h3 | h3
            · exact absurd h3.symm he
            · exact h3
    · rw [if_neg hs, ih]
      constructor
      · rintro ⟨h1, h2, h3⟩
        exact ⟨h1, h2, .inr h3⟩
      · rintro ⟨h1, h2, rfl | h3⟩
        · exact absurd h2 hs
        · exact ⟨h1, h2, h3⟩

variable {f : HTTPHeaderValueFilter}

theorem mem_betas_awsTranslator {apiVersion override : String} {headers : Headers} {v : String} :
    v ∈ (awsTranslator apiVersion override headers f).betas.1 ↔ permitted f v = true ∧
        ∃ b ∈ parseCommaSeparatedHeader headers anthropicBetaHeaderName, bedrockAlias b = v := by
  unfold betas
  rw [filterHeaderValues_eq, mem_filter]
  show v ∈ supportedBetas [] (parseCommaSeparatedHeader headers anthropicBetaHeaderName) ∧
    (BetaFilter.unset.setHeaderValueFilter f).permits v = true ↔ _
  rw [mem_supportedBetas]
  unfold permitted
  simp only [not_mem_nil, not_false_eq_true, true_and, Bool.and_eq_true, decide_eq_true_eq]
  constructor
  · rintro ⟨⟨h1, h2⟩, h3⟩
    exact ⟨⟨h1, h3⟩, h2⟩
  · rintro ⟨⟨h1, h3⟩, h2⟩
    exact ⟨⟨h1, h2⟩, h3⟩

theorem betas_awsTranslator_eq_nil_iff {apiVersion override : String} {headers : Headers} :
    (awsTranslator apiVersion override headers f).betas.1 = [] ↔
      ((parseCommaSeparatedHeader headers anthropicBetaHeaderName).any
        fun b => permitted f (bedrockAlias b)) = false := by
  rw [eq_nil_iff_forall_not_mem, any_eq_false]
  constructor
  · intro h b hb hp
    exact h _ (mem_betas_awsTranslator.mpr ⟨hp, b, hb, rfl⟩)
  · intro h v hv
    obtain ⟨hp, b, hb, rfl⟩ := mem_betas_awsTranslator.mp hv
    exact h b hb hp

variable {t : AnthropicToAWSAnthropic}

/-- What the body keeps of the client's own flags: all of them, but for the first
member when the header supplies flags. -/
theorem betaValues_body {raw out : Json} (h : t.body raw = .ok out) :
    betaValues out =
      if t.betas.1 = [] then betaValues raw
      else t.betas.1 ++ (raw.values anthropicBetaKey).tail.flatMap Json.strings := by
  unfold body at h
  split at h
  · cases h
  next j hj =>
  have hkeep : ((j.delete "model").delete "stream").values anthropicBetaKey =
      raw.values anthropicBetaKey := by
    rw [values_delete_of_ne (by decide), values_delete_of_ne (by decide), values_set_of_ne (by decide) hj]
  unfold betaValues
  by_cases hb : t.betas.1 = []
  · rw [if_pos hb] at h ⊢
    cases h
    rw [hkeep]
  · rw [if_neg hb] at h ⊢
    split at h
    · cases h
    next j' hj' =>
    cases h
    have hstr : (Json.arr (t.betas.1.map .str)).strings = t.betas.1 := by
      simp [Json.strings, filterMap_map]
    rw [values_set_self hj', hkeep, flatMap_cons, hstr]

theorem values_eq_nil_of_body_error {raw : Json} {e : String} (h : t.body raw = .error e) :
    raw.values anthropicBetaKey = [] := by
  unfold body at h
  split at h
  next hj => exact values_eq_nil_of_set_error hj _
  next j hj =>
  dsimp only at h
  split at h
  · cases h
  split at h
  next e' hj' =>
    obtain ⟨j', hok⟩ := (((isObject_of_set hj).delete "model").delete "stream").set anthropicBetaKey _
    rw [hok] at hj'
    cases hj'
  · cases h

theorem newBody_requestBody {pathEscape : String → String} {size : Json → Nat} {raw : Json}
    {req : MessagesRequest} {P : Json → Prop} :
    (∀ r, t.requestBody pathEscape size raw req = .ok r → ∀ j ∈ r.newBody, P j) ↔
      ∀ out, t.body raw = .ok out → P out := by
  unfold requestBody
  cases t.body raw with
  | error e => simp
  | ok out => simp

/-! ## Top theorem -/

/-- Every flag in the body sent to AWS is permitted. -/
def SendsOnlyPermitted (pathEscape : String → String) (size : Json → Nat)
    (apiVersion modelNameOverride : String) (headers : Headers) (f : HTTPHeaderValueFilter)
    (rawBody : Json) (req : MessagesRequest) : Prop :=
  ∀ r, (awsTranslator apiVersion modelNameOverride headers f).requestBody pathEscape size rawBody req =
      .ok r →
    ∀ j ∈ r.newBody, ∀ v ∈ betaValues j, permitted f v = true

/-- The client's own `anthropic_beta` members that stay in the body: the first one is
replaced when the header has a flag that is permitted. -/
def keptMembers (headers : Headers) (f : HTTPHeaderValueFilter) (rawBody : Json) : List Json :=
  if (parseCommaSeparatedHeader headers anthropicBetaHeaderName).any
      fun b => permitted f (bedrockAlias b) then
    (rawBody.values anthropicBetaKey).tail
  else rawBody.values anthropicBetaKey

theorem sendsOnlyPermitted_iff (pathEscape : String → String) (size : Json → Nat)
    (apiVersion modelNameOverride : String) (headers : Headers) (f : HTTPHeaderValueFilter)
    (rawBody : Json) (req : MessagesRequest) :
    SendsOnlyPermitted pathEscape size apiVersion modelNameOverride headers f rawBody req ↔
      ∀ v ∈ (keptMembers headers f rawBody).flatMap Json.strings, permitted f v = true := by
  unfold SendsOnlyPermitted
  rw [newBody_requestBody]
  unfold keptMembers
  cases hbody : (awsTranslator apiVersion modelNameOverride headers f).body rawBody with
  | error e =>
    rw [values_eq_nil_of_body_error hbody]
    simp
  | ok out =>
    have hout := betaValues_body hbody
    simp only [Except.ok.injEq, forall_eq']
    rw [hout]
    by_cases hb : (awsTranslator apiVersion modelNameOverride headers f).betas.1 = []
    · rw [if_pos hb, if_neg (by rw [betas_awsTranslator_eq_nil_iff.mp hb]; exact Bool.false_ne_true)]
      rfl
    · have hany := mt betas_awsTranslator_eq_nil_iff.mpr hb
      rw [if_neg hb, if_pos (Bool.not_eq_false _ ▸ hany)]
      constructor
      · intro h v hv
        exact h v (mem_append_right _ hv)
      · intro h
        exact forall_mem_append.mpr ⟨fun v hv => (mem_betas_awsTranslator.mp hv).1, h⟩

/-- A flag that Bedrock rejects, sent in the body of a request without the header. -/
theorem sendsOnlyPermitted_fails_on_body_flag :
    ¬ SendsOnlyPermitted id (fun _ => 0) "bedrock-2023-05-31" "" ∅
      ⟨"anthropic-beta", "Denylist", ["files-api-2025-04-14"]⟩
      (.obj [("model", .str "m"), ("anthropic_beta", .arr [.str "files-api-2025-04-14"])])
      ⟨"m", false⟩ := by
  intro h
  exact absurd (h _ rfl _ rfl "files-api-2025-04-14" (by decide)) (by decide)

end AgentRouter.Translator
