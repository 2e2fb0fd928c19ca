import AgentRouter.ExtProc.HeaderMutator
import AgentRouter.Lib.Results

/-!
# Translators: what an upstream attempt is generic in

The upstream processor knows a translator and an auth handler only by their
interfaces.  The structures below are these interfaces together with what the
processor relies on: which headers an implementation reads and sets, and that the
force flag changes nothing but whether an untouched body is returned.  The two
Anthropic translators and the GCP auth handler are shown to implement them.
-/

namespace AgentRouter.ExtProc

open Kube Text AgentRouter.Translator GoMap List AnthropicToGCPAnthropic

/-! ## Interfaces -/

structure TranslatorError where
  message : String
  userFacing : Bool

/-- A translation without and one with the force flag: the flag may only make the
translator return a body that it would have left alone. -/
def SameButForced (raw : Json) : Except TranslatorError Translation →
    Except TranslatorError Translation → Prop
  | .ok r, .ok r' => r'.newBody.getD raw = r.newBody.getD raw ∧
      ∀ k, k ≠ contentLengthHeaderName → lastValue k r'.newHeaders = lastValue k r.newHeaders
  | .error e, .error e' => e = e'
  | _, _ => False

theorem sameButForced_refl (raw : Json) (x : Except TranslatorError Translation) : SameButForced raw x x := by
  cases x with
  | error e => exact rfl
  | ok t => exact ⟨rfl, fun _ _ => rfl⟩

/-- A translator made by `GetTranslator` for one attempt: `requestBody` gets the headers
of `SetRequestHeaders`, the filters of `SetHeaderValueFilter` and the arguments of
`RequestBody`. -/
structure Translator (Req : Type) where
  requestBody : Headers → List HTTPHeaderValueFilter → Json → Req → Bool →
    Except TranslatorError Translation
  /-- the headers it reads. -/
  reads : List String
  /-- the headers it may set, apart from pseudo-headers and the length. -/
  writes : Headers → List HTTPHeaderValueFilter → List String
  /-- the headers it always sets. -/
  always : List String
  /-- it never leaves the body alone. -/
  replacesBody : Bool
  congr : ∀ {h h'}, (∀ k ∈ reads, h.lookup k = h'.lookup k) → requestBody h = requestBody h'
  force : ∀ h fs raw req, raw.IsObject →
    SameButForced raw (requestBody h fs raw req false) (requestBody h fs raw req true)
  names : ∀ {h fs raw req force r}, requestBody h fs raw req force = .ok r →
    ∀ e ∈ r.newHeaders, toLower e.1 = e.1 ∧ e.1 ≠ envoyOriginalPathHeader ∧
      (startsWith e.1 ":" = true ∨ e.1 = contentLengthHeaderName ∨ e.1 ∈ writes h fs)
  sets : ∀ {h fs raw req force r}, requestBody h fs raw req force = .ok r →
    ∀ k ∈ always, lastValue k r.newHeaders ≠ none
  body : ∀ {h fs raw req force r}, raw.IsObject → requestBody h fs raw req force = .ok r →
    replacesBody = true → r.newBody.isSome = true

inductive AuthError where
  | credentialMissing
  | failed (message : String)

/-- A `BackendAuthHandler`; `authorize` is `Do`. -/
structure AuthHandler where
  authorize : Headers → Option Json → Except AuthError (List Header)
  reads : List String
  readsBody : Bool
  congr : ∀ {h h' b b'}, (∀ k ∈ reads, h.lookup k = h'.lookup k) → (readsBody = true → b = b') →
    authorize h b = authorize h' b'
  names : ∀ {h b es}, authorize h b = .ok es → ∀ e ∈ es, toLower e.1 ≠ envoyOriginalPathHeader
  length_not_read : contentLengthHeaderName ∉ reads

/-! ## The Anthropic translators -/

/-- The filter that the calls of `SetHeaderValueFilter` leave. -/
def betaFilterOf (fs : List HTTPHeaderValueFilter) : BetaFilter :=
  fs.foldl BetaFilter.setHeaderValueFilter .unset

/-- The flags of a request's `anthropic-beta` header. -/
def requestBetas (h : Headers) : List String := parseCommaSeparatedHeader h anthropicBetaHeaderName

theorem requestBetas_congr {h h' : Headers} (hh : ∀ k ∈ [anthropicBetaHeaderName], h.lookup k = h'.lookup k) :
    requestBetas h = requestBetas h' := by
  unfold requestBetas parseCommaSeparatedHeader headerValue
  rw [hh _ mem_cons_self]

/-- `anthropic-beta` when the filter drops one of the flags. -/
def betaWrites (betas : List String) (fs : List HTTPHeaderValueFilter) : List String :=
  if betas.any fun v => !(betaFilterOf fs).permits v then [anthropicBetaHeaderName] else []

theorem names_of_betaHeaders {path length : String} {betas : List String} {changed : Bool}
    {value : String} {fs : List HTTPHeaderValueFilter}
    (hc : changed = betas.any fun v => !(betaFilterOf fs).permits v) :
    ∀ e ∈ [(pathHeaderName, path), (contentLengthHeaderName, length)] ++
        (if changed then [(anthropicBetaHeaderName, value)] else []),
      toLower e.1 = e.1 ∧ e.1 ≠ envoyOriginalPathHeader ∧
        (startsWith e.1 ":" = true ∨ e.1 = contentLengthHeaderName ∨ e.1 ∈ betaWrites betas fs) := by
  intro e he
  rcases mem_append.mp he with he | he
  · simp only [mem_cons, not_mem_nil, or_false] at he
    rcases he with rfl | rfl
    · exact ⟨by dsimp only; decide, by dsimp only; decide, .inl (by dsimp only; decide)⟩
    · exact ⟨by dsimp only; decide, by dsimp only; decide, .inr (.inl rfl)⟩
  · split at he
    next h =>
      rw [mem_singleton] at he
      subst he
      refine ⟨by dsimp only; decide, by dsimp only; decide, .inr (.inr ?_)⟩
      unfold betaWrites
      rw [if_pos (hc ▸ h)]
      exact mem_singleton.mpr rfl
    · cases he

theorem lastValue_path {path length : String} (es : List Header) :
    lastValue pathHeaderName ([(pathHeaderName, path), (contentLengthHeaderName, length)] ++ es) ≠ none := by
  rw [ne_eq, lastValue_eq_none_iff, not_not]
  exact mem_cons_self

theorem requestBody_gcp_eq_ok {size : Json → Nat} {t : AnthropicToGCPAnthropic} {raw : Json}
    {req : MessagesRequest} {r : Translation} (h : t.requestBody size raw req = .ok r) :
    (∃ path length, r.newHeaders = [(pathHeaderName, path), (contentLengthHeaderName, length)] ++
        requestBody.betaHeader t) ∧
      (raw.IsObject → r.newBody.isSome = true) := by
  unfold requestBody at h
  split at h
  · cases h
  split at h
  next e hset =>
    cases h
    refine ⟨⟨_, _, rfl⟩, fun ho => ?_⟩
    obtain ⟨j, hj⟩ := ho.set anthropicVersionKey (.str t.apiVersion)
    rw [hj] at hset
    cases hset
  · cases h
    exact ⟨⟨_, _, rfl⟩, fun _ => rfl⟩

/-- The GCP translator as `SetBackend` prepares it. -/
def gcpPrepared (apiVersion modelNameOverride : String) (h : Headers)
    (fs : List HTTPHeaderValueFilter) : AnthropicToGCPAnthropic :=
  fs.foldl AnthropicToGCPAnthropic.setHeaderValueFilter
    ((AnthropicToGCPAnthropic.new apiVersion modelNameOverride).setRequestHeaders h)

variable (apiVersion modelNameOverride : String)

theorem gcpPrepared_eq (h : Headers) (fs : List HTTPHeaderValueFilter) :
    gcpPrepared apiVersion modelNameOverride h fs =
      ⟨apiVersion, modelNameOverride, requestBetas h, betaFilterOf fs⟩ := by
  exact foldl_hom (mk apiVersion modelNameOverride (requestBetas h)) fun _ _ => rfl

/-- Anthropic to GCP: none of its errors is for the user. -/
def anthropicToGCP (size : Json → Nat) (apiVersion modelNameOverride : String) :
    Translator MessagesRequest where
  requestBody h fs raw req _ :=
    ((gcpPrepared apiVersion modelNameOverride h fs).requestBody size raw req).mapError
      fun m => ⟨m, false⟩
  reads := [anthropicBetaHeaderName]
  writes h fs := betaWrites (requestBetas h) fs
  always := [pathHeaderName]
  replacesBody := true
  congr := by
    intro h h' hh
    funext fs raw req _
    rw [gcpPrepared_eq, gcpPrepared_eq, requestBetas_congr hh]
  force := fun _ _ raw _ _ => sameButForced_refl raw _
  names := by
    intro h fs raw req force r hr
    obtain ⟨⟨path, length, hn⟩, -⟩ := requestBody_gcp_eq_ok (Results.mapError_eq_ok.mp hr)
    rw [hn, gcpPrepared_eq]
    exact names_of_betaHeaders (filterHeaderValues_snd (betaFilterOf fs) (requestBetas h))
  sets := by
    intro h fs raw req force r hr k hk
    obtain ⟨⟨path, length, hn⟩, -⟩ := requestBody_gcp_eq_ok (Results.mapError_eq_ok.mp hr)
    rw [List.mem_singleton] at hk
    rw [hn, hk]
    exact lastValue_path _
  body := by
    intro h fs raw req force r ho hr _
    exact (requestBody_gcp_eq_ok (Results.mapError_eq_ok.mp hr)).2 ho

/-- The AWS translator as `SetBackend` prepares it. -/
def awsPrepared (apiVersion modelNameOverride : String) (h : Headers)
    (fs : List HTTPHeaderValueFilter) : AnthropicToAWSAnthropic :=
  fs.foldl AnthropicToAWSAnthropic.setHeaderValueFilter
    ((AnthropicToAWSAnthropic.new apiVersion modelNameOverride).setRequestHeaders h)

theorem awsPrepared_eq (h : Headers) (fs : List HTTPHeaderValueFilter) :
    awsPrepared apiVersion modelNameOverride h fs =
      ⟨apiVersion, modelNameOverride, supportedBetas [] (requestBetas h), betaFilterOf fs⟩ := by
  exact foldl_hom (AnthropicToAWSAnthropic.mk apiVersion modelNameOverride
    (supportedBetas [] (requestBetas h))) fun _ _ => rfl

theorem requestBody_aws_eq_ok {pathEscape : String → String} {size : Json → Nat}
    {t : AnthropicToAWSAnthropic} {raw : Json} {req : MessagesRequest} {r : Translation}
    (h : t.requestBody pathEscape size raw req = .ok r) :
    (∃ path length value, r.newHeaders =
        [(pathHeaderName, path), (contentLengthHeaderName, length)] ++
          (if t.betas.2 then [(anthropicBetaHeaderName, value)] else [])) ∧
      r.newBody.isSome = true := by
  unfold AnthropicToAWSAnthropic.requestBody at h
  split at h
  · cases h
  · cases h
    exact ⟨⟨_, _, _, rfl⟩, rfl⟩

/-- Anthropic to AWS. -/
def anthropicToAWS (pathEscape : String → String) (size : Json → Nat)
    (apiVersion modelNameOverride : String) : Translator MessagesRequest where
  requestBody h fs raw req _ :=
    ((awsPrepared apiVersion modelNameOverride h fs).requestBody pathEscape size raw req).mapError
      fun m => ⟨m, false⟩
  reads := [anthropicBetaHeaderName]
  writes h fs := betaWrites (supportedBetas [] (requestBetas h)) fs
  always := [pathHeaderName]
  replacesBody := true
  congr := by
    intro h h' hh
    funext fs raw req _
    rw [awsPrepared_eq, awsPrepared_eq, requestBetas_congr hh]
  force := fun _ _ raw _ _ => sameButForced_refl raw _
  names := by
    intro h fs raw req force r hr
    obtain ⟨⟨path, length, value, hn⟩, -⟩ := requestBody_aws_eq_ok (Results.mapError_eq_ok.mp hr)
    rw [hn, awsPrepared_eq]
    exact names_of_betaHeaders
      (filterHeaderValues_snd (betaFilterOf fs) (supportedBetas [] (requestBetas h)))
  sets := by
    intro h fs raw req force r hr k hk
    obtain ⟨⟨path, length, value, hn⟩, -⟩ := requestBody_aws_eq_ok (Results.mapError_eq_ok.mp hr)
    rw [List.mem_singleton] at hk
    rw [hn, hk]
    exact lastValue_path _
  body := by
    intro h fs raw req force r _ hr _
    exact (requestBody_aws_eq_ok (Results.mapError_eq_ok.mp hr)).2

/-! ## The GCP auth handler -/

/-- `gcpHandler` with a fixed access token. -/
def gcpHandler (accessToken region projectName : String) : AuthHandler where
  authorize h _ :=
    if headerValue h pathHeaderName = "" then .error (.failed "missing ':path' header in the request")
    else .ok [(pathHeaderName, "/v1/projects/" ++ projectName ++ "/locations/" ++ region ++ "/" ++
        headerValue h pathHeaderName), ("Authorization", "Bearer " ++ accessToken)]
  reads := [pathHeaderName]
  readsBody := false
  congr := by
    intro h h' b b' hh _
    have hp : headerValue h pathHeaderName = headerValue h' pathHeaderName := by
      unfold headerValue
      rw [hh _ List.mem_cons_self]
    rw [hp]
  names := by
    intro h b es hok e he
    split at hok
    · cases hok
    · cases hok
      simp only [List.mem_cons, List.not_mem_nil, or_false] at he
      rcases he with rfl | rfl <;> (dsimp only; decide)
  length_not_read := by decide

end AgentRouter.ExtProc
