import AgentRouter.Controller.FilterConfig
import AgentRouter.ExtProc.Translators
import AgentRouter.Lib.Run

/-!
# Upstream: the attempts of one request

An attempt translates the client's request for the backend it goes to, applies the
backend's header and body mutation, signs the request, and hands Envoy a list of removes
and sets.  The next attempt starts from what it left, and the processor undoes the
difference.  An attempt is modelled over any translator and any auth handler, which say
which headers they read and set; only JSON request bodies are modelled.

    a retry sends what a first attempt would have sent,
      if earlier attempts left alone what the translator reads and the translator
      sets no header that the client sent   (attempt_same_as_first)
-/

namespace AgentRouter.ExtProc

open Kube Text AgentRouter.Translator GoMap List Results Controller

/-! ## Backends -/

/-- The controller writes header names in lower case. -/
def LowerNames (m : Option HTTPHeaderMutation) : Prop :=
  (∀ h ∈ m.elim [] (·.set), toLower h.name = h.name) ∧
    ∀ n ∈ m.elim [] (·.remove), toLower n = n

theorem lowerNames_headerMutationToFilterAPI (m : Option HTTPHeaderMutation) :
    LowerNames (m.map headerMutationToFilterAPI) := by
  cases m with
  | none => simp [LowerNames]
  | some m => simp [LowerNames, headerMutationToFilterAPI, toLower_toLower]

theorem lower_overrideInputHeaders (c : BSPCredential) (header : String) :
    ∀ n ∈ overrideInputHeaders c (toLower header), toLower n = n := by
  have hsuffix : ∀ b : String, toLower b = b → toLower (toLower header ++ b) = toLower header ++ b := by
    intro b hb
    rw [toLower_append, toLower_toLower, hb]
  intro n hn
  cases c with
  | aws region file oidc =>
    simp only [overrideInputHeaders, mem_cons, not_mem_nil, or_false] at hn
    rcases hn with rfl | rfl | rfl <;> exact hsuffix _ (by decide)
  | _ =>
    rw [mem_singleton.mp hn]
    exact toLower_toLower _

theorem lower_inputHeadersToRemove {c : BSPCredential} {o : CredentialOverrideSource} {hasCred : Bool}
    {co : CredentialOverride} (h : resolveCredentialOverride c o hasCred = .ok co) :
    ∀ n ∈ co.inputHeadersToRemove, toLower n = n := by
  intro n hn
  unfold resolveCredentialOverride at h
  cases o with
  | fromDynamicMetadata ns key fallback =>
    dsimp only at h
    split at h <;> cases h
    cases hn
  | fromRequestHeaders header fallback =>
    dsimp only at h
    split at h <;> cases h
    exact lower_overrideInputHeaders c _ n hn

theorem lowerNames_withAuth {st : Store} {b b' : Backend} {p : Option BackendSecurityPolicy}
    (hb : LowerNames b.headerMutation) (h : withAuth st b p = some b') :
    LowerNames b'.headerMutation := by
  unfold withAuth at h
  split at h
  · cases h
    exact hb
  next p =>
  split at h
  · cases h
  next auth hauth =>
  cases h
  unfold stripCredentialOverrideInputHeaders
  split
  · exact hb
  next c hc =>
  split
  · exact hb
  -- the policy's override names the headers to strip
  have hlow : ∀ n ∈ c.inputHeadersToRemove, toLower n = n := by
    unfold bspToFilterAPIBackendAuth at hauth
    split at hauth
    · cases hauth
    split at hauth
    · cases hauth
      cases hc
    · split at hauth
      · cases hauth
      next co hco =>
        cases hauth
        cases hc
        exact lower_inputHeadersToRemove hco
  constructor
  · intro x hx
    cases hm : b.headerMutation with
    | none => simp [hm] at hx
    | some m =>
      exact hb.1 x (by simpa [hm] using hx)
  · intro n hn
    rcases mem_append.mp hn with hn | hn
    · cases hm : b.headerMutation with
      | none => simp [hm] at hn
      | some m => exact hb.2 n (by simpa [hm] using hn)
    · exact hlow n hn

theorem lowerNames_filterBackend {ord : MergeOrders} {st : Store} {route : AIGatewayRoute}
    {ruleIndex refIndex : Nat} {ref : RuleBackendRef} {b : Backend}
    (h : filterBackend ord st route ruleIndex refIndex ref = some b) :
    LowerNames b.headerMutation := by
  unfold filterBackend at h
  dsimp only at h
  split at h
  · cases h
  split at h
  · split at h
    · cases h
    · exact lowerNames_withAuth (by simp [LowerNames]) h
  · split at h
    · cases h
    · exact lowerNames_withAuth (lowerNames_headerMutationToFilterAPI _) h

theorem lowerNames_plainBackend : ∃ st route ref b,
    filterBackend .stored st route 0 0 ref = some b ∧ LowerNames b.headerMutation := by
  have h : filterBackend .stored { Store.empty with aiServiceBackends := [plainBackend ⟨"", "b"⟩] }
      ⟨⟨"", ""⟩, false, []⟩ 0 0 { localRef "b" with headerMutation := some ⟨[⟨"A", ""⟩], []⟩ } = some _ := rfl
  exact ⟨_, _, _, _, h, lowerNames_filterBackend h⟩

/-- `filterapi.RuntimeBackend`, with the host Envoy resolved for the attempt. -/
structure RuntimeBackend (Req : Type) where
  backend : Backend
  translator : Except TranslatorError (Translator Req)
  handler : Option AuthHandler
  upstreamHost : Option String
  lower : LowerNames backend.headerMutation

/-! ## The body mutation -/

def isJSONValue (value : String) : Bool :=
  let value := trimSpace value
  (startsWith value "\"" && endsWith value "\"") ||
    value ∈ ["0", "true", "false", "null"] ||
    (match value.toList with
      | [] => false
      | first :: _ => (first.isDigit || first ∈ ['-', '+']) &&
          value.toList.all fun r => r.isDigit || r ∈ ['.', '-', '+', 'e', 'E']) ||
    (startsWith value "\x7b" && endsWith value "\x7d") ||
    (startsWith value "[" && endsWith value "]")

/-- One pass of the loop over the fields to set. -/
def setField (splice : String → Json) (j : Json) (f : HTTPBodyField) : Except String Json :=
  if f.path = "" then .ok j
  else (j.set f.path (if isJSONValue f.value then splice f.value else .str f.value)).mapError
    fun e => "failed to set field " ++ f.path ++ ": " ++ e

/-- `BodyMutator.Mutate`. -/
def mutateBody (splice : String → Json) (m : Option HTTPBodyMutation) (j : Json) :
    Except String Json :=
  match m with
  | none => .ok j
  | some m =>
    m.set.foldlM (setField splice) (m.remove.foldl (fun j f => if f = "" then j else j.delete f) j)

/-- `applyBodyMutation`: a failing mutation is logged and dropped. -/
def applyBodyMutation (splice : String → Json) (m : Option HTTPBodyMutation) (newBody : Option Json)
    (raw : Json) : Option Json :=
  match newBody with
  | none => (mutateBody splice m raw).toOption
  | some j => some ((mutateBody splice m j).toOption.getD j)

/-! ## The router -/

def modelNameHeaderKeyDefault : String := "x-ai-eg-model"
def originalPathHeader : String := "x-ai-eg-original-path"
def upstreamHostHeader : String := "x-ai-eg-upstream-host"

/-- A request as the router processor took it in. -/
structure ClientRequest (Req : Type) where
  headers : Headers
  lower : ∀ k, headers.lookup k ≠ none → toLower k = k
  model : String
  /-- the decoded body. -/
  request : Req
  sentBody : Json
  /-- the body `ParseBody` changed, for instance to ask for the token usage. -/
  mutatedOriginalBody : Option Json
  /-- the headers the tracer injects into the router's answer. -/
  traceHeaders : List Header
  isObject : (mutatedOriginalBody.getD sentBody).IsObject

namespace ClientRequest

variable {Req : Type} (r : ClientRequest Req)

def originalRequestBodyRaw : Json := r.mutatedOriginalBody.getD r.sentBody

def forceBodyMutation : Bool := r.mutatedOriginalBody.isSome

theorem isObject_raw : r.originalRequestBodyRaw.IsObject := r.isObject

/-- The headers the router sets, on Envoy and in its own map. -/
def routerHeaders : List Header :=
  [(modelNameHeaderKeyDefault, r.model), (originalPathHeader, headerValue r.headers ":path"),
    (envoyOriginalPathHeader, headerValue r.headers ":path")]

/-- The router's own map, from which a retry restores. -/
def requestHeaders : Headers := setEach r.headers r.routerHeaders

end ClientRequest

/-- Envoy compares header names without regard to case. -/
def lowered (es : List Header) : List Header := es.map fun e => (toLower e.1, e.2)

/-- A header mutation on Envoy's side: removals first, then the sets in order. -/
def envoyApply (headers : Headers) (removes : List String) (sets : List Header) : Headers :=
  setEach (deleteEach headers (removes.map toLower)) (lowered sets)

/-! ## An attempt -/

/-- The request as Envoy holds it between attempts. -/
structure Upstream where
  headers : Headers
  body : Json
  /-- `upstreamFilterCount`. -/
  attempts : Nat

def initial {Req : Type} (r : ClientRequest Req) : Upstream :=
  ⟨envoyApply r.headers [] (r.routerHeaders ++ r.traceHeaders), r.sentBody, 0⟩

/-- An attempt that ends in a local reply or an error. -/
inductive Failure where
  | unprocessable (message : String)
  | unauthorized
  | failed (message : String)

/-- What an upstream attempt answers; no body means CONTINUE. -/
structure Response where
  removes : List String
  sets : List Header
  body : Option Json

section

variable {Req : Type} (splice : String → Json)

/-- The headers the upstream processor starts with: the client cannot choose the upstream
host, and an overridden model is visible to everything that reads the map. -/
def entryHeaders (b : RuntimeBackend Req) (headers : Headers) : Headers :=
  let headers := headers.erase upstreamHostHeader
  let headers := b.upstreamHost.elim headers fun host => headers.insert upstreamHostHeader host
  if b.backend.modelNameOverride = "" then headers
  else headers.insert modelNameHeaderKeyDefault b.backend.modelNameOverride

/-- `SetBackend` and the call of `RequestBody`. -/
def translate (r : ClientRequest Req) (b : RuntimeBackend Req) (headers : Headers) (force : Bool) :
    Except TranslatorError Translation :=
  b.translator.bind fun t =>
    t.requestBody (entryHeaders b headers) b.backend.headerValueFilters r.originalRequestBodyRaw
      r.request force

def translationFailure (e : TranslatorError) : Failure :=
  if e.userFacing then .unprocessable e.message
  else .failed ("failed to transform request: " ++ e.message)

/-- The new body, if the attempt replaces the body at all. -/
def replacedBody (r : ClientRequest Req) (b : RuntimeBackend Req) (t : Translation) (force : Bool) :
    Option Json :=
  if t.newBody.isSome || force || b.backend.bodyMutation.isSome then
    applyBodyMutation splice b.backend.bodyMutation t.newBody r.originalRequestBodyRaw
  else none

def authHeaders (b : RuntimeBackend Req) (headers : Headers) (body : Option Json) :
    Except Failure (List Header) :=
  match b.handler with
  | none => .ok []
  | some h => (h.authorize headers body).mapError fun e => match e with
    | .credentialMissing => .unauthorized
    | .failed m => .failed ("failed to do auth request: " ++ m)

/-- The backend's header mutation, with the restoration on retry. -/
def mutatedHeaders (ord : RetryOrders) (r : ClientRequest Req) (b : RuntimeBackend Req)
    (headers : Headers) (onRetry : Bool) : Progress :=
  mutate ord r.requestHeaders b.backend.headerMutation (entryHeaders b headers) onRetry

/-- `ProcessRequestHeaders` behind a translation that went through. -/
def respond (ord : RetryOrders) (r : ClientRequest Req) (b : RuntimeBackend Req) (headers : Headers)
    (onRetry : Bool) (t : Translation) : Except Failure Response :=
  let m := mutatedHeaders ord r b headers onRetry
  let body := replacedBody splice r b t (onRetry || r.forceBodyMutation)
  (authHeaders b (setEach m.headers (t.newHeaders ++ m.sets)) body).map fun auth =>
    ⟨m.removes ++ [upstreamHostHeader], t.newHeaders ++ m.sets ++ auth, body⟩

def processRequestHeaders (ord : RetryOrders) (r : ClientRequest Req) (b : RuntimeBackend Req)
    (headers : Headers) (onRetry : Bool) : Except Failure Response :=
  match translate r b headers (onRetry || r.forceBodyMutation) with
  | .error e => .error (translationFailure e)
  | .ok t => respond splice ord r b headers onRetry t

/-- The request after one more attempt. -/
def attempt (ord : RetryOrders) (r : ClientRequest Req) (b : RuntimeBackend Req) (s : Upstream) :
    Except Failure Upstream :=
  (processRequestHeaders splice ord r b s.headers (1 < s.attempts + 1)).map fun res =>
    ⟨envoyApply s.headers res.removes res.sets, res.body.getD s.body, s.attempts + 1⟩

/-- Earlier attempts of a request, on any backends. -/
def AttemptStep (r : ClientRequest Req) (s : Upstream) (a : RetryOrders × RuntimeBackend Req)
    (s' : Upstream) : Prop :=
  attempt splice a.1 r a.2 s = .ok s'

end

/-! ## Lower-case names -/

def LowerKeys (headers : Headers) : Prop := ∀ k, headers.lookup k ≠ none → toLower k = k

theorem lowered_append (xs ys : List Header) : lowered (xs ++ ys) = lowered xs ++ lowered ys :=
  map_append

theorem lowered_of_lower {es : List Header} (h : ∀ e ∈ es, toLower e.1 = e.1) : lowered es = es := by
  conv_rhs => rw [← map_id es]
  refine map_congr_left fun e he => ?_
  rw [h e he]
  rfl

theorem lookup_envoyApply (k : String) (headers : Headers) (removes : List String) (sets : List Header) :
    (envoyApply headers removes sets).lookup k =
      (lastValue k (lowered sets)).or (if k ∈ removes.map toLower then none else headers.lookup k) := by
  unfold envoyApply
  rw [lookup_setEach, lookup_deleteEach]

variable {headers : Headers}

theorem LowerKeys.envoyApply (h : LowerKeys headers) (removes : List String) (sets : List Header) :
    LowerKeys (envoyApply headers removes sets) := by
  intro k hk
  rw [lookup_envoyApply, ne_eq, Option.or_eq_none_iff, not_and_or] at hk
  rcases hk with hk | hk
  · rw [lastValue_eq_none_iff, not_not] at hk
    obtain ⟨e, he, rfl⟩ := mem_map.mp hk
    obtain ⟨e', -, rfl⟩ := mem_map.mp he
    exact toLower_toLower _
  · split at hk
    · exact absurd rfl hk
    · exact h k hk

theorem LowerKeys.setEach (h : LowerKeys headers) {es : List Header}
    (hes : ∀ e ∈ es, toLower e.1 = e.1) : LowerKeys (setEach headers es) := by
  intro k hk
  rw [lookup_setEach, ne_eq, Option.or_eq_none_iff, not_and_or] at hk
  rcases hk with hk | hk
  · rw [lastValue_eq_none_iff, not_not] at hk
    obtain ⟨e, he, rfl⟩ := mem_map.mp hk
    exact hes e he
  · exact h k hk

section

variable {Req : Type}

section

variable (r : ClientRequest Req)

theorem lower_routerHeaders : ∀ e ∈ r.routerHeaders, toLower e.1 = e.1 := by
  intro e he
  simp only [ClientRequest.routerHeaders, mem_cons, not_mem_nil, or_false] at he
  rcases he with rfl | rfl | rfl <;> (dsimp only; decide)

theorem lowerKeys_requestHeaders : LowerKeys r.requestHeaders :=
  LowerKeys.setEach r.lower (lower_routerHeaders r)

theorem lowerKeys_initial : LowerKeys (initial r).headers :=
  LowerKeys.envoyApply r.lower _ _

end

theorem ne_of_shouldIgnoreHeader {k k' : String} (h : shouldIgnoreHeader k = false)
    (h' : shouldIgnoreHeader k' = true) : k ≠ k' := by
  rintro rfl
  rw [h] at h'
  cases h'

variable {k : String}

theorem lookup_entryHeaders {b : RuntimeBackend Req} (h1 : k ≠ upstreamHostHeader)
    (h2 : k ≠ modelNameHeaderKeyDefault) :
    (entryHeaders b headers).lookup k = headers.lookup k := by
  have hhost : (b.upstreamHost.elim (headers.erase upstreamHostHeader) fun host =>
      (headers.erase upstreamHostHeader).insert upstreamHostHeader host).lookup k =
      headers.lookup k := by
    cases b.upstreamHost with
    | none => exact AList.lookup_erase_ne h1
    | some host => exact (AList.lookup_insert_ne h1).trans (AList.lookup_erase_ne h1)
  unfold entryHeaders
  split
  · exact hhost
  · rw [AList.lookup_insert_ne h2, hhost]

theorem lookup_entryHeaders_of_not_ignored {b : RuntimeBackend Req}
    (hi : shouldIgnoreHeader k = false) : (entryHeaders b headers).lookup k = headers.lookup k :=
  lookup_entryHeaders (ne_of_shouldIgnoreHeader hi (by decide)) (ne_of_shouldIgnoreHeader hi (by decide))

theorem LowerKeys.entryHeaders (h : LowerKeys headers) (b : RuntimeBackend Req) :
    LowerKeys (entryHeaders b headers) := by
  intro k hk
  by_cases h1 : k = upstreamHostHeader
  · subst h1
    decide
  by_cases h2 : k = modelNameHeaderKeyDefault
  · subst h2
    decide
  rw [lookup_entryHeaders h1 h2] at hk
  exact h k hk

variable {m : Option HTTPHeaderMutation}

theorem setValue_ne_none (hm : LowerNames m) (h : setValue m k ≠ none) : toLower k = k := by
  unfold setValue at h
  rw [ne_eq, lastValue_eq_none_iff, not_not, map_map] at h
  obtain ⟨x, hx, rfl⟩ := mem_map.mp h
  exact hm.1 x hx

theorem lower_mutate {ord : RetryOrders} {original : Headers} {onRetry : Bool} (hm : LowerNames m)
    (ho : LowerKeys original) (hh : LowerKeys headers) :
    (∀ e ∈ (mutate ord original m headers onRetry).sets, toLower e.1 = e.1) ∧
      ∀ n ∈ (mutate ord original m headers onRetry).removes, toLower n = n := by
  have hview : ∀ k, ((mutate ord original m headers onRetry).view k).setTo ≠ none ∨
      ((mutate ord original m headers onRetry).view k).removed = true → toLower k = k := by
    intro k hk
    cases hi : shouldIgnoreHeader k with
    | true =>
      rw [view_mutate_ignored hi] at hk
      simp at hk
    | false =>
      by_contra hlow
      have h1 : setValue m k = none := by_contra fun h => hlow (setValue_ne_none hm h)
      have h2 : original.lookup k = none := by_contra fun h => hlow (ho k h)
      have h3 : headers.lookup k = none := by_contra fun h => hlow (hh k h)
      cases onRetry with
      | false =>
        rw [view_mutate_first hi, h1, h3] at hk
        simp at hk
      | true =>
        have ht := retryView_eq (k ∈ removedKeys m) none none none
        rw [view_mutate_retry hi, view_mutateConfigured hi, h1, h2, h3, ht.2.1, ht.2.2] at hk
        simp at hk
  refine ⟨fun e he => hview e.1 (.inl ?_), fun n hn => hview n (.inr ?_)⟩
  · show lastValue e.1 _ ≠ none
    rw [ne_eq, lastValue_eq_none_iff, not_not]
    exact mem_map_of_mem he
  · simpa [Progress.view] using hn

/-! ## What an attempt sends -/

variable {splice : String → Json} {ord : RetryOrders} {r : ClientRequest Req}
  {b : RuntimeBackend Req}

/-- The local map an auth handler reads. -/
def localHeaders (ord : RetryOrders) (r : ClientRequest Req) (b : RuntimeBackend Req)
    (headers : Headers) (onRetry : Bool) (t : Translation) : Headers :=
  let m := mutatedHeaders ord r b headers onRetry
  setEach m.headers (t.newHeaders ++ m.sets)

theorem respond_eq (headers : Headers) (onRetry : Bool) (t : Translation) :
    respond splice ord r b headers onRetry t =
      (authHeaders b (localHeaders ord r b headers onRetry t)
        (replacedBody splice r b t (onRetry || r.forceBodyMutation))).map fun auth =>
      ⟨(mutatedHeaders ord r b headers onRetry).removes ++ [upstreamHostHeader],
        t.newHeaders ++ (mutatedHeaders ord r b headers onRetry).sets ++ auth,
        replacedBody splice r b t (onRetry || r.forceBodyMutation)⟩ :=
  rfl

theorem lookup_after {onRetry : Bool} {t : Translation} {auth : List Header}
    (hl : LowerKeys headers) (ht : ∀ e ∈ t.newHeaders, toLower e.1 = e.1)
    (hk : k ≠ upstreamHostHeader) :
    let m := mutatedHeaders ord r b headers onRetry
    (envoyApply headers (m.removes ++ [upstreamHostHeader]) (t.newHeaders ++ m.sets ++ auth)).lookup k =
      (lastValue k (lowered auth)).or ((m.view k).setTo.or ((lastValue k t.newHeaders).or
        (if (m.view k).removed then none else headers.lookup k))) := by
  intro m
  have hlow : (∀ e ∈ m.sets, toLower e.1 = e.1) ∧ ∀ n ∈ m.removes, toLower n = n :=
    lower_mutate b.lower (lowerKeys_requestHeaders r) (hl.entryHeaders b)
  have hrem : (m.removes ++ [upstreamHostHeader]).map toLower = m.removes ++ [upstreamHostHeader] := by
    conv_rhs => rw [← map_id (m.removes ++ [upstreamHostHeader])]
    refine map_congr_left fun n hn => ?_
    rcases mem_append.mp hn with hn | hn
    · exact hlow.2 n hn
    · rw [mem_singleton] at hn
      subst hn
      decide
  rw [lookup_envoyApply, hrem, lowered_append, lowered_append, lowered_of_lower ht,
    lowered_of_lower hlow.1, lastValue_append, lastValue_append, Option.or_assoc, Option.or_assoc]
  simp [Progress.view, hk]

/-! ## Runs -/

/-- What holds between the attempts of a request. -/
structure Between (r : ClientRequest Req) (s : Upstream) : Prop where
  lower : LowerKeys s.headers
  originalPath : s.headers.lookup envoyOriginalPathHeader =
    (initial r).headers.lookup envoyOriginalPathHeader
  first : s.attempts = 0 → s = initial r

theorem names_of_translate {force : Bool} {t : Translation} (h : translate r b headers force = .ok t) :
    ∃ tr, b.translator = .ok tr ∧ tr.requestBody (entryHeaders b headers)
      b.backend.headerValueFilters r.originalRequestBodyRaw r.request force = .ok t := by
  exact bind_eq_ok h

theorem authHeaders_names {body : Option Json} {auth : List Header}
    (h : authHeaders b headers body = .ok auth) :
    lastValue envoyOriginalPathHeader (lowered auth) = none := by
  rw [lastValue_eq_none_iff]
  intro hm
  obtain ⟨e, he, hk⟩ := mem_map.mp hm
  obtain ⟨e', he', rfl⟩ := mem_map.mp he
  unfold authHeaders at h
  split at h
  · cases h
    cases he'
  next a _ => exact a.names (mapError_eq_ok.mp h) e' he' hk

theorem attempt_eq_ok {s s' : Upstream} (h : attempt splice ord r b s = .ok s') :
    ∃ t res, translate r b s.headers (decide (1 < s.attempts + 1) || r.forceBodyMutation) = .ok t ∧
      respond splice ord r b s.headers (1 < s.attempts + 1) t = .ok res ∧
      s' = ⟨envoyApply s.headers res.removes res.sets, res.body.getD s.body, s.attempts + 1⟩ := by
  obtain ⟨res, hres, rfl⟩ := map_eq_ok h
  unfold processRequestHeaders at hres
  split at hres
  · cases hres
  next t ht => exact ⟨t, res, ht, hres, rfl⟩

theorem between_attempt {s s' : Upstream} (hs : Between r s)
    (h : attempt splice ord r b s = .ok s') : Between r s' := by
  obtain ⟨t, res, ht, hres, rfl⟩ := attempt_eq_ok h
  obtain ⟨tr, -, htr⟩ := names_of_translate ht
  refine ⟨hs.lower.envoyApply _ _, ?_, fun h0 => absurd h0 (Nat.succ_ne_zero _)⟩
  obtain ⟨auth, hauth, rfl⟩ := map_eq_ok hres
  -- nobody sets the path Envoy remembers
  have htn : lastValue envoyOriginalPathHeader t.newHeaders = none := by
    rw [lastValue_eq_none_iff]
    intro hm
    obtain ⟨e, he, hk⟩ := mem_map.mp hm
    exact (tr.names htr e he).2.1 hk
  have hpath := @lookup_after s.headers _ envoyOriginalPathHeader ord r b
    (decide (1 < s.attempts + 1)) t auth hs.lower (fun e he => (tr.names htr e he).1) (by decide)
  dsimp only at hpath
  rw [mutatedHeaders, view_mutate_ignored (by decide), authHeaders_names hauth, htn] at hpath
  exact hpath.trans hs.originalPath

theorem between_of_run {s : Upstream} (h : Run (AttemptStep splice r) (initial r) s) : Between r s :=
  h.invariant (Between r) ⟨lowerKeys_initial r, rfl, fun _ => rfl⟩ fun _ _ _ hs hstep =>
    between_attempt hs hstep

/-! ## The body -/

/-- The body an attempt sends, given the body the translator works from. -/
def sentBody (splice : String → Json) (m : Option HTTPBodyMutation) (j : Json) : Json :=
  (mutateBody splice m j).toOption.getD j

theorem isObject_foldl_delete (fs : List String) {j : Json} (h : j.IsObject) :
    (fs.foldl (fun j f => if f = "" then j else j.delete f) j).IsObject := by
  refine foldlRecOn (motive := Json.IsObject) fs _ h fun j hj f _ => ?_
  split
  · exact hj
  · exact hj.delete f

theorem foldlM_setField (fs : List HTTPBodyField) {j : Json} (h : j.IsObject) :
    ∃ j', fs.foldlM (setField splice) j = .ok j' := by
  induction fs generalizing j with
  | nil => exact ⟨j, rfl⟩
  | cons f fs ih =>
    rw [foldlM_cons]
    have hstep : ∃ j', setField splice j f = .ok j' ∧ j'.IsObject := by
      unfold setField
      split
      · exact ⟨j, rfl, h⟩
      · obtain ⟨j', hj⟩ := h.set f.path (if isJSONValue f.value then splice f.value else .str f.value)
        rw [hj]
        exact ⟨j', rfl, Json.isObject_of_set hj⟩
    obtain ⟨j', hj, ho⟩ := hstep
    rw [hj]
    exact ih ho

theorem mutateBody_eq_ok (m : Option HTTPBodyMutation) {j : Json} (h : j.IsObject) :
    mutateBody splice m j = .ok (sentBody splice m j) := by
  have hok : ∃ j', mutateBody splice m j = .ok j' := by
    cases m with
    | none => exact ⟨j, rfl⟩
    | some m => exact foldlM_setField m.set (isObject_foldl_delete m.remove h)
  obtain ⟨j', hj⟩ := hok
  unfold sentBody
  rw [hj]
  rfl

theorem applyBodyMutation_eq (m : Option HTTPBodyMutation) (newBody : Option Json) {raw : Json}
    (h : raw.IsObject) :
    applyBodyMutation splice m newBody raw = some (sentBody splice m (newBody.getD raw)) := by
  cases newBody with
  | none =>
    unfold applyBodyMutation
    rw [mutateBody_eq_ok m h]
    rfl
  | some j => rfl

theorem replacedBody_force (t : Translation) :
    replacedBody splice r b t true =
      some (sentBody splice b.backend.bodyMutation (t.newBody.getD r.originalRequestBodyRaw)) := by
  unfold replacedBody
  rw [if_pos (by simp), applyBodyMutation_eq _ _ r.isObject_raw]

/-- A body that the first attempt leaves alone is the one it would have written. -/
theorem replacedBody_first (t : Translation) :
    (replacedBody splice r b t r.forceBodyMutation).getD r.sentBody =
      sentBody splice b.backend.bodyMutation (t.newBody.getD r.originalRequestBodyRaw) := by
  unfold replacedBody
  by_cases hw : (t.newBody.isSome || r.forceBodyMutation || b.backend.bodyMutation.isSome) = true
  · rw [if_pos hw, applyBodyMutation_eq _ _ r.isObject_raw]
    rfl
  · rw [if_neg hw]
    simp only [Bool.or_eq_true, not_or, Option.not_isSome_iff_eq_none, ClientRequest.forceBodyMutation] at hw
    obtain ⟨⟨h1, h2⟩, h3⟩ := hw
    rw [h1, h3]
    simp [sentBody, mutateBody, ClientRequest.originalRequestBodyRaw, h2, Except.toOption]

/-! ## First attempt and retry -/

/-- The headers that count: not the pseudo-headers, the gateway's own and the length. -/
def compared (k : String) : Bool :=
  !startsWith k ":" && !startsWith k envoyAIGatewayHeaderPrefix && k ≠ contentLengthHeaderName

/-- The upstream receives the same request, or the client the same failure. -/
def SameRequest : Except Failure Upstream → Except Failure Upstream → Prop
  | .ok s, .ok s' =>
    (∀ k, compared k = true → s.headers.lookup k = s'.headers.lookup k) ∧ s.body = s'.body
  | .error e, .error e' => e = e'
  | _, _ => False

/-- The tracer injects no header the client did not send with that value. -/
def TraceSent (r : ClientRequest Req) : Prop :=
  ∀ e ∈ r.traceHeaders, r.requestHeaders.lookup (toLower e.1) = some e.2

/-- What the state left by earlier attempts and the backend of the next one need. -/
structure RetrySafe (r : ClientRequest Req) (b : RuntimeBackend Req) (s : Upstream) : Prop where
  /-- earlier attempts left alone what the translator reads. -/
  translatorReads : ∀ t, b.translator = .ok t → ∀ k ∈ t.reads,
    (entryHeaders b s.headers).lookup k = (entryHeaders b (initial r).headers).lookup k
  /-- the translator sets no header of the client, unless the backend's mutation sets or
  removes that header anyway. -/
  clientHeaders : ∀ t, b.translator = .ok t →
    ∀ k ∈ t.writes (entryHeaders b (initial r).headers) b.backend.headerValueFilters,
      r.requestHeaders.lookup k = none ∨ setValue b.backend.headerMutation k ≠ none ∨
        k ∈ removedKeys b.backend.headerMutation
  /-- earlier attempts left alone what the auth handler reads and a retry does not restore. -/
  handlerReads : ∀ t, b.translator = .ok t → ∀ a, b.handler = some a → ∀ k ∈ a.reads,
    (shouldIgnoreHeader k = true → k ∈ t.always ∨
      (entryHeaders b s.headers).lookup k = (entryHeaders b (initial r).headers).lookup k) ∧
    (k ∈ removedKeys b.backend.headerMutation → s.headers.lookup k = none ∨
      s.headers.lookup k = (initial r).headers.lookup k)
  /-- an auth handler that reads the body gets one on the first attempt too. -/
  handlerBody : ∀ t, b.translator = .ok t → ∀ a, b.handler = some a → a.readsBody = true →
    t.replacesBody = true ∨ r.forceBodyMutation = true ∨ b.backend.bodyMutation.isSome = true

theorem lookup_initial (htrace : TraceSent r) (k : String) :
    (initial r).headers.lookup k = r.requestHeaders.lookup k := by
  have hreq : r.requestHeaders.lookup k = (lastValue k r.routerHeaders).or (r.headers.lookup k) :=
    lookup_setEach k _ _
  unfold initial
  rw [lookup_envoyApply, lowered_append, lowered_of_lower (lower_routerHeaders r), lastValue_append,
    Option.or_assoc, map_nil, if_neg not_mem_nil, ← hreq]
  cases htr : lastValue k (lowered r.traceHeaders) with
  | none => rfl
  | some v =>
    obtain ⟨e, he, hk⟩ := mem_map.mp (mem_of_lastValue htr)
    cases hk
    rw [htrace e he]
    rfl

theorem translate_retry {s : Upstream} (hsafe : RetrySafe r b s) :
    SameButForced r.originalRequestBodyRaw
      (translate r b (initial r).headers r.forceBodyMutation) (translate r b s.headers true) := by
  unfold translate
  cases htr : b.translator with
  | error e => exact rfl
  | ok t =>
    show SameButForced _ (t.requestBody _ _ _ _ _) (t.requestBody _ _ _ _ _)
    rw [t.congr (hsafe.translatorReads t htr)]
    cases r.forceBodyMutation with
    | true => exact sameButForced_refl _ _
    | false => exact t.force _ _ _ _ r.isObject_raw

/-- A first attempt and a retry at one header: `sv` is what the mutation sets, `o` the
client's value, `t` the translator's, `h` what earlier attempts left. -/
theorem sent_first_eq_retry (rm : Bool) (sv o t h : Option String)
    (ht : t = none ∨ o = none ∨ sv ≠ none ∨ rm = true) :
    sv.or (t.or (if rm && o.isSome then none else o)) =
      (sv.or (if rm then none else o)).or
        (t.or (if h.isSome && (rm || (sv.isNone && o.isNone)) then none else h)) := by
  cases rm <;> cases sv <;> cases o <;> cases t <;> cases h <;> simp_all

theorem read_first_eq_retry (rm : Bool) (sv o t h : Option String)
    (ht : t = none ∨ o = none ∨ sv ≠ none ∨ rm = true) (hh : rm = true → h = none ∨ h = o) :
    sv.or (t.or (sv.or o)) =
      (sv.or (if rm then none else o)).or (t.or (sv.or (if rm then h.or o else o))) := by
  cases rm <;> cases sv <;> cases o <;> cases t <;> cases h <;> simp_all

variable {s : Upstream} {t t' : Translation}

section

variable (hsafe : RetrySafe r b s)
  (ht : translate r b (initial r).headers r.forceBodyMutation = .ok t)

include hsafe ht

theorem clientHeaders_of_safe (hi : shouldIgnoreHeader k = false) (hk : k ≠ contentLengthHeaderName) :
    lastValue k t.newHeaders = none ∨ r.requestHeaders.lookup k = none ∨
      setValue b.backend.headerMutation k ≠ none ∨
      decide (k ∈ removedKeys b.backend.headerMutation) = true := by
  obtain ⟨tr, htr, htb⟩ := names_of_translate ht
  cases hv : lastValue k t.newHeaders with
  | none => exact .inl rfl
  | some v =>
    have hpseudo : startsWith k ":" ≠ true := by
      intro h
      rw [shouldIgnoreHeader, h] at hi
      cases hi
    rcases (tr.names htb (k, v) (mem_of_lastValue hv)).2.2 with h | h | h
    · exact absurd h hpseudo
    · exact absurd h hk
    · rw [decide_eq_true_iff]
      exact .inr (hsafe.clientHeaders tr htr k h)

variable (htrace : TraceSent r) (ord ord' : RetryOrders)
  (hsame : ∀ k, k ≠ contentLengthHeaderName → lastValue k t'.newHeaders = lastValue k t.newHeaders)

include htrace hsame

theorem lookup_localHeaders {a : AuthHandler} (ha : b.handler = some a) (hk : k ∈ a.reads) :
    (localHeaders ord r b s.headers true t').lookup k =
      (localHeaders ord' r b (initial r).headers false t).lookup k := by
  obtain ⟨tr, htr, htb⟩ := names_of_translate ht
  have hlen : k ≠ contentLengthHeaderName := by
    rintro rfl
    exact a.length_not_read hk
  have hread := hsafe.handlerReads tr htr a ha k hk
  unfold localHeaders mutatedHeaders
  rw [lookup_setEach, lookup_setEach, lastValue_append, lastValue_append, hsame k hlen]
  cases hi : shouldIgnoreHeader k with
  | true =>
    have h1 := view_mutate_ignored hi ord r.requestHeaders b.backend.headerMutation
      (entryHeaders b s.headers) true
    have h2 := view_mutate_ignored hi ord' r.requestHeaders b.backend.headerMutation
      (entryHeaders b (initial r).headers) false
    rw [Progress.view, KeyView.mk.injEq] at h1 h2
    rw [h1.1, h1.2.1, h2.1, h2.2.1]
    rcases hread.1 hi with halways | heq
    · obtain ⟨v, hv⟩ := Option.ne_none_iff_exists'.mp (tr.sets htb k halways)
      rw [hv]
      rfl
    · rw [heq]
  | false =>
    have h1 := view_mutate_retry hi ord r.requestHeaders b.backend.headerMutation (entryHeaders b s.headers)
    have h2 := view_mutate_first hi ord' r.requestHeaders b.backend.headerMutation
      (entryHeaders b (initial r).headers)
    have htable := retryView_eq (k ∈ removedKeys b.backend.headerMutation)
      (setValue b.backend.headerMutation k) (s.headers.lookup k) (r.requestHeaders.lookup k)
    rw [view_mutateConfigured hi, lookup_entryHeaders_of_not_ignored hi] at h1
    rw [← h1] at htable
    rw [lookup_entryHeaders_of_not_ignored hi, lookup_initial htrace, Progress.view, KeyView.mk.injEq] at h2
    obtain ⟨hval, hset, -⟩ := htable
    dsimp only [Progress.view] at hval hset
    rw [hval, hset, h2.1, h2.2.1]
    have hrm : decide (k ∈ removedKeys b.backend.headerMutation) = true →
        s.headers.lookup k = none ∨ s.headers.lookup k = r.requestHeaders.lookup k := by
      intro h
      rw [← lookup_initial htrace]
      exact hread.2 (of_decide_eq_true h)
    have heq := read_first_eq_retry _ _ _ _ _ (clientHeaders_of_safe hsafe ht hi hlen) hrm
    simpa only [Option.or_assoc] using heq.symm

theorem authHeaders_retry
    (hbody : t'.newBody.getD r.originalRequestBodyRaw = t.newBody.getD r.originalRequestBodyRaw) :
    authHeaders b (localHeaders ord r b s.headers true t') (replacedBody splice r b t' true) =
      authHeaders b (localHeaders ord' r b (initial r).headers false t)
        (replacedBody splice r b t r.forceBodyMutation) := by
  obtain ⟨tr, htr, htb⟩ := names_of_translate ht
  unfold authHeaders
  cases ha : b.handler with
  | none => rfl
  | some a =>
    dsimp only
    rw [a.congr (fun k => lookup_localHeaders hsafe ht htrace ord ord' hsame ha)]
    intro hreads
    rw [replacedBody_force, hbody]
    unfold replacedBody
    have hw : (t.newBody.isSome || r.forceBodyMutation || b.backend.bodyMutation.isSome) = true := by
      rcases hsafe.handlerBody tr htr a ha hreads with h | h | h
      · rw [tr.body r.isObject_raw htb h]
        rfl
      · rw [h, Bool.or_true]
        rfl
      · rw [h, Bool.or_true]
    rw [if_pos hw, applyBodyMutation_eq _ _ r.isObject_raw]

theorem lookup_after_retry (hs : Between r s) (ht' : translate r b s.headers true = .ok t')
    (auth : List Header) (hk : compared k = true) :
    let m := mutatedHeaders ord' r b (initial r).headers false
    let m' := mutatedHeaders ord r b s.headers true
    (envoyApply s.headers (m'.removes ++ [upstreamHostHeader]) (t'.newHeaders ++ m'.sets ++ auth)).lookup k =
      (envoyApply (initial r).headers (m.removes ++ [upstreamHostHeader])
        (t.newHeaders ++ m.sets ++ auth)).lookup k := by
  intro m m'
  -- names on the wire are in lower case
  by_cases hlow : toLower k = k
  swap
  · have hnone : ∀ headers removes sets, LowerKeys headers →
        (envoyApply headers removes sets).lookup k = none := fun headers removes sets hl =>
      by_contra fun h => hlow (hl.envoyApply removes sets k h)
    rw [hnone _ _ _ hs.lower, hnone _ _ _ (lowerKeys_initial r)]
  obtain ⟨tr, -, htb⟩ := names_of_translate ht
  obtain ⟨tr', -, htb'⟩ := names_of_translate ht'
  simp only [compared, Bool.and_eq_true, Bool.not_eq_true', decide_eq_true_eq] at hk
  obtain ⟨⟨hpseudo, hown⟩, hlen⟩ := hk
  have hhost : k ≠ upstreamHostHeader := by
    rintro rfl
    exact absurd hown (by decide)
  rw [lookup_after hs.lower (fun e he => (tr'.names htb' e he).1) hhost,
    lookup_after (lowerKeys_initial r) (fun e he => (tr.names htb e he).1) hhost, hsame k hlen]
  congr 1
  unfold mutatedHeaders
  cases hi : shouldIgnoreHeader k with
  | true =>
    -- only the path that Envoy remembers is left
    have hpath : k = envoyOriginalPathHeader := by
      rw [shouldIgnoreHeader, hpseudo, hown] at hi
      rw [← hlow]
      exact of_decide_eq_true hi
    rw [view_mutate_ignored hi, view_mutate_ignored hi, hpath, hs.originalPath]
  | false =>
    have htable := retryView_eq (k ∈ removedKeys b.backend.headerMutation)
      (setValue b.backend.headerMutation k) (s.headers.lookup k) (r.requestHeaders.lookup k)
    rw [view_mutate_first hi, view_mutate_retry hi, view_mutateConfigured hi,
      lookup_entryHeaders_of_not_ignored hi, lookup_entryHeaders_of_not_ignored hi,
      lookup_initial htrace, htable.2.1, htable.2.2]
    exact (sent_first_eq_retry _ _ _ _ _ (clientHeaders_of_safe hsafe ht hi hlen)).symm

end

/-! ## Top theorem -/

theorem sameRequest_refl (x : Except Failure Upstream) : SameRequest x x := by
  cases x with
  | error e => exact rfl
  | ok s => exact ⟨fun _ _ => rfl, rfl⟩

theorem attempt_retry_same (htrace : TraceSent r) (hs : Between r s) (hpos : 0 < s.attempts)
    (hsafe : RetrySafe r b s) (ord ord' : RetryOrders) :
    SameRequest (attempt splice ord r b s) (attempt splice ord' r b (initial r)) := by
  have hretry : decide (1 < s.attempts + 1) = true := decide_eq_true (by omega)
  have hfirst : decide (1 < (initial r).attempts + 1) = false := rfl
  unfold attempt processRequestHeaders
  rw [hretry, hfirst, Bool.true_or, Bool.false_or]
  have htr := translate_retry hsafe
  generalize ht : translate r b (initial r).headers r.forceBodyMutation = first at htr
  generalize ht' : translate r b s.headers true = second at htr
  match first, second, htr with
  | .error e, .error _, rfl => exact rfl
  | .ok t, .ok t', ⟨hbody, hsame⟩ =>
    dsimp only
    rw [respond_eq, respond_eq, Bool.true_or, Bool.false_or,
      authHeaders_retry hsafe ht htrace ord ord' hsame hbody]
    cases authHeaders b (localHeaders ord' r b (initial r).headers false t)
        (replacedBody splice r b t r.forceBodyMutation) with
    | error e => exact rfl
    | ok auth =>
      refine ⟨fun k => lookup_after_retry hsafe ht htrace ord ord' hsame hs ht' auth, ?_⟩
      show (replacedBody splice r b t' true).getD s.body =
        (replacedBody splice r b t r.forceBodyMutation).getD r.sentBody
      rw [replacedBody_first, replacedBody_force, hbody]
      rfl

/-- After any earlier attempts, on any backends: an attempt that is safe to retry sends
the request that a first attempt on its backend sends. -/
theorem attempt_same_as_first (splice : String → Json) (r : ClientRequest Req)
    (htrace : TraceSent r) (s : Upstream) (hrun : Run (AttemptStep splice r) (initial r) s)
    (b : RuntimeBackend Req) (hsafe : RetrySafe r b s) (ord ord' : RetryOrders) :
    SameRequest (attempt splice ord r b s) (attempt splice ord' r b (initial r)) := by
  have hs := between_of_run hrun
  by_cases hzero : s.attempts = 0
  · -- the first attempt does not look at the orders
    rw [hs.first hzero]
    exact sameRequest_refl (attempt splice ord r b (initial r))
  · exact attempt_retry_same htrace hs (Nat.pos_of_ne_zero hzero) hsafe ord ord'

end

/-- A GCP Anthropic backend that drops one beta flag. -/
def vertexBackend : RuntimeBackend MessagesRequest where
  backend :=
    { name := "default/b/route/r/rule/0/ref/0", modelNameOverride := ""
      aiServiceBackendName := "default/b", schema := ⟨.gcpAnthropic, "", "vertex-2023-10-16"⟩
      auth := none, headerMutation := none, bodyMutation := none
      headerValueFilters := [⟨"anthropic-beta", "Denylist", ["files-api-2025-04-14"]⟩] }
  translator := .ok (anthropicToGCP (fun _ => 0) "vertex-2023-10-16" "")
  handler := some (gcpHandler "token" "us-east5" "project")
  upstreamHost := none
  lower := by simp [LowerNames]

/-- A messages request with the given beta flags. -/
def betaRequest (betas : String) : ClientRequest MessagesRequest where
  headers := setEach ∅ [(":path", "/v1/messages"), ("anthropic-beta", betas)]
  lower := by
    refine LowerKeys.setEach (fun k h => absurd rfl h) fun e he => ?_
    simp only [List.mem_cons, List.not_mem_nil, or_false] at he
    rcases he with rfl | rfl <;> (dsimp only; decide)
  model := "m"
  request := ⟨"m", false⟩
  sentBody := .obj [("model", .str "m")]
  mutatedOriginalBody := none
  traceHeaders := []
  isObject := ⟨_, rfl⟩

def storedOrders : RetryOrders := ⟨storedOrder, storedOrder⟩

/-- The first attempt sends `web-search-2025-03-05` only; the retry reads the filtered
header, sees nothing to drop, and puts the client's two flags back. -/
theorem retry_differs_on_filtered_beta :
    ∃ s, Run (AttemptStep .str (betaRequest "files-api-2025-04-14,web-search-2025-03-05"))
        (initial (betaRequest "files-api-2025-04-14,web-search-2025-03-05")) s ∧
      ¬ SameRequest
        (attempt .str storedOrders (betaRequest "files-api-2025-04-14,web-search-2025-03-05")
          vertexBackend s)
        (attempt .str storedOrders (betaRequest "files-api-2025-04-14,web-search-2025-03-05")
          vertexBackend (initial (betaRequest "files-api-2025-04-14,web-search-2025-03-05"))) := by
  refine ⟨_, .next (storedOrders, vertexBackend) .start rfl, fun h => ?_⟩
  exact absurd (h.1 "anthropic-beta" (by decide)) (by decide)

/-- A retry on the same backend whose filter drops nothing. -/
theorem retry_same_on_permitted_beta :
    ∃ s, Run (AttemptStep .str (betaRequest "web-search-2025-03-05"))
        (initial (betaRequest "web-search-2025-03-05")) s ∧ 0 < s.attempts ∧
      SameRequest
        (attempt .str storedOrders (betaRequest "web-search-2025-03-05") vertexBackend s)
        (attempt .str storedOrders (betaRequest "web-search-2025-03-05") vertexBackend
          (initial (betaRequest "web-search-2025-03-05"))) := by
  refine ⟨_, .next (storedOrders, vertexBackend) .start rfl, by decide, ?_⟩
  refine attempt_same_as_first .str (betaRequest "web-search-2025-03-05")
    (fun e he => by cases he) _ (.next (storedOrders, vertexBackend) .start rfl) vertexBackend ?_
    storedOrders storedOrders
  constructor
  · intro t ht k hk
    cases ht
    rw [mem_singleton.mp hk]
    decide
  · intro t ht k hk
    cases ht
    cases hk
  · intro t ht a ha k hk
    cases ht
    cases ha
    exact ⟨fun _ => .inl hk, fun h => by cases h⟩
  · intro t ht a ha hb
    cases ha
    cases hb

end AgentRouter.ExtProc
