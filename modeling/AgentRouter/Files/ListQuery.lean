import AgentRouter.Files.FollowUp
import AgentRouter.Lib.Query

/-!
# ListQuery: the query of a forwarded list request

A list request names its model in the query, and may have an id of the gateway there as its cursor
`after`.  The model is taken out and the cursor becomes the backend's own id.  Each of the two edits
parses the query and encodes it again:

    queryOf (setQueryParam path name value)  =  queryOf path, edited at name   (queryOf_setQueryParam)
-/

namespace AgentRouter.Files

open IDCodec List Text

/-! ## Queries -/

/-- The values with one parameter set, or deleted if it is set to nothing. -/
def edited (values : GoMap Bytes (List Bytes)) (name value : Bytes) : GoMap Bytes (List Bytes) :=
  if value = [] then values.erase name else values.insert name [value]

theorem lookup_edited (values : GoMap Bytes (List Bytes)) (name value k : Bytes) :
    (edited values name value).lookup k =
      if k = name then if value = [] then none else some [value] else values.lookup k := by
  unfold edited
  by_cases hk : k = name
  · subst hk
    split <;> simp
  · split <;> simp [hk, AList.lookup_erase_ne, AList.lookup_insert_ne]

/-- Parsing inverts encoding, for these values. -/
def QueryLib.Reads (lib : QueryLib) (values : GoMap Bytes (List Bytes)) : Prop :=
  ∃ values', lib.parse (lib.encode values) = some values' ∧ ∀ k, values'.lookup k = values.lookup k

/-- It does so for what a query is parsed to, and after edits. -/
def QueryLib.Inverts (lib : QueryLib) : Prop :=
  ∀ {query values}, lib.parse query = some values →
    ∀ name value, lib.Reads (edited values name value)

/-- The values in the query of a path, `none` for a malformed one. -/
def queryOf (lib : QueryLib) (path : Bytes) : Option (GoMap Bytes (List Bytes)) :=
  lib.parse (trimQuestionMark (splitQuery path).2)

variable {lib : QueryLib}

theorem queryOf_path {path : Bytes} (h : questionMark ∉ path) (query : Bytes) :
    queryOf lib (if query = [] then path else path ++ questionMark :: query) = lib.parse query := by
  unfold queryOf
  split
  next hnil =>
    have hsplit := splitQuery_append h (.inl rfl)
    rw [append_nil] at hsplit
    rw [hsplit, hnil]
    rfl
  next =>
    rw [splitQuery_append h (.inr ⟨_, rfl⟩)]
    rfl

section

variable (hlib : lib.Inverts) {path : Bytes} {values : GoMap Bytes (List Bytes)}
include hlib

theorem queryOf_setQueryParam (h : queryOf lib path = some values) (name value : Bytes) :
    ∃ values', queryOf lib (setQueryParam lib path name value) = some values' ∧
      ∀ k, values'.lookup k = (edited values name value).lookup k := by
  have hread := hlib h name value
  have hmark := questionMark_notMem_splitQuery path
  rw [setQueryParam, ← queryOf, h]
  dsimp only
  by_cases hvalue : value = []
  · rw [edited, if_pos hvalue] at hread ⊢
    rw [if_pos hvalue]
    by_cases hname : name ∈ values
    · rw [if_pos hname, queryOf_path hmark]
      exact hread
    · -- nothing to delete
      rw [if_neg hname]
      refine ⟨values, h, ?_⟩
      intro k
      by_cases hk : k = name
      · subst hk
        rw [AList.lookup_erase, AList.lookup_eq_none.mpr hname]
      · rw [AList.lookup_erase_ne hk]
  · rw [edited, if_neg hvalue] at hread ⊢
    rw [if_neg hvalue, queryOf_path hmark]
    exact hread

/-! ## The forwarded request -/

omit hlib in
theorem nativeID_ne_nil_of_decode {codec : Codec} {id : Bytes} {b : BackendID}
    (h : codec.decode id = some b) : b.nativeID ≠ [] := by
  simp only [Codec.decode, Option.bind_eq_bind, Option.bind_eq_some_iff, Prod.exists] at h
  obtain ⟨kind, body, hbody, raw, -, p, -, hparse⟩ := h
  obtain ⟨hkind, -⟩ := prefixForKind_of_kindAndBody hbody
  exact ((parsePayload_eq_some_iff hkind).mp hparse).2.2.nativeID_ne

theorem listRequest_upstream_query (codec : Codec) {r : FilesProcessor × RequestMutation}
    (h : handleListRequestHeaders codec lib path = .ok r) :
    ∃ upstream values values', r.2.path = some upstream ∧ queryOf lib path = some values ∧
      queryOf lib upstream = some values' ∧ values'.lookup (utf8 "model") = none ∧
      (∀ k, k ≠ utf8 "model" → k ≠ utf8 "after" → values'.lookup k = values.lookup k) ∧
      if queryParam lib path (utf8 "after") = [] then
        values'.lookup (utf8 "after") = values.lookup (utf8 "after")
      else
        ∃ decoded, codec.decode (queryParam lib path (utf8 "after")) = some decoded ∧
          values'.lookup (utf8 "after") = some [decoded.nativeID] := by
  have hafter : utf8 "after" ≠ utf8 "model" := by decide
  unfold handleListRequestHeaders at h
  dsimp only at h
  cases hquery : queryOf lib path with
  | none =>
    -- neither a cursor nor a model is found
    have hnone (name : Bytes) : queryParam lib path name = [] := by
      rw [queryParam, ← queryOf, hquery]
    rw [hnone, if_pos rfl, hnone, if_pos rfl] at h
    cases h
  | some values =>
    obtain ⟨values₁, hquery₁, hsame₁⟩ := queryOf_setQueryParam hlib hquery (utf8 "model") []
    simp only [lookup_edited, if_true] at hsame₁
    split at h
    next hnil =>
      obtain ⟨-, rfl⟩ := routed_eq_ok h
      refine ⟨_, values, values₁, rfl, rfl, hquery₁, by simp [hsame₁], ?_, ?_⟩
      · intro k hk _
        rw [hsame₁, if_neg hk]
      · rw [if_pos hnil, hsame₁, if_neg hafter]
    next hcursor =>
      split at h
      · cases h
      next decoded hdecode =>
      split at h
      · cases h
      obtain ⟨-, rfl⟩ := routed_eq_ok h
      obtain ⟨values₂, hquery₂, hsame₂⟩ :=
        queryOf_setQueryParam hlib hquery₁ (utf8 "after") decoded.nativeID
      simp only [lookup_edited, hsame₁, if_neg (nativeID_ne_nil_of_decode hdecode)] at hsame₂
      refine ⟨_, values, values₂, rfl, rfl, hquery₂, by simp [hsame₂, Ne.symm hafter], ?_, ?_⟩
      · intro k hk hk'
        rw [hsame₂, if_neg hk', if_neg hk]
      · rw [if_neg hcursor]
        exact ⟨decoded, hdecode, by rw [hsame₂, if_pos rfl]⟩

end

/-! ## A list request -/

/-- The query functions of Go's `net/url`. -/
def urlQuery : QueryLib := ⟨Query.parse, Query.encode⟩

theorem inverts_urlQuery : urlQuery.Inverts := by
  intro query values h name value
  refine Query.parse_encode ?_
  intro k
  rw [lookup_edited]
  split
  · split <;> simp
  · exact Query.filled_of_parse h k

/-- A model, an id of the gateway as the cursor, and a parameter with two values. -/
def listPath : Bytes :=
  utf8 "/v1/files?model=m&after=" ++ farFileID ++ utf8 "&limit=2&limit=3"

/-- The request goes upstream without the model and with the native id; the rest is kept. -/
theorem model_not_forwarded :
    let upstream := utf8 "/v1/files?after=f&limit=2&limit=3"
    urlQuery.Inverts ∧
      handleListRequestHeaders markCodec urlQuery listPath =
        .ok (⟨listPath, .list, none, some ⟨utf8 "ns0", utf8 "x"⟩, utf8 "m"⟩,
          ⟨listPath, some upstream, some (utf8 "m")⟩) ∧
      ∃ values values', queryOf urlQuery listPath = some values ∧
        queryOf urlQuery upstream = some values' ∧ values'.lookup (utf8 "model") = none ∧
        values'.lookup (utf8 "after") = some [utf8 "f"] ∧
        values'.lookup (utf8 "limit") = values.lookup (utf8 "limit") ∧
        values.lookup (utf8 "limit") = some [utf8 "2", utf8 "3"] := by
  intro upstream
  have hrouted : handleListRequestHeaders markCodec urlQuery listPath =
      .ok (⟨listPath, .list, none, some ⟨utf8 "ns0", utf8 "x"⟩, utf8 "m"⟩,
        ⟨listPath, some upstream, some (utf8 "m")⟩) := by
    decide +kernel
  obtain ⟨_, values, values', hto, hquery, hquery', hmodel, hsame, hafter⟩ :=
    listRequest_upstream_query inverts_urlQuery markCodec hrouted
  cases hto
  have hcursor : queryParam urlQuery listPath (utf8 "after") = farFileID := by decide +kernel
  have hdecode : (markCodec.decode farFileID).map (·.nativeID) = some (utf8 "f") := by decide +kernel
  have hlimit : (queryOf urlQuery listPath).bind (·.lookup (utf8 "limit")) =
      some [utf8 "2", utf8 "3"] := by
    decide +kernel
  rw [hcursor, if_neg (by decide)] at hafter
  obtain ⟨decoded, hdecoded, hvalue⟩ := hafter
  rw [hdecoded, Option.map_some, Option.some.injEq] at hdecode
  rw [hquery] at hlimit
  refine ⟨inverts_urlQuery, hrouted, values, values', hquery, hquery', hmodel, ?_, ?_, hlimit⟩
  · rw [hvalue, hdecode]
  · exact hsame (utf8 "limit") (by decide) (by decide)

end AgentRouter.Files
