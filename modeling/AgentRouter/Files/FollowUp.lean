import AgentRouter.Files.Processor

/-!
# FollowUp: requests for the ids that the gateway has given out

An id in a response is used in a later request for that file.  Whatever happens in between, the
later request names the same model and the same file to the backend:

    the id of a response, used in a later request, is routed by the same model and sent to the
    backend as the backend's own id with the rest of the path unchanged, and the other backends
    refuse it ↔ no other configured backend goes by the recorded name   (followUp_iff)

What an id records is the namespace of the route and the name of the backendRef.  A reference into
another namespace and a reference to an InferencePool record the same as a reference to the
AIServiceBackend of that name next to the route, so each of them accepts the others' ids.
-/

namespace AgentRouter.Files

open Kube Controller Text Cut ExtProc List IDCodec Results

/-! ## Paths of the API -/

/-- A question mark and what follows it, or nothing. -/
def IsQuery (query : Bytes) : Prop := query = [] ∨ ∃ q, query = questionMark :: q

/-- `processorForPath`: the path without its query is the registered prefix or below it. -/
def Reaches (filesPrefix path : Bytes) : Prop :=
  (splitQuery path).1 = filesPrefix ∨ filesPrefix ++ [slash] <+: (splitQuery path).1

/-- `{prefix}/{id}` or `{prefix}/{id}/content`, and the query. -/
def idPath (filesPrefix : Bytes) (op : FilesOperation) (id query : Bytes) : Bytes :=
  filesPrefix ++ slash :: id ++ (if op = .content then utf8 "/content" else []) ++ query

/-- The operations on one file, with their methods. -/
def idMethod : FilesOperation → Option Bytes
  | .retrieve | .content => some methodGet
  | .delete => some methodDelete
  | .upload | .list => none

theorem filesPathMarker_eq : filesPathMarker = slash :: (utf8 "v1" ++ slash :: utf8 "files") := by
  decide

theorem splitQuery_append {path query : Bytes} (hpath : questionMark ∉ path)
    (hquery : IsQuery query) : splitQuery (path ++ query) = (path, query) := by
  unfold splitQuery
  rcases hquery with rfl | ⟨q, rfl⟩
  · rw [append_nil, (cut_eq_none_iff (by simp)).mpr (by simpa [singleton_infix_iff])]
  · rw [cut_singleton q hpath]

theorem questionMark_notMem_splitQuery (path : Bytes) : questionMark ∉ (splitQuery path).1 := by
  unfold splitQuery
  split
  next a b hcut => exact (cut_singleton_iff.mp hcut).2
  next hcut =>
    have hno := (cut_eq_none_iff (by simp)).mp hcut
    rwa [singleton_infix_iff] at hno

theorem questionMark_notMem_of_reaches {filesPrefix path : Bytes} (h : Reaches filesPrefix path) :
    questionMark ∉ filesPrefix := by
  intro hmem
  rcases h with heq | hbelow
  · exact questionMark_notMem_splitQuery path (heq ▸ hmem)
  · exact questionMark_notMem_splitQuery path (hbelow.subset (mem_append_left _ hmem))

theorem classifySuffix_of_slashes {method suffix x y z : Bytes}
    (h : trimSlash suffix = x ++ slash :: (y ++ slash :: z)) : classifySuffix method suffix = none := by
  have hsuffix : ¬ (suffix = [] ∨ suffix = [slash]) := by
    rintro (rfl | rfl)
    · cases x <;> cases h
    · cases x <;> cases h
  obtain ⟨a, as, ha⟩ := exists_cons_of_ne_nil (splitOn_ne_nil slash x)
  obtain ⟨b, bs, hb⟩ := exists_cons_of_ne_nil (splitOn_ne_nil slash y)
  obtain ⟨c, cs, hc⟩ := exists_cons_of_ne_nil (splitOn_ne_nil slash z)
  rw [classifySuffix, if_neg hsuffix, h, splitOn_append_cons_self, splitOn_append_cons_self, ha, hb, hc]
  cases as with
  | nil =>
    cases bs with
    | nil => rfl
    | cons _ _ => rfl
  | cons _ as =>
    cases as with
    | nil => rfl
    | cons _ _ => rfl

theorem classifySuffix_of_marker {method front rest : Bytes} (hrest : rest = [] ∨ ∃ r, rest = slash :: r) :
    classifySuffix method (front ++ filesPathMarker ++ rest) = none := by
  cases front with
  | cons c front =>
    obtain ⟨front', hfront⟩ : ∃ front', trimSlash (c :: front ++ filesPathMarker ++ rest) =
        front' ++ filesPathMarker ++ rest := by
      by_cases hc : c = slash
      · exact ⟨front, by simp [trimSlash, hc]⟩
      · exact ⟨c :: front, by simp [trimSlash, hc]⟩
    apply classifySuffix_of_slashes (x := front') (y := utf8 "v1") (z := utf8 "files" ++ rest)
    rw [hfront, filesPathMarker_eq]
    simp
  | nil =>
    rcases hrest with rfl | ⟨r, rfl⟩
    · rw [classifySuffix, if_neg (by decide)]
      exact if_neg fun h => absurd h.2.1 (by decide)
    · apply classifySuffix_of_slashes (x := utf8 "v1") (y := utf8 "files") (z := r)
      rw [filesPathMarker_eq]
      simp [trimSlash]

theorem marker_of_append_eq {m suffix rest : Bytes} (hm : m ≠ [])
    (h : filesPathMarker ++ suffix = m ++ (filesPathMarker ++ rest)) :
    ∃ front, suffix = front ++ filesPathMarker ++ rest := by
  have hoverlap : ∀ n < 8, (filesPathMarker.drop (n + 1)).isPrefixOf filesPathMarker = false := by
    decide
  rcases append_eq_append_iff.mp h with ⟨t, ht, hsuffix⟩ | ⟨t, ht, hsuffix⟩
  · exact ⟨t, by rw [hsuffix, append_assoc]⟩
  · by_cases ht0 : t = []
    · refine ⟨[], ?_⟩
      rw [ht0, nil_append] at hsuffix
      rw [nil_append, hsuffix]
    · -- `m` is the front of the marker, and the marker starts again behind it
      obtain ⟨n, hn⟩ : ∃ n, m.length = n + 1 := Nat.exists_eq_succ_of_ne_zero (by simpa using hm)
      have hlen9 : filesPathMarker.length = 9 := by decide
      have hlen := congrArg List.length ht
      rw [length_append] at hlen
      have htpos := length_pos_iff.mpr ht0
      have htail : filesPathMarker.drop (n + 1) = t := by
        rw [ht, ← hn, drop_left]
      have hstart : t <+: filesPathMarker :=
        prefix_of_prefix_length_le ⟨suffix, hsuffix.symm⟩ (prefix_append _ _) (by omega)
      have hno := hoverlap n (by omega)
      rw [htail, List.isPrefixOf_iff_prefix.mpr hstart] at hno
      cases hno

theorem cut_marker_of_classify {root method path : Bytes} {r : FilesOperation × Bytes}
    (hreach : Reaches (root ++ filesPathMarker) path)
    (h : classifyFilesRequest method path = some r) :
    ∃ rest, cut filesPathMarker (splitQuery path).1 = some (root, rest) := by
  obtain ⟨rest, hrest, hpath⟩ : ∃ rest, (rest = [] ∨ ∃ r, rest = slash :: r) ∧
      (splitQuery path).1 = root ++ (filesPathMarker ++ rest) := by
    rcases hreach with heq | ⟨r, hr⟩
    · exact ⟨[], .inl rfl, by rw [heq, append_nil]⟩
    · exact ⟨slash :: r, .inr ⟨r, rfl⟩, by rw [← hr]; simp⟩
  rw [classifyFilesRequest] at h
  cases hcut : cut filesPathMarker (splitQuery path).1 with
  | none =>
    rw [hcut] at h
    cases h
  | some c =>
    obtain ⟨a, suffix⟩ := c
    rw [hcut] at h
    have hsplit := cut_eq_some hcut
    rw [hpath, append_assoc] at hsplit
    rcases append_eq_append_iff.mp hsplit with ⟨m, ha, hmarker⟩ | ⟨m, hroot, hmarker⟩
    · -- the cut is at the first occurrence, so it is not behind the prefix
      cases m with
      | nil => exact ⟨suffix, by rw [ha, append_nil]⟩
      | cons c m =>
        exfalso
        apply not_infix_of_cut (by decide) hcut
        have hfirst : root ++ filesPathMarker <+: (splitQuery path).1 :=
          ⟨rest, by rw [hpath, append_assoc]⟩
        have hsecond : a ++ filesPathMarker.dropLast <+: (splitQuery path).1 := by
          rw [hpath, hsplit, prefix_append_right_inj]
          exact (List.dropLast_prefix _).trans (prefix_append _ _)
        have hlong : root ++ filesPathMarker <+: a ++ filesPathMarker.dropLast := by
          apply prefix_of_prefix_length_le hfirst hsecond
          rw [ha]
          simp only [length_append, length_cons, length_dropLast]
          omega
        exact (suffix_append root _).isInfix.trans hlong.isInfix
    · -- and a marker in front of it leaves too much behind it
      cases m with
      | nil => exact ⟨suffix, by rw [hroot, append_nil]⟩
      | cons c m =>
        obtain ⟨front, rfl⟩ := marker_of_append_eq (cons_ne_nil c m) hmarker
        simp only [classifySuffix_of_marker hrest] at h
        cases h

theorem slash_content : utf8 "/content" = slash :: utf8 "content" := by decide

/-- What follows the prefix in the path of a request for an id. -/
def idSuffix (op : FilesOperation) (id : Bytes) : Bytes :=
  slash :: id ++ if op = .content then utf8 "/content" else []

section

variable {root id query : Bytes} {op : FilesOperation}
  (hquestion : questionMark ∉ root ++ filesPathMarker) (hmark : questionMark ∉ id)
  (hquery : IsQuery query)

include hquestion hmark hquery

theorem splitQuery_idPath : splitQuery (idPath (root ++ filesPathMarker) op id query) =
    (root ++ filesPathMarker ++ idSuffix op id, query) := by
  have hne : questionMark ≠ slash := by decide
  have htail : questionMark ∉ if op = .content then utf8 "/content" else [] := by
    split <;> decide
  rw [idPath, append_assoc _ (slash :: id)]
  apply splitQuery_append _ hquery
  rw [mem_append, not_or] at hquestion
  simp only [mem_append, mem_cons, not_or]
  exact ⟨hquestion, ⟨hne, hmark⟩, htail⟩

variable (hroot : ¬ filesPathMarker <:+: root ++ filesPathMarker.dropLast)

include hroot

theorem cut_idPath :
    cut filesPathMarker (splitQuery (idPath (root ++ filesPathMarker) op id query)).1 =
      some (root, idSuffix op id) := by
  rw [splitQuery_idPath hquestion hmark hquery]
  exact cut_append _ (by decide) hroot

theorem classify_idPath {method : Bytes} (hid : id ≠ []) (hslash : slash ∉ id)
    (hop : idMethod op = some method) :
    classifyFilesRequest method (idPath (root ++ filesPathMarker) op id query) = some (op, id) := by
  rw [classifyFilesRequest, cut_idPath hquestion hmark hquery hroot]
  have hsuffix (tail : Bytes) : ¬ (slash :: id ++ tail = [] ∨ slash :: id ++ tail = [slash]) := by
    simp [hid]
  have htrim (tail : Bytes) : trimSlash (slash :: id ++ tail) = id ++ tail := by
    simp [trimSlash]
  have hdelete : methodDelete ≠ methodGet := by decide
  simp only [idSuffix, classifySuffix, if_neg (hsuffix _), htrim]
  cases op with
  | upload | list => cases hop
  | content =>
    cases hop
    rw [if_pos rfl, slash_content, splitOn_append_cons_self, splitOn_eq_singleton hslash]
    exact if_pos ⟨hid, rfl, rfl⟩
  | retrieve =>
    cases hop
    rw [if_neg (by decide), append_nil, splitOn_eq_singleton hslash]
    simp [hid]
  | delete =>
    cases hop
    rw [if_neg (by decide), append_nil, splitOn_eq_singleton hslash]
    simp [hid, hdelete]

theorem rewrittenPath_idPath (nativeID : Bytes) :
    rewrittenPath (idPath (root ++ filesPathMarker) op id query) op nativeID =
      idPath (root ++ filesPathMarker) op nativeID query := by
  rw [rewrittenPath, cut_idPath hquestion hmark hquery hroot, splitQuery_idPath hquestion hmark hquery]
  rfl

end

/-! ## The backend of a request -/

/-- What the API server's name rules grant: a name is not empty and has neither separator. -/
structure KubeName (s : String) : Prop where
  ne : s ≠ ""
  slash : Free '/' s
  bar : Free '|' s

instance (s : String) : Decidable (KubeName s) :=
  decidable_of_iff (s ≠ "" ∧ Free '/' s ∧ Free '|' s)
    ⟨fun h => ⟨h.1, h.2.1, h.2.2⟩, fun h => ⟨h.ne, h.slash, h.bar⟩⟩

/-- The names in a route. -/
def KubeNames (route : AIGatewayRoute) : Prop :=
  KubeName route.key.ns ∧ ∀ rule ∈ route.rules, ∀ ref ∈ rule.backendRefs, KubeName ref.name

instance (route : AIGatewayRoute) : Decidable (KubeNames route) :=
  inferInstanceAs (Decidable (_ ∧ _))

/-- Where a request goes that is sent to a backendRef. -/
inductive BackendIdentity where
  | aiServiceBackend (key : ObjectKey)
  | inferencePool (key : ObjectKey)
  deriving DecidableEq

def RefPosition.identity (p : RefPosition) : BackendIdentity :=
  if p.ref.isInferencePool then .inferencePool ⟨p.ref.getNamespace p.route.key.ns, p.ref.name⟩
  else .aiServiceBackend ⟨p.ref.getNamespace p.route.key.ns, p.ref.name⟩

/-- The key that the ids of a backend record. -/
def RefPosition.recordedKey (p : RefPosition) : BackendKey :=
  ⟨utf8 p.route.key.ns, utf8 p.ref.name⟩

theorem namespaceAndName_name {ns name routeName : String} (hns : KubeName ns)
    (hname : KubeName name) (i j : Nat) :
    namespaceAndNameFromBackendName (perRouteRuleRefBackendName ns name routeName i j) = some (ns, name) := by
  have hne (s : String) (hs : s ≠ "") : s.toList ≠ [] := fun h => hs (String.toList_eq_nil_iff.mp h)
  rw [namespaceAndNameFromBackendName, toList_perRouteRuleRefBackendName,
    splitN_three _ hns.slash hname.slash]
  simp [hne ns hns.ne, hne name hname.ne]

variable {config : Option (GoMap String Backend)} {rp st : FilesProcessor} {b : Backend}

theorem setBackend_eq_ok_iff {ns name : String}
    (hname : namespaceAndNameFromBackendName b.name = some (ns, name)) :
    setBackend config rp b = .ok st ↔ routeRuleBackendCount config b.name ≤ 1 ∧
        (∀ d, rp.decodedBackend = some d → d = ⟨utf8 ns, utf8 name⟩) ∧ b.schema.name = .openAI ∧
        st = { rp with backend := some ⟨utf8 ns, utf8 name⟩ } := by
  unfold setBackend
  rw [hname]
  by_cases hcount : routeRuleBackendCount config b.name > 1
  · simp [hcount, Nat.not_le.mpr hcount]
  · have hle : routeRuleBackendCount config b.name ≤ 1 := Nat.not_lt.mp hcount
    simp only [if_neg hcount, hle, true_and]
    cases hdecoded : rp.decodedBackend with
    | none =>
      by_cases hschema : b.schema.name = .openAI
      · simp [hschema, eq_comm]
      · simp [hschema]
    | some d =>
      by_cases hd : d = ⟨utf8 ns, utf8 name⟩
      · by_cases hschema : b.schema.name = .openAI
        · simp [Option.filter, hd, hschema, eq_comm]
        · simp [Option.filter, hd, hschema]
      · simp [Option.filter, hd]

/-- The attempts of a request, in order; the last one is served. -/
def serve (config : Option (GoMap String Backend)) (rp : FilesProcessor) (attempts : List Backend) :
    Except SetBackendError FilesProcessor :=
  attempts.foldlM (setBackend config) rp

theorem setBackend_frame (h : setBackend config rp b = .ok st) : st = { rp with backend := st.backend } := by
  unfold setBackend at h
  split at h
  · cases h
  split at h
  · cases h
  · dsimp only at h
    split at h
    · cases h
    split at h
    · cases h
    · cases h
      rfl

theorem serve_frame {attempts : List Backend} (h : serve config rp attempts = .ok st) :
    st = { rp with backend := st.backend } := by
  induction attempts generalizing rp with
  | nil =>
    cases h
    rfl
  | cons b attempts ih =>
    obtain ⟨mid, hmid, hrest⟩ := bind_eq_ok h
    rw [ih hrest, setBackend_frame hmid]

theorem serve_concat {earlier : List Backend} (h : serve config rp (earlier ++ [b]) = .ok st) :
    ∃ mid, mid = { rp with backend := mid.backend } ∧ setBackend config mid b = .ok st := by
  unfold serve at h
  rw [foldlM_append] at h
  obtain ⟨mid, hmid, hlast⟩ := bind_eq_ok h
  obtain ⟨st', hst', hnil⟩ := bind_eq_ok hlast
  cases hnil
  exact ⟨mid, serve_frame hmid, hst'⟩

/-! ## The ids of a response -/

def fileIDs (members : List (String × FieldValue)) : List Bytes :=
  (members.filter fun m => m.1 = "id").map fun m => m.2.text

/-- The ids of a page; an empty cursor is left out of the text. -/
def FileListResponse.ids (page : FileListResponse) : List Bytes :=
  page.data.getD [] ++ [page.firstID, page.lastID].filter (· ≠ [])

/-- The ids of an upstream response to an operation. -/
def UpstreamBody.nativeIDs (body : UpstreamBody) : FilesOperation → List Bytes
  | .list => (body.page.map FileListResponse.ids).getD []
  | .content => []
  | .upload | .retrieve | .delete => fileIDs body.members

/-- The ids that the client gets. -/
def FilesReply.ids : FilesReply → List Bytes
  | .file members => fileIDs members
  | .page list => list.ids
  | .unchanged => []

theorem getID_eq_head (members : List (String × FieldValue)) :
    getID members = (fileIDs members).headD [] := by
  unfold getID fileIDs
  rw [← head?_filter, headD_eq_head?_getD, head?_map]

theorem fileIDs_setID (gw : Bytes) (members : List (String × FieldValue)) :
    fileIDs (setID gw members) = gw :: (fileIDs members).tail := by
  unfold fileIDs
  induction members with
  | nil => rfl
  | cons m members ih =>
    rw [setID]
    by_cases h : m.1 = "id"
    · rw [if_pos h, filter_cons_of_pos (by simp), filter_cons_of_pos (by simp [h])]
      rfl
    · rw [if_neg h, filter_cons_of_neg (by simp [h]), filter_cons_of_neg (by simp [h]), ih]

section

variable {codec : Codec} {p : FilesProcessor} {body : UpstreamBody} {reply : FilesReply} {key : BackendKey}

theorem servingBackend_eq_ok {kind : FilesKind} (h : servingBackend p body kind = .ok key) :
    p.backend = some key := by
  unfold servingBackend at h
  split at h
  · split at h <;> cases h
  next hb =>
    split at h
    · cases h
    · cases h
      exact hb

/-- What the id of a file is made of. -/
abbrev Encoded (codec : Codec) (p : FilesProcessor) (native id : Bytes) : Prop :=
  ∃ key, p.backend = some key ∧ encodeFileID codec p key native = .ok id

theorem encoded_of_reEncodeResponse (hone : (fileIDs body.members).length ≤ 1)
    (h : reEncodeResponse codec p body = .ok reply) :
    List.Forall₂ (Encoded codec p) (fileIDs body.members) reply.ids := by
  unfold reEncodeResponse at h
  split at h
  · cases h
  next key hkey =>
    split at h
    · cases h
    next hget =>
      split at h
      · cases h
      next gw hgw =>
        cases h
        obtain ⟨native, hnative⟩ : ∃ native, fileIDs body.members = [native] := by
          rw [getID_eq_head] at hget
          match hids : fileIDs body.members with
          | [] => exact absurd (by rw [hids]; rfl) hget
          | [native] => exact ⟨native, rfl⟩
          | _ :: _ :: _ =>
            rw [hids, length_cons, length_cons] at hone
            omega
        rw [getID_eq_head, hnative] at hgw
        rw [FilesReply.ids, fileIDs_setID, hnative]
        exact .cons ⟨key, servingBackend_eq_ok hkey, hgw⟩ .nil

theorem forall₂_reEncodeID (hkey : p.backend = some key) {natives ids : List Bytes}
    (hne : ∀ native ∈ natives, native ≠ [])
    (h : List.Forall₂ (fun native id => reEncodeID codec p key native = .ok id) natives ids) :
    List.Forall₂ (Encoded codec p) natives ids := by
  induction h with
  | nil => exact .nil
  | cons hhead _ ih =>
    rw [reEncodeID, if_neg (hne _ mem_cons_self)] at hhead
    exact .cons ⟨key, hkey, hhead⟩ (ih fun native hn => hne native (mem_cons_of_mem _ hn))

theorem ne_nil_of_reEncodeID {native id : Bytes} (h : reEncodeID codec p key native = .ok id) :
    id = [] ↔ native = [] := by
  unfold reEncodeID encodeFileID at h
  split at h
  next hn =>
    cases h
    simp [hn]
  next hn =>
    simp only [hn, iff_false]
    exact Codec.ne_nil_of_encode h

theorem forall₂_filter_reEncodeID {natives ids : List Bytes}
    (h : List.Forall₂ (fun native id => reEncodeID codec p key native = .ok id) natives ids) :
    List.Forall₂ (fun native id => reEncodeID codec p key native = .ok id)
      (natives.filter (· ≠ [])) (ids.filter (· ≠ [])) := by
  refine rel_filter (fun native id hid => ?_) h
  simp [ne_nil_of_reEncodeID hid]

theorem encoded_of_reEncodeListResponse (hne : ∀ native ∈ body.nativeIDs .list, native ≠ [])
    (h : reEncodeListResponse codec p body = .ok reply) :
    List.Forall₂ (Encoded codec p) (body.nativeIDs .list) reply.ids := by
  unfold reEncodeListResponse at h
  split at h
  · cases h
  next key hkey =>
    split at h
    · cases h
    next page data hpage =>
      split at h
      · cases h
      next out hout =>
        cases h
        obtain ⟨ids, hids, hout⟩ := bind_eq_ok hout
        obtain ⟨firstID, hfirst, hout⟩ := bind_eq_ok hout
        obtain ⟨lastID, hlast, hout⟩ := bind_eq_ok hout
        cases hout
        obtain ⟨page', hpage', hdata⟩ := Option.bind_eq_some_iff.mp hpage
        obtain ⟨data', hdata', heq⟩ := Option.map_eq_some_iff.mp hdata
        cases heq
        have hnatives : body.nativeIDs .list = data ++ [page.firstID, page.lastID].filter (· ≠ []) := by
          rw [UpstreamBody.nativeIDs, hpage']
          simp only [Option.map_some, Option.getD_some, FileListResponse.ids, hdata']
        rw [hnatives] at hne ⊢
        refine forall₂_reEncodeID (servingBackend_eq_ok hkey) hne ?_
        refine rel_append (forall₂_of_mapM_eq_ok data hids) ?_
        exact forall₂_filter_reEncodeID (.cons hfirst (.cons hlast .nil))

theorem encoded_of_processResponseBody {status : Option String}
    (hone : p.op ≠ .list → (fileIDs body.members).length ≤ 1)
    (hne : ∀ native ∈ body.nativeIDs p.op, native ≠ [])
    (h : processResponseBody codec p status body = .ok reply) {i : Nat} {native id : Bytes}
    (hnative : (body.nativeIDs p.op)[i]? = some native) (hid : reply.ids[i]? = some id) :
    Encoded codec p native id := by
  have hall : reply.ids = [] ∨ List.Forall₂ (Encoded codec p) (body.nativeIDs p.op) reply.ids := by
    unfold processResponseBody at h
    split at h
    · cases h
      exact .inl rfl
    cases hop : p.op with
    | content =>
      rw [hop] at h
      cases h
      exact .inl rfl
    | list =>
      rw [hop] at h hne
      exact .inr (encoded_of_reEncodeListResponse hne h)
    | upload | retrieve | delete =>
      rw [hop] at h hone
      exact .inr (encoded_of_reEncodeResponse (hone (by decide)) h)
  rcases hall with hnil | hall
  · rw [hnil] at hid
    cases hid
  · obtain ⟨-, hzip⟩ := forall₂_iff_zip.mp hall
    apply hzip
    rw [mem_iff_getElem?]
    exact ⟨i, by rw [getElem?_zip_eq_some]; exact ⟨hnative, hid⟩⟩

end

/-! ## Requests -/

variable {lib : QueryLib} {path : Bytes} {r : FilesProcessor × RequestMutation}

theorem routed_eq_ok {model upstreamPath : Bytes} {decoded : Option BackendKey}
    (h : (if model = [] then .error .missingModelQuery else
      .ok (⟨path, .list, none, decoded, model⟩, ⟨path, some upstreamPath, some model⟩) :
        Except LocalError (FilesProcessor × RequestMutation)) = .ok r) :
    model ≠ [] ∧ r = (⟨path, .list, none, decoded, model⟩, ⟨path, some upstreamPath, some model⟩) := by
  split at h
  · cases h
  next hmodel => exact ⟨hmodel, (Except.ok.inj h).symm⟩

variable {codec : Codec}

theorem handleList_eq_ok (h : handleListRequestHeaders codec lib path = .ok r) :
    r.1.op = .list ∧ r.1.routingModel ≠ [] ∧ r.2.model = some r.1.routingModel := by
  unfold handleListRequestHeaders at h
  dsimp only at h
  split at h
  · obtain ⟨hmodel, rfl⟩ := routed_eq_ok h
    exact ⟨rfl, hmodel, rfl⟩
  split at h
  · cases h
  split at h
  · cases h
  · obtain ⟨hmodel, rfl⟩ := routed_eq_ok h
    exact ⟨rfl, hmodel, rfl⟩

variable {req : FilesRequest}

theorem model_of_routeRequest {r : Routed} (h : routeRequest codec lib req = .ok r) :
    r.model = if r.processor.routingModel = [] then none else some r.processor.routingModel := by
  -- what both phases leave when the second one has nothing to do
  have hsecond {p : FilesProcessor} {m : RequestMutation}
      (hheaders : processRequestHeaders codec lib req = .ok (p, m)) (hop : p.op ≠ .upload)
      (hmodel : m.model = if p.routingModel = [] then none else some p.routingModel) :
      r.model = if r.processor.routingModel = [] then none else some r.processor.routingModel := by
    rw [routeRequest, hheaders] at h
    simp only [processRequestBody, if_pos hop] at h
    cases h
    exact hmodel
  cases hheaders : processRequestHeaders codec lib req with
  | error e =>
    rw [routeRequest, hheaders] at h
    cases h
  | ok pm =>
    have hcopy := hheaders
    unfold processRequestHeaders at hcopy
    split at hcopy
    · cases hcopy
    · cases hcopy
      rw [routeRequest, hheaders] at h
      simp only [processRequestBody, ne_eq, not_true_eq_false, if_false] at h
      by_cases hform : req.formModel = []
      · rw [if_pos hform] at h
        cases h
      · rw [if_neg hform] at h
        cases h
        simp [hform]
    · obtain ⟨hop, hne, hmodel⟩ := handleList_eq_ok hcopy
      refine hsecond hheaders (by rw [hop]; decide) ?_
      rw [hmodel, if_neg hne]
    next op id hupload hlist hclass =>
      unfold handleIDBearingRequestHeaders at hcopy
      split at hcopy
      · cases hcopy
      split at hcopy
      · cases hcopy
      cases hcopy
      refine hsecond hheaders ?_ rfl
      rintro rfl
      exact hupload rfl

theorem classify_of_routeRequest {r : Routed} (h : routeRequest codec lib req = .ok r) :
    ∃ c, classifyFilesRequest req.method req.path = some c := by
  cases hc : classifyFilesRequest req.method req.path with
  | none => simp [routeRequest, processRequestHeaders, hc] at h
  | some c => exact ⟨c, rfl⟩

theorem routeRequest_id {op : FilesOperation} {id method : Bytes} {d : BackendID}
    (lib : QueryLib) (hclass : classifyFilesRequest req.method req.path = some (op, id))
    (hop : idMethod op = some method) (hdecode : codec.decode id = some d)
    (hkind : d.kind = kindFile) :
    routeRequest codec lib req =
      .ok ⟨⟨req.path, op, none, some ⟨d.ns, d.name⟩, d.model⟩,
        if d.model = [] then none else some d.model, rewrittenPath req.path op d.nativeID⟩ := by
  have hheaders : processRequestHeaders codec lib req =
      handleIDBearingRequestHeaders codec req.path op id := by
    rw [processRequestHeaders, hclass]
    cases op with
    | upload | list => cases hop
    | retrieve | content | delete => rfl
  have hne : op ≠ .upload := by
    rintro rfl
    cases hop
  rw [routeRequest, hheaders, handleIDBearingRequestHeaders, hdecode]
  simp only [hkind, ne_eq, not_true_eq_false, if_false, processRequestBody, hne, not_false_eq_true, if_true]
  rfl

/-! ## A response and a later request -/

/-- The ids of one codec are read back by another, as they are by one with the same keys or with the
old key as its fallback. -/
def RoundTrips (codec codec' : Codec) : Prop :=
  ∀ b : BackendID, b.Valid → ∀ id, codec.encode b = .ok id → codec'.decode id = some b

theorem roundTrips_of_inverts {k : Key} (h : k.aead.Inverts) (fallback fallback' : Option Key) :
    RoundTrips ⟨k, fallback⟩ ⟨k, fallback'⟩ := by
  intro b hb id hencode
  obtain ⟨-, idPrefix, hpre, rfl⟩ := Codec.encode_eq_ok hencode
  refine Codec.decode_of_openRaw hb hpre ?_
  rw [Codec.openRaw, Key.openRaw_seal h]

/-- A request, the backend that has served it and the response, from the client's side and from the
backend's. -/
structure Exchange (codec : Codec) (root : Bytes) where
  lib : QueryLib
  request : FilesRequest
  reaches : Reaches (root ++ filesPathMarker) request.path
  routed : Routed
  routed_eq : routeRequest codec lib request = .ok routed
  ord : MergeOrders
  store : Store
  routes : List AIGatewayRoute
  names : ∀ r ∈ routes, KubeNames r
  position : RefPosition
  configured : position ∈ configuredRefs ord store routes
  backend : Backend
  backend_eq : position.backend ord store = some backend
  earlier : List Backend
  processor : FilesProcessor
  serve_eq : serve (some (runtimeBackends (configBackends ord store routes))) routed.processor
    (earlier ++ [backend]) = .ok processor
  status : Option String
  body : UpstreamBody
  /-- a file has one id. -/
  oneID : processor.op ≠ .list → (fileIDs body.members).length ≤ 1
  natives : ∀ native ∈ body.nativeIDs processor.op,
    native ≠ [] ∧ slash ∉ native ∧ questionMark ∉ native
  reply : FilesReply
  reply_eq : processResponseBody codec processor status body = .ok reply

/-- The reply has this id in the place of the backend's own. -/
def Exchange.GivesOut {codec : Codec} {root : Bytes} (x : Exchange codec root)
    (native id : Bytes) : Prop :=
  ∃ i : Nat, (x.body.nativeIDs x.processor.op)[i]? = some native ∧ x.reply.ids[i]? = some id

section

variable {ord : MergeOrders} {s : Store} {routes : List AIGatewayRoute} {q : RefPosition}

theorem kubeNames_of_configured (hnames : ∀ r ∈ routes, KubeNames r)
    (hq : q ∈ configuredRefs ord s routes) : KubeName q.route.key.ns ∧ KubeName q.ref.name := by
  obtain ⟨hroute, rule, hrule, href⟩ := mem_refPositions.mp (mem_refPositions_of_configured hq)
  obtain ⟨hns, hrefs⟩ := hnames _ hroute
  exact ⟨hns, hrefs rule (mem_of_getElem? hrule) _ (mem_of_getElem? href)⟩

theorem namespaceAndName_backend (hnames : ∀ r ∈ routes, KubeNames r)
    (hq : q ∈ configuredRefs ord s routes) (hb : q.backend ord s = some b) :
    namespaceAndNameFromBackendName b.name = some (q.route.key.ns, q.ref.name) := by
  obtain ⟨hns, hname⟩ := kubeNames_of_configured hnames hq
  rw [filterBackend_name hb]
  exact namespaceAndName_name hns hname _ _

variable {codec : Codec} {root : Bytes} (x : Exchange codec root)

theorem Exchange.processor_eq : x.processor =
    { x.routed.processor with backend := some x.position.recordedKey } := by
  obtain ⟨mid, hmid, hset⟩ := serve_concat x.serve_eq
  have hparse := namespaceAndName_backend x.names x.configured x.backend_eq
  obtain ⟨-, -, -, hst⟩ := (setBackend_eq_ok_iff hparse).mp hset
  rw [hst, hmid]
  rfl

/-- What the id of a file is made of. -/
def Exchange.recorded (native : Bytes) : BackendID :=
  ⟨x.position.recordedKey.ns, x.position.recordedKey.name, kindFile, x.routed.processor.routingModel,
    native⟩

theorem Exchange.encode_recorded {native id : Bytes} (h : x.GivesOut native id) :
    codec.encode (x.recorded native) = .ok id := by
  obtain ⟨i, hnative, hid⟩ := h
  obtain ⟨key, hkey, hencode⟩ := encoded_of_processResponseBody x.oneID
    (fun n hn => (x.natives n hn).1) x.reply_eq hnative hid
  rw [x.processor_eq] at hkey hencode
  cases hkey
  exact hencode

theorem Exchange.recorded_valid {native id : Bytes} (h : x.GivesOut native id) :
    (x.recorded native).Valid := by
  obtain ⟨hns, hname⟩ := kubeNames_of_configured x.names x.configured
  obtain ⟨hmodel, -⟩ := Codec.encode_eq_ok (x.encode_recorded h)
  obtain ⟨i, hnative, -⟩ := h
  have hne {s : String} (hs : KubeName s) : utf8 s ≠ [] := fun h => hs.ne (utf8_inj.mp h)
  exact {
    kind := .inl rfl
    ns_ne := hne hns
    ns_slash := notMem_utf8 (by decide) rfl hns.slash
    ns_separator := notMem_utf8 (by decide) rfl hns.bar
    name_ne := hne hname
    name_separator := notMem_utf8 (by decide) rfl hname.bar
    model := hmodel
    nativeID_ne := (x.natives native (mem_of_getElem? hnative)).1 }

include x in
/-- The registered prefix has no marker but the one at its end, or the first request would not have
been served. -/
theorem Exchange.prefix_eq : questionMark ∉ root ++ filesPathMarker ∧
    ¬ filesPathMarker <:+: root ++ filesPathMarker.dropLast := by
  obtain ⟨c, hclass⟩ := classify_of_routeRequest x.routed_eq
  obtain ⟨rest, hcut⟩ := cut_marker_of_classify x.reaches hclass
  exact ⟨questionMark_notMem_of_reaches x.reaches, not_infix_of_cut (by decide) hcut⟩

theorem Exchange.setBackend_later (native : Bytes) (hnames : ∀ r ∈ routes, KubeNames r)
    (hq : q ∈ configuredRefs ord s routes) (hb : q.backend ord s = some b)
    (config : Option (GoMap String Backend)) {later : FilesProcessor}
    (hlater : later.decodedBackend = some ⟨(x.recorded native).ns, (x.recorded native).name⟩) :
    (∃ st, setBackend config later b = .ok st) ↔
      routeRuleBackendCount config b.name ≤ 1 ∧ b.schema.name = .openAI ∧
        q.route.key.ns = x.position.route.key.ns ∧ q.ref.name = x.position.ref.name := by
  have hparse := namespaceAndName_backend hnames hq hb
  have hkey : (∀ d, later.decodedBackend = some d → d = ⟨utf8 q.route.key.ns, utf8 q.ref.name⟩) ↔
      q.route.key.ns = x.position.route.key.ns ∧ q.ref.name = x.position.ref.name := by
    simp only [hlater, Option.some.injEq, forall_eq', BackendKey.mk.injEq]
    simp only [recorded, RefPosition.recordedKey, utf8_inj]
    exact ⟨fun h => ⟨h.1.symm, h.2.symm⟩, fun h => ⟨h.1.symm, h.2.symm⟩⟩
  constructor
  · rintro ⟨st, hst⟩
    obtain ⟨hcount, hdecoded, hschema, -⟩ := (setBackend_eq_ok_iff hparse).mp hst
    exact ⟨hcount, hschema, hkey.mp hdecoded⟩
  · rintro ⟨hcount, hschema, hsame⟩
    exact ⟨_, (setBackend_eq_ok_iff hparse).mpr ⟨hcount, hkey.mpr hsame, hschema, rfl⟩⟩

end

/-! ## Top theorem -/

theorem followUp_iff {codec codec' : Codec} (hround : RoundTrips codec codec') {root : Bytes}
    (x : Exchange codec root) {native id : Bytes} (hid : x.GivesOut native id)
    {op : FilesOperation} {method query : Bytes} (hop : idMethod op = some method)
    (hquery : IsQuery query) (lib : QueryLib) (formModel : Bytes) (ord : MergeOrders) (s : Store)
    {routes : List AIGatewayRoute} (hnames : ∀ r ∈ routes, KubeNames r) :
    (∃ later, routeRequest codec' lib
        ⟨method, idPath (root ++ filesPathMarker) op id query, formModel⟩ = .ok later ∧
      later.model = x.routed.model ∧
      later.path = idPath (root ++ filesPathMarker) op native query ∧
      classifyFilesRequest method later.path = some (op, native) ∧
      ∀ q ∈ configuredRefs ord s routes, ∀ b, q.backend ord s = some b →
        (∃ st, setBackend (some (runtimeBackends (configBackends ord s routes))) later.processor b =
          .ok st) → q.identity = x.position.identity) ↔
    ∀ q ∈ configuredRefs ord s routes, ∀ b, q.backend ord s = some b →
      routeRuleBackendCount (some (runtimeBackends (configBackends ord s routes))) b.name ≤ 1 →
      b.schema.name = .openAI → q.route.key.ns = x.position.route.key.ns →
      q.ref.name = x.position.ref.name → q.identity = x.position.identity := by
  obtain ⟨hquestion, hroot⟩ := x.prefix_eq
  have hencode := x.encode_recorded hid
  have hdecode := hround _ (x.recorded_valid hid) id hencode
  have hslash : slash ∉ id := Codec.notMem_encode hencode (by decide) (by decide)
  have hmark : questionMark ∉ id := Codec.notMem_encode hencode (by decide) (by decide)
  have hclass := classify_idPath hquestion hmark hquery hroot (Codec.ne_nil_of_encode hencode) hslash
    hop
  have hrouted : routeRequest codec' lib
      ⟨method, idPath (root ++ filesPathMarker) op id query, formModel⟩ = _ :=
    routeRequest_id lib hclass hop hdecode rfl
  rw [rewrittenPath_idPath hquestion hmark hquery hroot] at hrouted
  constructor
  · rintro ⟨later, hlater, -, -, -, honly⟩ q hq b hb hcount hschema hns hname
    rw [hrouted] at hlater
    cases hlater
    exact honly q hq b hb ((x.setBackend_later native hnames hq hb _ rfl).mpr
      ⟨hcount, hschema, hns, hname⟩)
  · intro halias
    refine ⟨_, hrouted, ?_, rfl, ?_, ?_⟩
    · exact (model_of_routeRequest x.routed_eq).symm
    · obtain ⟨i, hnative, -⟩ := hid
      obtain ⟨hne, hslash', hmark'⟩ := x.natives native (mem_of_getElem? hnative)
      exact classify_idPath hquestion hmark' hquery hroot hne hslash' hop
    · intro q hq b hb htakes
      obtain ⟨hcount, hschema, hns, hname⟩ :=
        (x.setBackend_later native hnames hq hb _ rfl).mp htakes
      exact halias q hq b hb hcount hschema hns hname

/-! ### One backend behind another's name -/

/-- The rule of `ns0/far` references the backend `x` of another namespace. -/
def farRoute : AIGatewayRoute :=
  ⟨⟨"ns0", "far"⟩, false, [⟨none, [{ localRef "x" with ns := some "ns1" }], [], none⟩]⟩

/-- The rule of `ns0/near` references the backend `x` of its own namespace. -/
def nearRoute : AIGatewayRoute := oneRuleRoute ⟨"ns0", "near"⟩ ["x"]

def twoBackendsStore : Store :=
  { backendStore [⟨"ns0", "x"⟩, ⟨"ns1", "x"⟩] with
    referenceGrants := [⟨⟨"ns1", "g"⟩, false, [⟨aiServiceBackendGroup, "AIGatewayRoute", "ns0"⟩],
      [⟨aiServiceBackendGroup, aiServiceBackendKind, none⟩]⟩] }

def farPosition : RefPosition := ⟨farRoute, 0, 0, { localRef "x" with ns := some "ns1" }⟩

def nearPosition : RefPosition := ⟨nearRoute, 0, 0, localRef "x"⟩

/-- The config's backend for a reference to a plain AIServiceBackend. -/
def plainConfigBackend (name aiServiceBackendName : String) : Backend :=
  ⟨name, "", aiServiceBackendName, ⟨.openAI, "", "v1"⟩, none, none, none, []⟩

def markCodec : Codec := ⟨markKey 1, none⟩

/-- The id of the file `f` of `farPosition` under the model `m`. -/
def farFileID : Bytes :=
  filePrefix ++ Base64URL.encode ((markKey 1).seal (payload
    ⟨utf8 "ns0", utf8 "x", kindFile, utf8 "m", utf8 "f"⟩))

/-- An upload that `ns1/x` has served. -/
def farUpload : Exchange markCodec [] where
  lib := ⟨fun _ => none, fun _ => []⟩
  request := ⟨methodPost, utf8 "/v1/files", utf8 "m"⟩
  reaches := .inl (by decide)
  routed := ⟨⟨utf8 "/v1/files", .upload, none, none, utf8 "m"⟩, some (utf8 "m"), utf8 "/v1/files"⟩
  routed_eq := by decide
  ord := .stored
  store := twoBackendsStore
  routes := [farRoute]
  names := by decide
  position := farPosition
  configured := by decide
  backend := plainConfigBackend "ns0/x/route/far/rule/0/ref/0" "ns1/x"
  backend_eq := by decide
  earlier := []
  processor := ⟨utf8 "/v1/files", .upload, some ⟨utf8 "ns0", utf8 "x"⟩, none, utf8 "m"⟩
  serve_eq := by decide
  status := some "200"
  body := ⟨10, [("id", .str (utf8 "f"))], none⟩
  oneID := by decide
  natives := by decide
  reply := .file [("id", .str farFileID)]
  reply_eq := by decide +kernel

theorem farUpload_givesOut : farUpload.GivesOut (utf8 "f") farFileID := ⟨0, rfl, rfl⟩

/-- A request for the file. -/
def farFileRequest (query : Bytes) : FilesRequest :=
  ⟨methodGet, idPath ([] ++ filesPathMarker) .retrieve farFileID query, []⟩

/-- While `ns0/far` is the only route, the request goes where the upload went. -/
theorem farFile_retrieved :
    ∃ later, routeRequest markCodec farUpload.lib (farFileRequest (utf8 "?q")) = .ok later ∧
      later.model = some (utf8 "m") ∧ later.path = utf8 "/v1/files/f?q" ∧
      ∀ q ∈ configuredRefs .stored twoBackendsStore [farRoute], ∀ b,
        q.backend .stored twoBackendsStore = some b →
        (∃ st, setBackend (some (runtimeBackends (configBackends .stored twoBackendsStore [farRoute])))
          later.processor b = .ok st) → q.identity = .aiServiceBackend ⟨"ns1", "x"⟩ := by
  have hrefs : configuredRefs .stored twoBackendsStore [farRoute] = [farPosition] := by decide
  have hquery : IsQuery (utf8 "?q") := .inr ⟨utf8 "q", by decide⟩
  have hnames : ∀ r ∈ [farRoute], KubeNames r := by decide
  have hmethod : idMethod .retrieve = some methodGet := rfl
  obtain ⟨later, hrouted, hmodel, hpath, -, honly⟩ :=
    (followUp_iff (roundTrips_of_inverts (markCipher_inverts 1) none none) farUpload
      farUpload_givesOut hmethod hquery farUpload.lib [] .stored twoBackendsStore hnames).mpr (by
        intro q hq b _ _ _ _ _
        rw [hrefs, mem_singleton] at hq
        rw [hq]
        rfl)
  exact ⟨later, hrouted, hmodel, hpath.trans (by decide), honly⟩

/-- The processor of the request, before and after a backend has taken it. -/
def farFileProcessor (backend : Option BackendKey) : FilesProcessor :=
  ⟨(farFileRequest []).path, .retrieve, backend, some ⟨utf8 "ns0", utf8 "x"⟩, utf8 "m"⟩

/-- With `ns0/near` also there, `ns0/x` accepts the id of a file of `ns1/x`. -/
theorem nearBackend_accepts_farFile :
    RoundTrips markCodec markCodec ∧ farUpload.GivesOut (utf8 "f") farFileID ∧
      nearPosition ∈ configuredRefs .stored twoBackendsStore [farRoute, nearRoute] ∧
      nearPosition.identity ≠ farUpload.position.identity ∧
      ∃ b, nearPosition.backend .stored twoBackendsStore = some b ∧
        routeRequest markCodec farUpload.lib (farFileRequest []) =
          .ok ⟨farFileProcessor none, some (utf8 "m"), utf8 "/v1/files/f"⟩ ∧
        setBackend (some (runtimeBackends (configBackends .stored twoBackendsStore
          [farRoute, nearRoute]))) (farFileProcessor none) b =
            .ok (farFileProcessor (some ⟨utf8 "ns0", utf8 "x"⟩)) := by
  refine ⟨roundTrips_of_inverts (markCipher_inverts 1) none none, farUpload_givesOut, by decide,
    by decide, plainConfigBackend "ns0/x/route/near/rule/0/ref/0" "ns0/x", by decide, ?_, ?_⟩
  · decide +kernel
  · decide +kernel

end AgentRouter.Files
