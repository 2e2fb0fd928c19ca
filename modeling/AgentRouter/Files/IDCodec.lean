import AgentRouter.Lib.Base64URL
import AgentRouter.Lib.Cut

/-!
# IDCodec: the ids that the gateway gives out for files

A file id names the backend that holds the file, the model it was uploaded under and the id that
the backend gave it.  All of this is encrypted, so that a client can neither read it nor make up an
id of its own:

    {kind}-{base64(nonce, ciphertext of "{kind}|{namespace}/{name}|{model}|{native id}")}

The nonce is a MAC of the plaintext.  Strings are byte strings here, since a backend may choose any
bytes as the id of a file.

    an id is read back as what it was made of, also with a fallback key   (decode_issued)
    an accepted id was given out ↔ its base64 part is an encoding   (accepted_issued_iff)
-/

namespace AgentRouter.IDCodec

open Cut List

/-! ## Algorithm -/

/-- `file-` -/
def filePrefix : Bytes := [102, 105, 108, 101, 45]

/-- `batch-` -/
def batchPrefix : Bytes := [98, 97, 116, 99, 104, 45]

/-- `file` -/
def kindFile : Bytes := [102, 105, 108, 101]

/-- `batch` -/
def kindBatch : Bytes := [98, 97, 116, 99, 104]

/-- `|` -/
def payloadSeparator : UInt8 := 124

def slash : UInt8 := 47

structure BackendID where
  ns : Bytes
  name : Bytes
  kind : Bytes
  model : Bytes
  nativeID : Bytes
  deriving DecidableEq

/-- The sizes of AES-GCM. -/
def nonceSize : Nat := 12

def overhead : Nat := 16

/-- `cipher.AEAD` with its key. -/
structure AEAD where
  aeadSeal : (nonce plaintext : Bytes) → Bytes
  aeadOpen : (nonce ciphertext : Bytes) → Option Bytes
  length_seal : ∀ nonce p, (aeadSeal nonce p).length = p.length + overhead

/-- `mac` is the HMAC with the key for nonces. -/
structure Key where
  aead : AEAD
  mac : Bytes → Bytes
  length_mac : ∀ p, nonceSize ≤ (mac p).length

def Key.nonce (k : Key) (plaintext : Bytes) : Bytes := (k.mac plaintext).take nonceSize

def Key.seal (k : Key) (plaintext : Bytes) : Bytes :=
  k.nonce plaintext ++ k.aead.aeadSeal (k.nonce plaintext) plaintext

/-- Also the nonce has to be the one of the plaintext. -/
def Key.openRaw (k : Key) (raw : Bytes) : Option Bytes :=
  if raw.length < nonceSize + overhead then none
  else
    match k.aead.aeadOpen (raw.take nonceSize) (raw.drop nonceSize) with
    | none => none
    | some p => if raw.take nonceSize = k.nonce p then some p else none

structure Codec where
  primary : Key
  fallback : Option Key

open Codec

inductive EncodeError where
  /-- "idcodec: unsupported kind %q". -/
  | unsupportedKind (kind : Bytes)
  /-- "idcodec: namespace, name, and nativeID are required". -/
  | missingField
  /-- "idcodec: model must not contain %q". -/
  | modelSeparator
  deriving DecidableEq

def prefixForKind (kind : Bytes) : Except EncodeError Bytes :=
  if kind = kindFile then .ok filePrefix
  else if kind = kindBatch then .ok batchPrefix
  else .error (.unsupportedKind kind)

def payload (b : BackendID) : Bytes :=
  b.kind ++ payloadSeparator ::
    ((b.ns ++ slash :: b.name) ++ payloadSeparator ::
      (b.model ++ payloadSeparator :: b.nativeID))

def Codec.encode (c : Codec) (b : BackendID) : Except EncodeError Bytes :=
  match prefixForKind b.kind with
  | .error e => .error e
  | .ok idPrefix =>
    if b.ns = [] ∨ b.name = [] ∨ b.nativeID = [] then .error .missingField
    else if payloadSeparator ∈ b.model then .error .modelSeparator
    else .ok (idPrefix ++ Base64URL.encode (c.primary.seal (payload b)))

/-- The kind that the prefix of an id stands for, and what follows the prefix. -/
def kindAndBody (id : Bytes) : Option (Bytes × Bytes) :=
  if filePrefix.isPrefixOf id then some (kindFile, id.drop filePrefix.length)
  else if batchPrefix.isPrefixOf id then some (kindBatch, id.drop batchPrefix.length)
  else none

/-- The kind of the payload has to be the one of the prefix. -/
def parsePayload (kind p : Bytes) : Option BackendID :=
  match splitN [payloadSeparator] 4 p with
  | [k, nsName, model, nativeID] =>
    if k ≠ kind then none
    else
      match splitN [slash] 2 nsName with
      | [ns, name] =>
        if ns = [] ∨ name = [] ∨ nativeID = [] then none else some ⟨ns, name, kind, model, nativeID⟩
      | _ => none
  | _ => none

/-- The fallback key is tried where the primary key fails. -/
def Codec.openRaw (c : Codec) (raw : Bytes) : Option Bytes :=
  match c.primary.openRaw raw with
  | some p => some p
  | none => c.fallback.bind fun k => k.openRaw raw

/-- All failures are `ErrInvalidID`. -/
def Codec.decode (c : Codec) (id : Bytes) : Option BackendID := do
  let (kind, body) ← kindAndBody id
  let raw ← Base64URL.decode body
  let p ← c.openRaw raw
  parsePayload kind p

/-! ## Assumptions on the cipher -/

/-- `Open` inverts `Seal`. -/
def AEAD.Inverts (a : AEAD) : Prop :=
  ∀ nonce p, nonce.length = nonceSize → a.aeadOpen nonce (a.aeadSeal nonce p) = some p

/-- `Open` succeeds only on what `Seal` has produced. -/
def AEAD.Authentic (a : AEAD) : Prop :=
  ∀ nonce ciphertext p, a.aeadOpen nonce ciphertext = some p → ciphertext = a.aeadSeal nonce p

/-- `Open` fails on what was sealed under the other key. -/
def AEAD.Rejects (a other : AEAD) : Prop :=
  ∀ nonce p, a.aeadOpen nonce (other.aeadSeal nonce p) = none

/-! ## Lemmas -/

/-! ### Payloads -/

/-- What `Encode` takes: Kubernetes names have neither of the separators. -/
structure BackendID.Valid (b : BackendID) : Prop where
  kind : b.kind = kindFile ∨ b.kind = kindBatch
  ns_ne : b.ns ≠ []
  ns_slash : slash ∉ b.ns
  ns_separator : payloadSeparator ∉ b.ns
  name_ne : b.name ≠ []
  name_separator : payloadSeparator ∉ b.name
  model : payloadSeparator ∉ b.model
  nativeID_ne : b.nativeID ≠ []

theorem splitN_payload_iff {p k nsName model nativeID : Bytes} :
    splitN [payloadSeparator] 4 p = [k, nsName, model, nativeID] ↔
      p = k ++ payloadSeparator :: (nsName ++ payloadSeparator :: (model ++ payloadSeparator :: nativeID)) ∧
        payloadSeparator ∉ k ∧ payloadSeparator ∉ nsName ∧ payloadSeparator ∉ model := by
  constructor
  · intro h
    obtain ⟨_, rfl, hk, h⟩ := (splitN_eq_cons_iff (by simp)).mp h
    obtain ⟨_, rfl, hns, h⟩ := (splitN_eq_cons_iff (by simp)).mp h
    obtain ⟨rfl, hmodel⟩ := splitN_two_iff.mp h
    exact ⟨rfl, hk, hns, hmodel⟩
  · rintro ⟨rfl, hk, hns, hmodel⟩
    refine (splitN_eq_cons_iff (by simp)).mpr ⟨_, rfl, hk, ?_⟩
    refine (splitN_eq_cons_iff (by simp)).mpr ⟨_, rfl, hns, ?_⟩
    exact splitN_two_iff.mpr ⟨rfl, hmodel⟩

theorem separator_notMem_nsName_iff {ns name : Bytes} :
    payloadSeparator ∉ ns ++ slash :: name ↔ payloadSeparator ∉ ns ∧ payloadSeparator ∉ name := by
  simp [payloadSeparator, slash]

variable {b : BackendID}

theorem parsePayload_eq_some_iff {kind p : Bytes} (hkind : kind = kindFile ∨ kind = kindBatch) :
    parsePayload kind p = some b ↔ p = payload b ∧ b.kind = kind ∧ b.Valid := by
  constructor
  · intro h
    unfold parsePayload at h
    split at h
    next k nsName model nativeID hsplit =>
      split at h
      · cases h
      next hk =>
      split at h
      next ns name hns =>
        split at h
        · cases h
        next hne =>
        obtain ⟨rfl, -, hnsName, hmodel⟩ := splitN_payload_iff.mp hsplit
        obtain ⟨rfl, hslash⟩ := splitN_two_iff.mp hns
        obtain ⟨hsns, hsname⟩ := separator_notMem_nsName_iff.mp hnsName
        rw [not_or, not_or] at hne
        cases h
        rw [not_not] at hk
        subst hk
        exact ⟨rfl, rfl, hkind, hne.1, hslash, hsns, hne.2.1, hsname, hmodel, hne.2.2⟩
      · cases h
    · cases h
  · rintro ⟨rfl, rfl, hb⟩
    have hkind : payloadSeparator ∉ b.kind := by
      rcases hb.kind with h | h <;> rw [h] <;> decide
    have hnsName := separator_notMem_nsName_iff.mpr ⟨hb.ns_separator, hb.name_separator⟩
    have hsplit : splitN [payloadSeparator] 4 (payload b) =
        [b.kind, b.ns ++ slash :: b.name, b.model, b.nativeID] :=
      splitN_payload_iff.mpr ⟨rfl, hkind, hnsName, hb.model⟩
    rw [parsePayload, hsplit]
    simp [splitN_two_iff.mpr ⟨rfl, hb.ns_slash⟩, hb.ns_ne, hb.name_ne, hb.nativeID_ne]

/-! ### Keys -/

theorem Key.length_nonce (k : Key) (p : Bytes) : (k.nonce p).length = nonceSize := by
  rw [nonce, length_take]
  have := k.length_mac p
  omega

theorem Key.take_seal (k : Key) (p : Bytes) : (k.seal p).take nonceSize = k.nonce p := by
  rw [Key.seal, take_left' (k.length_nonce p)]

theorem Key.drop_seal (k : Key) (p : Bytes) : (k.seal p).drop nonceSize = k.aead.aeadSeal (k.nonce p) p := by
  rw [Key.seal, drop_left' (k.length_nonce p)]

theorem Key.le_length_seal (k : Key) (p : Bytes) : nonceSize + overhead ≤ (k.seal p).length := by
  rw [Key.seal, length_append, k.length_nonce, k.aead.length_seal]
  omega

variable {k : Key}

theorem Key.openRaw_seal (h : k.aead.Inverts) (p : Bytes) : k.openRaw (k.seal p) = some p := by
  have hlength := k.le_length_seal p
  rw [openRaw, if_neg (by omega), take_seal, drop_seal, h _ _ (k.length_nonce p)]
  exact if_pos rfl

theorem Key.openRaw_seal_of_rejects {other : Key} (h : k.aead.Rejects other.aead) (p : Bytes) :
    k.openRaw (other.seal p) = none := by
  have hlength := other.le_length_seal p
  rw [openRaw, if_neg (by omega), take_seal, drop_seal, h]

theorem Key.eq_seal_of_openRaw (h : k.aead.Authentic) {raw p : Bytes}
    (hopen : k.openRaw raw = some p) : raw = k.seal p := by
  unfold openRaw at hopen
  split at hopen
  · cases hopen
  split at hopen
  · cases hopen
  next p' haead =>
    split at hopen
    next hnonce =>
      cases hopen
      rw [Key.seal, ← hnonce, ← h _ _ _ haead, take_append_drop]
    · cases hopen

/-! ### Prefixes -/

variable {idPrefix : Bytes}

theorem kindAndBody_append {kind : Bytes} (body : Bytes) (h : prefixForKind kind = .ok idPrefix) :
    kindAndBody (idPrefix ++ body) = some (kind, body) := by
  unfold prefixForKind at h
  split at h
  next hfile =>
    cases h
    rw [hfile]
    rfl
  split at h
  next hbatch =>
    cases h
    rw [hbatch]
    rfl
  · cases h

theorem prefixForKind_of_kindAndBody {id kind body : Bytes} (h : kindAndBody id = some (kind, body)) :
    (kind = kindFile ∨ kind = kindBatch) ∧
      ∃ idPrefix, prefixForKind kind = .ok idPrefix ∧ id = idPrefix ++ body := by
  unfold kindAndBody at h
  split at h
  next hfile =>
    cases h
    obtain ⟨rest, rfl⟩ := List.isPrefixOf_iff_prefix.mp hfile
    exact ⟨.inl rfl, filePrefix, rfl, by rw [drop_left]⟩
  split at h
  next hbatch =>
    cases h
    obtain ⟨rest, rfl⟩ := List.isPrefixOf_iff_prefix.mp hbatch
    exact ⟨.inr rfl, batchPrefix, rfl, by rw [drop_left]⟩
  · cases h

theorem exists_prefixForKind {kind : Bytes} (h : kind = kindFile ∨ kind = kindBatch) :
    ∃ idPrefix, prefixForKind kind = .ok idPrefix := by
  rcases h with rfl | rfl
  · exact ⟨filePrefix, rfl⟩
  · exact ⟨batchPrefix, rfl⟩

/-! ### Codecs -/

theorem Codec.encode_of_valid (c : Codec) (hb : b.Valid) (hpre : prefixForKind b.kind = .ok idPrefix) :
    c.encode b = .ok (idPrefix ++ Base64URL.encode (c.primary.seal (payload b))) := by
  rw [encode, hpre]
  simp [hb.ns_ne, hb.name_ne, hb.nativeID_ne, hb.model]

variable {c : Codec}

theorem Codec.decode_of_openRaw (hb : b.Valid) (hpre : prefixForKind b.kind = .ok idPrefix)
    (hopen : c.openRaw (k.seal (payload b)) = some (payload b)) :
    c.decode (idPrefix ++ Base64URL.encode (k.seal (payload b))) = some b := by
  have hparse : parsePayload b.kind (payload b) = some b :=
    (parsePayload_eq_some_iff hb.kind).mpr ⟨rfl, rfl, hb⟩
  simp only [decode, kindAndBody_append _ hpre, Option.bind_eq_bind, Option.bind_some,
    Base64URL.decode_encode, hopen, hparse]

/-- The id is one that a codec with this primary key has given out. -/
def Issued (k : Key) (id : Bytes) : Prop := ∃ b, (Codec.mk k none).encode b = .ok id

/-- The part behind the prefix has no line break and no spare bit that is set. -/
def Canonical (id : Bytes) : Prop :=
  match kindAndBody id with
  | none => False
  | some (_, body) => body.any Base64.isLineBreak = false ∧ Base64URL.spareBits body = 0

instance (id : Bytes) : Decidable (Canonical id) :=
  match h : kindAndBody id with
  | none => .isFalse (by rw [Canonical, h]; exact not_false)
  | some (kind, body) =>
    decidable_of_iff (body.any Base64.isLineBreak = false ∧ Base64URL.spareBits body = 0) (by
      rw [Canonical, h])

theorem canonical_append {kind body : Bytes} (h : prefixForKind kind = .ok idPrefix) :
    Canonical (idPrefix ++ body) ↔
      (∀ c ∈ body, Base64.isLineBreak c = false) ∧ Base64URL.spareBits body = 0 := by
  rw [Canonical, kindAndBody_append body h]
  simp only [any_eq_false, Bool.not_eq_true]

variable {id : Bytes}

theorem Codec.encode_eq_ok (h : c.encode b = .ok id) :
    payloadSeparator ∉ b.model ∧ ∃ idPrefix, prefixForKind b.kind = .ok idPrefix ∧
      id = idPrefix ++ Base64URL.encode (c.primary.seal (payload b)) := by
  unfold encode at h
  split at h
  · cases h
  next idPrefix hpre =>
    split at h
    · cases h
    split at h
    · cases h
    next hmodel =>
      cases h
      exact ⟨hmodel, idPrefix, hpre, rfl⟩

theorem mem_prefixForKind {kind : Bytes} (h : prefixForKind kind = .ok idPrefix) :
    idPrefix = filePrefix ∨ idPrefix = batchPrefix := by
  unfold prefixForKind at h
  split at h
  · cases h
    exact .inl rfl
  split at h
  · cases h
    exact .inr rfl
  · cases h

theorem Codec.ne_nil_of_encode (h : c.encode b = .ok id) : id ≠ [] := by
  obtain ⟨-, idPrefix, hpre, rfl⟩ := encode_eq_ok h
  rcases mem_prefixForKind hpre with rfl | rfl
  · exact cons_ne_nil _ _
  · exact cons_ne_nil _ _

theorem Codec.notMem_encode (h : c.encode b = .ok id) {x : UInt8}
    (hx : x ∉ filePrefix ++ batchPrefix) (hdigit : ∀ n < 64, Base64URL.digit n ≠ x) : x ∉ id := by
  rw [mem_append, not_or] at hx
  obtain ⟨-, idPrefix, hpre, rfl⟩ := encode_eq_ok h
  intro hmem
  rcases mem_append.mp hmem with hmem | hmem
  · rcases mem_prefixForKind hpre with rfl | rfl
    · exact hx.1 hmem
    · exact hx.2 hmem
  · obtain ⟨n, hn, heq⟩ := Base64URL.mem_encode x hmem
    exact hdigit n hn heq

theorem Issued.canonical (h : Issued k id) : Canonical id := by
  obtain ⟨b, h⟩ := h
  obtain ⟨-, idPrefix, hpre, rfl⟩ := encode_eq_ok h
  rw [canonical_append hpre]
  exact ⟨Base64URL.isLineBreak_of_mem_encode _, Base64URL.spareBits_encode _⟩

theorem exists_of_decode (h : k.aead.Authentic) (hdecode : (mk k none).decode id = some b) :
    ∃ idPrefix body, prefixForKind b.kind = .ok idPrefix ∧ id = idPrefix ++ body ∧ b.Valid ∧
      Base64URL.decode body = some (k.seal (payload b)) := by
  simp only [decode, Option.bind_eq_bind, Option.bind_eq_some_iff, Prod.exists] at hdecode
  obtain ⟨kind, body, hbody, raw, hraw, p, hopen, hparse⟩ := hdecode
  obtain ⟨hkind, idPrefix, hpre, rfl⟩ := prefixForKind_of_kindAndBody hbody
  obtain ⟨rfl, rfl, hb⟩ := (parsePayload_eq_some_iff hkind).mp hparse
  have hprimary : k.openRaw raw = some (payload b) := by
    unfold openRaw at hopen
    split at hopen
    next p hp =>
      cases hopen
      exact hp
    · cases hopen
  obtain rfl := Key.eq_seal_of_openRaw h hprimary
  exact ⟨idPrefix, body, hpre, rfl, hb, hraw⟩

/-! ## Top theorems -/

theorem decode_issued {k : Key} (hinverts : k.aead.Inverts) {b : BackendID} (hb : b.Valid) :
    ∃ id, (∀ fallback, (Codec.mk k fallback).encode b = .ok id) ∧
      (∀ fallback, (Codec.mk k fallback).decode id = some b) ∧
      ∀ newKey : Key, newKey.aead.Rejects k.aead → (Codec.mk newKey (some k)).decode id = some b := by
  obtain ⟨idPrefix, hpre⟩ := exists_prefixForKind hb.kind
  have hopen := Key.openRaw_seal hinverts (payload b)
  refine ⟨idPrefix ++ Base64URL.encode (k.seal (payload b)),
    fun fallback => encode_of_valid _ hb hpre, ?_, ?_⟩
  · intro fallback
    refine decode_of_openRaw hb hpre ?_
    rw [openRaw, hopen]
  · intro newKey hrejects
    refine decode_of_openRaw hb hpre ?_
    rw [openRaw, Key.openRaw_seal_of_rejects hrejects]
    exact hopen

theorem accepted_issued_iff {k : Key} (hauthentic : k.aead.Authentic) {id : Bytes} {b : BackendID}
    (haccepted : (Codec.mk k none).decode id = some b) : Issued k id ↔ Canonical id := by
  refine ⟨Issued.canonical, ?_⟩
  obtain ⟨idPrefix, body, hpre, rfl, hb, hbody⟩ := exists_of_decode hauthentic haccepted
  intro hcanonical
  have hencode := (Base64URL.encode_eq_iff hbody).mpr ((canonical_append hpre).mp hcanonical)
  refine ⟨b, ?_⟩
  rw [encode_of_valid _ hb hpre, hencode]

/-! ### A file of one backend -/

/-- A cipher that hides nothing; the mark at the end tells the keys apart. -/
def markCipher (mark : UInt8) : AEAD where
  aeadSeal _ p := p ++ List.replicate overhead mark
  aeadOpen _ c :=
    if overhead ≤ c.length ∧ c.drop (c.length - overhead) = List.replicate overhead mark then
      some (c.take (c.length - overhead))
    else none
  length_seal _ p := by rw [List.length_append, List.length_replicate]

def markKey (mark : UInt8) : Key where
  aead := markCipher mark
  mac _ := List.replicate nonceSize mark
  length_mac _ := by rw [List.length_replicate]

theorem markCipher_inverts (mark : UInt8) : (markCipher mark).Inverts := by
  intro nonce p _
  have hlength : (p ++ List.replicate overhead mark).length - overhead = p.length := by
    rw [length_append, length_replicate]
    omega
  simp only [markCipher, hlength]
  rw [drop_left, take_left, if_pos]
  exact ⟨by rw [length_append, length_replicate]; omega, rfl⟩

theorem markCipher_authentic (mark : UInt8) : (markCipher mark).Authentic := by
  intro nonce c p h
  simp only [markCipher] at h ⊢
  split at h
  next hmark =>
    cases h
    rw [← hmark.2, take_append_drop]
  · cases h

theorem markCipher_rejects {mark other : UInt8} (h : mark ≠ other) :
    (markCipher mark).Rejects (markCipher other) := by
  intro nonce p
  have hlength : (p ++ List.replicate overhead other).length - overhead = p.length := by
    rw [length_append, length_replicate]
    omega
  simp only [markCipher, hlength]
  rw [drop_left, if_neg]
  rintro ⟨-, hmarks⟩
  exact h (replicate_right_injective (by decide) hmarks).symm

/-- The file `a|b` that the backend `ns/be` holds for the model `m`. -/
def storedFile : BackendID := ⟨[110, 115], [98, 101], kindFile, [109], [97, 124, 98]⟩

theorem storedFile_valid : storedFile.Valid where
  kind := .inl rfl
  ns_ne := by decide
  ns_slash := by decide
  ns_separator := by decide
  name_ne := by decide
  name_separator := by decide
  model := by decide
  nativeID_ne := by decide

theorem storedFile_decoded :
    ∃ id, (Codec.mk (markKey 1) none).encode storedFile = .ok id ∧
      (Codec.mk (markKey 2) (some (markKey 1))).decode id = some storedFile := by
  obtain ⟨id, hencode, -, hrotated⟩ :=
    decode_issued (k := markKey 1) (markCipher_inverts 1) storedFile_valid
  exact ⟨id, hencode none, hrotated (markKey 2) (markCipher_rejects (by decide))⟩

/-- The id of `storedFile`. -/
def storedFileID : Bytes :=
  filePrefix ++ Base64URL.encode ((markKey 1).seal (payload storedFile))

theorem storedFileID_accepted :
    (Codec.mk (markKey 1) none).decode storedFileID = some storedFile ∧
      Issued (markKey 1) storedFileID := by
  have haccepted : (mk (markKey 1) none).decode storedFileID = some storedFile := by
    decide +kernel
  refine ⟨haccepted, ?_⟩
  exact (accepted_issued_iff (k := markKey 1) (markCipher_authentic 1) haccepted).mpr
    (by decide +kernel)

/-- An id with a line break at its end, and one with another last letter, are read like the id
that was given out. -/
theorem changed_ids_are_accepted :
    (markKey 1).aead.Authentic ∧ Issued (markKey 1) storedFileID ∧
      (Codec.mk (markKey 1) none).decode (storedFileID ++ [10]) = some storedFile ∧
      ¬ Issued (markKey 1) (storedFileID ++ [10]) ∧
      (Codec.mk (markKey 1) none).decode (storedFileID.dropLast ++ [70]) = some storedFile ∧
      ¬ Issued (markKey 1) (storedFileID.dropLast ++ [70]) := by
  refine ⟨markCipher_authentic 1, ⟨storedFile, by decide +kernel⟩, by decide +kernel, fun h => ?_,
    by decide +kernel, fun h => ?_⟩
  · exact absurd h.canonical (by decide +kernel)
  · exact absurd h.canonical (by decide +kernel)

end AgentRouter.IDCodec
