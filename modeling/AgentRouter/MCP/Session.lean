import AgentRouter.Lib.Base64
import AgentRouter.Lib.Cut
import AgentRouter.Lib.GoMap
import AgentRouter.Lib.Results
import AgentRouter.Lib.Text

/-!
# Session: the composite session id of the MCP proxy

The proxy keeps no session state of its own.  What it knows of the sessions with the backends is
the session id that the client holds, in an encrypted form:

    {route}@{subject}@{backend}:{base64(session id)}:{flags},{backend}:…

The subject may contain `@`, so the parser looks for the last `@` and for the first one.  Neither
occurs in the part between: base64 has no `@`, `:` or `,`, and the flags are hexadecimal.
    parsing an id gives back what it was made of   (backendSessionIDs_of_entries)
    an id is accepted ↔ route and subject are those it was issued for   (sessionFromID_issued)
-/

namespace AgentRouter.MCPSession

open Cut List Base64

/-! ## Capabilities -/

structure ResourceCapabilities where
  listChanged : Bool
  subscribe : Bool

/-- `mcpsdk.ServerCapabilities` without extensions; `tools` and `prompts` hold their `ListChanged`. -/
structure ServerCapabilities where
  tools : Option Bool
  prompts : Option Bool
  logging : Bool
  resources : Option ResourceCapabilities
  completions : Bool

def ServerCapabilities.none : ServerCapabilities := ⟨.none, .none, false, .none, false⟩

def capBitTools : Nat := 1
def capBitToolsListChanged : Nat := 2
def capBitPrompts : Nat := 4
def capBitPromptsListChanged : Nat := 8
def capBitLogging : Nat := 16
def capBitResources : Nat := 32
def capBitResourcesListChanged : Nat := 64
def capBitResourcesSubscribe : Nat := 128
def capBitCompletions : Nat := 256

def capBitAll : Nat :=
  capBitTools ||| capBitToolsListChanged ||| capBitPrompts ||| capBitPromptsListChanged |||
    capBitLogging ||| capBitResources ||| capBitResourcesListChanged |||
    capBitResourcesSubscribe ||| capBitCompletions

/-- `bits |= bit` under a condition. -/
def bitIf (c : Bool) (bit : Nat) : Nat := if c then bit else 0

def capabilityBits (caps : ServerCapabilities) : Nat :=
  (match caps.tools with
    | none => 0
    | some listChanged => capBitTools ||| bitIf listChanged capBitToolsListChanged) |||
  (match caps.prompts with
    | none => 0
    | some listChanged => capBitPrompts ||| bitIf listChanged capBitPromptsListChanged) |||
  bitIf caps.logging capBitLogging |||
  (match caps.resources with
    | none => 0
    | some r => capBitResources ||| bitIf r.listChanged capBitResourcesListChanged |||
        bitIf r.subscribe capBitResourcesSubscribe) |||
  bitIf caps.completions capBitCompletions

def hexDigit (n : Nat) : UInt8 := if n < 10 then .ofNat (48 + n) else .ofNat (97 + (n - 10))

/-- `%03x` of a number below `0x1000`. -/
def formatHex3 (n : Nat) : Bytes := [hexDigit (n / 256), hexDigit (n / 16 % 16), hexDigit (n % 16)]

def encodeCapabilityFlags : Option ServerCapabilities → Bytes
  | none => formatHex3 0
  | some caps => formatHex3 (capabilityBits caps)

/-- `strconv.ParseUint(s, 16, 16)`. -/
def parseHex16 (s : Bytes) : Option Nat :=
  if s = [] then none
  else s.foldlM (fun n c => (Text.hexValue c.toNat).bind fun v =>
    if n * 16 + v < 2 ^ 16 then some (n * 16 + v) else none) 0

def capabilitiesOfBits (bits : Nat) : ServerCapabilities where
  tools := if bits &&& capBitTools ≠ 0 then some (bits &&& capBitToolsListChanged ≠ 0) else none
  prompts :=
    if bits &&& capBitPrompts ≠ 0 then some (bits &&& capBitPromptsListChanged ≠ 0) else none
  logging := bits &&& capBitLogging ≠ 0
  resources :=
    if bits &&& capBitResources ≠ 0 then
      some ⟨bits &&& capBitResourcesListChanged ≠ 0, bits &&& capBitResourcesSubscribe ≠ 0⟩
    else none
  completions := bits &&& capBitCompletions ≠ 0

/-- What cannot be parsed stands for all capabilities. -/
def decodeCapabilityFlags (hex : Bytes) : ServerCapabilities :=
  capabilitiesOfBits ((parseHex16 hex).getD capBitAll)

/-! ## Composite session ids -/

structure CompositeSessionEntry where
  backendName : Bytes
  sessionID : Bytes
  lastEventID : Bytes
  capabilities : Option ServerCapabilities

open CompositeSessionEntry

def atSign : UInt8 := 64
def colon : UInt8 := 58
def comma : UInt8 := 44

def sessionPart (e : CompositeSessionEntry) : Bytes :=
  e.backendName ++ colon :: (Base64.encode e.sessionID ++ colon :: encodeCapabilityFlags e.capabilities)

/-- The last byte that was written is cut off. -/
def clientToGatewaySessionIDFromEntries (subject : Bytes) (entries : List CompositeSessionEntry)
    (routeName : Bytes) : Bytes :=
  routeName ++ atSign ::
    (subject ++ atSign :: entries.flatMap fun e => sessionPart e ++ [comma]).dropLast

inductive SessionIDError where
  /-- "invalid session ID: missing '@' separator". -/
  | missingAt
  /-- "invalid session ID: missing ':' separator in backend session ID part %q". -/
  | missingColon (part : Bytes)
  /-- "invalid session ID: empty backend name in part %q". -/
  | emptyBackendName (part : Bytes)
  /-- "invalid session ID: failed to base64 decode session ID in part %q". -/
  | base64 (part : Bytes)

/-- A backend without a session has an empty session id. -/
def decodeSessionID (s : Bytes) : Option Bytes := if s = [] then some [] else Base64.decode s

def parseSessionPart (part : Bytes) : Except SessionIDError CompositeSessionEntry :=
  match splitN [colon] 3 part with
  | backendName :: sessionIDBase64 :: rest =>
    if backendName = [] then .error (.emptyBackendName part)
    else
      match decodeSessionID sessionIDBase64 with
      | none => .error (.base64 part)
      | some sessionID =>
        .ok ⟨backendName, sessionID, [], some (decodeCapabilityFlags (rest.headD []))⟩
  | _ => .error (.missingColon part)

/-- The sessions by backend, the route and the subject. -/
def backendSessionIDs (id : Bytes) :
    Except SessionIDError (GoMap Bytes CompositeSessionEntry × Bytes × Bytes) :=
  match cutLast atSign id with
  | none => .error .missingAt
  | some (front, backendSessions) =>
    match cut [atSign] front with
    | none => .error .missingAt
    | some (route, subject) =>
      ((backendSessions.splitOn comma).mapM parseSessionPart).map fun es =>
        (GoMap.setAll CompositeSessionEntry.backendName ∅ es, route, subject)

/-! ## Event ids -/

def parseEventPart (part : Bytes) : Option (Bytes × Bytes) :=
  match cut [colon] part with
  | none => none
  | some (backendName, eventID) =>
    if backendName = [] then none
    else if eventID = [] then some (backendName, [])
    else (Base64.decode eventID).map fun decoded => (backendName, decoded)

def backendEventIDs (e : Bytes) : GoMap Bytes Bytes :=
  GoMap.setEach ∅ ((e.splitOn comma).filterMap parseEventPart)

/-- `entity.lastEventID = eventID`, if there is a session with the backend. -/
def setLastEventID (sessions : GoMap Bytes CompositeSessionEntry) (e : Bytes × Bytes) :
    GoMap Bytes CompositeSessionEntry :=
  match sessions.lookup e.1 with
  | none => sessions
  | some entry => sessions.insert e.1 { entry with lastEventID := e.2 }

/-! ## Issuing and accepting -/

/-- `SessionCrypto`; `ρ` is what an encryption draws at random. -/
structure SessionCrypto (ρ : Type) where
  encrypt : ρ → Bytes → Except String Bytes
  decrypt : Bytes → Except String Bytes

/-- Decrypt inverts Encrypt. -/
def SessionCrypto.Inverts {ρ : Type} (crypto : SessionCrypto ρ) : Prop :=
  ∀ r plain cipher, crypto.encrypt r plain = .ok cipher → crypto.decrypt cipher = .ok plain

structure Session where
  id : Bytes
  route : Bytes
  perBackendSessions : GoMap Bytes CompositeSessionEntry

inductive SessionError where
  /-- "failed to encrypt session ID". -/
  | encrypt (err : String)
  /-- "failed to decrypt session ID". -/
  | decrypt (err : String)
  | sessionID (err : SessionIDError)
  | routeMismatch
  | subjectMismatch
  /-- "failed to decrypt last event ID". -/
  | decryptEvent (err : String)

section

variable {ρ : Type}

/-- The end of `newSession`. -/
def newSessionID (crypto : SessionCrypto ρ) (r : ρ) (subject : Bytes)
    (entries : List CompositeSessionEntry) (routeName : Bytes) : Except SessionError Bytes :=
  (crypto.encrypt r (clientToGatewaySessionIDFromEntries subject entries routeName)).mapError
    .encrypt

def sessionFromID (crypto : SessionCrypto ρ) (ord : IterOrder Bytes Bytes)
    (id lastEvent currentRoute currentSubject : Bytes) : Except SessionError Session :=
  match crypto.decrypt id with
  | .error e => .error (.decrypt e)
  | .ok decrypted =>
    match backendSessionIDs decrypted with
    | .error e => .error (.sessionID e)
    | .ok (sessions, route, subject) =>
      if route ≠ currentRoute then .error .routeMismatch
      else if subject ≠ currentSubject then .error .subjectMismatch
      else if lastEvent = [] then .ok ⟨id, route, sessions⟩
      else
        match crypto.decrypt lastEvent with
        | .error e => .error (.decryptEvent e)
        | .ok decryptedEventID =>
          .ok ⟨id, route, (ord.visit (backendEventIDs decryptedEventID)).foldl setLastEventID sessions⟩

end

/-! ## Lemmas -/

theorem capabilitiesOfBits_capabilityBits (caps : ServerCapabilities) :
    capabilitiesOfBits (capabilityBits caps) = caps := by
  obtain ⟨tools, prompts, logging, resources, completions⟩ := caps
  rcases tools with _ | _ | _ <;> rcases prompts with _ | _ | _ <;> cases logging <;>
    rcases resources with _ | ⟨_ | _, _ | _⟩ <;> cases completions <;> rfl

theorem capabilityBits_lt (caps : ServerCapabilities) : capabilityBits caps < 512 := by
  obtain ⟨tools, prompts, logging, resources, completions⟩ := caps
  rcases tools with _ | _ | _ <;> rcases prompts with _ | _ | _ <;> cases logging <;>
    rcases resources with _ | ⟨_ | _, _ | _⟩ <;> cases completions <;> decide

theorem hexValue_hexDigit : ∀ n < 16, Text.hexValue (hexDigit n).toNat = some n := by decide

theorem hexDigit_plain : ∀ n < 16, hexDigit n ≠ atSign ∧ hexDigit n ≠ colon ∧ hexDigit n ≠ comma := by
  decide

theorem parseHex16_formatHex3 {n : Nat} (h : n < 512) : parseHex16 (formatHex3 n) = some n := by
  unfold parseHex16 formatHex3
  have hsum : (n / 256 * 16 + n / 16 % 16) * 16 + n % 16 = n := by omega
  have h1 : 0 * 16 + n / 256 = n / 256 := by omega
  simp only [foldlM_cons, foldlM_nil, hexValue_hexDigit _ (show n / 256 < 16 by omega),
    hexValue_hexDigit _ (show n / 16 % 16 < 16 by omega),
    hexValue_hexDigit _ (show n % 16 < 16 by omega), Option.bind_some, h1,
    if_pos (show n / 256 < 2 ^ 16 by omega), Option.bind_eq_bind,
    if_pos (show n / 256 * 16 + n / 16 % 16 < 2 ^ 16 by omega), hsum,
    if_pos (show n < 2 ^ 16 by omega)]
  rfl

/-- No capabilities at all and capabilities without a flag read the same. -/
theorem decodeCapabilityFlags_encodeCapabilityFlags (caps : Option ServerCapabilities) :
    decodeCapabilityFlags (encodeCapabilityFlags caps) = caps.getD .none := by
  cases caps with
  | none => rfl
  | some caps =>
    unfold decodeCapabilityFlags encodeCapabilityFlags
    rw [parseHex16_formatHex3 (capabilityBits_lt caps), Option.getD_some, capabilitiesOfBits_capabilityBits]
    rfl

/-- A name that a session id can carry. -/
structure PlainName (name : Bytes) : Prop where
  ne_nil : name ≠ []
  atSign : atSign ∉ name
  colon : colon ∉ name
  comma : comma ∉ name

/-- A letter that is no separator. -/
def Plain (c : UInt8) : Prop := c ≠ atSign ∧ c ≠ colon ∧ c ≠ comma

theorem plain_of_isLetter {c : UInt8} (h : Base64.IsLetter c) : Plain c := by
  have hdigit : ∀ n < 64, Base64.digit n ≠ atSign ∧ Base64.digit n ≠ colon ∧
      Base64.digit n ≠ comma := by decide
  rcases h with rfl | ⟨n, hn, rfl⟩
  · exact ⟨by decide, by decide, by decide⟩
  · exact hdigit n hn

theorem plain_of_mem_encodeCapabilityFlags {caps : Option ServerCapabilities} {c : UInt8}
    (h : c ∈ encodeCapabilityFlags caps) : Plain c := by
  have hformat : ∀ n < 512, ∀ c ∈ formatHex3 n, Plain c := by
    intro n hn c hc
    unfold formatHex3 at hc
    simp only [mem_cons, not_mem_nil, or_false] at hc
    rcases hc with rfl | rfl | rfl
    · exact hexDigit_plain _ (by omega)
    · exact hexDigit_plain _ (by omega)
    · exact hexDigit_plain _ (by omega)
  cases caps with
  | none => exact hformat 0 (by omega) c h
  | some caps => exact hformat _ (capabilityBits_lt caps) c h

/-- What a parser finds of an entry. -/
def recovered (e : CompositeSessionEntry) : CompositeSessionEntry :=
  ⟨e.backendName, e.sessionID, [], some (e.capabilities.getD .none)⟩

theorem decodeSessionID_encode (s : Bytes) : decodeSessionID (Base64.encode s) = some s := by
  unfold decodeSessionID
  split
  · next h => rw [encode_eq_nil_iff.mp h]
  · exact decode_encode s

theorem parseSessionPart_sessionPart {e : CompositeSessionEntry} (h : PlainName e.backendName) :
    parseSessionPart (sessionPart e) = .ok (recovered e) := by
  have hcolon : colon ∉ Base64.encode e.sessionID := by
    intro hmem
    exact (plain_of_isLetter (mem_encode _ _ hmem)).2.1 rfl
  unfold parseSessionPart sessionPart
  rw [splitN_three _ h.colon hcolon]
  dsimp only
  rw [if_neg h.ne_nil, decodeSessionID_encode]
  rw [headD_cons, decodeCapabilityFlags_encodeCapabilityFlags]
  rfl

theorem notMem_sessionPart {e : CompositeSessionEntry} {sep : UInt8} (hname : sep ∉ e.backendName)
    (hcolon : sep ≠ colon) (hplain : ∀ c, Plain c → c ≠ sep) : sep ∉ sessionPart e := by
  unfold sessionPart
  simp only [mem_append, mem_cons, not_or]
  refine ⟨hname, hcolon, fun h => ?_, hcolon, fun h => ?_⟩
  · exact hplain sep (plain_of_isLetter (mem_encode _ _ h)) rfl
  · exact hplain sep (plain_of_mem_encodeCapabilityFlags h) rfl

variable {entries : List CompositeSessionEntry}

theorem clientToGatewaySessionIDFromEntries_eq (subject : Bytes) (hne : entries ≠ []) (routeName : Bytes) :
    clientToGatewaySessionIDFromEntries subject entries routeName =
      (routeName ++ atSign :: subject) ++ atSign :: [comma].intercalate (entries.map sessionPart) := by
  have hparts : (entries.flatMap fun e => sessionPart e ++ [comma]) =
      [comma].intercalate (entries.map sessionPart) ++ [comma] := by
    rw [← flatMap_append_sep [comma] _ (by simpa using hne), flatMap_map]
  unfold clientToGatewaySessionIDFromEntries
  rw [hparts, show subject ++ atSign :: ([comma].intercalate (entries.map sessionPart) ++ [comma]) =
    (subject ++ atSign :: [comma].intercalate (entries.map sessionPart)) ++ [comma] by simp,
    dropLast_concat]
  simp

theorem mapM_parseSessionPart (h : ∀ e ∈ entries, PlainName e.backendName) :
    (entries.map sessionPart).mapM parseSessionPart = .ok (entries.map recovered) := by
  induction entries with
  | nil => rfl
  | cons e entries ih =>
    rw [map_cons, mapM_cons, parseSessionPart_sessionPart (h e mem_cons_self),
      ih fun e' he' => h e' (mem_cons_of_mem _ he')]
    rfl

/-- Every entry is found under the name of its backend, and nothing else is. -/
structure Recovers (entries : List CompositeSessionEntry)
    (sessions : GoMap Bytes CompositeSessionEntry) : Prop where
  entry : ∀ e ∈ entries, sessions.lookup e.backendName = some (recovered e)
  noOther : ∀ name ∈ sessions, ∃ e ∈ entries, e.backendName = name

theorem backendSessionIDs_of_entries (subject : Bytes) {routeName : Bytes}
    (hroute : atSign ∉ routeName) (hne : entries ≠ [])
    (hnames : ∀ e ∈ entries, PlainName e.backendName) :
    backendSessionIDs (clientToGatewaySessionIDFromEntries subject entries routeName) =
      .ok (GoMap.setAll backendName ∅ (entries.map recovered), routeName, subject) := by
  have hat : atSign ∉ [comma].intercalate (entries.map sessionPart) := by
    refine notMem_intercalate (by decide) fun part hpart => ?_
    obtain ⟨e, he, rfl⟩ := mem_map.mp hpart
    exact notMem_sessionPart (hnames e he).atSign (by decide) fun c hc => hc.1
  have hcomma : ∀ part ∈ entries.map sessionPart, comma ∉ part := by
    intro part hpart
    obtain ⟨e, he, rfl⟩ := mem_map.mp hpart
    exact notMem_sessionPart (hnames e he).comma (by decide) fun c hc => hc.2.2
  unfold backendSessionIDs
  rw [clientToGatewaySessionIDFromEntries_eq subject hne, cutLast_append _ hat]
  dsimp only
  rw [cut_singleton _ hroute]
  rw [splitOn_intercalate _ hcomma (by simpa using hne), mapM_parseSessionPart hnames]
  rfl

theorem recovers_setAll (hdistinct : (entries.map backendName).Nodup) :
    Recovers entries (GoMap.setAll backendName ∅ (entries.map recovered)) := by
  have hkeys : ((entries.map recovered).map backendName).Nodup := by
    rw [map_map]
    exact hdistinct
  constructor
  · intro e he
    exact GoMap.lookup_setAll_of_mem hkeys (mem_map_of_mem he)
  · intro name hname
    obtain ⟨e, he, rfl⟩ := GoMap.mem_setAll_empty hname
    obtain ⟨e', he', rfl⟩ := mem_map.mp he
    exact ⟨e', he', rfl⟩

/-! ## Top theorem -/

/-- For every list of entries, whatever the session ids, the capabilities and the subject are. -/
theorem sessionFromID_issued {ρ : Type} (routeName subject : Bytes)
    (entries : List CompositeSessionEntry) (hroute : atSign ∉ routeName) (hne : entries ≠ [])
    (hnames : ∀ e ∈ entries, PlainName e.backendName)
    (hdistinct : (entries.map CompositeSessionEntry.backendName).Nodup) :
    (∃ sessions, Recovers entries sessions ∧
      backendSessionIDs (clientToGatewaySessionIDFromEntries subject entries routeName) =
        .ok (sessions, routeName, subject)) ∧
    ∀ (crypto : SessionCrypto ρ), crypto.Inverts → ∀ (r : ρ) (id : Bytes),
      newSessionID crypto r subject entries routeName = .ok id →
      ∀ (ord : IterOrder Bytes Bytes) (lastEvent currentRoute currentSubject : Bytes),
        (∃ s, sessionFromID crypto ord id lastEvent currentRoute currentSubject = .ok s) ↔
          currentRoute = routeName ∧ currentSubject = subject ∧
            (lastEvent = [] ∨ ∃ e, crypto.decrypt lastEvent = .ok e) := by
  have hparsed := backendSessionIDs_of_entries subject hroute hne hnames
  refine ⟨⟨_, recovers_setAll hdistinct, hparsed⟩, ?_⟩
  intro crypto hinverts r id hid ord lastEvent currentRoute currentSubject
  have hdecrypt := hinverts r _ id (Results.mapError_eq_ok.mp hid)
  unfold sessionFromID
  rw [hdecrypt]
  dsimp only
  rw [hparsed]
  dsimp only
  by_cases hr : routeName = currentRoute
  · subst hr
    by_cases hs : subject = currentSubject
    · subst hs
      by_cases he : lastEvent = []
      · simp [he]
      · rw [if_neg he]
        cases hevent : crypto.decrypt lastEvent with
        | error e => simp [he]
        | ok e => simp
    · simp [hs, Ne.symm hs]
  · simp [hr, Ne.symm hr]

/-! ### A session with two backends -/

/-- One byte of salt in front, base64 around it. -/
def saltedCrypto : SessionCrypto UInt8 where
  encrypt salt plain := .ok (Base64.encode (salt :: plain))
  decrypt cipher :=
    match Base64.decode cipher with
    | some (_ :: plain) => .ok plain
    | _ => .error "data too short"

theorem saltedCrypto_inverts : saltedCrypto.Inverts := by
  intro salt plain cipher h
  cases h
  unfold saltedCrypto
  dsimp only
  rw [decode_encode]

/-- A session id of two bytes with `@` as one of them, and a backend without a session. -/
def twoEntries : List CompositeSessionEntry :=
  [⟨[97], [64, 255], [], some ⟨some true, none, true, none, false⟩⟩, ⟨[98], [], [], none⟩]

theorem plainName_twoEntries : ∀ e ∈ twoEntries, PlainName e.backendName :=
  forall_mem_cons.mpr ⟨⟨by decide, by decide, by decide, by decide⟩,
    forall_mem_singleton.mpr ⟨by decide, by decide, by decide, by decide⟩⟩

/-- The subject `a@b` is accepted again, the subject `b` is not. -/
theorem issued_for_email_subject : ∃ id,
    newSessionID saltedCrypto 7 [97, 64, 98] twoEntries [114] = .ok id ∧
      (∃ s, sessionFromID saltedCrypto GoMap.storedOrder id [] [114] [97, 64, 98] = .ok s) ∧
      ¬ ∃ s, sessionFromID saltedCrypto GoMap.storedOrder id [] [114] [98] = .ok s := by
  have haccepted := (sessionFromID_issued (ρ := UInt8) [114] [97, 64, 98] twoEntries (by decide)
    (by decide) plainName_twoEntries (by decide)).2 saltedCrypto saltedCrypto_inverts 7 _ rfl GoMap.storedOrder []
  refine ⟨_, rfl, (haccepted _ _).mpr ⟨rfl, rfl, .inl rfl⟩, fun h => ?_⟩
  exact absurd ((haccepted _ _).mp h).2.1 (by decide)

end AgentRouter.MCPSession
