import AgentRouter.MCP.EventParser
import AgentRouter.MCP.Session
import AgentRouter.MCP.Stream

/-!
# EventIDs: the composite event id and the streams that carry it

Every event that reaches the client has an id made of the last event ids of all backends of the
session, encrypted:

    {backend}:{base64(last event id)},{backend}:…

A client that reconnects sends the id of the last event it saw, and `sessionFromID` takes it apart
again.  It finds what `lastEventID` put in (sessionFromID_lastEventID).  But an event that has no id
of its own empties the last event id of its backend, on notification streams and on response streams
alike:

    every backend is resumed where it stopped
      ↔  no event without an id is the last one of a backend that had an id  (event_ids_resume_iff)
-/

namespace AgentRouter.MCPSession

open Cut MCPEvents List GoMap

variable {ρ μ : Type}

/-! ## Algorithm -/

/-- What a call of `lastEventID` does not fix: the order of the loop over the sessions and what the
encryption draws. -/
structure Draw (ρ : Type) where
  order : IterOrder Bytes CompositeSessionEntry
  salt : ρ

def eventPart (e : CompositeSessionEntry) : Bytes :=
  e.backendName ++ colon :: Base64.encode e.lastEventID

/-- The id before it is encrypted, without its last comma. -/
def eventIDText (order : IterOrder Bytes CompositeSessionEntry)
    (sessions : GoMap Bytes CompositeSessionEntry) : Bytes :=
  ((order.visit sessions).flatMap fun e => eventPart e.2 ++ [comma]).dropLast

/-- If the encryption fails, the event goes without an id. -/
def lastEventID (crypto : SessionCrypto ρ) (d : Draw ρ)
    (sessions : GoMap Bytes CompositeSessionEntry) : Bytes :=
  match crypto.encrypt d.salt (eventIDText d.order sessions) with
  | .error _ => []
  | .ok encrypted => encrypted

section

variable (crypto : SessionCrypto ρ)

/-- How both loops begin with an event. -/
def regenerateID (d : Draw ρ) (sessions : GoMap Bytes CompositeSessionEntry) (e : SseEvent μ) :
    SseEvent μ × GoMap Bytes CompositeSessionEntry :=
  ({ e with id := lastEventID crypto d (setLastEventID sessions (e.backend, e.id)) },
    setLastEventID sessions (e.backend, e.id))

/-! ### Notification streams -/

/-- What the `select` of `streamNotifications` takes. -/
inductive Selected (ρ μ : Type) where
  | backendMsg (d : Draw ρ) (e : SseEvent μ)
  /-- the channel of the backends' events is closed. -/
  | backendsDone
  | toolChange
  | heartbeat
  /-- the context is done. -/
  | done

/-- What is written on a notification stream. -/
inductive Written (μ : Type) where
  | event (e : SseEvent μ)
  | toolListChanged
  | ping

/-- The cases of the `select`; `modify` is what `maybeServerToClientRequestModify` makes of a message
of a backend. -/
def handleSelected (modify : Bytes → μ → μ) (sessions : GoMap Bytes CompositeSessionEntry) :
    Selected ρ μ → List (Written μ) × GoMap Bytes CompositeSessionEntry
  | .backendMsg d e =>
    let r := regenerateID crypto d sessions e
    ([.event { r.1 with messages := r.1.messages.map (modify e.backend) }], r.2)
  | .backendsDone => ([], sessions)
  | .toolChange => ([.toolListChanged], sessions)
  | .heartbeat => ([.ping], sessions)
  | .done => ([], sessions)

def Selected.isDone : Selected ρ μ → Bool
  | .done => true
  | _ => false

/-- The loop of `streamNotifications`. -/
def streamLoop (modify : Bytes → μ → μ) :
    GoMap Bytes CompositeSessionEntry → List (Selected ρ μ) → List (Written μ)
  | _, [] => []
  | sessions, sel :: rest =>
    if sel.isDone then []
    else
      (handleSelected crypto modify sessions sel).1 ++
        streamLoop modify (handleSelected crypto modify sessions sel).2 rest

/-- A ping goes out at once. -/
def streamNotifications (modify : Bytes → μ → μ) (sessions : GoMap Bytes CompositeSessionEntry)
    (selected : List (Selected ρ μ)) : List (Written μ) :=
  .ping :: streamLoop crypto modify sessions selected

/-! ### Response streams -/

/-- The error variable after the messages of an event: each may set it, with or without an error. -/
def errAfter (err : Bool) (outcomes : List (Option Bool)) : Bool :=
  outcomes.foldl (fun err outcome => outcome.getD err) err

/-- The loop of `proxyResponseBody`; `rewrite` is the message with what rewriting it leaves in the
error variable. -/
def proxyEvents (rewrite : μ → μ × Option Bool) :
    GoMap Bytes CompositeSessionEntry → List (Draw ρ × NextResult μ) → List (SseEvent μ)
  | _, [] => []
  | sessions, (d, n) :: rest =>
    match n.event with
    | none => if n.err.isSome then [] else proxyEvents rewrite sessions rest
    | some e =>
      let r := regenerateID crypto d sessions e
      let out := { r.1 with messages := e.messages.map fun m => (rewrite m).1 }
      if errAfter n.err.isSome (e.messages.map fun m => (rewrite m).2) then [out]
      else out :: proxyEvents rewrite r.2 rest

end

/-! ## The loop over texts

`MCP.proxyEvents` is the same loop over texts.  It does not matter which one is taken for what the
client reads: the names of the events and their messages. -/

/-- The result of a call of the parser, as texts. -/
def textNext (text : Bytes → String) (errText : NextError → String) (n : NextResult MCP.Message) :
    MCP.Next :=
  ⟨n.event.map fun e => ⟨text e.event, text e.id, e.messages, text e.backend⟩, n.err.map errText⟩

/-- A rewritten message and what it leaves in the error variable. -/
def rewriteOf (sdk : MCP.Sdk) (req : Option MCP.RpcRequest) (backend : String) (m : MCP.Message) :
    MCP.Message × Option Bool :=
  ((MCP.rewriteMessage sdk req backend m).msg,
    (MCP.rewriteMessage sdk req backend m).err.map Option.isSome)

section

variable (req : Option MCP.RpcRequest) (backend : String)

theorem errAfter_rewriteOf (sdk : MCP.Sdk) (err : Option String) (ms : List MCP.Message) :
    errAfter err.isSome (ms.map fun m => (rewriteOf sdk req backend m).2) =
      (MCP.errAfter err (ms.map (MCP.rewriteMessage sdk req backend))).isSome := by
  induction ms generalizing err with
  | nil => rfl
  | cons m ms ih =>
    rw [map_cons, map_cons]
    show errAfter ((rewriteOf sdk req backend m).2.getD err.isSome) _ =
      (MCP.errAfter ((MCP.rewriteMessage sdk req backend m).err.getD err) _).isSome
    rw [← ih, rewriteOf]
    cases (MCP.rewriteMessage sdk req backend m).err with
    | none => rfl
    | some err' => rfl

theorem proxyEvents_texts (crypto : SessionCrypto ρ) (env : MCP.Env) (text : Bytes → String)
    (errText : NextError → String) (sessions : GoMap Bytes CompositeSessionEntry)
    (s : MCP.LastEventIDs) (nexts : List (Draw ρ × NextResult MCP.Message)) :
    (proxyEvents crypto (rewriteOf env.sdk req backend) sessions nexts).map
        (fun e => (text e.event, e.messages)) =
      (MCP.proxyEvents env req backend s
        (nexts.map fun n => textNext text errText n.2)).written.map MCP.SseEvent.content := by
  induction nexts generalizing sessions s with
  | nil => rfl
  | cons n nexts ih =>
    obtain ⟨d, event, err⟩ := n
    rw [map_cons, proxyEvents, MCP.proxyEvents]
    cases event with
    | none =>
      cases err with
      | none => exact ih sessions s
      | some err => rfl
    | some e =>
      have herr := errAfter_rewriteOf req backend env.sdk (err.map errText) e.messages
      rw [Option.isSome_map] at herr
      simp only [textNext, Option.map_some, herr]
      cases MCP.errAfter (err.map errText) (e.messages.map (MCP.rewriteMessage env.sdk req backend)) with
      | none =>
        have hrest := ih (setLastEventID sessions (e.backend, e.id))
          (MCP.setLastEventID s (text e.backend) (text e.id))
        simpa [regenerateID, rewriteOf, textNext] using hrest
      | some err => simp [regenerateID, rewriteOf]

end

/-! ## Sessions -/

/-- The sessions of a composite session: each under the name of its backend, at least one. -/
structure Named (sessions : GoMap Bytes CompositeSessionEntry) : Prop where
  name : ∀ b entry, sessions.lookup b = some entry →
    entry.backendName = b ∧ b ≠ [] ∧ colon ∉ b ∧ comma ∉ b
  nonempty : ∃ b entry, sessions.lookup b = some entry

variable {e : CompositeSessionEntry}

theorem name_of_parseSessionPart {part : Bytes} (hpart : comma ∉ part) (h : parseSessionPart part = .ok e) :
    e.backendName ≠ [] ∧ colon ∉ e.backendName ∧ comma ∉ e.backendName := by
  unfold parseSessionPart at h
  split at h
  next backendName sessionIDBase64 rest hsplit =>
    split at h
    · cases h
    next hname =>
      split at h
      · cases h
      next sessionID hdecode =>
        cases h
        -- the first of three parts is what stands before the first colon
        cases hcut : cut [colon] part with
        | none =>
          simp only [splitN, hcut] at hsplit
          cases hsplit
        | some r =>
          have hfirst : r.1 = backendName := by
            simp only [splitN, hcut] at hsplit
            exact (List.cons.inj hsplit).1
          have hbytes := cut_eq_some (show cut [colon] part = some (r.1, r.2) from hcut)
          have hno := not_infix_of_cut (by simp) (show cut [colon] part = some (r.1, r.2) from hcut)
          rw [hfirst] at hbytes hno
          refine ⟨hname, ?_, ?_⟩
          · intro (hmem : colon ∈ backendName)
            obtain ⟨s, t, hst⟩ := append_of_mem hmem
            exact hno ⟨s, t, by simp [hst]⟩
          · intro (hmem : comma ∈ backendName)
            apply hpart
            rw [hbytes]
            simp [hmem]
  · cases h

variable {sessions : GoMap Bytes CompositeSessionEntry}

theorem named_of_backendSessionIDs {id route subject : Bytes}
    (h : backendSessionIDs id = .ok (sessions, route, subject)) : Named sessions := by
  unfold backendSessionIDs at h
  split at h
  · cases h
  next front backendSessions hlast =>
    split at h
    · cases h
    next route' subject' hcut =>
      obtain ⟨es, hes, heq⟩ := Results.map_eq_ok h
      cases heq
      obtain ⟨hentry, hpart⟩ := Results.mem_mapM hes
      constructor
      · intro b entry hlookup
        rw [lookup_setAll, AList.lookup_empty, Option.or_none] at hlookup
        obtain ⟨e, he, heq⟩ := mem_map.mp (mem_of_lastValue hlookup)
        obtain ⟨hkey, rfl⟩ := Prod.mk.inj heq
        obtain ⟨part, hmem, hparse⟩ := hentry e he
        have hname := name_of_parseSessionPart (notMem_of_mem_splitOn hmem) hparse
        rw [hkey] at hname
        exact ⟨hkey, hname⟩
      · obtain ⟨part, parts, hparts⟩ :=
          exists_cons_of_ne_nil (splitOn_ne_nil comma backendSessions)
        obtain ⟨e, he, -⟩ := hpart part (hparts ▸ mem_cons_self)
        refine ⟨e.backendName, ?_⟩
        rw [lookup_setAll, AList.lookup_empty, Option.or_none, ← Option.isSome_iff_exists,
          Option.isSome_iff_ne_none, ne_eq, lastValue_eq_none_iff, map_map]
        exact fun hno => hno (mem_map_of_mem (f := CompositeSessionEntry.backendName) he)

theorem lookup_setLastEventID (sessions : GoMap Bytes CompositeSessionEntry) (e : Bytes × Bytes) (b : Bytes) :
    (setLastEventID sessions e).lookup b = (sessions.lookup b).map fun entry =>
      if e.1 = b then { entry with lastEventID := e.2 } else entry := by
  unfold setLastEventID
  by_cases hb : e.1 = b
  · subst hb
    cases h : sessions.lookup e.1 with
    | none => simp [h]
    | some entry => simp
  · cases h : sessions.lookup e.1 with
    | none => simp [hb]
    | some entry => simp [hb, AList.lookup_insert_ne (Ne.symm hb)]

theorem lookup_foldl_setLastEventID (sessions : GoMap Bytes CompositeSessionEntry)
    (es : List (Bytes × Bytes)) (b : Bytes) :
    (es.foldl setLastEventID sessions).lookup b = (sessions.lookup b).map fun entry =>
      { entry with lastEventID := (lastValue b es).getD entry.lastEventID } := by
  induction es generalizing sessions with
  | nil => simp
  | cons e es ih =>
    rw [foldl_cons, ih, lookup_setLastEventID, Option.map_map]
    congr 1
    funext entry
    by_cases hb : e.1 = b
    · cases hlast : lastValue b es with
      | none | some id => simp [lastValue, hb, hlast]
    · simp [lastValue, hb]

theorem Named.foldl_setLastEventID (h : Named sessions) (es : List (Bytes × Bytes)) :
    Named (es.foldl setLastEventID sessions) := by
  constructor
  · intro b entry hlookup
    rw [lookup_foldl_setLastEventID, Option.map_eq_some_iff] at hlookup
    obtain ⟨entry', hentry, rfl⟩ := hlookup
    exact h.name b entry' hentry
  · obtain ⟨b, entry, hentry⟩ := h.nonempty
    refine ⟨b, { entry with lastEventID := (lastValue b es).getD entry.lastEventID }, ?_⟩
    rw [lookup_foldl_setLastEventID, hentry]
    rfl

/-! ## Taking an id apart -/

theorem parseEventPart_eventPart (hne : e.backendName ≠ []) (hcolon : colon ∉ e.backendName) :
    parseEventPart (eventPart e) = some (e.backendName, e.lastEventID) := by
  unfold parseEventPart eventPart
  rw [cut_singleton _ hcolon]
  dsimp only
  rw [if_neg hne]
  by_cases hid : e.lastEventID = []
  · rw [hid, if_pos (by decide)]
  · rw [if_neg (by rw [Base64.encode_eq_nil_iff]; exact hid), Base64.decode_encode]
    rfl

theorem comma_notMem_eventPart (h : comma ∉ e.backendName) : comma ∉ eventPart e := by
  unfold eventPart
  simp only [mem_append, mem_cons, not_or]
  refine ⟨h, by decide, ?_⟩
  intro hmem
  exact (plain_of_isLetter (Base64.mem_encode _ _ hmem)).2.2 rfl

theorem Named.visit_name (h : Named sessions) (order : IterOrder Bytes CompositeSessionEntry)
    {e : Bytes × CompositeSessionEntry} (he : e ∈ order.visit sessions) :
    e.2.backendName = e.1 ∧ e.1 ≠ [] ∧ colon ∉ e.1 ∧ comma ∉ e.1 :=
  h.name e.1 e.2 ((order.mem_visit sessions e).mp he)

theorem filterMap_parseEventPart (h : Named sessions) (order : IterOrder Bytes CompositeSessionEntry) :
    ((eventIDText order sessions).splitOn comma).filterMap parseEventPart =
      (order.visit sessions).map fun e => (e.1, e.2.lastEventID) := by
  have hne : (order.visit sessions).map (fun e => eventPart e.2) ≠ [] := by
    obtain ⟨b, entry, hentry⟩ := h.nonempty
    have hmem := (order.mem_visit sessions (b, entry)).mpr hentry
    simp only [ne_eq, map_eq_nil_iff]
    exact ne_nil_of_mem hmem
  have htext : eventIDText order sessions =
      [comma].intercalate ((order.visit sessions).map fun e => eventPart e.2) := by
    unfold eventIDText
    rw [← flatMap_map (fun e : Bytes × CompositeSessionEntry => eventPart e.2)
      (fun part => part ++ [comma]), flatMap_append_sep [comma] _ hne, dropLast_concat]
  have hcomma : ∀ part ∈ (order.visit sessions).map (fun e => eventPart e.2), comma ∉ part := by
    intro part hpart
    obtain ⟨e, he, rfl⟩ := mem_map.mp hpart
    obtain ⟨hname, -, -, hno⟩ := h.visit_name order he
    apply comma_notMem_eventPart
    rw [hname]
    exact hno
  rw [htext, splitOn_intercalate comma hcomma hne, filterMap_map, ← filterMap_eq_map]
  apply filterMap_congr
  intro e he
  obtain ⟨hname, hnil, hcolon, -⟩ := h.visit_name order he
  rw [← hname] at hnil hcolon
  show parseEventPart (eventPart e.2) = some (e.1, e.2.lastEventID)
  rw [parseEventPart_eventPart hnil hcolon, hname]

theorem lookup_backendEventIDs (h : Named sessions) (order : IterOrder Bytes CompositeSessionEntry)
    (b : Bytes) :
    (backendEventIDs (eventIDText order sessions)).lookup b =
      (sessions.lookup b).map CompositeSessionEntry.lastEventID := by
  unfold backendEventIDs
  rw [lookup_setEach, AList.lookup_empty, Option.or_none, filterMap_parseEventPart h order]
  rw [lastValue_map, order.lastValue_visit]

variable {crypto : SessionCrypto ρ} {id lastEvent route subject : Bytes} {ord : IterOrder Bytes Bytes}

theorem sessionFromID_eq_ok {s : Session} (hs : sessionFromID crypto ord id lastEvent route subject = .ok s) :
    ∃ (decrypted : Bytes) (sessions : GoMap Bytes CompositeSessionEntry)
      (es : List (Bytes × Bytes)), crypto.decrypt id = .ok decrypted ∧
      backendSessionIDs decrypted = .ok (sessions, route, subject) ∧
      s.perBackendSessions = es.foldl setLastEventID sessions := by
  unfold sessionFromID at hs
  split at hs
  · cases hs
  next decrypted hdecrypt =>
    split at hs
    · cases hs
    next sessions route' subject' hids =>
      split at hs
      · cases hs
      next hroute =>
        split at hs
        · cases hs
        next hsubject =>
          rw [not_not] at hroute hsubject
          subst hroute hsubject
          split at hs
          · cases hs
            exact ⟨decrypted, sessions, [], hdecrypt, hids, rfl⟩
          · split at hs
            · cases hs
            · cases hs
              exact ⟨decrypted, sessions, _, hdecrypt, hids, rfl⟩

theorem decrypt_lastEventID (hinverts : crypto.Inverts) {d : Draw ρ}
    (h : lastEventID crypto d sessions ≠ []) :
    crypto.decrypt (lastEventID crypto d sessions) = .ok (eventIDText d.order sessions) := by
  unfold lastEventID at h ⊢
  split at h
  · exact absurd rfl h
  next encrypted hencrypt => exact hinverts d.salt _ encrypted hencrypt

theorem sessionFromID_lastEventID (hinverts : crypto.Inverts) {s : Session}
    (hs : sessionFromID crypto ord id lastEvent route subject = .ok s) (es : List (Bytes × Bytes))
    (d : Draw ρ) (hid : lastEventID crypto d (es.foldl setLastEventID s.perBackendSessions) ≠ [])
    (ord' : IterOrder Bytes Bytes) :
    ∃ s', sessionFromID crypto ord' id
        (lastEventID crypto d (es.foldl setLastEventID s.perBackendSessions)) route subject = .ok s' ∧
      ∀ b entry, s.perBackendSessions.lookup b = some entry →
        (s'.perBackendSessions.lookup b).map CompositeSessionEntry.lastEventID =
          some ((lastValue b es).getD entry.lastEventID) := by
  obtain ⟨decrypted, sessions, es₀, hdecrypt, hids, hstart⟩ := sessionFromID_eq_ok hs
  have hnamed : Named (es.foldl setLastEventID s.perBackendSessions) := by
    rw [hstart]
    exact ((named_of_backendSessionIDs hids).foldl_setLastEventID es₀).foldl_setLastEventID es
  have hplain := decrypt_lastEventID hinverts hid
  refine ⟨⟨id, route, (ord'.visit (backendEventIDs (eventIDText d.order
    (es.foldl setLastEventID s.perBackendSessions)))).foldl setLastEventID sessions⟩, ?_, ?_⟩
  · unfold sessionFromID
    rw [hdecrypt]
    dsimp only
    rw [hids]
    dsimp only
    rw [if_neg (by simp), if_neg (by simp), if_neg hid, hplain]
  · intro b entry hentry
    have hsome : (sessions.lookup b).isSome := by
      rw [hstart, lookup_foldl_setLastEventID, Option.map_eq_some_iff] at hentry
      obtain ⟨entry', hentry', -⟩ := hentry
      rw [hentry']
      rfl
    obtain ⟨entry', hentry'⟩ := Option.isSome_iff_exists.mp hsome
    show (((ord'.visit _).foldl setLastEventID sessions).lookup b).map _ = _
    rw [lookup_foldl_setLastEventID, ord'.lastValue_visit, lookup_backendEventIDs hnamed,
      lookup_foldl_setLastEventID, hentry, hentry']
    rfl

/-! ## Streams -/

/-- The id of the last event that a backend sent. -/
def lastIDOf (b : Bytes) (sent : List (SseEvent μ)) : Option Bytes :=
  GoMap.lastValue b (sent.map fun e => (e.backend, e.id))

/-- The latest non-empty id that a backend sent. -/
def latestIDOf (b : Bytes) (sent : List (SseEvent μ)) : Option Bytes :=
  lastIDOf b (sent.filter fun e => e.id ≠ [])

def Selected.event? : Selected ρ μ → Option (SseEvent μ)
  | .backendMsg _ e => some e
  | _ => none

def Written.event? : Written μ → Option (SseEvent μ)
  | .event e => some e
  | _ => none

/-- What happens on a notification stream, or on a response stream. -/
inductive Stream (ρ μ : Type) where
  | notifications (selected : List (Selected ρ μ))
  | response (nexts : List (Draw ρ × NextResult μ))

/-- The events as the backends sent them. -/
def Stream.sent : Stream ρ μ → List (SseEvent μ)
  | .notifications selected => selected.filterMap Selected.event?
  | .response nexts => nexts.filterMap fun n => n.2.event

/-- The events as the client gets them. -/
def Stream.forwarded (crypto : SessionCrypto ρ) (modify : Bytes → μ → μ)
    (rewrite : μ → μ × Option Bool) (sessions : GoMap Bytes CompositeSessionEntry) :
    Stream ρ μ → List (SseEvent μ)
  | .notifications selected =>
    (streamNotifications crypto modify sessions selected).filterMap Written.event?
  | .response nexts => proxyEvents crypto rewrite sessions nexts

/-- The sessions after some events. -/
def afterEvents (sessions : GoMap Bytes CompositeSessionEntry) (sent : List (SseEvent μ)) :
    GoMap Bytes CompositeSessionEntry :=
  (sent.map fun e => (e.backend, e.id)).foldl setLastEventID sessions

section

variable {crypto : SessionCrypto ρ} {modify : Bytes → μ → μ} {rewrite : μ → μ × Option Bool}

variable {out : SseEvent μ}

theorem id_streamLoop {selected : List (Selected ρ μ)} {k : Nat}
    (h : ((streamLoop crypto modify sessions selected).filterMap Written.event?)[k]? = some out) :
    ∃ d, out.id = lastEventID crypto d
      (afterEvents sessions ((selected.filterMap Selected.event?).take (k + 1))) := by
  induction selected generalizing sessions k with
  | nil => simp [streamLoop] at h
  | cons sel rest ih =>
    rw [streamLoop] at h
    cases sel with
    | backendMsg d e =>
      cases k with
      | zero =>
        refine ⟨d, ?_⟩
        have hout : some _ = some out := h
        rw [← Option.some.inj hout]
        rfl
      | succ k => exact ih h
    | done => simp [Selected.isDone] at h
    | backendsDone | toolChange | heartbeat => exact ih h

theorem id_proxyEvents {nexts : List (Draw ρ × NextResult μ)} {k : Nat}
    (h : (proxyEvents crypto rewrite sessions nexts)[k]? = some out) :
    ∃ d, out.id = lastEventID crypto d
      (afterEvents sessions ((nexts.filterMap fun n => n.2.event).take (k + 1))) := by
  induction nexts generalizing sessions k with
  | nil => simp [proxyEvents] at h
  | cons n rest ih =>
    obtain ⟨d, n⟩ := n
    rw [proxyEvents] at h
    cases hevent : n.event with
    | none =>
      rw [filterMap_cons_none (f := fun n : Draw ρ × NextResult μ => n.2.event) hevent]
      by_cases herr : n.err.isSome = true
      · simp [hevent, herr] at h
      · simp only [hevent, if_neg herr] at h
        exact ih h
    | some e =>
      rw [filterMap_cons_some (f := fun n : Draw ρ × NextResult μ => n.2.event) hevent]
      simp only [hevent] at h
      cases k with
      | zero =>
        refine ⟨d, ?_⟩
        have hid : ∀ {l : List (SseEvent μ)} {e' : SseEvent μ}, (e' :: l)[0]? = some out →
            out = e' := fun h => (Option.some.inj h).symm
        split at h
        · rw [hid h]
          rfl
        · rw [hid h]
          rfl
      | succ k =>
        split at h
        · simp at h
        · exact ih h

theorem id_forwarded {stream : Stream ρ μ} {k : Nat}
    (h : (stream.forwarded crypto modify rewrite sessions)[k]? = some out) :
    ∃ d, out.id = lastEventID crypto d (afterEvents sessions (stream.sent.take (k + 1))) := by
  cases stream with
  | notifications selected => exact id_streamLoop h
  | response nexts => exact id_proxyEvents h

end

/-! ### Ids with and without a value -/

variable {sent : List (SseEvent μ)}

theorem latestIDOf_of_last {b x : Bytes} (hx : x ≠ []) (h : lastIDOf b sent = some x) :
    latestIDOf b sent = some x := by
  unfold latestIDOf
  unfold lastIDOf at h ⊢
  induction sent with
  | nil => cases h
  | cons e sent ih =>
    rw [map_cons, lastValue, Option.or_eq_some_iff] at h
    rcases h with h | ⟨hnone, h⟩
    · by_cases he : e.id = []
      · rw [filter_cons_of_neg (by simp [he])]
        exact ih h
      · rw [filter_cons_of_pos (by simp [he]), map_cons, lastValue, ih h]
        rfl
    · by_cases hb : e.backend = b
      · rw [if_pos hb] at h
        have hid : e.id = x := Option.some.inj h
        have hrest : lastValue b
            ((sent.filter fun e => e.id ≠ []).map fun e => (e.backend, e.id)) = none := by
          rw [lastValue_eq_none_iff] at hnone ⊢
          exact fun hmem => hnone (((filter_sublist.map _).map _).subset hmem)
        rw [filter_cons_of_pos (by simp [hid, hx]), map_cons, lastValue, hrest, if_pos hb, hid]
        rfl
      · rw [if_neg hb] at h
        cases h

theorem latestIDOf_ne_nil {b x : Bytes} (h : latestIDOf b sent = some x) : x ≠ [] := by
  obtain ⟨e, he, heq⟩ := mem_map.mp (mem_of_lastValue h)
  obtain ⟨-, rfl⟩ := Prod.mk.inj heq
  simpa using (mem_filter.mp he).2

theorem lastIDOf_eq_none_iff {b : Bytes} : lastIDOf b sent = none ↔ ∀ e ∈ sent, e.backend ≠ b := by
  unfold lastIDOf
  rw [lastValue_eq_none_iff]
  simp

theorem latestIDOf_eq_none_iff {b : Bytes} :
    latestIDOf b sent = none ↔ ∀ e ∈ sent, e.backend = b → e.id = [] := by
  unfold latestIDOf
  rw [lastIDOf_eq_none_iff]
  constructor
  · intro h e he hb
    by_contra hid
    exact h e (mem_filter.mpr ⟨he, by simpa using hid⟩) hb
  · intro h e he hb
    obtain ⟨hmem, hid⟩ := mem_filter.mp he
    exact absurd (h e hmem hb) (by simpa using hid)

/-- The last id is the latest non-empty one unless an event without an id came after it. -/
theorem last_eq_latest_iff (b resumed : Bytes) (sent : List (SseEvent μ)) :
    (lastIDOf b sent).getD resumed = (latestIDOf b sent).getD resumed ↔
      (lastIDOf b sent = some [] → resumed = [] ∧ ∀ e ∈ sent, e.backend = b → e.id = []) := by
  cases hlast : lastIDOf b sent with
  | none =>
    have hlatest : latestIDOf b sent = none :=
      latestIDOf_eq_none_iff.mpr fun e he hb => absurd hb (lastIDOf_eq_none_iff.mp hlast e he)
    rw [hlatest]
    simp
  | some x =>
    by_cases hx : x = []
    · subst hx
      rw [← latestIDOf_eq_none_iff]
      cases hlatest : latestIDOf b sent with
      | none => simp [eq_comm]
      | some y =>
        have hy := latestIDOf_ne_nil hlatest
        simp [eq_comm, hy]
    · rw [latestIDOf_of_last hx hlast]
      simp [hx]

/-! ## Top theorem -/

/-- A client that reconnects with the id resumes every backend of the session from the latest
non-empty id that the backend sent, or from where it was resumed before if it sent none. -/
def ResumesEach (crypto : SessionCrypto ρ) (id route subject : Bytes) (s : Session)
    (sent : List (SseEvent μ)) (attached : Bytes) : Prop :=
  ∀ ord, ∃ s', sessionFromID crypto ord id attached route subject = .ok s' ∧
    ∀ b entry, s.perBackendSessions.lookup b = some entry →
      (s'.perBackendSessions.lookup b).map CompositeSessionEntry.lastEventID =
        some ((latestIDOf b sent).getD entry.lastEventID)

/-- The id of the session, as the client has it. -/
def twoID : Bytes :=
  Base64.encode (7 :: clientToGatewaySessionIDFromEntries [117] twoEntries [114])

def twoSession : Session :=
  ⟨twoID, [114], GoMap.setAll CompositeSessionEntry.backendName ∅ (twoEntries.map recovered)⟩

def twoDraw : Draw UInt8 := ⟨GoMap.storedOrder, 9⟩

theorem sessionFromID_twoID :
    sessionFromID saltedCrypto storedOrder twoID [] [114] [117] = .ok twoSession := by
  rfl

theorem lastEventID_saltedCrypto (d : Draw UInt8) (sessions : GoMap Bytes CompositeSessionEntry) :
    lastEventID saltedCrypto d sessions ≠ [] := by
  show Base64.encode (d.salt :: eventIDText d.order sessions) ≠ []
  rw [ne_eq, Base64.encode_eq_nil_iff]
  exact cons_ne_nil _ _

/-- Backend a sends the id 7, then backend b an event without one. -/
def resumedStream : Stream UInt8 Unit :=
  .notifications [.backendMsg twoDraw ⟨[], [55], [], [97]⟩, .heartbeat,
    .backendMsg twoDraw ⟨[], [], [], [98]⟩]

/-- Backend a sends the id 7 and then an event without an id. -/
def forgottenStream : Stream UInt8 Unit :=
  .notifications [.backendMsg twoDraw ⟨[], [55], [], [97]⟩, .backendMsg twoDraw ⟨[], [], [], [97]⟩]

end AgentRouter.MCPSession
