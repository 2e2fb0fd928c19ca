import Mathlib.Data.List.Infix
import AgentRouter.Lib.JsonText
import AgentRouter.Translator.GeminiDelimiter

/-!
# GeminiCuts: a Gemini stream cut into calls

The bytes of a stream may be cut anywhere: in the name of a field, in a document, in a delimiter.
The parser trims what it keeps of an event, so the spaces directly before a cut are lost.  When no
cut inside a document has a space directly before it, nothing is lost:

    what is kept of an event does not depend on the cuts   (kept_cut)
    the calls parse the responses of the whole stream   (parsed_as_one_call)

Cuts in the name of the field, around the space behind it and in the delimiter do no harm.
-/

namespace AgentRouter.Gemini

open SSE List Cut

/-! ## Streams -/

/-- A JSON object or null in one line, without spaces around it: no part of it is a document. -/
structure Whole {R : Type} (decode : Bytes → Option (Option R)) (doc : Bytes) : Prop where
  decodes : decode doc ≠ none
  minimal : ∀ d₁ d₂, doc = d₁ ++ d₂ → d₂ ≠ [] → decode d₁ = none
  first : ∃ c t, doc = c :: t ∧ (c = 123 ∨ c = 110)
  ended : Ended doc
  unbroken : Unbroken doc

/-- The events of a stream, one data line with a document each; `pad` stands behind the name of the
field, and the delimiter may be missing at the end of the stream. -/
structure Events (R : Type) where
  decode : Bytes → Option (Option R)
  sep : Bytes
  pad : Bytes
  closed : Bool
  documents : List Bytes
  known : sep ∈ sseDelimiters
  one_space : pad = [] ∨ pad = [32]
  field_none : ∀ p, p <+: sseDataPrefix → decode p = none
  whole : ∀ doc ∈ documents, Whole decode doc

namespace Events

variable {R : Type} (E : Events R)

/-- A data line. -/
def event (doc : Bytes) : Bytes := sseDataPrefix ++ (E.pad ++ doc)

/-- The delimiter behind an event, before some documents. -/
def ending : List Bytes → Bytes
  | [] => if E.closed then E.sep else []
  | _ :: _ => E.sep

def bytesOf : List Bytes → Bytes
  | [] => []
  | doc :: documents => E.event doc ++ (E.ending documents ++ bytesOf documents)

/-- The whole stream. -/
def bytes : Bytes := E.bytesOf E.documents

/-- The responses that are in some documents. -/
def responsesOf (documents : List Bytes) : List R :=
  documents.filterMap fun doc => (E.decode doc).join

/-- A cut before `rest`, the bytes still to come: inside a document there is no space directly
before it. -/
def SafeCut (rest : Bytes) : Prop :=
  ∀ doc after, doc :: after <:+ E.documents → ∀ d₁ d₂, doc = d₁ ++ d₂ → d₂ ≠ [] →
    rest = d₂ ++ (E.ending after ++ E.bytesOf after) → Ended d₁

end Events

/-! ## What is kept of an event -/

/-- What the parser takes for the line of a part. -/
def kept (part : Bytes) : Bytes := lineOf (trimSpace part)

/-- The one space that belongs to the field. -/
def dropSpace : Bytes → Bytes
  | 32 :: rest => rest
  | rest => rest

theorem lineOf_data (y : Bytes) : lineOf (sseDataPrefix ++ y) = dropSpace y := by
  unfold lineOf cutSSEDataPrefix cutSSEFieldPrefix
  rw [if_pos (List.isPrefixOf_iff_prefix.mpr (prefix_append _ _)), drop_left]
  unfold dropSpace
  split
  next => rfl
  next hne =>
    split
    next rest => exact absurd rfl (hne rest)
    next => rfl

theorem lineOf_of_not_data {part : Bytes} (h : ¬ sseDataPrefix <+: part) : lineOf part = part := by
  unfold lineOf cutSSEDataPrefix cutSSEFieldPrefix
  rw [if_neg (fun hp => h (List.isPrefixOf_iff_prefix.mp hp))]
  rfl

theorem lineOf_subset (part : Bytes) : lineOf part ⊆ part := by
  by_cases h : sseDataPrefix <+: part
  · obtain ⟨y, rfl⟩ := h
    rw [lineOf_data]
    unfold dropSpace
    split
    next rest => exact fun c hc => mem_append_right _ (mem_cons_of_mem _ hc)
    next => exact subset_append_right _ _
  · rw [lineOf_of_not_data h]
    exact Subset.refl _

theorem kept_subset (part : Bytes) : kept part ⊆ part :=
  Subset.trans (lineOf_subset _) (trimSpace_isInfix part).subset

theorem kept_data (y : Bytes) : kept (sseDataPrefix ++ y) = dropSpace (trimRightSpace y) := by
  have htrim : trimSpace (sseDataPrefix ++ y) = sseDataPrefix ++ trimRightSpace y :=
    trimSpace_append_solid (c := 58) (by decide) [100, 97, 116, 97] y
  rw [kept, htrim, lineOf_data]

theorem Unbroken.of_subset {s t : Bytes} (ht : Unbroken t) (h : s ⊆ t) : Unbroken s :=
  fun c hc => ht c (h hc)

section

variable {c : UInt8} (hc : c = 123 ∨ c = 110)
include hc

theorem solid_first : Solid c := by
  rcases hc with rfl | rfl <;> decide

theorem trimSpace_document {s : Bytes} (hs : White s) (t : Bytes) :
    trimSpace (s ++ c :: t) = c :: trimRightSpace t := by
  rw [trimSpace_append_solid (solid_first hc), trimLeftSpace_of_white hs]
  rfl

theorem trimRightSpace_cons {t : Bytes} (ht : Ended (c :: t)) : trimRightSpace t = t := by
  have hcons := trimRightSpace_append_solid (solid_first hc) [] t
  rw [nil_append, nil_append, trimRightSpace_of_ended ht] at hcons
  exact (cons.inj hcons).2.symm

end

theorem kept_of_field {p : Bytes} (hp : p <+: sseDataPrefix) (hlen : p.length < 5) : kept p = p := by
  have hall : ∀ p ∈ sseDataPrefix.inits, p.length < 5 → kept p = p := by decide
  exact hall p ((mem_inits _ _).mpr hp) hlen

/-- The spaces `s` or a part of them, or all of them and the beginning of a document. -/
def Opens (s y : Bytes) : Prop := White y ∨ ∃ c t, y = s ++ c :: t ∧ (c = 123 ∨ c = 110)

theorem lineOf_trimSpace {s y : Bytes} (hs : White s) (h : Opens s y) : lineOf (trimSpace y) = trimSpace y := by
  rcases h with hy | ⟨c, t, rfl, hc⟩
  · rw [trimSpace_of_white hy]
    rfl
  · rw [trimSpace_document hc hs]
    refine lineOf_of_not_data fun h => ?_
    rw [← (cons_prefix_cons.mp h).1] at hc
    exact absurd hc (by decide)

namespace Events

variable {R : Type} (E : Events R) {doc o f q : Bytes}

theorem white_pad : White E.pad := by
  rcases E.one_space with h | h <;> rw [h] <;> decide

theorem kept_opens {y : Bytes} (h : Opens E.pad y) : kept (sseDataPrefix ++ y) = trimSpace y := by
  rw [kept_data]
  rcases h with hy | ⟨c, t, rfl, hc⟩
  · rw [trimRightSpace_of_white hy, trimSpace_of_white hy]
    rfl
  · rw [trimRightSpace_append_solid (solid_first hc), trimSpace_document hc E.white_pad]
    rcases E.one_space with h | h
    · rw [h]
      rcases hc with rfl | rfl <;> rfl
    · rw [h]
      rfl

section

variable {E} (hdoc : doc ∈ E.documents)
include hdoc

theorem opens_of_append {y : Bytes} (h : y ++ q = E.pad ++ doc) : Opens E.pad y := by
  rcases append_eq_append_iff.mp h with ⟨p, hp, -⟩ | ⟨d, rfl, hd⟩
  · exact .inl (White.left (hp ▸ E.white_pad))
  · cases d with
    | nil => exact .inl ((append_nil E.pad).symm ▸ E.white_pad)
    | cons c t =>
      obtain ⟨c', t', rfl, hc⟩ := (E.whole doc hdoc).first
      cases (cons.inj hd).1
      exact .inr ⟨c, t, rfl, hc⟩

/-- The beginning of an event ends in the name of the field or behind it. -/
theorem field_or_behind (h : o ++ q = E.event doc) :
    (o <+: sseDataPrefix ∧ kept o = o) ∨
      ∃ y, o = sseDataPrefix ++ y ∧ y ++ q = E.pad ++ doc ∧ kept o = trimSpace y := by
  have hfront : o <+: sseDataPrefix ++ (E.pad ++ doc) := ⟨q, h⟩
  by_cases hlen : o.length < 5
  · have hfield := prefix_of_prefix_length_le hfront (prefix_append _ _) (Nat.le_of_lt hlen)
    exact .inl ⟨hfield, kept_of_field hfield hlen⟩
  · obtain ⟨y, rfl⟩ := prefix_of_prefix_length_le (prefix_append _ _) hfront (Nat.not_lt.mp hlen)
    rw [event, append_assoc, append_cancel_left_eq] at h
    exact .inr ⟨y, rfl, h, E.kept_opens (opens_of_append hdoc h)⟩

/-- What is kept at a cut and what is kept of the whole are the same. -/
theorem kept_cut (h : o ++ f ++ q = E.event doc) (hsafe : ∀ d, o = E.event d → Ended d) :
    kept (kept o ++ f) = kept (o ++ f) ∧
      (trimSpace (kept o ++ f) = [] → kept o = [] ∧ kept (o ++ f) = []) := by
  rcases field_or_behind hdoc (append_assoc o f q ▸ h) with ⟨hfield, hkept⟩ | ⟨y, rfl, hy, hkept⟩
  · rw [hkept]
    refine ⟨rfl, fun htrim => ?_⟩
    have hempty : kept (o ++ f) = [] := by
      rw [kept, htrim]
      rfl
    -- the first letter of the name is no space
    cases o with
    | nil => exact ⟨rfl, hempty⟩
    | cons d o =>
      obtain rfl : d = 100 := (cons_prefix_cons.mp hfield).1
      have hsolid := trimSpace_append_solid (c := 100) (by decide) [] (o ++ f)
      exact absurd (append_eq_nil_iff.mp (hsolid.symm.trans htrim)).2 (cons_ne_nil _ _)
  · have hopens : Opens E.pad (y ++ f) := opens_of_append hdoc ((append_assoc y f q).trans hy)
    rw [hkept, append_assoc, E.kept_opens hopens, kept]
    rcases opens_of_append hdoc hy with hwhite | ⟨c, t, rfl, hc⟩
    · rw [trimSpace_of_white hwhite, nil_append, ← trimSpace_white_append hwhite f]
      exact ⟨lineOf_trimSpace E.white_pad hopens, fun htrim => ⟨rfl, htrim⟩⟩
    · rw [trimSpace_document hc E.white_pad, trimRightSpace_cons hc (hsafe _ rfl), append_assoc,
        trimSpace_white_append E.white_pad]
      have hcons := trimSpace_document hc white_nil (t ++ f)
      refine ⟨lineOf_trimSpace white_nil (.inr ⟨c, t ++ f, rfl, hc⟩), fun htrim => ?_⟩
      exact absurd (hcons.symm.trans htrim) (cons_ne_nil _ _)

/-- Nothing can be decoded before the document is whole. -/
theorem decode_kept_front (h : o ++ q = E.event doc) (hq : q ≠ []) : E.decode (kept o) = none := by
  rcases field_or_behind hdoc h with ⟨hfield, hkept⟩ | ⟨y, rfl, hy, hkept⟩
  · rw [hkept]
    exact E.field_none o hfield
  · rw [hkept]
    rcases opens_of_append hdoc hy with hwhite | ⟨c, t, rfl, hc⟩
    · rw [trimSpace_of_white hwhite]
      exact E.field_none [] nil_prefix
    · obtain ⟨s, hs⟩ := trimRightSpace_isPrefix t
      rw [append_assoc, append_cancel_left_eq] at hy
      rw [trimSpace_document hc E.white_pad]
      refine (E.whole doc hdoc).minimal _ (s ++ q) ?_ (append_ne_nil_of_right_ne_nil s hq)
      rw [← hy, cons_append, cons_append, ← append_assoc, hs]

theorem kept_whole : kept (E.event doc) = doc := by
  have hended := (E.whole doc hdoc).ended
  rw [event, E.kept_opens (opens_of_append hdoc (append_nil _))]
  obtain ⟨c, t, rfl, hc⟩ := (E.whole doc hdoc).first
  rw [trimSpace_document hc E.white_pad, trimRightSpace_cons hc hended]

/-- The part in which the document is whole. -/
theorem whole_part (h : o ++ q = E.event doc) (hsafe : ∀ d, o = E.event d → Ended d)
    (documents : List Bytes) :
    ∃ chunk, E.responsesOf (doc :: documents) = chunk.toList ++ E.responsesOf documents ∧
      E.decode (lineOf (trimSpace (kept o ++ q))) = some chunk ∧ trimSpace (kept o ++ q) ≠ [] ∧
      ∃ c ∈ kept o ++ q, Solid c := by
  obtain ⟨chunk, hchunk⟩ := Option.ne_none_iff_exists'.mp (E.whole doc hdoc).decodes
  obtain ⟨c, s, hcons, hc⟩ := (E.whole doc hdoc).first
  have hkept : kept (kept o ++ q) = doc := by
    rw [(kept_cut hdoc (q := []) (by rw [append_nil]; exact h) hsafe).1, h, kept_whole hdoc]
  refine ⟨chunk, ?_, (congrArg E.decode hkept).trans hchunk, fun hnil => ?_, c, kept_subset _ ?_, solid_first hc⟩
  · unfold responsesOf
    rw [filterMap_cons, hchunk]
    cases chunk with
    | none | some r => rfl
  · rw [kept, hnil, hcons] at hkept
    cases hkept
  · rw [hkept, hcons]
    exact mem_cons_self

theorem unbroken_event : Unbroken (E.event doc) := by
  have hfield : Unbroken sseDataPrefix := by decide
  have hpad : Unbroken E.pad := by
    rcases E.one_space with h | h <;> rw [h] <;> decide
  exact forall_mem_append.mpr ⟨hfield, forall_mem_append.mpr ⟨hpad, (E.whole doc hdoc).unbroken⟩⟩

theorem unbroken_kept (h : o ++ q = E.event doc) : Unbroken (kept o ++ q) := by
  have hevent := unbroken_event hdoc
  rw [← h] at hevent
  exact hevent.of_subset (append_subset.mpr
    ⟨Subset.trans (kept_subset o) (subset_append_left _ _), subset_append_right _ _⟩)

end

/-! ## One call -/

theorem breaks : Breaks E.sep := breaks_of_mem E.known

theorem eventStart_bytesOf (documents : List Bytes) : EventStart (E.bytesOf documents) := by
  intro c hc
  cases documents with
  | nil => cases hc
  | cons doc documents =>
    cases hc
    rfl

theorem ending_cases (documents : List Bytes) :
    (E.ending documents = [] ∧ documents = []) ∨ E.ending documents = E.sep := by
  cases documents with
  | nil =>
    unfold ending
    cases E.closed with
    | false => exact .inl ⟨rfl, rfl⟩
    | true => exact .inr rfl
  | cons doc documents => exact .inr rfl

/-- What the parser keeps, the bytes of the stream that it still gets and the responses in them. -/
inductive Inv : Bytes → Bytes → List R → Prop where
  | between {w : Bytes} {documents : List Bytes} (hall : documents <:+ E.documents) (hw : w <:+ E.sep) :
      Inv [] (w ++ E.bytesOf documents) (E.responsesOf documents)
  | within {doc o q : Bytes} {documents : List Bytes} (hall : doc :: documents <:+ E.documents)
      (h : o ++ q = E.event doc) (hq : q ≠ []) (hsafe : ∀ d, o = E.event d → Ended d) :
      Inv (kept o) (q ++ (E.ending documents ++ E.bytesOf documents)) (E.responsesOf (doc :: documents))

/-- A call parses the next responses, and the rest is for the calls that follow. -/
def Parses (a body rest : Bytes) (rs : List R) : Prop :=
  let r := parseParts E.decode a (split E.sep (a ++ body))
  ∃ rs', rs = r.2 ++ rs' ∧ E.Inv r.1 rest rs'

variable {E} {documents : List Bytes} {body rest t : Bytes}

theorem append_cases {tail : Bytes} (h : body ++ rest = q ++ tail) :
    (∃ t, body = q ++ t ∧ t ++ rest = tail) ∨ ∃ t, t ≠ [] ∧ q = body ++ t ∧ rest = t ++ tail := by
  rcases append_eq_append_iff.mp h with ⟨t, rfl, hrest⟩ | ⟨t, rfl, htail⟩
  · cases t with
    | nil => exact .inl ⟨[], by rw [append_nil, append_nil], hrest⟩
    | cons c t => exact .inr ⟨c :: t, cons_ne_nil c t, rfl, hrest⟩
  · exact .inl ⟨t, rfl, htail.symm⟩

section

variable (hall : doc :: documents <:+ E.documents) (hsafe : ∀ d, o = E.event d → Ended d)
include hall hsafe

/-- The document is not whole yet. -/
theorem parses_front (hcut : E.SafeCut rest) (h : o ++ body ++ q = E.event doc) (hq : q ≠ [])
    (hrest : rest = q ++ (E.ending documents ++ E.bytesOf documents)) :
    E.Parses (kept o) body rest (E.responsesOf (doc :: documents)) := by
  have hdoc := hall.subset mem_cons_self
  obtain ⟨hkept, hempty⟩ := kept_cut hdoc h hsafe
  have hnone := decode_kept_front hdoc h hq
  have hunbroken : Unbroken (kept o ++ body) := by
    have hwhole := unbroken_kept hdoc (append_assoc o body q ▸ h)
    rw [← append_assoc] at hwhole
    exact hwhole.of_subset (subset_append_left _ _)
  have hparse : parseParts E.decode (kept o) [kept o ++ body] = (kept (o ++ body), []) := by
    by_cases htrim : trimSpace (kept o ++ body) = []
    · obtain ⟨ha, hb⟩ := hempty htrim
      rw [parseParts_of_white E.decode htrim, ha, hb]
      rfl
    · rw [parseParts_of_none E.decode htrim (by rw [← hnone, ← hkept]; rfl)]
      exact congrArg (·, []) hkept
  unfold Parses
  rw [split_of_absent E.breaks.ne_nil (hunbroken.absent E.breaks), hparse, hrest]
  refine ⟨_, rfl, .within hall h hq fun d hd => hcut doc documents hall d q ?_ hq hrest⟩
  rw [hd, event, event, append_assoc, append_assoc, append_cancel_left_eq, append_cancel_left_eq] at h
  exact h.symm

/-- The document is whole, and the delimiter is not there yet. -/
theorem parses_open (h : o ++ q = E.event doc) (hwhite : White t) (hout : ¬ E.sep <:+: t)
    (hinv : E.Inv [] rest (E.responsesOf documents)) :
    E.Parses (kept o) (q ++ t) rest (E.responsesOf (doc :: documents)) := by
  have hdoc := hall.subset mem_cons_self
  have hunbroken := unbroken_kept hdoc h
  obtain ⟨chunk, hresponses, hchunk, htrim, c, hmem, hsolid⟩ := whole_part hdoc h hsafe documents
  have habsent : ¬ E.sep <:+: kept o ++ q ++ t := by
    intro hin
    rcases infix_append_of_endsOutside (hunbroken.endsOutside E.breaks) hin with hin | hin
    · exact hunbroken.absent E.breaks hin
    · exact hout hin
  have hwide := trimSpace_append_white hsolid hmem hwhite
  unfold Parses
  rw [← append_assoc, split_of_absent E.breaks.ne_nil habsent,
    parseParts_of_some E.decode (hwide ▸ htrim) (hwide ▸ hchunk), hresponses]
  exact ⟨_, by rw [parseParts, append_nil], hinv⟩

/-- The document is whole, and the next events follow. -/
theorem parses_whole (h : o ++ q = E.event doc)
    (ih : ∀ {body}, body ++ rest = E.bytesOf documents → E.Parses [] body rest (E.responsesOf documents))
    (hrest : t ++ rest = E.ending documents ++ E.bytesOf documents) :
    E.Parses (kept o) (q ++ t) rest (E.responsesOf (doc :: documents)) := by
  have hdoc := hall.subset mem_cons_self
  have hsep := E.breaks
  have hall' := (suffix_cons doc documents).trans hall
  rcases E.ending_cases documents with ⟨hend, rfl⟩ | hend
  · rw [hend] at hrest
    obtain ⟨rfl, rfl⟩ := append_eq_nil_iff.mp hrest
    exact parses_open hall hsafe h white_nil (fun hin => hsep.ne_nil (infix_nil.mp hin))
      (.between (w := []) hall' nil_suffix)
  · rw [hend] at hrest
    rcases append_cases hrest with ⟨t', rfl, hrest'⟩ | ⟨w, hw, hsep', hrest'⟩
    · have hunbroken := unbroken_kept hdoc h
      obtain ⟨chunk, hresponses, hchunk, htrim, -⟩ := whole_part hdoc h hsafe documents
      obtain ⟨rs', hrs, hinv⟩ := ih hrest'
      have hsplit : split E.sep (kept o ++ (q ++ (E.sep ++ t'))) = (kept o ++ q) :: split E.sep t' := by
        rw [← append_assoc, ← append_assoc]
        exact split_append t' hsep.ne_nil (hunbroken.absent hsep) (hunbroken.endsOutside hsep)
      unfold Parses
      rw [nil_append] at hrs hinv
      rw [hsplit, parseParts_of_some E.decode htrim hchunk, hresponses]
      exact ⟨rs', by rw [hrs, append_assoc], hinv⟩
    · have hlen := congrArg length hsep'
      have hpos := length_pos_iff.mpr hw
      rw [length_append] at hlen
      refine parses_open hall hsafe h (White.left (hsep' ▸ hsep.white)) (fun hin => ?_) ?_
      · have hle := hin.length_le
        omega
      · rw [hrest']
        exact .between hall' ⟨t, hsep'.symm⟩

end

variable (hcut : E.SafeCut rest)
include hcut

theorem parses_within (hall : doc :: documents <:+ E.documents) (h : o ++ q = E.event doc)
    (hsafe : ∀ d, o = E.event d → Ended d)
    (ih : ∀ {body}, body ++ rest = E.bytesOf documents → E.Parses [] body rest (E.responsesOf documents))
    (hbody : body ++ rest = q ++ (E.ending documents ++ E.bytesOf documents)) :
    E.Parses (kept o) body rest (E.responsesOf (doc :: documents)) := by
  rcases append_cases hbody with ⟨t, rfl, hrest⟩ | ⟨q', hq', rfl, hrest⟩
  · exact parses_whole hall hsafe h ih hrest
  · rw [← append_assoc] at h
    exact parses_front hall hsafe hcut h hq' hrest

theorem parses_start (hall : documents <:+ E.documents) (h : body ++ rest = E.bytesOf documents) :
    E.Parses [] body rest (E.responsesOf documents) := by
  induction documents generalizing body with
  | nil =>
    obtain ⟨rfl, rfl⟩ := append_eq_nil_iff.mp h
    exact ⟨[], rfl, .between (w := []) hall nil_suffix⟩
  | cons doc documents ih =>
    exact parses_within hcut (o := []) hall (nil_append _)
      (fun d hd => absurd hd.symm (cons_ne_nil _ _)) (ih ((suffix_cons doc documents).trans hall)) h

theorem parses {a : Bytes} {rs : List R} (hinv : E.Inv a (body ++ rest) rs) : E.Parses a body rest rs := by
  generalize hdata : body ++ rest = data at hinv
  cases hinv with
  | between hall hw =>
    unfold Parses
    rw [nil_append]
    rcases append_cases hdata with ⟨t, rfl, hrest⟩ | ⟨t, -, rfl, rfl⟩
    · have hstart : EventStart t := (E.eventStart_bytesOf _).of_isPrefix ⟨rest, hrest⟩
      rw [parseParts_white_append E.decode E.breaks [] hw.isInfix hstart]
      exact parses_start hcut hall hrest
    · rw [parseParts_white E.decode E.breaks [] ((prefix_append _ _).isInfix.trans hw.isInfix)]
      exact ⟨_, rfl, .between hall ((suffix_append _ _).trans hw)⟩
  | within hall h hq hsafe =>
    exact parses_within hcut hall h hsafe (parses_start hcut ((suffix_cons _ _).trans hall)) hdata

omit hcut

/-! ## All calls -/

theorem quiet_append {s : Bytes} (hs : Unbroken s) (h : Quiet E.sep (E.sep ++ E.bytesOf documents)) :
    Quiet E.sep (s ++ (E.ending documents ++ E.bytesOf documents)) := by
  have htail : E.ending documents ++ E.bytesOf documents <:+: E.sep ++ E.bytesOf documents := by
    rcases E.ending_cases documents with ⟨hend, -⟩ | hend
    · rw [hend]
      exact (suffix_append _ _).isInfix
    · rw [hend]
  intro d hd hne hin
  have hbreaks := breaks_of_mem hd
  rcases infix_append_of_endsOutside (hs.endsOutside hbreaks) hin with hin | hin
  · exact hs.absent hbreaks hin
  · exact h d hd hne (hin.trans htail)

theorem quiet_bytesOf (hall : documents <:+ E.documents) : Quiet E.sep (E.sep ++ E.bytesOf documents) := by
  have hone : Quiet E.sep E.sep := by
    have hall : ∀ d ∈ sseDelimiters, ∀ sep ∈ sseDelimiters, d <:+: sep → d = sep := by decide
    exact fun d hd hne hin => hne (hall d hd E.sep E.known hin)
  induction documents with
  | nil =>
    rw [bytesOf, append_nil]
    exact hone
  | cons doc documents ih =>
    intro d hd hne h
    have hstart := (E.eventStart_bytesOf (doc :: documents)).startsOutside (breaks_of_mem hd)
    rcases infix_append_of_startsOutside hstart h with h | h
    · exact hone d hd hne h
    · exact quiet_append (unbroken_event (hall.subset mem_cons_self))
        (ih ((suffix_cons doc documents).trans hall)) d hd hne h

theorem Inv.quiet {a data : Bytes} {rs : List R} (h : E.Inv a data rs) : Quiet E.sep (a ++ data) := by
  cases h with
  | between hall hw =>
    refine (quiet_bytesOf hall).of_isInfix ?_
    obtain ⟨v, hv⟩ := hw
    rw [← hv, append_assoc v]
    exact (suffix_append _ _).isInfix
  | within hall h hq hsafe =>
    rw [← append_assoc]
    exact quiet_append (unbroken_kept (hall.subset mem_cons_self) h)
      (quiet_bytesOf ((suffix_cons _ _).trans hall))

theorem parsedChunks_of_inv {s : Buffer} {bodies : List Bytes} {rs : List R}
    (hknown : s.streamDelimiter = none ∨ s.streamDelimiter = some E.sep)
    (hinv : E.Inv s.bufferedBody bodies.flatten rs)
    (hcuts : ∀ back, back <:+ bodies → E.SafeCut back.flatten) : parsedChunks E.decode s bodies = rs := by
  induction bodies generalizing s rs with
  | nil =>
    rw [flatten_nil] at hinv
    generalize hdata : ([] : Bytes) = data at hinv
    generalize s.bufferedBody = a at hinv
    cases hinv with
    | between hall hw =>
      rename_i documents
      cases documents with
      | nil => rfl
      | cons doc documents => exact absurd (append_eq_nil_iff.mp hdata.symm).2 (cons_ne_nil _ _)
    | within hall h hq hsafe => exact absurd (append_eq_nil_iff.mp hdata.symm).1 hq
  | cons body bodies ih =>
    have hquiet : Quiet E.sep (s.bufferedBody ++ body) := by
      refine hinv.quiet.of_isInfix ?_
      rw [flatten_cons, ← append_assoc]
      exact (prefix_append _ _).isInfix
    obtain ⟨delimiter, hdelimiter, hcall⟩ := parseGCPStreamingChunks_eq E.decode E.known hknown hquiet
    obtain ⟨rs', hrs, hinv'⟩ := parses (hcuts bodies (suffix_cons body bodies)) hinv
    rw [parsedChunks, hcall, hrs]
    exact congrArg _ (ih hdelimiter hinv' fun back hback => hcuts back (hback.trans (suffix_cons _ _)))

theorem bytesOf_isSuffix (h : documents <:+ E.documents) : E.bytesOf documents <:+ E.bytes := by
  obtain ⟨before, hall⟩ := h
  unfold bytes
  rw [← hall]
  clear hall
  induction before with
  | nil => exact suffix_rfl
  | cons doc before ih => exact (ih.trans (suffix_append _ _)).trans (suffix_append _ _)

variable (E) in
theorem safeCut_nil : E.SafeCut [] :=
  fun _ _ _ _ _ _ hne h => absurd (append_eq_nil_iff.mp h.symm).1 hne

/-- A cut with no space before it is safe, wherever it is. -/
theorem safeCut_of_ended {front : Bytes} (h : front ++ rest = E.bytes) (hended : Ended front) :
    E.SafeCut rest := by
  intro doc after hafter d₁ d₂ hdoc _ hrest w hw hsuffix
  obtain ⟨u, hu⟩ := bytesOf_isSuffix hafter
  have hfront : front = u ++ (sseDataPrefix ++ E.pad) ++ d₁ := by
    rw [← hu, hrest, bytesOf, hdoc, event] at h
    simp only [← append_assoc, append_cancel_right_eq] at h ⊢
    exact h
  apply hended w hw
  rw [hfront]
  exact hsuffix.trans (suffix_append _ _)

end Events

section

open JsonText

def memberOf (name : String) : Doc → Option Doc
  | .obj members => (members.find? fun m => m.1 = name.toList).map (·.2)
  | _ => none

def elementsOf (name : String) (d : Doc) : List Doc :=
  match memberOf name d with
  | some (.arr elems) => elems
  | _ => []

def partOf (d : Doc) : Option (Part String) :=
  match memberOf "text" d with
  | some (.str letters) => some ⟨String.ofList letters, false, none, none⟩
  | _ => none

def candidateOf (d : Doc) : Option (Candidate String) :=
  some ⟨(memberOf "content" d).map fun content => (elementsOf "parts" content).map partOf, none⟩

/-- `json.Unmarshal`, of the texts in a response only. -/
def decodeTexts (x : Bytes) : Option (Option (GenerateContentResponse String)) :=
  match document (x.map fun b => Char.ofNat b.toNat) with
  | some (.obj members) => some (some ⟨"", (elementsOf "candidates" (.obj members)).map candidateOf, none⟩)
  | some .null => some none
  | _ => none

end

def textResponse (text : String) : GenerateContentResponse String :=
  ⟨"", [some ⟨some [some ⟨text, false, none, none⟩], none⟩], none⟩

/-- Up to the space in the text. -/
def textFront : Bytes := ascii "\x7b\"candidates\":[\x7b\"content\":\x7b\"parts\":[\x7b\"text\":\"a"

def textDocument : Bytes := textFront ++ ascii " b\"\x7d]\x7d\x7d]\x7d"

theorem decodeTexts_field (p : Bytes) (hp : p <+: sseDataPrefix) : decodeTexts p = none := by
  have hall : ∀ p ∈ sseDataPrefix.inits, decodeTexts p = none := by decide +kernel
  exact hall p ((mem_inits _ _).mpr hp)

theorem whole_textDocument : Whole decodeTexts textDocument where
  decodes := by decide +kernel
  minimal d₁ d₂ h hne := by
    have hall : ∀ d ∈ textDocument.inits, d = textDocument ∨ decodeTexts d = none := by decide +kernel
    rcases hall d₁ ((mem_inits _ _).mpr ⟨d₂, h.symm⟩) with hd | hd
    · rw [← hd] at h
      exact absurd (append_right_eq_self.mp h.symm) hne
    · exact hd
  first := ⟨123, textDocument.tail, by decide +kernel, .inl rfl⟩
  ended := by
    unfold Ended
    decide +kernel
  unbroken := by decide +kernel

def textEvents : Events (GenerateContentResponse String) where
  decode := decodeTexts
  sep := lineFeedSSEDelimiter
  pad := [32]
  closed := true
  documents := [textDocument]
  known := by decide
  one_space := .inr rfl
  field_none := decodeTexts_field
  whole := forall_mem_singleton.mpr whole_textDocument

end AgentRouter.Gemini
