import AgentRouter.Translator.GeminiStream

/-!
# GeminiDelimiter: the delimiter between the events

The delimiter is looked for until it has been seen once.  In a stream with no other delimiter it
is found as soon as there is one to split at:

    every call takes its data apart at the delimiter, whether it knows it or not
      (parseGCPStreamingChunks_eq)

A delimiter, or a part of one, before an event is not seen (parseParts_white_append).
-/

namespace AgentRouter.Gemini

open SSE List Cut

/-! ## Line breaks -/

/-- A separator of line breaks. -/
structure Breaks (sep : Bytes) : Prop where
  ne_nil : sep ≠ []
  mem : ∀ c ∈ sep, c = 10 ∨ c = 13

theorem Breaks.white {sep : Bytes} (h : Breaks sep) : White sep := by
  intro c hc
  rcases h.mem c hc with rfl | rfl <;> decide

/-- A text without line breaks. -/
def Unbroken (s : Bytes) : Prop := ∀ c ∈ s, ¬ (c = 10 ∨ c = 13)

instance (s : Bytes) : Decidable (Unbroken s) := List.decidableBAll _ s

variable {sep s : Bytes}

theorem Unbroken.absent (hsep : Breaks sep) (hs : Unbroken s) : ¬ sep <:+: s := by
  intro h
  obtain ⟨c, sep, rfl⟩ := exists_cons_of_ne_nil hsep.ne_nil
  exact hs c (h.subset mem_cons_self) (hsep.mem c mem_cons_self)

theorem Unbroken.endsOutside (hsep : Breaks sep) (hs : Unbroken s) : Cut.EndsOutside sep s :=
  fun c hc hmem => hs c (mem_of_getLast? hc) (hsep.mem c hmem)

/-- Nothing, or an event from its start. -/
def EventStart (s : Bytes) : Prop := ∀ c, s.head? = some c → c = 100

theorem EventStart.of_isPrefix {s t : Bytes} (ht : EventStart t) (h : s <+: t) : EventStart s := by
  intro c hc
  obtain ⟨r, rfl⟩ := h
  apply ht c
  rw [head?_append, hc]
  rfl

theorem EventStart.startsOutside (hsep : Breaks sep) (hs : EventStart s) : Cut.StartsOutside sep s := by
  intro c hc hmem
  obtain rfl := hs c hc
  exact absurd (hsep.mem _ hmem) (by decide)

section

variable {R : Type} (decode : Bytes → Option (Option R)) {sep : Bytes} (hsep : Breaks sep)

theorem parseParts_congr {part part' : Bytes} (h : trimSpace part = trimSpace part') (a : Bytes)
    (parts : List Bytes) :
    parseParts decode a (part :: parts) = parseParts decode a (part' :: parts) := by
  rw [parseParts, parseParts, h]

variable (a : Bytes)

include hsep

theorem parseParts_white_append {w b : Bytes} (hw : w <:+: sep) (hb : EventStart b) :
    parseParts decode a (split sep (w ++ b)) = parseParts decode a (split sep b) := by
  have hwhite : White w := fun c hc => hsep.white c (hw.subset hc)
  by_cases hws : w = sep
  · -- the part before the delimiter is empty
    subst hws
    have hsplit : split w (w ++ b) = [] :: split w b :=
      split_append b hsep.ne_nil (fun h => hsep.ne_nil (infix_nil.mp h)) fun _ hc => nomatch hc
    rw [hsplit, parseParts_of_white decode rfl]
  · have hno : ¬ sep <:+: w := fun h => hws (hw.eq_of_length (Nat.le_antisymm hw.length_le h.length_le))
    cases hcut : Cut.cut sep b with
    | none =>
      have hnob := (cut_eq_none_iff hsep.ne_nil).mp hcut
      have hnone : ¬ sep <:+: w ++ b := by
        intro h
        rcases infix_append_of_startsOutside (hb.startsOutside hsep) h with h | h
        · exact hno h
        · exact hnob h
      rw [split_of_absent hsep.ne_nil hnone, split_of_absent hsep.ne_nil hnob]
      exact parseParts_congr decode (trimSpace_white_append hwhite b) a []
    | some r =>
      obtain ⟨p, t⟩ := r
      obtain ⟨heq, hfirst⟩ := (cut_eq_some_iff hsep.ne_nil).mp hcut
      rw [heq] at hb
      have hdrop := (prefix_append_right_inj p).mpr <| dropLast_prefix sep
      have hstart := hb.of_isPrefix (hdrop.trans (prefix_append _ t))
      have hwhole : Cut.cut sep (w ++ b) = some (w ++ p, t) := by
        rw [cut_eq_some_iff hsep.ne_nil, heq]
        refine ⟨by simp only [append_assoc], ?_⟩
        rw [append_assoc]
        intro h
        rcases infix_append_of_startsOutside (hstart.startsOutside hsep) h with h | h
        · exact hno h
        · exact hfirst h
      rw [split_of_cut hsep.ne_nil hwhole, split_of_cut hsep.ne_nil hcut]
      exact parseParts_congr decode (trimSpace_white_append hwhite p) a (split sep t)

theorem parseParts_white {w : Bytes} (hw : w <:+: sep) : parseParts decode a (split sep w) = (a, []) := by
  have h := parseParts_white_append decode hsep a hw (b := []) fun _ hc => nomatch hc
  rw [append_nil] at h
  rw [h]
  exact parseParts_of_white decode rfl

end

/-! ## The delimiter is found -/

def sseDelimiters : List Bytes :=
  [carriageReturnLineFeedSSEDelimiter, lineFeedSSEDelimiter, carriageReturnSSEDelimiter]

theorem breaks_of_mem {sep : Bytes} (h : sep ∈ sseDelimiters) : Breaks sep := by
  have hall : ∀ sep ∈ sseDelimiters, sep ≠ [] ∧ (sep.all fun c => c = 10 ∨ c = 13) = true := by
    decide
  exact ⟨(hall sep h).1, fun c hc => of_decide_eq_true (all_eq_true.mp (hall sep h).2 c hc)⟩

/-- A text without a delimiter other than `sep`. -/
def Quiet (sep s : Bytes) : Prop := ∀ d ∈ sseDelimiters, d ≠ sep → ¬ d <:+: s

theorem Quiet.of_isInfix {sep s t : Bytes} (ht : Quiet sep t) (h : s <:+: t) : Quiet sep s :=
  fun d hd hne hs => ht d hd hne (hs.trans h)

theorem contains_iff {sep data : Bytes} (hsep : sep ≠ []) : Cut.contains data sep = true ↔ sep <:+: data := by
  unfold Cut.contains
  rw [Option.isSome_iff_ne_none, ne_eq, cut_eq_none_iff hsep, not_not]

theorem detectSSEDelimiter_of_quiet {sep data : Bytes} (hsep : sep ∈ sseDelimiters) (h : Quiet sep data) :
    (sep <:+: data → detectSSEDelimiter data = some sep) ∧
      (¬ sep <:+: data → detectSSEDelimiter data = none) := by
  have hcontains : ∀ d ∈ sseDelimiters, (Cut.contains data d = true ↔ d <:+: data) :=
    fun d hd => contains_iff (breaks_of_mem hd).ne_nil
  have hcrlf := hcontains carriageReturnLineFeedSSEDelimiter (by decide)
  have hlf := hcontains lineFeedSSEDelimiter (by decide)
  have hcr := hcontains carriageReturnSSEDelimiter (by decide)
  unfold detectSSEDelimiter
  simp only [hcrlf, hlf, hcr]
  simp only [sseDelimiters, mem_cons, not_mem_nil, or_false] at hsep
  rcases hsep with rfl | rfl | rfl
  · have h1 := h lineFeedSSEDelimiter (by decide) (by decide)
    have h2 := h carriageReturnSSEDelimiter (by decide) (by decide)
    exact ⟨fun hin => if_pos hin, fun hout => by rw [if_neg hout, if_neg h1, if_neg h2]⟩
  · have h1 := h carriageReturnLineFeedSSEDelimiter (by decide) (by decide)
    have h2 := h carriageReturnSSEDelimiter (by decide) (by decide)
    rw [if_neg h1]
    exact ⟨fun hin => if_pos hin, fun hout => by rw [if_neg hout, if_neg h2]⟩
  · have h1 := h carriageReturnLineFeedSSEDelimiter (by decide) (by decide)
    have h2 := h lineFeedSSEDelimiter (by decide) (by decide)
    rw [if_neg h1, if_neg h2]
    exact ⟨fun hin => if_pos hin, fun hout => if_neg hout⟩

variable {R : Type} (decode : Bytes → Option (Option R)) {sep : Bytes} (hsep : sep ∈ sseDelimiters)
include hsep

theorem parseGCPStreamingChunks_eq {s : Buffer} {body : Bytes}
    (hknown : s.streamDelimiter = none ∨ s.streamDelimiter = some sep)
    (hquiet : Quiet sep (s.bufferedBody ++ body)) :
    ∃ delimiter, (delimiter = none ∨ delimiter = some sep) ∧ parseGCPStreamingChunks decode s body =
        (⟨delimiter, (parseParts decode s.bufferedBody (split sep (s.bufferedBody ++ body))).1⟩,
          (parseParts decode s.bufferedBody (split sep (s.bufferedBody ++ body))).2) := by
  have hbreaks := breaks_of_mem hsep
  obtain ⟨hin, hout⟩ := detectSSEDelimiter_of_quiet hsep hquiet
  obtain ⟨delimiter, bufferedBody⟩ := s
  unfold parseGCPStreamingChunks
  by_cases hnil : bufferedBody ++ body = []
  · refine ⟨delimiter, hknown, ?_⟩
    rw [if_pos hnil, hnil, parseParts_white decode hbreaks bufferedBody nil_infix]
  · rw [if_neg hnil]
    rcases hknown with rfl | rfl
    · by_cases hfound : sep <:+: bufferedBody ++ body
      · exact ⟨some sep, .inr rfl, by rw [hin hfound]; rfl⟩
      · refine ⟨none, .inl rfl, ?_⟩
        rw [hout hfound, split_of_absent hbreaks.ne_nil hfound]
        rfl
    · exact ⟨some sep, .inr rfl, rfl⟩

end AgentRouter.Gemini
