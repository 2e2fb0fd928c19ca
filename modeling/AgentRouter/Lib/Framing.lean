import AgentRouter.Lib.Cut

/-!
# Framing: messages that arrive in pieces

A decoder takes the first message off its input, if the input holds a whole one.  A reader
keeps what it could not decode and tries again when the next piece has come (`feed`).  For a
decoder that does not change its mind when more input follows, the messages do not depend on
how the input is cut into pieces:

    (feed decode [] pieces).1.flatten = (drain decode pieces.flatten).1   (feed_flatten)

The same holds for what calls note of the messages, if they note them one after another
(`foldl_calls`).

Cutting at a separator is such a decoder (`stable_cut`), and so is cutting at the first of two
separators if neither holds the other one (`stable_cutEither`).
-/

namespace AgentRouter.Framing

open List Cut

variable {α μ : Type}

/-! ## Algorithm -/

/-- The first message of the input, and what follows it. -/
abbrev Decoder (α μ : Type) : Type := List α → Option (μ × List α)

def drainUpTo (decode : Decoder α μ) : Nat → List α → List μ × List α
  | 0, s => ([], s)
  | fuel + 1, s =>
    match decode s with
    | none => ([], s)
    | some (m, rest) => (m :: (drainUpTo decode fuel rest).1, (drainUpTo decode fuel rest).2)

/-- All messages of the input, and what is left of it. -/
def drain (decode : Decoder α μ) (s : List α) : List μ × List α := drainUpTo decode s.length s

/-- The messages that come with each piece, and what is left at the end. -/
def feed (decode : Decoder α μ) : List α → List (List α) → List (List μ) × List α
  | buffer, [] => ([], buffer)
  | buffer, p :: ps =>
    ((drain decode (buffer ++ p)).1 :: (feed decode (drain decode (buffer ++ p)).2 ps).1,
      (feed decode (drain decode (buffer ++ p)).2 ps).2)

/-- A message takes up some of the input and stays the first one when more input follows. -/
structure Stable (decode : Decoder α μ) : Prop where
  shorter : ∀ {s m rest}, decode s = some (m, rest) → rest.length < s.length
  extend : ∀ {s m rest}, decode s = some (m, rest) → ∀ more,
    decode (s ++ more) = some (m, rest ++ more)

/-! ## Lemmas -/

section

variable {decode : Decoder α μ}

theorem drain_of_none {s : List α} (h : decode s = none) : drain decode s = ([], s) := by
  unfold drain
  cases s.length with
  | zero => rfl
  | succ n => rw [drainUpTo, h]

variable (hstable : Stable decode)
include hstable

theorem Stable.decode_nil : decode [] = none := by
  cases h : decode [] with
  | none => rfl
  | some r => exact absurd (hstable.shorter h) (Nat.not_lt_zero _)

theorem drainUpTo_eq {n n' : Nat} {s : List α} (hn : s.length ≤ n) (hn' : s.length ≤ n') :
    drainUpTo decode n s = drainUpTo decode n' s := by
  induction n generalizing n' s with
  | zero =>
    obtain rfl : s = [] := length_eq_zero_iff.mp (by omega)
    cases n' with
    | zero => rfl
    | succ n' => rw [drainUpTo, drainUpTo, hstable.decode_nil]
  | succ n ih =>
    cases n' with
    | zero =>
      obtain rfl : s = [] := length_eq_zero_iff.mp (by omega)
      rw [drainUpTo, drainUpTo, hstable.decode_nil]
    | succ n' =>
      rw [drainUpTo, drainUpTo]
      cases h : decode s with
      | none => rfl
      | some r =>
        have hlt := hstable.shorter (show decode s = some (r.1, r.2) from h)
        simp only [ih (show r.2.length ≤ n by omega) (show r.2.length ≤ n' by omega)]

theorem drain_of_some {s rest : List α} {m : μ} (h : decode s = some (m, rest)) :
    drain decode s = (m :: (drain decode rest).1, (drain decode rest).2) := by
  have hlt := hstable.shorter h
  unfold drain
  obtain ⟨n, hn⟩ : ∃ n, s.length = n + 1 := ⟨s.length - 1, by omega⟩
  rw [hn, drainUpTo, h]
  simp only [drainUpTo_eq hstable (show rest.length ≤ n by omega) (Nat.le_refl rest.length)]

theorem decode_drain_snd (s : List α) : decode (drain decode s).2 = none := by
  induction hn : s.length using Nat.strongRecOn generalizing s with
  | ind n ih =>
    cases h : decode s with
    | none =>
      rw [drain_of_none h]
      exact h
    | some r =>
      have hlt := hstable.shorter (show decode s = some (r.1, r.2) from h)
      rw [drain_of_some hstable h]
      exact ih r.2.length (by omega) r.2 rfl

theorem drain_append (s more : List α) :
    drain decode (s ++ more) =
      ((drain decode s).1 ++ (drain decode ((drain decode s).2 ++ more)).1,
        (drain decode ((drain decode s).2 ++ more)).2) := by
  induction hn : s.length using Nat.strongRecOn generalizing s with
  | ind n ih =>
    cases h : decode s with
    | none =>
      rw [drain_of_none h]
      rfl
    | some r =>
      have hlt := hstable.shorter (show decode s = some (r.1, r.2) from h)
      rw [drain_of_some hstable h, drain_of_some hstable (hstable.extend h more),
        ih r.2.length (by omega) r.2 rfl]
      rfl

/-- The messages do not depend on where the input is cut. -/
theorem feed_flatten (buffer : List α) (pieces : List (List α)) (hbuffer : decode buffer = none) :
    (feed decode buffer pieces).1.flatten = (drain decode (buffer ++ pieces.flatten)).1 ∧
      (feed decode buffer pieces).2 = (drain decode (buffer ++ pieces.flatten)).2 := by
  induction pieces generalizing buffer with
  | nil =>
    rw [flatten_nil, append_nil, drain_of_none hbuffer]
    exact ⟨rfl, rfl⟩
  | cons p ps ih =>
    obtain ⟨hmessages, hrest⟩ := ih (drain decode (buffer ++ p)).2 (decode_drain_snd hstable _)
    rw [flatten_cons, ← append_assoc, drain_append hstable (buffer ++ p)]
    simp only [feed, flatten_cons, hmessages, hrest, and_self]

/-- Calls that each note the messages they have note those of all the input. -/
theorem foldl_calls {σ β : Type} {buffered : σ → List α} {call : σ → List α → σ} {noted : σ → β}
    {note : β → List μ → β}
    (hbuffered : ∀ s p, buffered (call s p) = (drain decode (buffered s ++ p)).2)
    (hnoted : ∀ s p, noted (call s p) = note (noted s) (drain decode (buffered s ++ p)).1)
    (hnil : ∀ b, note b [] = b) (happend : ∀ b l l', note b (l ++ l') = note (note b l) l')
    (s : σ) (hs : decode (buffered s) = none) (pieces : List (List α)) :
    let drained := drain decode (buffered s ++ pieces.flatten)
    noted (pieces.foldl call s) = note (noted s) drained.1 ∧
      buffered (pieces.foldl call s) = drained.2 := by
  induction pieces generalizing s with
  | nil =>
    rw [flatten_nil, append_nil, drain_of_none hs]
    exact ⟨(hnil _).symm, rfl⟩
  | cons p ps ih =>
    have hnext : decode (buffered (call s p)) = none := by
      rw [hbuffered]
      exact decode_drain_snd hstable _
    obtain ⟨hnotes, hbuffer⟩ := ih (call s p) hnext
    rw [hbuffered] at hnotes hbuffer
    rw [hnoted, ← happend] at hnotes
    rw [flatten_cons, ← append_assoc, drain_append hstable]
    exact ⟨hnotes, hbuffer⟩

end

/-! ## Separators -/

theorem stable_cut [DecidableEq α] {sep : List α} (hsep : sep ≠ []) : Stable (Cut.cut sep) where
  shorter := by
    intro s a b h
    have hpos := length_pos_iff.mpr hsep
    rw [cut_eq_some h, length_append, length_append]
    omega
  extend := by
    intro s a b h more
    obtain ⟨rfl, hfirst⟩ := (cut_eq_some_iff hsep).mp h
    rw [append_assoc]
    exact cut_append (b ++ more) hsep hfirst

theorem stable_cutEither [DecidableEq α] {sep sep' : List α} (h : ¬ sep <:+: sep')
    (h' : ¬ sep' <:+: sep) : Stable (Cut.cutEither sep sep') := by
  have hsep : sep ≠ [] := fun hnil => h (hnil ▸ nil_infix)
  have hsep' : sep' ≠ [] := fun hnil => h' (hnil ▸ nil_infix)
  constructor
  · intro s m rest hcut
    rcases cutEither_cases hcut with ⟨hleft, -⟩ | ⟨hright, -⟩
    · exact (stable_cut hsep).shorter hleft
    · exact (stable_cut hsep').shorter hright
  · intro s m rest hcut more
    rcases cutEither_cases hcut with ⟨hleft, hfirst⟩ | ⟨hright, hfirst⟩
    · refine cutEither_of_left ((stable_cut hsep).extend hleft more) fun r' hr' => ?_
      cases hs : Cut.cut sep' s with
      | none => exact length_lt_of_cut_append hsep' h hs hleft hr'
      | some r =>
        cases ((stable_cut hsep').extend hs more).symm.trans hr'
        exact hfirst r hs
    · refine cutEither_of_right ((stable_cut hsep').extend hright more) fun r' hr' => ?_
      cases hs : Cut.cut sep s with
      | none => exact (length_lt_of_cut_append hsep h' hs hright hr').le
      | some r =>
        cases ((stable_cut hsep).extend hs more).symm.trans hr'
        exact hfirst r hs

end AgentRouter.Framing
