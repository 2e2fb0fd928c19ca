import AgentRouter.Lib.Grouping
import AgentRouter.MCP.EventParser

/-!
# EventCuts: where the reads may be cut

`normalizeNewlines` sees one read at a time.  A CR LF that is cut between two reads comes out as two
line feeds where there is one in the stream, and since events are taken off at two line feeds, a
line end becomes the end of an event.

The stream is a sequence of pieces: bytes and line ends, where a line end can be torn.  A run of `n`
line ends gives `n / 2` ends of events, and `k` torn ones among them count twice:

    the calls return the same as with one read
      ↔  (n + k) / 2 = n / 2 for every run of line ends   (cut_into_reads_iff)

that is, no line end of the run is torn, or one is and their number is even.
-/

namespace AgentRouter.MCPEvents

open Framing SSE List

variable {μ : Type}

/-! ## Pieces of a stream -/

inductive Piece where
  | byte (c : UInt8)
  /-- CR LF, CR or LF; `torn` if it is a CR LF that is cut between two reads. -/
  | lineEnd (torn : Bool)
  deriving DecidableEq

def Piece.isByte : Piece → Bool
  | .byte _ => true
  | .lineEnd _ => false

/-- The bytes of a read, with a mark on the last one. -/
def marked : Bytes → List (UInt8 × Bool)
  | [] => []
  | c :: rest => (c, rest.isEmpty) :: marked rest

def piecesOf : List (UInt8 × Bool) → List Piece
  | [] => []
  | [(c, _)] => [if c = sseCR ∨ c = sseLF then .lineEnd false else .byte c]
  | (c, last) :: d :: rest =>
    if c = sseCR ∧ d.1 = sseLF then .lineEnd last :: piecesOf rest
    else (if c = sseCR ∨ c = sseLF then .lineEnd false else .byte c) :: piecesOf (d :: rest)

def pieces (reads : List Bytes) : List Piece := piecesOf (reads.flatMap marked)

/-- The line ends between one byte and the next, and those before the first and behind the last. -/
def lineEndRuns (reads : List Bytes) : List (List Piece) := (pieces reads).splitOnP Piece.isByte

/-! ### The text of the pieces -/

/-- How many line feeds stand for a piece when the stream comes in one read. -/
def feeds : Piece → Nat
  | .byte _ => 0
  | .lineEnd _ => 1

/-- How many line feeds stand for a piece when each read is normalized on its own. -/
def feedsTorn : Piece → Nat
  | .byte _ => 0
  | .lineEnd torn => if torn then 2 else 1

def textOf (w : Piece → Nat) : List Piece → Bytes
  | [] => []
  | .byte c :: ps => c :: textOf w ps
  | .lineEnd torn :: ps => List.replicate (w (.lineEnd torn)) sseLF ++ textOf w ps

theorem map_fst_marked (read : Bytes) : (marked read).map Prod.fst = read := by
  induction read with
  | nil => rfl
  | cons c rest ih => rw [marked, map_cons, ih]

variable (reads : List Bytes)

theorem map_fst_flatMap_marked : (reads.flatMap marked).map Prod.fst = reads.flatten := by
  simp only [map_flatMap, map_fst_marked, flatMap_id']

/-- One byte, with its line end normalized. -/
def normalizeByte (c : UInt8) : UInt8 := if c = sseCR then sseLF else c

theorem normalizeNewlines_crlf (rest : Bytes) :
    normalizeNewlines (sseCR :: sseLF :: rest) = sseLF :: normalizeNewlines rest := by
  rfl

theorem normalizeNewlines_cons {c d : UInt8} (rest : Bytes) (h : ¬ (c = sseCR ∧ d = sseLF)) :
    normalizeNewlines (c :: d :: rest) = normalizeByte c :: normalizeNewlines (d :: rest) := by
  unfold normalizeNewlines
  rw [replaceCRLF, if_neg h]
  rfl

theorem textOf_byteOrEnd {w : Piece → Nat} (hw : w (.lineEnd false) = 1) (c : UInt8) (ps : List Piece) :
    textOf w ((if c = sseCR ∨ c = sseLF then .lineEnd false else .byte c) :: ps) =
      normalizeByte c :: textOf w ps := by
  unfold normalizeByte
  by_cases hcr : c = sseCR
  · rw [if_pos (.inl hcr), if_pos hcr, textOf, hw]
    rfl
  · rw [if_neg hcr]
    by_cases hlf : c = sseLF
    · rw [if_pos (.inr hlf), textOf, hw, hlf]
      rfl
    · rw [if_neg (by simp [hcr, hlf]), textOf]

theorem textOf_feeds_piecesOf (m : List (UInt8 × Bool)) :
    textOf feeds (piecesOf m) = normalizeNewlines (m.map Prod.fst) := by
  fun_induction piecesOf m with
  | case1 => rfl
  | case2 c last => exact textOf_byteOrEnd rfl c []
  | case3 c last d rest hcrlf ih =>
    obtain ⟨rfl, hlf⟩ := hcrlf
    rw [map_cons, map_cons, hlf, normalizeNewlines_crlf, ← ih]
    rfl
  | case4 c last d rest hcrlf ih =>
    show _ = normalizeNewlines (c :: d.1 :: rest.map Prod.fst)
    rw [textOf_byteOrEnd rfl, ih, normalizeNewlines_cons _ hcrlf]
    rfl

theorem textOf_feedsTorn_last (c : UInt8) (m : List (UInt8 × Bool)) :
    textOf feedsTorn (piecesOf ((c, true) :: m)) = normalizeByte c :: textOf feedsTorn (piecesOf m) := by
  cases m with
  | nil => exact textOf_byteOrEnd rfl c []
  | cons d rest =>
    obtain ⟨d, last⟩ := d
    rw [piecesOf]
    by_cases hcrlf : c = sseCR ∧ d = sseLF
    · obtain ⟨rfl, rfl⟩ := hcrlf
      -- the line feed of the next read is a line end of its own
      have hlf : piecesOf ((sseLF, last) :: rest) = .lineEnd false :: piecesOf rest := by
        cases rest with
        | nil | cons e rest => rfl
      rw [hlf]
      rfl
    · rw [if_neg hcrlf, textOf_byteOrEnd rfl]

theorem textOf_feedsTorn_read (read : Bytes) (m : List (UInt8 × Bool)) :
    textOf feedsTorn (piecesOf (marked read ++ m)) =
      normalizeNewlines read ++ textOf feedsTorn (piecesOf m) := by
  fun_induction replaceCRLF read with
  | case1 => rfl
  | case2 c =>
    show textOf feedsTorn (piecesOf ((c, true) :: m)) = _
    rw [textOf_feedsTorn_last]
    rfl
  | case3 c d rest hcrlf ih =>
    obtain ⟨rfl, rfl⟩ := hcrlf
    rw [normalizeNewlines_crlf, cons_append, ← ih]
    rfl
  | case4 c d rest hcrlf ih =>
    show textOf feedsTorn (piecesOf ((c, false) :: (d, rest.isEmpty) :: (marked rest ++ m))) = _
    rw [normalizeNewlines_cons _ hcrlf, piecesOf, if_neg hcrlf, textOf_byteOrEnd rfl, cons_append, ← ih]
    rfl

theorem textOf_feedsTorn : textOf feedsTorn (pieces reads) = normalized reads := by
  unfold pieces normalized
  induction reads with
  | nil => rfl
  | cons read reads ih => rw [flatMap_cons, textOf_feedsTorn_read, ih, flatMap_cons]

/-! ## Blocks -/

/-- What stands in the buffer in front of a line end: it holds no end of an event, and the next line
feed does not make one. -/
def Open (acc : Bytes) : Prop := ¬ sseLFLF <:+: acc ++ [sseLF]

/-- The blocks that a run of `n` line feeds ends. -/
def endedBlocks (acc : Bytes) (n : Nat) : List Bytes :=
  if n < 2 then [] else acc :: List.replicate (n / 2 - 1) []

/-- What is left in the buffer behind the run. -/
def leftover (acc : Bytes) (n : Nat) : Bytes :=
  if n < 2 then acc ++ List.replicate n sseLF else List.replicate (n % 2) sseLF

theorem length_endedBlocks (acc : Bytes) (n : Nat) : (endedBlocks acc n).length = n / 2 := by
  unfold endedBlocks
  by_cases h : n < 2
  · rw [if_pos h, length_nil]
    omega
  · rw [if_neg h, length_cons, length_replicate]
    omega

theorem open_nil : Open [] := by
  unfold Open
  decide

variable {acc : Bytes}

theorem Open.snoc (h : ¬ sseLFLF <:+: acc) {c : UInt8} (hc : c ≠ sseLF) : Open (acc ++ [c]) := by
  have hstarts : Cut.StartsOutside sseLFLF [c, sseLF] := by
    intro d hd hmem
    obtain rfl : c = d := by simpa using hd
    exact hc (by simpa [sseLFLF, sseLF] using hmem)
  intro hinfix
  rw [append_assoc] at hinfix
  rcases Cut.infix_append_of_startsOutside hstarts hinfix with hin | hin
  · exact h hin
  · have heq : sseLFLF = [c, sseLF] := hin.eq_of_length rfl
    exact hc (List.cons.inj heq).1.symm

theorem Open.whole (h : Open acc) : ¬ sseLFLF <:+: acc :=
  fun hin => h (hin.trans (prefix_append acc [sseLF]).isInfix)

theorem not_infix_leftover (h : Open acc) (n : Nat) : ¬ sseLFLF <:+: leftover acc n := by
  unfold leftover
  by_cases hn : n < 2
  · obtain rfl | rfl : n = 0 ∨ n = 1 := by omega
    · rw [replicate_zero, append_nil]
      exact h.whole
    · exact h
  · rw [if_neg hn]
    intro hin
    have hle := hin.length_le
    rw [length_replicate] at hle
    have hlen : sseLFLF.length = 2 := rfl
    omega

theorem drain_replicate (n : Nat) (rest : Bytes) :
    drain (Cut.cut sseLFLF) (List.replicate n sseLF ++ rest) =
      (List.replicate (n / 2) [] ++
          (drain (Cut.cut sseLFLF) (List.replicate (n % 2) sseLF ++ rest)).1,
        (drain (Cut.cut sseLFLF) (List.replicate (n % 2) sseLF ++ rest)).2) := by
  induction n using Nat.strongRecOn with
  | ind n ih =>
    by_cases hn : n < 2
    · have hdiv : n / 2 = 0 := by omega
      have hmod : n % 2 = n := by omega
      rw [hdiv, hmod]
      rfl
    · obtain ⟨m, rfl⟩ : ∃ m, n = m + 2 := ⟨n - 2, by omega⟩
      have hcut : Cut.cut sseLFLF (List.replicate (m + 2) sseLF ++ rest) =
          some ([], List.replicate m sseLF ++ rest) :=
        Cut.cut_append (List.replicate m sseLF ++ rest) (by decide) open_nil
      have hdiv : (m + 2) / 2 = m / 2 + 1 := by omega
      have hmod : (m + 2) % 2 = m % 2 := by omega
      rw [drain_of_some stable_sseLFLF hcut, ih m (by omega), hdiv, hmod]
      rfl

theorem drain_run (h : Open acc) (n : Nat) (rest : Bytes) :
    drain (Cut.cut sseLFLF) (acc ++ List.replicate n sseLF ++ rest) =
      (endedBlocks acc n ++ (drain (Cut.cut sseLFLF) (leftover acc n ++ rest)).1,
        (drain (Cut.cut sseLFLF) (leftover acc n ++ rest)).2) := by
  unfold endedBlocks leftover
  by_cases hn : n < 2
  · rw [if_pos hn, if_pos hn]
    rfl
  · obtain ⟨m, rfl⟩ : ∃ m, n = m + 2 := ⟨n - 2, by omega⟩
    have hcut : Cut.cut sseLFLF (acc ++ sseLFLF ++ (List.replicate m sseLF ++ rest)) =
        some (acc, List.replicate m sseLF ++ rest) := Cut.cut_append _ (by decide) h
    have htext : acc ++ List.replicate (m + 2) sseLF ++ rest =
        acc ++ sseLFLF ++ (List.replicate m sseLF ++ rest) := by
      rw [Nat.add_comm, replicate_add]
      simp [sseLFLF, sseLF]
    have hdiv : (m + 2) / 2 - 1 = m / 2 := by omega
    have hmod : (m + 2) % 2 = m % 2 := by omega
    rw [htext, drain_of_some stable_sseLFLF hcut, drain_replicate, hdiv, hmod]
    rfl

/-- The blocks of pieces, run by run: `n` line feeds stand between `acc` and the pieces. -/
def blocksOf (w : Piece → Nat) : Bytes → Nat → List Piece → List Bytes
  | acc, n, [] => endedBlocks acc n
  | acc, n, .byte c :: ps => endedBlocks acc n ++ blocksOf w (leftover acc n ++ [c]) 0 ps
  | acc, n, .lineEnd torn :: ps => blocksOf w acc (n + w (.lineEnd torn)) ps

/-- The pieces' bytes are no line feeds. -/
def Plain (ps : List Piece) : Prop := .byte sseLF ∉ ps

variable (w : Piece → Nat)

theorem drain_textOf (h : Open acc) (n : Nat) {ps : List Piece} (hps : Plain ps) :
    (drain (Cut.cut sseLFLF) (acc ++ List.replicate n sseLF ++ textOf w ps)).1 = blocksOf w acc n ps := by
  induction ps generalizing acc n with
  | nil =>
    have hnone : Cut.cut sseLFLF (leftover acc n) = none :=
      (Cut.cut_eq_none_iff (by decide)).mpr (not_infix_leftover h n)
    rw [textOf, drain_run h, append_nil, drain_of_none hnone, blocksOf, append_nil]
  | cons p ps ih =>
    have htail : Plain ps := fun hmem => hps (mem_cons_of_mem p hmem)
    cases p with
    | byte c =>
      have hc : c ≠ sseLF := fun hlf => hps (hlf ▸ mem_cons_self)
      have hopen : Open (leftover acc n ++ [c]) := Open.snoc (not_infix_leftover h n) hc
      have hrest := ih hopen 0 htail
      rw [replicate_zero, append_nil, append_assoc] at hrest
      rw [drain_run h, blocksOf, ← hrest]
      rfl
    | lineEnd torn =>
      rw [textOf, blocksOf, ← ih h (n + w (.lineEnd torn)) htail, replicate_add]
      simp only [append_assoc]

theorem plain_piecesOf (m : List (UInt8 × Bool)) : Plain (piecesOf m) := by
  have hhead : ∀ c, (if c = sseCR ∨ c = sseLF then Piece.lineEnd false else .byte c) ≠ .byte sseLF := by
    intro c
    by_cases hc : c = sseCR ∨ c = sseLF
    · rw [if_pos hc]
      simp
    · rw [if_neg hc]
      intro heq
      exact hc (.inr (Piece.byte.inj heq))
  fun_induction piecesOf m with
  | case1 => exact not_mem_nil
  | case2 c last => exact fun hmem => hhead c (mem_singleton.mp hmem).symm
  | case3 c last d rest hcrlf ih =>
    intro hmem
    rcases mem_cons.mp hmem with heq | hmem
    · cases heq
    · exact ih hmem
  | case4 c last d rest hcrlf ih =>
    intro hmem
    rcases mem_cons.mp hmem with heq | hmem
    · exact hhead c heq.symm
    · exact ih hmem

theorem blocks_textOf (reads : List Bytes) :
    (drain (Cut.cut sseLFLF) (textOf w (pieces reads))).1 = blocksOf w [] 0 (pieces reads) :=
  drain_textOf w open_nil 0 (plain_piecesOf _)

/-! ## Both ways to read -/

section

/-- A run that is not closed yet. -/
def OnlyEnds (run : List Piece) : Prop := ∀ p ∈ run, p.isByte = false

theorem onlyEnds_nil : OnlyEnds [] := fun _ hp => absurd hp not_mem_nil

variable {run : List Piece}

theorem OnlyEnds.snoc (h : OnlyEnds run) (torn : Bool) : OnlyEnds (run ++ [.lineEnd torn]) :=
  forall_mem_append.mpr ⟨h, forall_mem_singleton.mpr rfl⟩

theorem splitOnP_onlyEnds (h : OnlyEnds run) : run.splitOnP Piece.isByte = [run] :=
  splitOnP_eq_singleton h

theorem splitOnP_byte (h : OnlyEnds run) (c : UInt8) (ps : List Piece) :
    (run ++ .byte c :: ps).splitOnP Piece.isByte = run :: ps.splitOnP Piece.isByte :=
  splitOnP_append_cons_of_forall_mem h (.byte c) rfl ps

theorem sum_snoc (run : List Piece) (p : Piece) : (run.map w).sum + w p = ((run ++ [p]).map w).sum := by
  simp

theorem sum_feeds (h : OnlyEnds run) : (run.map feeds).sum = run.length := by
  induction run with
  | nil => rfl
  | cons p run ih =>
    have hp := h p mem_cons_self
    rw [map_cons, sum_cons, ih fun q hq => h q (mem_cons_of_mem p hq), length_cons]
    cases p with
    | byte c => cases hp
    | lineEnd torn =>
      rw [feeds]
      omega

theorem sum_feedsTorn (h : OnlyEnds run) :
    (run.map feedsTorn).sum = run.length + run.count (.lineEnd true) := by
  induction run with
  | nil => rfl
  | cons p run ih =>
    have hp := h p mem_cons_self
    rw [map_cons, sum_cons, ih fun q hq => h q (mem_cons_of_mem p hq), length_cons, count_cons]
    cases p with
    | byte c => cases hp
    | lineEnd torn =>
      cases torn with
      | false =>
        rw [if_neg (by decide)]
        show 1 + _ = _
        omega
      | true =>
        rw [if_pos (by decide)]
        show 2 + _ = _
        omega

theorem length_blocksOf (acc : Bytes) (hrun : OnlyEnds run) (ps : List Piece) :
    (blocksOf w acc (run.map w).sum ps).length =
      (((run ++ ps).splitOnP Piece.isByte).map fun r => (r.map w).sum / 2).sum := by
  induction ps generalizing acc run with
  | nil =>
    rw [blocksOf, length_endedBlocks, append_nil, splitOnP_onlyEnds hrun]
    simp
  | cons p ps ih =>
    cases p with
    | byte c =>
      have hrest := ih (leftover acc (run.map w).sum ++ [c]) onlyEnds_nil
      rw [blocksOf, length_append, length_endedBlocks, splitOnP_byte hrun, map_cons,
        sum_cons, ← nil_append ps, ← hrest]
      rfl
    | lineEnd torn =>
      rw [blocksOf, sum_snoc, ih acc (hrun.snoc torn), append_assoc]
      rfl

/-- A torn line end counts for more. -/
theorem sum_feeds_le (h : OnlyEnds run) :
    (run.map feeds).sum ≤ (run.map feedsTorn).sum ∧ (run.map feedsTorn).sum ≤ 2 * (run.map feeds).sum := by
  have hcount : run.count (.lineEnd true) ≤ run.length := count_le_length
  rw [sum_feeds h, sum_feedsTorn h]
  omega

/-- The block may have an empty line in front. -/
def SameBlock (b b' : Bytes) : Prop := b' = b ∨ b' = sseLF :: b

theorem SameBlock.append {b b' : Bytes} (h : SameBlock b b') (rest : Bytes) :
    SameBlock (b ++ rest) (b' ++ rest) := by
  rcases h with rfl | rfl
  · exact .inl rfl
  · exact .inr rfl

theorem sameBlock_leftover {acc' : Bytes} (hacc : SameBlock acc acc') {n n' : Nat} (hle : n ≤ n')
    (hle' : n' ≤ 2 * n) (hdiv : n' / 2 = n / 2) :
    SameBlock (leftover acc n) (leftover acc' n') := by
  unfold leftover
  by_cases hn : n < 2
  · obtain rfl : n' = n := by omega
    rw [if_pos hn, if_pos hn]
    exact hacc.append _
  · rw [if_neg hn, if_neg (by omega)]
    by_cases hmod : n' % 2 = n % 2
    · rw [hmod]
      exact .inl rfl
    · have heven : n % 2 = 0 := by omega
      have hodd : n' % 2 = 1 := by omega
      rw [heven, hodd]
      exact .inr rfl

section

variable {ρ : Type} {f : Bytes → ρ} (hf : ∀ b, f (sseLF :: b) = f b)
include hf

theorem SameBlock.map_eq {b b' : Bytes} (h : SameBlock b b') : f b = f b' := by
  rcases h with rfl | rfl
  · rfl
  · exact (hf b).symm

theorem map_endedBlocks {acc' : Bytes} (hacc : SameBlock acc acc') {n n' : Nat}
    (hdiv : n' / 2 = n / 2) : (endedBlocks acc n).map f = (endedBlocks acc' n').map f := by
  unfold endedBlocks
  by_cases hn : n < 2
  · rw [if_pos hn, if_pos (by omega)]
  · rw [if_neg hn, if_neg (by omega), hdiv, map_cons, map_cons, hacc.map_eq hf]

/-- As long as no run ends more events, the blocks are the same but for empty lines in front. -/
theorem map_blocksOf {acc' : Bytes} (hacc : SameBlock acc acc') (hrun : OnlyEnds run)
    {ps : List Piece}
    (h : ∀ r ∈ (run ++ ps).splitOnP Piece.isByte, (r.map feedsTorn).sum / 2 = (r.map feeds).sum / 2) :
    (blocksOf feeds acc (run.map feeds).sum ps).map f =
      (blocksOf feedsTorn acc' (run.map feedsTorn).sum ps).map f := by
  induction ps generalizing acc acc' run with
  | nil =>
    rw [append_nil, splitOnP_onlyEnds hrun] at h
    exact map_endedBlocks hf hacc (h run (mem_singleton.mpr rfl))
  | cons p ps ih =>
    cases p with
    | byte c =>
      rw [splitOnP_byte hrun] at h
      have hdiv := h run mem_cons_self
      have hleft := sameBlock_leftover hacc (sum_feeds_le hrun).1 (sum_feeds_le hrun).2 hdiv
      have hrest := ih (hleft.append [c]) onlyEnds_nil fun r hr => h r (mem_cons_of_mem _ hr)
      rw [blocksOf, blocksOf, map_append, map_append, map_endedBlocks hf hacc hdiv]
      exact congrArg _ hrest
    | lineEnd torn =>
      rw [blocksOf, blocksOf, sum_snoc, sum_snoc]
      apply ih hacc (hrun.snoc torn)
      intro r hr
      rw [append_assoc] at hr
      exact h r hr

end

theorem map_blocksOf_eq_iff {ρ : Type} {f : Bytes → ρ} (hf : ∀ b, f (sseLF :: b) = f b) (ps : List Piece) :
    (blocksOf feedsTorn [] 0 ps).map f = (blocksOf feeds [] 0 ps).map f ↔
      ∀ r ∈ ps.splitOnP Piece.isByte, (r.map feedsTorn).sum / 2 = (r.map feeds).sum / 2 := by
  constructor
  · intro heq
    have hlen := congrArg List.length heq
    rw [length_map, length_map] at hlen
    have hfeeds := length_blocksOf feeds [] onlyEnds_nil ps
    have htorn := length_blocksOf feedsTorn [] onlyEnds_nil ps
    have hsum := hfeeds.symm.trans (hlen.symm.trans htorn)
    refine (sum_map_eq_iff ?_).mp hsum
    intro r hr
    exact Nat.div_le_div_right (sum_feeds_le (Cut.not_of_mem_splitOnP hr)).1
  · intro h
    exact (map_blocksOf hf (.inl rfl) onlyEnds_nil h).symm

/-! ## Top theorem -/

section

variable (decodeMessage : Bytes → Except String μ) (backend : Bytes)

/-- What the calls return before the one that returns `io.EOF`. -/
def returned (reads : List Bytes) : List (NextResult μ) :=
  (allCalls decodeMessage backend ⟨reads, none⟩).dropLast

theorem returned_eq :
    returned decodeMessage backend reads =
      (drain (Cut.cut sseLFLF) (normalized reads)).1.map (parsedResult decodeMessage backend) := by
  unfold returned
  rw [allCalls_eq, dropLast_concat]

theorem parsedResult_cons_lf (chunk : Bytes) :
    parsedResult decodeMessage backend (sseLF :: chunk) = parsedResult decodeMessage backend chunk := by
  unfold parsedResult
  rw [parseEvent_cons_lf]

theorem cut_into_reads_iff (reads : List Bytes) :
    returned decodeMessage backend reads = returned decodeMessage backend [reads.flatten] ↔
      ∀ run ∈ lineEndRuns reads,
        (run.length + run.count (.lineEnd true)) / 2 = run.length / 2 := by
  have hone : normalized [reads.flatten] = textOf feeds (pieces reads) := by
    rw [pieces, textOf_feeds_piecesOf, map_fst_flatMap_marked, normalized, flatMap_singleton]
  have hruns : (∀ run ∈ lineEndRuns reads,
        (run.length + run.count (.lineEnd true)) / 2 = run.length / 2) ↔
      ∀ run ∈ (pieces reads).splitOnP Piece.isByte,
        (run.map feedsTorn).sum / 2 = (run.map feeds).sum / 2 := by
    refine forall₂_congr fun run hrun => ?_
    have hends : OnlyEnds run := Cut.not_of_mem_splitOnP hrun
    rw [sum_feeds hends, sum_feedsTorn hends]
  rw [hruns, ← map_blocksOf_eq_iff (parsedResult_cons_lf decodeMessage backend), returned_eq,
    returned_eq, hone, ← textOf_feedsTorn, blocks_textOf, blocks_textOf]

end

/-- An event of two lines with CR LF, cut inside the first line end: the event falls apart. -/
def tornReads : List Bytes := [ascii "event: a\r", ascii "\nid: 7\r\n\r\n"]

theorem torn_line_end_splits_event :
    returned decodePing [] [tornReads.flatten] =
        [⟨some ⟨ascii "a", ascii "7", [], []⟩, none⟩] ∧
      returned decodePing [] tornReads =
        [⟨some ⟨ascii "a", [], [], []⟩, none⟩, ⟨some ⟨[], ascii "7", [], []⟩, none⟩] := by
  decide

end

end AgentRouter.MCPEvents
