import AgentRouter.ConfigBundle.Protocol
import Mathlib.Data.List.Nodup

/-!
# Delivery: what the watcher delivers

The writer and the watcher of a config bundle, interleaved in any way; a run of the writer can stop
at any of its operations, and a tick of the watcher reads one file at a time.  The parts that a tick
reads can come from several runs, but then the checksum does not match.  The index is the last file
of a run: a tick that has seen its time reads only files of the last run from then on, and with an
older index it delivers a prefix of the last payload.  Hence, if no checksum collides and no payload
is a proper prefix of another:

    each delivered config is the decoding of a payload, and once writing stops after a run that
    succeeded, the next tick leaves the last payload delivered   (delivers_whole_payloads)
-/

namespace AgentRouter.ConfigBundle

open Text Interleaving List

/-! ## Assumptions -/

/-- The bytes are a part of one of the payloads. -/
def ChunkOf (payloads : List Bytes) (c : Bytes) : Prop := ∃ p ∈ payloads, c ∈ chunks p

def IndexOf (payloads : List Bytes) (index : ConfigBundleIndex) : Prop :=
  ∃ p ∈ payloads, (chunks p).length ≤ maxSlots ∧ index = bundleIndex p

/-- What can be read under the index of `p` while parts are written: as many parts, from any of the
payloads. -/
def Reassembled (payloads : List Bytes) (p x : Bytes) : Prop :=
  ∃ cs : List Bytes, cs.length = (chunks p).length ∧ (∀ c ∈ cs, ChunkOf payloads c) ∧ cs.flatten = x

/-- Nothing that can be read has the checksum of a payload, except the payload. -/
def CollisionFree (payloads : List Bytes) : Prop :=
  ∀ p ∈ payloads, ∀ x, Reassembled payloads p x → Sha256.sum256 x = Sha256.sum256 p → x = p

def PrefixFree (payloads : List Bytes) : Prop :=
  ∀ p ∈ payloads, ∀ q ∈ payloads, q <+: p → q = p

section

variable {payloads payloads' : List Bytes}

theorem ChunkOf.mono (hsub : payloads ⊆ payloads') {c : Bytes} (h : ChunkOf payloads c) :
    ChunkOf payloads' c := by
  obtain ⟨p, hp, hc⟩ := h
  exact ⟨p, hsub hp, hc⟩

variable {index : ConfigBundleIndex}

theorem IndexOf.mono (hsub : payloads ⊆ payloads') (h : IndexOf payloads index) :
    IndexOf payloads' index := by
  obtain ⟨p, hp, hindex⟩ := h
  exact ⟨p, hsub hp, hindex⟩

theorem Reassembled.mono (hsub : payloads ⊆ payloads') {p x : Bytes}
    (h : Reassembled payloads p x) : Reassembled payloads' p x := by
  obtain ⟨cs, hlen, hcs, hx⟩ := h
  exact ⟨cs, hlen, fun c hc => (hcs c hc).mono hsub, hx⟩

end

/-! ## The writer -/

/-- The operation has been carried out, and nothing has overwritten it. -/
def Files.Holds (f : Files) : Op → Prop
  | .writePart slot chunk => (f.parts (configBundlePartPath slot)).map Stamped.content = some chunk
  | .deletePart slot => f.parts (configBundlePartPath slot) = none
  | .writeIndex index => f.index.map Stamped.content = some index

/-- The slot that an operation changes; none for the index. -/
def Op.slot : Op → Option Nat
  | .writePart slot _ => some slot
  | .deletePart slot => some slot
  | .writeIndex _ => none

theorem slot_slotOp (cs : List Bytes) (i : Nat) : (slotOp cs i).slot = some i := by
  unfold slotOp
  split
  · rfl
  · rfl

variable {f : Files}

theorem holds_slotOp {cs : List Bytes} {i : Nat} :
    f.Holds (slotOp cs i) ↔ (f.parts (configBundlePartPath i)).map Stamped.content = cs[i]? := by
  unfold slotOp
  split
  · next c hc => rw [hc]; rfl
  · next hnone =>
    rw [hnone]
    show _ = none ↔ _
    rw [Option.map_eq_none_iff]

theorem holds_apply (f : Files) (op : Op) (t : Nat) : (f.apply op t).Holds op := by
  cases op with
  | writePart slot chunk | deletePart slot | writeIndex index => simp [Files.apply, Files.Holds]

variable {op : Op} {t : Nat}

theorem parts_apply_of_ne {path : String} (h : ∀ i, op.slot = some i → path ≠ configBundlePartPath i) :
    (f.apply op t).parts path = f.parts path := by
  cases op with
  | writePart i c | deletePart i => exact Function.update_of_ne (h i rfl) _ _
  | writeIndex index => rfl

theorem index_apply (h : op.slot ≠ none) : (f.apply op t).index = f.index := by
  cases op with
  | writePart i c => rfl
  | deletePart i => rfl
  | writeIndex index => exact absurd rfl h

theorem holds_apply_of_ne {op' : Op} (hne : op.slot ≠ op'.slot)
    (hop : ∀ i, op.slot = some i → i < maxSlots) (hop' : ∀ i, op'.slot = some i → i < maxSlots)
    (h : f.Holds op) : (f.apply op' t).Holds op := by
  have hparts : ∀ i, op.slot = some i →
      (f.apply op' t).parts (configBundlePartPath i) = f.parts (configBundlePartPath i) := by
    intro i hi
    refine parts_apply_of_ne fun j hj hij => ?_
    have hsame := configBundlePartPath_inj i (hop i hi) j (hop' j hj) hij
    exact hne (by rw [hi, hj, hsame])
  cases op with
  | writePart i c | deletePart i => rw [Files.Holds, hparts i rfl]; exact h
  | writeIndex index => rw [Files.Holds, index_apply (Ne.symm hne)]; exact h

section

variable {p : Bytes} {ops : List Op}

section

variable (h : writeFilterConfigBundle p = .ok ops)

include h

theorem mem_ops_iff :
    op ∈ ops ↔ (∃ i < maxSlots, op = slotOp (chunks p) i) ∨ op = .writeIndex (bundleIndex p) := by
  obtain ⟨-, rfl⟩ := writeFilterConfigBundle_eq_ok_iff.mp h
  simp [eq_comm]

theorem slot_lt_of_mem (hop : op ∈ ops) (i : Nat) (hi : op.slot = some i) : i < maxSlots := by
  rcases (mem_ops_iff h).mp hop with ⟨j, hj, rfl⟩ | rfl
  · rw [slot_slotOp] at hi
    cases hi
    exact hj
  · cases hi

theorem nodup_slots : (ops.map Op.slot).Nodup := by
  obtain ⟨-, rfl⟩ := writeFilterConfigBundle_eq_ok_iff.mp h
  have hslots : ((List.range maxSlots).map (slotOp (chunks p))).map Op.slot =
      (List.range maxSlots).map some := by
    rw [map_map]
    exact map_congr_left fun i _ => slot_slotOp _ i
  have hall : ((List.range maxSlots).map some ++ [none]).Nodup := by decide
  rw [map_append, hslots]
  exact hall

end

theorem last_op {done : List Op} (h : writeFilterConfigBundle p = .ok (done ++ [op])) :
    op = .writeIndex (bundleIndex p) := by
  obtain ⟨-, heq⟩ := writeFilterConfigBundle_eq_ok_iff.mp h
  exact singleton_inj.mp (append_inj' heq rfl).2

theorem holds_of_done {done rest : List Op}
    (h : writeFilterConfigBundle p = .ok (done ++ op :: rest)) (hdone : ∀ op' ∈ done, f.Holds op') :
    ∀ op' ∈ done ++ [op], (f.apply op t).Holds op' := by
  intro op' hop'
  have hnodup := nodup_slots h
  rw [map_append] at hnodup
  rcases mem_append.mp hop' with hop' | hop'
  · refine holds_apply_of_ne ?_ (slot_lt_of_mem h (mem_append_left _ hop'))
      (slot_lt_of_mem h (by simp)) (hdone op' hop')
    intro hsame
    exact disjoint_of_nodup_append hnodup (mem_map_of_mem hop') (hsame ▸ mem_cons_self)
  · obtain rfl := mem_singleton.mp hop'
    exact holds_apply f op' t

end

/-- What a step of the writer can do. -/
inductive Effect (f : Files) (w : Writer) : Files → Writer → Prop
  | refused (p : Bytes) : Effect f w f ⟨none, w.payloads ++ [p], none⟩
  | started {p : Bytes} {ops : List Op} (hops : writeFilterConfigBundle p = .ok ops) :
    Effect f w f ⟨some (p, ops), w.payloads ++ [p], none⟩
  | done {p : Bytes} {op : Op} {ops : List Op} {t : Nat} (hrun : w.run = some (p, op :: ops))
    (ht : f.clock < t) : Effect f w (f.apply op t) ⟨some (p, ops), w.payloads, none⟩
  | finished {p : Bytes} {op : Op} {t : Nat} (hrun : w.run = some (p, [op])) (ht : f.clock < t) :
    Effect f w (f.apply op t) ⟨none, w.payloads, some p⟩
  | failed {p : Bytes} {op : Op} {ops : List Op} {t : Nat} (hrun : w.run = some (p, op :: ops))
    (ht : f.clock < t) : Effect f w (f.apply op t) ⟨none, w.payloads, none⟩
  | lost : Effect f w f ⟨none, w.payloads, none⟩

variable {w : Writer}

theorem effect_of_writerStep {e : WriterEvent} {r : Files × Writer} (h : writerStep f w e = some r) :
    Effect f w r.1 r.2 := by
  cases e with
  | start p =>
    simp only [writerStep] at h
    split at h
    · cases h
    · split at h
      · cases h
        exact .refused p
      · next ops hops =>
        cases h
        exact .started hops
  | succeed t =>
    simp only [writerStep] at h
    split at h
    · next p op ops hrun =>
      split at h
      · next ht =>
        cases h
        by_cases hops : ops = []
        · subst hops
          exact .finished hrun ht
        · rw [if_neg hops]
          exact .done hrun ht
      · cases h
    · cases h
  | fail applied t =>
    simp only [writerStep] at h
    split at h
    · next p op ops hrun =>
      split at h
      · next ht =>
        cases h
        cases applied with
        | true => exact .failed hrun ht
        | false => exact .lost
      · cases h
    · cases h

/-- What is on disk comes from the payloads and is not younger than the clock. -/
structure OnDisk (payloads : List Bytes) (f : Files) : Prop where
  index : ∀ file, f.index = some file → IndexOf payloads file.content ∧ file.modTime ≤ f.clock
  part : ∀ path file, f.parts path = some file →
    ChunkOf payloads file.content ∧ file.modTime ≤ f.clock

theorem OnDisk.mono {payloads payloads' : List Bytes} (hsub : payloads ⊆ payloads')
    (h : OnDisk payloads f) : OnDisk payloads' f where
  index file hfile := (h.index file hfile).imp_left (IndexOf.mono hsub)
  part path file hfile := (h.part path file hfile).imp_left (ChunkOf.mono hsub)

theorem clock_le_apply (ht : f.clock < t) : f.clock ≤ (f.apply op t).clock := by
  cases op with
  | writePart i c | writeIndex index => exact Nat.le_of_lt ht
  | deletePart i => exact Nat.le_refl _

variable {p : Bytes} {payloads : List Bytes}

theorem OnDisk.apply {ops : List Op} (h : OnDisk payloads f) (hp : p ∈ payloads)
    (hops : writeFilterConfigBundle p = .ok ops) (hop : op ∈ ops) (ht : f.clock < t) :
    OnDisk payloads (f.apply op t) := by
  have hclock : f.clock ≤ (f.apply op t).clock := clock_le_apply ht
  constructor
  · intro file hfile
    cases hslot : op.slot with
    | some i =>
      rw [index_apply (by rw [hslot]; simp)] at hfile
      obtain ⟨hindex, hle⟩ := h.index file hfile
      exact ⟨hindex, by omega⟩
    | none =>
      rcases (mem_ops_iff hops).mp hop with ⟨i, -, rfl⟩ | rfl
      · rw [slot_slotOp] at hslot
        cases hslot
      · cases hfile
        exact ⟨⟨p, hp, (writeFilterConfigBundle_eq_ok_iff.mp hops).1, rfl⟩, Nat.le_refl _⟩
  · intro path file hfile
    by_cases hpath : ∃ i, op.slot = some i ∧ path = configBundlePartPath i
    · obtain ⟨i, hi, rfl⟩ := hpath
      rcases (mem_ops_iff hops).mp hop with ⟨j, -, rfl⟩ | rfl
      · rw [slot_slotOp, Option.some.injEq] at hi
        subst hi
        cases hc : (chunks p)[j]? with
        | none =>
          simp only [slotOp, hc, Files.apply, Function.update_self] at hfile
          cases hfile
        | some c =>
          simp only [slotOp, hc, Files.apply, Function.update_self] at hfile ⊢
          cases hfile
          exact ⟨⟨p, hp, mem_of_getElem? hc⟩, Nat.le_refl _⟩
      · cases hi
    · rw [parts_apply_of_ne fun i hi heq => hpath ⟨i, hi, heq⟩] at hfile
      obtain ⟨hchunk, hle⟩ := h.part path file hfile
      exact ⟨hchunk, by omega⟩

/-- What the present run has done is there, and all that the last run has done if it has
succeeded; then the index is the newest file. -/
structure Stored (f : Files) (w : Writer) : Prop where
  disk : OnDisk w.payloads f
  running : ∀ p ops, w.run = some (p, ops) → p ∈ w.payloads ∧
    ∃ done, writeFilterConfigBundle p = .ok (done ++ ops) ∧ ∀ op ∈ done, f.Holds op
  succeeded : ∀ p, w.lastRun = some p → p ∈ w.payloads ∧
    (∃ ops, writeFilterConfigBundle p = .ok ops ∧ ∀ op ∈ ops, f.Holds op) ∧
    ∀ file, f.index = some file → file.modTime = f.clock

theorem stored_new : Stored Files.empty Writer.new where
  disk := ⟨fun _ h => (by cases h), fun _ _ h => (by cases h)⟩
  running _ _ h := by cases h
  succeeded _ h := by cases h

theorem Stored.apply {ops : List Op} (h : Stored f w) (hrun : w.run = some (p, op :: ops))
    (ht : f.clock < t) : OnDisk w.payloads (f.apply op t) := by
  obtain ⟨hp, done, hops, -⟩ := h.running p _ hrun
  exact h.disk.apply hp hops (by simp) ht

variable {w' : Writer} {f' : Files}

theorem stored_effect (h : Stored f w) (he : Effect f w f' w') : Stored f' w' := by
  cases he with
  | refused p =>
    exact ⟨h.disk.mono (subset_append_left _ _), fun _ _ hr => (by cases hr), fun _ hr => (by cases hr)⟩
  | started hops =>
    refine ⟨h.disk.mono (subset_append_left _ _), fun p' ops' hr => ?_, fun _ hr => (by cases hr)⟩
    cases hr
    exact ⟨by simp, [], hops, fun _ hop => (by cases hop)⟩
  | done hrun ht =>
    refine ⟨h.apply hrun ht, fun p' ops' hr => ?_, fun _ hr => (by cases hr)⟩
    cases hr
    obtain ⟨hp, done, hops, hdone⟩ := h.running _ _ hrun
    refine ⟨hp, done ++ [_], ?_, holds_of_done hops hdone⟩
    rw [hops, append_assoc]
    rfl
  | finished hrun ht =>
    refine ⟨h.apply hrun ht, fun _ _ hr => (by cases hr), fun p' hr => ?_⟩
    cases hr
    obtain ⟨hp, done, hops, hdone⟩ := h.running _ _ hrun
    refine ⟨hp, ⟨_, hops, holds_of_done hops hdone⟩, fun file hfile => ?_⟩
    obtain rfl := last_op hops
    cases hfile
    rfl
  | failed hrun ht =>
    exact ⟨h.apply hrun ht, fun _ _ hr => (by cases hr), fun _ hr => (by cases hr)⟩
  | lost => exact ⟨h.disk, fun _ _ hr => (by cases hr), fun _ hr => (by cases hr)⟩

theorem Effect.payloads_subset (h : Effect f w f' w') : w.payloads ⊆ w'.payloads := by
  cases h with
  | refused p | started hops => exact subset_append_left _ _
  | done hrun ht | finished hrun ht | failed hrun ht | lost => exact List.Subset.refl _

theorem Effect.clock_le (h : Effect f w f' w') : f.clock ≤ f'.clock := by
  cases h with
  | refused p | started hops | lost => exact Nat.le_refl _
  | done hrun ht | finished hrun ht | failed hrun ht => exact clock_le_apply ht

/-- A run succeeds with the index, which is newer than all that was there. -/
theorem Effect.clock_lt (h : Effect f w f' w') (hstored : Stored f w)
    (hp : w'.lastRun = some p) : f.clock < f'.clock := by
  cases h with
  | finished hrun ht =>
    obtain ⟨-, done, hops, -⟩ := hstored.running _ _ hrun
    obtain rfl := last_op hops
    exact ht
  | _ => cases hp

theorem Stored.parts_of_lastRun (h : Stored f w) (hlast : w.lastRun = some p) {i : Nat} (hi : i < maxSlots) :
    (f.parts (configBundlePartPath i)).map Stamped.content = (chunks p)[i]? := by
  obtain ⟨-, ⟨ops, hops, hholds⟩, -⟩ := h.succeeded p hlast
  exact holds_slotOp.mp (hholds _ ((mem_ops_iff hops).mpr (.inl ⟨i, hi, rfl⟩)))

theorem Stored.index_of_lastRun (h : Stored f w) (hlast : w.lastRun = some p) :
    f.index = some ⟨bundleIndex p, f.clock⟩ := by
  obtain ⟨-, ⟨ops, hops, hholds⟩, hclock⟩ := h.succeeded p hlast
  have hindex : f.index.map Stamped.content = some (bundleIndex p) :=
    hholds _ ((mem_ops_iff hops).mpr (.inr rfl))
  obtain ⟨file, hfile, hcontent⟩ := Option.map_eq_some_iff.mp hindex
  rw [hfile, ← hcontent, ← hclock file hfile]

/-! ## The watcher -/

section

variable {γ : Type} {d : Decoder γ}

/-- What a step of the watcher can do. -/
inductive Progress (d : Decoder γ) (f : Files) (x : Watcher γ) : Watcher γ → Prop
  | stopped : Progress d f x { x with phase := .idle }
  | indexRead {file : Stamped ConfigBundleIndex} (hfile : f.index = some file) :
    Progress d f x { x with phase := .statIndex file.content }
  | indexSeen {index : ConfigBundleIndex} {file : Stamped ConfigBundleIndex}
    (hx : x.phase = .statIndex index) (hfile : f.index = some file) :
    Progress d f x { x with phase := .statParts index file.modTime index.parts }
  | partSeen {index : ConfigBundleIndex} {maxMod : Nat} {path : String} {todo : List String}
    {file : Stamped Bytes} (hx : x.phase = .statParts index maxMod (path :: todo))
    (hfile : f.parts path = some file) :
    Progress d f x { x with phase := .statParts index (max maxMod file.modTime) todo }
  | newer {index : ConfigBundleIndex} {maxMod : Nat} (hx : x.phase = .statParts index maxMod [])
    (hnew : x.lastMod < maxMod) :
    Progress d f x { x with phase := .readParts index maxMod [] index.parts }
  | partRead {index : ConfigBundleIndex} {maxMod : Nat} {payload : Bytes} {path : String}
    {todo : List String} {file : Stamped Bytes}
    (hx : x.phase = .readParts index maxMod payload (path :: todo))
    (hfile : f.parts path = some file) :
    Progress d f x { x with phase := .readParts index maxMod (payload ++ file.content) todo }
  | delivered {index : ConfigBundleIndex} {maxMod : Nat} {payload : Bytes} {config : γ}
    (accepted : Bool) (hx : x.phase = .readParts index maxMod payload [])
    (hsum : configBundleChecksum payload = toLower index.checksum)
    (hconfig : d.unmarshal payload = some config) :
    Progress d f x ⟨.idle, if accepted then maxMod else x.lastMod, x.calls ++ [(config, accepted)]⟩

variable {x : Watcher γ} {maxMod : Nat}

theorem progress_deliver {payload : Bytes} (accepted : Bool)
    (hx : x.phase = .readParts index maxMod payload []) :
    Progress d f x (deliver d x index maxMod payload accepted) := by
  unfold deliver
  split
  · exact .stopped
  · next hsum =>
    split
    · exact .stopped
    · next config hconfig =>
      split
      · exact .stopped
      · exact .delivered accepted hx (not_not.mp hsum) hconfig

theorem progress_of_watcherStep (f : Files) (x : Watcher γ) (e : WatcherEvent) :
    Progress d f x (watcherStep d f x e) := by
  cases e with
  | abort => exact .stopped
  | step accepted =>
    simp only [watcherStep]
    split
    · next hx =>
      split
      · have hsame : { x with phase := .idle } = x := by rw [← hx]
        exact hsame ▸ Progress.stopped
      · next hfile => exact .indexRead hfile
    · next hx =>
      split
      · exact .stopped
      · next hfile =>
        split
        · exact .indexSeen hx hfile
        · exact .stopped
    · next hx =>
      split
      · exact .stopped
      · next hfile => exact .partSeen hx hfile
    · next hx =>
      split
      · exact .stopped
      · next hnew => exact .newer hx (Nat.lt_of_not_le hnew)
    · next hx =>
      split
      · exact .stopped
      · next hfile => exact .partRead hx hfile
    · next hx => exact progress_deliver accepted hx

/-- The config was decoded from bytes with the checksum of a payload, read under its index. -/
def Genuine (d : Decoder γ) (payloads : List Bytes) (config : γ) : Prop :=
  ∃ p ∈ payloads, ∃ x, Reassembled payloads p x ∧ Sha256.sum256 x = Sha256.sum256 p ∧
    d.unmarshal x = some config

/-- What a tick knows so far. -/
def Phase.Sound (payloads : List Bytes) (clock lastMod : Nat) : Phase → Prop
  | .idle => True
  | .statIndex index => IndexOf payloads index
  | .statParts index maxMod _ => IndexOf payloads index ∧ maxMod ≤ clock
  | .readParts index maxMod payload todo =>
    IndexOf payloads index ∧ lastMod < maxMod ∧ maxMod ≤ clock ∧
      ∃ cs : List Bytes, (∀ c ∈ cs, ChunkOf payloads c) ∧ cs.flatten = payload ∧
        cs.length + todo.length = index.parts.length

structure Watched (d : Decoder γ) (payloads : List Bytes) (clock : Nat) (x : Watcher γ) : Prop where
  lastMod : x.lastMod ≤ clock
  phase : x.phase.Sound payloads clock x.lastMod
  calls : ∀ call ∈ x.calls, Genuine d payloads call.1

theorem watched_new : Watched d [] 0 Watcher.new :=
  ⟨Nat.le_refl _, trivial, fun _ h => (by cases h)⟩

theorem Watched.mono {payloads' : List Bytes} {clock clock' : Nat} (hsub : payloads ⊆ payloads')
    (hclock : clock ≤ clock') (h : Watched d payloads clock x) : Watched d payloads' clock' x := by
  refine ⟨by have := h.lastMod; omega, ?_, ?_⟩
  · have hphase := h.phase
    cases hx : x.phase with
    | idle => trivial
    | statIndex index =>
      rw [hx] at hphase
      exact hphase.mono hsub
    | statParts index maxMod todo =>
      rw [hx] at hphase
      exact ⟨hphase.1.mono hsub, by have := hphase.2; omega⟩
    | readParts index maxMod payload todo =>
      rw [hx] at hphase
      obtain ⟨hindex, hnew, hle, cs, hcs, hread⟩ := hphase
      exact ⟨hindex.mono hsub, hnew, by omega, cs, fun c hc => (hcs c hc).mono hsub, hread⟩
  · intro call hcall
    obtain ⟨p, hp, y, hy, hsum, hconfig⟩ := h.calls call hcall
    exact ⟨p, hsub hp, y, hy.mono hsub, hsum, hconfig⟩

theorem genuine_of_sum {clock lastMod : Nat} {payload : Bytes}
    (h : (Phase.readParts index maxMod payload []).Sound payloads clock lastMod)
    (hsum : configBundleChecksum payload = toLower index.checksum) :
    ∃ p ∈ payloads, Reassembled payloads p payload ∧ Sha256.sum256 payload = Sha256.sum256 p := by
  obtain ⟨⟨p, hp, -, rfl⟩, -, -, cs, hcs, hflat, hlen⟩ := h
  refine ⟨p, hp, ⟨cs, ?_, hcs, hflat⟩, ?_⟩
  · simpa [bundleIndex] using hlen
  · rw [show (bundleIndex p).checksum = configBundleChecksum p from rfl, toLower_configBundleChecksum] at hsum
    exact configBundleChecksum_eq_iff.mp hsum

theorem watched_progress {x' : Watcher γ} (hdisk : OnDisk payloads f)
    (h : Watched d payloads f.clock x) (hstep : Progress d f x x') :
    Watched d payloads f.clock x' := by
  have hphase := h.phase
  cases hstep with
  | stopped => exact ⟨h.lastMod, trivial, h.calls⟩
  | indexRead hfile => exact ⟨h.lastMod, (hdisk.index _ hfile).1, h.calls⟩
  | indexSeen hx hfile =>
    rw [hx] at hphase
    exact ⟨h.lastMod, ⟨hphase, (hdisk.index _ hfile).2⟩, h.calls⟩
  | partSeen hx hfile =>
    rw [hx] at hphase
    have hle := (hdisk.part _ _ hfile).2
    exact ⟨h.lastMod, ⟨hphase.1, by have := hphase.2; omega⟩, h.calls⟩
  | newer hx hnew =>
    rw [hx] at hphase
    exact ⟨h.lastMod, ⟨hphase.1, hnew, hphase.2, [], fun _ hc => (by cases hc), rfl, by simp⟩, h.calls⟩
  | @partRead _ _ _ _ _ file hx hfile =>
    rw [hx] at hphase
    obtain ⟨hindex, hnew, hle, cs, hcs, rfl, hlen⟩ := hphase
    refine ⟨h.lastMod, ⟨hindex, hnew, hle, cs ++ [file.content], ?_, by simp, ?_⟩, h.calls⟩
    · exact forall_mem_append.mpr ⟨hcs, forall_mem_singleton.mpr (hdisk.part _ _ hfile).1⟩
    · rw [length_append, length_singleton]
      rw [length_cons] at hlen
      omega
  | delivered accepted hx hsum hconfig =>
    rw [hx] at hphase
    refine ⟨?_, trivial, ?_⟩
    · have hle := hphase.2.2.1
      have hlast := h.lastMod
      split
      · exact hle
      · exact hlast
    · obtain ⟨p, hp, hread, hsum⟩ := genuine_of_sum hphase hsum
      exact forall_mem_append.mpr ⟨h.calls, forall_mem_singleton.mpr ⟨p, hp, _, hread, hsum, hconfig⟩⟩

/-! ## After a run that has succeeded -/

theorem length_parts (p : Bytes) : (bundleIndex p).parts.length = (chunks p).length := by
  simp [bundleIndex]

/-- A tick that has seen the newest file reads the parts of the last payload. -/
def Phase.ReadsLast (p : Bytes) (clock : Nat) : Phase → Prop
  | .readParts index maxMod payload todo => clock ≤ maxMod →
    ∃ k, todo = index.parts.drop k ∧ payload = ((chunks p).take k).flatten
  | _ => True

/-- The watcher once the run for `p` has succeeded: if it has loaded a bundle that is as new as the
files are, it was a prefix of `p`. -/
structure Settled (d : Decoder γ) (payloads : List Bytes) (clock : Nat) (p : Bytes) (x : Watcher γ) :
    Prop where
  phase : x.phase.ReadsLast p clock
  loaded : clock ≤ x.lastMod → ∃ q ∈ payloads, ∃ y, Reassembled payloads q y ∧
    Sha256.sum256 y = Sha256.sum256 q ∧ y <+: p ∧
    ∃ config, d.unmarshal y = some config ∧ x.calls.getLast? = some (config, true)

/-- When the index is written, nothing that the watcher has seen is as new. -/
theorem Watched.settled {clock : Nat} (h : Watched d payloads clock x) (ht : clock < t) (p : Bytes) :
    Settled d payloads t p x := by
  constructor
  · have hphase := h.phase
    cases hx : x.phase with
    | readParts index maxMod payload todo =>
      rw [hx] at hphase
      intro hle
      have hbound := hphase.2.2.1
      omega
    | idle | statIndex index | statParts index maxMod todo => trivial
  · have hbound := h.lastMod
    omega

theorem Stored.read_next {k : Nat} {path : String} {todo : List String} {file : Stamped Bytes}
    (h : Stored f w) (hlast : w.lastRun = some p) (hindex : IndexOf w.payloads index)
    (htodo : path :: todo = index.parts.drop k) (hfile : f.parts path = some file) :
    todo = index.parts.drop (k + 1) ∧
      ((chunks p).take k).flatten ++ file.content = ((chunks p).take (k + 1)).flatten := by
  obtain ⟨q, -, hslots, rfl⟩ := hindex
  have hk : k < (bundleIndex q).parts.length := by
    have hlen := congrArg List.length htodo
    rw [length_cons, length_drop] at hlen
    omega
  rw [drop_eq_getElem_cons hk, List.cons.injEq] at htodo
  rw [length_parts] at hk
  have hpath : path = configBundlePartPath k := by simpa [bundleIndex] using htodo.1
  have hpart := h.parts_of_lastRun hlast (show k < maxSlots by omega)
  rw [← hpath, hfile, Option.map_some] at hpart
  refine ⟨htodo.2, ?_⟩
  rw [take_add_one, ← hpart, Option.toList_some, flatten_append, flatten_singleton]

theorem settled_progress {x' : Watcher γ} (hstored : Stored f w) (hlast : w.lastRun = some p)
    (hwatched : Watched d w.payloads f.clock x) (h : Settled d w.payloads f.clock p x)
    (hstep : Progress d f x x') : Settled d w.payloads f.clock p x' := by
  have hphase := hwatched.phase
  have hreads := h.phase
  cases hstep with
  | stopped | indexRead hfile | indexSeen hx hfile | partSeen hx hfile => exact ⟨trivial, h.loaded⟩
  | newer hx hnew => exact ⟨fun _ => ⟨0, rfl, rfl⟩, h.loaded⟩
  | partRead hx hfile =>
    rw [hx] at hphase hreads
    refine ⟨fun hle => ?_, h.loaded⟩
    obtain ⟨k, htodo, rfl⟩ := hreads hle
    exact ⟨k + 1, hstored.read_next hlast hphase.1 htodo hfile⟩
  | @delivered index maxMod payload config accepted hx hsum hconfig =>
    rw [hx] at hphase hreads
    refine ⟨trivial, fun hle => ?_⟩
    obtain ⟨q, hq, hread, hsum⟩ := genuine_of_sum hphase hsum
    cases accepted with
    | true =>
      obtain ⟨k, -, rfl⟩ := hreads hle
      exact ⟨q, hq, _, hread, hsum, flatten_take_chunks p k, config, hconfig, getLast?_concat⟩
    | false =>
      -- the tick has seen something newer than what was loaded, so that was not the newest
      have hnew := hphase.2.1
      have hbound := hphase.2.2.1
      simp only [Bool.false_eq_true, if_false] at hle
      omega

section

variable {f : Files} {cs : List Bytes} {paths : List String}
  (h : List.Forall₂ (fun c path => (f.parts path).map Stamped.content = some c) cs paths)
include h

theorem statParts_eq (hold : ∀ path file, f.parts path = some file → file.modTime ≤ maxMod) :
    statParts f maxMod paths = some maxMod := by
  induction h with
  | nil => rfl
  | cons hpart _ ih =>
    obtain ⟨file, hfile, -⟩ := Option.map_eq_some_iff.mp hpart
    rw [statParts, hfile]
    dsimp only
    rw [Nat.max_eq_left (hold _ file hfile), ih]

theorem readParts_eq (payload : Bytes) : readParts f payload paths = some (payload ++ cs.flatten) := by
  induction h generalizing payload with
  | nil => rw [readParts, flatten_nil, append_nil]
  | cons hpart _ ih =>
    obtain ⟨file, hfile, rfl⟩ := Option.map_eq_some_iff.mp hpart
    rw [readParts, hfile]
    dsimp only
    rw [ih, flatten_cons, append_assoc]

end

theorem Stored.forall₂_parts (h : Stored f w) (hlast : w.lastRun = some p) :
    List.Forall₂ (fun c path => (f.parts path).map Stamped.content = some c) (chunks p)
      (bundleIndex p).parts := by
  have hslots : (chunks p).length ≤ maxSlots := by
    obtain ⟨-, ⟨ops, hops, -⟩, -⟩ := h.succeeded p hlast
    exact (writeFilterConfigBundle_eq_ok_iff.mp hops).1
  rw [forall₂_iff_get]
  refine ⟨(length_parts p).symm, fun i hi hi' => ?_⟩
  have hpart := h.parts_of_lastRun hlast (show i < maxSlots by omega)
  rw [getElem?_eq_getElem hi] at hpart
  simpa [bundleIndex] using hpart

/-- A tick on the files of the last payload: it is skipped if what is loaded is as new. -/
theorem loadConfig_of_lastRun {config : γ} (hstored : Stored f w) (hlast : w.lastRun = some p)
    (hconfig : d.unmarshal p = some config) (hversion : d.version config = d.versionStr)
    (accepted : Bool) :
    (loadConfig d f x accepted).calls =
      if f.clock ≤ x.lastMod then x.calls else x.calls ++ [(config, accepted)] := by
  have hparts := hstored.forall₂_parts hlast
  have hstat : statParts f f.clock (bundleIndex p).parts = some f.clock :=
    statParts_eq hparts fun path file hfile => (hstored.disk.part path file hfile).2
  have hread : readParts f [] (bundleIndex p).parts = some p := by
    rw [readParts_eq hparts, nil_append, flatten_chunks]
  unfold loadConfig
  rw [hstored.index_of_lastRun hlast]
  dsimp only
  rw [if_pos (validIndex_bundleIndex p), hstat]
  dsimp only
  split
  · rfl
  · rw [hread]
    dsimp only
    rw [deliver, if_neg (by simp [bundleIndex, toLower_configBundleChecksum]), hconfig]
    dsimp only
    rw [if_neg (by simpa using hversion)]

/-! ## Top theorem -/

/-- The writer and the watcher, from nothing on. -/
def start (γ : Type) : State Files Writer (Watcher γ) := ⟨.empty, .new, .new⟩

theorem reachable {s : State Files Writer (Watcher γ)}
    (h : Run (Step writerStep (watcherStep d)) (start γ) s) :
    Stored s.memory s.writer ∧ Watched d s.writer.payloads s.memory.clock s.reader ∧
      ∀ p, s.writer.lastRun = some p → Settled d s.writer.payloads s.memory.clock p s.reader := by
  refine Interleaving.invariant (I := Stored) (J := fun f w x => Watched d w.payloads f.clock x ∧
    ∀ p, w.lastRun = some p → Settled d w.payloads f.clock p x) stored_new
    ⟨watched_new, fun p hp => (by cases hp)⟩ ?_ ?_ ?_ h
  · intro f w e r hstored hstep
    exact stored_effect hstored (effect_of_writerStep hstep)
  · rintro f w e ⟨f', w'⟩ x hstored ⟨hwatched, -⟩ hstep
    have heffect := effect_of_writerStep hstep
    have hsub := heffect.payloads_subset
    refine ⟨hwatched.mono hsub heffect.clock_le, fun p hp => ?_⟩
    exact (hwatched.mono hsub (Nat.le_refl _)).settled (heffect.clock_lt hstored hp) p
  · rintro f w e x hstored ⟨hwatched, hsettled⟩
    have hstep := progress_of_watcherStep (d := d) f x e
    exact ⟨watched_progress hstored.disk hwatched hstep, fun p hp =>
      settled_progress hstored hp hwatched (hsettled p hp) hstep⟩

/-- In every interleaving, what the watcher delivers is the decoding of a whole payload; and once
writing has stopped after a run that succeeded, the next tick leaves the payload of that run
delivered: the receiver has accepted it last, or rejects it now. -/
theorem delivers_whole_payloads (d : Decoder γ) {s : State Files Writer (Watcher γ)}
    (hrun : Run (Step writerStep (watcherStep d)) (start γ) s)
    (hcollision : CollisionFree s.writer.payloads) :
    (∀ call ∈ s.reader.calls, ∃ p ∈ s.writer.payloads, d.unmarshal p = some call.1) ∧
    ∀ p, s.writer.lastRun = some p → PrefixFree s.writer.payloads → s.reader.phase = .idle →
      ∀ config, d.unmarshal p = some config → d.version config = d.versionStr → ∀ accepted,
        ∃ x, Tick d s.memory accepted s.reader x ∧
          (x.calls.getLast? = some (config, true) ∨
            accepted = false ∧ x.calls.getLast? = some (config, false)) := by
  obtain ⟨hstored, hwatched, hsettled⟩ := reachable hrun
  constructor
  · intro call hcall
    obtain ⟨p, hp, y, hread, hsum, hconfig⟩ := hwatched.calls call hcall
    rw [hcollision p hp y hread hsum] at hconfig
    exact ⟨p, hp, hconfig⟩
  · intro p hlast hproper hidle config hconfig hversion accepted
    refine ⟨_, tick_loadConfig hidle, ?_⟩
    rw [loadConfig_of_lastRun hstored hlast hconfig hversion]
    split
    · next hle =>
      -- what is loaded is a prefix of the last payload, and so the payload itself
      obtain ⟨q, hq, y, hread, hsum, hpre, config', hconfig', hcall⟩ := (hsettled p hlast).loaded hle
      rw [hcollision q hq y hread hsum] at hpre hconfig'
      rw [hproper p (hstored.succeeded p hlast).1 q hq hpre, hconfig] at hconfig'
      cases hconfig'
      exact .inl hcall
    · rw [getLast?_concat]
      cases accepted with
      | true => exact .inl rfl
      | false => exact .inr ⟨rfl, rfl⟩

end

/-- A decoder that takes payloads as they are. -/
def plainDecoder : Decoder Bytes := ⟨some, fun _ => "v1", "v1"⟩

/-- The first run fails when its part is written and a tick has looked for the index; the second one
succeeds, while a tick reads. -/
def twoRuns : List (Event WriterEvent WatcherEvent) :=
  [.write (.start [1]), .read (.step true), .write (.fail true 1), .write (.start [2])] ++
    (List.range' 2 8).map (fun t => .write (.succeed t)) ++
    [.read (.step true), .write (.succeed 10), .read (.step true), .read .abort]

theorem collisionFree_twoRuns : CollisionFree [[1], [2]] := by
  have hchunks : ∀ p ∈ [[1], [2]], chunks p = [p] := by decide
  rintro p hp _ ⟨cs, hlen, hcs, rfl⟩ hsum
  rw [hchunks p hp] at hlen
  obtain ⟨c, rfl⟩ := length_eq_one_iff.mp hlen
  obtain ⟨q, hq, hc⟩ := hcs c mem_cons_self
  rw [hchunks q hq] at hc
  obtain rfl := mem_singleton.mp hc
  rw [flatten_singleton] at hsum ⊢
  have hinj : ∀ p ∈ [[1], [2]], ∀ q ∈ [[1], [2]], Sha256.sum256 q = Sha256.sum256 p → q = p := by
    decide +kernel
  exact hinj p hp _ hq hsum

/-- The second payload is delivered by the next tick. -/
theorem second_payload_is_delivered :
    ∃ s, exec writerStep (watcherStep plainDecoder) (start Bytes) twoRuns = some s ∧
      s.writer.lastRun = some [2] ∧
      ∃ x, Tick plainDecoder s.memory true s.reader x ∧ x.calls.getLast? = some ([2], true) := by
  have hend : (exec writerStep (watcherStep plainDecoder) (start Bytes) twoRuns).map
      (fun s => (s.writer.payloads, s.writer.lastRun, s.reader.phase)) =
        some ([[1], [2]], some [2], .idle) := by decide
  obtain ⟨s, hs, hfacts⟩ := Option.map_eq_some_iff.mp hend
  obtain ⟨hpayloads, hlast, hidle⟩ : s.writer.payloads = [[1], [2]] ∧ s.writer.lastRun = some [2] ∧
      s.reader.phase = .idle := by simpa using hfacts
  have hproper : PrefixFree [[1], [2]] := by
    unfold PrefixFree
    decide
  obtain ⟨x, hx, hcall | ⟨hrejected, -⟩⟩ := (delivers_whole_payloads plainDecoder (run_of_exec .start hs)
    (hpayloads ▸ collisionFree_twoRuns)).2 [2] hlast (hpayloads ▸ hproper) hidle [2] rfl rfl true
  · exact ⟨s, hs, hlast, x, hx, hcall⟩
  · cases hrejected

end AgentRouter.ConfigBundle
