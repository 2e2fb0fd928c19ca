import AgentRouter.Lib.Interleaving
import AgentRouter.Lib.Sha256
import AgentRouter.Lib.Text

/-!
# Protocol: the filter config as a bundle of files

The controller splits the config of the external processor into parts, stores each in a Secret of a
fixed slot and writes an index with the checksum of the whole last; the Secrets are mounted as files.
On each tick the watcher skips a bundle that is not newer than the last one it loaded, reassembles
the parts that the index names, compares the checksum and hands the decoded config on.

The writer and the watcher know nothing of each other.  A run of the writer is a list of
operations, each of which can fail, and a tick of the watcher reads one file at a time:

    what the steps of one tick do to files that stand still is `loadConfig`   (tick_loadConfig)
-/

namespace AgentRouter.ConfigBundle

open Text List

/-! ## The writer -/

/-- `filterConfigBundlePartSizeBytes`. -/
def partSizeBytes : Nat := 700 * 1024

/-- `maxFilterConfigBundleSlots`. -/
def maxSlots : Nat := 8

def splitBytes (raw : Bytes) (chunkSize : Nat) : List Bytes :=
  if raw = [] then [[]]
  else
    (List.range ((raw.length + chunkSize - 1) / chunkSize)).map fun i =>
      (raw.drop (i * chunkSize)).take chunkSize

/-- The parts of a payload. -/
def chunks (payload : Bytes) : List Bytes := splitBytes payload partSizeBytes

/-- `parts/%03d`. -/
def configBundlePartPath (idx : Nat) : String :=
  "parts/" ++ String.ofList (List.replicate (3 - idx.repr.length) '0') ++ idx.repr

def configBundleChecksum (raw : Bytes) : String := String.ofList (Sha256.hex (Sha256.sum256 raw))

/-- `ConfigBundleIndex`; a part is its path. -/
structure ConfigBundleIndex where
  checksum : String
  parts : List String
  deriving DecidableEq

def bundleIndex (payload : Bytes) : ConfigBundleIndex :=
  ⟨configBundleChecksum payload, (List.range (chunks payload).length).map configBundlePartPath⟩

/-- A call of the API server that changes a file. -/
inductive Op where
  | writePart (slot : Nat) (chunk : Bytes)
  | deletePart (slot : Nat)
  | writeIndex (index : ConfigBundleIndex)

/-- What the loop does for a slot. -/
def slotOp (chunks : List Bytes) (slot : Nat) : Op :=
  match chunks[slot]? with
  | some chunk => .writePart slot chunk
  | none => .deletePart slot

/-- The operations of a run, in order: it goes on to the next when one has succeeded. -/
def writeFilterConfigBundle (payload : Bytes) : Except String (List Op) :=
  if maxSlots < (chunks payload).length then
    .error ("filter config requires " ++ (chunks payload).length.repr ++
      " shards, exceeds max supported slots " ++ maxSlots.repr)
  else
    .ok ((List.range maxSlots).map (slotOp (chunks payload)) ++ [.writeIndex (bundleIndex payload)])

/-! ## Files -/

/-- The content of a file and its modification time. -/
structure Stamped (α : Type) where
  content : α
  modTime : Nat

structure Files where
  index : Option (Stamped ConfigBundleIndex)
  /-- by path. -/
  parts : String → Option (Stamped Bytes)
  /-- the largest modification time so far. -/
  clock : Nat

def Files.empty : Files := ⟨none, fun _ => none, 0⟩

def Files.apply (f : Files) (op : Op) (t : Nat) : Files :=
  match op with
  | .writePart slot chunk =>
    { f with parts := Function.update f.parts (configBundlePartPath slot) (some ⟨chunk, t⟩), clock := t }
  | .deletePart slot => { f with parts := Function.update f.parts (configBundlePartPath slot) none }
  | .writeIndex index => { f with index := some ⟨index, t⟩, clock := t }

structure Writer where
  /-- the payload of the present run and what it still has to do. -/
  run : Option (Bytes × List Op)
  /-- the payloads of all runs. -/
  payloads : List Bytes
  /-- the payload of the last run, if that has succeeded. -/
  lastRun : Option Bytes

def Writer.new : Writer := ⟨none, [], none⟩

inductive WriterEvent where
  | start (payload : Bytes)
  /-- the next operation succeeds, with this modification time if it writes. -/
  | succeed (t : Nat)
  /-- the next operation reports an error, after it has taken effect or not. -/
  | fail (applied : Bool) (t : Nat)

/-- Runs come one after the other, and modification times grow. -/
def writerStep (f : Files) (w : Writer) : WriterEvent → Option (Files × Writer)
  | .start payload =>
    match w.run with
    | some _ => none
    | none =>
      match writeFilterConfigBundle payload with
      | .error _ => some (f, ⟨none, w.payloads ++ [payload], none⟩)
      | .ok ops => some (f, ⟨some (payload, ops), w.payloads ++ [payload], none⟩)
  | .succeed t =>
    match w.run with
    | some (payload, op :: ops) =>
      if f.clock < t then
        some (f.apply op t,
          if ops = [] then ⟨none, w.payloads, some payload⟩
          else ⟨some (payload, ops), w.payloads, none⟩)
      else none
    | _ => none
  | .fail applied t =>
    match w.run with
    | some (_, op :: _) =>
      if f.clock < t then
        some (if applied then f.apply op t else f, ⟨none, w.payloads, none⟩)
      else none
    | _ => none

/-! ## The watcher -/

/-- How the watcher reads a payload, and the version it takes. -/
structure Decoder (γ : Type) where
  unmarshal : Bytes → Option γ
  version : γ → String
  versionStr : String

/-- Where a tick stands between two file operations. -/
inductive Phase where
  | idle
  /-- the index has been read. -/
  | statIndex (index : ConfigBundleIndex)
  | statParts (index : ConfigBundleIndex) (maxMod : Nat) (todo : List String)
  | readParts (index : ConfigBundleIndex) (maxMod : Nat) (payload : Bytes) (todo : List String)
  deriving DecidableEq

structure Watcher (γ : Type) where
  phase : Phase
  lastMod : Nat
  /-- the calls of `LoadConfig`, and which of them returned no error. -/
  calls : List (γ × Bool)

def Watcher.new {γ : Type} : Watcher γ := ⟨.idle, 0, []⟩

/-- The checks of `UnmarshalConfigBundleIndex`. -/
def validIndex (index : ConfigBundleIndex) : Bool := index.checksum ≠ "" && index.parts ≠ []

section

variable {γ : Type} (d : Decoder γ)

/-- The end of a tick, once the parts have been read; `accepted` is what `LoadConfig` returns. -/
def deliver (w : Watcher γ) (index : ConfigBundleIndex) (maxMod : Nat) (payload : Bytes)
    (accepted : Bool) : Watcher γ :=
  if configBundleChecksum payload ≠ toLower index.checksum then { w with phase := .idle }
  else
    match d.unmarshal payload with
    | none => { w with phase := .idle }
    | some config =>
      if d.version config ≠ d.versionStr then { w with phase := .idle }
      else ⟨.idle, if accepted then maxMod else w.lastMod, w.calls ++ [(config, accepted)]⟩

inductive WatcherEvent where
  | step (accepted : Bool)
  /-- a file operation fails: the tick ends with an error. -/
  | abort

/-- Up to the next file operation. -/
def watcherStep (f : Files) (w : Watcher γ) : WatcherEvent → Watcher γ
  | .abort => { w with phase := .idle }
  | .step accepted =>
    match w.phase with
    | .idle =>
      match f.index with
      | none => w
      | some file => { w with phase := .statIndex file.content }
    | .statIndex index =>
      match f.index with
      | none => { w with phase := .idle }
      | some file =>
        if validIndex index then { w with phase := .statParts index file.modTime index.parts }
        else { w with phase := .idle }
    | .statParts index maxMod (path :: todo) =>
      match f.parts path with
      | none => { w with phase := .idle }
      | some file => { w with phase := .statParts index (max maxMod file.modTime) todo }
    | .statParts index maxMod [] =>
      if maxMod ≤ w.lastMod then { w with phase := .idle }
      else { w with phase := .readParts index maxMod [] index.parts }
    | .readParts index maxMod payload (path :: todo) =>
      match f.parts path with
      | none => { w with phase := .idle }
      | some file => { w with phase := .readParts index maxMod (payload ++ file.content) todo }
    | .readParts index maxMod payload [] => deliver d w index maxMod payload accepted

/-- The largest modification time, if all parts are there. -/
def statParts (f : Files) : Nat → List String → Option Nat
  | maxMod, [] => some maxMod
  | maxMod, path :: todo =>
    match f.parts path with
    | none => none
    | some file => statParts f (max maxMod file.modTime) todo

/-- The parts one after the other, if all are there. -/
def readParts (f : Files) : Bytes → List String → Option Bytes
  | payload, [] => some payload
  | payload, path :: todo =>
    match f.parts path with
    | none => none
    | some file => readParts f (payload ++ file.content) todo

/-- A tick on files that stand still. -/
def loadConfig (f : Files) (w : Watcher γ) (accepted : Bool) : Watcher γ :=
  match f.index with
  | none => w
  | some file =>
    if validIndex file.content then
      match statParts f file.modTime file.content.parts with
      | none => w
      | some maxMod =>
        if maxMod ≤ w.lastMod then w
        else
          match readParts f [] file.content.parts with
          | none => w
          | some payload => deliver d w file.content maxMod payload accepted
    else w

/-- The steps of a tick, up to the one that ends it. -/
inductive Tick (f : Files) (accepted : Bool) : Watcher γ → Watcher γ → Prop
  | last {w : Watcher γ} (h : (watcherStep d f w (.step accepted)).phase = .idle) :
    Tick f accepted w (watcherStep d f w (.step accepted))
  | next {w w' : Watcher γ} (h : (watcherStep d f w (.step accepted)).phase ≠ .idle)
    (hrest : Tick f accepted (watcherStep d f w (.step accepted)) w') : Tick f accepted w w'

end

/-! ## Parts and checksums -/

theorem flatten_range_map_take (raw : Bytes) (size n : Nat) :
    ((List.range n).map fun i => (raw.drop (i * size)).take size).flatten = raw.take (n * size) := by
  induction n with
  | zero => simp
  | succ n ih =>
    rw [range_succ, map_append, flatten_append, ih, Nat.succ_mul, take_add]
    simp

variable (payload : Bytes)

theorem flatten_chunks : (chunks payload).flatten = payload := by
  unfold chunks splitBytes
  split
  · next hnil => rw [hnil]; rfl
  · rw [flatten_range_map_take, take_of_length_le]
    have hsize : 0 < partSizeBytes := by decide
    have hceil := Nat.div_add_mod (payload.length + partSizeBytes - 1) partSizeBytes
    have hrest := Nat.mod_lt (payload.length + partSizeBytes - 1) hsize
    rw [Nat.mul_comm] at hceil
    omega

theorem chunks_ne_nil : chunks payload ≠ [] := by
  intro h
  have hflat := flatten_chunks payload
  rw [h] at hflat
  rw [← hflat] at h
  cases h

theorem flatten_take_chunks (k : Nat) : ((chunks payload).take k).flatten <+: payload := by
  refine ⟨((chunks payload).drop k).flatten, ?_⟩
  rw [← flatten_append, take_append_drop, flatten_chunks]

theorem toLower_configBundleChecksum (raw : Bytes) :
    toLower (configBundleChecksum raw) = configBundleChecksum raw := by
  unfold toLower configBundleChecksum
  rw [String.toList_ofList, map_congr_left fun c => Sha256.toLower_of_mem_hex, map_id']

theorem configBundleChecksum_eq_iff {a b : Bytes} :
    configBundleChecksum a = configBundleChecksum b ↔ Sha256.sum256 a = Sha256.sum256 b := by
  unfold configBundleChecksum
  constructor
  · intro h
    exact Sha256.hex_injective (String.ofList_inj.mp h)
  · intro h
    rw [h]

theorem validIndex_bundleIndex : validIndex (bundleIndex payload) = true := by
  have hchecksum : configBundleChecksum payload ≠ "" := by
    intro h
    have hlen := congrArg String.length h
    rw [configBundleChecksum, String.length_ofList, Sha256.length_hex, Sha256.length_sum256] at hlen
    cases hlen
  simp [validIndex, bundleIndex, hchecksum, chunks_ne_nil]

theorem configBundlePartPath_inj : ∀ i < maxSlots, ∀ j < maxSlots,
    configBundlePartPath i = configBundlePartPath j → i = j := by decide

theorem writeFilterConfigBundle_eq_ok_iff {payload : Bytes} {ops : List Op} :
    writeFilterConfigBundle payload = .ok ops ↔ (chunks payload).length ≤ maxSlots ∧
      ops = (List.range maxSlots).map (slotOp (chunks payload)) ++ [.writeIndex (bundleIndex payload)] := by
  unfold writeFilterConfigBundle
  split
  · next hlt => simp [Nat.not_le.mpr hlt]
  · next hle => simp [Nat.not_lt.mp hle, eq_comm]

/-! ## Ticks on files that stand still -/

variable {γ : Type} {d : Decoder γ} {f : Files} {accepted : Bool} (w : Watcher γ)

variable (index : ConfigBundleIndex)

variable (maxMod : Nat)

theorem deliver_phase (payload : Bytes) : (deliver d w index maxMod payload accepted).phase = .idle := by
  unfold deliver
  split
  · rfl
  · split
    · rfl
    · split
      · rfl
      · rfl

theorem Tick.of_step {w w' : Watcher γ} (hstep : watcherStep d f w (.step accepted) = w')
    (h : w'.phase = .idle) : Tick d f accepted w w' := by
  subst hstep
  exact .last h

theorem Tick.of_step_next {w w₁ w' : Watcher γ} (hstep : watcherStep d f w (.step accepted) = w₁)
    (h : w₁.phase ≠ .idle) (hrest : Tick d f accepted w₁ w') : Tick d f accepted w w' := by
  subst hstep
  exact .next h hrest

theorem tick_readParts (payload : Bytes) (todo : List String) :
    Tick d f accepted { w with phase := .readParts index maxMod payload todo }
      (match readParts f payload todo with
        | none => { w with phase := .idle }
        | some payload => deliver d w index maxMod payload accepted) := by
  induction todo generalizing payload with
  | nil => exact .of_step rfl (deliver_phase w index maxMod payload)
  | cons path todo ih =>
    cases hfile : f.parts path with
    | none =>
      rw [readParts, hfile]
      exact .of_step (by simp only [watcherStep, hfile]) rfl
    | some file =>
      rw [readParts, hfile]
      refine .of_step_next (by simp only [watcherStep, hfile]) ?_ (ih (payload ++ file.content))
      simp

theorem tick_statParts (todo : List String) :
    Tick d f accepted { w with phase := .statParts index maxMod todo }
      (match statParts f maxMod todo with
        | none => { w with phase := .idle }
        | some maxMod =>
          if maxMod ≤ w.lastMod then { w with phase := .idle }
          else
            match readParts f [] index.parts with
            | none => { w with phase := .idle }
            | some payload => deliver d w index maxMod payload accepted) := by
  induction todo generalizing maxMod with
  | nil =>
    rw [statParts]
    dsimp only
    split
    · next hold => exact .of_step (by simp only [watcherStep, if_pos hold]) rfl
    · next hnew =>
      refine .of_step_next (by simp only [watcherStep, if_neg hnew]) ?_
        (tick_readParts w index maxMod [] index.parts)
      simp
  | cons path todo ih =>
    cases hfile : f.parts path with
    | none =>
      rw [statParts, hfile]
      exact .of_step (by simp only [watcherStep, hfile]) rfl
    | some file =>
      rw [statParts, hfile]
      refine .of_step_next (by simp only [watcherStep, hfile]) ?_ (ih (max maxMod file.modTime))
      simp

/-- The steps of a tick do what the whole function does. -/
theorem tick_loadConfig {w : Watcher γ} (hw : w.phase = .idle) :
    Tick d f accepted w (loadConfig d f w accepted) := by
  have hidle : { w with phase := .idle } = w := by rw [← hw]
  unfold loadConfig
  split
  · next hnone => exact .of_step (by simp only [watcherStep, hw, hnone]) hw
  · next file hfile =>
    have hread : watcherStep d f w (.step accepted) =
        { w with phase := .statIndex file.content } := by simp only [watcherStep, hw, hfile]
    refine .of_step_next hread (by simp) ?_
    split
    · next hvalid =>
      refine .of_step_next (by simp only [watcherStep, hfile, if_pos hvalid]; rfl) (by simp) ?_
      have hrest : Tick d f accepted _ _ :=
        tick_statParts w file.content file.modTime file.content.parts
      rw [hidle] at hrest
      exact hrest
    · next hinvalid =>
      refine .of_step ?_ hw
      simp only [watcherStep, hfile, if_neg hinvalid, hidle]

end AgentRouter.ConfigBundle
