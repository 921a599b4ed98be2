import FrozenTable.Build.Shards
import FrozenTable.Descriptor.Image
import FrozenTable.Descriptor.Summary

/-!
# Building a table

A build is planned before anything outside is touched: the plan is the list of file operations in order, and what the build
answers once they are done. The descriptor of a table that stood in the directory goes first and the new one comes last, so
that a directory never holds a descriptor beside files that are not its own. A build that fails before the plan is made leaves
the directory as it was; one that fails later has cleared it.
-/

namespace FrozenTable

/-- What a build does and answers. -/
structure BuildPlan (κ ν : Type) where
  operations : List FileOperation
  outcome : Except Fault (Descriptor κ ν)

/-- How the offsets of a table are kept: in a file, in the descriptor, or nowhere. -/
structure OffsetPlan where
  file : Option Bytes
  select : Option SelectIndex

namespace Build

variable {κ ν : Type}

/-- The sums of the sizes in front of each size. -/
def offsetsFrom (offset : Nat) : List Nat → List Nat
  | [] => []
  | size :: sizes => offset :: offsetsFrom (offset + size) sizes

/-- The bytes of plain offsets. -/
def indexedBytes (width : Nat) (offsets : List Nat) : Bytes :=
  offsets.flatMap (Bytes.littleEndian width)

/-- The vector of selected offsets: one bit for each, at the number that stands for it. -/
def selectedBits (settings : Settings κ ν) (dataSize : Nat) (offsets : List Nat) : Except Fault BitSet := do
  let length ← settings.compress dataSize offsets.length
  let positions ← offsets.zipIdx.mapM fun (offset, bucket) => settings.compress offset bucket
  match (BitSet.clear length).setAll positions with
  | (bits, true) => pure bits
  | (_, false) => throw .outOfBounds

/-- Whether a vector of selected offsets is too large to be kept in the descriptor. -/
def overflows (settings : Settings κ ν) (bits : BitSet) : Bool :=
  decide (0 < settings.maxHeap ∧ settings.maxHeap < bits.length / 8)

/-- How the offsets of a table are kept, given the sizes of its records by bucket. -/
def planOffsets (settings : Settings κ ν) (dataSize : Nat) (sizes : List Nat) : Except Fault OffsetPlan :=
  let offsets := offsetsFrom 0 sizes
  match settings.offsetStorage with
  | .indexed => .ok ⟨some (indexedBytes (Settings.offsetWidth dataSize) offsets), none⟩
  | .selected => do
    let bits ← selectedBits settings dataSize offsets
    pure (if overflows settings bits then ⟨some (wordsBytes bits.words), none⟩ else ⟨none, some (.ofBits bits)⟩)
  | _ => .ok ⟨none, none⟩

/-- The records of a pass in the order of their buckets, with their sizes. -/
def arrange [Spelled κ] (settings : Settings κ ν) (hash : PerfectHash) (dataSize : Nat)
    (entries : List (Except Fault (Entry κ ν))) : Except Fault (Bytes × List Nat) := do
  let plan := ShardPlan.of hash.length dataSize settings.shardSize
  let spread ← Spread.run settings hash plan entries
  spread.checkTotals plan dataSize
  let data ← spread.gather plan
  pure (data, (spread.sizes.toList.take hash.length).map (·.toNat))

/-- The bytes of the smallest and largest key. -/
def rangeBytes (settings : Settings κ ν) : Option (κ × κ) → Except Fault (Option (Bytes × Bytes))
  | none => .ok none
  | some (low, high) => do
    let codec ← settings.needKeyCodec
    pure (some (← codec.write low, ← codec.write high))

/-- What makes a directory ready for a new table. -/
def preparing (directory : Path) : List FileOperation :=
  let paths := TablePaths.inDirectory directory
  [.ensureDirectory directory, .discard paths.descriptor, .discard paths.data, .discard paths.offsets]

/-- What writes a file and locks it. -/
def writing (path : Path) (bytes : Bytes) : List FileOperation :=
  [.create path, .append path bytes, .lock path]

/-- What comes after the first pass. -/
def planWriting [Spelled κ] (settings : Settings κ ν) (hash : PerfectHash) (dataSize : Nat) (range : Option (κ × κ))
    (timestamp : Nat) (directory : Path) (entries : List (Except Fault (Entry κ ν))) : BuildPlan κ ν :=
  let paths := TablePaths.inDirectory directory
  let operations := preparing directory
  match arrange settings hash dataSize entries with
  | .error fault => ⟨operations, .error fault⟩
  | .ok (data, sizes) =>
    let operations := operations ++ writing paths.data data
    match planOffsets settings dataSize sizes with
    | .error fault => ⟨operations, .error fault⟩
    | .ok offsets =>
      let operations := operations ++ (offsets.file.map (writing paths.offsets)).getD []
      match rangeBytes settings range with
      | .error fault => ⟨operations, .error fault⟩
      | .ok range =>
        let descriptor := Descriptor.new settings hash offsets.select dataSize range timestamp paths
        ⟨operations ++ descriptor.storing, .ok descriptor⟩

/-- The perfect hash of the keys. Where entries with the same key are to be told, a later pass looks for them. -/
def hashKeys [HashLibrary] [Spelled κ] [Spelled ν] (settings : Settings κ ν) (fingerprints : List Fingerprint)
    (later : List (Except Fault (Entry κ ν))) : Except Fault PerfectHash :=
  match PerfectHash.build fingerprints settings.signatureWidth with
  | .error (.duplicateFingerprint n) =>
    if settings.describeDuplicates then do
      throw (.duplicateEntries (← tellDuplicates settings (.ofNat n) 2 later))
    else .error (.duplicateFingerprint n)
  | result => result

/-- Plans the build of a table from a source. The size of the data may be given beforehand. The directory is ready before the
offset storage is chosen. -/
def plan [HashLibrary] [Ord κ] [Spelled κ] [Spelled ν] (settings : Settings κ ν) (dataSize : Option Nat) (timestamp : Nat)
    (directory : Path) (source : Source κ ν) : Except Fault (BuildPlan κ ν) := do
  settings.validate
  let scan ← Scan.run settings dataSize.isSome source.first
  let dataSize := dataSize.getD scan.dataSize
  let hash ← hashKeys settings scan.fingerprints source.later
  pure (match settings.resolved scan.fingerprints.length dataSize with
    | .error fault => ⟨preparing directory, .error fault⟩
    | .ok settings => planWriting settings hash dataSize scan.range timestamp directory source.later)

/-- Performs a plan. -/
def carryOut (store : FileStore) (plan : BuildPlan κ ν) : FileStore × Except Fault (Descriptor κ ν) :=
  match store.performAll plan.operations with
  | (store, .ok ()) => (store, plan.outcome)
  | (store, .error fault) => (store, .error fault)

/-- Builds a table in a directory. -/
def run [HashLibrary] [Ord κ] [Spelled κ] [Spelled ν] (store : FileStore) (settings : Settings κ ν)
    (dataSize : Option Nat) (timestamp : Nat) (directory : Path) (source : Source κ ν) : FileStore × Except Fault (Descriptor κ ν) :=
  match plan settings dataSize timestamp directory source with
  | .error fault => (store, .error fault)
  | .ok plan => carryOut store plan

end Build

end FrozenTable
