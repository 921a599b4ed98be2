import FrozenTable.Bits.BitSet
import FrozenTable.Build.Source
import FrozenTable.PerfectHash
import FrozenTable.Region

/-!
# Putting records in the order of their buckets

Entries come in any order and their records have to stand in the order of their buckets, without all of them being in memory
at once. The buckets are cut into ranges of one length. A pass over the entries appends each record to the shard of its range
and notes its size by bucket and, by order of arrival, its place in the range; each shard is then rewritten on its own. Sizes
and places are kept as 32-bit numbers.
-/

namespace FrozenTable

/-- How the buckets are cut into ranges. -/
structure ShardPlan where
  /-- How many buckets there are. -/
  buckets : Nat
  /-- How many buckets a range has; the last may have fewer. -/
  rangeSize : Nat
  /-- How many ranges there are. -/
  shards : Nat
deriving DecidableEq, Repr

/-- The most shards a build uses. -/
def maxShards : Nat := 512

/-- A quotient rounded up. -/
def divUp (a b : Nat) : Nat :=
  (a + b - 1) / b

namespace ShardPlan

/-- The plan for `buckets` records of `dataSize` bytes in shards that are meant to have `shardSize` bytes. -/
def of (buckets dataSize shardSize : Nat) : ShardPlan :=
  let wanted := min maxShards (1 + dataSize / max shardSize 1)
  let rangeSize := max (divUp buckets wanted) 1
  { buckets, rangeSize, shards := max (divUp buckets rangeSize) 1 }

/-- The shard of a bucket. -/
def shardOf (p : ShardPlan) (bucket : Nat) : Nat :=
  bucket / p.rangeSize

/-- The first bucket of a shard. -/
def start (p : ShardPlan) (shard : Nat) : Nat :=
  shard * p.rangeSize

/-- The bucket behind the last one of a shard. -/
def stop (p : ShardPlan) (shard : Nat) : Nat :=
  min (p.start shard + p.rangeSize) p.buckets

end ShardPlan

/-- Records on their way into the order of their buckets. -/
structure Spread where
  /-- The size of each record, by bucket. -/
  sizes : Array UInt32
  /-- The places of the records of each shard in its range, by arrival. -/
  places : Array UInt32
  /-- How many records each shard has. -/
  counts : Array Nat
  /-- The records of each shard, the last one first. -/
  shards : Array (List Bytes)
  /-- The buckets that have their record. -/
  seen : BitSet
  /-- How many records there are. -/
  count : Nat
  /-- How many bytes they have. -/
  dataSize : Nat

namespace Spread

variable {κ ν : Type}

/-- Before the first record. -/
def empty (p : ShardPlan) : Spread where
  sizes := Array.replicate (max p.buckets 1) 0
  places := Array.replicate (max p.buckets 1) 0
  counts := Array.replicate p.shards 0
  shards := Array.replicate p.shards []
  seen := .clear p.buckets
  count := 0
  dataSize := 0

/-- The array with another element at a place, which has to be there. -/
def put {α : Type} (xs : Array α) (i : Nat) (x : α) : Except Fault (Array α) :=
  if i < xs.size then .ok (xs.setIfInBounds i x) else .error .outOfBounds

/-- The element at a place, which has to be there. -/
def get {α : Type} (xs : Array α) (i : Nat) : Except Fault α :=
  match xs[i]? with
  | some x => .ok x
  | none => .error .outOfBounds

/-- Whether a bucket has its record. -/
def holds (s : Spread) (bucket : Nat) : Except Fault Bool :=
  match s.seen.get? bucket with
  | some b => .ok b
  | none => .error .outOfBounds

/-- Takes in a record for a bucket. -/
def add (p : ShardPlan) (s : Spread) (bucket : Nat) (record : Bytes) : Except Fault Spread := do
  let shard := p.shardOf bucket
  let start := p.start shard
  let size := record.length
  let arrived ← get s.counts shard
  let earlier ← get s.shards shard
  pure {
    sizes := ← put s.sizes bucket (UInt32.ofNat size)
    places := ← put s.places (start + arrived) (UInt32.ofNat (bucket - start))
    counts := ← put s.counts shard (arrived + 1)
    shards := ← put s.shards shard (record :: earlier)
    seen := s.seen.set bucket
    count := s.count + 1
    dataSize := s.dataSize + size }

/-- The bucket of an entry, which must not have its record yet. -/
def claim [Spelled κ] (settings : Settings κ ν) (hash : PerfectHash) (s : Spread) (key : κ) : Except Fault Nat := do
  match ← hash.slotOfBytes (← settings.keyBytes key) with
  | none => throw (.bucketTaken (Spelled.spell key))
  | some bucket => if ← s.holds bucket then throw (.bucketTaken (Spelled.spell key)) else pure bucket

/-- Fails for a record whose size cannot be kept: one off the line, unless offsets are indexed, or of more than 32 bits. -/
def checkSize (settings : Settings κ ν) (size : Nat) : Except Fault Unit :=
  if settings.offsetStorage ≠ .indexed ∧ ¬ settings.entryLine.fits (Word64.signed size) then
    .error (.sizeOffLine size settings.entryLine)
  else if 0x100000000 ≤ size then .error (.recordTooLarge size)
  else .ok ()

/-- Takes in an entry. -/
def step [Spelled κ] (settings : Settings κ ν) (hash : PerfectHash) (p : ShardPlan) (s : Spread) (entry : Entry κ ν) :
    Except Fault Spread := do
  settings.needValue entry
  let bucket ← s.claim settings hash entry.key
  let record ← settings.record entry
  checkSize settings record.length
  s.add p bucket record

/-- Passes over the entries. -/
def run [Spelled κ] (settings : Settings κ ν) (hash : PerfectHash) (p : ShardPlan)
    (entries : List (Except Fault (Entry κ ν))) : Except Fault Spread :=
  entries.foldlM (fun s entry => do s.step settings hash p (← entry)) (empty p)

/-- Fails unless the records are as many, and as long together, as the first pass found. -/
def checkTotals (p : ShardPlan) (dataSize : Nat) (s : Spread) : Except Fault Unit :=
  if s.count ≠ p.buckets then .error (.entriesChanged p.buckets s.count)
  else if s.dataSize ≠ dataSize then .error (.dataSizeDiffers dataSize s.dataSize)
  else .ok ()

/-- Where the record of each place of a shard starts inside the shard, from `arrivals` arrivals on. -/
def startsOf (s : Spread) (start : Nat) :
    (arrivals : List Nat) → (offset : Nat) → (starts : Array Nat) → Except Fault (Array Nat)
  | [], _, starts => .ok starts
  | arrival :: arrivals, offset, starts => do
    let place := (← get s.places arrival).toNat
    let starts ← put starts place offset
    let size ← get s.sizes (start + place)
    startsOf s start arrivals (offset + size.toNat) starts

/-- The record of a place of a shard. -/
def recordAt (s : Spread) (shard : Region) (start : Nat) (starts : Array Nat) (place : Nat) : Except Fault Bytes := do
  let offset ← get starts place
  let size ← get s.sizes (start + place)
  match shard.slice? offset (offset + size.toNat) with
  | some record => pure record
  | none => throw .shardTruncated

/-- The records of a shard in the order of their buckets. -/
def gatherShard (p : ShardPlan) (s : Spread) (shard : Nat) : Except Fault Bytes := do
  let start := p.start shard
  let stop := p.stop shard
  if stop ≤ start then pure []
  else
    let records ← get s.shards shard
    let region := Region.ofBytes records.reverse.flatten
    let places := List.range (stop - start)
    let starts ← s.startsOf start (places.map (start + ·)) 0 (Array.replicate (stop - start) 0)
    let sorted ← places.mapM (s.recordAt region start starts)
    pure sorted.flatten

/-- All records in the order of their buckets. -/
def gather (p : ShardPlan) (s : Spread) : Except Fault Bytes := do
  let shards ← (List.range p.shards).mapM (s.gatherShard p)
  pure shards.flatten

end Spread

end FrozenTable
