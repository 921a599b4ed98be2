import FrozenTable.Lookup.Table

/-!
# The layout of the data

Where the records of a table stand in its data, as its descriptor and its offsets say.
-/

namespace FrozenTable.Descriptor

variable {κ ν : Type}

/-- The records in the order of their buckets, each with its offset: one reaches to the start of the next, the last to the end
of the data. -/
def records (d : Descriptor κ ν) (data : Region) (offsets : Option Region) (select : Option SelectIndex) :
    Except Fault (List (Nat × Bytes)) := do
  let starts ← (List.range d.count).mapM fun bucket => d.offsetOf bucket offsets select
  let stops := starts.drop 1 ++ [data.size]
  pure ((starts.zip stops).map fun (start, stop) => (start, ((data.from? start).getD []).take (stop - start)))

/-- The records of a table whose data and offsets stand in files. -/
def loadRecords (d : Descriptor κ ν) (store : FileStore) : Except Fault (List (Nat × Bytes)) := do
  let data ← FileStore.lift (Region.openFile store d.paths.data false)
  if d.needsOffsetsFile then
    let file ← FileStore.lift (Region.openFile store d.paths.offsets false)
    if d.settings.offsetStorage = .selected then
      d.records data none (some (.ofBlock (.ofBytes file.bytes) (← d.selectBits)))
    else d.records data (some file) none
  else d.records data none none

end FrozenTable.Descriptor
