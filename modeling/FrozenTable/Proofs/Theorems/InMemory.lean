import FrozenTable.Proofs.Lemmas.Ordering
import FrozenTable.Proofs.Lemmas.Supporting

/-!
# Sharding is ordering in memory

The second pass of a build spreads records over shards and puts each shard in order on its own, so that no more than a shard is
in memory. What comes out is what ordering all records in memory gives: the same bytes, the same sizes, and the same fault where
there is one, into however many shards the buckets are cut and in whatever order the entries come.
-/

namespace FrozenTable.Build

variable {κ ν : Type}

/-- The data file of a table that was written holds what the second pass gave. -/
theorem read_data_of_planWriting [Spelled κ] {settings : Settings κ ν} {hash : PerfectHash} {dataSize : Nat}
    {range : Option (κ × κ)} {timestamp : Nat} {directory : Path} {entries : List (Except Fault (Entry κ ν))}
    {data : Bytes} {sizes : List Nat} (harrange : arrange settings hash dataSize entries = .ok (data, sizes))
    {store store' : FileStore} {d : Descriptor κ ν}
    (h : carryOut store (planWriting settings hash dataSize range timestamp directory entries) = (store', .ok d)) :
    store'.read (directory.child TablePaths.dataName) = .ok data := by
  obtain ⟨hperform, houtcome⟩ := carryOut_eq_ok h
  obtain ⟨data', sizes', offsets, keys, harrange', -, -, rfl, hoperations⟩ := planWriting_eq_ok houtcome
  cases harrange.symm.trans harrange'
  rw [hoperations] at hperform
  obtain ⟨place, hfiled⟩ := filed_of_performAll rfl hperform
  obtain ⟨locked, hdata⟩ := hfiled.data
  exact hfiled.leads.read_child plain_dataName hdata

/-- Where a hash leads some entries to all of its buckets, each entry to one of its own, a second pass over them with shards of
any size ends as ordering in memory does.

If it ends well, the data is made of one record for each bucket, in the order of the buckets, and the record for the bucket of
an entry is what is written of the entry; the sizes are those of the records, by bucket; and when the table is written, its data
file holds that data. No note that a pass makes or looks up is out of bounds and no shard is too short, unless the codecs of the
settings tell of such a fault themselves. -/
theorem sharding_is_ordering_in_memory [Spelled κ] (settings : Settings κ ν) (hash : PerfectHash) {entries : List (Entry κ ν)}
    {buckets : List Nat} (hcount : entries.length < 0x100000000)
    (hleads : entries.mapM (fun entry => settings.keyBytes entry.key >>= hash.slotOfBytes) = .ok (buckets.map some))
    (hbuckets : buckets.Perm (List.range hash.length)) (dataSize shardSize : Nat) :
    arrange (settings.change (.shardSize shardSize)) hash dataSize (entries.map .ok) =
      arrangeInMemory settings dataSize buckets entries ∧
    (∀ data sizes, arrange (settings.change (.shardSize shardSize)) hash dataSize (entries.map .ok) = .ok (data, sizes) →
      (∃ records : List Bytes, records.length = hash.length ∧ data = records.flatten ∧ sizes = records.map List.length ∧
        ∀ pair ∈ entries.zip buckets, ∃ hlt : pair.2 < records.length, settings.record pair.1 = .ok records[pair.2]) ∧
      ∀ range timestamp directory store store' d,
        carryOut store (planWriting (settings.change (.shardSize shardSize)) hash dataSize range timestamp directory
          (entries.map .ok)) = (store', .ok d) →
        store'.read (directory.child TablePaths.dataName) = .ok data) ∧
    ∀ fault, arrange (settings.change (.shardSize shardSize)) hash dataSize (entries.map .ok) = .error fault →
      fault = .outOfBounds ∨ fault = .shardTruncated → ∃ entry ∈ entries, settings.record entry = .error fault := by
  have harrange : arrange (settings.change (.shardSize shardSize)) hash dataSize (entries.map .ok) =
      arrangeInMemory settings dataSize buckets entries := by
    rw [← arrangeInMemory_sharded settings shardSize]
    generalize hsharded : settings.change (.shardSize shardSize) = sharded
    have hkey : sharded.keyBytes = settings.keyBytes := by
      rw [← hsharded]
      rfl
    rw [← hkey] at hleads
    exact arrange_eq_inMemory hcount hleads hbuckets dataSize
  have hlength : buckets.length = hash.length := by rw [hbuckets.length_eq, List.length_range]
  refine ⟨harrange, ?_, ?_⟩
  · intro data sizes hok
    refine ⟨?_, fun range timestamp directory store store' d hwrite => read_data_of_planWriting hok hwrite⟩
    rw [harrange] at hok
    rw [← hlength] at hbuckets ⊢
    obtain ⟨hlen, -⟩ := Outcome.getElem_of_mapM hleads
    rw [List.length_map] at hlen
    exact arrangeInMemory_eq_ok hok hbuckets hlen.symm
  · intro fault herror hfault
    rw [harrange] at herror
    exact fault_of_inMemory herror hfault

/-- A hash that leads the keys 7 and 8 to the second bucket and to the first. -/
def hashOfTwo : PerfectHash :=
  ⟨2, some ⟨fun f => if f = .ofBytes (Codec.longBytes 7) then 1 else 0, []⟩, 0, .zeros 0 2⟩

/-- Two entries of signed words. -/
def entriesOfTwo : List (Entry Int64 Int64) :=
  [⟨7, some 5⟩, ⟨8, some 6⟩]

/-- Two entries that come in the other order than their buckets have, with one shard for each and with one for both. -/
theorem arranges_two_in_memory :
    arrange ((Settings.longs .explicit .fixed).change (.shardSize 0)) hashOfTwo 32 (entriesOfTwo.map .ok) =
      .ok ((Codec.longBytes 8 ++ Codec.longBytes 6) ++ (Codec.longBytes 7 ++ Codec.longBytes 5), [16, 16]) ∧
    arrange ((Settings.longs .explicit .fixed).change (.shardSize 64)) hashOfTwo 32 (entriesOfTwo.map .ok) =
      .ok ((Codec.longBytes 8 ++ Codec.longBytes 6) ++ (Codec.longBytes 7 ++ Codec.longBytes 5), [16, 16]) := by
  have hfound : (entriesOfTwo.mapM fun entry =>
      (Settings.longs .explicit .fixed).keyBytes entry.key >>= hashOfTwo.slotOfBytes).toOption = some ([1, 0].map some) := by
    decide +kernel
  have hleads : entriesOfTwo.mapM (fun entry =>
      (Settings.longs .explicit .fixed).keyBytes entry.key >>= hashOfTwo.slotOfBytes) = .ok ([1, 0].map some) := by
    refine (Outcome.eq_ok_get ?_).trans (congrArg Except.ok (Option.get_of_eq_some _ hfound))
    rw [hfound]
    rfl
  have hbuckets : [1, 0].Perm (List.range hashOfTwo.length) := by decide
  have harranged (shardSize : Nat) := sharding_is_ordering_in_memory (.longs .explicit .fixed) hashOfTwo (by decide) hleads
    hbuckets 32 shardSize
  exact ⟨(harranged 0).1, (harranged 64).1⟩

end FrozenTable.Build
