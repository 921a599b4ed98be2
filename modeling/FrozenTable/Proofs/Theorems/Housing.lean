import FrozenTable.Proofs.Lemmas.Imaging
import FrozenTable.Proofs.Lemmas.Varying

/-!
# Where a table keeps things does not change what it answers

How offsets are stored, what is held in memory and how the data is cut into shards are matters of cost. Tables of the same
entries that differ in these only have the same data, and they answer alike, however each of them is opened and whatever it is
asked. Nothing is asked of the codecs here: the tables agree about keys that a codec cannot write and records that it misreads.
The line of the settings has to carry the offsets where these are selected; with a line that falls the ways of keeping them part.
-/

namespace FrozenTable

/-- Where a table keeps things: the offsets of its records, what it holds in memory, and the shards of its build. -/
structure Housing where
  offsetStorage : OffsetStorage
  maxHeap : Nat
  maxDataHeap : Nat
  shardSize : Nat
deriving DecidableEq, Repr

/-- Settings with a housing. -/
def Settings.housed {κ ν : Type} (s : Settings κ ν) (h : Housing) : Settings κ ν :=
  { s with offsetStorage := h.offsetStorage, maxHeap := h.maxHeap, maxDataHeap := h.maxDataHeap, shardSize := h.shardSize }

theorem CodecFinder.Knows.housed {κ ν : Type} {finder : CodecFinder κ ν} {s : Settings κ ν} (h : finder.Knows s)
    (p : Housing) : finder.Knows (s.housed p) :=
  ⟨h.key, h.value⟩

/-- Settings for four entries that keep offsets in another way are the same with another housing. -/
theorem Settings.housed_varied (keyStorage : KeyStorage) (offsetStorage other : OffsetStorage) (validation : KeyValidation) :
    (varied keyStorage offsetStorage validation).housed ⟨other, 0, 0, defaultShardSize⟩ =
      varied keyStorage other validation := by
  unfold housed varied changed
  simp only [List.foldl_cons, List.foldl_nil]
  simp only [change, refreshed, initial]

/-! ## Agreeing tables -/

/-- Tables that answer alike, whatever they are asked. -/
structure Table.Agrees {κ ν : Type} [Ord κ] (t u : Table κ ν) : Prop where
  get : ∀ key, (t.get key).2 = (u.get key).2
  contains : ∀ key, (t.contains key).2 = (u.contains key).2
  size : t.size = u.size
  valueAt : ∀ bucket, t.valueAt bucket = u.valueAt bucket
  keyAt : ∀ bucket, t.keyAt bucket = u.keyAt bucket
  walk : t.walk = u.walk
  take : ∀ limit cursor, t.take limit cursor = u.take limit cursor

namespace Table

variable {κ ν : Type} {t u : Table κ ν}

/-- Walks through tables are told by the entries in their buckets. -/
theorem take_eq_of_entryAt (hsize : t.size = u.size) (hentry : ∀ bucket, t.entryAt bucket = u.entryAt bucket) (limit : Nat)
    (cursor : Cursor) : t.take limit cursor = u.take limit cursor := by
  induction limit generalizing cursor with
  | zero => rfl
  | succ limit ih =>
    have hnext : t.next cursor = u.next cursor := by
      simp only [next, keyedEntryAt, hsize, hentry]
    simp only [take, hnext, ih]

/-- Tables agree that find the same, contain the same keys, are walked through alike and have the same entries. -/
theorem agrees_of_entryAt [Ord κ] (hfind : ∀ key, t.find key = u.find key)
    (hcontains : ∀ key, (t.contains key).2 = (u.contains key).2) (hwalk : t.walk = u.walk) (hsize : t.size = u.size)
    (hentry : ∀ bucket, t.entryAt bucket = u.entryAt bucket) : t.Agrees u where
  get := fun key => by rw [get_snd, get_snd, hfind]
  contains := hcontains
  size := hsize
  valueAt := fun bucket => by rw [valueAt, valueAt, hentry]
  keyAt := fun bucket => by rw [keyAt, keyAt, hentry]
  walk := hwalk
  take := take_eq_of_entryAt hsize hentry

/-- Tables agree whose descriptors differ in their time and their paths only and whose bytes are the same, wherever these
are. -/
theorem agrees_of_alike [Ord κ] {timestamp : Nat} {paths : TablePaths} {storage storage' : Storage}
    (hdescriptor : t.descriptor = { u.descriptor with timestamp, paths }) (hrange : t.range = u.range)
    (hacceptance : t.acceptance = u.acceptance) (hstorage : t.storage = some storage) (hstorage' : u.storage = some storage')
    (halike : storage.Alike storage') : t.Agrees u := by
  have hneed : t.needStorage = .ok storage := by rw [needStorage, hstorage]
  have hneed' : u.needStorage = .ok storage' := by rw [needStorage, hstorage']
  have hsize : t.size = u.size := by
    rw [size, hdescriptor]
    rfl
  have hlocate (key : κ) : t.locate key = u.locate key := by
    rw [locate, locate, outOfRange, outOfRange, hrange, hdescriptor]
    rfl
  have hrecord (offset : Nat) : t.readRecord storage offset = u.readRecord storage' offset := by
    rw [readRecord, readRecord, hdescriptor, Region.from?_congr halike.data]
  have hbucket (bucket : Nat) : t.readBucket storage bucket = u.readBucket storage' bucket := by
    have hoffset := halike.offsetOf_eq u.descriptor bucket
    rw [readBucket, readBucket, hdescriptor, ← hoffset]
    simp only [hrecord]
    rfl
  have hfind (key : κ) : t.find key = u.find key := by
    simp only [find, hneed, hneed', Outcome.ok_bind, hlocate, hbucket, hacceptance]
  refine agrees_of_entryAt hfind (fun key => ?_) ?_ hsize fun bucket => ?_
  · rw [contains, contains, hacceptance, hfind, hlocate, hneed, hneed']
    split
    · rfl
    · rfl
  · rw [walk, walk, hneed, hneed', hdescriptor]
    rfl
  · simp only [entryAt, hsize, hneed, hneed', Outcome.ok_bind, hbucket]

/-- From descriptors that differ in their time and their paths only, and from the same bytes, tables are put together that
agree, or it fails for the same fault. -/
theorem assemble_alike [Ord κ] [DecidableEq κ] (d : Descriptor κ ν) (timestamp : Nat) (paths : TablePaths)
    {data data' : Region} {offsets offsets' : Option Region} (hdata : data.bytes = data'.bytes)
    (hoffsets : offsets.map Region.bytes = offsets'.map Region.bytes) :
    (∃ fault, assemble d data offsets none = .error fault ∧
      assemble { d with timestamp, paths } data' offsets' none = .error fault) ∨
    ∃ t u, assemble d data offsets none = .ok t ∧ assemble { d with timestamp, paths } data' offsets' none = .ok u ∧
      t.Agrees u := by
  have hsize : data.size = data'.size := by rw [Region.size_eq, Region.size_eq, hdata]
  have hsame : arrangeOffsets { d with timestamp, paths } offsets' = arrangeOffsets d offsets' := rfl
  have hrange : Descriptor.keyRange { d with timestamp, paths } = d.keyRange := rfl
  unfold assemble
  dsimp only
  rw [hsize, hsame, hrange]
  split
  · exact .inl ⟨_, rfl, rfl⟩
  rcases arrangeOffsets_alike d hoffsets with ⟨fault, hfault, hfault'⟩ | ⟨o, s, o', s', harrange, harrange', ho, hs⟩
  · rw [hfault, hfault']
    exact .inl ⟨fault, rfl, rfl⟩
  · rw [harrange, harrange']
    cases d.keyRange with
    | error fault => exact .inl ⟨fault, rfl, rfl⟩
    | ok range => exact .inr ⟨_, _, rfl, rfl, agrees_of_alike rfl rfl rfl rfl rfl ⟨hdata, ho, hs⟩⟩

/-- Descriptors that differ in the housing of their tables lead to tables that agree, if these hold the same records. -/
theorem agrees_fresh [Ord κ] [DecidableEq κ] {s : Settings κ ν} {p q : Housing} {d e : Descriptor κ ν}
    {storage storage' : Storage} {records : List Bytes} (hd : d.settings = s.housed p) (he : e.settings = s.housed q)
    (hhash : d.hash = e.hash) (hserves : storage.Serves d records) (hserves' : storage'.Serves e records)
    (hlength : records.length = d.count) (hlead : ∀ key i, d.bucketOf key = .ok (some i) → i < d.count)
    (range : Option (κ × κ)) : (fresh d storage range).Agrees (fresh e storage' range) := by
  have hcount : e.count = d.count := by rw [Descriptor.count, Descriptor.count, hhash]
  have hdecode : d.settings.decodeRecord = e.settings.decodeRecord := by rw [hd, he]; rfl
  have hjudge : d.settings.judge = e.settings.judge := by rw [hd, he]; rfl
  have hvalidation : d.settings.validation = e.settings.validation := by rw [hd, he]; rfl
  have hbucket (key : κ) : d.bucketOf key = e.bucketOf key := by
    rw [Descriptor.bucketOf_eq, Descriptor.bucketOf_eq, hd, he, hhash]
    rfl
  have hout (key : κ) : (fresh d storage range).outOfRange key = (fresh e storage' range).outOfRange key := rfl
  have hread (i : Nat) (hi : i < d.count) :
      (fresh d storage range).readBucket storage i = (fresh e storage' range).readBucket storage' i := by
    have hi' : i < records.length := hlength ▸ hi
    rw [readBucket_fresh hserves range hi', readBucket_fresh hserves' range hi', hdecode]
  have hfind (key : κ) : (fresh d storage range).find key = (fresh e storage' range).find key := by
    rw [find_fresh, find_fresh, hout, ← hbucket, hjudge]
    cases hslot : d.bucketOf key with
    | error fault => rfl
    | ok slot =>
      cases slot with
      | none => rfl
      | some i =>
        simp only [Outcome.ok_bind, hread i (hlead key i hslot)]
  have hsize : (fresh d storage range).size = (fresh e storage' range).size := hcount.symm
  have hentry (i : Nat) : (fresh d storage range).entryAt i = (fresh e storage' range).entryAt i := by
    rcases Nat.lt_or_ge i d.count with hi | hi
    · have hlength' : records.length = e.count := hlength.trans hcount.symm
      rw [entryAt_fresh hserves hlength range hi, entryAt_fresh hserves' hlength' range (hcount ▸ hi), hdecode]
    · rw [entryAt_of_size_le _ hi, entryAt_of_size_le _ (hsize ▸ hi), hsize]
  refine agrees_of_entryAt hfind (fun key => ?_) ?_ hsize hentry
  · simp only [contains_fresh, hvalidation, hfind, hout, hbucket]
  · have hstores : d.settings.storesKeys = e.settings.storesKeys := by rw [hd, he]; rfl
    have hleft : (fresh d storage range).descriptor = d := rfl
    have hright : (fresh e storage' range).descriptor = e := rfl
    rw [walk, walk, hleft, hright, hstores]
    rfl

end Table

/-! ## Builds -/

namespace Build

/-- Builds of the same entries that differ in their housing make the same hash, and put the same records in the same order. -/
theorem Made.eq_of_housed {κ ν : Type} [HashLibrary] [Ord κ] {settings : Settings κ ν} {p q : Housing}
    {entries slots slots' : List (Entry κ ν)} {d e : Descriptor κ ν} {records records' : List Bytes}
    {file file' : Option Bytes} (h : Made (settings.housed p) entries d slots records file)
    (h' : Made (settings.housed q) entries e slots' records' file') :
    d.hash = e.hash ∧ records = records' ∧ d.keyRange = e.keyRange := by
  have hd := h.settings_eq
  have he := h'.settings_eq
  obtain ⟨fingerprints, hprints, hhash⟩ := h.hash
  obtain ⟨fingerprints', hprints', hhash'⟩ := h'.hash
  have hsame : fingerprints = fingerprints' := Except.ok.inj (hprints.symm.trans hprints')
  subst hsame
  have hhash : d.hash = e.hash := Except.ok.inj (hhash.symm.trans hhash')
  have harranged := h'.arranged
  rw [← hhash] at harranged
  have hkey : d.settings.keyBytes = e.settings.keyBytes := by rw [hd, he]; rfl
  have hrecord : d.settings.record = e.settings.record := by rw [hd, he]; rfl
  obtain ⟨-, hrecords⟩ := h.arranged.eq harranged hkey hrecord
  refine ⟨hhash, hrecords, ?_⟩
  obtain ⟨range, hrange, hlow, hhigh⟩ := h.range
  obtain ⟨range', hrange', hlow', hhigh'⟩ := h'.range
  have hsame : range = range' := Except.ok.inj (hrange.symm.trans hrange')
  have hneed : d.settings.needKeyCodec = e.settings.needKeyCodec := by rw [hd, he]; rfl
  subst hsame
  rw [Descriptor.keyRange, Descriptor.keyRange, hlow, hhigh, hlow', hhigh', hneed]

/-- Tables of the same entries that differ in their housing both fail for the same fault, however each of them is opened, or
both open and answer alike. -/
theorem Made.opened_agree {κ ν : Type} [HashLibrary] [Ord κ] [DecidableEq κ] {finder : CodecFinder κ ν}
    {settings : Settings κ ν} {entries slots slots' : List (Entry κ ν)} (hcount : entries.length < 0x100000000)
    (hlibrary : HashLibrary.Restores) {p q : Housing} {d e : Descriptor κ ν} {records records' : List Bytes}
    {file file' : Option Bytes} {storeP storeQ : FileStore} {directoryP directoryQ placeP placeQ : Path}
    (hmadeP : Made (settings.housed p) entries d slots records file)
    (hmadeQ : Made (settings.housed q) entries e slots' records' file')
    (hknown : finder.Knows settings) (hboundedP : (settings.housed p).Bounded) (hboundedQ : (settings.housed q).Bounded)
    (hsupportedP : d.Supported) (hsupportedQ : e.Supported)
    (hfiledP : Filed storeP directoryP placeP records.flatten file d.encode)
    (hfiledQ : Filed storeQ directoryQ placeQ records'.flatten file' e.encode)
    (hpathsP : d.paths = TablePaths.inDirectory directoryP) (hpathsQ : e.paths = TablePaths.inDirectory directoryQ)
    (openingP openingQ : Opening) :
    (∃ fault, openingP.open finder storeP directoryP = .error fault ∧
      openingQ.open finder storeQ directoryQ = .error fault) ∨
    ∃ t u, openingP.open finder storeP directoryP = .ok t ∧ openingQ.open finder storeQ directoryQ = .ok u ∧ t.Agrees u := by
  obtain ⟨hhash, rfl, hrange⟩ := hmadeP.eq_of_housed hmadeQ
  obtain ⟨storageP, hservesP, hopenP⟩ := hmadeP.open_eq hcount hlibrary (hknown.housed p) hboundedP hsupportedP hfiledP
    hpathsP openingP
  obtain ⟨storageQ, hservesQ, hopenQ⟩ := hmadeQ.open_eq hcount hlibrary (hknown.housed q) hboundedQ hsupportedQ hfiledQ
    hpathsQ openingQ
  rw [← hrange] at hopenQ
  rw [hopenP, hopenQ]
  cases d.keyRange with
  | error fault => exact .inl ⟨fault, rfl, rfl⟩
  | ok range =>
    have hlead (key : κ) (i : Nat) (hkey : d.bucketOf key = .ok (some i)) : i < d.count :=
      hmadeP.slots_length ▸ (hmadeP.kept_of_bucketOf hkey).1
    have hagrees := Table.agrees_fresh (s := settings) (p := { p with offsetStorage := d.settings.offsetStorage })
      (q := { q with offsetStorage := e.settings.offsetStorage }) hmadeP.settings_eq hmadeQ.settings_eq hhash hservesP hservesQ
      hmadeP.records_length hlead range
    exact .inr ⟨_, _, rfl, rfl, hagrees⟩

/-- Two tables of the same entries whose settings differ in their housing have the same data, wherever they were built. However
each of them is opened, both fail for the same fault, or both open and answer alike. -/
theorem opened_agree_however_housed {κ ν : Type} [HashLibrary] [Ord κ] [DecidableEq κ] [Spelled κ] [Spelled ν]
    {finder : CodecFinder κ ν} {settings : Settings κ ν} {entries : List (Entry κ ν)} (hcount : entries.length < 0x100000000)
    (hlibrary : HashLibrary.Restores) (p q : Housing) {storeP storeP' storeQ storeQ' : FileStore}
    {dataSizeP dataSizeQ : Option Nat} {timestampP timestampQ : Nat} {directoryP directoryQ : Path} {d e : Descriptor κ ν}
    (hrunP : run storeP (settings.housed p) dataSizeP timestampP directoryP (.ofEntries entries) = (storeP', .ok d))
    (hrunQ : run storeQ (settings.housed q) dataSizeQ timestampQ directoryQ (.ofEntries entries) = (storeQ', .ok e))
    (hknown : finder.Knows settings) (hboundedP : (settings.housed p).Bounded) (hboundedQ : (settings.housed q).Bounded)
    (hsupportedP : d.Supported) (hsupportedQ : e.Supported) :
    (∃ data, storeP'.read (directoryP.child TablePaths.dataName) = .ok data ∧
      storeQ'.read (directoryQ.child TablePaths.dataName) = .ok data) ∧
    ∀ openingP openingQ : Opening,
      (∃ fault, openingP.open finder storeP' directoryP = .error fault ∧
        openingQ.open finder storeQ' directoryQ = .error fault) ∨
      ∃ t u, openingP.open finder storeP' directoryP = .ok t ∧ openingQ.open finder storeQ' directoryQ = .ok u ∧
        t.Agrees u := by
  obtain ⟨placeP, slots, records, file, hmadeP, hfiledP, hpathsP⟩ := made_of_run hrunP hcount
  obtain ⟨placeQ, slotsQ, recordsQ, fileQ, hmadeQ, hfiledQ, hpathsQ⟩ := made_of_run hrunQ hcount
  obtain ⟨-, rfl, -⟩ := hmadeP.eq_of_housed hmadeQ
  obtain ⟨_, hdataP⟩ := hfiledP.data
  obtain ⟨_, hdataQ⟩ := hfiledQ.data
  have hreadP := hfiledP.leads.read_child plain_dataName hdataP
  have hreadQ := hfiledQ.leads.read_child plain_dataName hdataQ
  exact ⟨⟨records.flatten, hreadP, hreadQ⟩,
    hmadeP.opened_agree hcount hlibrary hmadeQ hknown hboundedP hboundedQ hsupportedP hsupportedQ hfiledP hfiledQ hpathsP
      hpathsQ⟩

/-- A table of four entries of different sizes answers alike with plain offsets in a file and with selected ones in its
descriptor, whether it is read from its files or loaded as a map. -/
theorem opened_four_agree : ∃ store store' d e, ofFour (.varied .explicit .indexed .equality) = (store, .ok d) ∧
    ofFour (.varied .explicit .selected .equality) = (store', .ok e) ∧
    ∃ t u, openFour store (.reader none (some 4) false) = .ok t ∧ openFour store' .map = .ok u ∧ t.Agrees u := by
  obtain ⟨store, d, hrun, hsupported⟩ := ofFour_varied .explicit .indexed .equality nofun
  obtain ⟨store', e, hrun', hsupported'⟩ := ofFour_varied .explicit .selected .equality nofun
  have hknown := Settings.knows_varied .explicit .indexed .equality
  have hbounded := (Settings.formed_varied .explicit .indexed .equality).bounded
  obtain ⟨_, _, _, _, hmade, hfiled, hpaths⟩ := made_of_run hrun (by decide)
  obtain ⟨_, -, hopen⟩ := hmade.open_eq_ok (by decide) HashFunction.restores_byOrder hknown hbounded hsupported
    (Settings.faithful_varied _ _ _) hfiled hpaths (.reader none (some 4) false)
  refine ⟨store, store', d, e, hrun, hrun', ?_⟩
  have hbounded' := (Settings.formed_varied .explicit .selected .equality).bounded
  rw [← Settings.housed_varied .explicit .indexed .indexed] at hbounded
  rw [← Settings.housed_varied .explicit .indexed .selected] at hbounded'
  rw [ofFour, ← Settings.housed_varied .explicit .indexed .indexed] at hrun
  rw [ofFour, ← Settings.housed_varied .explicit .indexed .selected] at hrun'
  obtain ⟨-, hagree⟩ := opened_agree_however_housed (by decide) HashFunction.restores_byOrder _ _ hrun hrun' hknown hbounded
    hbounded' hsupported hsupported'
  rcases hagree (.reader none (some 4) false) .map with ⟨fault, hfault, -⟩ | hagree
  · rw [hopen] at hfault
    cases hfault
  · exact hagree

/-- With a line that falls, which an image of settings may have, the table with plain offsets is right and the one with selected
offsets has lost the value. -/
theorem opened_falling_disagree : ∃ bytes bytes' store store' d e t u,
    Settings.decode .varied bytes = some (.falling .explicit .indexed .equality) ∧
    Settings.decode .varied bytes' = some (.falling .explicit .selected .equality) ∧
    (Settings.falling .explicit .indexed .equality).validate = .ok () ∧
    (Settings.falling .explicit .selected .equality).validate = .ok () ∧
    ofFour (.falling .explicit .indexed .equality) = (store, .ok d) ∧
    ofFour (.falling .explicit .selected .equality) = (store', .ok e) ∧
    openFour store .map = .ok t ∧ openFour store' .map = .ok u ∧
    (t.get 1).2 = .ok (some 1) ∧ (u.get 1).2 = .ok none := by
  obtain ⟨hdecode, hvalid⟩ := Settings.decode_falling .explicit .indexed .equality nofun
  obtain ⟨hdecode', hvalid'⟩ := Settings.decode_falling .explicit .selected .equality nofun
  obtain ⟨store, d, t, hrun, hopen, hfound⟩ := ofFour_of_evaluation .explicit .indexed .equality nofun (.inr rfl) .map
    (fun _ t => (t.get 1).2 = .ok (some 1)) (by decide +kernel)
  obtain ⟨store', e, u, hrun', hopen', hlost⟩ := ofFour_of_evaluation .explicit .selected .equality nofun (.inr rfl) .map
    (fun _ u => (u.get 1).2 = .ok none) (by decide +kernel)
  exact ⟨_, _, store, store', d, e, t, u, hdecode, hdecode', hvalid, hvalid', hrun, hrun', hopen, hopen', hfound, hlost⟩

end Build

end FrozenTable
