import FrozenTable.Proofs.Lemmas.Permuting
import FrozenTable.Proofs.Theorems.Housing

/-!
# The order of entries leaves no trace

Entries come in some order and the table does not show which. A build ends well with them in one order exactly when it does in
another, and then with the same descriptor and the same files, into how many shards it may cut the data. Where the two are
built in other places or at other times, the descriptors differ in that alone and the tables answer alike.
-/

namespace FrozenTable

variable {κ ν : Type}

/-- The summary of a table tells the time of its build, but not its place. -/
theorem Descriptor.summary_placed (d : Descriptor κ ν) (timestamp : Nat) (directory : Path) :
    (d.placed timestamp directory).summary = d.summary.map fun summary => { summary with timestamp } := by
  have hbytes : (d.placed timestamp directory).byteSize = d.byteSize := rfl
  have hbits : (d.placed timestamp directory).selectBits = d.selectBits := rfl
  have hstorage : (d.placed timestamp directory).settings.offsetStorage = d.settings.offsetStorage := rfl
  simp only [summary, hbytes, hbits, hstorage]
  cases d.byteSize with
  | error fault => rfl
  | ok byteSize =>
    split
    · cases d.selectBits <;> rfl
    · rfl

/-- MessagePack has a form for a descriptor in all places, and at all times that are words, if it has one in one place. -/
theorem Descriptor.regular_placed {d : Descriptor κ ν} (h : d.form.Regular Msgpack.maxLevels) {timestamp : Nat}
    (htime : timestamp < 0x10000000000000000) (directory : Path) :
    (d.placed timestamp directory).form.Regular Msgpack.maxLevels := by
  rw [form, Msgpack.maxLevels, Msgpack.regular_record] at h ⊢
  refine ⟨h.1, ?_⟩
  have hfields := h.2
  simp only [fieldNames, List.zip_cons_cons, List.zip_nil_right, List.forall_mem_cons, List.not_mem_nil, false_imp_iff,
    implies_true, and_true] at hfields ⊢
  obtain ⟨hversion, hsettings, hhash, hselect, hdataSize, hoffsetWidth, -, hminKey, hmaxKey⟩ := hfields
  exact ⟨hversion, hsettings, hhash, hselect, hdataSize, hoffsetWidth, ⟨by decide, Msgpack.regular_nat htime⟩, hminKey, hmaxKey⟩

namespace Build

/-- The fingerprints of the keys 7 and 8 as a first pass finds them, which is in their order. -/
def printsOfTwo : List Fingerprint :=
  [.ofBytes (Codec.longBytes 8), .ofBytes (Codec.longBytes 7)]

theorem increasing_printsOfTwo : printsOfTwo.Pairwise fun f g => f.toNat < g.toNat := by
  decide +kernel

theorem isSome_printsOfTwo : (@PerfectHash.ofSorted HashFunction.byOrder printsOfTwo 8).toOption.isSome = true := by
  decide +kernel

/-- The build of a table of two entries without their keys ends well in every mode, and the table is supported. -/
theorem two_eq_ok (offsetStorage : OffsetStorage) : ∃ store d,
    @run _ _ HashFunction.byOrder _ _ _ (.rooted ["work"]) (.longs .implicit offsetStorage) none 0 ["work", "table"]
      (.ofEntries [⟨7, some 5⟩, ⟨8, some 6⟩]) = (store, .ok d) ∧
    d.Supported ∧ d.minKey = some (Codec.longBytes 7) ∧ d.select.isSome = decide (offsetStorage = .selected) ∧
    (offsetStorage ≠ .automatic → d.settings.offsetStorage = offsetStorage) := by
  let _ : HashLibrary := HashFunction.byOrder
  have hbuilt := (PerfectHash.build_of_increasing increasing_printsOfTwo 8).trans (Outcome.eq_ok_get isSome_printsOfTwo)
  have hhashed : Hashed (.longs .implicit offsetStorage) none (.ofEntries [⟨7, some 5⟩, ⟨8, some 6⟩])
      ⟨printsOfTwo, 16, some (7, 8)⟩ ((PerfectHash.ofSorted printsOfTwo 8).toOption.get isSome_printsOfTwo) := by
    cases offsetStorage <;> exact ⟨rfl, rfl, hbuilt⟩
  have hends : (run (.rooted ["work"]) (.longs .implicit offsetStorage) none 0 ["work", "table"]
      (.ofEntries [⟨7, some 5⟩, ⟨8, some 6⟩])).2.toOption.any (fun d => decide (d.Bounded ∧
        d.minKey = some (Codec.longBytes 7) ∧ d.select.isSome = decide (offsetStorage = .selected) ∧
        (offsetStorage ≠ .automatic → d.settings.offsetStorage = offsetStorage))) = true := by
    rw [run, plan_eq_ok.2 ⟨_, _, hhashed, rfl⟩]
    cases offsetStorage <;> decide +kernel
  cases hrun : run (.rooted ["work"]) (.longs .implicit offsetStorage) none 0 ["work", "table"]
      (.ofEntries [⟨7, some 5⟩, ⟨8, some 6⟩]) with
  | mk store outcome =>
    rw [hrun] at hends
    cases outcome with
    | error fault => cases hends
    | ok d =>
      obtain ⟨hbounded, hkey, hselect, hstorage⟩ := of_decide_eq_true hends
      have hsupported := supported_of_run hrun (by decide) (Settings.formed_longs _ _) (Settings.held_longs _ _) hbounded
      exact ⟨store, d, rfl, hsupported, hkey, hselect, hstorage⟩

/-- Builds of the same entries in two places put the same records in the same order, and keep their offsets alike. -/
theorem Made.eq_of_placed [HashLibrary] [Ord κ] {settings : Settings κ ν} {entries slots slots' : List (Entry κ ν)}
    {d : Descriptor κ ν} {timestamp : Nat} {directory : Path} {records records' : List Bytes} {file file' : Option Bytes}
    (h : Made settings entries d slots records file)
    (h' : Made settings entries (d.placed timestamp directory) slots' records' file') :
    records = records' ∧ file = file' := by
  obtain ⟨-, rfl⟩ := h.arranged.eq h'.arranged rfl rfl
  have hoffsets : (.ok ⟨file, d.select⟩ : Except Fault OffsetPlan) = .ok ⟨file', d.select⟩ := h.offsets.symm.trans h'.offsets
  cases hoffsets
  exact ⟨rfl, rfl⟩

/-- A build from some entries ends well exactly when a build from the same entries in another order does, and then alike. In
whatever places and at whatever times the two are carried out, the descriptors are the same but for place and time, the
summaries but for the time, and the data and offsets files have the same bytes. However each of the tables is opened, both fail
for the same fault, or both open and answer alike. Where the range of the keys is kept, keys that compare equal have to be
written alike, as it would be left to the order of the entries which of them bounds the range. -/
theorem order_leaves_no_trace [HashLibrary] [Ord κ] [Std.TransOrd κ] [DecidableEq κ] [Spelled κ] [Spelled ν]
    {settings : Settings κ ν} (hkeys : settings.OrdersKeys) {entries entries' : List (Entry κ ν)}
    (hperm : entries.Perm entries') (hcount : entries.length < 0x100000000) (dataSize : Option Nat) :
    (∀ store timestamp directory store' d,
      run store settings dataSize timestamp directory (.ofEntries entries) = (store', .ok d) ↔
        run store settings dataSize timestamp directory (.ofEntries entries') = (store', .ok d)) ∧
    ∀ store timestamp directory store' d other timestamp' directory' other' e,
      run store settings dataSize timestamp directory (.ofEntries entries) = (store', .ok d) →
      run other settings dataSize timestamp' directory' (.ofEntries entries') = (other', .ok e) →
      e = d.placed timestamp' directory' ∧
      e.summary = d.summary.map (fun summary => { summary with timestamp := timestamp' }) ∧
      (∃ data, store'.read (directory.child TablePaths.dataName) = .ok data ∧
        other'.read (directory'.child TablePaths.dataName) = .ok data) ∧
      store'.read (directory.child TablePaths.offsetsName) = other'.read (directory'.child TablePaths.offsetsName) ∧
      (HashLibrary.Restores → settings.Bounded → d.form.Regular Msgpack.maxLevels → timestamp' < 0x10000000000000000 →
        ∀ finder : CodecFinder κ ν, finder.Knows settings → ∀ opening opening' : Opening,
        (∃ fault, opening.open finder store' directory = .error fault ∧
          opening'.open finder other' directory' = .error fault) ∨
        ∃ t u, opening.open finder store' directory = .ok t ∧ opening'.open finder other' directory' = .ok u ∧
          t.Agrees u) := by
  have hcount' : entries'.length < 0x100000000 := hperm.length_eq ▸ hcount
  refine ⟨fun store timestamp directory store' d => ⟨run_perm hkeys hperm hcount, run_perm hkeys hperm.symm hcount'⟩, ?_⟩
  intro store timestamp directory store' d other timestamp' directory' other' e hrun hrun'
  have hrun' := run_perm hkeys hperm.symm hcount' hrun'
  obtain ⟨rfl, place, place', data, offsets, hleft, hleft'⟩ := left_of_runs hrun hrun'
  refine ⟨rfl, d.summary_placed timestamp' directory', ⟨data, ?_, ?_⟩, ?_, ?_⟩
  · exact hleft.leads.read_child plain_dataName hleft.data
  · exact hleft'.leads.read_child plain_dataName hleft'.data
  · rw [hleft.leads.read_child_eq plain_offsetsName hleft.offsets,
      hleft'.leads.read_child_eq plain_offsetsName hleft'.offsets]
  · intro hlibrary hbounded hregular htime finder hknown opening opening'
    obtain ⟨_, _, _, _, hmade, hfiled, hpaths⟩ := made_of_run hrun hcount
    obtain ⟨_, _, _, _, hmade', hfiled', hpaths'⟩ := made_of_run hrun' hcount
    have hregular' := Descriptor.regular_placed hregular htime directory'
    have hreadable := hmade.readable hlibrary hknown hbounded hregular
    have hreadable' := hmade'.readable hlibrary hknown hbounded hregular'
    obtain ⟨region, offsets, hdata, hoffsets, hopen⟩ := hfiled.open_eq hreadable hmade.isSome_file hpaths opening
    obtain ⟨region', offsets', hdata', hoffsets', hopen'⟩ := hfiled'.open_eq hreadable' hmade'.isSome_file hpaths' opening'
    obtain ⟨hrecords, hfile⟩ := hmade.eq_of_placed hmade'
    rw [hopen, hopen']
    exact Table.assemble_alike d timestamp' (.inDirectory directory') (hdata.trans (hrecords ▸ hdata'.symm))
      (hoffsets.trans (hfile ▸ hoffsets'.symm))

/-- Two entries without their keys, with signatures, a range and an index in the descriptor, and the same two the other way
round in another directory and at another time. -/
theorem order_leaves_no_trace_of_two : ∃ store d other e,
    @run _ _ HashFunction.byOrder _ _ _ (.rooted ["work"]) (.longs .implicit .selected) none 0 ["work", "table"]
      (.ofEntries [⟨7, some 5⟩, ⟨8, some 6⟩]) = (store, .ok d) ∧
    @run _ _ HashFunction.byOrder _ _ _ (.rooted ["work"]) (.longs .implicit .selected) none 9 ["work", "other"]
      (.ofEntries [⟨8, some 6⟩, ⟨7, some 5⟩]) = (other, .ok e) ∧
    e = d.placed 9 ["work", "other"] ∧ d.minKey = some (Codec.longBytes 7) ∧ d.select.isSome = true ∧
    ∃ t u, @Opening.open _ _ HashFunction.byOrder _ .longs store ["work", "table"] (.reader none none false) = .ok t ∧
      @Opening.open _ _ HashFunction.byOrder _ .longs other ["work", "other"] .map = .ok u ∧ t.Agrees u := by
  let _ : HashLibrary := HashFunction.byOrder
  obtain ⟨store, d, hrun, hsupported, hkey, hselect, -⟩ := two_eq_ok .selected
  obtain ⟨_, _, _, _, hmade, hfiled, hpaths⟩ := made_of_run hrun (by decide)
  have haccepts : (FileStore.rooted ["work"]).Accepts ["work", "other"] := by decide +kernel
  have hkeys := Settings.ordersKeys_of_lawful (.longs .implicit .selected)
  obtain ⟨halike, hplaces⟩ := order_leaves_no_trace hkeys (List.Perm.swap ⟨8, some 6⟩ ⟨7, some 5⟩ []) (by decide) none
  -- the same entries in the other directory, and then the other way round
  obtain ⟨other, hother⟩ : ∃ other, run (.rooted ["work"]) (.longs .implicit .selected) none 9 ["work", "other"]
      (.ofEntries [⟨7, some 5⟩, ⟨8, some 6⟩]) = (other, .ok (d.placed 9 ["work", "other"])) :=
    run_of_accepts hrun haccepts 9
  have hturned := (halike _ _ _ _ _).1 hother
  obtain ⟨-, -, -, -, hopen⟩ := hplaces _ _ _ _ _ _ _ _ _ _ hrun hturned
  have hknown := CodecFinder.knows_longs .implicit .selected
  have hbounded := (Settings.formed_longs .implicit .selected).bounded
  obtain ⟨_, -, hopened⟩ := hmade.open_eq_ok (by decide) HashFunction.restores_byOrder hknown hbounded hsupported
    (Settings.faithful_longs _ _) hfiled hpaths (.reader none none false)
  rcases hopen HashFunction.restores_byOrder hbounded hsupported.regular (by decide) .longs hknown (.reader none none false)
    .map with ⟨fault, hfault, -⟩ | hagree
  · rw [hopened] at hfault
    cases hfault
  · exact ⟨store, d, other, _, hrun, hturned, rfl, hkey, by simpa using hselect, hagree⟩

end Build

end FrozenTable
