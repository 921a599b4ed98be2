import FrozenTable.Proofs.Lemmas.Serving
import FrozenTable.Proofs.Lemmas.Imaging
import FrozenTable.Proofs.Lemmas.Supporting

/-!
# A table accounts for its lookups until it is closed

From the moment it is opened a table counts each lookup that it answers as what became of it, and nothing else. What it was
asked before has no part in its answers. Closing ends all lookups for good and leaves the tally and the descriptor as they
were. This holds for each acceptance that a table can be opened with, as an acceptance decides by what it is given.
-/

namespace FrozenTable.Table

variable {κ ν : Type}

/-- What a table that was closed still does: it tells what its descriptor tells, and nothing else. -/
structure Ended [Ord κ] (t u : Table κ ν) : Prop where
  get : ∀ key, (u.get key).2 = .error .tableClosed
  contains : ∀ key, (u.contains key).2 = .error .tableClosed
  entryAt : ∀ bucket, ∃ fault, u.entryAt bucket = .error fault
  walk : ∃ fault, u.walk = .error fault
  descriptor : u.descriptor = t.descriptor
  size : u.size = t.size
  close : u.close = u

theorem isClosed_close (t : Table κ ν) : t.close.isClosed = true := rfl

/-- A table that was closed has ended. -/
theorem ended_close [Ord κ] (t : Table κ ν) (s : Tally) : Ended t (t.tallied s).close := by
  have hclosed := (t.tallied s).isClosed_close
  have hneed := needStorage_of_closed hclosed
  refine ⟨fun key => ?_, fun key => ?_, fun bucket => ?_, ?_, rfl, rfl, rfl⟩
  · exact congrArg (Except.map Finding.value) (find_of_closed hclosed key)
  · exact congrArg Prod.snd (contains_of_closed hclosed key)
  · rw [Table.entryAt, hneed]
    split
    · exact ⟨_, rfl⟩
    · exact ⟨_, rfl⟩
  · rw [Table.walk, hneed]
    split
    · exact ⟨_, rfl⟩
    · exact ⟨_, rfl⟩

/-- A table that was opened accounts for its lookups, whatever it is asked for and in whatever order.

Before it is closed, each answer is the one that the table would have given at first, but for the tally, which has the shares
of the keys that were looked up: the keys that the range or the perfect hash turned away, those whose records the acceptance
turned away, and those whose records it passed on. Together these are the lookups that were answered. After it is closed, every
lookup fails, the tally stays, and so does all that the descriptor tells. -/
theorem accounts_for_lookups [HashLibrary] [Ord κ] [DecidableEq κ] {finder : CodecFinder κ ν} {store : FileStore} {path : Path}
    {options : OpenOptions κ ν} {t : Table κ ν} (hopen : openAt finder store path options = .ok t)
    {requests : List (Request κ)} (hrequests : .close ∉ requests) :
    (∀ request, request ≠ .stats → ((t.serveAll requests).serve request).2 = (t.serve request).2) ∧
    ((t.serveAll requests).serve .stats).2 = .tally (t.shares (t.keysOf requests)) ∧
    (t.shares (t.keysOf requests)).requests =
      requests.countP (fun request => (t.lookedUp request).isSome && (t.serve request).2.isOk) ∧
    ∀ more, (t.serveAll (requests ++ .close :: more)).tally = t.shares (t.keysOf requests) ∧
      Ended t (t.serveAll (requests ++ .close :: more)) := by
  have hserved : t.serveAll requests = t.tallied (t.shares (t.keysOf requests)) := by
    obtain ⟨d, data, offsets, -, hassemble⟩ := exists_assemble_of_openAt hopen
    obtain ⟨-, hzero, -⟩ := parts_of_assemble hassemble
    have htallied := serveAll_tallied t t.tally hrequests
    rwa [tallied_tally, hzero, Tally.zero_plus] at htallied
  rw [hserved]
  refine ⟨fun request hrequest => reply_tallied t _ hrequest, rfl, requests_shares t requests, fun more => ?_⟩
  have hended : t.serveAll (requests ++ .close :: more) = (t.tallied (t.shares (t.keysOf requests))).close := by
    rw [serveAll_append, hserved]
    exact serveAll_of_closed (isClosed_close _) more
  rw [hended]
  exact ⟨rfl, ended_close t _⟩

/-- A table of one entry has retrieved its key, filtered a key by its signature and missed one with the same signature. -/
theorem accounts_for_lookups_single : ∃ store d t, Build.single .explicit .fixed = (store, .ok d) ∧
    @openAt _ _ .single _ .longs store ["work", "table"] {} = .ok t ∧
    ((t.serveAll [.get 7, .get 8, .contains 112]).serve .stats).2 = .tally ⟨1, 1, 1⟩ ∧
    ((t.serveAll [.get 7, .get 8, .contains 112]).serve (.get 7)).2 = .value (t.get 7).2 ∧
    Ended t (t.serveAll ([.get 7, .get 8, .contains 112] ++ .close :: [.get 7])) := by
  let _ : HashLibrary := .single
  obtain ⟨store, d, hsingle, -⟩ := Build.single_eq_ok .explicit .fixed
  have hopened : (openAt .longs (Build.single .explicit .fixed).1 ["work", "table"] {}).toOption.any
      (fun t => decide (t.shares (t.keysOf [.get 7, .get 8, .contains 112]) = ⟨1, 1, 1⟩)) = true := by decide +kernel
  rw [hsingle] at hopened
  dsimp only at hopened
  cases hopen : openAt .longs store ["work", "table"] {} with
  | error fault =>
    rw [hopen] at hopened
    exact nomatch hopened
  | ok t =>
    rw [hopen] at hopened
    have hshares : t.shares (t.keysOf [.get 7, .get 8, .contains 112]) = ⟨1, 1, 1⟩ := of_decide_eq_true hopened
    have hrequests : Request.close ∉ [Request.get (7 : Int64), .get 8, .contains 112] := by simp
    obtain ⟨hreply, hstats, -, hended⟩ := accounts_for_lookups hopen hrequests
    exact ⟨store, d, t, hsingle, hopen, hshares ▸ hstats, hreply (.get 7) nofun, (hended _).2⟩

end FrozenTable.Table
