import FrozenTable.Lookup.Request
import FrozenTable.Proofs.Lemmas.Outcome

/-!
# A table that is asked again and again

What a table is asked for moves its tally and nothing else (`Table.serveAll_tallied`), so its answers stay what they would have
been at first; and once it is closed nothing moves it any more (`Table.serveAll_of_closed`). How lookups are to be counted is
told by `Table.shares`, which does not look at the tally.
-/

namespace FrozenTable

/-- Two tallies together. -/
def Tally.plus (s s' : Tally) : Tally where
  filtered := s.filtered + s'.filtered
  missing := s.missing + s'.missing
  retrieved := s.retrieved + s'.retrieved

theorem Tally.plus_assoc (s s' s'' : Tally) : (s.plus s').plus s'' = s.plus (s'.plus s'') := by
  simp only [plus, Nat.add_assoc]

/-- Requests add up as their tallies do. -/
theorem Tally.requests_plus (s s' : Tally) : (s.plus s').requests = s.requests + s'.requests := by
  simp only [plus, requests]
  omega

theorem Tally.plus_zero (s : Tally) : s.plus .zero = s := rfl

theorem Tally.zero_plus (s : Tally) : zero.plus s = s := by
  simp only [plus, zero, Nat.zero_add]

namespace Table

variable {κ ν : Type} [Ord κ]

/-- Requests are served one after the other. -/
theorem serveAll_append (t : Table κ ν) (requests more : List (Request κ)) :
    t.serveAll (requests ++ more) = (t.serveAll requests).serveAll more :=
  List.foldl_append

/-! ## How lookups count -/

/-- The key that a request looks up, if the lookup is counted: without an acceptance no record is read to tell whether a table
has a key. -/
def lookedUp (t : Table κ ν) : Request κ → Option κ
  | .get key => some key
  | .contains key => if t.acceptance.isSome then some key else none
  | _ => none

/-- The record that a key leads to, unless the range of keys or the perfect hash turns the key away. -/
def recordOf (t : Table κ ν) (key : κ) : Except Fault (Option (Option κ × Option ν)) := do
  let storage ← t.needStorage
  match ← t.locate key with
  | none => pure none
  | some bucket => do
    let record ← t.readBucket storage bucket
    pure (some record)

/-- Whether the acceptance passes a record on. -/
def passes (t : Table κ ν) (key : κ) (record : Option κ × Option ν) : Bool :=
  t.acceptance.all fun accept => (accept key record.1 record.2).isSome

/-- Whether a key is turned away before a record is read. -/
def filters (t : Table κ ν) (key : κ) : Bool :=
  match t.recordOf key with
  | .ok none => true
  | _ => false

/-- Whether a key leads to a record that the acceptance turns away. -/
def misses (t : Table κ ν) (key : κ) : Bool :=
  match t.recordOf key with
  | .ok (some record) => !t.passes key record
  | _ => false

/-- Whether a key leads to a record that is passed on. -/
def retrieves (t : Table κ ν) (key : κ) : Bool :=
  match t.recordOf key with
  | .ok (some record) => t.passes key record
  | _ => false

/-- The keys among requests whose lookups are counted. -/
def keysOf (t : Table κ ν) (requests : List (Request κ)) : List κ :=
  requests.filterMap t.lookedUp

/-- What looking up some keys has to be counted as. -/
def shares (t : Table κ ν) (keys : List κ) : Tally where
  filtered := keys.countP t.filters
  missing := keys.countP t.misses
  retrieved := keys.countP t.retrieves

/-- Lookups end by what the acceptance says about the record that the key leads to. -/
theorem find_cases (t : Table κ ν) (key : κ) :
    (∃ fault, t.find key = .error fault ∧ t.recordOf key = .error fault) ∨
    (t.find key = .ok .filtered ∧ t.recordOf key = .ok none) ∨
    (∃ record, t.recordOf key = .ok (some record) ∧
      (t.find key = .ok .missing ∧ t.passes key record = false ∨
        ∃ value, t.find key = .ok (.retrieved value) ∧ t.passes key record = true)) := by
  unfold find recordOf
  cases t.needStorage with
  | error fault => exact .inl ⟨fault, rfl, rfl⟩
  | ok storage =>
    simp only [Outcome.ok_bind]
    cases t.locate key with
    | error fault => exact .inl ⟨fault, rfl, rfl⟩
    | ok place =>
      simp only [Outcome.ok_bind]
      cases place with
      | none => exact .inr (.inl ⟨rfl, rfl⟩)
      | some bucket =>
        dsimp only
        cases t.readBucket storage bucket with
        | error fault => exact .inl ⟨fault, rfl, rfl⟩
        | ok record =>
          refine .inr (.inr ⟨record, rfl, ?_⟩)
          simp only [Outcome.ok_bind, passes]
          cases t.acceptance with
          | none => exact .inr ⟨record.2, rfl, rfl⟩
          | some accept =>
            dsimp only
            cases haccept : accept key record.1 record.2 with
            | none => exact .inl ⟨rfl, by rw [Option.all_some, haccept]; rfl⟩
            | some value => exact .inr ⟨value, rfl, by rw [Option.all_some, haccept]; rfl⟩

/-! ## Before a table is closed -/

/-- The table with another tally. -/
def tallied (t : Table κ ν) (tally : Tally) : Table κ ν :=
  { t with tally }

omit [Ord κ] in
theorem tallied_tally (t : Table κ ν) : t.tallied t.tally = t := rfl

/-- A lookup is counted as its share. -/
theorem counted_tallied (t : Table κ ν) (s : Tally) (key : κ) :
    (t.tallied s).counted (t.find key) = t.tallied (s.plus (t.shares [key])) := by
  unfold shares filters misses retrieves
  rcases t.find_cases key with ⟨fault, hfind, hrecord⟩ | ⟨hfind, hrecord⟩ | ⟨record, hrecord, hends⟩
  · simp [hfind, hrecord, counted, Tally.plus, tallied]
  · simp [hfind, hrecord, counted, Tally.plus, tallied, Tally.count]
  · rcases hends with ⟨hfind, hpass⟩ | ⟨value, hfind, hpass⟩
    · simp [hfind, hrecord, hpass, counted, Tally.plus, tallied, Tally.count]
    · simp [hfind, hrecord, hpass, counted, Tally.plus, tallied, Tally.count]

/-- The shares of lookups add up. -/
theorem shares_append (t : Table κ ν) (keys more : List κ) :
    t.shares (keys ++ more) = (t.shares keys).plus (t.shares more) := by
  simp only [shares, Tally.plus, List.countP_append]

omit [Ord κ] in
/-- The keys that are looked up stand in the order of requests. -/
theorem keysOf_cons (t : Table κ ν) (request : Request κ) (requests : List (Request κ)) :
    t.keysOf (request :: requests) = t.keysOf [request] ++ t.keysOf requests := by
  rw [keysOf, ← List.singleton_append, List.filterMap_append]
  rfl

theorem shares_nil (t : Table κ ν) : t.shares [] = .zero := rfl

/-- A request that does not close a table moves its tally by the share of the key that it looks up, and nothing else. -/
theorem serve_tallied (t : Table κ ν) (s : Tally) {request : Request κ} (h : request ≠ .close) :
    ((t.tallied s).serve request).1 = t.tallied (s.plus (t.shares (t.keysOf [request]))) := by
  cases request with
  | get key => exact t.counted_tallied s key
  | contains key =>
    show ((t.tallied s).contains key).1 = _
    unfold contains
    cases haccept : t.acceptance with
    | none =>
      have hkeys : t.keysOf [.contains key] = [] := by simp [keysOf, lookedUp, haccept]
      rw [if_neg (by simp [tallied, haccept]), hkeys, shares_nil, Tally.plus_zero]
    | some accept =>
      have hkeys : t.keysOf [.contains key] = [key] := by simp [keysOf, lookedUp, haccept]
      rw [if_pos (by simp [tallied, haccept]), hkeys]
      exact t.counted_tallied s key
  | entryAt | walk | next | stats => rfl
  | close => exact absurd rfl h

/-- Requests that do not close a table move its tally by the shares of the keys that they look up, and nothing else. -/
theorem serveAll_tallied (t : Table κ ν) (s : Tally) {requests : List (Request κ)} (h : .close ∉ requests) :
    (t.tallied s).serveAll requests = t.tallied (s.plus (t.shares (t.keysOf requests))) := by
  induction requests generalizing s with
  | nil => rfl
  | cons request requests ih =>
    rw [List.mem_cons, not_or] at h
    obtain ⟨hrequest, hrequests⟩ := h
    rw [serveAll, List.foldl_cons, serve_tallied t s (Ne.symm hrequest), keysOf_cons t request requests,
      shares_append, ← Tally.plus_assoc]
    exact ih _ hrequests

/-- The tally is nothing that a table answers by, unless it is asked for it. -/
theorem reply_tallied (t : Table κ ν) (s : Tally) {request : Request κ} (h : request ≠ .stats) :
    ((t.tallied s).serve request).2 = (t.serve request).2 := by
  cases request with
  | contains key =>
    show Reply.contained ((t.tallied s).contains key).2 = .contained (t.contains key).2
    have hacceptance : (t.tallied s).acceptance = t.acceptance := rfl
    unfold contains
    rw [hacceptance]
    split <;> rfl
  | stats => exact absurd rfl h
  | _ => rfl

/-- A lookup that is answered is counted once, and one that is not is not counted. -/
theorem requests_shares_key (t : Table κ ν) (key : κ) : (t.shares [key]).requests = if (t.find key).isOk then 1 else 0 := by
  unfold shares filters misses retrieves Tally.requests
  rcases t.find_cases key with ⟨fault, hfind, hrecord⟩ | ⟨hfind, hrecord⟩ | ⟨record, hrecord, hends⟩
  · simp [hfind, hrecord, Except.isOk, Except.toBool]
  · simp [hfind, hrecord, Except.isOk, Except.toBool]
  · rcases hends with ⟨hfind, hpass⟩ | ⟨value, hfind, hpass⟩
    · simp [hfind, hrecord, hpass, Except.isOk, Except.toBool]
    · simp [hfind, hrecord, hpass, Except.isOk, Except.toBool]

/-- Among requests, those that look up a key and are answered are counted, each once. -/
theorem requests_shares (t : Table κ ν) (requests : List (Request κ)) :
    (t.shares (t.keysOf requests)).requests =
      requests.countP fun request => (t.lookedUp request).isSome && (t.serve request).2.isOk := by
  have hmap {α β : Type} (x : Except Fault α) (f : α → β) : (x.map f).isOk = x.isOk := by cases x <;> rfl
  have hone (request : Request κ) : (t.shares (t.keysOf [request])).requests =
      if (t.lookedUp request).isSome && (t.serve request).2.isOk then 1 else 0 := by
    cases request with
    | get key =>
      show (t.shares [key]).requests = if ((t.find key).map Finding.value).isOk then 1 else 0
      rw [requests_shares_key, hmap]
    | contains key =>
      cases haccept : t.acceptance with
      | none => simp [keysOf, lookedUp, haccept, shares_nil, Tally.zero, Tally.requests]
      | some accept =>
        have hkeys : t.keysOf [.contains key] = [key] := by simp [keysOf, lookedUp, haccept]
        have hreply : (t.serve (.contains key)).2 = .contained ((t.find key).map Finding.isRetrieved) := by
          rw [serve, contains, haccept]
          rfl
        rw [hkeys, requests_shares_key, hreply, Reply.isOk, hmap, lookedUp, haccept]
        rfl
    | entryAt | walk | next | stats | close => rfl
  induction requests with
  | nil => rfl
  | cons request requests ih =>
    rw [keysOf_cons t request requests, shares_append, Tally.requests_plus, hone, ih, List.countP_cons, Nat.add_comm]

/-! ## After a table is closed -/

section

variable {t : Table κ ν} (h : t.isClosed = true)

include h

omit [Ord κ] in
/-- A closed table has given its bytes back. -/
theorem needStorage_of_closed : t.needStorage = .error .tableClosed := by
  rw [isClosed, Option.isNone_iff_eq_none] at h
  rw [needStorage, h]

/-- No key is found in a closed table. -/
theorem find_of_closed (key : κ) : t.find key = .error .tableClosed := by
  rw [find, needStorage_of_closed h]
  rfl

/-- A closed table does not tell whether it has a key. -/
theorem contains_of_closed (key : κ) : t.contains key = (t, .error .tableClosed) := by
  rw [contains, find_of_closed h, needStorage_of_closed h]
  split <;> rfl

omit [Ord κ] in
/-- Closing twice is closing. -/
theorem close_of_closed : t.close = t := by
  rw [isClosed, Option.isNone_iff_eq_none] at h
  rw [close, ← h]

/-- Nothing moves a table that is closed. -/
theorem serve_of_closed (request : Request κ) : (t.serve request).1 = t := by
  cases request with
  | get key => exact congrArg t.counted (find_of_closed h key)
  | contains key => exact congrArg Prod.fst (contains_of_closed h key)
  | close => exact close_of_closed h
  | _ => rfl

/-- Nothing moves a closed table. -/
theorem serveAll_of_closed (requests : List (Request κ)) : t.serveAll requests = t := by
  induction requests with
  | nil => rfl
  | cons request requests ih =>
    rw [serveAll, List.foldl_cons, serve_of_closed h]
    exact ih

end

end Table

end FrozenTable
