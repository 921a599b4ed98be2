import FrozenTable.Lookup.Cursor

/-!
# Requests to a table

A table is a small machine: it is asked for keys, buckets, entries and its tally, and at last it is closed. Those who share a
table ask it the same, and besides for what stands in its descriptor; none of them can close it.
-/

namespace FrozenTable

/-- What a table can be asked for. -/
inductive Request (κ : Type) where
  | get (key : κ)
  | contains (key : κ)
  /-- The record in a bucket. -/
  | entryAt (bucket : Nat)
  /-- A cursor in front of the first entry. -/
  | walk
  /-- The entry behind a cursor. -/
  | next (cursor : Cursor)
  | stats
  | close

/-- What a table answers. -/
inductive Reply (κ ν : Type) where
  | value (found : Except Fault (Option ν))
  | contained (found : Except Fault Bool)
  | record (found : Except Fault (Option κ × Option ν))
  | cursor (found : Except Fault Cursor)
  | entry (found : Option (Except Fault (κ × Option ν) × Cursor))
  | tally (tally : Tally)
  | closed

/-- Whether a reply is no fault. -/
def Reply.isOk {κ ν : Type} : Reply κ ν → Bool
  | value found => found.isOk
  | contained found => found.isOk
  | record found => found.isOk
  | cursor found => found.isOk
  | entry found => found.all fun found => found.1.isOk
  | tally _ => true
  | closed => true

/-- What those who share a table ask it for. None of them can close it. -/
inductive Question (κ : Type) where
  | of (request : Request κ) (h : request ≠ .close)
  /-- What stands in the descriptor: the number of entries, the size, the time of the build and the settings. -/
  | describe

/-- The request that a question is, unless it is for the descriptor. -/
def Question.request? {κ : Type} : Question κ → Option (Request κ)
  | .of request _ => some request
  | .describe => none

/-- What a table tells those who share it. -/
inductive Told (κ ν : Type) where
  | reply (reply : Reply κ ν)
  | description (descriptor : Descriptor κ ν)

namespace Table

variable {κ ν : Type} [Ord κ]

/-- A table answers a request. -/
def serve (t : Table κ ν) : Request κ → Table κ ν × Reply κ ν
  | .get key => ((t.get key).1, .value (t.get key).2)
  | .contains key => ((t.contains key).1, .contained (t.contains key).2)
  | .entryAt bucket => (t, .record (t.entryAt bucket))
  | .walk => (t, .cursor t.walk)
  | .next cursor => (t, .entry (t.next cursor))
  | .stats => (t, .tally t.tally)
  | .close => (t.close, .closed)

/-- The table after requests, one after the other. -/
def serveAll (t : Table κ ν) (requests : List (Request κ)) : Table κ ν :=
  requests.foldl (fun t request => (t.serve request).1) t

/-- A table answers a question. -/
def tell (t : Table κ ν) : Question κ → Table κ ν × Told κ ν
  | .of request _ => ((t.serve request).1, .reply (t.serve request).2)
  | .describe => (t, .description t.descriptor)

end Table

end FrozenTable
