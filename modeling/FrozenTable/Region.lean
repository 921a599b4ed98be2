import FrozenTable.Files.Store

/-!
# Regions of memory

The bytes of a file as lookups see them: read into memory, or mapped from the file. The two answer alike. Lookups start at any
offset, so a region keeps all its ends at hand.
-/

namespace FrozenTable

/-- Where the bytes of a region are. -/
inductive Placement where
  | heap
  | mapped
deriving DecidableEq, Repr

/-- Puts all ends of a byte string, the whole one first, behind the ones in an array. -/
def pushEnds : Bytes → Array Bytes → Array Bytes
  | [], ends => ends.push []
  | b :: rest, ends => pushEnds rest (ends.push (b :: rest))

/-- Bytes that can be read from any offset on. -/
structure Region where
  bytes : Bytes
  placement : Placement
  /-- The bytes from each offset on. -/
  ends : Array Bytes := pushEnds bytes #[]
  ends_eq : ends = pushEnds bytes #[] := by rfl

namespace Region

/-- Bytes in memory. -/
def ofBytes (bytes : Bytes) : Region :=
  { bytes, placement := .heap }

/-- A file read into memory, or mapped. There is no mapping of an empty file, and a directory can be neither read nor mapped. -/
def openFile (store : FileStore) (path : Path) (heap : Bool) : Except FileFault Region := do
  match ← store.resolve path with
  | (_, .file bytes _) => pure { bytes, placement := if heap ∨ bytes = [] then .heap else .mapped }
  | (_, .directory) => throw (if heap then .isADirectory else .notMappable)

/-- How many bytes there are. -/
def size (r : Region) : Nat :=
  r.ends.size - 1

/-- The bytes from an offset on; none past the end. -/
def from? (r : Region) (offset : Nat) : Option Bytes :=
  r.ends[offset]?

/-- The bytes from one offset to another. -/
def slice? (r : Region) (start stop : Nat) : Option Bytes :=
  if start ≤ stop ∧ stop ≤ r.size then (r.from? start).map fun bytes => bytes.take (stop - start) else none

/-- Whether the bytes are mapped from a file. -/
def isMapped (r : Region) : Bool :=
  r.placement == .mapped

/-- The number of `width` bytes at an offset, least significant first; none where the bytes end before. Numbers of more than
eight bytes do not fit a word. -/
def readNat (r : Region) (offset width : Nat) : Except Fault (Option Nat) :=
  match r.slice? offset (offset + width) with
  | none => .ok none
  | some bytes => if width ≤ 8 then .ok (some (Bytes.toNatLittle bytes)) else .error .outOfBounds

/-- The region as messages call it. -/
def text (r : Region) : String :=
  "Memory::" ++ (if r.isMapped then "Mapped" else "Heap") ++ "(" ++ toString r.size ++ " bytes)"

theorem pushEnds_toList (bytes : Bytes) (ends : Array Bytes) :
    (pushEnds bytes ends).toList = ends.toList ++ (List.range (bytes.length + 1)).map bytes.drop := by
  induction bytes generalizing ends with
  | nil => simp [pushEnds]
  | cons b rest ih =>
    rw [pushEnds, ih, Array.toList_push, List.append_assoc, List.length_cons,
      List.range_succ_eq_map (n := rest.length + 1)]
    simp [Function.comp_def]

theorem size_eq (r : Region) : r.size = r.bytes.length := by
  have h := congrArg List.length (pushEnds_toList r.bytes #[])
  simp only [Array.length_toList, List.nil_append, List.length_map, List.length_range] at h
  rw [size, r.ends_eq, h, Nat.add_sub_cancel]

theorem from?_eq (r : Region) (offset : Nat) :
    r.from? offset = if offset ≤ r.bytes.length then some (r.bytes.drop offset) else none := by
  rw [from?, r.ends_eq, ← Array.getElem?_toList, pushEnds_toList]
  simp only [List.nil_append, List.getElem?_map]
  split <;> rename_i h
  · rw [List.getElem?_range (by omega)]; rfl
  · rw [List.getElem?_eq_none (by simp; omega)]; rfl

end Region

end FrozenTable
