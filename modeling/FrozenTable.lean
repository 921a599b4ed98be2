import FrozenTable.Codec.Any
import FrozenTable.Lookup.Layout
import FrozenTable.Msgpack.Edit
import FrozenTable.Session
import FrozenTable.Text.Hex
import FrozenTable.Proofs.Theorems.FiniteMap
import FrozenTable.Proofs.Theorems.Housing
import FrozenTable.Proofs.Theorems.Signatures
import FrozenTable.Proofs.Theorems.Enumeration
import FrozenTable.Proofs.Theorems.Buildable
import FrozenTable.Proofs.Theorems.PassedOnce
import FrozenTable.Proofs.Theorems.Replacing
import FrozenTable.Proofs.Theorems.Images
import FrozenTable.Proofs.Theorems.Truncation
import FrozenTable.Proofs.Theorems.Persistence
import FrozenTable.Proofs.Theorems.Safety
import FrozenTable.Proofs.Theorems.Accounting
import FrozenTable.Proofs.Theorems.Compression
import FrozenTable.Proofs.Theorems.AnyOrder
import FrozenTable.Proofs.Theorems.Interruption
import FrozenTable.Proofs.Theorems.Handles
import FrozenTable.Proofs.Theorems.Hosting
import FrozenTable.Proofs.Theorems.Starts
import FrozenTable.Proofs.Theorems.InMemory
import FrozenTable.Proofs.Theorems.SelfDelimiting
import FrozenTable.Proofs.Theorems.Sizes
import FrozenTable.Proofs.Theorems.DenotedNumbers
import FrozenTable.Proofs.Theorems.LastStored
import FrozenTable.Proofs.Theorems.SetPositions
import FrozenTable.Proofs.Theorems.OneToOne
import FrozenTable.Proofs.Theorems.Containment
import FrozenTable.Proofs.Theorems.Pieces
import FrozenTable.Proofs.Theorems.SecondPass
import FrozenTable.Proofs.Theorems.Estimates
import FrozenTable.Proofs.Theorems.SumsOnLines
import FrozenTable.Proofs.Theorems.Changes
import FrozenTable.Proofs.Theorems.Ranges
import FrozenTable.Proofs.Theorems.Damage
import FrozenTable.Proofs.Theorems.Inspection
