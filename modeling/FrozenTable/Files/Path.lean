/-!
# Paths

A path is a list of names, to be followed from the outside in. Three names lead to no other place than the one where they are
followed or the one around it; they are kept, because a path is shown as it was given.
-/

namespace FrozenTable

/-- A path: the names that lead to a file or a directory, from the outside in. The name `.` stays in a directory, and so does
the empty name, which stands for a doubled or a final slash; the name `..` leads to the directory around. -/
abbrev Path := List String

namespace Path

/-- A path as text. -/
def text (path : Path) : String :=
  "/".intercalate path

/-- Whether a name stays in the directory in which it is followed. -/
def stays (name : String) : Bool :=
  name == "" || name == "."

/-- Whether a path ends in a slash, as only the path of a directory may. -/
def endsInSlash (path : Path) : Bool :=
  path.getLast? == some ""

/-- A path without the names at its end that pass a test. -/
def dropEnd (drop : String → Bool) (path : Path) : Path :=
  (path.reverse.dropWhile drop).reverse

/-- The path of a name in the directory at a path. -/
def child (path : Path) (name : String) : Path :=
  (if endsInSlash path then path.dropLast else path) ++ [name]

/-- The path of the directory around a path. -/
def outer (path : Path) : Path :=
  dropEnd stays (dropEnd stays path).dropLast

/-- A path and the paths around it, at most so many, from the inside out. -/
def outward : (count : Nat) → Path → List Path
  | 0, _ => []
  | count + 1, path => if path.isEmpty then [] else path :: outward count (outer path)

/-- A path and the paths around it, from the inside out. -/
def ancestors (path : Path) : List Path :=
  outward path.length path

/-- The place to which a name leads from another place. -/
def follow (place : Path) (name : String) : Path :=
  if stays name then place
  else if name == ".." then place.dropLast
  else place ++ [name]

end Path

end FrozenTable
