/-!
# Files

What a command can read. `Files` is all that a run needs to know of them: the text
behind each path, if there is one. A `Directory` gives such files for a run that starts
in a directory with known files. Its paths are followed name by name: an empty name or a
dot stays in place, two dots go up, and any other name goes down. Every name is looked
up in a directory, so nothing lies behind a file. Nothing is known of what lies outside,
and a path that is too long leads nowhere.
-/

namespace SchemaGate.CommandLine

/-- The files that a command can read. -/
abbrev Files := String → Option String

/-- The texts of all files in and below a directory, under their paths. -/
structure Directory where
  /-- Paths seen from the directory, and texts. -/
  files : List (String × String)

/-- A place in or below a directory: the names that lead down to it. -/
abbrev Place := List String

namespace Directory

/-- The names between the slashes of a path. -/
def names (path : String) : List String := (path.toList.splitOn '/').map String.ofList

/-- Whether a name stays in the directory in which it is looked up. -/
def stays (name : String) : Bool := name == "" || name == "."

/-- The files under their places. -/
def entries (directory : Directory) : List (Place × String) :=
  directory.files.map fun file => ((names file.1).filter fun name => !stays name, file.2)

/-- Whether a place is a directory: the directory itself, or one on the way to a file. -/
def isDirectory (directory : Directory) (place : Place) : Bool :=
  place.isEmpty ||
    directory.entries.any fun entry => place.isPrefixOf entry.1 && place.length < entry.1.length

/-- The place that a name leads to from another one. -/
def follow (directory : Directory) (place : Place) (name : String) : Option Place :=
  if !directory.isDirectory place then none
  else if stays name then some place
  else if name == ".." then if place.isEmpty then none else some place.dropLast
  else some (place ++ [name])

/-- How many bytes a path may have. -/
def longestPath : Nat := 4095

/-- The text of the file that a path leads to. A path from the root leads outside. -/
def read? (directory : Directory) : Files := fun path =>
  if longestPath < path.utf8ByteSize then none
  else match names path with
    | "" :: _ => none
    | names => do
      let place ← names.foldlM directory.follow []
      directory.entries.lookup place

example : read? ⟨[("a", "x")]⟩ ".//a" = some "x" := by decide +kernel

example : read? ⟨[("a", "x")]⟩ "a/../a" = none := by decide +kernel

end Directory

end SchemaGate.CommandLine
