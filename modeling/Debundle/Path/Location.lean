import Debundle.Path.Normal

/-!
# Locations

The command line names files and directories by paths as the user writes them.  A location is
such a path without empty components and without `.`, but with every `..` kept: what is above a
directory depends on the file system.

* `Location.ofText`, `Location.toText`: between texts and locations.
* `Location.fileName`: the last component.
* `Location.parent`: the location without it.
* `Location.above`: all locations above.
* `Path.directoryOf`: the directory part of a path that is written out.
-/

namespace Debundle

/-- A place in the file system. -/
structure Location where
  /-- How many slashes stand in front: none, one or two. -/
  slashes : Nat
  /-- The components. -/
  components : List Text
deriving DecidableEq, Repr

namespace Location

/-- The location that a text names. -/
def ofText (t : Text) : Location :=
  ⟨Path.leadingSlashes t,
    (Text.split Path.slash t).filter fun c => !c.isEmpty && c != Path.here⟩

/-- The text that names a location; the working directory is `.`. -/
def toText (l : Location) : Text :=
  let result := List.replicate l.slashes Path.slash ++ Text.join [Path.slash] l.components
  if result.isEmpty then Path.here else result

/-- The last component; empty for a root and for the working directory. -/
def fileName (l : Location) : Text := l.components.getLastD []

/-- The location above; a root and the working directory are their own. -/
def parent (l : Location) : Location := ⟨l.slashes, l.components.dropLast⟩

/-- The locations above, the nearest first; there is always at least one. -/
def above (l : Location) : List Location :=
  match l.components with
  | [] => [l.parent]
  | components => (List.range components.length).reverse.map fun n =>
    ⟨l.slashes, components.take n⟩

end Location

/-- The directory part of a path: all before the last slash, without the slashes at its end
unless it is nothing else. -/
def Path.directoryOf (path : Text) : Text :=
  let head := (path.reverse.dropWhile (· != Path.slash)).reverse
  if head.all (· == Path.slash) then head else Text.trimRight (· == Path.slash) head

end Debundle
