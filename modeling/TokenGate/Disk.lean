import Std.Data.ExtTreeMap
import TokenGate.Bytes

/-!
# Files

A disk is a tree of directories with files in them, seen from a working directory. An operation on it
either succeeds or leaves it as it is; what stands in the way is a missing or unsuitable directory, or
a directory where a file is to be.
-/

namespace TokenGate

/-- What stands at a place of a disk. -/
inductive DiskEntry where
  | file (content : Bytes)
  | directory
  deriving DecidableEq, Repr

/-- The names on the way to a place of a disk from the working directory. First names ".." lead to the
directories around that one, and an empty first name leads to the root of all directories. -/
abbrev Place := List String

namespace Place

/-- Whether a name can be given to a file or a directory. -/
def isName (name : String) : Bool := name ≠ "" && name ≠ "." && name ≠ ".."

/-- Whether a place is the working directory, one around it, or the root. These are always there. -/
def isFixed (place : Place) : Bool := place.all (· == "..") || place == [""]

/-- The directory around a place. The root has none but itself. -/
def parent (place : Place) : Place :=
  if place = [""] then place
  else if place.isFixed then place ++ [".."]
  else place.dropLast

/-- Whether a place is inside of another one. -/
def isInside (inner place : Place) : Bool :=
  place.isPrefixOf inner && (inner.drop place.length).head?.any isName

end Place

/-- A tree of directories and files. -/
structure Disk where
  /-- All entries but the directories that are always there. -/
  entries : Std.ExtTreeMap Place DiskEntry := ∅

namespace Disk

/-- What stands at a place. -/
def find? (disk : Disk) (place : Place) : Option DiskEntry :=
  if place.isFixed then some .directory else disk.entries[place]?

/-- Whether something can be put at a place: the directory for it has to exist. -/
def hasDirectoryFor (disk : Disk) (place : Place) : Bool :=
  place.getLast?.any Place.isName && disk.find? place.dropLast == some .directory

/-- The disk with a file written, in place of one that was there. -/
def write? (disk : Disk) (place : Place) (content : Bytes) : Option Disk :=
  if disk.hasDirectoryFor place && disk.find? place ≠ some .directory then
    some ⟨disk.entries.insert place (.file content)⟩
  else none

/-- What was written is there, and everything else is as it was. -/
theorem find?_of_write? {disk written : Disk} {place : Place} {content : Bytes}
    (h : disk.write? place content = some written) (other : Place) :
    written.find? other = if other = place then some (.file content) else disk.find? other := by
  simp only [write?, Option.ite_none_right_eq_some, Bool.and_eq_true, Option.some.injEq] at h
  obtain ⟨⟨-, vacant⟩, rfl⟩ := h
  have free : place.isFixed = false := by
    cases fixed : place.isFixed with
    | false => rfl
    | true => simp [find?, fixed] at vacant
  by_cases same : other = place
  · subst same
    simp [find?, free]
  · simp [find?, same, Std.ExtTreeMap.getElem?_insert, Ne.symm same]

/-- The disk with a file moved to another place, where it replaces a file. -/
def rename? (disk : Disk) (source target : Place) : Option Disk :=
  match disk.find? source with
  | some (.file content) => write? ⟨disk.entries.erase source⟩ target content
  | _ => none

/-- The disk with a new directory. -/
def makeDirectory? (disk : Disk) (place : Place) : Option Disk :=
  if disk.hasDirectoryFor place && (disk.find? place).isNone then
    some ⟨disk.entries.insert place .directory⟩
  else none

/-- The disk with nothing in a directory. -/
def clear (disk : Disk) (place : Place) : Disk :=
  ⟨disk.entries.filter fun inner _ => !inner.isInside place⟩

/-- The disk with nothing at a place. -/
def erase (disk : Disk) (place : Place) : Disk := ⟨disk.entries.erase place⟩

/-- The names in the working directory, in order. -/
def names (disk : Disk) : List String :=
  disk.entries.keys.filterMap fun
    | [name] => some name
    | _ => none

end Disk

end TokenGate
