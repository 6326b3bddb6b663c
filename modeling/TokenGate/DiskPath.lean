import TokenGate.Disk

/-!
# Paths

A path is followed name by name, and every name but the last has to be that of a directory. Names
that nothing can have, the empty one and dots, stay in a directory or leave it.
-/

namespace TokenGate

/-- A path to a file or a directory, as it was given. -/
structure DiskPath where
  text : String
  deriving DecidableEq, Repr

/-- Why a path cannot be followed, or not to what it is to lead to. -/
inductive PathError where
  /-- There is nothing, at the end or on the way. -/
  | missing
  /-- There is something else, or nothing can have such a path. -/
  | obstructed
  deriving DecidableEq, Repr

namespace DiskPath

/-- The pieces of some characters between slashes. -/
def pieces : List Char → List (List Char)
  | [] => [[]]
  | c :: cs =>
    if c = '/' then [] :: pieces cs
    else
      match pieces cs with
      | [] => [[c]]
      | piece :: more => (c :: piece) :: more

/-- The names in a path. The first one is empty if the path begins at the root, and the last one if
the path ends with a slash. -/
def names (path : DiskPath) : List String := (pieces path.text.toList).map String.ofList

/-- The steps of a path, by which paths are compared: repeated slashes, and dots after the first
step, mean nothing. -/
def steps (path : DiskPath) : List String :=
  if path.text = "" then []
  else
    match path.names with
    | [] => []
    | first :: rest => first :: rest.filter fun step => step ≠ "" && step ≠ "."

/-- The names to follow. The empty path leads nowhere, and a path has less than 4096 bytes, none of
which is zero. -/
def route (path : DiskPath) : Except PathError (List String) :=
  if path.text = "" then .error .missing
  else if path.text.utf8ByteSize < 4096 ∧ '\x00' ∉ path.text.toList then .ok path.names
  else .error .obstructed

/-- The names to follow to a directory: slashes at the end of the path mean nothing. -/
def directoryRoute (path : DiskPath) : Except PathError (List String) :=
  path.route.map fun names => (names.reverse.dropWhile (· = "")).reverse

/-- The path of the file in which a new version of a file is made. -/
def temporary (path : DiskPath) : DiskPath := ⟨path.text ++ ".tmp"⟩

end DiskPath

/-- The place that a name leads to from a directory. A name has at most 255 bytes. -/
def Place.step (here : Place) (name : String) : Except PathError Place :=
  if name = ".." then .ok here.parent
  else if !isName name then .ok here
  else if name.utf8ByteSize ≤ 255 then .ok (here ++ [name])
  else .error .obstructed

namespace Disk

/-- The place that some names lead to from another place, which has to be a directory if there are
names. -/
def follow (disk : Disk) (here : Place) : List String → Except PathError Place
  | [] => .ok here
  | name :: rest =>
    match disk.find? here with
    | none => .error .missing
    | some (.file _) => .error .obstructed
    | some .directory => do disk.follow (← here.step name) rest

/-- Names that can be followed can also be followed after a file was written. -/
theorem follow_of_write? {disk written : Disk} {place here target : Place} {content : Bytes}
    {names : List String} (h : disk.write? place content = some written)
    (followed : disk.follow here names = .ok target) : written.follow here names = .ok target := by
  induction names generalizing here with
  | nil => exact followed
  | cons name rest ih =>
    rw [follow] at followed
    split at followed
    · simp at followed
    · simp at followed
    · rename_i isDirectory
      have kept : written.find? here = some .directory := by
        rw [find?_of_write? h, if_neg, isDirectory]
        rintro rfl
        simp [write?, isDirectory] at h
      rw [follow, kept]
      cases step : here.step name with
      | error e => simp [step, bind, Except.bind] at followed
      | ok next =>
        simp only [step, bind, Except.bind] at followed
        exact ih followed

/-- The place that the names of a path lead to, at which there may be nothing. -/
def locate (disk : Disk) (names : List String) : Except PathError Place :=
  disk.follow (if names.head? = some "" then [""] else []) names

/-- The place that gets the last one of the names of a path, at which there may be nothing. -/
def locateEntry (disk : Disk) (names : List String) : Except PathError Place := do
  let place ← disk.locate names
  if names.getLast?.any Place.isName then .ok place else .error .obstructed

/-- The content of the file that a path leads to. -/
def readAt (disk : Disk) (path : DiskPath) : Except PathError Bytes := do
  let place ← disk.locate (← path.route)
  match disk.find? place with
  | none => .error .missing
  | some .directory => .error .obstructed
  | some (.file content) => .ok content

/-- The disk with a file written under a path, in place of one that was there. -/
def writeAt? (disk : Disk) (path : DiskPath) (content : Bytes) : Option Disk := do
  let place ← (path.route >>= disk.locateEntry).toOption
  disk.write? place content

/-- What was written under a path is read there. -/
theorem readAt_of_writeAt? {disk written : Disk} {path : DiskPath} {content : Bytes}
    (h : disk.writeAt? path content = some written) : written.readAt path = .ok content := by
  cases route : path.route with
  | error e => simp [writeAt?, route, bind, Except.bind, Except.toOption] at h
  | ok names =>
    cases located : disk.locate names with
    | error e =>
      simp [writeAt?, route, locateEntry, located, bind, Except.bind, Except.toOption] at h
    | ok place =>
      by_cases named : names.getLast?.any Place.isName
      · have wrote : disk.write? place content = some written := by
          simpa [writeAt?, route, locateEntry, located, named, bind, Except.bind,
            Except.toOption] using h
        have there : written.locate names = .ok place := follow_of_write? wrote located
        have found := find?_of_write? wrote place
        simp only [if_pos] at found
        simp [readAt, route, there, found, bind, Except.bind]
      · simp [writeAt?, route, locateEntry, located, named, bind, Except.bind,
          Except.toOption] at h

/-- The disk with a file moved to another path, where it replaces a file. -/
def renameAt? (disk : Disk) (source target : DiskPath) : Option Disk := do
  let source ← (source.route >>= disk.locateEntry).toOption
  let target ← (target.route >>= disk.locateEntry).toOption
  disk.rename? source target

/-- The disk with a new directory. -/
def makeDirectoryAt? (disk : Disk) (path : DiskPath) : Option Disk := do
  let place ← (path.directoryRoute >>= disk.locateEntry).toOption
  disk.makeDirectory? place

/-- The disk without a directory and everything in it, and whether the directory is gone. A path that
ends with dots gives no name to it and so empties it only; if the path led through something in the
directory, nothing is there any more, which counts as gone. -/
def removeDirectoryAt (disk : Disk) (path : DiskPath) : Bool × Disk :=
  match path.route >>= disk.locate with
  | .error _ => (false, disk)
  | .ok place =>
    if disk.find? place = some .directory then
      let emptied := disk.clear place
      match path.directoryRoute >>= emptied.locateEntry with
      | .ok place => (true, emptied.erase place)
      | .error .missing => (true, emptied)
      | .error .obstructed => (false, emptied)
    else (false, disk)

end Disk

end TokenGate
