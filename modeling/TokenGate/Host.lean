import Std.Data.ExtTreeSet
import TokenGate.DiskPath

/-!
# The host of repositories

What the repositories of one process have in common: the disk, the clock, and the list of the store
files in use, which keeps two of them from writing to the same one.
-/

namespace TokenGate

/-- What the repositories of a process have in common. -/
structure Host where
  disk : Disk := {}
  /-- The paths, by their steps, of the store files of open repositories. -/
  live : Std.ExtTreeSet (List String) := ∅
  /-- The time, in seconds since 1970. -/
  clock : UInt64 := 0

namespace Host

/-- Whether a store file is in use. -/
def isLive (host : Host) (path : DiskPath) : Bool := host.live.contains path.steps

/-- The host with a store file taken into use. -/
def claim (host : Host) (path : DiskPath) : Host :=
  { host with live := host.live.insert path.steps }

/-- The host with a store file no longer in use, if there was one. -/
def release (host : Host) (path : Option DiskPath) : Host :=
  match path with
  | some path => { host with live := host.live.erase path.steps }
  | none => host

/-- The host some seconds later. The clock has 64 bits and begins again after the last second. -/
def advance (host : Host) (seconds : UInt64) : Host :=
  { host with clock := host.clock + seconds }

/-- The content of the file at a path. -/
def readFile (host : Host) (path : DiskPath) : Except PathError Bytes := host.disk.readAt path

/-- The host with the file at a path replaced, by way of a temporary file next to it. If only the
last step fails, the temporary file stays; the file itself is as before after any failure. -/
def replaceFile (host : Host) (path : DiskPath) (content : Bytes) : Bool × Host :=
  match host.disk.writeAt? path.temporary content with
  | none => (false, host)
  | some written =>
    match written.renameAt? path.temporary path with
    | none => (false, { host with disk := written })
    | some renamed => (true, { host with disk := renamed })

end Host

end TokenGate
