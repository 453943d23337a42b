import Awk.Invoke

/-!
# The program

`main` gathers what a run can see, runs it, and writes down what it has done.  A run is a function of its files, so
when it has looked in vain for a name that is on the disk, the file or directory is added and the run is made again.
-/

namespace Awk

/-- The environment, from the list of entries that the system keeps. -/
def readEnvironment : IO (List (Text × Text)) := do
  let entries ← try IO.FS.readFile "/proc/self/environ" catch _ => pure ""
  return (Text.splitOn (· == '\x00') entries.toList).filterMap fun entry => Text.cutAt? ['='] entry

/-- What stands under a name on the disk. -/
inductive Disk where
  | file (content : Text)
  | directory
  | nothing

def look (name : Text) : IO Disk := do
  try
    return .file (← IO.FS.readFile (String.ofList name)).toList
  catch
    | .noFileOrDirectory .. => return .nothing
    | _ => return .directory

/-- Add the directories on the way to a path that are on the disk. -/
def revealAbove (path : Path) (files : Files) : IO Files := do
  let mut files := files
  for length in List.range path.length do
    let above := path.take length
    match ← look (Files.rootName above ++ "/.".toList) with
    | .directory => files := files.addDirectory above
    | _ => pure ()
  return files

/-- Add what stands under a name on the disk. -/
def reveal (name : Text) (files : Files) : IO Files := do
  if name.isEmpty then return files
  let path := Files.pathOf files.home name
  match ← look name with
  | .file content => return files.add name content
  | .directory => return (← revealAbove path files).addDirectory path
  | .nothing => revealAbove path files

/-- Run until nothing is looked for in vain that is on the disk.  At first nothing of the standard input has been
fetched. -/
partial def runOn (words : List Text) (environment : List (Text × Text)) (input : Text) (clock : Nat) (files : Files) :
    IO (Nat × Files × World) := do
  let before := World.start files environment [] clock
  let (status, after) := invoke runFuel words { before with input := ⟨[], input⟩ }
  let mut known := files
  for name in after.files.sought do
    known ← reveal name known
  if known = files then return (status, files, after)
  else runOn words environment input clock known

end Awk

open Awk in
def main (args : List String) : IO UInt32 := do
  let input ← (← IO.getStdin).readToEnd
  let clock := (← IO.monoMsNow) / 1000
  let home := Files.pathOf [] (← IO.FS.realPath ".").toString.toList
  let (status, files, after) ← runOn (args.map String.toList) (← readEnvironment) input.toList clock (.emptyAt home)
  for (name, content) in files.changes after.files do
    IO.FS.writeFile (String.ofList name) (String.ofList content)
  IO.print (String.ofList after.shown)
  IO.eprint (String.ofList after.errors)
  return UInt32.ofNat status
