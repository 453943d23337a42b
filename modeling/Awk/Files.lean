import Awk.Fault

/-!
# Files

The files that a run can reach, each at its path from the root, with their contents, and a few devices.  A name leads
to an entry, step by step from the root or from the working directory (`Files.locate`), or it fails for the reason that
opening it would give.

Writing below a file's end goes over what stands there (`overwrite`); writing beyond it leaves NULs in between.
-/

namespace Awk

/-- The names from the root down to a file or a directory. -/
abbrev Path := List Text

structure Files where
  /-- The working directory. -/
  home : Path
  contents : List (Path × Text)
  directories : List Path
  /-- Names that were looked for in vain. -/
  sought : List Text
  deriving DecidableEq, Repr

/-- Files that are not on a disk. -/
inductive Device where
  /-- Takes everything, gives nothing. -/
  | null
  /-- Takes nothing. -/
  | full
  | input
  | output
  | errors
  deriving DecidableEq, Repr

/-- What a name leads to. -/
inductive Entry where
  | file (path : Path)
  | directory
  | device (d : Device)
  /-- Nothing yet, but a file of this path can be made. -/
  | absent (path : Path)
  deriving DecidableEq, Repr

/-- The text with `new` written over it from an offset on. -/
def overwrite (old : Text) (offset : Nat) (new : Text) : Text :=
  Text.padRight offset '\x00' (old.take offset) ++ new ++ old.drop (offset + new.length)

/-- Length of a text when it is stored. -/
def storedLength (t : Text) : Nat := t.foldl (fun size c => size + c.utf8Size) 0

namespace Device

def ofName? (name : Text) : Option Device :=
  [("null", null), ("full", full), ("stdin", input), ("stdout", output), ("stderr", errors)].findSome? fun (s, d) =>
    if s.toList = name then some d else none

end Device

namespace Files

def text? (files : Files) (path : Path) : Option Text := files.contents.lookup path

def text (files : Files) (path : Path) : Text := (files.text? path).getD []

/-- Contents with a new text at a path, in its old place or last. -/
def putEntry (path : Path) (text : Text) : List (Path × Text) → List (Path × Text)
  | [] => [(path, text)]
  | (p, t) :: rest => if p = path then (p, text) :: rest else (p, t) :: putEntry path text rest

def put (files : Files) (path : Path) (text : Text) : Files :=
  { files with contents := putEntry path text files.contents }

/-- A name's parts between slashes. -/
def parts (name : Text) : List Text := Text.splitOn (· == '/') name

/-- A part that leads nowhere else. -/
def isIdle (part : Text) : Bool := part.isEmpty || part == ['.']

/-- Where a name begins: at the root, or in the working directory. -/
def base (home : Path) (name : Text) : Path := if name.head? = some '/' then [] else home

/-- The path that a name takes through directories that are all there.  Above the root there is nothing else. -/
def pathOf (home : Path) (name : Text) : Path :=
  (parts name).foldl
    (fun path part => if isIdle part then path else if part = "..".toList then path.dropLast else path ++ [part])
    (base home name)

/-- Put a directory and those above it. -/
def addDirectory (files : Files) (path : Path) : Files :=
  let new := (List.range (path.length + 1)).map path.take
  { files with directories := files.directories ++ new.filter (!files.directories.contains ·) }

/-- Put a file and the directories above it. -/
def add (files : Files) (name content : Text) : Files :=
  let path := pathOf files.home name
  (files.addDirectory path.dropLast).put path content

/-- The directories next to the root. -/
def rootDirectories : List String := ["bin", "dev", "etc", "home", "lib", "proc", "root", "sys", "tmp", "usr", "var"]

/-- No files in or above a working directory. -/
def emptyAt (home : Path) : Files := addDirectory ⟨home, [], rootDirectories.map fun s => [s.toList], []⟩ home

/-- No files in a working directory like any other. -/
def empty : Files := emptyAt ["home".toList, "awk".toList]

/-- The files with these names and contents. -/
def ofList (given : List (Text × Text)) : Files := given.foldl (fun files (name, content) => files.add name content) empty

/-- The longest name of one file. -/
def nameLimit : Nat := 255

/-- The longest name with all its parts. -/
def pathLimit : Nat := 4095

/-- The device at a path. -/
def device? : Path → Option Device
  | [top, name] => if top = "dev".toList then Device.ofName? name else none
  | _ => none

/-- Follow the parts of a name from a directory.  `creating` asks for an entry to write to. -/
def follow (files : Files) (creating : Bool) : Path → List Text → Except OpenReason Entry
  | _, [] => .ok .directory
  | here, part :: rest =>
    if isIdle part then follow files creating here rest
    else if part = "..".toList then follow files creating here.dropLast rest
    else if nameLimit < storedLength part then .error .nameTooLong
    else
      let path := here ++ [part]
      match device? path with
      | some d => if rest.isEmpty then .ok (.device d) else .error .notDirectory
      | none =>
        if files.directories.contains path then follow files creating path rest
        else if (files.text? path).isSome then
          if rest.isEmpty then .ok (.file path) else .error .notDirectory
        else if !creating then .error .missing
        else if rest.isEmpty then .ok (.absent path)
        else if rest.all List.isEmpty then .error .isDirectory
        else .error .missing

/-- The entry of a name. -/
def locate (files : Files) (creating : Bool) (name : Text) : Except OpenReason Entry :=
  if name.isEmpty then .error .missing
  else if pathLimit < storedLength name then .error .nameTooLong
  else files.follow creating (base files.home name) (parts name)

/-- Note that a name was looked for in vain. -/
def seek (files : Files) (name : Text) : Files :=
  if files.sought.contains name then files else { files with sought := files.sought ++ [name] }

/-- The file or device to read under a name. -/
def toRead (files : Files) (name : Text) : Except OpenReason (Path ⊕ Device) × Files :=
  match files.locate false name with
  | .error reason => (.error reason, files.seek name)
  | .ok (.file path) => (.ok (.inl path), files)
  | .ok (.device d) => (.ok (.inr d), files)
  | .ok .directory => (.error .isDirectory, files)
  | .ok (.absent _) => (.error .missing, files.seek name)

/-- The file or device to write under a name; the file is there afterwards, and empty if `anew`. -/
def toWrite (files : Files) (anew : Bool) (name : Text) : Except OpenReason (Path ⊕ Device) × Files :=
  match files.locate true name with
  | .error reason => (.error reason, files.seek name)
  | .ok (.device d) => (.ok (.inr d), files)
  | .ok .directory => (.error .isDirectory, files)
  | .ok (.file path) => (.ok (.inl path), if anew then files.put path [] else files)
  | .ok (.absent path) => (.ok (.inl path), (if anew then files else files.seek name).put path [])

/-- Write at the end of a file. -/
def append (files : Files) (path : Path) (t : Text) : Files := files.put path (files.text path ++ t)

/-- The name of a path from the root on. -/
def rootName (path : Path) : Text := '/' :: Text.join ['/'] path

/-- The name of a path, from the working directory on if it is below. -/
def nameOf (home path : Path) : Text :=
  if home.isPrefixOf path then Text.join ['/'] (path.drop home.length) else rootName path

/-- Names and contents of the files that were not there before, or were different. -/
def changes (before after : Files) : List (Text × Text) :=
  after.contents.filterMap fun (path, t) =>
    if before.text? path = some t then none else some (nameOf before.home path, t)

end Files

end Awk
