import TypeQuery.Catalog
import TypeQuery.Path.Basic

/-!
# Directories

A working directory with the files and directories below it, as far as reading and writing whole
files goes.  Paths are followed one part at a time: every part but the last has to lead to a
directory, and `..` goes back up.  The working directory lies in other directories, which hold
nothing else; above the root there is only the root.

A slash at the end of a path insists on a directory.  Reading then refuses a file, and writing
refuses whatever is there, since it makes files only.
-/

namespace TypeQuery

/-- What stands at a place: a file with its bytes, or a directory. -/
inductive DiskEntry where
  | file (content : ByteArray)
  | directory

/-- Why reading or writing a file fails. -/
inductive DiskError where
  | missing
  | isDirectory
  | notDirectory
  | nameTooLong
  | zeroInName
  | notText
deriving DecidableEq, Repr

/-- What the system says about a failure. -/
def DiskError.message : DiskError → String
  | .missing => "No such file or directory (os error 2)"
  | .isDirectory => "Is a directory (os error 21)"
  | .notDirectory => "Not a directory (os error 20)"
  | .nameTooLong => "File name too long (os error 36)"
  | .zeroInName => "file name contained an unexpected NUL byte"
  | .notText => "stream did not contain valid UTF-8"

/-! ## Places -/

/-- Where a path starts: at the root, or so many directories above the working directory. -/
inductive Origin where
  | root
  | working (above : Nat)
deriving DecidableEq, Repr

/-- A place: down from an origin by these names. -/
structure Place where
  origin : Origin
  names : List String
deriving DecidableEq, Repr

namespace Place

/-- The place of a name in the directory at a place. -/
def child (p : Place) (name : String) : Place := { p with names := p.names ++ [name] }

/-- The directory in which a place lies.  The root lies in itself. -/
def up (p : Place) : Place :=
  match p.names, p.origin with
  | [], .root => p
  | [], .working n => { p with origin := .working (n + 1) }
  | _ :: _, _ => { p with names := p.names.dropLast }

/-- Where a path starts. -/
def start (p : Path) : Place := ⟨if p.isAbsolute then .root else .working 0, []⟩

end Place

/-- Files and directories by their places.  Origins are always there, as directories. -/
structure Disk where
  entries : Catalog Place DiskEntry

namespace Disk

instance : EmptyCollection Disk := ⟨⟨∅⟩⟩

/-- What stands at a place. -/
def entry? (d : Disk) (p : Place) : Option DiskEntry :=
  if p.names.isEmpty then some .directory else d.entries.find? p

/-- Where a path leads: a place, what stands there, and whether a slash at the end of the path
insists on a directory. -/
structure Target where
  place : Place
  entry : Option DiskEntry
  slashed : Bool

/-! ## Following paths -/

/-- The longest name that a directory holds, in bytes. -/
def maxName : Nat := 255

/-- The longest path that can be followed, in bytes. -/
def maxPath : Nat := 4095

/-- Follows the parts of a path from a directory. -/
def follow (d : Disk) (here : Place) : List (List Char) → Except DiskError Target
  | [] => .ok ⟨here, some .directory, false⟩
  | part :: rest =>
    if part = [] ∨ part = ['.'] then d.follow here rest
    else if part = ['.', '.'] then d.follow here.up rest
    else if maxName < (String.ofList part).utf8ByteSize then .error .nameTooLong
    else
      let place := here.child (String.ofList part)
      let target := fun (entry : Option DiskEntry) => Target.mk place entry !rest.isEmpty
      let isLast := rest.all (·.isEmpty)
      match d.entry? place with
      | some .directory => d.follow place rest
      | some (.file content) =>
        if isLast then .ok (target (some (.file content))) else .error .notDirectory
      | none => if isLast then .ok (target none) else .error .missing

/-- Where a path leads. -/
def locate (d : Disk) (p : Path) : Except DiskError Target :=
  if p.text.toList.contains '\x00' then .error .zeroInName
  else if maxPath < p.text.utf8ByteSize then .error .nameTooLong
  else d.follow (Place.start p) (Path.parts p.text.toList)

/-! ## Files -/

/-- The bytes of a file. -/
def content (d : Disk) (p : Path) : Except DiskError ByteArray := do
  let target ← d.locate p
  match target.entry with
  | none => .error .missing
  | some .directory => .error .isDirectory
  | some (.file content) => if target.slashed then .error .notDirectory else .ok content

/-- The path leads to a file. -/
def isFile (d : Disk) (p : Path) : Bool := (d.content p).isOk

/-- The text of a file. -/
def read (d : Disk) (p : Path) : Except DiskError String := do
  match String.fromUTF8? (← d.content p) with
  | some text => .ok text
  | none => .error .notText

/-- Writes a file, over the one that is there or at a free place. -/
def write (d : Disk) (p : Path) (content : ByteArray) : Except DiskError Disk := do
  let target ← d.locate p
  match target.entry, target.slashed with
  | some .directory, _ | _, true => .error .isDirectory
  | _, false => .ok ⟨d.entries.insert target.place (.file content)⟩

/-! ## Directories -/

/-- Makes the directories that are missing on the way along the parts of a path, as far as no file
stands in the way. -/
def makeAlong (d : Disk) (here : Place) : List (List Char) → Disk
  | [] => d
  | part :: rest =>
    if part = [] ∨ part = ['.'] then d.makeAlong here rest
    else if part = ['.', '.'] then d.makeAlong here.up rest
    else
      let place := here.child (String.ofList part)
      match d.entry? place with
      | some .directory => d.makeAlong place rest
      | some (.file _) => d
      | none => makeAlong ⟨d.entries.insert place .directory⟩ place rest

/-- Makes the directory at a path, with every directory on the way; what is there stays. -/
def makeDirs (d : Disk) (p : Path) : Disk :=
  d.makeAlong (Place.start p) (Path.parts p.text.toList)

/-- Makes an empty file at a path, with every directory on the way to it. -/
def touch (d : Disk) (p : Path) : Disk :=
  let d := (p.parent?.map d.makeDirs).getD d
  ((d.write p ByteArray.empty).toOption).getD d

/-- A working directory with empty files at these paths. -/
def ofFiles (paths : List Path) : Disk := paths.foldl touch ∅

end Disk

end TypeQuery
