import TypeQuery.Disk
import TypeQuery.Module.Registry
import TypeQuery.Path.Normal

/-!
# Searching for modules

How the name in a `require` leads to a module.  A name that starts with `./` or `../` is seen from
the directory of the file that asks; any other name is a package name, whose dots separate
directories, and is tried below each root in turn.  Below a directory, each template gives one
candidate, with the name in the place of every question mark.  The first candidate that is a file is
the module; if there is none, the error lists all candidates in the order in which they were tried.
-/

namespace TypeQuery

/-- The files that a search can find. -/
inductive FileSet where
  /-- A plain list. -/
  | listed (paths : List Path)
  /-- The files of a working directory. -/
  | onDisk (disk : Disk)

/-- The path is the path of a file in the set. -/
def FileSet.contains : FileSet → Path → Bool
  | .listed paths, p => paths.any p.same
  | .onDisk disk, p => disk.isFile p

/-- What is needed to find modules.  Relative roots and relative modules are seen from `base`. -/
structure Modules where
  files : FileSet
  roots : List Path
  templates : List String
  base : Path
  registry : Registry

namespace Modules

/-- A template with `name` in the place of every question mark. -/
def fill (template name : String) : String :=
  String.ofList (template.toList.flatMap fun c => if c = '?' then name.toList else [c])

/-- The path part of a package name: its dots separate directories. -/
def packagePath (source : String) : String :=
  String.ofList (source.toList.map fun c => if c = '.' then '/' else c)

/-- The name is seen from the file that asks. -/
def isRelative (source : String) : Bool :=
  ['.', '/'].isPrefixOf source.toList || ['.', '.', '/'].isPrefixOf source.toList

/-- The normal form of a path, seen from the base directory. -/
def locate (m : Modules) (p : Path) : Path :=
  (if p.isAbsolute then p else m.base.join p).normal

/-- The path that a template gives for a name below a directory. -/
def candidate (m : Modules) (name : String) (dir : Path) (template : String) : Path :=
  m.locate (dir.join ⟨fill template name⟩)

/-- Tries templates below a directory one after the other, and stops at the first that leads to a
file.  If none does, the result is all that was tried, on top of what was tried before. -/
def searchIn (m : Modules) (name : String) (dir : Path) :
    List String → List Path → Except (List Path) Path
  | [], tried => .error tried
  | t :: ts, tried =>
    let p := m.candidate name dir t
    if m.files.contains p then .ok p else m.searchIn name dir ts (tried ++ [p])

/-- Tries all templates below one directory after the other, and stops at the first file. -/
def search (m : Modules) (name : String) : List Path → List Path → Except (List Path) Path
  | [], tried => .error tried
  | dir :: dirs, tried =>
    match m.searchIn name dir m.templates tried with
    | .ok p => .ok p
    | .error tried => m.search name dirs tried

/-- The directories in which a name in a `require` of `file` is searched, and the name as it is
looked for there. -/
def whereToLook (m : Modules) (source : String) (file : FileId) :
    Except ModuleError (List Path × String) :=
  if source = "" then .error (.invalidPath source "empty module name")
  else if isRelative source then do
    let path ← m.registry.pathOf file
    match path.parent? with
    | some dir => .ok ([dir], source)
    | none =>
      .error (.invalidPath source ("Cannot get parent directory of '" ++ path.text ++ "'"))
  else .ok (m.roots, packagePath source)

/-- The path of the module that a name in a `require` of `file` means. -/
def resolvePath (m : Modules) (source : String) (file : FileId) : Except ModuleError Path := do
  let (dirs, name) ← m.whereToLook source file
  match m.search name dirs [] with
  | .ok p => .ok p
  | .error tried => .error (.notFound source tried)

/-- The module that a name in a `require` of `file` means. -/
def resolve (m : Modules) (source : String) (file : FileId) : Except ModuleError Module := do
  m.registry.get (← m.resolvePath source file)

end Modules

end TypeQuery
