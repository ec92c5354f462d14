import TypeQuery.Catalog
import TypeQuery.Expr.Basic
import TypeQuery.Path.Basic
import TypeQuery.Ty.Basic

/-!
# Known modules

The modules of a program that have been indexed: each file stands for one module, which is named by
its path, and a module may export a value.  A module is found under every spelling of its path; the
spelling of the latest registration is the one that is shown.
-/

namespace TypeQuery

/-- What requiring a module gives. -/
inductive Export where
  /-- A value of a known type. -/
  | type (ty : Ty)
  /-- The value of an expression of the module. -/
  | value (expr : Expr)

/-- An indexed module. -/
structure Module where
  path : Path
  file : FileId
  exported : Option Export

/-- Why a module cannot be had. -/
inductive ModuleError where
  /-- No file for the name; `searched` are the paths that were tried, in order. -/
  | notFound (source : String) (searched : List Path)
  /-- The name cannot be turned into a path. -/
  | invalidPath (source : String) (reason : String)
  /-- The file is there, but it has not been indexed. -/
  | notRegistered (path : Path)
  /-- The file that asks stands for no module. -/
  | unknownFile (file : FileId)

/-- What a client is told about a module error. -/
def ModuleError.message : ModuleError → String
  | .notFound source searched =>
    "Cannot find module '" ++ source ++ "'\nSearched paths:\n" ++
      String.join (searched.map fun p => "  - " ++ p.text ++ "\n")
  | .invalidPath source reason => "Invalid module path '" ++ source ++ "': " ++ reason
  | .notRegistered path => "Module '" ++ path.text ++ "' has not been indexed yet"
  | .unknownFile file => "File #" ++ toString file ++ " is not registered"

/-- The indexed modules, by the components of their paths, and the module of each file. -/
structure Registry where
  modules : Catalog (List Component) Module
  files : Catalog FileId Path

namespace Registry

instance : EmptyCollection Registry := ⟨⟨∅, ∅⟩⟩

/-- Indexes a module.  It replaces what was known under its path and about its file. -/
def register (r : Registry) (m : Module) : Registry where
  modules := r.modules.insert m.path.components m
  files := r.files.insert m.file m.path

/-- The module at a path. -/
def find? (r : Registry) (p : Path) : Option Module := r.modules.find? p.components

/-- The module at a path, which has to be indexed. -/
def get (r : Registry) (p : Path) : Except ModuleError Module :=
  match r.find? p with
  | some m => .ok m
  | none => .error (.notRegistered p)

/-- The path of the module that a file stands for. -/
def pathOf (r : Registry) (file : FileId) : Except ModuleError Path :=
  match r.files.find? file with
  | some p => .ok p
  | none => .error (.unknownFile file)

/-- The number of indexed modules. -/
def size (r : Registry) : Nat := r.modules.size

/-- No module is indexed. -/
def isEmpty (r : Registry) : Bool := r.modules.isEmpty

end Registry

end TypeQuery
