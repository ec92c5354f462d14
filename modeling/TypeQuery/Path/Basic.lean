/-!
# Paths

A path is a text with slashes, read as a list of components: a leading slash is the root, empty
parts are skipped, and so is a part `.` except at the front of a relative path.  Two paths name the
same thing if their components agree, so `a//b` and `a/./b/` are the path `a/b`, while `./a` is
not `a`; a part `..` is a component like any other.  The text itself is kept, because messages show
a path as it was written.
-/

namespace TypeQuery

/-- A part of a path. -/
inductive Component where
  | root
  | current
  | parent
  | normal (name : String)
deriving DecidableEq, Repr

/-- How a component is written. -/
def Component.text : Component → String
  | .root => "/"
  | .current => "."
  | .parent => ".."
  | .normal name => name

/-- A path, as it was written. -/
structure Path where
  text : String
deriving DecidableEq, Repr, Inhabited

namespace Path

/-- The parts of a text between its slashes. -/
def parts : List Char → List (List Char)
  | [] => [[]]
  | '/' :: cs => [] :: parts cs
  | c :: cs =>
    match parts cs with
    | [] => [[c]]
    | p :: ps => (c :: p) :: ps

/-- The component that a part stands for, if any, anywhere but at the front of a relative path. -/
def innerComponent (part : List Char) : Option Component :=
  if part = [] ∨ part = ['.'] then none
  else if part = ['.', '.'] then some .parent
  else some (.normal (String.ofList part))

/-- The components of a text. -/
def componentsOf : List Char → List Component
  | '/' :: cs => .root :: (parts cs).filterMap innerComponent
  | cs =>
    match parts cs with
    | ['.'] :: rest => .current :: rest.filterMap innerComponent
    | ps => ps.filterMap innerComponent

/-- The components of a path. -/
def components (p : Path) : List Component := componentsOf p.text.toList

/-- The path starts at the root. -/
def isAbsolute (p : Path) : Bool := p.text.toList.head? = some '/'

/-- Two paths with the same components. -/
def same (p q : Path) : Bool := p.components = q.components

/-- The path `q` as seen from `p`: `q` itself if it is absolute, and otherwise `q` below `p`. -/
def join (p q : Path) : Path :=
  if q.isAbsolute then q
  else if p.text = "" ∨ p.text.toList.getLast? = some '/' then ⟨p.text ++ q.text⟩
  else ⟨p.text ++ "/" ++ q.text⟩

/-- The path with the given components. -/
def ofComponents (cs : List Component) : Path :=
  cs.foldl (fun p c => p.join ⟨c.text⟩) ⟨""⟩

/-- The path without its last component.  The root and the empty path have no parent. -/
def parent? (p : Path) : Option Path :=
  match p.components.getLast? with
  | none | some .root => none
  | some _ => some (ofComponents p.components.dropLast)

end Path

end TypeQuery
