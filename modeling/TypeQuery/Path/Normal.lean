import TypeQuery.Path.Basic

/-!
# Paths in normal form

The normal form of a path is found from its text alone, without a look at any directory: `.` is
dropped, and `..` takes away the component before it.  A `..` with nothing before it is dropped as
well, so that no `..` is left for another one to stand after.
-/

namespace TypeQuery.Path

/-- Adds a component to a list of components in normal form.  A `..` takes away the component before
it, unless that is a `..` too. -/
def normalStep (done : List Component) : Component → List Component
  | .current => done
  | .parent =>
    match done.getLast? with
    | none => done
    | some .parent => done ++ [.parent]
    | some _ => done.dropLast
  | c => done ++ [c]

/-- The normal form of a list of components. -/
def normalComponents (cs : List Component) : List Component := cs.foldl normalStep []

/-- The normal form of a path. -/
def normal (p : Path) : Path := ofComponents (normalComponents p.components)

end TypeQuery.Path
