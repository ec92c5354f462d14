import TypeQuery.Catalog
import TypeQuery.Declaration

/-!
# Scopes

The names that one block declares.  Declaring a name again hides the earlier declaration for the
rest of the block.
-/

namespace TypeQuery

/-- The names of one block, each with its latest declaration. -/
abbrev Scope := Catalog String Declaration

namespace Scope

/-- Declares a name; the first part of the result is the declaration that it hides. -/
def declare (s : Scope) (d : Declaration) : Option Declaration × Scope :=
  (s.find? d.name, s.insert d.name d)

/-- The latest declaration of `name`. -/
def lookup (s : Scope) (name : String) : Option Declaration := s.find? name

/-- All declarations in force, in the order of their ids. -/
def declarations (s : Scope) : List Declaration :=
  s.values.mergeSort fun a b => (a.id.cmp b.id).isLE

end Scope

end TypeQuery
