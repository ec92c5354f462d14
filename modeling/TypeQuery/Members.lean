import TypeQuery.Catalog
import TypeQuery.Declaration
import TypeQuery.Ty.Basic

/-!
# Members of classes

All declarations of the fields of each class.  A field may be declared many times, in several files;
every declaration counts, because each may contribute to the type of the field.  Classes and fields
are listed in the order in which they were first met.
-/

namespace TypeQuery

/-- The declarations of each field of each class, by the member key of the class. -/
structure Members where
  classes : Catalog String (Catalog String (List Declaration))

namespace Members

instance : EmptyCollection Members := ⟨⟨∅⟩⟩

/-- The fields of a class. -/
def fieldsOf (m : Members) (c : ClassTy) : Catalog String (List Declaration) :=
  (m.classes.find? c.memberKey).getD ∅

/-- All declarations of a field of a class, in the order in which they were added. -/
def declarationsOf (m : Members) (c : ClassTy) (field : String) : List Declaration :=
  ((m.fieldsOf c).find? field).getD []

/-- The names of the fields of a class. -/
def namesOf (m : Members) (c : ClassTy) : List String := (m.fieldsOf c).keys

/-- The number of classes with members. -/
def size (m : Members) : Nat := m.classes.size

/-- No class has members. -/
def isEmpty (m : Members) : Bool := m.classes.isEmpty

/-- Adds a declaration to a class. -/
def add (m : Members) (c : ClassTy) (d : Declaration) : Members :=
  let declared := m.declarationsOf c d.name ++ [d]
  ⟨m.classes.insert c.memberKey ((m.fieldsOf c).insert d.name declared)⟩

/-- The declaration that a field of a table constructor makes.  A value without a name makes none,
and neither does one whose key is anything but a string literal. -/
def declarationOfField : TableField → Option Declaration
  | .named id name value => some { Declaration.field id name value with span := value.span }
  | .keyed id key value =>
    key.string?.map fun name => { Declaration.field id name value with span := value.span }
  | .positional _ => none

/-- The declarations that the fields of a table constructor make; none for any other expression. -/
def declarationsOfTable : Expr → List Declaration
  | .table _ fields => fields.filterMap declarationOfField
  | _ => []

/-- Adds the fields of a table constructor to the class of that table; the first part of the result
is their number. -/
def addTable (m : Members) (e : Expr) : Nat × Members :=
  let ds := declarationsOfTable e
  (ds.length, ds.foldl (fun m d => m.add (.table e.id) d) m)

end Members

end TypeQuery
