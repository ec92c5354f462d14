import TypeQuery.Node

/-!
# Types

What inference can say about a Lua value.  `Ty` is a plain value with structural equality:

* `unknown` and `invalid` carry no information.  `unknown` is "nothing found", `invalid` is a
  marker that an annotation may hold; both give way to any concrete type in a union.
* `nil`, `boolean`, `number` and `string` are the primitive types.
* `object` is a table seen as an instance of a class: one that an annotation declares, the
  anonymous class of one table constructor, or the open record of a global name.
* `array`, `generic` and `function` are built from other types; a function holds one signature
  per overload.
* `union` is a choice between at least two types.  Its members are kept strictly increasing in the
  order of `TypeQuery.Ty.Order`, so that equal choices are equal values; `TypeQuery.Ty.Join` builds
  unions only in that form.
-/

namespace TypeQuery

/-- Where the class of an object comes from. -/
inductive ClassKind where
  /-- An annotation declares it. -/
  | declared
  /-- It is the class of the one table that this constructor makes. -/
  | table (site : NodeId)
  /-- It is the open record of a global name, which any file may extend. -/
  | global
deriving DecidableEq, Repr, Inhabited

mutual

/-- A class of objects.  `params` are its type arguments, if it was written with an argument
list. -/
structure ClassTy where
  name : String
  kind : ClassKind
  params : Option (List Ty)

/-- A parameter of a signature. -/
structure Parameter where
  name : String
  ty : Ty

/-- One way to call a function: its parameters, and the types of the values it returns. -/
structure Signature where
  params : List Parameter
  returns : List Ty

/-- The type of a Lua value. -/
inductive Ty where
  | unknown
  | invalid
  | nil
  | boolean
  | number
  | string
  | object (of : ClassTy)
  | array (element : Ty)
  | generic (base : String) (params : List Ty)
  | function (signatures : List Signature)
  | union (members : List Ty)

end

instance : Inhabited Ty := ⟨.unknown⟩

namespace ClassTy

/-- The class that an annotation declares under `name`. -/
def declared (name : String) : ClassTy := ⟨name, .declared, none⟩

/-- The anonymous class of the table made at `site`. -/
def table (site : NodeId) : ClassTy := ⟨"table@" ++ site.text, .table site, none⟩

/-- The open record of the global `name`. -/
def global (name : String) : ClassTy := ⟨name, .global, none⟩

/-- The name under which the members of a class are indexed.  The open record of a global gets a
mark of its own, so it never shares members with a declared class of the same name. -/
def memberKey (c : ClassTy) : String :=
  match c.kind with
  | .global => "$" ++ c.name
  | .declared | .table _ => c.name

end ClassTy

/-- The type of the returned value at position `i`; a value that is not returned is nil. -/
def Signature.returnAt (s : Signature) (i : Nat) : Ty :=
  s.returns.getD i .nil

namespace Ty

/-- A declared class as a type. -/
def declared (name : String) : Ty := .object (.declared name)

/-- The type of the table made at `site`. -/
def table (site : NodeId) : Ty := .object (.table site)

/-- The open record of a global as a type. -/
def global (name : String) : Ty := .object (.global name)

/-- A function with a single signature. -/
def simpleFunction (params : List Parameter) (returns : List Ty) : Ty :=
  .function [⟨params, returns⟩]

/-- Nothing at all is known. -/
def isUnknown : Ty → Bool
  | .unknown => true
  | _ => false

/-- The type carries no information. -/
def isInvalid : Ty → Bool
  | .unknown | .invalid => true
  | _ => false

/-- The type is nil itself. -/
def isNil : Ty → Bool
  | .nil => true
  | _ => false

/-- The type is a function. -/
def isFunction : Ty → Bool
  | .function _ => true
  | _ => false

/-- The class, if the type is one. -/
def class? : Ty → Option ClassTy
  | .object c => some c
  | _ => none

/-- The choices of a union; any other type is its own only choice. -/
def members : Ty → List Ty
  | .union ms => ms
  | t => [t]

/-- The classes among the choices. -/
def classes (t : Ty) : List ClassTy := t.members.filterMap class?

/-- The element type, if the type is an array. -/
def element? : Ty → Option Ty
  | .array e => some e
  | _ => none

/-- The name and arguments, if the type is generic. -/
def instantiated? : Ty → Option (String × List Ty)
  | .generic base params => some (base, params)
  | _ => none

/-- The element type of the first array among the choices. -/
def arrayElement? (t : Ty) : Option Ty := t.members.findSome? element?

/-- The first generic type among the choices, as its name and arguments. -/
def generic? (t : Ty) : Option (String × List Ty) := t.members.findSome? instantiated?

/-- The type argument at position `i`; an argument that is not given is unknown. -/
def argumentAt (params : List Ty) (i : Nat) : Ty := params.getD i .unknown

end Ty

end TypeQuery
