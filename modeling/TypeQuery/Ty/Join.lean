import TypeQuery.Ty.Order

/-!
# Joins of types

The join of two types is the least type that allows everything that either allows.  Types without
information are neutral: they add nothing to a concrete type.  Two concrete types are joined by
collecting their choices into one strictly increasing list, so a union never holds another union, a
type twice, or a type without information, and joining the same choices in another order gives the
same value.

`narrow` goes the other way and keeps some of the choices; `contains` compares two types by their
choices.
-/

namespace TypeQuery.Ty

/-- Adds a type to an increasing list of types, at its place, unless it is there already. -/
def insertMember (t : Ty) : List Ty → List Ty
  | [] => [t]
  | m :: ms =>
    match t.cmp m with
    | .lt => t :: m :: ms
    | .eq => m :: ms
    | .gt => m :: insertMember t ms

/-- The choices in `ts` as an increasing list. -/
def arrange (ts : List Ty) : List Ty :=
  ts.foldl (fun ms t => insertMember t ms) []

/-- The type that offers exactly the choices of an increasing list. -/
def ofMembers : List Ty → Ty
  | [] => .unknown
  | [t] => t
  | ts => .union ts

/-- The least type that allows all that `a` and `b` allow.  Of two types without information the
result is `invalid` only if both are. -/
def join (a b : Ty) : Ty :=
  if a.isInvalid then
    if b.isInvalid then
      if a = .invalid ∧ b = .invalid then .invalid else .unknown
    else b
  else if b.isInvalid then a
  else if a = b then a
  else ofMembers (arrange (a.members ++ b.members))

/-- The join of all types in a list; `unknown` if there are none. -/
def joinAll (ts : List Ty) : Ty := ts.foldl join .unknown

/-- Every choice of `b` is a choice of `a`.  A type without information is contained in itself
only. -/
def contains (a b : Ty) : Bool :=
  if b.isInvalid then a = b else b.members.all (a.members.contains ·)

/-- Keeps the choices that pass `keep`; `unknown` if none does. -/
def narrow (t : Ty) (keep : Ty → Bool) : Ty := joinAll (t.members.filter keep)

/-- The type without nil among its choices. -/
def withoutNil (t : Ty) : Ty := t.narrow fun m => !m.isNil

/-- Sorts types by their order, keeping equal types in place. -/
def sort (ts : List Ty) : List Ty := ts.mergeSort fun a b => (a.cmp b).isLE

end TypeQuery.Ty
