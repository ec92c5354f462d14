import TypeQuery.Ty.Basic

/-!
# The order on types

Types are totally ordered: kinds of type first, in the order of `Ty.rank`, then their fields, from
the first to the last.  Lists are compared element by element, and a list comes before every
longer list that it begins.  A missing argument list comes before any argument list.

The order has no meaning of its own.  It is there so that the members of a union have one
arrangement, which `TypeQuery.Ty.Join` relies on, and so that equality of types is decidable:
`Ty.cmp_eq_iff` says that two types compare equal only if they are the same type.
-/

namespace TypeQuery

namespace ClassKind

/-- Declared classes come first, then tables by the place where they are made, then globals. -/
def cmp : ClassKind → ClassKind → Ordering
  | .declared, .declared => .eq
  | .declared, _ => .lt
  | .table _, .declared => .gt
  | .table a, .table b => a.cmp b
  | .table _, .global => .lt
  | .global, .global => .eq
  | .global, _ => .gt

theorem cmp_eq_iff {a b : ClassKind} : a.cmp b = .eq ↔ a = b := by
  cases a <;> cases b <;> simp [cmp, NodeId.cmp_eq_iff]

end ClassKind

/-- The position of a kind of type in the order. -/
def Ty.rank : Ty → Nat
  | .unknown => 0
  | .invalid => 1
  | .nil => 2
  | .boolean => 3
  | .number => 4
  | .string => 5
  | .object _ => 6
  | .array _ => 7
  | .generic _ _ => 8
  | .function _ => 9
  | .union _ => 10

mutual

/-- Compares two types: by kind, then field by field. -/
def Ty.cmp (x y : Ty) : Ordering :=
  match x, y with
  | .object a, .object b => a.cmp b
  | .array a, .array b => a.cmp b
  | .generic a as, .generic b bs => (compare a b).then (Ty.cmpList as bs)
  | .function a, .function b => Signature.cmpList a b
  | .union a, .union b => Ty.cmpList a b
  | x, y => compare x.rank y.rank
termination_by structural x

/-- Compares two classes: by name, then kind, then arguments. -/
def ClassTy.cmp (x y : ClassTy) : Ordering :=
  match x, y with
  | ⟨n, k, ps⟩, ⟨n', k', ps'⟩ => ((compare n n').then (k.cmp k')).then (Ty.cmpArgs ps ps')
termination_by structural x

/-- Compares two optional argument lists; a missing one comes first. -/
def Ty.cmpArgs (x y : Option (List Ty)) : Ordering :=
  match x, y with
  | none, none => .eq
  | none, some _ => .lt
  | some _, none => .gt
  | some a, some b => Ty.cmpList a b
termination_by structural x

/-- Compares two lists of types. -/
def Ty.cmpList (x y : List Ty) : Ordering :=
  match x, y with
  | [], [] => .eq
  | [], _ :: _ => .lt
  | _ :: _, [] => .gt
  | a :: as, b :: bs => (Ty.cmp a b).then (Ty.cmpList as bs)
termination_by structural x

/-- Compares two signatures: by parameters, then by returned types. -/
def Signature.cmp (x y : Signature) : Ordering :=
  match x, y with
  | ⟨ps, rs⟩, ⟨ps', rs'⟩ => (Parameter.cmpList ps ps').then (Ty.cmpList rs rs')
termination_by structural x

/-- Compares two lists of signatures. -/
def Signature.cmpList (x y : List Signature) : Ordering :=
  match x, y with
  | [], [] => .eq
  | [], _ :: _ => .lt
  | _ :: _, [] => .gt
  | a :: as, b :: bs => (Signature.cmp a b).then (Signature.cmpList as bs)
termination_by structural x

/-- Compares two parameters: by name, then by type. -/
def Parameter.cmp (x y : Parameter) : Ordering :=
  match x, y with
  | ⟨n, t⟩, ⟨n', t'⟩ => (compare n n').then (Ty.cmp t t')
termination_by structural x

/-- Compares two lists of parameters. -/
def Parameter.cmpList (x y : List Parameter) : Ordering :=
  match x, y with
  | [], [] => .eq
  | [], _ :: _ => .lt
  | _ :: _, [] => .gt
  | a :: as, b :: bs => (Parameter.cmp a b).then (Parameter.cmpList as bs)
termination_by structural x

end

/-! ## Comparing equal means being equal -/

mutual

theorem Ty.cmp_eq_iff (x y : Ty) : x.cmp y = .eq ↔ x = y := by
  match x with
  | .object a => cases y <;> simp [Ty.cmp, Ty.rank, ClassTy.cmp_eq_iff a]
  | .array a => cases y <;> simp [Ty.cmp, Ty.rank, Ty.cmp_eq_iff a]
  | .generic a as =>
    cases y <;> simp [Ty.cmp, Ty.rank, Ordering.then_eq_eq, Ty.cmpList_eq_iff as]
  | .function a => cases y <;> simp [Ty.cmp, Ty.rank, Signature.cmpList_eq_iff a]
  | .union a => cases y <;> simp [Ty.cmp, Ty.rank, Ty.cmpList_eq_iff a]
  | .unknown | .invalid | .nil | .boolean | .number | .string =>
    cases y <;> simp [Ty.cmp, Ty.rank]

theorem ClassTy.cmp_eq_iff (x y : ClassTy) : x.cmp y = .eq ↔ x = y := by
  match x, y with
  | ⟨n, k, ps⟩, ⟨n', k', ps'⟩ =>
    simp [ClassTy.cmp, Ordering.then_eq_eq, ClassKind.cmp_eq_iff, Ty.cmpArgs_eq_iff ps, and_assoc]

theorem Ty.cmpArgs_eq_iff (x y : Option (List Ty)) : Ty.cmpArgs x y = .eq ↔ x = y := by
  match x with
  | none => cases y <;> simp [Ty.cmpArgs]
  | some a => cases y <;> simp [Ty.cmpArgs, Ty.cmpList_eq_iff a]

theorem Ty.cmpList_eq_iff (x y : List Ty) : Ty.cmpList x y = .eq ↔ x = y := by
  match x with
  | [] => cases y <;> simp [Ty.cmpList]
  | a :: as => cases y <;> simp [Ty.cmpList, Ordering.then_eq_eq, Ty.cmp_eq_iff a, Ty.cmpList_eq_iff as]

theorem Signature.cmp_eq_iff (x y : Signature) : x.cmp y = .eq ↔ x = y := by
  match x, y with
  | ⟨ps, rs⟩, ⟨ps', rs'⟩ =>
    simp [Signature.cmp, Ordering.then_eq_eq, Parameter.cmpList_eq_iff ps, Ty.cmpList_eq_iff rs]

theorem Signature.cmpList_eq_iff (x y : List Signature) : Signature.cmpList x y = .eq ↔ x = y := by
  match x with
  | [] => cases y <;> simp [Signature.cmpList]
  | a :: as =>
    cases y <;>
      simp [Signature.cmpList, Ordering.then_eq_eq, Signature.cmp_eq_iff a, Signature.cmpList_eq_iff as]

theorem Parameter.cmp_eq_iff (x y : Parameter) : x.cmp y = .eq ↔ x = y := by
  match x, y with
  | ⟨n, t⟩, ⟨n', t'⟩ => simp [Parameter.cmp, Ordering.then_eq_eq, Ty.cmp_eq_iff t]

theorem Parameter.cmpList_eq_iff (x y : List Parameter) : Parameter.cmpList x y = .eq ↔ x = y := by
  match x with
  | [] => cases y <;> simp [Parameter.cmpList]
  | a :: as =>
    cases y <;>
      simp [Parameter.cmpList, Ordering.then_eq_eq, Parameter.cmp_eq_iff a, Parameter.cmpList_eq_iff as]

end

instance : DecidableEq Ty := fun a b => decidable_of_iff _ (Ty.cmp_eq_iff a b)

instance : DecidableEq ClassTy := fun a b => decidable_of_iff _ (ClassTy.cmp_eq_iff a b)

end TypeQuery
