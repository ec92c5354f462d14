import Mathlib.Order.Defs.Unbundled
import TypeQuery.Ty.Join

/-!
# The order on types is lawful

`Ty.cmp` compares types by kind and then field by field, through classes, signatures, parameters and
lists of all of these.  It is a lawful comparison: exchanging the types turns the result around
(`Ty.cmp_swap`), and coming earlier is transitive (`Ty.cmp_lt_trans`).  `Ty.cmp_eq_iff` of
`TypeQuery.Ty.Order` is the third law: types that compare equal are equal.

Both proofs follow the eight comparisons, which call each other.  A comparison by several fields is
a chain of `Ordering.then`; `then_lt_trans` is the one fact about transitivity of such a chain.
Types of different kinds are compared by their ranks alone (`Ty.cmp_of_rank_ne`), so of three types
only those of the same kind have to be looked into.
-/

namespace TypeQuery

/-- Comparing by a first field and then by the rest is transitive, if both are and the first fields
that compare equal are equal.  `a`, `b` and `c` compare the rest of the first and second, the second
and third, and the first and third of three records. -/
lemma then_lt_trans {α : Type} {cmp : α → α → Ordering} (heq : ∀ x y, cmp x y = .eq → x = y)
    {x y z : α} {a b c : Ordering} (hfirst : cmp x y = .lt → cmp y z = .lt → cmp x z = .lt)
    (hrest : a = .lt → b = .lt → c = .lt) (h₁ : (cmp x y).then a = .lt)
    (h₂ : (cmp y z).then b = .lt) : (cmp x z).then c = .lt := by
  rw [Ordering.then_eq_lt] at h₁ h₂ ⊢
  rcases h₁ with h₁ | ⟨h₁, ha⟩
  · rcases h₂ with h₂ | ⟨h₂, -⟩
    · exact .inl (hfirst h₁ h₂)
    · obtain rfl := heq y z h₂
      exact .inl h₁
  · obtain rfl := heq x y h₁
    rcases h₂ with h₂ | ⟨h₂, hb⟩
    · exact .inl h₂
    · exact .inr ⟨h₂, hrest ha hb⟩

/-! ## Names, ids and kinds of classes -/

/-- Comparing by a name first. -/
lemma name_then_lt_trans {x y z : String} {a b c : Ordering} (hrest : a = .lt → b = .lt → c = .lt)
    (h₁ : (compare x y).then a = .lt) (h₂ : (compare y z).then b = .lt) :
    (compare x z).then c = .lt :=
  then_lt_trans (fun _ _ => Std.compare_eq_iff_eq.1) Std.TransCmp.lt_trans hrest h₁ h₂

lemma NodeId.cmp_swap (a b : NodeId) : (a.cmp b).swap = b.cmp a := by
  simp only [cmp, Ordering.swap_then]
  rw [← Std.OrientedOrd.eq_swap, ← Std.OrientedOrd.eq_swap]

lemma NodeId.cmp_lt_trans {a b c : NodeId} (h₁ : a.cmp b = .lt) (h₂ : b.cmp c = .lt) :
    a.cmp c = .lt :=
  then_lt_trans (fun _ _ => Nat.compare_eq_eq.1) Std.TransCmp.lt_trans Std.TransCmp.lt_trans h₁ h₂

lemma ClassKind.cmp_swap (a b : ClassKind) : (a.cmp b).swap = b.cmp a := by
  cases a <;> cases b <;> simp [cmp, NodeId.cmp_swap]

lemma ClassKind.cmp_lt_trans {a b c : ClassKind} (h₁ : a.cmp b = .lt) (h₂ : b.cmp c = .lt) :
    a.cmp c = .lt := by
  cases a <;> cases b <;> simp only [cmp, reduceCtorEq] at h₁ <;>
    cases c <;> simp only [cmp, reduceCtorEq] at h₂ ⊢
  exact NodeId.cmp_lt_trans h₁ h₂

/-! ## Types of different kinds -/

/-- Types of different kinds are compared by their ranks. -/
lemma Ty.cmp_of_rank_ne {x y : Ty} (h : x.rank ≠ y.rank) : x.cmp y = compare x.rank y.rank := by
  cases x <;> cases y <;> first | rfl | exact absurd rfl h

/-- A type that comes earlier has no later kind. -/
lemma Ty.rank_le_of_cmp_lt {x y : Ty} (h : x.cmp y = .lt) : x.rank ≤ y.rank := by
  by_cases hr : x.rank = y.rank
  · exact Nat.le_of_eq hr
  · rw [cmp_of_rank_ne hr] at h
    exact Nat.le_of_lt (Nat.compare_eq_lt.1 h)

/-- Only types of the same kind have to be looked into to exchange them. -/
lemma Ty.cmp_swap_of_rank {x y : Ty} (hsame : x.rank = y.rank → (x.cmp y).swap = y.cmp x) :
    (x.cmp y).swap = y.cmp x := by
  by_cases hr : x.rank = y.rank
  · exact hsame hr
  · rw [cmp_of_rank_ne hr, cmp_of_rank_ne (Ne.symm hr)]
    exact Std.OrientedOrd.eq_swap.symm

/-- Among types of more than one kind, only the kinds matter. -/
lemma Ty.cmp_lt_trans_of_rank {x y z : Ty} (h₁ : x.cmp y = .lt) (h₂ : y.cmp z = .lt)
    (hsame : x.rank = y.rank → y.rank = z.rank → x.cmp z = .lt) : x.cmp z = .lt := by
  have hxy := rank_le_of_cmp_lt h₁
  have hyz := rank_le_of_cmp_lt h₂
  by_cases hxz : x.rank = z.rank
  · exact hsame (by omega) (by omega)
  · rw [cmp_of_rank_ne hxz]
    exact Nat.compare_eq_lt.2 (by omega)

/-! ## Exchanging the types -/

mutual

theorem Ty.cmp_swap (x y : Ty) : (x.cmp y).swap = y.cmp x := by
  refine Ty.cmp_swap_of_rank fun hr => ?_
  match x with
  | .object a =>
    cases y <;> simp only [Ty.rank, Nat.reduceEqDiff] at hr
    exact ClassTy.cmp_swap a _
  | .array a =>
    cases y <;> simp only [Ty.rank, Nat.reduceEqDiff] at hr
    exact Ty.cmp_swap a _
  | .generic a as =>
    cases y <;> simp only [Ty.rank, Nat.reduceEqDiff] at hr
    simp only [Ty.cmp, Ordering.swap_then, Ty.cmpList_swap as]
    rw [← Std.OrientedOrd.eq_swap]
  | .function a =>
    cases y <;> simp only [Ty.rank, Nat.reduceEqDiff] at hr
    exact Signature.cmpList_swap a _
  | .union a =>
    cases y <;> simp only [Ty.rank, Nat.reduceEqDiff] at hr
    exact Ty.cmpList_swap a _
  | .unknown | .invalid | .nil | .boolean | .number | .string =>
    cases y <;> simp only [Ty.rank, Nat.reduceEqDiff] at hr
    rfl

lemma ClassTy.cmp_swap (x y : ClassTy) : (x.cmp y).swap = y.cmp x := by
  match x, y with
  | ⟨n, k, ps⟩, ⟨n', k', ps'⟩ =>
    simp only [ClassTy.cmp, Ordering.swap_then, ClassKind.cmp_swap, Ty.cmpArgs_swap ps]
    rw [← Std.OrientedOrd.eq_swap]

lemma Ty.cmpArgs_swap (x y : Option (List Ty)) : (Ty.cmpArgs x y).swap = Ty.cmpArgs y x := by
  match x with
  | none => cases y <;> simp [Ty.cmpArgs]
  | some a => cases y <;> simp [Ty.cmpArgs, Ty.cmpList_swap a]

lemma Ty.cmpList_swap (x y : List Ty) : (Ty.cmpList x y).swap = Ty.cmpList y x := by
  match x with
  | [] => cases y <;> simp [Ty.cmpList]
  | a :: as =>
    cases y <;> simp [Ty.cmpList, Ordering.swap_then, Ty.cmp_swap a, Ty.cmpList_swap as]

lemma Signature.cmp_swap (x y : Signature) : (x.cmp y).swap = y.cmp x := by
  match x, y with
  | ⟨ps, rs⟩, ⟨ps', rs'⟩ =>
    simp only [Signature.cmp, Ordering.swap_then, Parameter.cmpList_swap ps, Ty.cmpList_swap rs]

lemma Signature.cmpList_swap (x y : List Signature) :
    (Signature.cmpList x y).swap = Signature.cmpList y x := by
  match x with
  | [] => cases y <;> simp [Signature.cmpList]
  | a :: as =>
    cases y <;>
      simp [Signature.cmpList, Ordering.swap_then, Signature.cmp_swap a, Signature.cmpList_swap as]

lemma Parameter.cmp_swap (x y : Parameter) : (x.cmp y).swap = y.cmp x := by
  match x, y with
  | ⟨n, t⟩, ⟨n', t'⟩ =>
    simp only [Parameter.cmp, Ordering.swap_then, Ty.cmp_swap t]
    rw [← Std.OrientedOrd.eq_swap]

lemma Parameter.cmpList_swap (x y : List Parameter) :
    (Parameter.cmpList x y).swap = Parameter.cmpList y x := by
  match x with
  | [] => cases y <;> simp [Parameter.cmpList]
  | a :: as =>
    cases y <;>
      simp [Parameter.cmpList, Ordering.swap_then, Parameter.cmp_swap a, Parameter.cmpList_swap as]

end

/-! ## Coming earlier is transitive -/

mutual

theorem Ty.cmp_lt_trans (x y z : Ty) (h₁ : x.cmp y = .lt) (h₂ : y.cmp z = .lt) :
    x.cmp z = .lt := by
  refine Ty.cmp_lt_trans_of_rank h₁ h₂ fun hxy hyz => ?_
  match x with
  | .object a =>
    cases y <;> simp only [Ty.rank, Nat.reduceEqDiff] at hxy
    cases z <;> simp only [Ty.rank, Nat.reduceEqDiff] at hyz
    exact ClassTy.cmp_lt_trans a _ _ h₁ h₂
  | .array a =>
    cases y <;> simp only [Ty.rank, Nat.reduceEqDiff] at hxy
    cases z <;> simp only [Ty.rank, Nat.reduceEqDiff] at hyz
    exact Ty.cmp_lt_trans a _ _ h₁ h₂
  | .generic a as =>
    cases y <;> simp only [Ty.rank, Nat.reduceEqDiff] at hxy
    cases z <;> simp only [Ty.rank, Nat.reduceEqDiff] at hyz
    exact name_then_lt_trans (Ty.cmpList_lt_trans as _ _) h₁ h₂
  | .function a =>
    cases y <;> simp only [Ty.rank, Nat.reduceEqDiff] at hxy
    cases z <;> simp only [Ty.rank, Nat.reduceEqDiff] at hyz
    exact Signature.cmpList_lt_trans a _ _ h₁ h₂
  | .union a =>
    cases y <;> simp only [Ty.rank, Nat.reduceEqDiff] at hxy
    cases z <;> simp only [Ty.rank, Nat.reduceEqDiff] at hyz
    exact Ty.cmpList_lt_trans a _ _ h₁ h₂
  | .unknown | .invalid | .nil | .boolean | .number | .string =>
    cases y <;> simp only [Ty.rank, Nat.reduceEqDiff] at hxy
    simp [Ty.cmp] at h₁

lemma ClassTy.cmp_lt_trans (x y z : ClassTy) (h₁ : x.cmp y = .lt) (h₂ : y.cmp z = .lt) :
    x.cmp z = .lt := by
  match x, y, z with
  | ⟨n, k, ps⟩, ⟨n', k', ps'⟩, ⟨n'', k'', ps''⟩ =>
    simp only [ClassTy.cmp, Ordering.then_assoc] at h₁ h₂ ⊢
    refine name_then_lt_trans (fun h₁ h₂ => ?_) h₁ h₂
    exact then_lt_trans (fun _ _ => ClassKind.cmp_eq_iff.1) ClassKind.cmp_lt_trans
      (Ty.cmpArgs_lt_trans ps _ _) h₁ h₂

lemma Ty.cmpArgs_lt_trans (x y z : Option (List Ty)) (h₁ : Ty.cmpArgs x y = .lt)
    (h₂ : Ty.cmpArgs y z = .lt) : Ty.cmpArgs x z = .lt := by
  match x, y, z with
  | none, _, some _ => rfl
  | none, none, _ => simp [Ty.cmpArgs] at h₁
  | none, some _, none => simp [Ty.cmpArgs] at h₂
  | some _, none, _ => simp [Ty.cmpArgs] at h₁
  | some _, some _, none => simp [Ty.cmpArgs] at h₂
  | some a, some b, some c => exact Ty.cmpList_lt_trans a b c h₁ h₂

lemma Ty.cmpList_lt_trans (x y z : List Ty) (h₁ : Ty.cmpList x y = .lt)
    (h₂ : Ty.cmpList y z = .lt) : Ty.cmpList x z = .lt := by
  match x, y, z with
  | [], _, _ :: _ => rfl
  | [], [], _ => simp [Ty.cmpList] at h₁
  | [], _ :: _, [] => simp [Ty.cmpList] at h₂
  | _ :: _, [], _ => simp [Ty.cmpList] at h₁
  | _ :: _, _ :: _, [] => simp [Ty.cmpList] at h₂
  | a :: as, b :: bs, c :: cs =>
    exact then_lt_trans (fun a b => (Ty.cmp_eq_iff a b).1) (Ty.cmp_lt_trans a b c)
      (Ty.cmpList_lt_trans as bs cs) h₁ h₂

lemma Signature.cmp_lt_trans (x y z : Signature) (h₁ : x.cmp y = .lt) (h₂ : y.cmp z = .lt) :
    x.cmp z = .lt := by
  match x, y, z with
  | ⟨ps, rs⟩, ⟨ps', rs'⟩, ⟨ps'', rs''⟩ =>
    exact then_lt_trans (fun x y => (Parameter.cmpList_eq_iff x y).1)
      (Parameter.cmpList_lt_trans ps _ _) (Ty.cmpList_lt_trans rs _ _) h₁ h₂

lemma Signature.cmpList_lt_trans (x y z : List Signature) (h₁ : Signature.cmpList x y = .lt)
    (h₂ : Signature.cmpList y z = .lt) : Signature.cmpList x z = .lt := by
  match x, y, z with
  | [], _, _ :: _ => rfl
  | [], [], _ => simp [Signature.cmpList] at h₁
  | [], _ :: _, [] => simp [Signature.cmpList] at h₂
  | _ :: _, [], _ => simp [Signature.cmpList] at h₁
  | _ :: _, _ :: _, [] => simp [Signature.cmpList] at h₂
  | a :: as, b :: bs, c :: cs =>
    exact then_lt_trans (fun a b => (Signature.cmp_eq_iff a b).1) (Signature.cmp_lt_trans a b c)
      (Signature.cmpList_lt_trans as bs cs) h₁ h₂

lemma Parameter.cmp_lt_trans (x y z : Parameter) (h₁ : x.cmp y = .lt) (h₂ : y.cmp z = .lt) :
    x.cmp z = .lt := by
  match x, y, z with
  | ⟨n, t⟩, ⟨n', t'⟩, ⟨n'', t''⟩ =>
    exact name_then_lt_trans (Ty.cmp_lt_trans t t' t'') h₁ h₂

lemma Parameter.cmpList_lt_trans (x y z : List Parameter) (h₁ : Parameter.cmpList x y = .lt)
    (h₂ : Parameter.cmpList y z = .lt) : Parameter.cmpList x z = .lt := by
  match x, y, z with
  | [], _, _ :: _ => rfl
  | [], [], _ => simp [Parameter.cmpList] at h₁
  | [], _ :: _, [] => simp [Parameter.cmpList] at h₂
  | _ :: _, [], _ => simp [Parameter.cmpList] at h₁
  | _ :: _, _ :: _, [] => simp [Parameter.cmpList] at h₂
  | a :: as, b :: bs, c :: cs =>
    exact then_lt_trans (fun a b => (Parameter.cmp_eq_iff a b).1) (Parameter.cmp_lt_trans a b c)
      (Parameter.cmpList_lt_trans as bs cs) h₁ h₂

end

end TypeQuery
