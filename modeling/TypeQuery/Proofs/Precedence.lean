import TypeQuery.Proofs.Lattice
import TypeQuery.Proofs.Names

/-!
# Which type comes first

`Ty.cmp` computes the order on types.  `Ty.Precedes` says by rules what that order is: a type comes
before another one if it is of an earlier kind, or of the same kind with an earlier field, where the
fields in front of it agree.  Lists are in dictionary order, `List.Lex`, so a list comes before
those that it begins; a missing argument list comes before any; names come in the order of their
bytes.

A type is found to be less than another one exactly if some rule puts it first (`Ty.cmp_lt_iff`).
The proof follows the types, not the rules: which rules can apply is settled by the kinds of the two
types (`Ty.precedes_iff_of_rank_ne` for different kinds, an equivalence for each kind that has
fields), and each comparison in a chain of `Ordering.then` stands for the rule on one field.

With the laws of `TypeQuery.Proofs.Order` this makes the order a lawful one (`Ty.cmp_lawful`).
-/

namespace TypeQuery

/-! ## The rules -/

/-- The order on the origins of classes. -/
inductive ClassKind.Precedes : ClassKind → ClassKind → Prop where
  | declared_table {site : NodeId} : Precedes .declared (.table site)
  | declared_global : Precedes .declared .global
  | table_global {site : NodeId} : Precedes (.table site) .global
  | file {m n : NodeId} (h : m.file < n.file) : Precedes (.table m) (.table n)
  | index {m n : NodeId} (hfile : m.file = n.file) (h : m.index < n.index) :
      Precedes (.table m) (.table n)

mutual

/-- The order on types. -/
inductive Ty.Precedes : Ty → Ty → Prop where
  | kind {x y : Ty} (h : x.rank < y.rank) : Ty.Precedes x y
  | object {c d : ClassTy} (h : ClassTy.Precedes c d) : Ty.Precedes (.object c) (.object d)
  | array {x y : Ty} (h : Ty.Precedes x y) : Ty.Precedes (.array x) (.array y)
  | base {m n : String} {xs ys : List Ty} (h : Utf8.bytes m < Utf8.bytes n) :
      Ty.Precedes (.generic m xs) (.generic n ys)
  | arguments {n : String} {xs ys : List Ty} (h : List.Lex Ty.Precedes xs ys) :
      Ty.Precedes (.generic n xs) (.generic n ys)
  | function {ss ts : List Signature} (h : List.Lex Signature.Precedes ss ts) :
      Ty.Precedes (.function ss) (.function ts)
  | union {xs ys : List Ty} (h : List.Lex Ty.Precedes xs ys) : Ty.Precedes (.union xs) (.union ys)

/-- The order on classes: by name, origin and arguments. -/
inductive ClassTy.Precedes : ClassTy → ClassTy → Prop where
  | name {m n : String} {k l : ClassKind} {ps qs : Option (List Ty)}
      (h : Utf8.bytes m < Utf8.bytes n) : ClassTy.Precedes ⟨m, k, ps⟩ ⟨n, l, qs⟩
  | kind {n : String} {k l : ClassKind} {ps qs : Option (List Ty)} (h : k.Precedes l) :
      ClassTy.Precedes ⟨n, k, ps⟩ ⟨n, l, qs⟩
  /-- A class without an argument list comes before the same class with one. -/
  | missing {n : String} {k : ClassKind} {qs : List Ty} :
      ClassTy.Precedes ⟨n, k, none⟩ ⟨n, k, some qs⟩
  | params {n : String} {k : ClassKind} {ps qs : List Ty} (h : List.Lex Ty.Precedes ps qs) :
      ClassTy.Precedes ⟨n, k, some ps⟩ ⟨n, k, some qs⟩

/-- The order on signatures: by parameters and returned types. -/
inductive Signature.Precedes : Signature → Signature → Prop where
  | params {ps qs : List Parameter} {rs ts : List Ty} (h : List.Lex Parameter.Precedes ps qs) :
      Signature.Precedes ⟨ps, rs⟩ ⟨qs, ts⟩
  | returns {ps : List Parameter} {rs ts : List Ty} (h : List.Lex Ty.Precedes rs ts) :
      Signature.Precedes ⟨ps, rs⟩ ⟨ps, ts⟩

/-- The order on parameters: by name and type. -/
inductive Parameter.Precedes : Parameter → Parameter → Prop where
  | name {m n : String} {x y : Ty} (h : Utf8.bytes m < Utf8.bytes n) :
      Parameter.Precedes ⟨m, x⟩ ⟨n, y⟩
  | ty {n : String} {x y : Ty} (h : Ty.Precedes x y) : Parameter.Precedes ⟨n, x⟩ ⟨n, y⟩

end

/-! ## Which rules can apply -/

/-- Between types of different kinds only the rule on kinds applies. -/
lemma Ty.precedes_iff_of_rank_ne {x y : Ty} (hr : x.rank ≠ y.rank) :
    x.Precedes y ↔ x.rank < y.rank := by
  refine ⟨fun h => ?_, .kind⟩
  cases h with
  | kind h => exact h
  | object | array | base | arguments | function | union => exact absurd rfl hr

lemma Ty.object_precedes_iff {c d : ClassTy} :
    (Ty.object c).Precedes (.object d) ↔ c.Precedes d := by
  refine ⟨fun h => ?_, .object⟩
  cases h with
  | kind h => exact absurd h (Nat.lt_irrefl _)
  | object h => exact h

lemma Ty.array_precedes_iff {x y : Ty} : (Ty.array x).Precedes (.array y) ↔ x.Precedes y := by
  refine ⟨fun h => ?_, .array⟩
  cases h with
  | kind h => exact absurd h (Nat.lt_irrefl _)
  | array h => exact h

lemma Ty.generic_precedes_iff {m n : String} {xs ys : List Ty} :
    (Ty.generic m xs).Precedes (.generic n ys) ↔
      Utf8.bytes m < Utf8.bytes n ∨ m = n ∧ List.Lex Ty.Precedes xs ys := by
  constructor
  · intro h
    cases h with
    | kind h => exact absurd h (Nat.lt_irrefl _)
    | base h => exact .inl h
    | arguments h => exact .inr ⟨rfl, h⟩
  · rintro (h | ⟨rfl, h⟩)
    · exact .base h
    · exact .arguments h

lemma Ty.function_precedes_iff {ss ts : List Signature} :
    (Ty.function ss).Precedes (.function ts) ↔ List.Lex Signature.Precedes ss ts := by
  refine ⟨fun h => ?_, .function⟩
  cases h with
  | kind h => exact absurd h (Nat.lt_irrefl _)
  | function h => exact h

lemma Ty.union_precedes_iff {xs ys : List Ty} :
    (Ty.union xs).Precedes (.union ys) ↔ List.Lex Ty.Precedes xs ys := by
  refine ⟨fun h => ?_, .union⟩
  cases h with
  | kind h => exact absurd h (Nat.lt_irrefl _)
  | union h => exact h

/-! ## The comparison follows the rules -/

/-- Comparing by a name first. -/
lemma name_then_eq_lt_iff {m n : String} {rest : Ordering} :
    (compare m n).then rest = .lt ↔ Utf8.bytes m < Utf8.bytes n ∨ m = n ∧ rest = .lt := by
  rw [Ordering.then_eq_lt, Utf8.compare_eq_lt_iff, Std.compare_eq_iff_eq]

/-- Comparing lists that are not empty, where `rest` compares what follows their first elements. -/
lemma then_eq_lt_iff_lex {α : Type} {cmp : α → α → Ordering} {r : α → α → Prop} {x y : α}
    {xs ys : List α} {rest : Ordering} (hlt : cmp x y = .lt ↔ r x y) (heq : cmp x y = .eq ↔ x = y)
    (hrest : rest = .lt ↔ List.Lex r xs ys) :
    (cmp x y).then rest = .lt ↔ List.Lex r (x :: xs) (y :: ys) := by
  rw [Ordering.then_eq_lt, hlt, heq, hrest, List.cons_lex_cons_iff]

lemma ClassKind.cmp_lt_iff {k l : ClassKind} : k.cmp l = .lt ↔ k.Precedes l := by
  constructor
  · intro h
    match k, l with
    | .declared, .table _ => exact .declared_table
    | .declared, .global => exact .declared_global
    | .table _, .global => exact .table_global
    | .table m, .table n =>
      rcases Ordering.then_eq_lt.1 h with h | ⟨hfile, h⟩
      · exact .file (Nat.compare_eq_lt.1 h)
      · exact .index (Nat.compare_eq_eq.1 hfile) (Nat.compare_eq_lt.1 h)
  · intro h
    cases h with
    | declared_table | declared_global | table_global => rfl
    | file h => exact Ordering.then_eq_lt.2 (.inl (Nat.compare_eq_lt.2 h))
    | index hfile h =>
      exact Ordering.then_eq_lt.2 (.inr ⟨Nat.compare_eq_eq.2 hfile, Nat.compare_eq_lt.2 h⟩)

/-- Only types of the same kind have to be looked into to find the rule. -/
lemma Ty.cmp_lt_iff_of_rank {x y : Ty}
    (hsame : x.rank = y.rank → (x.cmp y = .lt ↔ x.Precedes y)) :
    x.cmp y = .lt ↔ x.Precedes y := by
  by_cases hr : x.rank = y.rank
  · exact hsame hr
  · rw [cmp_of_rank_ne hr, precedes_iff_of_rank_ne hr, Nat.compare_eq_lt]

mutual

/-- A type is less than another one exactly if a rule puts it first. -/
theorem Ty.cmp_lt_iff (x y : Ty) : x.cmp y = .lt ↔ x.Precedes y := by
  refine Ty.cmp_lt_iff_of_rank fun hr => ?_
  match x with
  | .object c =>
    cases y <;> simp only [Ty.rank, Nat.reduceEqDiff] at hr
    rw [Ty.cmp, ClassTy.cmp_lt_iff c, Ty.object_precedes_iff]
  | .array x =>
    cases y <;> simp only [Ty.rank, Nat.reduceEqDiff] at hr
    rw [Ty.cmp, Ty.cmp_lt_iff x, Ty.array_precedes_iff]
  | .generic n xs =>
    cases y <;> simp only [Ty.rank, Nat.reduceEqDiff] at hr
    rw [Ty.cmp, name_then_eq_lt_iff, Ty.cmpList_lt_iff xs, Ty.generic_precedes_iff]
  | .function ss =>
    cases y <;> simp only [Ty.rank, Nat.reduceEqDiff] at hr
    rw [Ty.cmp, Signature.cmpList_lt_iff ss, Ty.function_precedes_iff]
  | .union xs =>
    cases y <;> simp only [Ty.rank, Nat.reduceEqDiff] at hr
    rw [Ty.cmp, Ty.cmpList_lt_iff xs, Ty.union_precedes_iff]
  | .unknown | .invalid | .nil | .boolean | .number | .string =>
    -- Two types of a kind without fields are equal, and no rule puts a type before itself.
    cases y <;> simp only [Ty.rank, Nat.reduceEqDiff] at hr
    refine iff_of_false (fun h => ?_) (fun h => ?_)
    · exact Ty.not_before_self _ h
    · cases h with
      | kind h => exact Nat.lt_irrefl _ h

lemma ClassTy.cmp_lt_iff (c d : ClassTy) : c.cmp d = .lt ↔ c.Precedes d := by
  match c, d with
  | ⟨m, k, ps⟩, ⟨n, l, qs⟩ =>
    rw [ClassTy.cmp, Ordering.then_assoc, name_then_eq_lt_iff, Ordering.then_eq_lt,
      ClassKind.cmp_lt_iff, ClassKind.cmp_eq_iff, Ty.cmpArgs_lt_iff ps]
    constructor
    · rintro (h | ⟨rfl, h | ⟨rfl, ⟨rfl, qs, rfl⟩ | ⟨ps, qs, rfl, rfl, h⟩⟩⟩)
      · exact .name h
      · exact .kind h
      · exact .missing
      · exact .params h
    · intro h
      cases h with
      | name h => exact .inl h
      | kind h => exact .inr ⟨rfl, .inl h⟩
      | missing => exact .inr ⟨rfl, .inr ⟨rfl, .inl ⟨rfl, _, rfl⟩⟩⟩
      | params h => exact .inr ⟨rfl, .inr ⟨rfl, .inr ⟨_, _, rfl, rfl, h⟩⟩⟩

lemma Ty.cmpArgs_lt_iff (ps qs : Option (List Ty)) :
    Ty.cmpArgs ps qs = .lt ↔
      (ps = none ∧ ∃ ys, qs = some ys) ∨
        ∃ xs ys, ps = some xs ∧ qs = some ys ∧ List.Lex Ty.Precedes xs ys := by
  match ps with
  | none => cases qs <;> simp [Ty.cmpArgs]
  | some xs => cases qs <;> simp [Ty.cmpArgs, Ty.cmpList_lt_iff xs]

lemma Ty.cmpList_lt_iff (xs ys : List Ty) :
    Ty.cmpList xs ys = .lt ↔ List.Lex Ty.Precedes xs ys := by
  match xs, ys with
  | [], [] | [], _ :: _ | _ :: _, [] => simp [Ty.cmpList]
  | x :: xs, y :: ys =>
    exact then_eq_lt_iff_lex (Ty.cmp_lt_iff x y) (Ty.cmp_eq_iff x y)
      (Ty.cmpList_lt_iff xs ys)

lemma Signature.cmp_lt_iff (s t : Signature) : s.cmp t = .lt ↔ s.Precedes t := by
  match s, t with
  | ⟨ps, rs⟩, ⟨qs, ts⟩ =>
    rw [Signature.cmp, Ordering.then_eq_lt, Parameter.cmpList_lt_iff ps, Parameter.cmpList_eq_iff,
      Ty.cmpList_lt_iff rs]
    constructor
    · rintro (h | ⟨rfl, h⟩)
      · exact .params h
      · exact .returns h
    · intro h
      cases h with
      | params h => exact .inl h
      | returns h => exact .inr ⟨rfl, h⟩

lemma Signature.cmpList_lt_iff (ss ts : List Signature) :
    Signature.cmpList ss ts = .lt ↔ List.Lex Signature.Precedes ss ts := by
  match ss, ts with
  | [], [] | [], _ :: _ | _ :: _, [] => simp [Signature.cmpList]
  | s :: ss, t :: ts =>
    exact then_eq_lt_iff_lex (Signature.cmp_lt_iff s t) (Signature.cmp_eq_iff s t)
      (Signature.cmpList_lt_iff ss ts)

lemma Parameter.cmp_lt_iff (p q : Parameter) : p.cmp q = .lt ↔ p.Precedes q := by
  match p, q with
  | ⟨m, x⟩, ⟨n, y⟩ =>
    rw [Parameter.cmp, name_then_eq_lt_iff, Ty.cmp_lt_iff x]
    constructor
    · rintro (h | ⟨rfl, h⟩)
      · exact .name h
      · exact .ty h
    · intro h
      cases h with
      | name h => exact .inl h
      | ty h => exact .inr ⟨rfl, h⟩

lemma Parameter.cmpList_lt_iff (ps qs : List Parameter) :
    Parameter.cmpList ps qs = .lt ↔ List.Lex Parameter.Precedes ps qs := by
  match ps, qs with
  | [], [] | [], _ :: _ | _ :: _, [] => simp [Parameter.cmpList]
  | p :: ps, q :: qs =>
    exact then_eq_lt_iff_lex (Parameter.cmp_lt_iff p q) (Parameter.cmp_eq_iff p q)
      (Parameter.cmpList_lt_iff ps qs)

end

namespace Ty

/-! ## A lawful order -/

instance : Std.OrientedCmp Ty.cmp where
  eq_swap {a b} := (cmp_swap b a).symm

instance : Std.LawfulEqCmp Ty.cmp where
  eq_of_compare {a b} := (cmp_eq_iff a b).1

instance : Std.TransCmp Ty.cmp where
  isLE_trans {a b c} hab hbc := by
    rw [Ordering.isLE_iff_eq_lt_or_eq_eq] at hab hbc ⊢
    rcases hab with hab | hab
    · rcases hbc with hbc | hbc
      · exact .inl (cmp_lt_trans a b c hab hbc)
      · obtain rfl := (cmp_eq_iff b c).1 hbc
        exact .inl hab
    · obtain rfl := (cmp_eq_iff a b).1 hab
      exact hbc

/-- Types of later and later kinds are increasing, whatever their fields. -/
lemma Increasing.of_ranks {ts : List Ty} (h : (ts.map rank).Pairwise (· < ·)) : Increasing ts :=
  (List.pairwise_map.1 h).imp fun hlt => (cmp_lt_iff _ _).2 (.kind hlt)

/-- Unions are compared as sets: the members of a union have only one arrangement. -/
lemma Increasing.cmp_union_eq_iff {xs ys : List Ty} (hxs : Increasing xs) (hys : Increasing ys) :
    (union xs).cmp (.union ys) = .eq ↔ ∀ t, t ∈ xs ↔ t ∈ ys := by
  rw [cmp_eq_iff, union.injEq]
  exact ⟨fun h t => by rw [h], List.Pairwise.eq_of_mem_iff hxs hys⟩

/-- The comparison of types is a total order: only equal types compare equal, exchanging two types
turns the result around, and being at most another type is transitive.  A type is less than another
one exactly if the rules put it first; in particular kinds come in the order in which they are
listed here, whatever the fields.  Unions, with their members in order, compare equal exactly if
they have the same members. -/
theorem cmp_lawful (a b c : Ty) :
    (a.cmp b = .eq ↔ a = b) ∧ b.cmp a = (a.cmp b).swap ∧
      ((a.cmp b).isLE → (b.cmp c).isLE → (a.cmp c).isLE) ∧
      (a.cmp b = .lt ↔ a.Precedes b) ∧
      (∀ (of : ClassTy) (element : Ty) (base : String) (params : List Ty)
        (signatures : List Signature) (members : List Ty),
        Increasing [.unknown, .invalid, .nil, .boolean, .number, .string, .object of,
          .array element, .generic base params, .function signatures, .union members]) ∧
      (∀ xs ys : List Ty, Increasing xs → Increasing ys →
        ((union xs).cmp (.union ys) = .eq ↔ ∀ t, t ∈ xs ↔ t ∈ ys)) := by
  refine ⟨Std.LawfulEqCmp.compare_eq_iff_eq, Std.OrientedCmp.eq_swap, Std.TransCmp.isLE_trans,
    cmp_lt_iff a b, fun _ _ _ _ _ _ => Increasing.of_ranks ?_,
    fun _ _ hxs hys => hxs.cmp_union_eq_iff hys⟩
  show List.Pairwise (· < ·) [0, 1, 2, 3, 4, 5, 6, 7, 8, 9, 10]
  decide

/-- A class without arguments, the same class with arguments, and one whose name has a later byte in
the place of its second letter. -/
theorem cmp_lawful_maps :
    let a : Ty := .object ⟨"Map", .declared, none⟩
    let b : Ty := .object ⟨"Map", .declared, some [.string, .function [⟨[⟨"x", .number⟩], []⟩]]⟩
    let c : Ty := .object ⟨"Mäp", .global, none⟩
    a.Precedes b ∧ b.Precedes c ∧ b.cmp a = .gt ∧ (a.cmp b).isLE ∧ (b.cmp c).isLE ∧
      (a.cmp c).isLE ∧ a ≠ b ∧ Increasing [a, b] ∧ Increasing [b, c] ∧
      (union [a, b]).cmp (.union [b, c]) ≠ .eq := by
  intro a b c
  have hab : a.Precedes b := .object .missing
  have hbc : b.Precedes c := .object (.name (by decide))
  have hltab : a.Before b := (cmp_lt_iff a b).2 hab
  have hltbc : b.Before c := (cmp_lt_iff b c).2 hbc
  have hne : ∀ {x y : Ty}, x.Before y → x ≠ y := fun h hxy => not_before_self _ (hxy ▸ h)
  have hleab : (a.cmp b).isLE := by rw [hltab]; rfl
  have hlebc : (b.cmp c).isLE := by rw [hltbc]; rfl
  have hincab : Increasing [a, b] := List.pairwise_pair.2 hltab
  have hincbc : Increasing [b, c] := List.pairwise_pair.2 hltbc
  obtain ⟨-, hswap, htrans, -, -, hunion⟩ := cmp_lawful a b c
  refine ⟨hab, hbc, by rw [hswap, hltab]; rfl, hleab, hlebc, htrans hleab hlebc, hne hltab, hincab,
    hincbc, fun h => ?_⟩
  have hmem : a ∈ [b, c] := ((hunion _ _ hincab hincbc).1 h a).1 List.mem_cons_self
  rcases List.mem_pair.1 hmem with h | h
  · exact hne hltab h
  · exact hne (hltab.trans hltbc) h

end Ty

end TypeQuery
