import Mathlib.Order.Lattice
import TypeQuery.Proofs.Lattice

/-!
# Types in the order of containment

A type with information is contained in another one if all its choices are choices of the other; a
type without information is contained in itself only.  The two rules fit together
(`Ty.Canonical.isInvalid_eq_of_contains`: containment never relates a type with information to one
without), and on well-formed types they make a partial order.  What carries antisymmetry is that a
well-formed type is determined by its choices (`Ty.Canonical.ext`): a single choice is never
disguised as a union of one, and the choices of a union are written in one order only.

The join is the least upper bound in this order, as long as there is information on both sides: a
type without information is neutral for the join, but is not contained in anything else.  So the
order is put on `WellFormedTy`, and the semilattice on `ConcreteTy`, its part with information.  The
laws that are stated for plain types (`Ty.contains_leastUpperBound`) are those of the semilattice.
-/

namespace TypeQuery

namespace Ty

/-! ## Containment in terms of choices -/

lemma contains_iff_eq_of_isInvalid {a b : Ty} (hb : b.isInvalid) :
    a.contains b = true ↔ a = b := by
  rw [contains, if_pos hb, decide_eq_true_iff]

/-- A type without information has itself as its only member, which no concrete choice is. -/
lemma mem_members_iff_mem_choices {t u : Ty} (hu : u.isChoice) :
    u ∈ t.members ↔ u ∈ t.choices := by
  constructor
  · intro h
    rwa [choices, isInvalid_eq_false_of_mem_members hu h]
  · intro h
    by_cases ht : t.isInvalid
    · rw [choices_of_isInvalid ht] at h
      cases h
    · rwa [choices, if_neg ht] at h

lemma members_eq_choices {t : Ty} (h : t.isInvalid = false) : t.members = t.choices := by
  rw [choices, h]
  rfl

/-- A type with information is contained in those that have all its choices. -/
lemma Canonical.contains_iff {a b : Ty} (hb : b.Canonical) (hinv : b.isInvalid = false) :
    a.contains b = true ↔ ∀ m ∈ b.choices, m ∈ a.choices := by
  rw [contains, hinv, members_eq_choices hinv]
  simp only [Bool.false_eq_true, if_false, List.all_eq_true, List.contains_iff_mem]
  exact forall₂_congr fun m hm => mem_members_iff_mem_choices (hb.choices_spec.2 m hm)

/-- Containment does not relate a type with information to one without. -/
lemma Canonical.isInvalid_eq_of_contains {a b : Ty} (hb : b.Canonical)
    (h : a.contains b = true) : a.isInvalid = b.isInvalid := by
  cases hinv : b.isInvalid with
  | true => rw [(contains_iff_eq_of_isInvalid hinv).1 h, hinv]
  | false =>
    have hne : b.choices ≠ [] := fun hnil => by
      rw [hb.choices_eq_nil.1 hnil] at hinv
      cases hinv
    obtain ⟨m, hm⟩ := List.exists_mem_of_ne_nil _ hne
    have hma := (hb.contains_iff hinv).1 h m hm
    by_contra ha
    rw [Bool.not_eq_false] at ha
    rw [choices_of_isInvalid ha] at hma
    cases hma

/-! ## A partial order -/

lemma contains_self (a : Ty) : a.contains a = true := by
  by_cases ha : a.isInvalid
  · exact (contains_iff_eq_of_isInvalid ha).2 rfl
  · simp [contains, ha]

lemma Canonical.contains_trans {a b c : Ty} (hb : b.Canonical) (hc : c.Canonical)
    (hab : a.contains b = true) (hbc : b.contains c = true) : a.contains c = true := by
  cases hinv : c.isInvalid with
  | true =>
    obtain rfl := (contains_iff_eq_of_isInvalid hinv).1 hbc
    exact hab
  | false =>
    have hinvb : b.isInvalid = false := (hc.isInvalid_eq_of_contains hbc).trans hinv
    rw [hc.contains_iff hinv] at hbc ⊢
    rw [hb.contains_iff hinvb] at hab
    exact fun m hm => hab m (hbc m hm)

lemma Canonical.contains_antisymm {a b : Ty} (ha : a.Canonical) (hb : b.Canonical)
    (hab : a.contains b = true) (hba : b.contains a = true) : a = b := by
  cases hinv : b.isInvalid with
  | true => exact (contains_iff_eq_of_isInvalid hinv).1 hab
  | false =>
    have hinva : a.isInvalid = false := (hb.isInvalid_eq_of_contains hab).trans hinv
    refine ha.ext hb (fun x => ⟨(ha.contains_iff hinva).1 hba x, (hb.contains_iff hinv).1 hab x⟩) ?_
    constructor <;> rintro rfl
    · cases hinva
    · cases hinv

end Ty

/-- The well-formed types. -/
abbrev WellFormedTy := { t : Ty // t.WellFormed }

/-- A type is below those that contain it. -/
instance : PartialOrder WellFormedTy where
  le a b := b.1.contains a.1 = true
  le_refl a := a.1.contains_self
  le_trans a b _ hab hbc := b.2.canonical.contains_trans a.2.canonical hbc hab
  le_antisymm a b hab hba := Subtype.ext (a.2.canonical.contains_antisymm b.2.canonical hba hab)

/-- The well-formed types with information. -/
abbrev ConcreteTy := { t : WellFormedTy // t.1.isInvalid = false }

namespace Ty

/-! ## Least upper bounds -/

/-- A join of types with information carries information. -/
lemma Canonical.isInvalid_join_eq_false {a b : Ty} (ha : a.Canonical) (hb : b.Canonical)
    (hinv : a.isInvalid = false) : (a.join b).isInvalid = false := by
  rw [Bool.eq_false_iff, ne_eq, ha.isInvalid_join hb, hinv]
  simp

/-- A type contains a join exactly if it contains both operands. -/
lemma Canonical.contains_join_iff {a b c : Ty} (ha : a.Canonical) (hb : b.Canonical)
    (hinva : a.isInvalid = false) (hinvb : b.isInvalid = false) :
    c.contains (a.join b) = true ↔ c.contains a = true ∧ c.contains b = true := by
  rw [(ha.join hb).contains_iff (ha.isInvalid_join_eq_false hb hinva), ha.contains_iff hinva,
    hb.contains_iff hinvb]
  simp only [mem_choices_join ha hb, or_imp, forall_and]

end Ty

/-- The join is the least upper bound of types with information. -/
instance : SemilatticeSup ConcreteTy where
  sup a b :=
    ⟨⟨a.1.1.join b.1.1, a.1.2.join b.1.2⟩,
      a.1.2.canonical.isInvalid_join_eq_false b.1.2.canonical a.2⟩
  le_sup_left a b :=
    ((a.1.2.canonical.contains_join_iff b.1.2.canonical a.2 b.2).1 (Ty.contains_self _)).1
  le_sup_right a b :=
    ((a.1.2.canonical.contains_join_iff b.1.2.canonical a.2 b.2).1 (Ty.contains_self _)).2
  sup_le a b _ ha hb :=
    (a.1.2.canonical.contains_join_iff b.1.2.canonical a.2 b.2).2 ⟨ha, hb⟩

namespace Ty

/-- Containment is a partial order on the well-formed types.  On those with information the join is
the least upper bound, and a type contains exactly those that it absorbs in a join. -/
theorem contains_leastUpperBound {a b c : Ty} (ha : a.WellFormed) (hb : b.WellFormed)
    (hc : c.WellFormed) :
    a.contains a = true ∧
      (a.contains b = true → b.contains c = true → a.contains c = true) ∧
      (a.contains b = true → b.contains a = true → a = b) ∧
      (a.isInvalid = false → b.isInvalid = false → c.isInvalid = false →
        (a.join b).contains a = true ∧ (a.join b).contains b = true ∧
        (c.contains (a.join b) = true ↔ c.contains a = true ∧ c.contains b = true) ∧
        (a.contains b = true ↔ a.join b = a)) := by
  let a' : WellFormedTy := ⟨a, ha⟩
  let b' : WellFormedTy := ⟨b, hb⟩
  let c' : WellFormedTy := ⟨c, hc⟩
  refine ⟨le_refl a', fun hab hbc => ?_, fun hab hba => ?_, fun hinva hinvb hinvc => ?_⟩
  · have hle : c' ≤ b' ∧ b' ≤ a' := ⟨hbc, hab⟩
    exact hle.1.trans hle.2
  · have hle : b' ≤ a' ∧ a' ≤ b' := ⟨hab, hba⟩
    exact congrArg Subtype.val (hle.2.antisymm hle.1)
  · let A : ConcreteTy := ⟨a', hinva⟩
    let B : ConcreteTy := ⟨b', hinvb⟩
    let C : ConcreteTy := ⟨c', hinvc⟩
    have habsorb : a.join b = a ↔ A ⊔ B = A := by
      rw [Subtype.ext_iff, Subtype.ext_iff]
      rfl
    rw [habsorb, sup_eq_left]
    exact ⟨(le_sup_left : A ≤ A ⊔ B), (le_sup_right : B ≤ A ⊔ B), (sup_le_iff : A ⊔ B ≤ C ↔ _),
      Iff.rfl⟩

/-- An optional array and a function or nothing, below the choice between all of these. -/
theorem contains_leastUpperBound_optional :
    let a : Ty := nil.join (.array number)
    let b : Ty := nil.join (.function [⟨[], [a]⟩])
    let c : Ty := (string.join b).join a
    a.WellFormed ∧ b.WellFormed ∧ c.WellFormed ∧ a.isInvalid = false ∧ b.isInvalid = false ∧
      c.isInvalid = false ∧ c.contains a = true ∧ c.contains b = true ∧
      c.contains (a.join b) = true ∧ (a.join b).contains a = true ∧ a.contains b = false ∧
      a.join b ≠ a := by
  intro a b c
  have ha : a.WellFormed := .join .nil (.array .number)
  have hb : b.WellFormed := by
    refine .join .nil (.function ?_ ?_) <;> simp only [List.mem_singleton, forall_eq]
    · exact fun _ h => nomatch h
    · exact ha
  have hc : c.WellFormed := (WellFormed.string.join hb).join ha
  obtain ⟨-, -, -, hlub⟩ := contains_leastUpperBound ha hb hc
  obtain ⟨hleft, -, hleast, habsorb⟩ := hlub rfl rfl rfl
  have hca : c.contains a = true := by decide
  have hcb : c.contains b = true := by decide
  have hab : a.contains b = false := by decide
  refine ⟨ha, hb, hc, rfl, rfl, rfl, hca, hcb, hleast.2 ⟨hca, hcb⟩, hleft, hab, fun h => ?_⟩
  rw [habsorb.2 h] at hab
  cases hab

/-- Types that are not well-formed can contain each other and differ. -/
example :
    (Ty.union [.number]).contains .number = true ∧ Ty.number.contains (.union [.number]) = true ∧
      Ty.union [.number] ≠ .number := by
  decide

end Ty

end TypeQuery
