import Mathlib.Data.List.Sort
import TypeQuery.Proofs.Order

/-!
# Types under join

Two types are joined by putting their choices in one increasing list.  This file shows that the
result depends on nothing but the choices: a type that is built by joins is determined by the set of
its concrete choices, except that a type without any may be `unknown` or `invalid`
(`Ty.Canonical.ext`).  The choices of a join are those of its operands (`Ty.mem_choices_join`), and
it is `invalid` exactly if both operands are (`Ty.join_eq_invalid_iff`).  All laws of the join
follow from these three facts; none of them looks into the order of the choices again.

Which types there are is said in two ways.

* `Ty.Constructible` follows the operations that make types: constants, the constructors of classes,
  arrays, generic types and functions over types made before, and the join, which is the only way to
  make a union.
* `Ty.WellFormed` looks at the result: each union in it, at any depth, has at least two choices in
  strictly increasing order, none of which is a union or without information.

They are the same types (`Ty.constructible_iff_wellFormed`).
-/

namespace TypeQuery.Ty

/-! ## Increasing lists -/

/-- The first type comes before the second in the order of types. -/
def Before (a b : Ty) : Prop := a.cmp b = .lt

lemma not_before_self (a : Ty) : ¬ a.Before a := by
  intro h
  rw [Before, (cmp_eq_iff a a).2 rfl] at h
  cases h

lemma Before.trans {a b c : Ty} (h₁ : a.Before b) (h₂ : b.Before c) : a.Before c :=
  cmp_lt_trans a b c h₁ h₂

instance : Std.Irrefl Before := ⟨not_before_self⟩

instance : Std.Antisymm Before :=
  ⟨fun a _ h₁ h₂ => absurd (h₁.trans h₂) (not_before_self a)⟩

/-- The types stand in strictly increasing order. -/
def Increasing (ts : List Ty) : Prop := ts.Pairwise Before

lemma mem_insertMember {t x : Ty} {ms : List Ty} : x ∈ insertMember t ms ↔ x = t ∨ x ∈ ms := by
  induction ms with
  | nil => simp [insertMember]
  | cons m ms ih =>
    cases h : t.cmp m with
    | lt => simp [insertMember, h]
    | eq =>
      obtain rfl := (cmp_eq_iff t m).1 h
      simp [insertMember, h]
    | gt =>
      simp only [insertMember, h, List.mem_cons, ih]
      exact or_left_comm

/-- A type is put at its place. -/
lemma Increasing.insertMember {t : Ty} {ms : List Ty} (h : Increasing ms) :
    Increasing (insertMember t ms) := by
  induction ms with
  | nil => exact List.pairwise_singleton _ _
  | cons m ms ih =>
    obtain ⟨hm, hms⟩ := List.pairwise_cons.1 h
    cases hc : t.cmp m with
    | lt =>
      simp only [Ty.insertMember, hc]
      refine List.pairwise_cons.2 ⟨fun x hx => ?_, h⟩
      rcases List.mem_cons.1 hx with rfl | hx
      · exact hc
      · exact Before.trans hc (hm x hx)
    | eq =>
      simp only [Ty.insertMember, hc]
      exact h
    | gt =>
      simp only [Ty.insertMember, hc]
      have hmt : m.Before t := by
        rw [Before, ← cmp_swap, hc]
        rfl
      refine List.pairwise_cons.2 ⟨fun x hx => ?_, ih hms⟩
      rcases mem_insertMember.1 hx with rfl | hx
      · exact hmt
      · exact hm x hx

/-- Arranging types loses none and adds none, and puts them in order. -/
lemma arrange_spec (ts : List Ty) :
    Increasing (arrange ts) ∧ ∀ x, x ∈ arrange ts ↔ x ∈ ts := by
  have hfold : ∀ (ts ms : List Ty), Increasing ms →
      Increasing (ts.foldl (fun ms t => insertMember t ms) ms) ∧
        ∀ x, x ∈ ts.foldl (fun ms t => insertMember t ms) ms ↔ x ∈ ms ∨ x ∈ ts := by
    intro ts
    induction ts with
    | nil => exact fun ms h => ⟨h, by simp⟩
    | cons t ts ih =>
      intro ms h
      obtain ⟨hinc, hmem⟩ := ih (insertMember t ms) h.insertMember
      refine ⟨hinc, fun x => ?_⟩
      rw [List.foldl_cons, hmem, mem_insertMember, List.mem_cons, or_comm (a := x = t), or_assoc]
  obtain ⟨hinc, hmem⟩ := hfold ts [] List.Pairwise.nil
  refine ⟨hinc, fun x => (hmem x).trans ?_⟩
  simp

/-! ## Choices -/

/-- The type is a choice that a union may hold: it carries information and is not a union. -/
def isChoice : Ty → Bool
  | .unknown | .invalid | .union _ => false
  | _ => true

/-- The concrete choices of a type; none for a type without information. -/
def choices (t : Ty) : List Ty := if t.isInvalid then [] else t.members

/-- A union is in the form in which joins leave it. -/
def Canonical : Ty → Prop
  | .union ms => 2 ≤ ms.length ∧ Increasing ms ∧ ∀ m ∈ ms, m.isChoice
  | _ => True

lemma isInvalid_iff {t : Ty} : t.isInvalid ↔ t = .unknown ∨ t = .invalid := by
  cases t <;> simp [isInvalid]

lemma choices_of_isInvalid {t : Ty} (h : t.isInvalid) : t.choices = [] := if_pos h

lemma choices_of_isChoice {t : Ty} (h : t.isChoice) : t.choices = [t] := by
  cases t <;> first | rfl | cases h

lemma isChoice_or_isUnion {t : Ty} (h : t.isInvalid = false) :
    t.isChoice ∨ ∃ ms, t = .union ms := by
  cases t <;> simp_all [isInvalid, isChoice]

lemma Canonical.of_isChoice {t : Ty} (h : t.isChoice) : t.Canonical := by
  cases t with
  | union ms => cases h
  | _ => trivial

/-- What the choices of a canonical type are like. -/
lemma Canonical.choices_spec {t : Ty} (h : t.Canonical) :
    Increasing t.choices ∧ ∀ m ∈ t.choices, m.isChoice := by
  by_cases hinv : t.isInvalid
  · simp [choices_of_isInvalid hinv, Increasing]
  · rcases isChoice_or_isUnion (by simpa using hinv) with hc | ⟨ms, rfl⟩
    · rw [choices_of_isChoice hc]
      exact ⟨List.pairwise_singleton _ _, by simpa using hc⟩
    · exact h.2

/-- A canonical type with information is what its choices make. -/
lemma Canonical.ofMembers_choices {t : Ty} (h : t.Canonical) (hinv : t.isInvalid = false) :
    ofMembers t.choices = t := by
  rcases isChoice_or_isUnion hinv with hc | ⟨ms, rfl⟩
  · rw [choices_of_isChoice hc]
    rfl
  · -- two choices at least
    match ms, h.1 with
    | _ :: _ :: _, _ => rfl

/-- A canonical type without choices carries no information. -/
lemma Canonical.choices_eq_nil {t : Ty} (h : t.Canonical) : t.choices = [] ↔ t.isInvalid := by
  constructor
  · intro hnil
    by_contra hinv
    have ht := h.ofMembers_choices (by simpa using hinv)
    rw [hnil] at ht
    exact hinv (ht ▸ rfl)
  · exact choices_of_isInvalid

/-- Canonical types with the same choices are equal, but for `unknown` and `invalid`. -/
lemma Canonical.ext {a b : Ty} (ha : a.Canonical) (hb : b.Canonical)
    (hchoices : ∀ x, x ∈ a.choices ↔ x ∈ b.choices) (hinvalid : a = .invalid ↔ b = .invalid) :
    a = b := by
  have heq : a.choices = b.choices :=
    List.Pairwise.eq_of_mem_iff ha.choices_spec.1 hb.choices_spec.1 hchoices
  by_cases hinv : a.isInvalid
  · have hinv' : b.isInvalid := by
      rwa [← hb.choices_eq_nil, ← heq, ha.choices_eq_nil]
    rcases isInvalid_iff.1 hinv with rfl | rfl
    · rcases isInvalid_iff.1 hinv' with rfl | rfl
      · rfl
      · exact hinvalid.2 rfl
    · exact (hinvalid.1 rfl).symm
  · have hinv' : ¬ b.isInvalid := by
      rwa [← hb.choices_eq_nil, ← heq, ha.choices_eq_nil]
    rw [← ha.ofMembers_choices (by simpa using hinv), heq,
      hb.ofMembers_choices (by simpa using hinv')]

lemma Canonical.ext_of_ne_invalid {a b : Ty} (ha : a.Canonical) (hb : b.Canonical)
    (hane : a ≠ .invalid) (hbne : b ≠ .invalid) (h : ∀ x, x ∈ a.choices ↔ x ∈ b.choices) : a = b :=
  ha.ext hb h (iff_of_false hane hbne)

/-- The type that offers the choices of an increasing list. -/
lemma ofMembers_spec {ms : List Ty} (hinc : Increasing ms) (hms : ∀ m ∈ ms, m.isChoice) :
    (ofMembers ms).Canonical ∧ (ofMembers ms).choices = ms ∧ ofMembers ms ≠ .invalid := by
  match ms with
  | [] => exact ⟨trivial, rfl, by simp [ofMembers]⟩
  | [t] =>
    have ht : t.isChoice := hms t List.mem_cons_self
    refine ⟨.of_isChoice ht, choices_of_isChoice ht, ?_⟩
    rintro rfl
    cases ht
  | _ :: _ :: _ => exact ⟨⟨by simp, hinc, hms⟩, rfl, by simp [ofMembers]⟩

/-! ## The join in terms of choices -/

/-- The join of two different types with information. -/
lemma join_of_concrete {a b : Ty} (ha : a.isInvalid = false) (hb : b.isInvalid = false)
    (hne : a ≠ b) : a.join b = ofMembers (arrange (a.choices ++ b.choices)) := by
  simp [join, choices, ha, hb, hne]

lemma join_self (a : Ty) : a.join a = a := by
  by_cases h : a.isInvalid
  · rcases isInvalid_iff.1 h with rfl | rfl <;> rfl
  · simp [join, h]

lemma join_of_isInvalid_right {a b : Ty} (ha : a.isInvalid = false) (hb : b.isInvalid) :
    a.join b = a := by
  simp [join, ha, hb]

lemma join_of_isInvalid_left {a b : Ty} (ha : a.isInvalid) (hb : b.isInvalid = false) :
    a.join b = b := by
  simp [join, ha, hb]

lemma unknown_join (t : Ty) : Ty.unknown.join t = if t.isInvalid then .unknown else t := by
  by_cases h : t.isInvalid
  · rw [if_pos h]
    rcases isInvalid_iff.1 h with rfl | rfl <;> rfl
  · rw [if_neg h]
    exact join_of_isInvalid_left rfl (by simpa using h)

/-- What the join of canonical types is, whichever of its cases applies. -/
lemma Canonical.join_spec {a b : Ty} (ha : a.Canonical) (hb : b.Canonical) :
    (a.join b).Canonical ∧ (∀ x, x ∈ (a.join b).choices ↔ x ∈ a.choices ∨ x ∈ b.choices) ∧
      (a.join b = .invalid ↔ a = .invalid ∧ b = .invalid) := by
  by_cases hainv : a.isInvalid
  · by_cases hbinv : b.isInvalid
    · rcases isInvalid_iff.1 hainv with rfl | rfl <;>
        rcases isInvalid_iff.1 hbinv with rfl | rfl <;>
        simp [Ty.join, isInvalid, Canonical, Ty.choices]
    · rw [join_of_isInvalid_left hainv (by simpa using hbinv)]
      refine ⟨hb, fun x => ?_, ?_⟩
      · simp [choices_of_isInvalid hainv]
      · simp only [isInvalid_iff, not_or] at hbinv
        simp [hbinv.2]
  · simp only [Bool.not_eq_true] at hainv
    have hane : a ≠ .invalid := by
      rintro rfl
      cases hainv
    by_cases hbinv : b.isInvalid
    · rw [join_of_isInvalid_right hainv hbinv]
      refine ⟨ha, fun x => ?_, ?_⟩
      · simp [choices_of_isInvalid hbinv]
      · simp [hane]
    · simp only [Bool.not_eq_true] at hbinv
      by_cases hne : a = b
      · subst hne
        rw [join_self]
        exact ⟨ha, fun x => (or_self_iff).symm, (and_self_iff).symm⟩
      · rw [join_of_concrete hainv hbinv hne]
        obtain ⟨hinc, hmem⟩ := arrange_spec (a.choices ++ b.choices)
        have hms : ∀ m ∈ arrange (a.choices ++ b.choices), m.isChoice := by
          intro m hm
          rcases List.mem_append.1 ((hmem m).1 hm) with hm | hm
          · exact ha.choices_spec.2 m hm
          · exact hb.choices_spec.2 m hm
        obtain ⟨hcan, hch, hninv⟩ := ofMembers_spec hinc hms
        refine ⟨hcan, fun x => ?_, ?_⟩
        · rw [hch, hmem, List.mem_append]
        · simp [hninv, hane]

lemma Canonical.join {a b : Ty} (ha : a.Canonical) (hb : b.Canonical) : (a.join b).Canonical :=
  (ha.join_spec hb).1

/-- The choices of a join are those of its operands. -/
theorem mem_choices_join {a b x : Ty} (ha : a.Canonical) (hb : b.Canonical) :
    x ∈ (a.join b).choices ↔ x ∈ a.choices ∨ x ∈ b.choices :=
  (ha.join_spec hb).2.1 x

/-- A join is `invalid` exactly if its operands are. -/
lemma join_eq_invalid_iff {a b : Ty} (ha : a.Canonical) (hb : b.Canonical) :
    a.join b = .invalid ↔ a = .invalid ∧ b = .invalid :=
  (ha.join_spec hb).2.2

/-! ## Choices that a join keeps

The operands need not be canonical here. -/

lemma members_of_isChoice {t : Ty} (h : t.isChoice) : t.members = [t] := by
  cases t <;> first | rfl | cases h

lemma isInvalid_eq_false_of_mem_members {t u : Ty} (hu : u.isChoice) (h : u ∈ t.members) :
    t.isInvalid = false := by
  cases t with
  | unknown =>
    obtain rfl := List.mem_singleton.1 h
    cases hu
  | invalid =>
    obtain rfl := List.mem_singleton.1 h
    cases hu
  | _ => rfl

lemma mem_members_ofMembers {u : Ty} (hu : u.isChoice) {ms : List Ty} (h : u ∈ ms) :
    u ∈ (ofMembers ms).members := by
  match ms with
  | [t] =>
    obtain rfl := List.mem_singleton.1 h
    rw [ofMembers, members_of_isChoice hu]
    exact h
  | _ :: _ :: _ => exact h

/-- A join has the choices of both operands. -/
lemma mem_members_join {a b u : Ty} (hu : u.isChoice) (h : u ∈ a.members ∨ u ∈ b.members) :
    u ∈ (a.join b).members := by
  by_cases ha : a.isInvalid = true
  · have hub : u ∈ b.members := h.resolve_left fun hua => by
      rw [isInvalid_eq_false_of_mem_members hu hua] at ha
      cases ha
    rwa [join_of_isInvalid_left ha (isInvalid_eq_false_of_mem_members hu hub)]
  rw [Bool.not_eq_true] at ha
  by_cases hb : b.isInvalid = true
  · rw [join_of_isInvalid_right ha hb]
    exact h.resolve_right fun hub => by
      rw [isInvalid_eq_false_of_mem_members hu hub] at hb
      cases hb
  rw [Bool.not_eq_true] at hb
  by_cases hne : a = b
  · subst hne
    rw [join_self]
    exact h.elim id id
  · rw [join_of_concrete ha hb hne, choices, choices, ha, hb]
    exact mem_members_ofMembers hu (((arrange_spec _).2 u).2 (List.mem_append.2 h))

lemma mem_members_foldl_join {a u : Ty} (hu : u.isChoice) {ts : List Ty}
    (h : u ∈ a.members ∨ ∃ t ∈ ts, u ∈ t.members) : u ∈ (ts.foldl join a).members := by
  induction ts generalizing a with
  | nil => simpa using h
  | cons t ts ih =>
    rw [List.exists_mem_cons_iff, ← or_assoc] at h
    exact ih (h.imp_left (mem_members_join hu))

/-- A type contains a choice exactly if it has it. -/
lemma contains_iff_mem_members {t u : Ty} (hu : u.isChoice) :
    t.contains u = true ↔ u ∈ t.members := by
  have hself : u ∈ u.members := by rw [members_of_isChoice hu]; exact List.mem_singleton_self u
  rw [contains, isInvalid_eq_false_of_mem_members hu hself, members_of_isChoice hu]
  simp

/-! ## The laws -/

lemma Canonical.join_comm {a b : Ty} (ha : a.Canonical) (hb : b.Canonical) :
    a.join b = b.join a := by
  refine (ha.join hb).ext (hb.join ha) (fun x => ?_) ?_
  · rw [mem_choices_join ha hb, mem_choices_join hb ha, or_comm]
  · rw [join_eq_invalid_iff ha hb, join_eq_invalid_iff hb ha, and_comm]

lemma Canonical.join_assoc {a b c : Ty} (ha : a.Canonical) (hb : b.Canonical) (hc : c.Canonical) :
    (a.join b).join c = a.join (b.join c) := by
  have hab := ha.join hb
  have hbc := hb.join hc
  refine (hab.join hc).ext (ha.join hbc) (fun x => ?_) ?_
  · rw [mem_choices_join hab hc, mem_choices_join ha hb, mem_choices_join ha hbc,
      mem_choices_join hb hc, or_assoc]
  · rw [join_eq_invalid_iff hab hc, join_eq_invalid_iff ha hb, join_eq_invalid_iff ha hbc,
      join_eq_invalid_iff hb hc, and_assoc]

/-- A join carries no information exactly if neither operand does. -/
lemma Canonical.isInvalid_join {a b : Ty} (ha : a.Canonical) (hb : b.Canonical) :
    (a.join b).isInvalid ↔ a.isInvalid ∧ b.isInvalid := by
  rw [← (ha.join hb).choices_eq_nil, ← ha.choices_eq_nil, ← hb.choices_eq_nil]
  simp only [List.eq_nil_iff_forall_not_mem, mem_choices_join ha hb, not_or, forall_and]

/-! ## Which types there are -/

/-- The type can be made: from constants, from types made before, or as a join of such types. -/
inductive Constructible : Ty → Prop
  | unknown : Constructible .unknown
  | invalid : Constructible .invalid
  | nil : Constructible .nil
  | boolean : Constructible .boolean
  | number : Constructible .number
  | string : Constructible .string
  | object {c : ClassTy} (h : ∀ ps, c.params = some ps → ∀ t ∈ ps, Constructible t) :
    Constructible (.object c)
  | array {t : Ty} (h : Constructible t) : Constructible (.array t)
  | generic {base : String} {ps : List Ty} (h : ∀ t ∈ ps, Constructible t) :
    Constructible (.generic base ps)
  | function {ss : List Signature} (hp : ∀ s ∈ ss, ∀ q ∈ s.params, Constructible q.ty)
    (hr : ∀ s ∈ ss, ∀ t ∈ s.returns, Constructible t) : Constructible (.function ss)
  | join {a b : Ty} (ha : Constructible a) (hb : Constructible b) : Constructible (a.join b)

/-- Every union in the type, at any depth, is canonical. -/
inductive WellFormed : Ty → Prop
  | unknown : WellFormed .unknown
  | invalid : WellFormed .invalid
  | nil : WellFormed .nil
  | boolean : WellFormed .boolean
  | number : WellFormed .number
  | string : WellFormed .string
  | object {c : ClassTy} (h : ∀ ps, c.params = some ps → ∀ t ∈ ps, WellFormed t) :
    WellFormed (.object c)
  | array {t : Ty} (h : WellFormed t) : WellFormed (.array t)
  | generic {base : String} {ps : List Ty} (h : ∀ t ∈ ps, WellFormed t) :
    WellFormed (.generic base ps)
  | function {ss : List Signature} (hp : ∀ s ∈ ss, ∀ q ∈ s.params, WellFormed q.ty)
    (hr : ∀ s ∈ ss, ∀ t ∈ s.returns, WellFormed t) : WellFormed (.function ss)
  | union {ms : List Ty} (hc : Canonical (.union ms)) (hm : ∀ m ∈ ms, WellFormed m) :
    WellFormed (.union ms)

lemma WellFormed.canonical {t : Ty} (h : t.WellFormed) : t.Canonical := by
  cases h with
  | union hc _ => exact hc
  | _ => trivial

lemma WellFormed.of_mem_choices {t m : Ty} (h : t.WellFormed) (hm : m ∈ t.choices) :
    m.WellFormed := by
  by_cases hinv : t.isInvalid
  · simp [choices_of_isInvalid hinv] at hm
  · rcases isChoice_or_isUnion (by simpa using hinv) with hc | ⟨ms, rfl⟩
    · rw [choices_of_isChoice hc, List.mem_singleton] at hm
      exact hm ▸ h
    · cases h with
      | union _ hms => exact hms m hm

/-- Being well-formed is being canonical with well-formed choices. -/
lemma WellFormed.of_choices {t : Ty} (hc : t.Canonical) (h : ∀ m ∈ t.choices, m.WellFormed) :
    t.WellFormed := by
  by_cases hinv : t.isInvalid
  · rcases isInvalid_iff.1 hinv with rfl | rfl
    · exact .unknown
    · exact .invalid
  · rcases isChoice_or_isUnion (by simpa using hinv) with hch | ⟨ms, rfl⟩
    · exact h t (by simp [choices_of_isChoice hch])
    · exact .union hc h

lemma WellFormed.join {a b : Ty} (ha : a.WellFormed) (hb : b.WellFormed) :
    (a.join b).WellFormed := by
  refine .of_choices (ha.canonical.join hb.canonical) fun m hm => ?_
  rcases (mem_choices_join ha.canonical hb.canonical).1 hm with hm | hm
  · exact ha.of_mem_choices hm
  · exact hb.of_mem_choices hm

/-- What a fold of joins over canonical types offers. -/
lemma foldl_join_spec {ts : List Ty} (hts : ∀ t ∈ ts, t.Canonical) {a : Ty} (ha : a.Canonical) :
    (ts.foldl Ty.join a).Canonical ∧
      (∀ x, x ∈ (ts.foldl Ty.join a).choices ↔ x ∈ a.choices ∨ ∃ t ∈ ts, x ∈ t.choices) ∧
      (ts.foldl Ty.join a = .invalid ↔ a = .invalid ∧ ∀ t ∈ ts, t = .invalid) := by
  induction ts generalizing a with
  | nil => simp [ha]
  | cons t ts ih =>
    have ht := hts t List.mem_cons_self
    obtain ⟨hcan, hmem, hinv⟩ :=
      ih (fun u hu => hts u (List.mem_cons_of_mem _ hu)) (ha.join ht)
    refine ⟨hcan, fun x => ?_, ?_⟩
    · rw [List.foldl_cons, hmem, mem_choices_join ha ht, List.exists_mem_cons_iff, or_assoc]
    · rw [List.foldl_cons, hinv, join_eq_invalid_iff ha ht, List.forall_mem_cons, and_assoc]

/-- What the join of a list of canonical types offers.  It is never `invalid`. -/
lemma joinAll_spec {ts : List Ty} (hts : ∀ t ∈ ts, t.Canonical) :
    (joinAll ts).Canonical ∧ (∀ x, x ∈ (joinAll ts).choices ↔ ∃ t ∈ ts, x ∈ t.choices) ∧
      joinAll ts ≠ .invalid := by
  obtain ⟨hcan, hmem, hinv⟩ := foldl_join_spec hts (a := .unknown) trivial
  refine ⟨hcan, fun x => (hmem x).trans ?_, fun h => ?_⟩
  · rw [choices_of_isInvalid rfl]
    simp only [List.not_mem_nil, false_or]
  · cases (hinv.1 h).1

/-- The join of a list is determined by what it offers. -/
lemma Canonical.eq_joinAll {t : Ty} (h : t.Canonical) (hne : t ≠ .invalid) {ts : List Ty}
    (hts : ∀ u ∈ ts, u.Canonical) (hmem : ∀ x, x ∈ t.choices ↔ ∃ u ∈ ts, x ∈ u.choices) :
    t = joinAll ts := by
  obtain ⟨hcan, hchoices, hne'⟩ := joinAll_spec hts
  exact h.ext_of_ne_invalid hcan hne hne' fun x => (hmem x).trans (hchoices x).symm

/-- A join over canonical types depends neither on their order nor on how often each of them
occurs. -/
lemma joinAll_congr {ts us : List Ty} (hts : ∀ t ∈ ts, t.Canonical)
    (h : ∀ t, t ∈ ts ↔ t ∈ us) : joinAll ts = joinAll us := by
  have hus : ∀ t ∈ us, t.Canonical := fun t ht => hts t ((h t).2 ht)
  obtain ⟨hcan, hmem, hne⟩ := joinAll_spec hts
  refine hcan.eq_joinAll hne hus fun x => (hmem x).trans ?_
  simp only [h]

/-- A canonical type with information is the join of its choices. -/
lemma Canonical.joinAll_choices {t : Ty} (h : t.Canonical) (hinv : t.isInvalid = false) :
    joinAll t.choices = t := by
  have hchoice : ∀ m ∈ t.choices, m.isChoice := h.choices_spec.2
  have hne : t ≠ .invalid := by
    rintro rfl
    cases hinv
  refine (h.eq_joinAll hne (fun m hm => .of_isChoice (hchoice m hm)) fun x => ?_).symm
  constructor
  · intro hx
    refine ⟨x, hx, ?_⟩
    rw [choices_of_isChoice (hchoice x hx)]
    exact List.mem_cons_self
  · rintro ⟨m, hm, hx⟩
    rw [choices_of_isChoice (hchoice m hm), List.mem_singleton] at hx
    exact hx ▸ hm

lemma Constructible.foldl_join {ts : List Ty} (hts : ∀ t ∈ ts, t.Constructible) {a : Ty}
    (ha : a.Constructible) : (ts.foldl Ty.join a).Constructible := by
  induction ts generalizing a with
  | nil => exact ha
  | cons t ts ih =>
    exact ih (fun u hu => hts u (List.mem_cons_of_mem _ hu)) (ha.join (hts t List.mem_cons_self))

/-- The types that can be made are the well-formed ones. -/
theorem constructible_iff_wellFormed {t : Ty} : t.Constructible ↔ t.WellFormed := by
  constructor
  · intro h
    induction h with
    | object _ ih => exact .object ih
    | array _ ih => exact .array ih
    | generic _ ih => exact .generic ih
    | function _ _ ihp ihr => exact .function ihp ihr
    | join _ _ iha ihb => exact iha.join ihb
    | _ => constructor
  · intro h
    induction h with
    | object _ ih => exact .object ih
    | array _ ih => exact .array ih
    | generic _ ih => exact .generic ih
    | function _ _ ihp ihr => exact .function ihp ihr
    | union hc _ ih =>
      rw [← Canonical.joinAll_choices hc rfl]
      exact Constructible.foldl_join ih .unknown
    | _ => constructor

lemma Constructible.canonical {t : Ty} (h : t.Constructible) : t.Canonical :=
  (constructible_iff_wellFormed.1 h).canonical

/-- On the types that can be made, the join is commutative, associative and idempotent.  A type
without information gives way to any other one, `invalid` gives way to `unknown`, and a join carries
no information only if neither operand does. -/
theorem join_semilattice {a b c : Ty} (ha : a.Constructible) (hb : b.Constructible)
    (hc : c.Constructible) :
    a.join b = b.join a ∧ (a.join b).join c = a.join (b.join c) ∧ a.join a = a ∧
      (∀ n : Ty, n = .unknown ∨ n = .invalid → a.isInvalid = false →
        a.join n = a ∧ n.join a = a) ∧
      Ty.invalid.join .unknown = .unknown ∧
      ((a.join b).isInvalid ↔ a.isInvalid ∧ b.isInvalid) := by
  refine ⟨ha.canonical.join_comm hb.canonical,
    ha.canonical.join_assoc hb.canonical hc.canonical, join_self a, ?_, rfl,
    ha.canonical.isInvalid_join hb.canonical⟩
  intro n hn hinv
  have hn' := isInvalid_iff.2 hn
  exact ⟨join_of_isInvalid_right hinv hn', join_of_isInvalid_left hn' hinv⟩

/-- A function from an optional boolean to an array, a class with an argument, and a union. -/
theorem join_semilattice_nested :
    let a : Ty := .function [⟨[⟨"x", nil.join boolean⟩], [.array .unknown]⟩]
    let b : Ty := number.join (.generic "table" [string, a])
    let c : Ty := .object ⟨"Box", .declared, some [b]⟩
    a.Constructible ∧ b.Constructible ∧ c.Constructible ∧
      a.join b = b.join a ∧ (a.join b).join c = a.join (b.join c) ∧
      a.join .invalid = a ∧ ((a.join b).isInvalid ↔ a.isInvalid ∧ b.isInvalid) := by
  intro a b c
  have ha : a.Constructible := by
    refine .function ?_ ?_ <;> simp only [List.mem_singleton, forall_eq]
    · exact .join .nil .boolean
    · exact .array .unknown
  have hb : b.Constructible := by
    refine .join .number (.generic fun t ht => ?_)
    rcases List.mem_pair.1 ht with rfl | rfl
    · exact .string
    · exact ha
  have hc : c.Constructible := by
    refine .object fun ps hps t ht => ?_
    obtain rfl := Option.some.inj hps
    rw [List.mem_singleton.1 ht]
    exact hb
  obtain ⟨hcomm, hassoc, -, hneutral, -, hinv⟩ := join_semilattice ha hb hc
  exact ⟨ha, hb, hc, hcomm, hassoc, (hneutral .invalid (.inr rfl) rfl).1, hinv⟩

end TypeQuery.Ty
