import TypeQuery.Proofs.Containment

/-!
# Types by their concrete members

A join over a list of types is taken step by step, and on the way it may be without information, a
single type or a union.  None of this shows in the end: the result is determined by the concrete
types among the members of the list, whatever their order, their number and their grouping into
unions, and whatever types without information stand between them (`Ty.joinAll_determined`).

Narrowing a type joins those of its members that pass a test.  Its result may again be a single type
or nothing at all, in which case a second test is put to `unknown`, which is no choice of the type at
all.  `Ty.Canonical.narrow_spec` says that this is harmless: what a narrowed type offers are the
choices that pass.  From there, narrowing is intersection with a set, and `Ty.narrow_homomorphism`
has the laws that intersection has with union and with itself.

Members are what a caller sees, and a type without information is its own member; choices leave it
out.  `Ty.Canonical.mem_choices_iff` goes from one to the other.
-/

namespace TypeQuery.Ty

/-! ## Members and choices -/

/-- The concrete types among the members of the types in a list. -/
def concrete (ts : List Ty) : List Ty := (ts.flatMap members).filter fun c => !c.isInvalid

lemma mem_concrete {c : Ty} {ts : List Ty} :
    c ∈ concrete ts ↔ ∃ t ∈ ts, c ∈ t.members ∧ c.isInvalid = false := by
  simp only [concrete, List.mem_filter, List.mem_flatMap, Bool.not_eq_true', ← exists_and_right,
    and_assoc]

lemma members_of_isInvalid {t : Ty} (h : t.isInvalid) : t.members = [t] := by
  rcases isInvalid_iff.1 h with rfl | rfl <;> rfl

lemma isInvalid_eq_false_of_isChoice {t : Ty} (h : t.isChoice) : t.isInvalid = false := by
  have hself : t ∈ t.members := by
    rw [members_of_isChoice h]
    exact List.mem_singleton_self t
  exact isInvalid_eq_false_of_mem_members h hself

/-- The choices of a canonical type are its concrete members. -/
lemma Canonical.mem_choices_iff {t c : Ty} (h : t.Canonical) :
    c ∈ t.choices ↔ c ∈ t.members ∧ c.isInvalid = false := by
  constructor
  · intro hc
    have hchoice := h.choices_spec.2 c hc
    exact ⟨(mem_members_iff_mem_choices hchoice).2 hc, isInvalid_eq_false_of_isChoice hchoice⟩
  · rintro ⟨hc, hinv⟩
    by_cases ht : t.isInvalid
    · -- the only member of such a type is the type itself
      rw [members_of_isInvalid ht, List.mem_singleton] at hc
      rw [hc, ht] at hinv
      cases hinv
    · rwa [← members_eq_choices (Bool.eq_false_of_not_eq_true ht)]

/-- A member offers itself if it is a choice, and otherwise nothing. -/
lemma Canonical.mem_choices_member {t m : Ty} (h : t.Canonical) (hm : m ∈ t.members) {x : Ty} :
    x ∈ m.choices ↔ x = m ∧ m ∈ t.choices := by
  by_cases hinv : m.isInvalid
  · have hnot : m ∉ t.choices := fun hmem => by
      rw [isInvalid_eq_false_of_isChoice (h.choices_spec.2 m hmem)] at hinv
      cases hinv
    simp [choices_of_isInvalid hinv, hnot]
  · have hmem : m ∈ t.choices := h.mem_choices_iff.2 ⟨hm, Bool.eq_false_of_not_eq_true hinv⟩
    simp [choices_of_isChoice (h.choices_spec.2 m hmem), hmem]

lemma Canonical.of_mem_members {t m : Ty} (h : t.Canonical) (hm : m ∈ t.members) :
    m.Canonical := by
  by_cases hinv : m.isInvalid
  · rcases isInvalid_iff.1 hinv with rfl | rfl <;> trivial
  · exact .of_isChoice (h.choices_spec.2 m (h.mem_choices_iff.2 ⟨hm, by simpa using hinv⟩))

/-- A canonical type that offers nothing is `unknown`, unless it is `invalid`. -/
lemma Canonical.eq_unknown_iff {t : Ty} (h : t.Canonical) (hne : t ≠ .invalid) :
    t = .unknown ↔ t.choices = [] := by
  rw [h.choices_eq_nil, isInvalid_iff, or_iff_left hne]

/-! ## Joins of lists -/

section Lists

variable {xs ys : List Ty} (hxs : ∀ t ∈ xs, t.Canonical)
include hxs

lemma mem_choices_joinAll {c : Ty} : c ∈ (joinAll xs).choices ↔ c ∈ concrete xs := by
  rw [(joinAll_spec hxs).2.1 c, mem_concrete]
  exact exists_congr fun t => and_congr_right fun ht => (hxs t ht).mem_choices_iff

/-- The join of a list is `unknown` exactly if the list offers nothing. -/
lemma joinAll_eq_unknown_iff : joinAll xs = .unknown ↔ concrete xs = [] := by
  obtain ⟨hcan, -, hne⟩ := joinAll_spec hxs
  rw [hcan.eq_unknown_iff hne]
  simp only [List.eq_nil_iff_forall_not_mem, mem_choices_joinAll hxs]

lemma mem_members_joinAll (hsome : concrete xs ≠ []) {c : Ty} :
    c ∈ (joinAll xs).members ↔ c ∈ concrete xs := by
  have hinv : (joinAll xs).isInvalid = false := by
    rw [Bool.eq_false_iff]
    intro h
    rcases isInvalid_iff.1 h with h | h
    · exact hsome ((joinAll_eq_unknown_iff hxs).1 h)
    · exact (joinAll_spec hxs).2.2 h
  rw [members_eq_choices hinv, mem_choices_joinAll hxs]

variable (hys : ∀ t ∈ ys, t.Canonical)
include hys

/-- Lists have the same join exactly if they offer the same. -/
lemma joinAll_eq_iff : joinAll xs = joinAll ys ↔ ∀ c, c ∈ concrete xs ↔ c ∈ concrete ys := by
  constructor
  · intro h c
    rw [← mem_choices_joinAll hxs, h, mem_choices_joinAll hys]
  · intro h
    obtain ⟨hcan, -, hne⟩ := joinAll_spec hxs
    refine hcan.eq_joinAll hne hys fun c => ?_
    rw [mem_choices_joinAll hxs, h c, ← mem_choices_joinAll hys, (joinAll_spec hys).2.1 c]

lemma joinAll_append : joinAll (xs ++ ys) = (joinAll xs).join (joinAll ys) := by
  obtain ⟨hcan, hmem, hne⟩ := joinAll_spec hxs
  obtain ⟨hcan', hmem', -⟩ := joinAll_spec hys
  have hall : ∀ t ∈ xs ++ ys, t.Canonical := List.forall_mem_append.2 ⟨hxs, hys⟩
  refine ((hcan.join hcan').eq_joinAll (fun h => ?_) hall fun c => ?_).symm
  · exact hne ((join_eq_invalid_iff hcan hcan').1 h).1
  · rw [mem_choices_join hcan hcan', hmem, hmem']
    simp only [List.mem_append, or_and_right, exists_or]

end Lists

/-! ## Narrowing -/

/-- What a narrowed type offers: the choices that pass the test. -/
theorem Canonical.narrow_spec {t : Ty} (h : t.Canonical) (keep : Ty → Bool) :
    (t.narrow keep).Canonical ∧
      (∀ x, x ∈ (t.narrow keep).choices ↔ x ∈ t.choices ∧ keep x = true) ∧
      t.narrow keep ≠ .invalid := by
  have hmembers : ∀ m ∈ t.members.filter keep, m.Canonical := fun m hm =>
    h.of_mem_members (List.mem_filter.1 hm).1
  obtain ⟨hcan, hmem, hne⟩ := joinAll_spec hmembers
  refine ⟨hcan, fun x => (hmem x).trans ?_, hne⟩
  constructor
  · rintro ⟨m, hm, hx⟩
    obtain ⟨hm, hkeep⟩ := List.mem_filter.1 hm
    obtain ⟨rfl, hx⟩ := (h.mem_choices_member hm).1 hx
    exact ⟨hx, hkeep⟩
  · rintro ⟨hx, hkeep⟩
    have hm : x ∈ t.members := (h.mem_choices_iff.1 hx).1
    exact ⟨x, List.mem_filter.2 ⟨hm, hkeep⟩, (h.mem_choices_member hm).2 ⟨rfl, hx⟩⟩

/-- Only `invalid` is not the join of its members; that join is `unknown`. -/
lemma Canonical.joinAll_members {t : Ty} (h : t.Canonical) (hne : t ≠ .invalid) :
    joinAll t.members = t := by
  obtain ⟨hcan, hmem, hne'⟩ := h.narrow_spec fun _ => true
  have hall : t.members.filter (fun _ => true) = t.members := List.filter_true _
  rw [narrow, hall] at hcan hmem hne'
  exact hcan.ext_of_ne_invalid h hne' hne fun x => by simp [hmem]

lemma Canonical.narrow_join {a b : Ty} (ha : a.Canonical) (hb : b.Canonical)
    (keep : Ty → Bool) : (a.join b).narrow keep = (a.narrow keep).join (b.narrow keep) := by
  obtain ⟨hcan, hmem, hne⟩ := (ha.join hb).narrow_spec keep
  obtain ⟨hcana, hmema, hnea⟩ := ha.narrow_spec keep
  obtain ⟨hcanb, hmemb, -⟩ := hb.narrow_spec keep
  refine hcan.ext_of_ne_invalid (hcana.join hcanb) hne (fun h => ?_) fun x => ?_
  · exact hnea ((join_eq_invalid_iff hcana hcanb).1 h).1
  · rw [hmem, mem_choices_join ha hb, mem_choices_join hcana hcanb, hmema, hmemb, or_and_right]

lemma Canonical.narrow_narrow {a : Ty} (ha : a.Canonical) (keep keep' : Ty → Bool) :
    (a.narrow keep).narrow keep' = a.narrow fun m => keep m && keep' m := by
  obtain ⟨hcan, hmem, -⟩ := ha.narrow_spec keep
  obtain ⟨hcan₂, hmem₂, hne₂⟩ := hcan.narrow_spec keep'
  obtain ⟨hcan', hmem', hne'⟩ := ha.narrow_spec fun m => keep m && keep' m
  refine hcan₂.ext_of_ne_invalid hcan' hne₂ hne' fun x => ?_
  rw [hmem₂, hmem, hmem', Bool.and_eq_true, and_assoc]

lemma Canonical.narrow_eq_unknown_iff {a : Ty} (ha : a.Canonical) (keep : Ty → Bool) :
    a.narrow keep = .unknown ↔ ∀ c ∈ a.members, c.isInvalid = false → keep c = false := by
  obtain ⟨hcan, hmem, hne⟩ := ha.narrow_spec keep
  rw [hcan.eq_unknown_iff hne, List.eq_nil_iff_forall_not_mem]
  refine forall_congr' fun c => ?_
  rw [hmem, ha.mem_choices_iff, not_and, Bool.not_eq_true, and_imp]

/-! ## Main results -/

/-- The join of a list of well-formed types is determined by the concrete types among the members of
the list, and these are its members; without any it is `unknown`.  So lists may be joined in parts,
and every well-formed type but `invalid` is the join of its members. -/
theorem joinAll_determined {xs ys : List Ty} (hxs : ∀ t ∈ xs, t.WellFormed)
    (hys : ∀ t ∈ ys, t.WellFormed) :
    (joinAll xs = joinAll ys ↔ ∀ c, c ∈ concrete xs ↔ c ∈ concrete ys) ∧
      (joinAll xs = .unknown ↔ concrete xs = []) ∧
      (concrete xs ≠ [] → ∀ c, c ∈ (joinAll xs).members ↔ c ∈ concrete xs) ∧
      joinAll (xs ++ ys) = (joinAll xs).join (joinAll ys) ∧
      ∀ t : Ty, t.WellFormed → t ≠ .invalid → joinAll t.members = t := by
  have hxs' : ∀ t ∈ xs, t.Canonical := fun t ht => (hxs t ht).canonical
  have hys' : ∀ t ∈ ys, t.Canonical := fun t ht => (hys t ht).canonical
  exact ⟨joinAll_eq_iff hxs' hys', joinAll_eq_unknown_iff hxs',
    fun hsome _ => mem_members_joinAll hxs' hsome, joinAll_append hxs' hys',
    fun _ ht hne => ht.canonical.joinAll_members hne⟩

/-- The same three concrete types, once with a union and an `unknown` among them, once in another
grouping, with repetitions and an `invalid`. -/
theorem joinAll_determined_regrouped :
    let xs : List Ty := [nil.join number, .unknown, .array string]
    let ys : List Ty := [(Ty.array string).join nil, .invalid, number, nil, number]
    (∀ t ∈ xs, t.WellFormed) ∧ (∀ t ∈ ys, t.WellFormed) ∧ joinAll xs = joinAll ys ∧
      (∀ c, c ∈ (joinAll xs).members ↔ c ∈ [nil, number, .array string]) ∧
      joinAll (xs ++ ys) = (joinAll xs).join (joinAll ys) ∧
      joinAll (joinAll ys).members = joinAll ys := by
  intro xs ys
  have hunion : (nil.join number).WellFormed := .join .nil .number
  have hoptional : ((Ty.array string).join nil).WellFormed := .join (.array .string) .nil
  have hxs : ∀ t ∈ xs, t.WellFormed := by
    simp only [xs, List.forall_mem_cons]
    exact ⟨hunion, .unknown, .array .string, fun _ h => nomatch h⟩
  have hys : ∀ t ∈ ys, t.WellFormed := by
    simp only [ys, List.forall_mem_cons]
    exact ⟨hoptional, .invalid, .number, .nil, .number, fun _ h => nomatch h⟩
  have hconcrete : concrete xs = [nil, number, .array string] := by decide
  have hconcrete' : concrete ys = [nil, .array string, number, nil, number] := by decide
  have hwf : (joinAll ys).WellFormed :=
    (((WellFormed.unknown.join hoptional).join .invalid).join .number).join .nil |>.join .number
  obtain ⟨heq, -, hmembers, happend, hself⟩ := joinAll_determined hxs hys
  refine ⟨hxs, hys, heq.2 fun c => ?_, fun c => ?_, happend, hself _ hwf (by decide)⟩
  · simp only [hconcrete, hconcrete', List.mem_cons]
    tauto
  · rw [hmembers (by rw [hconcrete]; simp) c, hconcrete]

/-- Narrowing distributes over joins, and two tests one after the other are one test for both.  A
narrowed type has the concrete members that pass, and is `unknown` if none does.  Taking nil away is
narrowing to what is not nil, so it distributes over joins and need not be done twice. -/
theorem narrow_homomorphism {a b : Ty} (ha : a.WellFormed) (hb : b.WellFormed)
    (keep keep' : Ty → Bool) :
    (a.join b).narrow keep = (a.narrow keep).join (b.narrow keep) ∧
      (a.narrow keep).narrow keep' = a.narrow (fun m => keep m && keep' m) ∧
      (∀ c : Ty, c.isInvalid = false →
        (c ∈ (a.narrow keep).members ↔ c ∈ a.members ∧ keep c = true)) ∧
      (a.narrow keep = .unknown ↔ ∀ c ∈ a.members, c.isInvalid = false → keep c = false) ∧
      a.withoutNil = a.narrow (fun m => decide (m ≠ .nil)) ∧
      a.withoutNil.withoutNil = a.withoutNil ∧
      (a.join b).withoutNil = a.withoutNil.join b.withoutNil := by
  have ha := ha.canonical
  have hb := hb.canonical
  refine ⟨ha.narrow_join hb keep, ha.narrow_narrow keep keep', fun c hc => ?_,
    ha.narrow_eq_unknown_iff keep, ?_, ?_, ha.narrow_join hb _⟩
  · obtain ⟨hcan, hmem, -⟩ := ha.narrow_spec keep
    have hiff := hmem c
    rwa [hcan.mem_choices_iff, ha.mem_choices_iff, and_iff_left hc, and_iff_left hc] at hiff
  · have htest : (fun m : Ty => !m.isNil) = fun m => decide (m ≠ .nil) :=
      funext fun m => by cases m <;> simp [isNil]
    rw [withoutNil, htest]
  · rw [withoutNil, withoutNil, ha.narrow_narrow]
    simp only [Bool.and_self]

/-- One operand collapses to a single array, the other to nothing, and the next test is then put to
`unknown`. -/
theorem narrow_homomorphism_collapsed :
    let a : Ty := nil.join (.array number)
    let b : Ty := number.join string
    let isArray : Ty → Bool := fun m => m.element?.isSome
    a.WellFormed ∧ b.WellFormed ∧ a.narrow isArray = .array number ∧ b.narrow isArray = .unknown ∧
      (a.join b).narrow isArray = (a.narrow isArray).join (b.narrow isArray) ∧
      (b.narrow isArray).narrow isUnknown = b.narrow (fun m => isArray m && m.isUnknown) ∧
      a.withoutNil.withoutNil = a.withoutNil ∧
      (a.join b).withoutNil = a.withoutNil.join b.withoutNil := by
  intro a b isArray
  have ha : a.WellFormed := .join .nil (.array .number)
  have hb : b.WellFormed := .join .number .string
  obtain ⟨hjoin, -, -, -, -, hidem, hnil⟩ := narrow_homomorphism ha hb isArray isArray
  obtain ⟨-, htwice, -, hnone, -⟩ := narrow_homomorphism hb ha isArray isUnknown
  exact ⟨ha, hb, by decide, hnone.2 (by decide), hjoin, htwice, hidem, hnil⟩

end TypeQuery.Ty
