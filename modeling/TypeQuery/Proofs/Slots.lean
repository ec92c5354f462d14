import TypeQuery.Proofs.Once

/-!
# Values after the first

An expression is asked for a value after its first only where a list of values is read past its end,
and then only its last expression is, if it may stand for several values.  So every key with a later
slot that a query works on or keeps an answer for is that of a call or of `...`
(`Program.slot_discipline`), and its slot is bounded by what the program shows: the positions of its
assigned values and the lengths of its lists of returned values.

The rules are done with in `Program.plan_asked`.  What is left is to carry it along a run: a key
comes into the guard or the memo by a step about that key (`Trail.has_follow`), and every step of a
course is about a member of a module or about an expression that was asked for
(`Program.course_keys`).
-/

namespace TypeQuery

/-! ## Where keys come from -/

namespace Trail

/-- The work of the key is in progress, or there is an answer for it in the memo. -/
def Has (tr : Trail) (k : Key) : Prop := k ∈ tr.guard ∨ ∃ t, tr.memo.find? k = some t

lemma not_has_empty (k : Key) : ¬ (∅ : Trail).Has k := by
  rintro (hguard | ⟨t, ht⟩)
  · exact absurd hguard List.not_mem_nil
  · exact absurd ht (by simp [show (∅ : Trail).memo = ∅ from rfl])

/-- A step brings in no key but its own. -/
lemma has_step {tr : Trail} {st : Step} {k : Key} (h : (tr.step st).Has k) :
    tr.Has k ∨ st.key = k := by
  cases st with
  | enter j =>
    rcases h with hguard | hmemo
    · rcases List.mem_cons.1 hguard with rfl | hguard
      · exact .inr rfl
      · exact .inl (.inl hguard)
    · exact .inl (.inr hmemo)
  | leave j => exact .inl (h.imp_left List.mem_of_mem_erase)
  | keep j t =>
    by_cases hj : j = k
    · exact .inr hj
    · refine .inl (h.imp_right fun ⟨t', ht'⟩ => ⟨t', ?_⟩)
      simpa [step, Catalog.find?_insert, hj] using ht'
  | refuse j => exact .inl h
  | tooDeep j => exact .inl h

/-- Steps bring in no keys but their own. -/
lemma has_follow {tr : Trail} {steps : List Step} {k : Key} (h : (tr.follow steps).Has k) :
    tr.Has k ∨ ∃ st ∈ steps, st.key = k := by
  induction steps generalizing tr with
  | nil => exact .inl h
  | cons st steps ih =>
    rcases ih h with hstep | ⟨st', hmem, hkey⟩
    · rcases has_step hstep with hstart | hkey
      · exact .inl hstart
      · exact .inr ⟨st, List.mem_cons_self, hkey⟩
    · exact .inr ⟨st', List.mem_cons_of_mem _ hmem, hkey⟩

end Trail

/-! ## The keys of a course -/

/-- All steps are about keys that satisfy `K`. -/
def About (K : Key → Prop) (steps : List Step) : Prop := ∀ st ∈ steps, K st.key

namespace Program

variable {p : Program} {es : List Expr}

/-- The key is that of a member, or of an expression that is asked for at that slot. -/
def AsksKey (p : Program) (es : List Expr) : Key → Prop
  | .value node slot => ∃ x, x.id = node ∧ p.Asked es x slot
  | .member _ => True

/-- Every step of a run is about a key that was asked for. -/
theorem course_keys (cancelOn : Option String) (levels : Nat) (g : Guard) {e : Expr} {slot : Nat}
    (s : Progress) (he : p.Asked es e slot) :
    About (p.AsksKey es) (p.course cancelOn levels g e slot s) := by
  intro st hst
  obtain hkey | he | he | he | he | ⟨he, -, -, -⟩ :=
    course_steps (fun _ _ he => plan_asked he.1) levels g s he st hst
  case member =>
    rw [hkey]
    trivial
  all_goals exact ⟨_, rfl, he⟩

end Program

/-! ## The slots of a query -/

/-- What may stand for several values is a call or `...`. -/
lemma Expr.eq_call_or_varargs {e : Expr} (h : e.isMultiValued = true) :
    (∃ callee arguments, e = .call e.id callee arguments) ∨ e = .literal e.id .varargs := by
  cases e with
  | call id callee arguments => exact .inl ⟨callee, arguments, rfl⟩
  | literal id l =>
    cases l with
    | varargs => exact .inr rfl
    | _ => cases h
  | _ => cases h

/-- Past the end of a list, its last expression is asked for at the slot that is as far from its
first value as the position is from the end. -/
lemma Plan.valueAt_past_end {values : List Expr} {index : Nat} {last : Expr}
    (hend : values[index]? = none) (hlast : values.getLast? = some last)
    (hmulti : last.isMultiValued = true) :
    ∃ slot, 1 ≤ slot ∧ 1 ≤ values.length ∧ (values.length - 1) + slot = index ∧
      valueAt values index = ofExpr last slot := by
  have hlength : values.length ≤ index := List.getElem?_eq_none_iff.1 hend
  have hpos : 0 < values.length := List.length_pos_of_mem (List.mem_of_getLast? hlast)
  refine ⟨index - (values.length - 1), by omega, hpos, by omega, ?_⟩
  simp [valueAt, hend, hlast, hmulti]

namespace Program

/-- At every point of every query, a key with a slot after the first that is in progress or in the
memo is that of a call or of `...`, and the slot is at most the greatest position of an assigned
value, or the last position of the longest list of returned values.  Following the course of the
query to its end leads to an empty guard and the memo of the run.  Where the position past the end
of a list is turned into a slot, the subtraction stays above zero. -/
theorem slot_discipline (p : Program) (e : Expr) :
    (∀ cancelOn patience,
      (∅ : Trail).follow (p.courseOfCancellable cancelOn patience e) =
          ⟨∅, (p.infer cancelOn p.options.maxDepth ∅ e 0
            (Progress.record { (∅ : Progress) with patience } .query)).2.memo⟩ ∧
        ∀ steps, steps <+: p.courseOfCancellable cancelOn patience e →
          ∀ node slot, 0 < slot → ((∅ : Trail).follow steps).Has (.value node slot) →
            (∃ x ∈ p.nodes [e],
              (∃ callee arguments, x = .call node callee arguments) ∨ x = .literal node .varargs) ∧
            slot ≤ p.lastSlot [e]) ∧
    ∀ (values : List Expr) (index : Nat) (last : Expr), values[index]? = none →
      values.getLast? = some last → last.isMultiValued = true →
        ∃ slot, 1 ≤ slot ∧ 1 ≤ values.length ∧ (values.length - 1) + slot = index ∧
          Plan.valueAt values index = .ofExpr last slot := by
  refine ⟨fun cancelOn patience => ⟨?_, ?_⟩, fun _ _ _ => Plan.valueAt_past_end⟩
  · have hempty : Trail.Apart ∅ := ⟨fun _ _ => rfl, fun _ _ => rfl⟩
    have hpasses := p.infer_passes cancelOn p.options.maxDepth ∅ e 0
      (Progress.record { (∅ : Progress) with patience } .query) hempty
    exact hpasses.follow_eq
  · intro steps hsteps node slot hslot hhas
    have hcourse : About (p.AsksKey [e]) (p.courseOfCancellable cancelOn patience e) :=
      course_keys cancelOn _ ∅ _ (asked_zero (mem_nodes_of_mem List.mem_cons_self))
    rcases Trail.has_follow hhas with hstart | ⟨st, hst, hkey⟩
    · exact absurd hstart (Trail.not_has_empty _)
    · have hasks := hcourse st (hsteps.subset hst)
      rw [hkey] at hasks
      obtain ⟨x, rfl, hx, hxslot⟩ := hasks
      exact ⟨⟨x, hx.1, Expr.eq_call_or_varargs (hxslot hslot)⟩, hx.2⟩

/-- `function f(...) if c then return ... end return 1, nil end` and `local a, b = f()`; the name at
which `b` is used is the node 8. -/
def spread : Program :=
  let f : Declaration := {
    id := ⟨0, 4⟩, name := "f", kind := .function
    body := some ⟨⟨0, 3⟩, [], [[.literal ⟨0, 0⟩ .varargs],
      [.literal ⟨0, 1⟩ .number, .literal ⟨0, 2⟩ .nil]]⟩ }
  let b : Declaration :=
    { Declaration.localName ⟨0, 7⟩ "b" with
      value := some ⟨[.call ⟨0, 6⟩ (.name ⟨0, 5⟩ "f") []], 1⟩ }
  ofReferences [(⟨0, 8⟩, b), (⟨0, 5⟩, f)]

/-- The query for `b` asks for the second value of `f()`, and for the type of `f` also for the
second value of `...`.  Both slots are the last one of the program. -/
theorem spread_slots :
    let b : Expr := .name ⟨0, 8⟩ "b"
    let call : Expr := .call ⟨0, 6⟩ (.name ⟨0, 5⟩ "f") []
    let trail := (∅ : Trail).follow (spread.courseOfCancellable none none b)
    spread.lastSlot [b] = 1 ∧ trail.Has (.value ⟨0, 6⟩ 1) ∧ trail.Has (.value ⟨0, 0⟩ 1) ∧
      (∃ x ∈ spread.nodes [b], (∃ callee arguments, x = .call ⟨0, 6⟩ callee arguments) ∨
        x = .literal ⟨0, 6⟩ .varargs) ∧
      (∃ x ∈ spread.nodes [b], (∃ callee arguments, x = .call ⟨0, 0⟩ callee arguments) ∨
        x = .literal ⟨0, 0⟩ .varargs) ∧
      ∃ slot, 1 ≤ slot ∧ 0 + slot = 1 ∧ Plan.valueAt [call] 1 = .ofExpr call slot := by
  intro b call trail
  have hcall : trail.Has (.value ⟨0, 6⟩ 1) := .inr (Option.isSome_iff_exists.1 (by decide))
  have hvarargs : trail.Has (.value ⟨0, 0⟩ 1) := .inr (Option.isSome_iff_exists.1 (by decide))
  obtain ⟨hquery, hpast⟩ := slot_discipline spread b
  obtain ⟨-, hslots⟩ := hquery none none
  obtain ⟨slot, hpos, -, hsum, hvalue⟩ := hpast [call] 1 call rfl rfl rfl
  exact ⟨by decide, hcall, hvarargs,
    (hslots _ List.prefix_rfl ⟨0, 6⟩ 1 (by decide) hcall).1,
    (hslots _ List.prefix_rfl ⟨0, 0⟩ 1 (by decide) hvarargs).1, slot, hpos, hsum, hvalue⟩

end Program

end TypeQuery
