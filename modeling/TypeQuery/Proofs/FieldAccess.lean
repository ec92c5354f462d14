import TypeQuery.Proofs.Levels

/-!
# The field of a name and the field of a key

`o.f` and `o["f"]` read the same field, but brackets may also read an element of an array or a value
of a generic container.  So `o["f"]` asks for the type of `o` first, and looks for a field only if
that type has no such member, while `o.f` has no use for the type of `o` before it looks for the
field.  Where neither projection applies, the two come to the same question (`Program.readField`),
and both expressions have the same type, found with the same work
(`Program.typeOf_field_eq_typeOf_bracket`).

What is left to show is that it does not matter which of the two asks.  Each works under its own key,
and this key is in progress for all that follows, wherever the members of a class lead on a cyclic
program.  But a query looks only at the keys of what it comes across, and by assumption it does not
come across `o.f` or `o["f"]` again.  So the guards under which the two go on agree on every key that
is ever looked at, and then the runs are equal (`Program.infer_agree`): the same is refused, the same
is cut short, and the same is kept.
-/

namespace TypeQuery

open Progress

namespace Ty

lemma arrayElement?_eq_none {t : Ty} (h : ∀ u, .array u ∉ t.members) : t.arrayElement? = none := by
  refine List.findSome?_eq_none_iff.2 fun u hu => ?_
  cases u with
  | array v => exact absurd hu (h v)
  | _ => rfl

lemma generic?_eq_none {t : Ty} (h : ∀ base params, .generic base params ∉ t.members) :
    t.generic? = none := by
  refine List.findSome?_eq_none_iff.2 fun u hu => ?_
  cases u with
  | generic base params => exact absurd hu (h base params)
  | _ => rfl

end Ty

/-! ## Guards that agree on what is looked at -/

namespace Guard

/-- Of the keys with `K`, the same are in progress. -/
def AgreeOn (K : Key → Prop) (g g' : Guard) : Prop := ∀ k, K k → (k ∈ g ↔ k ∈ g')

variable {K : Key → Prop} {g g' : Guard}

/-- Both guards refuse a key, or both let it enter and agree from there on. -/
lemma AgreeOn.enter (h : AgreeOn K g g') {k : Key} (hk : K k) :
    (g.enter? k = none ∧ g'.enter? k = none) ∨
      ∃ h₁ h₂, g.enter? k = some h₁ ∧ g'.enter? k = some h₂ ∧ AgreeOn K h₁ h₂ := by
  by_cases hmem : k ∈ g
  · exact .inl ⟨if_pos hmem, if_pos ((h k hk).1 hmem)⟩
  · have henter : g.enter? k = some ⟨k :: g.inFlight⟩ := if_neg hmem
    have henter' : g'.enter? k = some ⟨k :: g'.inFlight⟩ := if_neg (mt (h k hk).2 hmem)
    refine .inr ⟨_, _, henter, henter', fun j hj => ?_⟩
    rw [mem_of_enter? henter, mem_of_enter? henter', h j hj]

end Guard

/-- A plan that stays within keys on which the guards agree runs alike under both. -/
lemma Plan.run_agree {A : Expr → Nat → Prop} {W : Key → Plan → Prop} {K : Key → Prop}
    {infer : Infer} {cancelOn : Option String} (hW : ∀ k body, W k body → K k)
    (hinfer : ∀ {g g'}, Guard.AgreeOn K g g' → ∀ e slot s, A e slot →
      infer g e slot s = infer g' e slot s)
    {plan : Plan} (hplan : plan.Confined A W) {g g' : Guard} (h : Guard.AgreeOn K g g')
    (s : Progress) : plan.run infer cancelOn g s = plan.run infer cancelOn g' s := by
  induction plan generalizing g g' s with
  | answer t => rfl
  | ask e slot next ih =>
    rw [run_ask, run_ask, hinfer h e slot s hplan.1]
    exact ih _ (hplan.2 _) h _
  | within key body next ihb ihn =>
    obtain ⟨hkey, hbody, hnext⟩ := hplan
    rcases h.enter (hW key body hkey) with ⟨hn, hn'⟩ | ⟨h₁, h₂, he, he', hagree⟩
    · rw [run_within_of_mem _ _ _ hn, run_within_of_mem _ _ _ hn']
      exact ihn none (hnext none) h s
    · rw [run_within_of_enter _ _ _ he, run_within_of_enter _ _ _ he', ihb hbody hagree s]
      exact ihn _ (hnext _) h _
  | consult name next ih => exact ih hplan h _
  | lookUpModule found next ih => exact ih hplan h _

namespace Program

/-- The key is one of a node of the program, or of the members of a module. -/
def OwnKey (p : Program) (es : List Expr) : Key → Prop
  | .value node _ => ∃ x ∈ p.nodes es, x.id = node
  | .member _ => True

variable {p : Program} {es : List Expr} {g g' : Guard}

lemma MemberWork.ownKey (k : Key) (body : Plan) (h : p.MemberWork k body) : p.OwnKey es k := by
  obtain ⟨d, -, m, -, rfl, -⟩ := h
  trivial

lemma attempt_agree (cancelOn : Option String) {infer : Infer}
    (hinfer : ∀ {g g'}, Guard.AgreeOn (p.OwnKey es) g g' → ∀ e slot s, e ∈ p.nodes es →
      infer g e slot s = infer g' e slot s)
    (h : Guard.AgreeOn (p.OwnKey es) g g') {e : Expr} (he : e ∈ p.nodes es) (slot : Nat)
    (s : Progress) : p.attempt cancelOn infer g e slot s = p.attempt cancelOn infer g' e slot s := by
  have hplan := plan_confined_nodes he slot
  by_cases hg : e.isGuarded = true
  · rcases h.enter (k := .value e.id slot) ⟨e, he, rfl⟩ with ⟨hn, hn'⟩ | ⟨h₁, h₂, hk, hk', hagree⟩
    · rw [p.attempt_of_mem _ _ hg hn, p.attempt_of_mem _ _ hg hn']
    · rw [p.attempt_of_enter _ _ hg hk, p.attempt_of_enter _ _ hg hk']
      exact Plan.run_agree MemberWork.ownKey hinfer hplan hagree s
  · rw [Bool.not_eq_true] at hg
    rw [p.attempt_of_unguarded _ _ hg, p.attempt_of_unguarded _ _ hg]
    exact Plan.run_agree MemberWork.ownKey hinfer hplan h s

/-- A query among the nodes of a program does not look at other keys. -/
theorem infer_agree (cancelOn : Option String) (levels : Nat)
    (h : Guard.AgreeOn (p.OwnKey es) g g') {e : Expr} (he : e ∈ p.nodes es) (slot : Nat)
    (s : Progress) :
    p.infer cancelOn levels g e slot s = p.infer cancelOn levels g' e slot s := by
  induction levels generalizing g g' e slot s with
  | zero =>
    rcases s.knows_or_open (.value e.id slot) with hs | ⟨hc, hm⟩
    · obtain ⟨t, ht⟩ := p.infer_of_knows cancelOn hs
      rw [ht, ht]
    · rw [p.infer_zero _ hc hm, p.infer_zero _ hc hm]
  | succ levels ih =>
    rcases s.knows_or_open (.value e.id slot) with hs | ⟨hc, hm⟩
    · obtain ⟨t, ht⟩ := p.infer_of_knows cancelOn hs
      rw [ht, ht]
    · -- the key of the expression is looked at twice: when it is entered, and before it is kept
      have hattempt : p.attempt cancelOn (p.infer cancelOn levels) g e slot _ = _ :=
        attempt_agree cancelOn (fun h e slot s he => ih h he slot s) h he slot
          (s.look.record .expression)
      have hkey : Key.value e.id slot ∈ g ↔ Key.value e.id slot ∈ g' := h _ ⟨e, he, rfl⟩
      rw [p.infer_succ _ _ hc hm, p.infer_succ _ _ hc hm, hattempt]
      simp only [settle, hkey]

/-! ## Expressions that only a caller knows -/

/-- The expression is none of the nodes of the program, and no table says anything about it. -/
structure Detached (p : Program) (es : List Expr) (e : Expr) : Prop where
  unannotated : p.annotations.find? e.id = none
  notTarget : p.names.target? e = none
  fresh : ∀ x ∈ p.nodes es, x.id ≠ e.id

/-- The key of a detached expression is not looked at. -/
lemma Detached.agreeOn {e : Expr} (h : p.Detached es e) {slot : Nat} (g : Guard) :
    Guard.AgreeOn (p.OwnKey es) ⟨.value e.id slot :: g.inFlight⟩ g := by
  intro k hk
  have hne : k ≠ .value e.id slot := by
    rintro rfl
    obtain ⟨x, hx, hid⟩ := hk
    exact h.fresh x hx hid
  simp [Guard.mem_def, hne]

/-- The progress of a query that has come to the plan of its own expression. -/
def begun : Progress := (Progress.record ∅ .query).record .expression

/-- A query for a detached expression carries out its plan as if nothing were in progress.  `plan`
need not be the plan of the expression itself, as long as both run alike under its key. -/
lemma typeOf_detached {e : Expr} (he : p.Detached es e) (hg : e.isGuarded = true) {plan : Plan}
    (hplan : plan.Confined (fun x _ => x ∈ p.nodes es) p.MemberWork) {levels : Nat}
    (hrun : (p.plan e 0).run (p.infer none levels) none ⟨[.value e.id 0]⟩ begun =
      plan.run (p.infer none levels) none ⟨[.value e.id 0]⟩ begun) :
    (p.withDepth (levels + 1)).typeOf e =
      ((plan.run (p.infer none levels) none ∅ begun).1,
        (plan.run (p.infer none levels) none ∅ begun).2.work) := by
  have henter : (∅ : Guard).enter? (.value e.id 0) = some ⟨[.value e.id 0]⟩ := rfl
  have hquery : p.infer none (levels + 1) ∅ e 0 (Progress.record ∅ .query) = _ :=
    p.infer_succ_patient none rfl levels rfl
  have hfree : plan.run (p.infer none levels) none ⟨[.value e.id 0]⟩ begun =
      plan.run (p.infer none levels) none ∅ begun :=
    Plan.run_agree MemberWork.ownKey (fun h e slot s he => infer_agree none levels h he slot s)
      hplan (he.agreeOn ∅) begun
  rw [typeOf_withDepth, hquery, settle_work, p.attempt_of_enter none _ hg henter]
  exact congrArg (fun r => (r.1, r.2.work)) (hrun.trans hfree)

/-! ## The two plans -/

variable {o : Expr} {f : String}

/-- Asks for the type of an object, and then for its fields of this name. -/
def readField (p : Program) (o : Expr) (f : String) : Plan :=
  .ask o 0 fun t => p.fieldOf t f .unknown

lemma readField_confined (ho : o ∈ p.nodes es) :
    (p.readField o f).Confined (fun x _ => x ∈ p.nodes es) p.MemberWork :=
  ⟨ho, fun _ => fieldOf_asked.mono (fun _ _ h => h.1.1) fun _ _ h => h⟩

/-- With nothing in the tables about an index expression, its type is that of the field that it
names. -/
lemma memberType_detached {e : Expr} (he : p.Detached es e) (key : IndexKey)
    (hkey : key.name? = some f) (object : Option Ty) :
    p.memberType e o key object =
      match object with
      | some t => p.fieldOf t f .unknown
      | none => p.readField o f := by
  have hnone : p.annotationAt? e none = none := by
    rw [annotationAt?, he.unannotated]
  unfold memberType
  simp only [he.notTarget, hnone, Option.bind_none, hkey]
  cases object <;> rfl

lemma plan_field {i : NodeId} (h : p.Detached es (.index i o (.field f))) (slot : Nat) :
    p.plan (.index i o (.field f)) slot = p.readField o f :=
  memberType_detached h (.field f) rfl none

/-- Brackets with a string in them read the field of that name, if the object turns out to be
neither an array nor generic. -/
lemma run_plan_bracket {j k : NodeId}
    (h : p.Detached es (.index j o (.bracket (.literal k (.string f))))) (slot : Nat)
    {infer : Infer} {cancelOn : Option String} {g : Guard} {s : Progress}
    (harray : (infer g o 0 s).1.arrayElement? = none)
    (hgeneric : (infer g o 0 s).1.generic? = none) :
    (p.plan (.index j o (.bracket (.literal k (.string f)))) slot).run infer cancelOn g s =
      (p.readField o f).run infer cancelOn g s := by
  have hplan : p.plan (.index j o (.bracket (.literal k (.string f)))) slot =
      p.indexType (.index j o (.bracket (.literal k (.string f)))) o
        (.bracket (.literal k (.string f))) := rfl
  rw [hplan, indexType, if_pos (by rfl), Plan.run_ask, harray]
  dsimp only
  rw [hgeneric]
  dsimp only
  rw [memberType_detached h _ (f := f) rfl]
  rfl

/-! ## Queries -/

/-- `o.f` and `o["f"]` have the same type, and it takes the same work to find it, if no table of the
program says anything about the two expressions or leads to them, and if no choice of the type of `o`
that is found below them is an array or generic. -/
theorem typeOf_field_eq_typeOf_bracket {i j k : NodeId} {m : Nat}
    (hfield : p.Detached [o] (.index i o (.field f)))
    (hbracket : p.Detached [o] (.index j o (.bracket (.literal k (.string f)))))
    (harray : ∀ t, .array t ∉ ((p.withDepth (m - 1)).typeOf o).1.members)
    (hgeneric : ∀ base params,
      .generic base params ∉ ((p.withDepth (m - 1)).typeOf o).1.members) :
    (p.withDepth m).typeOf (.index i o (.field f)) =
      (p.withDepth m).typeOf (.index j o (.bracket (.literal k (.string f)))) := by
  by_cases hm : m = 0
  · rw [hm, typeOf_withDepth_zero, typeOf_withDepth_zero]
  obtain ⟨levels, rfl⟩ : ∃ levels, m = levels + 1 := ⟨m - 1, by omega⟩
  have ho : o ∈ p.nodes [o] := mem_nodes_of_mem List.mem_cons_self
  -- what is found for the object below the brackets is what is found for the object alone
  have hobject : (p.infer none levels ⟨[.value j 0]⟩ o 0 begun).1 =
      ((p.withDepth levels).typeOf o).1 := by
    have hfree : p.infer none levels ⟨[.value j 0]⟩ o 0 begun = p.infer none levels ∅ o 0 begun :=
      infer_agree none levels (hbracket.agreeOn ∅) ho 0 begun
    have hsame : Same begun (Progress.record ∅ .query) := ⟨rfl, rfl, rfl⟩
    rw [hfree, typeOf_withDepth]
    exact (p.infer_same none levels ∅ o 0 hsame).1
  rw [typeOf_detached hfield rfl (readField_confined ho) (by rw [plan_field hfield]),
    typeOf_detached hbracket rfl (readField_confined ho)]
  apply run_plan_bracket hbracket
  · exact Ty.arrayElement?_eq_none (hobject ▸ harray)
  · exact Ty.generic?_eq_none (hobject ▸ hgeneric)

/-- `local t = {}`, and then `t.x = t.x or 1`. -/
def selfField : Program :=
  let t : Declaration :=
    { Declaration.localName ⟨0, 1⟩ "t" with value := some ⟨[.table ⟨0, 0⟩ []], 0⟩ }
  let again : Expr := .index ⟨0, 3⟩ (.name ⟨0, 2⟩ "t") (.field "x")
  let x : Declaration :=
    .field ⟨0, 6⟩ "x" (.binary ⟨0, 5⟩ .or again (some (.literal ⟨0, 4⟩ .number)))
  { ofReferences [(⟨0, 2⟩, t), (⟨0, 7⟩, t)] with members := (∅ : Members).add (.table ⟨0, 0⟩) x }

/-- Both ways to read the field find its number, although the field is also declared from itself. -/
theorem selfField_reads :
    let t : Expr := .name ⟨0, 7⟩ "t"
    let field : Expr := .index ⟨0, 8⟩ t (.field "x")
    let bracket : Expr := .index ⟨0, 10⟩ t (.bracket (.literal ⟨0, 9⟩ (.string "x")))
    selfField.Detached [t] field ∧ selfField.Detached [t] bracket ∧
      ((selfField.withDepth 9).typeOf t).1 = .table ⟨0, 0⟩ ∧
      ((selfField.withDepth 10).typeOf field).1 = .number ∧
      (selfField.withDepth 10).typeOf field = (selfField.withDepth 10).typeOf bracket := by
  intro t field bracket
  have hfield : selfField.Detached [t] field := ⟨rfl, rfl, by decide⟩
  have hbracket : selfField.Detached [t] bracket := ⟨rfl, rfl, by decide⟩
  have hobject : ((selfField.withDepth 9).typeOf t).1 = .table ⟨0, 0⟩ := by decide
  refine ⟨hfield, hbracket, hobject, by decide, ?_⟩
  apply typeOf_field_eq_typeOf_bracket hfield hbracket
  · simp [hobject, Ty.table, Ty.members]
  · simp [hobject, Ty.table, Ty.members]

end Program

end TypeQuery
