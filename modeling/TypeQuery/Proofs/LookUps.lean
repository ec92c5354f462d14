import TypeQuery.Proofs.Course

/-!
# Looking up modules

A plan looks up a module only for a call of a loading function, once, and before all else
(`Program.plan_still_or`); the facts about the rules on the way there are one for each combinator
and one for each rule of `TypeQuery.Typing`.  A call is entered before its plan is carried out.  So,
along every run, no more modules are looked up than calls of loading functions are entered
(`Program.infer_lookUps`).
-/

namespace TypeQuery

open Progress

/-! ## Plans without look-ups -/

namespace Plan

/-- Whatever the answers are, the plan looks up no module. -/
def Still : Plan → Prop
  | .answer _ => True
  | .ask _ _ next => ∀ t, (next t).Still
  | .within _ body next => body.Still ∧ ∀ r, (next r).Still
  | .consult _ next => next.Still
  | .lookUpModule .. => False

lemma bind_still {plan : Plan} {k : Ty → Plan} (hp : plan.Still) (hk : ∀ t, (k t).Still) :
    (plan.bind k).Still := by
  induction plan with
  | answer t => exact hk t
  | ask e slot next ih => exact fun t => ih t (hp t)
  | within key body next _ ih => exact ⟨hp.1, fun r => ih r (hp.2 r)⟩
  | consult name next ih => exact ih hp
  | lookUpModule found next ih => exact hp.elim

lemma collect_still {plans : List Plan} {k : List Ty → Plan} (hp : ∀ plan ∈ plans, plan.Still)
    (hk : ∀ ts, (k ts).Still) : (collect plans k).Still := by
  induction plans generalizing k with
  | nil => exact hk []
  | cons plan plans ih =>
    refine bind_still (hp plan List.mem_cons_self) fun t => ?_
    exact ih (fun q hq => hp q (List.mem_cons_of_mem _ hq)) fun ts => hk (t :: ts)

/-- Plans that are made in the same way from the members of a list. -/
lemma collect_map_still {α : Type} {f : α → Plan} (hf : ∀ a, (f a).Still) (as : List α)
    {k : List Ty → Plan} (hk : ∀ ts, (k ts).Still) : (collect (as.map f) k).Still := by
  refine collect_still (fun plan hplan => ?_) hk
  obtain ⟨a, _, rfl⟩ := List.mem_map.1 hplan
  exact hf a

lemma valueAt_still (values : List Expr) (index : Nat) : (valueAt values index).Still := by
  unfold valueAt
  split
  · exact fun _ => trivial
  · split
    · split
      · exact fun _ => trivial
      · trivial
    · trivial

lemma returnedAt_still (body : FunctionBody) (slot : Nat) : (returnedAt body slot).Still :=
  collect_map_still (fun values => valueAt_still values slot) _ fun _ => trivial

end Plan

open Plan

namespace Program

variable (p : Program)

lemma functionType_still (body : FunctionBody) : (p.functionType body).Still := by
  unfold functionType
  split
  · trivial
  · exact collect_map_still (returnedAt_still body) _ fun _ => trivial

lemma declarationType_still (d : Declaration) : (p.declarationType d).Still := by
  have hassigned : (p.assignedType d).Still := by
    unfold assignedType
    split
    · exact p.functionType_still _
    · exact valueAt_still _ _
    · trivial
  unfold declarationType
  split
  · split
    · exact hassigned
    · trivial
  · exact hassigned

lemma fieldType_still (c : ClassTy) (field : String) : (p.fieldType c field).Still :=
  collect_map_still p.declarationType_still _ fun _ => trivial

lemma bindingType_still (d : Declaration) : (p.bindingType d).Still := by
  have hown : (p.ownBindingType d).Still := by
    unfold ownBindingType
    split
    · exact bind_still (p.declarationType_still d) fun _ => trivial
    · exact p.declarationType_still d
  unfold bindingType
  split
  · exact hown
  · refine ⟨p.fieldType_still _ _, fun r => ?_⟩
    cases r with
    | none => exact hown
    | some t =>
      dsimp only
      split
      · exact hown
      · trivial

lemma nameType_still (e : Expr) (name : String) : (p.nameType e name).Still := by
  refine bind_still (collect_map_still p.bindingType_still _ fun _ => trivial) fun t => ?_
  split
  · unfold unboundType
    dsimp only
    split
    · exact bind_still (p.bindingType_still _) fun _ => trivial
    · trivial
  · trivial

lemma withBody_still (callee : Expr) {next : Option FunctionBody → Plan}
    (hnext : ∀ body, (next body).Still) : (p.withBody callee next).Still := by
  unfold withBody
  split
  · exact hnext _
  · split
    · exact hnext _
    · exact hnext _

lemma applicationType_still (callee : Expr) (slot : Nat) :
    (p.applicationType callee slot).Still := by
  have hreturn : ∀ body, (p.returnType body slot).Still := by
    intro body
    unfold returnType
    split
    · trivial
    · exact returnedAt_still body slot
  refine bind_still (fun t => ?_) fun t => ?_
  · dsimp only
    split
    · refine p.withBody_still callee fun body => ?_
      cases body with
      | none => trivial
      | some body => exact hreturn body
    · trivial
  · split
    · split
      · exact bind_still (fun _ => trivial) fun _ => trivial
      · trivial
    · trivial

lemma indexType_still (e object : Expr) (key : IndexKey) : (p.indexType e object key).Still := by
  have hfield : ∀ o field t, (p.fieldOf o field t).Still := fun o field t =>
    collect_map_still (fun c => p.fieldType_still c field) _ fun _ => trivial
  have hmember : ∀ o, (p.memberType e object key o).Still := by
    intro o
    unfold memberType
    dsimp only
    split
    · trivial
    · refine bind_still ?_ fun t => ?_
      · split
        · exact bind_still (valueAt_still _ _) fun _ => trivial
        · trivial
      · split
        · trivial
        · exact hfield _ _ _
        · exact fun _ => hfield _ _ _
  unfold indexType
  split
  · intro o
    dsimp only
    split
    · trivial
    · split
      · trivial
      · exact hmember _
  · exact hmember _

lemma plan_still_of_unguarded {e : Expr} (h : e.isGuarded = false) (slot : Nat) :
    (p.plan e slot).Still := by
  cases e with
  | unary id op operand =>
    cases op with
    | minus => exact fun _ => trivial
    | length => trivial
    | not => trivial
    | bitNot => trivial
  | binary id op left right =>
    show (binaryType op left right).Still
    unfold binaryType
    split
    · trivial
    split
    · trivial
    split
    · cases right with
      | none => exact fun _ => trivial
      | some r => exact fun _ => bind_still (fun _ => trivial) fun _ => trivial
    · exact fun _ => trivial
  | closure id body => exact p.functionType_still body
  | table id fields => trivial
  | paren id inner =>
    cases inner with
    | none => trivial
    | some x => exact fun _ => trivial
  | literal id l => trivial
  | call id callee arguments => cases h
  | name id x => cases h
  | index id object key => cases h

/-- The expression calls a function that loads a module. -/
def loads : Expr → Bool
  | .call _ callee _ => (callee.name?.map p.options.isRequire).getD false
  | _ => false

/-- A plan looks up a module only for a call of a loading function, once, and before all else. -/
lemma plan_still_or (e : Expr) (slot : Nat) :
    (p.plan e slot).Still ∨
      p.loads e = true ∧ ∃ found rest, p.plan e slot = .lookUpModule found rest ∧ rest.Still := by
  cases hg : e.isGuarded with
  | false => exact .inl (p.plan_still_of_unguarded hg slot)
  | true =>
    cases e with
    | name id x => exact .inl (p.nameType_still _ x)
    | index id object key => exact .inl (p.indexType_still _ object key)
    | call id callee arguments =>
      show (p.callType _ callee slot).Still ∨ _ ∧ ∃ found rest, p.callType _ callee slot = _ ∧ _
      unfold callType
      split
      next hload =>
        split
        · refine .inr ⟨hload, ?_⟩
          unfold requiredType
          split
          · exact ⟨_, _, rfl, trivial⟩
          · refine ⟨_, _, rfl, ?_⟩
            split
            · trivial
            · exact fun _ => trivial
            · trivial
        · exact .inl trivial
      next => exact .inl (p.applicationType_still callee slot)
    | _ => cases hg

end Program

/-! ## Look-ups and entries -/

/-- The key of the expression whose work starts here. -/
def Step.entered? : Step → Option Key
  | enter (.value node slot) => some (.value node slot)
  | _ => none

/-- The keys of the expressions that are entered, in order. -/
def entered (steps : List Step) : List Key := steps.filterMap Step.entered?

@[simp] lemma entered_nil : entered [] = [] := rfl

@[simp] lemma entered_append (steps steps' : List Step) :
    entered (steps ++ steps') = entered steps ++ entered steps' := List.filterMap_append

lemma entered_cons_of_none {st : Step} (h : st.entered? = none) (steps : List Step) :
    entered (st :: steps) = entered steps := List.filterMap_cons_none h

namespace Program

variable (p : Program)

/-- The key of a call of a loading function among the nodes of the program. -/
def isLoadKey (es : List Expr) : Key → Bool
  | .value node _ => (p.nodes es).any fun x => p.loads x && decide (x.id = node)
  | .member _ => false

/-- Between `s` and `s'`, no more modules are looked up than calls of loading functions entered. -/
def LookUps (es : List Expr) (s : Progress) (steps : List Step) (s' : Progress) : Prop :=
  s'.work.resolutions ≤ s.work.resolutions + (entered steps).countP (p.isLoadKey es)

variable {p} {es : List Expr} {s₁ s₂ s₃ : Progress} {steps steps' : List Step}

lemma isLoadKey_of_mem {e : Expr} (he : e ∈ p.nodes es) (h : p.loads e = true) (slot : Nat) :
    p.isLoadKey es (.value e.id slot) = true := by
  simp only [isLoadKey, List.any_eq_true, Bool.and_eq_true, decide_eq_true_eq]
  exact ⟨e, he, h, rfl⟩

lemma LookUps.of_resolutions_eq (h : s₂.work.resolutions = s₁.work.resolutions)
    (steps : List Step) : p.LookUps es s₁ steps s₂ := by
  unfold LookUps
  omega

lemma LookUps.append (h : p.LookUps es s₁ steps s₂) (h' : p.LookUps es s₂ steps' s₃) :
    p.LookUps es s₁ (steps ++ steps') s₃ := by
  unfold LookUps at *
  rw [entered_append, List.countP_append]
  omega

/-- Entering a call of a loading function accounts for one look-up. -/
lemma LookUps.enter {node : NodeId} {slot : Nat}
    (hk : p.isLoadKey es (.value node slot) = true) (found : Bool) (s : Progress) :
    p.LookUps es s [.enter (.value node slot)] (s.record (.resolution found)) := by
  have hcount : (entered [.enter (.value node slot)]).countP (p.isLoadKey es) = 1 := by
    simp [entered, Step.entered?, hk]
  unfold LookUps
  rw [hcount]
  cases found <;> exact Nat.le_refl _

lemma LookUps.cons (h : p.LookUps es s₁ steps s₂) (st : Step) :
    p.LookUps es s₁ (st :: steps) s₂ :=
  (LookUps.of_resolutions_eq rfl [st]).append h

end Program

/-- A plan that looks up no module itself. -/
lemma Plan.run_lookUps {p : Program} {es : List Expr} {infer : Infer} {course : Course}
    (cancelOn : Option String) {W : Key → Plan → Prop}
    (hinfer : ∀ g e slot s, e ∈ p.nodes es →
      p.LookUps es s (course g e slot s) (infer g e slot s).2)
    {plan : Plan} (hplan : plan.Confined (fun x _ => x ∈ p.nodes es) W) (hstill : plan.Still)
    (g : Guard) (s : Progress) :
    p.LookUps es s (plan.course infer course cancelOn g s) (plan.run infer cancelOn g s).2 := by
  induction plan generalizing g s with
  | answer t => exact .of_resolutions_eq rfl []
  | ask e slot next ih => exact (hinfer g e slot s hplan.1).append (ih _ (hplan.2 _) (hstill _) g _)
  | within key body next ihb ihn =>
    cases hk : g.enter? key with
    | none =>
      rw [course_within_of_mem _ _ _ _ hk, run_within_of_mem _ _ _ hk]
      exact (ihn none (hplan.2.2 _) (hstill.2 _) g s).cons _
    | some g' =>
      rw [course_within_of_enter _ _ _ _ hk, run_within_of_enter _ _ _ hk]
      have hbody := (ihb hplan.2.1 hstill.1 g' s).cons (.enter key)
      exact hbody.append ((ihn _ (hplan.2.2 _) (hstill.2 _) g _).cons _)
  | consult name next ih =>
    have hnext := ih hplan hstill g (s.consult cancelOn name)
    unfold Program.LookUps at hnext
    rwa [consult_work] at hnext
  | lookUpModule found next ih => exact hstill.elim

namespace Program

variable {p : Program} {es : List Expr} (cancelOn : Option String)

/-- The one look-up of an attempt is accounted for by its own entry. -/
lemma attempt_lookUps {infer : Infer} {course : Course}
    (hinfer : ∀ g e slot s, e ∈ p.nodes es →
      p.LookUps es s (course g e slot s) (infer g e slot s).2)
    {e : Expr} (he : e ∈ p.nodes es) (slot : Nat) (g : Guard) (s : Progress) :
    p.LookUps es s (p.attemptCourse cancelOn infer course g e slot s)
      (p.attempt cancelOn infer g e slot s).2 := by
  have hplan := p.plan_confined_nodes he slot
  cases hg : e.isGuarded with
  | false =>
    rw [p.attemptCourse_of_unguarded _ _ _ hg, p.attempt_of_unguarded _ _ hg]
    exact Plan.run_lookUps cancelOn hinfer hplan (p.plan_still_of_unguarded hg slot) g s
  | true =>
    cases hk : g.enter? (.value e.id slot) with
    | none =>
      rw [p.attemptCourse_of_mem _ _ _ hg hk, p.attempt_of_mem _ _ hg hk]
      exact .of_resolutions_eq rfl _
    | some g' =>
      rw [p.attemptCourse_of_enter _ _ _ hg hk, p.attempt_of_enter _ _ hg hk]
      rcases p.plan_still_or e slot with hstill | ⟨hload, found, rest, heq, hstill⟩
      · have hrun := Plan.run_lookUps cancelOn hinfer hplan hstill g' s
        exact (hrun.cons _).append (.of_resolutions_eq rfl _)
      · rw [heq] at hplan ⊢
        have hentry : p.LookUps es s _ (s.record (.resolution found)) :=
          .enter (isLoadKey_of_mem he hload slot) found s
        have hrun : p.LookUps es (s.record (.resolution found)) _ _ :=
          Plan.run_lookUps cancelOn hinfer (show rest.Confined _ _ from hplan) hstill g' _
        exact hentry.append (hrun.append (.of_resolutions_eq rfl _))

/-- Along every run, no more modules are looked up than calls of loading functions entered. -/
theorem infer_lookUps (levels : Nat) (g : Guard) {e : Expr} (slot : Nat) (s : Progress)
    (he : e ∈ p.nodes es) :
    p.LookUps es s (p.course cancelOn levels g e slot s)
      (p.infer cancelOn levels g e slot s).2 := by
  refine p.course_induction cancelOn
    (R := fun _ e _ s steps s' => e ∈ p.nodes es → p.LookUps es s steps s')
    (fun _ _ _ _ _ => .of_resolutions_eq rfl _) (fun _ _ _ _ _ => .of_resolutions_eq rfl _) ?_
    levels g e slot s he
  rintro levels ih g e slot s _ - - rfl he
  have hstart : p.LookUps es s [] (s.look.record .expression) := .of_resolutions_eq rfl []
  have hattempt : p.LookUps es (s.look.record .expression) _ _ :=
    attempt_lookUps cancelOn ih he slot g _
  refine hstart.append (hattempt.append (.of_resolutions_eq ?_ _))
  unfold settle
  split <;> rfl

end Program

end TypeQuery
