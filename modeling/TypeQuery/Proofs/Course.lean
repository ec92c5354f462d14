import TypeQuery.Proofs.Asks
import TypeQuery.Proofs.Runs

/-!
# The course of a query

What happens in a query, in order: which keys are entered and left again, which are refused, where
the depth limit stops it, and which answers go into the memo.  The tally of a query counts some of
this, but a refused key of a module member leaves no trace in it, and neither does the order.

The course is read off the same runs as the answers: `Plan.course` follows `Plan.run` step by step,
and every state on the way is the state of that run.  `Program.course_induction` is the way to prove
something about both at once, and `Program.course_steps` says what the single steps of a course can
be.  What a course says about refusals is what the tally says, as far as
the tally goes: `Program.hits_courseOf`.
-/

namespace TypeQuery

/-- Something that happens in a query. -/
inductive Step where
  /-- The work of `key` starts. -/
  | enter (key : Key)
  /-- The work of `key` ends. -/
  | leave (key : Key)
  /-- The work of `key` is in progress already and is not started again. -/
  | refuse (key : Key)
  /-- The expression of `key` lies too deep. -/
  | tooDeep (key : Key)
  /-- The answer for `key` is put in the memo. -/
  | keep (key : Key) (ty : Ty)

namespace Step

/-- The key that a step is about. -/
def key : Step → Key
  | enter k | leave k | refuse k | tooDeep k | keep k _ => k

/-- The query is cut short here: the guard refuses a key, or the depth limit a level. -/
def isCut : Step → Bool
  | refuse _ | tooDeep _ => true
  | enter _ | leave _ | keep .. => false

/-- The key of an expression is refused. -/
def isGuardHit : Step → Bool
  | refuse (.value ..) => true
  | _ => false

/-- The depth limit refuses a level. -/
def isDepthHit : Step → Bool
  | tooDeep _ => true
  | _ => false

end Step

/-- What happens while an expression is answered for. -/
abbrev Course := Guard → Expr → Nat → Progress → List Step

/-- What happens while a plan is carried out.  `infer` answers its questions, and `course` is what
happens meanwhile. -/
def Plan.course (infer : Infer) (course : Course) (cancelOn : Option String) (g : Guard) :
    Plan → Progress → List Step
  | .answer _, _ => []
  | .ask e slot next, s =>
    let (t, s') := infer g e slot s
    course g e slot s ++ (next t).course infer course cancelOn g s'
  | .within key body next, s =>
    match g.enter? key with
    | none => .refuse key :: (next none).course infer course cancelOn g s
    | some g' =>
      let (t, s') := body.run infer cancelOn g' s
      .enter key :: body.course infer course cancelOn g' s ++
        .leave key :: (next (some t)).course infer course cancelOn g s'
  | .consult name next, s => next.course infer course cancelOn g (s.consult cancelOn name)
  | .lookUpModule found next, s =>
    next.course infer course cancelOn g (s.record (.resolution found))

namespace Program

variable (p : Program) (cancelOn : Option String)

/-- What happens while an expression is attempted. -/
def attemptCourse (infer : Infer) (course : Course) : Course := fun g e slot s =>
  if e.isGuarded then
    match g.enter? (.value e.id slot) with
    | none => [.refuse (.value e.id slot)]
    | some g' =>
      .enter (.value e.id slot) :: (p.plan e slot).course infer course cancelOn g' s ++
        [.leave (.value e.id slot)]
  else (p.plan e slot).course infer course cancelOn g s

/-- What happens to an answer at the end of the work on it. -/
def settleCourse (g : Guard) (k : Key) (before : Nat) (t : Ty) (s : Progress) : List Step :=
  if s.truncations = before ∧ k ∉ g ∧ s.cancelled = false then [.keep k t] else []

/-- Nothing happens for a question in a cancelled query, or one whose answer is in the memo. -/
def unlessKnown (k : Key) (s : Progress) (steps : List Step) : List Step :=
  if s.cancelled ∨ (s.memo.find? k).isSome then [] else steps

/-- What happens while an expression is answered for, with this many levels left. -/
def course : Nat → Guard → Expr → Nat → Progress → List Step
  | 0, _, e, slot, s => unlessKnown (.value e.id slot) s [.tooDeep (.value e.id slot)]
  | levels + 1, g, e, slot, s =>
    let (t, s') := p.attempt cancelOn (p.infer cancelOn levels) g e slot (s.look.record .expression)
    unlessKnown (.value e.id slot) s <|
      p.attemptCourse cancelOn (p.infer cancelOn levels) (course levels) g e slot
          (s.look.record .expression) ++
        settleCourse g (.value e.id slot) s.truncations t s'

/-- What happens in the query for the type of an expression. -/
def courseOf (e : Expr) : List Step :=
  p.course none p.options.maxDepth ∅ e 0 (Progress.record ∅ .query)

/-- The query for the type of an expression is nowhere cut short: it refuses no key, neither of an
expression nor of a member of a module, and no level of depth. -/
def Uncut (e : Expr) : Prop := ∀ st ∈ p.courseOf e, st.isCut = false

instance (e : Expr) : Decidable (p.Uncut e) :=
  inferInstanceAs (Decidable (∀ st ∈ p.courseOf e, st.isCut = false))

end Program

/-! ## One step of a course -/

namespace Plan

variable (infer : Infer) (course : Course) (cancelOn : Option String) {g : Guard} (s : Progress)

lemma course_ask (e : Expr) (slot : Nat) (next : Ty → Plan) :
    (ask e slot next).course infer course cancelOn g s =
      course g e slot s ++
        (next (infer g e slot s).1).course infer course cancelOn g (infer g e slot s).2 := rfl

lemma course_within_of_mem {key : Key} (h : g.enter? key = none) (body : Plan)
    (next : Option Ty → Plan) :
    (within key body next).course infer course cancelOn g s =
      .refuse key :: (next none).course infer course cancelOn g s := by
  rw [Plan.course, h]

lemma course_within_of_enter {key : Key} {g' : Guard} (h : g.enter? key = some g') (body : Plan)
    (next : Option Ty → Plan) :
    (within key body next).course infer course cancelOn g s =
      .enter key :: body.course infer course cancelOn g' s ++
        .leave key :: (next (some (body.run infer cancelOn g' s).1)).course infer course cancelOn g
          (body.run infer cancelOn g' s).2 := by
  rw [Plan.course, h]

end Plan

namespace Program

variable (p : Program) (cancelOn : Option String) {g : Guard} {e : Expr} {slot : Nat} {s : Progress}

lemma course_of_knows (h : s.Knows (.value e.id slot)) (levels : Nat) :
    p.course cancelOn levels g e slot s = [] := by
  have hknown : s.cancelled = true ∨ (s.memo.find? (.value e.id slot)).isSome = true :=
    h.imp_right Option.isSome_iff_exists.2
  cases levels <;> simp [course, unlessKnown, hknown]

lemma course_zero (hc : s.cancelled = false) (h : s.memo.find? (.value e.id slot) = none) :
    p.course cancelOn 0 g e slot s = [.tooDeep (.value e.id slot)] := by
  simp [course, unlessKnown, hc, h]

lemma course_succ (levels : Nat) (hc : s.cancelled = false)
    (h : s.memo.find? (.value e.id slot) = none) :
    p.course cancelOn (levels + 1) g e slot s =
      p.attemptCourse cancelOn (p.infer cancelOn levels) (p.course cancelOn levels) g e slot
          (s.look.record .expression) ++
        settleCourse g (.value e.id slot) s.truncations
          (p.attempt cancelOn (p.infer cancelOn levels) g e slot (s.look.record .expression)).1
          (p.attempt cancelOn (p.infer cancelOn levels) g e slot (s.look.record .expression)).2 := by
  simp [course, unlessKnown, hc, h]

lemma attemptCourse_of_unguarded (infer : Infer) (course : Course) (h : e.isGuarded = false) :
    p.attemptCourse cancelOn infer course g e slot s =
      (p.plan e slot).course infer course cancelOn g s := by
  simp [attemptCourse, h]

lemma attemptCourse_of_mem (infer : Infer) (course : Course) (h : e.isGuarded = true)
    (hk : g.enter? (.value e.id slot) = none) :
    p.attemptCourse cancelOn infer course g e slot s = [.refuse (.value e.id slot)] := by
  simp [attemptCourse, h, hk]

lemma attemptCourse_of_enter (infer : Infer) (course : Course) (h : e.isGuarded = true)
    {g' : Guard} (hk : g.enter? (.value e.id slot) = some g') :
    p.attemptCourse cancelOn infer course g e slot s =
      .enter (.value e.id slot) :: (p.plan e slot).course infer course cancelOn g' s ++
        [.leave (.value e.id slot)] := by
  simp [attemptCourse, h, hk]

/-- What holds where nothing happens and where an expression lies too deep, and is carried over from
the deeper levels to an attempt and what is kept of it, holds of every run and its course. -/
theorem course_induction {R : Guard → Expr → Nat → Progress → List Step → Progress → Prop}
    (known : ∀ g e slot s, R g e slot s [] s.look)
    (deep : ∀ g e slot s, R g e slot s [.tooDeep (.value e.id slot)] s.look.truncate)
    (work : ∀ levels, (∀ g e slot s,
        R g e slot s (p.course cancelOn levels g e slot s) (p.infer cancelOn levels g e slot s).2) →
      ∀ g e slot s r, s.cancelled = false → s.memo.find? (.value e.id slot) = none →
        p.attempt cancelOn (p.infer cancelOn levels) g e slot (s.look.record .expression) = r →
        R g e slot s
          (p.attemptCourse cancelOn (p.infer cancelOn levels) (p.course cancelOn levels) g e slot
              (s.look.record .expression) ++
            settleCourse g (.value e.id slot) s.truncations r.1 r.2)
          (settle g (.value e.id slot) s.truncations r.1 r.2))
    (levels : Nat) (g : Guard) (e : Expr) (slot : Nat) (s : Progress) :
    R g e slot s (p.course cancelOn levels g e slot s) (p.infer cancelOn levels g e slot s).2 := by
  induction levels generalizing g e slot s with
  | zero =>
    rcases s.knows_or_open (.value e.id slot) with h | ⟨hc, hm⟩
    · obtain ⟨t, ht⟩ := p.infer_of_knows cancelOn h
      rw [p.course_of_knows _ h, ht]
      exact known g e slot s
    · rw [p.course_zero _ hc hm, p.infer_zero _ hc hm]
      exact deep g e slot s
  | succ levels ih =>
    rcases s.knows_or_open (.value e.id slot) with h | ⟨hc, hm⟩
    · obtain ⟨t, ht⟩ := p.infer_of_knows cancelOn h
      rw [p.course_of_knows _ h, ht]
      exact known g e slot s
    · rw [p.course_succ _ _ hc hm, p.infer_succ _ _ hc hm]
      exact work levels ih g e slot s _ hc hm rfl

end Program

/-! ## What happens in a course -/

/-- The steps of a plan are those of its questions, and those of its work under keys of its own. -/
lemma Plan.course_forall {A : Expr → Nat → Prop} {W : Key → Plan → Prop} {Q : Step → Prop}
    {infer : Infer} {course : Course} {cancelOn : Option String} {plan : Plan}
    (hplan : plan.Confined A W) (hwork : ∀ key body, W key body → ∀ st : Step, st.key = key → Q st)
    (hask : ∀ g e slot s, A e slot → ∀ st ∈ course g e slot s, Q st) (g : Guard) (s : Progress) :
    ∀ st ∈ plan.course infer course cancelOn g s, Q st := by
  induction plan generalizing g s with
  | answer t => exact fun _ h => absurd h List.not_mem_nil
  | ask e slot next ih =>
    rw [course_ask]
    exact List.forall_mem_append.2 ⟨hask g e slot s hplan.1, ih _ (hplan.2 _) g _⟩
  | within key body next ihb ihn =>
    obtain ⟨hkey, hbody, hnext⟩ := hplan
    have hown : ∀ st : Step, st.key = key → Q st := hwork key body hkey
    cases hk : g.enter? key with
    | none =>
      rw [course_within_of_mem _ _ _ _ hk]
      exact List.forall_mem_cons.2 ⟨hown _ rfl, ihn none (hnext none) g s⟩
    | some g' =>
      rw [course_within_of_enter _ _ _ _ hk]
      refine List.forall_mem_append.2 ⟨?_, ?_⟩
      · exact List.forall_mem_cons.2 ⟨hown _ rfl, ihb hbody g' s⟩
      · exact List.forall_mem_cons.2 ⟨hown _ rfl, ihn _ (hnext _) g _⟩
  | consult name next ih => exact ih hplan g _
  | lookUpModule found next ih => exact ih hplan g _

namespace Program

/-- What can happen in a query that asks for nothing but expressions and slots with `A`.  A step is
about the key of a member or of such an expression; and if an answer is kept, then an attempt on the
expression has found it while no other work on it was in progress. -/
inductive StepOf (p : Program) (cancelOn : Option String) (A : Expr → Nat → Prop) : Step → Prop
  | member {st : Step} {id : NodeId} (hkey : st.key = .member id) : StepOf p cancelOn A st
  | enter {e : Expr} {slot : Nat} (he : A e slot) : StepOf p cancelOn A (.enter (.value e.id slot))
  | leave {e : Expr} {slot : Nat} (he : A e slot) : StepOf p cancelOn A (.leave (.value e.id slot))
  | refuse {e : Expr} {slot : Nat} (he : A e slot) :
    StepOf p cancelOn A (.refuse (.value e.id slot))
  | tooDeep {e : Expr} {slot : Nat} (he : A e slot) :
    StepOf p cancelOn A (.tooDeep (.value e.id slot))
  | keep {e : Expr} {slot : Nat} (he : A e slot) (infer : Infer) {g : Guard} (s : Progress)
      (hg : .value e.id slot ∉ g) :
    StepOf p cancelOn A (.keep (.value e.id slot) (p.attempt cancelOn infer g e slot s).1)

variable {p : Program} {cancelOn : Option String} {A : Expr → Nat → Prop} {e : Expr} {slot : Nat}

/-- Where an answer for an expression comes from that is kept. -/
lemma StepOf.of_keep {node : NodeId} {t : Ty}
    (h : p.StepOf cancelOn A (.keep (.value node slot) t)) :
    ∃ e infer g s, A e slot ∧ e.id = node ∧ .value node slot ∉ g ∧
      t = (p.attempt cancelOn infer g e slot s).1 := by
  generalize hst : Step.keep (.value node slot) t = st at h
  cases h with
  | member hkey =>
    rw [← hst] at hkey
    cases hkey
  | keep he infer s hg =>
    simp only [Step.keep.injEq, Key.value.injEq] at hst
    obtain ⟨⟨rfl, rfl⟩, rfl⟩ := hst
    exact ⟨_, infer, _, s, he, rfl, hg, rfl⟩
  | _ => cases hst

lemma attemptCourse_steps (hA : (p.plan e slot).Confined A p.MemberWork) (he : A e slot)
    {infer : Infer} {course : Course}
    (hask : ∀ g e slot s, A e slot → ∀ st ∈ course g e slot s, p.StepOf cancelOn A st)
    (g : Guard) (s : Progress) :
    ∀ st ∈ p.attemptCourse cancelOn infer course g e slot s, p.StepOf cancelOn A st := by
  have hmember : ∀ key body, p.MemberWork key body →
      ∀ st : Step, st.key = key → p.StepOf cancelOn A st := by
    rintro _ _ ⟨d, -, -, -, rfl, -⟩ st hst
    exact .member hst
  have hplan : ∀ g, ∀ st ∈ (p.plan e slot).course infer course cancelOn g s,
      p.StepOf cancelOn A st := fun g => Plan.course_forall hA hmember hask g s
  by_cases hg : e.isGuarded = true
  · cases hk : g.enter? (.value e.id slot) with
    | none =>
      rw [p.attemptCourse_of_mem _ _ _ hg hk]
      exact List.forall_mem_singleton.2 (.refuse he)
    | some g' =>
      rw [p.attemptCourse_of_enter _ _ _ hg hk]
      refine List.forall_mem_append.2 ⟨?_, ?_⟩
      · exact List.forall_mem_cons.2 ⟨.enter he, hplan g'⟩
      · exact List.forall_mem_singleton.2 (.leave he)
  · rw [p.attemptCourse_of_unguarded _ _ _ (Bool.eq_false_of_not_eq_true hg)]
    exact hplan g

/-- The steps of a run are as they can be, if the expressions with `A` ask for such expressions
only. -/
theorem course_steps (hA : ∀ e slot, A e slot → (p.plan e slot).Confined A p.MemberWork)
    (levels : Nat) (g : Guard) (s : Progress) (he : A e slot) :
    ∀ st ∈ p.course cancelOn levels g e slot s, p.StepOf cancelOn A st := by
  refine p.course_induction cancelOn
    (R := fun _ e slot _ steps _ => A e slot → ∀ st ∈ steps, p.StepOf cancelOn A st)
    (fun _ _ _ _ _ _ h => absurd h List.not_mem_nil)
    (fun _ _ _ _ he => List.forall_mem_singleton.2 (.tooDeep he)) ?_ levels g e slot s he
  rintro levels ih g e slot s _ - - rfl he
  refine List.forall_mem_append.2 ⟨?_, ?_⟩
  · exact attemptCourse_steps (hA e slot he) he ih g _
  · unfold settleCourse
    split
    next hkeep => exact List.forall_mem_singleton.2 (.keep he _ _ hkeep.2.1)
    next => exact fun _ h => absurd h List.not_mem_nil

end Program

/-! ## The tally of a course -/

/-- The guard hits and depth hits between `s` and `s'` are those of the steps. -/
structure Counted (steps : List Step) (s s' : Progress) : Prop where
  guardHits : s'.work.guardHits = s.work.guardHits + steps.countP Step.isGuardHit
  depthHits : s'.work.depthHits = s.work.depthHits + steps.countP Step.isDepthHit

namespace Counted

variable {steps steps' : List Step} {s₁ s₂ s₃ : Progress}

lemma append (h : Counted steps s₁ s₂) (h' : Counted steps' s₂ s₃) :
    Counted (steps ++ steps') s₁ s₃ := by
  constructor
  · rw [h'.guardHits, h.guardHits, List.countP_append, Nat.add_assoc]
  · rw [h'.depthHits, h.depthHits, List.countP_append, Nat.add_assoc]

/-- A step that is no hit. -/
lemma cons {st : Step} (hg : st.isGuardHit = false) (hd : st.isDepthHit = false)
    (h : Counted steps s₁ s₂) : Counted (st :: steps) s₁ s₂ := by
  constructor
  · rw [h.guardHits, List.countP_cons_of_neg (by simp [hg])]
  · rw [h.depthHits, List.countP_cons_of_neg (by simp [hd])]

end Counted

/-- The hits of a plan are counted, if those of its questions are, and if it refuses no expression
by itself. -/
lemma Plan.counted {A : Expr → Nat → Prop} {W : Key → Plan → Prop} {infer : Infer}
    {course : Course} {cancelOn : Option String} {plan : Plan} (hplan : plan.Confined A W)
    (hW : ∀ key body, W key body → ∃ id, key = .member id)
    (hinfer : ∀ g e slot s, A e slot → Counted (course g e slot s) s (infer g e slot s).2)
    (g : Guard) (s : Progress) :
    Counted (plan.course infer course cancelOn g s) s (plan.run infer cancelOn g s).2 := by
  induction plan generalizing g s with
  | answer t => exact ⟨rfl, rfl⟩
  | ask e slot next ih => exact (hinfer g e slot s hplan.1).append (ih _ (hplan.2 _) g _)
  | within key body next ihb ihn =>
    obtain ⟨id, rfl⟩ := hW key body hplan.1
    cases hk : g.enter? (.member id) with
    | none =>
      rw [course_within_of_mem _ _ _ _ hk, run_within_of_mem _ _ _ hk]
      exact (ihn none (hplan.2.2 _) g s).cons rfl rfl
    | some g' =>
      rw [course_within_of_enter _ _ _ _ hk, run_within_of_enter _ _ _ hk]
      have hbody : Counted (.enter (.member id) :: body.course infer course cancelOn g' s) s
          (body.run infer cancelOn g' s).2 := (ihb hplan.2.1 g' s).cons rfl rfl
      have hnext := ihn _ (hplan.2.2 (some (body.run infer cancelOn g' s).1)) g
        (body.run infer cancelOn g' s).2
      exact hbody.append (hnext.cons rfl rfl)
  | consult name next ih =>
    obtain ⟨hg, hd⟩ := ih hplan g (s.consult cancelOn name)
    rw [Progress.consult_work] at hg hd
    exact ⟨hg, hd⟩
  | lookUpModule found next ih =>
    obtain ⟨hg, hd⟩ := ih hplan g (s.record (.resolution found))
    cases found <;> exact ⟨hg, hd⟩

namespace Program

variable {p : Program} {es : List Expr} {cancelOn : Option String} {e : Expr} {slot : Nat}

lemma settle_counted (g : Guard) (k : Key) (before : Nat) (t : Ty) (s : Progress) :
    Counted (settleCourse g k before t s) s (settle g k before t s) := by
  unfold settleCourse settle
  split <;> exact ⟨rfl, rfl⟩

lemma attempt_counted {infer : Infer} {course : Course} (he : p.Holds es e slot)
    (hinfer : ∀ g e slot s, p.Holds es e slot →
      Counted (course g e slot s) s (infer g e slot s).2) (g : Guard) (s : Progress) :
    Counted (p.attemptCourse cancelOn infer course g e slot s) s
      (p.attempt cancelOn infer g e slot s).2 := by
  have hW : ∀ key body, p.MemberWork key body → ∃ id, key = .member id := by
    rintro key body ⟨d, -, -, -, rfl, -⟩
    exact ⟨d.id, rfl⟩
  have hplan : ∀ g, Counted ((p.plan e slot).course infer course cancelOn g s) s
      ((p.plan e slot).run infer cancelOn g s).2 :=
    fun g => Plan.counted (plan_confined he) hW hinfer g s
  cases hg : e.isGuarded with
  | false =>
    rw [p.attemptCourse_of_unguarded _ _ _ hg, p.attempt_of_unguarded _ _ hg]
    exact hplan g
  | true =>
    cases hk : g.enter? (.value e.id slot) with
    | none =>
      rw [p.attemptCourse_of_mem _ _ _ hg hk, p.attempt_of_mem _ _ hg hk]
      exact ⟨rfl, rfl⟩
    | some g' =>
      rw [p.attemptCourse_of_enter _ _ _ hg hk, p.attempt_of_enter _ _ hg hk]
      have hend : Counted [.leave (.value e.id slot)] _ _ :=
        (⟨rfl, rfl⟩ : Counted [] _ ((p.plan e slot).run infer cancelOn g' s).2).cons rfl rfl
      exact ((hplan g').cons rfl rfl).append hend

lemma infer_counted (he : p.Holds es e slot) (levels : Nat) (g : Guard) (s : Progress) :
    Counted (p.course cancelOn levels g e slot s) s (p.infer cancelOn levels g e slot s).2 := by
  refine p.course_induction cancelOn
    (R := fun _ e slot s steps s' => p.Holds es e slot → Counted steps s s')
    (fun _ _ _ _ _ => ⟨rfl, rfl⟩) (fun _ _ _ _ _ => ⟨rfl, rfl⟩) ?_ levels g e slot s he
  rintro levels ih g e slot s _ - - rfl he
  have hstart : Counted [] s (s.look.record .expression) := ⟨rfl, rfl⟩
  have hattempt : Counted _ (s.look.record .expression)
      (p.attempt cancelOn (p.infer cancelOn levels) g e slot (s.look.record .expression)).2 :=
    attempt_counted he ih g (s.look.record .expression)
  exact hstart.append (hattempt.append (settle_counted _ _ _ _ _))

/-- The tally of a query counts exactly the expressions that the guard refuses, and the levels that
the depth limit refuses. -/
theorem hits_courseOf (p : Program) (e : Expr) :
    (p.typeOf e).2.guardHits = (p.courseOf e).countP Step.isGuardHit ∧
      (p.typeOf e).2.depthHits = (p.courseOf e).countP Step.isDepthHit := by
  have he : p.Holds [e] e 0 := ⟨mem_nodes_of_mem List.mem_cons_self, Nat.zero_le _⟩
  have hcount : Counted (p.courseOf e) (Progress.record ∅ .query)
      (p.infer none p.options.maxDepth ∅ e 0 (Progress.record ∅ .query)).2 :=
    infer_counted he p.options.maxDepth ∅ _
  exact ⟨hcount.guardHits.trans (Nat.zero_add _), hcount.depthHits.trans (Nat.zero_add _)⟩

end Program

end TypeQuery
