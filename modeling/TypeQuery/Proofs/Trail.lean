import TypeQuery.Proofs.Course

/-!
# Work in progress and answers in the memo

The guard holds the keys of the work in progress, and the memo the answers of finished work.  A
`Trail` is both together, as they stand after some of the steps of a course.  A course that is
followed to its end arrives where the run does (`Program.infer_follow`).  At no point on the way is a
key both in progress and in the memo, if none is at the start: work starts only where no answer is
kept, and an answer is kept only after its key has left the guard.  `Program.infer_passes` says so
for every run, cut short or not, cancelled or not.
-/

namespace TypeQuery

open Progress

/-- The key belongs to a declaration among the members of its module, not to an expression. -/
def Key.IsMember (k : Key) : Prop := ∃ id, k = .member id

lemma Program.MemberWork.isMember {p : Program} {key : Key} {body : Plan}
    (h : p.MemberWork key body) : key.IsMember := by
  obtain ⟨d, -, -, -, hkey, -⟩ := h
  exact ⟨d.id, hkey⟩

/-- The only work that an expression does under a key of its own is that of a member. -/
lemma Program.plan_members (p : Program) (e : Expr) (slot : Nat) :
    (p.plan e slot).Confined (fun _ _ => True) fun key _ => key.IsMember := by
  have he : e ∈ p.nodes [e] := mem_nodes_of_mem List.mem_cons_self
  exact (plan_confined_nodes he slot).mono (fun _ _ _ => trivial) fun _ _ hk => hk.isMember

/-! ## Where a query stands -/

/-- Where a query stands: the keys of the work in progress, and the answers that it has kept. -/
structure Trail where
  guard : Guard
  memo : Catalog Key Ty

namespace Trail

instance : EmptyCollection Trail := ⟨⟨∅, ∅⟩⟩

/-- Where a query stands after a step. -/
def step (tr : Trail) : Step → Trail
  | .enter k => { tr with guard := ⟨k :: tr.guard.inFlight⟩ }
  | .leave k => { tr with guard := tr.guard.release k }
  | .keep k t => { tr with memo := tr.memo.insert k t }
  | .refuse _ | .tooDeep _ => tr

/-- Where a query stands after some steps. -/
def follow (tr : Trail) (steps : List Step) : Trail := steps.foldl step tr

lemma follow_cons (tr : Trail) (st : Step) (steps : List Step) :
    tr.follow (st :: steps) = (tr.step st).follow steps := rfl

lemma follow_append (tr : Trail) (steps steps' : List Step) :
    tr.follow (steps ++ steps') = (tr.follow steps).follow steps' := List.foldl_append

/-- An answer in the memo was there before, or was kept on the way. -/
lemma memo_follow {tr : Trail} {steps : List Step} {k : Key} {t : Ty}
    (h : (tr.follow steps).memo.find? k = some t) :
    tr.memo.find? k = some t ∨ .keep k t ∈ steps := by
  induction steps generalizing tr with
  | nil => exact .inl h
  | cons st steps ih =>
    rcases ih h with hstep | hmem
    · cases st with
      | keep j u =>
        simp only [step, Catalog.find?_insert] at hstep
        split at hstep
        next hj =>
          cases hj
          cases hstep
          exact .inr List.mem_cons_self
        next => exact .inl hstep
      | _ => exact .inl hstep
    · exact .inr (List.mem_cons_of_mem _ hmem)

/-- No key is both in progress and in the memo.  A member is never in the memo, which is why its key
can be entered at any time. -/
structure Apart (tr : Trail) : Prop where
  inFlight : ∀ k ∈ tr.guard, tr.memo.find? k = none
  member : ∀ k : Key, k.IsMember → tr.memo.find? k = none

/-- The steps lead from `tr` to `tr'`, and keys in progress and keys in the memo stay apart. -/
inductive Passes : Trail → List Step → Trail → Prop
  | nil {tr : Trail} (h : tr.Apart) : Passes tr [] tr
  | cons {tr tr' : Trail} {st : Step} {steps : List Step} (h : tr.Apart)
      (hrest : Passes (tr.step st) steps tr') : Passes tr (st :: steps) tr'

namespace Passes

variable {tr₁ tr₂ tr₃ : Trail} {steps steps' : List Step}

lemma append (h : Passes tr₁ steps tr₂) (h' : Passes tr₂ steps' tr₃) :
    Passes tr₁ (steps ++ steps') tr₃ := by
  induction h with
  | nil _ => exact h'
  | cons hapart _ ih => exact .cons hapart (ih h')

lemma apart_end (h : Passes tr₁ steps tr₂) : tr₂.Apart := by
  induction h with
  | nil h => exact h
  | cons _ _ ih => exact ih

lemma follow_eq (h : Passes tr₁ steps tr₂) : tr₁.follow steps = tr₂ := by
  induction h with
  | nil _ => rfl
  | cons _ _ ih => exact ih

/-- Keys in progress and keys in the memo are apart at every point on the way. -/
lemma apart_of_isPrefix (h : Passes tr₁ steps tr₂) (hp : steps' <+: steps) :
    (tr₁.follow steps').Apart := by
  induction h generalizing steps' with
  | nil h =>
    rw [List.prefix_nil.1 hp]
    exact h
  | cons h _ ih =>
    rcases List.prefix_cons_iff.1 hp with rfl | ⟨rest, rfl, hrest⟩
    · exact h
    · exact ih hrest

end Passes

namespace Apart

variable {g g' : Guard} {k : Key} {memo : Catalog Key Ty}

/-- Work may start under a key that is not in the memo. -/
lemma enter (h : Apart ⟨g, memo⟩) (hk : g.enter? k = some g') (hm : memo.find? k = none) :
    Apart ⟨g', memo⟩ := by
  refine ⟨fun j hj => ?_, h.member⟩
  rcases (Guard.mem_of_enter? hk).1 hj with rfl | hj
  · exact hm
  · exact h.inFlight j hj

/-- Work may end at any time. -/
lemma leave (h : Apart ⟨g', memo⟩) (hk : g.enter? k = some g') : Apart ⟨g, memo⟩ :=
  ⟨fun j hj => h.inFlight j ((Guard.mem_of_enter? hk).2 (.inr hj)), h.member⟩

/-- An answer may be kept for an expression whose key is not in progress. -/
lemma keep (h : Apart ⟨g, memo⟩) {node : NodeId} {slot : Nat} (hk : .value node slot ∉ g)
    (t : Ty) : Apart ⟨g, memo.insert (.value node slot) t⟩ := by
  constructor
  · intro j hj
    have hne : .value node slot ≠ j := fun heq => hk (heq ▸ hj)
    rw [Catalog.find?_insert, if_neg hne]
    exact h.inFlight j hj
  · rintro j ⟨id, rfl⟩
    rw [Catalog.find?_insert, if_neg (by simp)]
    exact h.member _ ⟨id, rfl⟩

end Apart

section EnterLeave

variable {g g' : Guard} {k : Key} {memo memo' : Catalog Key Ty} {steps : List Step}
  (hk : g.enter? k = some g')
include hk

lemma step_enter : (⟨g, memo⟩ : Trail).step (.enter k) = ⟨g', memo⟩ := by
  rw [(Guard.enter?_eq_some.1 hk).2]
  rfl

lemma step_leave : (⟨g', memo⟩ : Trail).step (.leave k) = ⟨g, memo⟩ :=
  congrArg (Trail.mk · memo) (Guard.release_enter? hk)

/-- Work under a key that can be entered, between its entry and its end. -/
lemma follow_enter_leave (hwork : (⟨g', memo⟩ : Trail).follow steps = ⟨g', memo'⟩) :
    (⟨g, memo⟩ : Trail).follow (.enter k :: steps ++ [.leave k]) = ⟨g, memo'⟩ := by
  have hstart : (⟨g, memo⟩ : Trail).follow (.enter k :: steps) = ⟨g', memo'⟩ := by
    rw [follow_cons, step_enter hk, hwork]
  rw [follow_append, hstart]
  exact step_leave hk

lemma Passes.enter_leave (h : Apart ⟨g, memo⟩) (hwork : Passes ⟨g', memo⟩ steps ⟨g', memo'⟩) :
    Passes ⟨g, memo⟩ (.enter k :: steps ++ [.leave k]) ⟨g, memo'⟩ := by
  refine .cons h ?_
  rw [step_enter hk]
  refine hwork.append (.cons hwork.apart_end ?_)
  rw [step_leave hk]
  exact .nil (hwork.apart_end.leave hk)

end EnterLeave

end Trail

/-! ## Following a run -/

open Trail

/-- The steps lead to where the answers do. -/
lemma Plan.run_follow {infer : Infer} {course : Course} {cancelOn : Option String}
    (hinfer : ∀ g e slot s,
      (⟨g, s.memo⟩ : Trail).follow (course g e slot s) = ⟨g, (infer g e slot s).2.memo⟩)
    (plan : Plan) (g : Guard) (s : Progress) :
    (⟨g, s.memo⟩ : Trail).follow (plan.course infer course cancelOn g s) =
      ⟨g, (plan.run infer cancelOn g s).2.memo⟩ := by
  induction plan generalizing g s with
  | answer t => rfl
  | ask e slot next ih =>
    rw [course_ask, follow_append, hinfer]
    exact ih _ g _
  | within key body next ihb ihn =>
    cases hk : g.enter? key with
    | none =>
      rw [course_within_of_mem _ _ _ _ hk, run_within_of_mem _ _ _ hk]
      exact ihn none g s
    | some g' =>
      rw [course_within_of_enter _ _ _ _ hk, run_within_of_enter _ _ _ hk,
        List.append_cons, follow_append, follow_enter_leave hk (ihb g' s)]
      exact ihn _ g _
  | consult name next ih =>
    have hnext := ih g (s.consult cancelOn name)
    rw [consult_memo] at hnext
    exact hnext
  | lookUpModule found next ih => exact ih g (s.record (.resolution found))

namespace Program

variable (p : Program) (cancelOn : Option String)

lemma attempt_follow {infer : Infer} {course : Course}
    (hinfer : ∀ g e slot s,
      (⟨g, s.memo⟩ : Trail).follow (course g e slot s) = ⟨g, (infer g e slot s).2.memo⟩)
    (g : Guard) (e : Expr) (slot : Nat) (s : Progress) :
    (⟨g, s.memo⟩ : Trail).follow (p.attemptCourse cancelOn infer course g e slot s) =
      ⟨g, (p.attempt cancelOn infer g e slot s).2.memo⟩ := by
  by_cases hg : e.isGuarded = true
  · cases hk : g.enter? (.value e.id slot) with
    | none =>
      rw [p.attemptCourse_of_mem _ _ _ hg hk, p.attempt_of_mem _ _ hg hk]
      rfl
    | some g' =>
      rw [p.attemptCourse_of_enter _ _ _ hg hk, p.attempt_of_enter _ _ hg hk]
      exact follow_enter_leave hk (Plan.run_follow hinfer _ g' s)
  · rw [Bool.not_eq_true] at hg
    rw [p.attemptCourse_of_unguarded _ _ _ hg, p.attempt_of_unguarded _ _ hg]
    exact Plan.run_follow hinfer _ g s

lemma settle_follow (g : Guard) (k : Key) (before : Nat) (t : Ty) (s : Progress) :
    (⟨g, s.memo⟩ : Trail).follow (settleCourse g k before t s) =
      ⟨g, (settle g k before t s).memo⟩ := by
  unfold settleCourse settle
  split <;> rfl

/-- The course of a run leads to its memo, and back to the same guard. -/
theorem infer_follow (levels : Nat) (g : Guard) (e : Expr) (slot : Nat) (s : Progress) :
    (⟨g, s.memo⟩ : Trail).follow (p.course cancelOn levels g e slot s) =
      ⟨g, (p.infer cancelOn levels g e slot s).2.memo⟩ := by
  refine p.course_induction cancelOn
    (R := fun g _ _ s steps s' => (⟨g, s.memo⟩ : Trail).follow steps = ⟨g, s'.memo⟩)
    (fun _ _ _ _ => rfl) (fun _ _ _ _ => rfl) ?_ levels g e slot s
  rintro levels ih g e slot s _ - - rfl
  have hattempt : (⟨g, s.memo⟩ : Trail).follow _ = _ :=
    p.attempt_follow cancelOn ih g e slot (s.look.record .expression)
  rw [follow_append, hattempt]
  exact settle_follow _ _ _ _ _

end Program

/-! ## Apart on the way -/

/-- What an answer to a question leads through, whatever was in progress before. -/
def Infer.Passes (infer : Infer) (course : Course) : Prop :=
  ∀ g e slot s, Apart ⟨g, s.memo⟩ →
    Trail.Passes ⟨g, s.memo⟩ (course g e slot s) ⟨g, (infer g e slot s).2.memo⟩

lemma Plan.run_passes {infer : Infer} {course : Course} {cancelOn : Option String}
    (hinfer : infer.Passes course) {plan : Plan}
    (hplan : plan.Confined (fun _ _ => True) fun key _ => key.IsMember) (g : Guard) (s : Progress)
    (h : Apart ⟨g, s.memo⟩) :
    Trail.Passes ⟨g, s.memo⟩ (plan.course infer course cancelOn g s)
      ⟨g, (plan.run infer cancelOn g s).2.memo⟩ := by
  induction plan generalizing g s with
  | answer t => exact .nil h
  | ask e slot next ih =>
    have hask := hinfer g e slot s h
    exact hask.append (ih _ (hplan.2 _) g _ hask.apart_end)
  | within key body next ihb ihn =>
    cases hk : g.enter? key with
    | none =>
      rw [course_within_of_mem _ _ _ _ hk, run_within_of_mem _ _ _ hk]
      exact .cons h (ihn none (hplan.2.2 _) g s h)
    | some g' =>
      rw [course_within_of_enter _ _ _ _ hk, run_within_of_enter _ _ _ hk]
      have hbody := ihb hplan.2.1 g' s (h.enter hk (h.member key hplan.1))
      have hwork := Passes.enter_leave hk h hbody
      have hnext := ihn _ (hplan.2.2 (some (body.run infer cancelOn g' s).1)) g _ hwork.apart_end
      simpa using hwork.append hnext
  | consult name next ih =>
    have hnext := ih hplan g (s.consult cancelOn name)
    rw [consult_memo] at hnext
    exact hnext h
  | lookUpModule found next ih => exact ih hplan g (s.record (.resolution found)) h

namespace Program

variable (p : Program) (cancelOn : Option String)

lemma attempt_passes {infer : Infer} {course : Course} (hinfer : infer.Passes course) (g : Guard)
    (e : Expr) (slot : Nat) (s : Progress) (h : Apart ⟨g, s.memo⟩)
    (hm : s.memo.find? (.value e.id slot) = none) :
    Trail.Passes ⟨g, s.memo⟩ (p.attemptCourse cancelOn infer course g e slot s)
      ⟨g, (p.attempt cancelOn infer g e slot s).2.memo⟩ := by
  cases hg : e.isGuarded with
  | false =>
    rw [p.attemptCourse_of_unguarded _ _ _ hg, p.attempt_of_unguarded _ _ hg]
    exact Plan.run_passes hinfer (p.plan_members e slot) g s h
  | true =>
    cases hk : g.enter? (.value e.id slot) with
    | none =>
      rw [p.attemptCourse_of_mem _ _ _ hg hk, p.attempt_of_mem _ _ hg hk]
      exact .cons h (.nil h)
    | some g' =>
      rw [p.attemptCourse_of_enter _ _ _ hg hk, p.attempt_of_enter _ _ hg hk]
      exact Passes.enter_leave hk h
        (Plan.run_passes hinfer (p.plan_members e slot) g' s (h.enter hk hm))

lemma settle_passes {g : Guard} {node : NodeId} {slot : Nat} (before : Nat) (t : Ty)
    {s : Progress} (h : Apart ⟨g, s.memo⟩) :
    Trail.Passes ⟨g, s.memo⟩ (settleCourse g (.value node slot) before t s)
      ⟨g, (settle g (.value node slot) before t s).memo⟩ := by
  unfold settleCourse settle
  split
  next hkeep => exact .cons h (.nil (h.keep hkeep.2.1 t))
  next => exact .nil h

/-- Along every run, keys in progress and keys in the memo stay apart. -/
theorem infer_passes (levels : Nat) :
    Infer.Passes (p.infer cancelOn levels) (p.course cancelOn levels) := by
  refine p.course_induction cancelOn
    (R := fun g _ _ s steps s' => Apart ⟨g, s.memo⟩ → Passes ⟨g, s.memo⟩ steps ⟨g, s'.memo⟩)
    (fun _ _ _ _ h => .nil h) (fun _ _ _ _ h => .cons h (.nil h)) ?_ levels
  rintro levels ih g e slot s _ - hm rfl h
  have hattempt := p.attempt_passes cancelOn ih g e slot (s.look.record .expression) h hm
  exact hattempt.append (settle_passes _ _ hattempt.apart_end)

end Program

end TypeQuery
