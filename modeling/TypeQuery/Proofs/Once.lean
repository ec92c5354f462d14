import Mathlib.Data.Finset.Card
import TypeQuery.Proofs.Levels
import TypeQuery.Proofs.LookUps
import TypeQuery.Proofs.Trail

/-!
# No work is done twice

If a run is quiet, the work that it starts on an expression ends with a known answer: one in the
memo, or the `unknown` of a query that has been cancelled in between.  Where an answer is known, no
work starts again.  So a quiet run enters each expression at most once at each slot
(`Program.infer_once`), and `Program.work_starts_once` draws the conclusions for a query.

A run that the depth limit cuts short does enter expressions again, since an answer that it has cut
short is not kept.
-/

namespace TypeQuery

open Progress Trail Plan

/-- Between `s` and `s'`, work starts at most once on each expression and slot, never under a key of
`g`, and where it starts no answer is known before and one is known after. -/
structure Once (g : Guard) (s : Progress) (steps : List Step) (s' : Progress) : Prop where
  nodup : (entered steps).Nodup
  free : ∀ k ∈ entered steps, k ∉ g
  fresh : ∀ k ∈ entered steps, ¬ s.Knows k
  known : ∀ k ∈ entered steps, s'.Knows k
  keeps : ∀ k, s.Knows k → s'.Knows k

namespace Once

variable {g g' : Guard} {s s₁ s₂ s₃ : Progress} {steps steps' : List Step}

/-- Nothing is entered. -/
lemma of_entered_eq_nil (h : entered steps = []) (hkeeps : ∀ k, s₁.Knows k → s₂.Knows k) :
    Once g s₁ steps s₂ := by
  constructor <;> simp_all

lemma append (h : Once g s₁ steps s₂) (h' : Once g s₂ steps' s₃) :
    Once g s₁ (steps ++ steps') s₃ := by
  -- what is entered first is known by then, and what is entered later is not
  have hdisjoint : (entered steps).Disjoint (entered steps') :=
    fun k hk hk' => h'.fresh k hk' (h.known k hk)
  constructor
  case nodup =>
    rw [entered_append]
    exact h.nodup.append h'.nodup hdisjoint
  case keeps => exact fun k hk => h'.keeps k (h.keeps k hk)
  all_goals
    intro k hk
    rw [entered_append, List.mem_append] at hk
  case free => exact hk.elim (h.free k) (h'.free k)
  case fresh => exact hk.elim (h.fresh k) fun hk hs => h'.fresh k hk (h.keeps k hs)
  case known => exact hk.elim (fun hk => h'.keeps k (h.known k hk)) (h'.known k)

/-- Work under the key of a member, between its entry and its end. -/
lemma enter_member {k : Key} (hmember : k.IsMember) (hk : g.enter? k = some g')
    (h : Once g' s₁ steps s₂) : Once g s₁ (.enter k :: steps ++ [.leave k]) s₂ := by
  obtain ⟨id, rfl⟩ := hmember
  have hentered : entered (.enter (.member id) :: steps ++ [.leave (.member id)]) =
      entered steps := by
    rw [entered_append, entered_cons_of_none rfl, entered_cons_of_none rfl, entered_nil,
      List.append_nil]
  constructor
  case keeps => exact h.keeps
  all_goals rw [hentered]
  case nodup => exact h.nodup
  case free => exact fun j hj hg => h.free j hj ((Guard.mem_of_enter? hk).2 (.inr hg))
  case fresh => exact h.fresh
  case known => exact h.known

/-- Work on an expression without an answer, which leads to one. -/
lemma enter_value {node : NodeId} {slot : Nat} (hk : g.enter? (.value node slot) = some g')
    (hfresh : ¬ s.Knows (.value node slot)) (hstart : ∀ k, s.Knows k → s₁.Knows k)
    (h : Once g' s₁ steps s₂) (hend : ∀ k, s₂.Knows k → s₃.Knows k)
    (hknown : s₃.Knows (.value node slot)) (hsteps : entered steps' = []) :
    Once g s (.enter (.value node slot) :: steps ++ [.leave (.value node slot)] ++ steps') s₃ := by
  have hentered : entered
      (.enter (.value node slot) :: steps ++ [.leave (.value node slot)] ++ steps') =
        .value node slot :: entered steps := by
    rw [entered_append, entered_append, hsteps]
    simp [entered, Step.entered?]
  have hmem := fun k => Guard.mem_of_enter? (j := k) hk
  constructor
  case keeps => exact fun k hk => hend k (h.keeps k (hstart k hk))
  case nodup =>
    rw [hentered, List.nodup_cons]
    exact ⟨fun hin => h.free _ hin ((hmem _).2 (.inl rfl)), h.nodup⟩
  all_goals
    rw [hentered]
    intro k hin
    rcases List.mem_cons.1 hin with rfl | hin
  case free.inl => exact (Guard.enter?_eq_some.1 hk).1
  case free.inr => exact fun hg => h.free k hin ((hmem k).2 (.inr hg))
  case fresh.inl => exact hfresh
  case fresh.inr => exact fun hs => h.fresh k hin (hstart k hs)
  case known.inl => exact hknown
  case known.inr => exact hend k (h.known k hin)

end Once

lemma Progress.not_knows {s : Progress} {k : Key} (hc : s.cancelled = false)
    (hm : s.memo.find? k = none) : ¬ s.Knows k := by
  simp [Knows, hc, hm]

lemma Progress.knows_consult {s : Progress} {k : Key} (h : s.Knows k) (cancelOn : Option String)
    (name : String) : (s.consult cancelOn name).Knows k := by
  unfold consult
  split
  · exact .inl rfl
  · exact h

lemma Plan.run_once {infer : Infer} {course : Course} (cancelOn : Option String)
    (hgrows : infer.Grows)
    (hinfer : ∀ g e slot s, Quiet s (infer g e slot s).2 →
      Once g s (course g e slot s) (infer g e slot s).2)
    {plan : Plan} (hplan : plan.Confined (fun _ _ => True) fun key _ => key.IsMember) (g : Guard)
    (s : Progress) (hq : Quiet s (plan.run infer cancelOn g s).2) :
    Once g s (plan.course infer course cancelOn g s) (plan.run infer cancelOn g s).2 := by
  induction plan generalizing g s with
  | answer t => exact .of_entered_eq_nil rfl fun _ h => h
  | ask e slot next ih =>
    obtain ⟨hask, hnext⟩ := quiet_ask hgrows hq
    exact (hinfer g e slot s hask).append (ih _ (hplan.2 _) g _ hnext)
  | within key body next ihb ihn =>
    cases hk : g.enter? key with
    | none =>
      rw [run_within_of_mem _ _ _ hk] at hq ⊢
      rw [course_within_of_mem _ _ _ _ hk]
      have hrefuse : Once g s [.refuse key] s := .of_entered_eq_nil rfl fun _ h => h
      exact hrefuse.append (ihn none (hplan.2.2 _) g s hq)
    | some g' =>
      obtain ⟨hbody, hnext⟩ := quiet_within hgrows hk hq
      rw [course_within_of_enter _ _ _ _ hk, run_within_of_enter _ _ _ hk]
      have hwork := (ihb hplan.2.1 g' s hbody).enter_member hplan.1 hk
      simpa using hwork.append (ihn _ (hplan.2.2 _) g _ hnext)
  | consult name next ih =>
    have hstart : Once g s [] (s.consult cancelOn name) :=
      .of_entered_eq_nil rfl fun _ h => knows_consult h cancelOn name
    have hsame : Quiet (s.consult cancelOn name) (next.run infer cancelOn g
        (s.consult cancelOn name)).2 := hq.trans (consult_truncations s cancelOn name).symm
    exact hstart.append (ih hplan g _ hsame)
  | lookUpModule found next ih =>
    have hstart : Once g s [] (s.record (.resolution found)) := .of_entered_eq_nil rfl fun _ h => h
    exact hstart.append (ih hplan g _ hq)

namespace Program

variable (p : Program) (cancelOn : Option String)

lemma entered_settleCourse (g : Guard) (k : Key) (before : Nat) (t : Ty) (s : Progress) :
    entered (settleCourse g k before t s) = [] := by
  unfold settleCourse
  split <;> rfl

lemma knows_settle {s : Progress} {j : Key} (h : s.Knows j) (g : Guard) (k : Key) (before : Nat)
    (t : Ty) : (settle g k before t s).Knows j := by
  unfold settle
  split
  · refine (knows_look h).imp_right fun ⟨t', ht'⟩ => ?_
    show ∃ t'', (s.memo.insert k t).find? j = some t''
    rw [Catalog.find?_insert]
    split
    · exact ⟨t, rfl⟩
    · exact ⟨t', ht'⟩
  · exact h

/-- Quiet work that is not in progress elsewhere ends with a known answer. -/
lemma knows_settle_self {s : Progress} {g : Guard} {k : Key} (hk : k ∉ g) (t : Ty) :
    (settle g k s.truncations t s).Knows k := by
  cases hc : s.cancelled with
  | true =>
    refine knows_settle (.inl hc) g k _ t
  | false =>
    refine .inr ⟨t, ?_⟩
    rw [settle, if_pos ⟨rfl, hk, hc⟩]
    exact Catalog.find?_insert_self _ _ _

/-- A quiet run enters each expression at most once at each slot. -/
theorem infer_once (levels : Nat) (g : Guard) (e : Expr) (slot : Nat) (s : Progress)
    (hq : Quiet s (p.infer cancelOn levels g e slot s).2) :
    Once g s (p.course cancelOn levels g e slot s) (p.infer cancelOn levels g e slot s).2 := by
  refine p.course_induction cancelOn (R := fun g _ _ s steps s' => Quiet s s' → Once g s steps s')
    (fun _ _ _ _ _ => .of_entered_eq_nil rfl fun _ h => knows_look h)
    (fun _ _ _ _ _ => .of_entered_eq_nil rfl fun _ h => knows_look h) ?_ levels g e slot s hq
  rintro levels ih g e slot s _ hc hm rfl hq
  have hstart : ∀ k, s.Knows k → (s.look.record .expression).Knows k := fun _ h => knows_look h
  have hlook : Once g s [] (s.look.record .expression) := .of_entered_eq_nil rfl hstart
  -- settling notes no truncation, so the attempt is as quiet as the whole
  have hattempt : Quiet (s.look.record .expression)
      (p.attempt cancelOn (p.infer cancelOn levels) g e slot (s.look.record .expression)).2 :=
    (settle_truncations _ _ _ _ _).symm.trans hq
  have hplan := fun g' => Plan.run_once cancelOn (p.infer_grows cancelOn levels) ih
    (p.plan_members e slot) g' (s.look.record .expression)
  cases hg : e.isGuarded with
  | false =>
    rw [p.attempt_of_unguarded _ _ hg] at hattempt ⊢
    rw [p.attemptCourse_of_unguarded _ _ _ hg]
    refine hlook.append ((hplan g hattempt).append (.of_entered_eq_nil ?_ fun k hk => ?_))
    · exact entered_settleCourse _ _ _ _ _
    · exact knows_settle hk _ _ _ _
  | true =>
    cases hk : g.enter? (.value e.id slot) with
    | none =>
      rw [p.attemptCourse_of_mem _ _ _ hg hk, p.attempt_of_mem _ _ hg hk]
      refine .of_entered_eq_nil ?_ fun k hk => ?_
      · exact (entered_cons_of_none rfl _).trans (entered_settleCourse _ _ _ _ _)
      · have hhit : ((s.look.record .expression).record .guardHit).Knows k := hstart k hk
        exact knows_settle hhit _ _ _ _
    | some g' =>
      rw [p.attempt_of_enter _ _ hg hk] at hattempt ⊢
      rw [p.attemptCourse_of_enter _ _ _ hg hk]
      -- the look at the start may be the last that finds nothing, so what is fresh is so before it
      refine Once.enter_value hk (not_knows hc hm) hstart (hplan g' hattempt)
        (fun k hk => knows_settle hk _ _ _ _) ?_ (entered_settleCourse _ _ _ _ _)
      have hbefore : s.truncations = _ := hattempt.symm
      rw [hbefore]
      exact knows_settle_self (Guard.enter?_eq_some.1 hk).1 _

/-- What happens in a query that may be cancelled: from outside at any time, or by looking up a
name. -/
def courseOfCancellable (p : Program) (cancelOn : Option String) (patience : Option Nat)
    (e : Expr) : List Step :=
  p.course cancelOn p.options.maxDepth ∅ e 0
    (Progress.record { (∅ : Progress) with patience } .query)

/-- A query that the depth limit does not cut short starts the work on each expression at most once
at each slot, and so looks up modules at most once for each call of a loading function and slot that
it reaches.  At every point of every query, no key is both in progress and in the memo; following
the course of the query to its end leads to an empty guard and the memo of the run. -/
theorem work_starts_once (p : Program) (e : Expr) :
    ((p.typeOf e).2.depthHits = 0 →
      (entered (p.courseOf e)).Nodup ∧
        (p.typeOf e).2.resolutions ≤
          ((entered (p.courseOf e)).toFinset.filter fun k => p.isLoadKey [e] k).card) ∧
    ∀ cancelOn patience,
      (∅ : Trail).follow (p.courseOfCancellable cancelOn patience e) =
          ⟨∅, (p.infer cancelOn p.options.maxDepth ∅ e 0
            (Progress.record { (∅ : Progress) with patience } .query)).2.memo⟩ ∧
        ∀ steps, steps <+: p.courseOfCancellable cancelOn patience e →
          ∀ k ∈ ((∅ : Trail).follow steps).guard,
            ((∅ : Trail).follow steps).memo.find? k = none := by
  constructor
  · intro hdepth
    have hq := p.depthHits_typeOf_eq_zero.1 hdepth
    have hnodup : (entered (p.courseOf e)).Nodup := (p.infer_once none _ _ _ _ _ hq).nodup
    have hlook : p.LookUps [e] (Progress.record ∅ .query) (p.courseOf e) _ :=
      infer_lookUps none p.options.maxDepth ∅ 0 _ (mem_nodes_of_mem List.mem_cons_self)
    refine ⟨hnodup, ?_⟩
    calc (p.typeOf e).2.resolutions
        ≤ 0 + (entered (p.courseOf e)).countP (p.isLoadKey [e]) := hlook
      _ = ((entered (p.courseOf e)).filter (p.isLoadKey [e])).length := by
        rw [Nat.zero_add, List.countP_eq_length_filter]
      _ = ((entered (p.courseOf e)).toFinset.filter fun k => p.isLoadKey [e] k).card := by
        rw [← List.toFinset_filter, List.toFinset_card_of_nodup (hnodup.filter _)]
  · intro cancelOn patience
    have hempty : Apart ∅ := ⟨fun _ _ => rfl, fun _ _ => rfl⟩
    have hpasses := p.infer_passes cancelOn p.options.maxDepth ∅ e 0
      (Progress.record { (∅ : Progress) with patience } .query) hempty
    exact ⟨hpasses.follow_eq, fun steps hsteps => (hpasses.apart_of_isPrefix hsteps).inFlight⟩

/-- A local variable that holds a module, named twice. -/
def sharedLoad : Program :=
  let m : Declaration :=
    { Declaration.localName ⟨0, 6⟩ "m" with
      value := some ⟨[.call ⟨0, 5⟩ (.name ⟨0, 3⟩ "require") [.literal ⟨0, 4⟩ (.string "")]], 0⟩ }
  { ofReferences [(⟨0, 0⟩, m), (⟨0, 1⟩, m)] with options := {} }

theorem sharedLoad_once :
    let e := Expr.binary ⟨0, 2⟩ .or (.name ⟨0, 0⟩ "m") (some (.name ⟨0, 1⟩ "m"))
    (sharedLoad.typeOf e).2.depthHits = 0 ∧ (sharedLoad.typeOf e).2.resolutions = 1 ∧
      (entered (sharedLoad.courseOf e)).Nodup ∧
      (sharedLoad.typeOf e).2.resolutions ≤ ((entered (sharedLoad.courseOf e)).toFinset.filter
        fun k => sharedLoad.isLoadKey [e] k).card := by
  intro e
  have hdepth : (sharedLoad.typeOf e).2.depthHits = 0 := by decide
  exact ⟨hdepth, by decide, (work_starts_once sharedLoad e).1 hdepth⟩

end Program

end TypeQuery
