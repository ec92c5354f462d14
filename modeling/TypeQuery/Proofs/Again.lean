import TypeQuery.Proofs.Lattice
import TypeQuery.Proofs.Trail

/-!
# Asking again

A quiet run has settled everything that it has asked for.  An expression whose work was not in
progress is in the memo by then; one whose work was in progress is refused by the guard, and will be
refused for as long as that work goes on.  So the same question under the same guard has the same
answer at any later time, and leaves nothing behind but counts (`Program.infer_again`), and the same
holds of a plan (`Plan.run_again`).

It follows that a join over plans does not change if some of the plans are carried out again at its
end (`Plan.run_join_append_copies`).

This needs a query as it comes about by itself: one that is not cancelled, and has no answer under a
key in progress.  `Progress.InOrder` says so, and every run keeps it.
-/

namespace TypeQuery

open Progress Trail

namespace Progress

lemma Same.symm {s s' : Progress} (h : Same s s') : Same s' s :=
  ⟨h.memo.symm, h.truncations.symm, h.patience.symm⟩

lemma Same.trans {s₁ s₂ s₃ : Progress} (h : Same s₁ s₂) (h' : Same s₂ s₃) : Same s₁ s₃ :=
  ⟨h.memo.trans h'.memo, h.truncations.trans h'.truncations, h.patience.trans h'.patience⟩

/-- Counting changes nothing else. -/
lemma same_record (s : Progress) (event : Event) : Same s (s.record event) := ⟨rfl, rfl, rfl⟩

lemma Extends.same {s₁ s₂ s₃ : Progress} (h : Extends s₁ s₂) (h' : Same s₂ s₃) : Extends s₁ s₃ :=
  ⟨h'.truncations ▸ h.truncations_le, h'.memo ▸ h.memo⟩

/-- With the keys of `g` in progress, the query may stand at `s`, and nobody cancels it. -/
structure InOrder (g : Guard) (s : Progress) : Prop where
  running : s.patience = none
  apart : Apart ⟨g, s.memo⟩

end Progress

/-- The plan works under no keys but those of members. -/
def Plan.OnlyMembers (plan : Plan) : Prop :=
  plan.Confined (fun _ _ => True) fun key _ => key.IsMember

lemma Plan.onlyMembers_of_holds (p : Program) {plan : Plan}
    (h : plan.Confined (p.Holds []) p.MemberWork) : plan.OnlyMembers :=
  h.mono (fun _ _ _ => trivial) fun _ _ hk => hk.isMember

namespace Progress.InOrder

variable {g g' : Guard} {s s' : Progress} {k : Key}

lemma same (h : InOrder g s) (hs : Same s s') : InOrder g s' :=
  ⟨hs.patience ▸ h.running, hs.memo ▸ h.apart⟩

/-- Work starts under a key without an answer. -/
lemma enter (h : InOrder g s) (hk : g.enter? k = some g') (hm : s.memo.find? k = none) :
    InOrder g' s :=
  ⟨h.running, h.apart.enter hk hm⟩

/-- Work starts on a member. -/
lemma enter_member (h : InOrder g s) (hk : g.enter? k = some g') (hmember : k.IsMember) :
    InOrder g' s :=
  h.enter hk (h.apart.member k hmember)

/-- Work ends. -/
lemma leave (h : InOrder g' s) (hk : g.enter? k = some g') : InOrder g s :=
  ⟨h.running, h.apart.leave hk⟩

lemma infer (h : InOrder g s) (p : Program) (levels : Nat) (e : Expr) (slot : Nat) :
    InOrder g (p.infer none levels g e slot s).2 :=
  ⟨patience_kept.infer p levels g e slot s h.running,
    (p.infer_passes none levels g e slot s h.apart).apart_end⟩

lemma run (h : InOrder g s) (p : Program) (levels : Nat) {plan : Plan}
    (hplan : plan.OnlyMembers) : InOrder g (plan.run (p.infer none levels) none g s).2 :=
  ⟨patience_kept.run (patience_kept.infer p levels) plan g s h.running,
    (Plan.run_passes (p.infer_passes none levels) hplan g s h.apart).apart_end⟩

end Progress.InOrder

/-! ## Settled work -/

/-- From `s` on, the work has the answer `t`: carrying it out changes nothing but counts. -/
def Settled (g : Guard) (work : Progress → Ty × Progress) (t : Ty) (s : Progress) : Prop :=
  ∀ s', Extends s s' → InOrder g s' → Alike (work s') (t, s')

lemma Settled.mono {g : Guard} {work : Progress → Ty × Progress} {t : Ty} {s₁ s₂ : Progress}
    (h : Settled g work t s₁) (hext : Extends s₁ s₂) : Settled g work t s₂ :=
  fun s' hs' => h s' ((extends_kept none).trans hext hs')

/-- A plan settles if its questions do. -/
lemma Plan.run_settles {p : Program} {levels : Nat}
    (hinfer : ∀ g e slot s, InOrder g s → Quiet s (p.infer none levels g e slot s).2 →
      Settled g (p.infer none levels g e slot) (p.infer none levels g e slot s).1
        (p.infer none levels g e slot s).2)
    {plan : Plan} (hplan : plan.OnlyMembers) {g : Guard} {s : Progress} (h : InOrder g s)
    (hq : Quiet s (plan.run (p.infer none levels) none g s).2) :
    Settled g (plan.run (p.infer none levels) none g)
      (plan.run (p.infer none levels) none g s).1
      (plan.run (p.infer none levels) none g s).2 := by
  have hgrows := p.infer_grows none levels
  induction plan generalizing g s with
  | answer t => exact fun s' _ _ => ⟨rfl, rfl, rfl, rfl⟩
  | ask e slot next ih =>
    obtain ⟨hask, hnext⟩ := quiet_ask hgrows hq
    intro s' hext h'
    have hext₁ : Extends (p.infer none levels g e slot s).2 s' :=
      (extends_kept none).trans (run_extends hgrows (next _)) hext
    obtain ⟨ht, hs⟩ := hinfer g e slot s h hask s' hext₁ h'
    have hrest := ih _ (hplan.2 _) (h.infer p levels e slot) hnext _ (hext.same hs.symm)
      (h'.same hs.symm)
    rw [run_ask, ht]
    exact ⟨hrest.1, hrest.2.trans hs⟩
  | within key body next ihb ihn =>
    cases hk : g.enter? key with
    | none =>
      rw [run_within_of_mem _ _ _ hk] at hq ⊢
      intro s' hext h'
      rw [run_within_of_mem _ _ _ hk]
      exact ihn none (hplan.2.2 _) h hq s' hext h'
    | some g' =>
      obtain ⟨hbody, hnext⟩ := quiet_within hgrows hk hq
      rw [run_within_of_enter _ _ _ hk] at hq ⊢
      intro s' hext h'
      have hstart := h.enter_member hk hplan.1
      have hext₁ := (extends_kept none).trans (run_extends hgrows _) hext
      obtain ⟨ht, hs⟩ := ihb hplan.2.1 hstart hbody s' hext₁ (h'.enter_member hk hplan.1)
      have hafter := (hstart.run p levels hplan.2.1).leave hk
      have hrest := ihn _ (hplan.2.2 _) hafter hnext _ (hext.same hs.symm) (h'.same hs.symm)
      rw [run_within_of_enter _ _ _ hk, ht]
      exact ⟨hrest.1, hrest.2.trans hs⟩
  | consult name next ih =>
    rw [run_consult, consult_none] at hq ⊢
    intro s' hext h'
    rw [run_consult, consult_none]
    exact ih hplan h hq s' hext h'
  | lookUpModule found next ih =>
    intro s' hext h'
    have hrecord := same_record s' (.resolution found)
    have hrest := ih hplan (h.same (same_record s _)) hq _ (hext.same hrecord) (h'.same hrecord)
    exact ⟨hrest.1, hrest.2.trans hrecord.symm⟩

namespace Program

variable {p : Program} {levels : Nat} {g : Guard} {e : Expr} {slot : Nat} {s : Progress}

/-- The answer of a quiet run is in the memo, unless work under its key was in progress. -/
lemma find?_infer (hc : s.patience = none) (hk : .value e.id slot ∉ g)
    (hq : Quiet s (p.infer none levels g e slot s).2) :
    (p.infer none levels g e slot s).2.memo.find? (.value e.id slot) =
      some (p.infer none levels g e slot s).1 := by
  cases hm : s.memo.find? (.value e.id slot) with
  | some t => rwa [p.infer_of_memo_patient none hc levels hm]
  | none =>
    cases levels with
    | zero => exact absurd hq (p.not_quiet_infer_zero (cancelled_of_patient hc) hm)
    | succ levels =>
      have hend := patience_kept.attempt p (patience_kept.infer p levels) g e slot
        (s.record .expression) hc
      rw [p.infer_succ_patient none hc levels hm] at hq ⊢
      rw [Quiet, settle_truncations] at hq
      rw [settle_patient hend hk _ hq]
      exact Catalog.find?_insert_self _ _ _

/-- An expression that is not guarded is worked on even while its key is in progress. -/
lemma infer_of_mem_of_unguarded (hc : s.patience = none)
    (hm : s.memo.find? (.value e.id slot) = none) (hg : e.isGuarded = false)
    (hk : .value e.id slot ∈ g) :
    p.infer none (levels + 1) g e slot s =
      (p.plan e slot).run (p.infer none levels) none g (s.record .expression) := by
  rw [p.infer_succ_patient none hc levels hm, p.attempt_of_unguarded _ _ hg, settle,
    if_neg fun hkeep => hkeep.2.1 hk]

/-- Asking again, under the same guard, gives the same answer. -/
theorem infer_again (h : InOrder g s) (hq : Quiet s (p.infer none levels g e slot s).2) :
    Settled g (p.infer none levels g e slot) (p.infer none levels g e slot s).1
      (p.infer none levels g e slot s).2 := by
  induction levels generalizing g e slot s with
  | zero =>
    cases hm : s.memo.find? (.value e.id slot) with
    | some t =>
      intro s' hext h'
      rw [p.infer_of_memo_patient none h.running 0 hm] at hext ⊢
      rw [p.infer_of_memo_patient none h'.running 0 (hext.memo _ _ hm)]
      exact ⟨rfl, rfl, rfl, rfl⟩
    | none => exact absurd hq (p.not_quiet_infer_zero (cancelled_of_patient h.running) hm)
  | succ levels ih =>
    intro s' hext h'
    by_cases hk : .value e.id slot ∈ g
    · have hm := h.apart.inFlight _ hk
      have hm' := h'.apart.inFlight _ hk
      cases hg : e.isGuarded with
      | true =>
        rw [p.infer_of_mem_patient none h.running levels hm hg hk,
          p.infer_of_mem_patient none h'.running levels hm' hg hk]
        exact ⟨rfl, rfl, rfl, rfl⟩
      | false =>
        rw [infer_of_mem_of_unguarded h.running hm hg hk] at hq hext ⊢
        rw [infer_of_mem_of_unguarded h'.running hm' hg hk]
        have hrecord := same_record s' .expression
        have hplan := Plan.run_settles (fun g e slot s => ih) (p.plan_members e slot)
          (h.same (same_record s .expression)) hq _ (hext.same hrecord) (h'.same hrecord)
        exact ⟨hplan.1, hplan.2.trans hrecord.symm⟩
    · have hkept := hext.memo _ _ (find?_infer h.running hk hq)
      rw [p.infer_of_memo_patient none h'.running (levels + 1) hkept]
      exact ⟨rfl, rfl, rfl, rfl⟩

end Program

namespace Plan

variable {p : Program} {levels : Nat} {g : Guard} {s : Progress}

/-- Carrying out a plan again, under the same guard, gives the same answer. -/
lemma run_again {plan : Plan} (hplan : plan.OnlyMembers) (h : InOrder g s)
    (hq : Quiet s (plan.run (p.infer none levels) none g s).2) :
    Settled g (plan.run (p.infer none levels) none g)
      (plan.run (p.infer none levels) none g s).1
      (plan.run (p.infer none levels) none g s).2 :=
  run_settles (fun _ _ _ _ => Program.infer_again) hplan h hq

/-! ## Lists of plans -/

/-- Carries out plans one after the other. -/
def runAll (infer : Infer) (cancelOn : Option String) (g : Guard) :
    List Plan → Progress → List Ty × Progress
  | [], s => ([], s)
  | plan :: plans, s =>
    let (t, s) := plan.run infer cancelOn g s
    let (ts, s) := runAll infer cancelOn g plans s
    (t :: ts, s)

section

variable {infer : Infer} {cancelOn : Option String}

lemma runAll_cons (plan : Plan) (plans : List Plan) :
    runAll infer cancelOn g (plan :: plans) s =
      ((plan.run infer cancelOn g s).1 ::
          (runAll infer cancelOn g plans (plan.run infer cancelOn g s).2).1,
        (runAll infer cancelOn g plans (plan.run infer cancelOn g s).2).2) := rfl

lemma run_collect (plans : List Plan) (k : List Ty → Plan) :
    (collect plans k).run infer cancelOn g s =
      (k (runAll infer cancelOn g plans s).1).run infer cancelOn g
        (runAll infer cancelOn g plans s).2 := by
  induction plans generalizing k s with
  | nil => rfl
  | cons plan plans ih => rw [collect, run_bind, ih, runAll_cons]

lemma run_join (plans : List Plan) :
    (join plans).run infer cancelOn g s =
      (Ty.joinAll (runAll infer cancelOn g plans s).1, (runAll infer cancelOn g plans s).2) :=
  run_collect plans _

lemma runAll_append (plans plans' : List Plan) :
    runAll infer cancelOn g (plans ++ plans') s =
      ((runAll infer cancelOn g plans s).1 ++
          (runAll infer cancelOn g plans' (runAll infer cancelOn g plans s).2).1,
        (runAll infer cancelOn g plans' (runAll infer cancelOn g plans s).2).2) := by
  induction plans generalizing s with
  | nil => rfl
  | cons plan plans ih => rw [List.cons_append, runAll_cons, ih, runAll_cons, List.cons_append]

lemma runAll_extends (hinfer : infer.Grows) (plans : List Plan) :
    Extends s (runAll infer cancelOn g plans s).2 := by
  induction plans generalizing s with
  | nil => exact (extends_kept cancelOn).refl s
  | cons plan plans ih => exact (extends_kept cancelOn).trans (run_extends hinfer plan) ih

end

lemma runAll_inOrder {plans : List Plan} (hplans : ∀ plan ∈ plans, plan.OnlyMembers)
    (h : InOrder g s) :
    InOrder g (runAll (p.infer none levels) none g plans s).2 := by
  induction plans generalizing s with
  | nil => exact h
  | cons plan plans ih =>
    obtain ⟨hplan, hrest⟩ := List.forall_mem_cons.1 hplans
    exact ih hrest (h.run p levels hplan)

/-- Plans that are carried out one after the other are all settled in the end. -/
lemma runAll_again {plans : List Plan} (hplans : ∀ plan ∈ plans, plan.OnlyMembers)
    (h : InOrder g s) (hq : Quiet s (runAll (p.infer none levels) none g plans s).2) :
    ∀ plan ∈ plans, ∃ t ∈ (runAll (p.infer none levels) none g plans s).1,
      Settled g (plan.run (p.infer none levels) none g) t
        (runAll (p.infer none levels) none g plans s).2 := by
  have hgrows := p.infer_grows none levels
  induction plans generalizing s with
  | nil => simp
  | cons plan plans ih =>
    obtain ⟨hplan, hrest⟩ := List.forall_mem_cons.1 hplans
    obtain ⟨hq₁, hq₂⟩ := hq.split (run_extends hgrows plan) (runAll_extends hgrows plans)
    refine List.forall_mem_cons.2 ⟨⟨_, List.mem_cons_self, ?_⟩, fun q hqs => ?_⟩
    · exact (run_again hplan h hq₁).mono (runAll_extends hgrows plans)
    · obtain ⟨t, ht, hsettled⟩ := ih hrest (h.run p levels hplan) hq₂ q hqs
      exact ⟨t, List.mem_cons_of_mem _ ht, hsettled⟩

/-- Carrying out settled plans gives nothing but the answers that they have. -/
lemma runAll_of_settled {ts : List Ty} {s₀ : Progress} {plans : List Plan}
    (hplans : ∀ plan ∈ plans, ∃ t ∈ ts,
      Settled g (plan.run (p.infer none levels) none g) t s₀)
    (hext : Extends s₀ s) (h : InOrder g s) :
    (∀ t ∈ (runAll (p.infer none levels) none g plans s).1, t ∈ ts) ∧
      Same (runAll (p.infer none levels) none g plans s).2 s := by
  induction plans generalizing s with
  | nil => exact ⟨by simp [runAll], rfl, rfl, rfl⟩
  | cons plan plans ih =>
    obtain ⟨⟨t, ht, hsettled⟩, hrest⟩ := List.forall_mem_cons.1 hplans
    obtain ⟨heq, hs⟩ := hsettled s hext h
    obtain ⟨hmem, hend⟩ := ih hrest (hext.same hs.symm) (h.same hs.symm)
    rw [runAll_cons]
    exact ⟨List.forall_mem_cons.2 ⟨heq ▸ ht, hmem⟩, hend.trans hs⟩

/-- If some of the plans are carried out again at the end of a join, the join does not change. -/
theorem run_join_append_copies {plans copies : List Plan}
    (hplans : ∀ plan ∈ plans, plan.OnlyMembers) (hcopies : copies ⊆ plans) (h : InOrder g s)
    (hts : ∀ t ∈ (runAll (p.infer none levels) none g plans s).1, t.Canonical)
    (hq : Quiet s ((join plans).run (p.infer none levels) none g s).2) :
    Alike ((join plans).run (p.infer none levels) none g s)
      ((join (plans ++ copies)).run (p.infer none levels) none g s) := by
  rw [run_join] at hq
  have hsettled := runAll_again hplans h hq
  obtain ⟨hmem, hs⟩ := runAll_of_settled (fun plan hplan => hsettled plan (hcopies hplan))
    ((extends_kept none).refl _) (runAll_inOrder hplans h)
  rw [run_join, run_join, runAll_append]
  refine ⟨Ty.joinAll_congr hts fun t => ?_, hs.symm⟩
  rw [List.mem_append]
  exact ⟨.inl, fun ht => ht.elim id (hmem t)⟩

end Plan

end TypeQuery
