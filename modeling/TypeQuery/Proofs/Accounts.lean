import TypeQuery.Proofs.LookUps
import TypeQuery.Workspace

/-!
# The accounts of a workspace

A workspace counts what happens in its queries: when a query starts, when an expression is worked on,
when the guard refuses one, when a module is looked up, with or without success, when an expression
lies too deep, and when a query ends cancelled.  The events are counted in different places of the
recursion, but they belong together: a refusal by the guard, or a look-up of a module, is part of
the work on one expression, and no expression has both.

The work on an expression is counted first, which pays for at most one refusal or look-up later.
`Covered credit s s'` keeps this account between two points of a run: what is not paid for by
expressions in between is at most the credit.  A plan without look-ups needs no credit
(`Plan.run_covered`), an attempt needs one (`Program.attempt_covered`), and counting the expression
makes up for it, so a whole run needs none (`Program.infer_covered`).

The counts of a workspace are sums over its queries since they were last started anew, so what holds
of each query holds of the workspace after every series of requests (`Workspace.tally_accounts`).
Counts are natural numbers here, and a counter of fixed width shows them as long as it does not wrap.
-/

namespace TypeQuery

open Progress

/-! ## The account of a run -/

/-- From `s` to `s'`, refusals by the guard and look-ups of modules are covered by expressions and
the credit, failures are covered by look-ups, and no query starts or ends cancelled. -/
structure Covered (credit : Nat) (s s' : Progress) : Prop where
  expressions : s'.work.guardHits + s'.work.resolutions + s.work.expressions ≤
    s.work.guardHits + s.work.resolutions + s'.work.expressions + credit
  resolutions : s'.work.failures + s.work.resolutions ≤ s.work.failures + s'.work.resolutions
  queries : s'.work.queries = s.work.queries
  cancellations : s'.work.cancellations = s.work.cancellations

namespace Covered

variable {s s₁ s₂ s₃ : Progress} {m n : Nat}

lemma of_work_eq (h : s₂.work = s₁.work) : Covered 0 s₁ s₂ := by
  constructor <;> rw [h]
  rfl

lemma trans (h : Covered m s₁ s₂) (h' : Covered n s₂ s₃) : Covered (m + n) s₁ s₃ where
  expressions := by
    have h₁ := h.expressions
    have h₂ := h'.expressions
    omega
  resolutions := by
    have h₁ := h.resolutions
    have h₂ := h'.resolutions
    omega
  queries := h'.queries.trans h.queries
  cancellations := h'.cancellations.trans h.cancellations

/-- Counting an expression gives a credit of one. -/
lemma of_expression (h : Covered 1 (s₁.record .expression) s₂) : Covered 0 s₁ s₂ where
  expressions := by
    have hcount : (s₁.record .expression).work.expressions = s₁.work.expressions + 1 := rfl
    have hcovered : _ ≤ s₁.work.guardHits + s₁.work.resolutions + _ + 1 := h.expressions
    omega
  resolutions := h.resolutions
  queries := h.queries
  cancellations := h.cancellations

lemma guardHit (s : Progress) : Covered 1 s (s.record .guardHit) := by
  constructor <;> simp only [Progress.record, Tally.record] <;> omega

lemma resolution (found : Bool) (s : Progress) :
    Covered 1 s (s.record (.resolution found)) := by
  cases found <;> constructor <;> simp only [Progress.record, Tally.record] <;> omega

end Covered

/-- A plan that looks up no module needs no credit, if its questions need none. -/
lemma Plan.run_covered {infer : Infer} {cancelOn : Option String}
    (hinfer : ∀ g e slot s, Covered 0 s (infer g e slot s).2) {plan : Plan} (hstill : plan.Still)
    (g : Guard) (s : Progress) : Covered 0 s (plan.run infer cancelOn g s).2 := by
  induction plan generalizing g s with
  | answer t => exact .of_work_eq rfl
  | ask e slot next ih => exact (hinfer g e slot s).trans (ih _ (hstill _) g _)
  | within key body next ihb ihn =>
    cases hk : g.enter? key with
    | none =>
      rw [run_within_of_mem _ _ _ hk]
      exact ihn none (hstill.2 none) g s
    | some g' =>
      rw [run_within_of_enter _ _ _ hk]
      exact (ihb hstill.1 g' s).trans (ihn _ (hstill.2 _) g _)
  | consult name next ih =>
    exact (Covered.of_work_eq (consult_work s cancelOn name)).trans (ih hstill g _)
  | lookUpModule found next ih => exact hstill.elim

namespace Program

variable (p : Program)

/-- An attempt is refused, or looks up at most one module. -/
lemma attempt_covered {infer : Infer} (cancelOn : Option String)
    (hinfer : ∀ g e slot s, Covered 0 s (infer g e slot s).2) (g : Guard) (e : Expr) (slot : Nat)
    (s : Progress) : Covered 1 s (p.attempt cancelOn infer g e slot s).2 := by
  have hplan : ∀ g', Covered 1 s ((p.plan e slot).run infer cancelOn g' s).2 := by
    intro g'
    rcases p.plan_still_or e slot with hstill | ⟨-, found, rest, heq, hstill⟩
    · have hrun : Covered 0 s ((p.plan e slot).run infer cancelOn g' s).2 :=
        Plan.run_covered hinfer hstill g' s
      exact ⟨Nat.le_succ_of_le hrun.expressions, hrun.resolutions, hrun.queries, hrun.cancellations⟩
    · rw [heq]
      exact (Covered.resolution found s).trans (Plan.run_covered hinfer hstill g' _)
  unfold attempt
  split
  · split
    · exact .guardHit s
    · exact hplan _
  · exact hplan g

/-- Along every run, each refusal and each look-up belongs to an expression of its own. -/
lemma infer_covered (cancelOn : Option String) (levels : Nat) (g : Guard) (e : Expr) (slot : Nat)
    (s : Progress) : Covered 0 s (p.infer cancelOn levels g e slot s).2 := by
  refine p.course_induction cancelOn (R := fun _ _ _ s _ s' => Covered 0 s s')
    (fun _ _ _ _ => .of_work_eq rfl) (fun _ _ _ _ => ⟨Nat.le_refl _, Nat.le_refl _, rfl, rfl⟩) ?_
    levels g e slot s
  rintro levels ih g e slot s _ - - rfl
  have hattempt := p.attempt_covered cancelOn ih g e slot (s.look.record .expression)
  have hlook : Covered 0 s s.look := .of_work_eq rfl
  exact hlook.trans (hattempt.trans (.of_work_eq (settle_work _ _ _ _ _))).of_expression

end Program

/-! ## The account of a query -/

/-- Refusals and look-ups are covered by expressions, failures by look-ups, and cancellations by
queries. -/
structure Tally.Balanced (t : Tally) : Prop where
  expressions : t.guardHits + t.resolutions ≤ t.expressions
  resolutions : t.failures ≤ t.resolutions
  queries : t.cancellations ≤ t.queries

lemma Tally.balanced_empty : Balanced ∅ := ⟨Nat.le_refl _, Nat.le_refl _, Nat.le_refl _⟩

/-- What is balanced in two stretches of work is balanced in both together. -/
lemma Tally.Balanced.add {t u : Tally} (ht : t.Balanced) (hu : u.Balanced) :
    (t + u).Balanced where
  expressions := by
    have hsum := Nat.add_le_add ht.expressions hu.expressions
    show t.guardHits + u.guardHits + (t.resolutions + u.resolutions) ≤ t.expressions + u.expressions
    omega
  resolutions := Nat.add_le_add ht.resolutions hu.resolutions
  queries := Nat.add_le_add ht.queries hu.queries

namespace Program

variable (p : Program) (cancelOn : Option String) (patience : Option Nat) (e : Expr)

/-- The state in which the query for an expression ends. -/
def ending : Progress :=
  (p.infer cancelOn p.options.maxDepth ∅ e 0
    (Progress.record { (∅ : Progress) with patience } .query)).2

/-- A query counts itself, and no cancellation before it has ended. -/
lemma ending_spec :
    (p.ending cancelOn patience e).work.Balanced ∧
      (p.ending cancelOn patience e).work.queries = 1 ∧
      (p.ending cancelOn patience e).work.cancellations = 0 ∧
      (p.ending cancelOn patience e).work.depthHits =
        (p.ending cancelOn patience e).truncations := by
  obtain ⟨hexpressions, hresolutions, hqueries, hcancellations⟩ :=
    p.infer_covered cancelOn p.options.maxDepth ∅ e 0
      (Progress.record { (∅ : Progress) with patience } .query)
  have hdepth := (depthHits_kept cancelOn).infer p p.options.maxDepth ∅ e 0
    (Progress.record { (∅ : Progress) with patience } .query)
  have hone : (p.ending cancelOn patience e).work.queries = 1 := hqueries
  have hnone : (p.ending cancelOn patience e).work.cancellations = 0 := hcancellations
  refine ⟨⟨?_, ?_, ?_⟩, hone, hnone, ?_⟩
  · exact hexpressions.trans_eq (Nat.zero_add _)
  · exact hresolutions.trans_eq (Nat.zero_add _)
  · rw [hnone]
    exact Nat.zero_le _
  · exact hdepth.trans (Nat.zero_add _)

/-- A query that may be cancelled counts at most one cancellation, and it counts itself. -/
lemma typeOfCancellable_balanced :
    (p.typeOfCancellable cancelOn patience e).2.Balanced ∧
      (p.typeOfCancellable cancelOn patience e).2.depthHits =
        (p.ending cancelOn patience e).truncations := by
  obtain ⟨hbalanced, hone, hnone, hdepth⟩ := p.ending_spec cancelOn patience e
  have hwork : (p.typeOfCancellable cancelOn patience e).2 =
      if (p.ending cancelOn patience e).cancelled then
        ((p.ending cancelOn patience e).record .cancellation).work
      else (p.ending cancelOn patience e).work := by
    unfold typeOfCancellable
    exact apply_ite Prod.snd _ _ _
  rw [hwork]
  split
  · refine ⟨⟨hbalanced.expressions, hbalanced.resolutions, ?_⟩, hdepth⟩
    show (p.ending cancelOn patience e).work.cancellations + 1 ≤ _
    rw [hnone]
    exact hone.ge
  · exact ⟨hbalanced, hdepth⟩

end Program

/-! ## The account of a series of requests -/

namespace Workspace

/-- What a client asks of a workspace whose program stays as it is. -/
inductive Request where
  | typeOf (e : Expr)
  | typeOfCancellable (patience : Option Nat) (cancelOn : Option String) (e : Expr)
  | typeOfWithBody (body : FunctionBody) (e : Expr)
  | reset

/-- The workspace after a request. -/
def serve (w : Workspace) : Request → Workspace
  | .typeOf e => ((typeOf e).run w).2
  | .typeOfCancellable patience cancelOn e => ((typeOfCancellable patience cancelOn e).run w).2
  | .typeOfWithBody body e => ((typeOfWithBody body e).run w).2
  | .reset => (reset.run w).2

/-- The state in which the query of a request ends, if the request is a query. -/
def Request.ending? (w : Workspace) : Request → Option Progress
  | .typeOf e => some (w.program.ending none none e)
  | .typeOfCancellable patience cancelOn e => some (w.program.ending cancelOn patience e)
  | .typeOfWithBody body e =>
    some ({ w.program with names := .bodyOnly body }.ending none none e)
  | .reset => none

/-- A request that is no query starts the counts anew; a query adds its own, which are balanced. -/
lemma tally_serve (w : Workspace) (r : Request) :
    (r.ending? w = none ∧ (w.serve r).tally = ∅) ∨
      ∃ s work, r.ending? w = some s ∧ (w.serve r).tally = w.tally + work ∧ work.Balanced ∧
        work.depthHits = s.truncations := by
  cases r with
  | typeOf e =>
    obtain ⟨hbalanced, -, -, hdepth⟩ := w.program.ending_spec none none e
    exact .inr ⟨_, _, rfl, rfl, hbalanced, hdepth⟩
  | typeOfCancellable patience cancelOn e =>
    obtain ⟨hbalanced, hdepth⟩ := w.program.typeOfCancellable_balanced cancelOn patience e
    exact .inr ⟨_, _, rfl, rfl, hbalanced, hdepth⟩
  | typeOfWithBody body e =>
    obtain ⟨hbalanced, -, -, hdepth⟩ :=
      { w.program with names := .bodyOnly body }.ending_spec none none e
    exact .inr ⟨_, _, rfl, rfl, hbalanced, hdepth⟩
  | reset => exact .inl ⟨rfl, rfl⟩

lemma serve_balanced {w : Workspace} (h : w.tally.Balanced) (r : Request) :
    (w.serve r).tally.Balanced := by
  rcases w.tally_serve r with ⟨-, htally⟩ | ⟨s, work, -, htally, hwork, -⟩
  · rw [htally]
    exact Tally.balanced_empty
  · rw [htally]
    exact h.add hwork

lemma foldl_serve_balanced {w : Workspace} (h : w.tally.Balanced) (requests : List Request) :
    (requests.foldl serve w).tally.Balanced := by
  induction requests generalizing w with
  | nil => exact h
  | cons r requests ih => exact ih (serve_balanced h r)

/-- Whatever queries are put to a workspace with fresh counts, at whatever moment some of them are
cancelled, and however often the counts are started anew in between: refusals by the guard and
look-ups of modules together are no more than expressions, failed look-ups no more than look-ups,
cancellations no more than queries, and each further query raises the depth hits by the truncations
that it has noted. -/
theorem tally_accounts (w : Workspace) (hfresh : w.tally = ∅) (requests : List Request) :
    let w' := requests.foldl serve w
    w'.tally.guardHits + w'.tally.resolutions ≤ w'.tally.expressions ∧
      w'.tally.failures ≤ w'.tally.resolutions ∧
      w'.tally.cancellations ≤ w'.tally.queries ∧
      ∀ r s, Request.ending? w' r = some s →
        (w'.serve r).tally.depthHits = w'.tally.depthHits + s.truncations := by
  intro w'
  have hstart : w.tally.Balanced := hfresh ▸ Tally.balanced_empty
  obtain ⟨hexpressions, hresolutions, hqueries⟩ := foldl_serve_balanced hstart requests
  refine ⟨hexpressions, hresolutions, hqueries, fun r s hs => ?_⟩
  rcases w'.tally_serve r with ⟨hnone, -⟩ | ⟨s', work, hsome, htally, -, hdepth⟩
  · rw [hnone] at hs
    cases hs
  · obtain rfl : s' = s := Option.some.inj (hsome.symm.trans hs)
    rw [htally, ← hdepth]
    rfl

/-- A workspace for `local x = x`, whose queries go three levels deep. -/
def selfAssigned : Workspace :=
  let x : Declaration :=
    { Declaration.localName ⟨0, 2⟩ "x" with value := some ⟨[.name ⟨0, 1⟩ "x"], 0⟩ }
  { bindings := { (∅ : Bindings) with references := ⟨[(⟨0, 0⟩, x), (⟨0, 1⟩, x)]⟩ },
    modules := ⟨.listed [], [], [], ⟨""⟩, ∅⟩,
    options := { maxDepth := 3 } }

/-- After a query that does not count any more, `x` is met again in its own value, a query that is
cancelled after its first look comes no further than to `x` itself, and a module is not found.
Another query, for `---x`, is too deep for the value of `x`. -/
theorem selfAssigned_accounts :
    let x : Expr := .name ⟨0, 0⟩ "x"
    let load : Expr := .call ⟨0, 5⟩ (.name ⟨0, 3⟩ "require") [.literal ⟨0, 4⟩ (.string "m")]
    let deep : Expr := .unary ⟨0, 6⟩ .minus (.unary ⟨0, 7⟩ .minus (.unary ⟨0, 8⟩ .minus x))
    let w' := [Request.typeOf load, .reset, .typeOf x, .typeOfCancellable (some 1) none x,
      .typeOfCancellable none none load].foldl serve selfAssigned
    selfAssigned.tally = ∅ ∧
      w'.tally =
        { queries := 3, expressions := 5, guardHits := 1, cancellations := 1, resolutions := 1,
          failures := 1 } ∧
      w'.tally.guardHits + w'.tally.resolutions ≤ w'.tally.expressions ∧
      w'.tally.failures ≤ w'.tally.resolutions ∧ w'.tally.cancellations ≤ w'.tally.queries ∧
      (w'.program.ending none none deep).truncations = 1 ∧
      (w'.serve (.typeOf deep)).tally.depthHits =
        w'.tally.depthHits + (w'.program.ending none none deep).truncations := by
  intro x load deep w'
  -- without the name, the facts match as they stand and nothing has to be evaluated for it
  simp only [w']
  have hfresh : selfAssigned.tally = ∅ := rfl
  obtain ⟨hexpressions, hresolutions, hqueries, hdepth⟩ := tally_accounts selfAssigned hfresh
    [.typeOf load, .reset, .typeOf x, .typeOfCancellable (some 1) none x,
      .typeOfCancellable none none load]
  exact ⟨hfresh, by decide, hexpressions, hresolutions, hqueries, by decide,
    hdepth (.typeOf deep) _ rfl⟩

end Workspace

end TypeQuery
