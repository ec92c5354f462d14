import Mathlib.Algebra.Order.Ring.Nat
import Mathlib.Data.Finset.Card
import TypeQuery.Proofs.Asks
import TypeQuery.Proofs.Runs

/-!
# The depth limit is never needed

The guard alone keeps a query from going on for ever.  Two facts make this precise.

* More levels change nothing for a run that is quiet (`Program.infer_eq_of_quiet`): it never looks
  at the limit, so it does the same work under any higher one.
* A program has a depth below which no query of it goes (`Program.infer_quiet`).  On the way down,
  either a guarded expression is entered, and one key fewer is free; or the expression is not
  guarded, and only its parts are asked for, which are smaller.  So the levels that a question needs
  are at most the number of free keys times the size of the largest expression, and the size of its
  own expression on top (`Program.need`).

The keys are finitely many because the nodes and the slots at which they are asked for are
(`Program.plan_confined`), however many cycles there are among the names, members, function bodies
and modules of the program.  Keys for members of a module are entered as well, but need not be
counted: their work asks nothing that would not be allowed outside of it.
-/

namespace TypeQuery

open Progress

/-! ## More levels -/

/-- A quiet run is the same with any other way to answer that agrees on quiet questions. -/
lemma Plan.run_eq_of_quiet {infer infer' : Infer} {cancelOn : Option String}
    (hgrows : infer.Grows)
    (hagree : ∀ g e slot s, Quiet s (infer g e slot s).2 → infer' g e slot s = infer g e slot s)
    (plan : Plan) (g : Guard) (s : Progress) (hq : Quiet s (plan.run infer cancelOn g s).2) :
    plan.run infer' cancelOn g s = plan.run infer cancelOn g s := by
  induction plan generalizing g s with
  | answer t => rfl
  | ask e slot next ih =>
    obtain ⟨hq₁, hq₂⟩ := quiet_ask hgrows hq
    rw [run_ask, run_ask, hagree g e slot s hq₁]
    exact ih _ g _ hq₂
  | within key body next ihb ihn =>
    cases hk : g.enter? key with
    | none =>
      rw [run_within_of_mem _ _ _ hk] at hq ⊢
      rw [run_within_of_mem _ _ _ hk]
      exact ihn none g s hq
    | some g' =>
      obtain ⟨hq₁, hq₂⟩ := quiet_within hgrows hk hq
      rw [run_within_of_enter _ _ _ hk, run_within_of_enter _ _ _ hk, ihb g' s hq₁]
      exact ihn _ g _ hq₂
  | consult name next ih =>
    refine ih g _ ?_
    rwa [Quiet, consult_truncations]
  | lookUpModule found next ih => exact ih g _ hq

namespace Program

variable (p : Program) (cancelOn : Option String)

lemma attempt_eq_of_quiet {infer infer' : Infer} (hgrows : infer.Grows)
    (hagree : ∀ g e slot s, Quiet s (infer g e slot s).2 → infer' g e slot s = infer g e slot s)
    (g : Guard) (e : Expr) (slot : Nat) (s : Progress)
    (hq : Quiet s (p.attempt cancelOn infer g e slot s).2) :
    p.attempt cancelOn infer' g e slot s = p.attempt cancelOn infer g e slot s := by
  cases hg : e.isGuarded with
  | false =>
    rw [p.attempt_of_unguarded _ _ hg] at hq ⊢
    rw [p.attempt_of_unguarded _ _ hg]
    exact Plan.run_eq_of_quiet hgrows hagree _ g s hq
  | true =>
    cases hk : g.enter? (.value e.id slot) with
    | none => rw [p.attempt_of_mem _ _ hg hk, p.attempt_of_mem _ _ hg hk]
    | some g' =>
      rw [p.attempt_of_enter _ _ hg hk] at hq ⊢
      rw [p.attempt_of_enter _ _ hg hk]
      exact Plan.run_eq_of_quiet hgrows hagree _ g' s hq

/-- What a quiet run finds, and the work that it does, are the same with more levels. -/
theorem infer_eq_of_quiet {n m : Nat} (hnm : n ≤ m) (g : Guard) (e : Expr) (slot : Nat)
    (s : Progress) (hq : Quiet s (p.infer cancelOn n g e slot s).2) :
    p.infer cancelOn m g e slot s = p.infer cancelOn n g e slot s := by
  induction n generalizing m g e slot s with
  | zero =>
    rcases s.knows_or_open (.value e.id slot) with h | ⟨hc, hm⟩
    · obtain ⟨t, ht⟩ := p.infer_of_knows cancelOn h
      rw [ht, ht]
    · rw [p.infer_zero _ hc hm] at hq
      exact absurd hq (Nat.succ_ne_self _)
  | succ n ih =>
    obtain ⟨m, rfl⟩ : ∃ m', m = m' + 1 := ⟨m - 1, by omega⟩
    rcases s.knows_or_open (.value e.id slot) with h | ⟨hc, hm⟩
    · obtain ⟨t, ht⟩ := p.infer_of_knows cancelOn h
      rw [ht, ht]
    · rw [p.infer_succ _ _ hc hm, Quiet, settle_truncations] at hq
      have hagree : ∀ g e slot s, Quiet s (p.infer cancelOn n g e slot s).2 →
          p.infer cancelOn m g e slot s = p.infer cancelOn n g e slot s :=
        fun g e slot s h => ih (by omega) g e slot s h
      have hwork := p.attempt_eq_of_quiet cancelOn (p.infer_grows cancelOn n) hagree g e slot
        (s.look.record .expression) hq
      rw [p.infer_succ _ _ hc hm, p.infer_succ _ _ hc hm, hwork]

end Program

/-! ## The levels that a program needs -/

/-- A plan whose questions are quiet, under any larger guard, is quiet. -/
lemma Plan.run_quiet {A : Expr → Nat → Prop} {W : Key → Plan → Prop} {infer : Infer}
    {cancelOn : Option String} {plan : Plan} (hplan : plan.Confined A W) (g : Guard)
    (hinfer : ∀ g' : Guard, (∀ k ∈ g, k ∈ g') →
      ∀ e slot s, A e slot → Quiet s (infer g' e slot s).2)
    (s : Progress) : Quiet s (plan.run infer cancelOn g s).2 := by
  induction plan generalizing g s with
  | answer t => rfl
  | ask e slot next ih =>
    have hq₁ : Quiet s (infer g e slot s).2 := hinfer g (fun _ h => h) e slot s hplan.1
    exact (ih _ (hplan.2 _) g hinfer _).trans hq₁
  | within key body next ihb ihn =>
    cases hk : g.enter? key with
    | none =>
      rw [run_within_of_mem _ _ _ hk]
      exact ihn _ (hplan.2.2 _) g hinfer s
    | some g' =>
      rw [run_within_of_enter _ _ _ hk]
      have hsub : ∀ k ∈ g, k ∈ g' := fun k h => (Guard.mem_of_enter? hk).2 (.inr h)
      have hq₁ : Quiet s (body.run infer cancelOn g' s).2 :=
        ihb hplan.2.1 g' (fun g'' h => hinfer g'' fun k hkg => h k (hsub k hkg)) s
      exact (ihn _ (hplan.2.2 _) g hinfer _).trans hq₁
  | consult name next ih =>
    exact (ih hplan g hinfer _).trans (consult_truncations s cancelOn name)
  | lookUpModule found next ih => exact ih hplan g hinfer _

namespace Program

variable (p : Program) (es : List Expr)

/-- The keys under which the nodes of a program can be worked on. -/
def keys : Finset Key :=
  ((p.nodes es).flatMap fun e => (List.range (p.lastSlot es + 1)).map (.value e.id)).toFinset

/-- The number of keys that are not in flight. -/
def freeKeys (g : Guard) : Nat := ((p.keys es).filter (· ∉ g)).card

/-- The size of the largest expression. -/
def largest : Nat := ((p.nodes es).map Expr.size).foldr max 0

/-- The levels that a question about `e` needs while the keys of `g` are in flight. -/
def need (g : Guard) (e : Expr) : Nat := p.freeKeys es g * (p.largest es + 1) + e.size

/-- The levels that any question about a program needs. -/
def depthBound : Nat := (p.keys es).card * (p.largest es + 1) + p.largest es

variable {p es}

lemma mem_keys {e : Expr} {slot : Nat} (h : p.Holds es e slot) :
    Key.value e.id slot ∈ p.keys es := by
  rw [keys, List.mem_toFinset]
  refine List.mem_flatMap.2 ⟨e, h.1, List.mem_map_of_mem ?_⟩
  exact List.mem_range.2 (Nat.lt_succ_of_le h.2)

lemma size_le_largest {e : Expr} (h : e ∈ p.nodes es) : e.size ≤ p.largest es :=
  List.le_max_of_le' 0 (List.mem_map_of_mem h) le_rfl

lemma freeKeys_mono {g g' : Guard} (h : ∀ k ∈ g, k ∈ g') : p.freeKeys es g' ≤ p.freeKeys es g := by
  refine Finset.card_le_card fun k hk => ?_
  rw [Finset.mem_filter] at hk ⊢
  exact ⟨hk.1, fun hkg => hk.2 (h k hkg)⟩

/-- Entering a key of the program leaves one key fewer. -/
lemma freeKeys_enter {g g' : Guard} {k : Key} (hk : k ∈ p.keys es) (h : g.enter? k = some g') :
    p.freeKeys es g' < p.freeKeys es g := by
  refine Finset.card_lt_card (Finset.ssubset_iff_of_subset ?_ |>.2 ⟨k, ?_, ?_⟩)
  · intro j hj
    rw [Finset.mem_filter] at hj ⊢
    exact ⟨hj.1, fun hjg => hj.2 ((Guard.mem_of_enter? h).2 (.inr hjg))⟩
  · exact Finset.mem_filter.2 ⟨hk, (Guard.enter?_eq_some.1 h).1⟩
  · intro hmem
    exact (Finset.mem_filter.1 hmem).2 ((Guard.mem_of_enter? h).2 (.inl rfl))

lemma need_le_depthBound {e : Expr} (h : e ∈ p.nodes es) (g : Guard) :
    p.need es g e ≤ p.depthBound es := by
  have hfree : p.freeKeys es g ≤ (p.keys es).card := Finset.card_filter_le _ _
  exact Nat.add_le_add (Nat.mul_le_mul_right _ hfree) (size_le_largest h)

/-- Below an entered key, any question needs fewer levels than the entered one. -/
lemma need_lt_of_enter {g g' g'' : Guard} {e x : Expr} {slot : Nat} (he : p.Holds es e slot)
    (hk : g.enter? (.value e.id slot) = some g') (hsub : ∀ k ∈ g', k ∈ g'') (hx : x ∈ p.nodes es) :
    p.need es g'' x < p.need es g e := by
  have hfree : p.freeKeys es g'' + 1 ≤ p.freeKeys es g :=
    (freeKeys_mono hsub).trans_lt (freeKeys_enter (mem_keys he) hk)
  have hsize := size_le_largest hx
  have hpos := e.size_pos
  calc p.need es g'' x
      = p.freeKeys es g'' * (p.largest es + 1) + x.size := rfl
    _ < (p.freeKeys es g'' + 1) * (p.largest es + 1) := by rw [Nat.succ_mul]; omega
    _ ≤ p.freeKeys es g * (p.largest es + 1) := Nat.mul_le_mul_right _ hfree
    _ ≤ p.need es g e := Nat.le_add_right _ _

/-- With the levels that it needs, a question notes no truncation, whatever the state of the
query. -/
theorem infer_quiet (cancelOn : Option String) {levels : Nat} {g : Guard} {e : Expr} {slot : Nat}
    (he : p.Holds es e slot) (hl : p.need es g e ≤ levels) (s : Progress) :
    Quiet s (p.infer cancelOn levels g e slot s).2 := by
  induction levels generalizing g e slot s with
  | zero =>
    have hpos := e.size_pos
    unfold need at hl
    omega
  | succ levels ih =>
    rcases s.knows_or_open (.value e.id slot) with h | ⟨hc, hm⟩
    · obtain ⟨t, ht⟩ := p.infer_of_knows cancelOn h
      rw [ht]
      rfl
    · rw [p.infer_succ _ _ hc hm, Quiet, settle_truncations]
      cases hg : e.isGuarded with
      | false =>
        -- the guard stays as it is, and the parts are smaller
        rw [p.attempt_of_unguarded _ _ hg]
        refine Plan.run_quiet (plan_confined_parts he.1 hg) g (fun g' hsub x i s' hx => ?_) _
        refine ih ⟨mem_nodes_of_parts he.1 hx.1, hx.2⟩ ?_ s'
        have hsize := Expr.size_lt_of_mem_parts hx.1
        have hfree : p.freeKeys es g' ≤ p.freeKeys es g := freeKeys_mono hsub
        have hmul := Nat.mul_le_mul_right (p.largest es + 1) hfree
        unfold need at hl ⊢
        omega
      | true =>
        cases hk : g.enter? (.value e.id slot) with
        | none =>
          rw [p.attempt_of_mem _ _ hg hk]
          rfl
        | some g' =>
          -- one key fewer is free below it
          rw [p.attempt_of_enter _ _ hg hk]
          refine Plan.run_quiet (plan_confined he) g' (fun g'' hsub x i s' hx => ?_) _
          have hlt := need_lt_of_enter he hk hsub hx.1
          exact ih hx (by omega) s'

end Program

/-! ## Queries under a depth limit -/

namespace Program

/-- The program with another depth limit. -/
def withDepth (p : Program) (limit : Nat) : Program := { p with options.maxDepth := limit }

variable (p : Program)

lemma visit_withDepth (limit : Nat) (cancelOn : Option String) :
    (p.withDepth limit).visit cancelOn = p.visit cancelOn := rfl

/-- The rules do not know the depth limit. -/
lemma infer_withDepth (limit levels : Nat) (cancelOn : Option String) :
    (p.withDepth limit).infer cancelOn levels = p.infer cancelOn levels := by
  induction levels with
  | zero => rfl
  | succ levels ih =>
    funext g e slot s
    rw [infer, infer, ih, visit_withDepth]

lemma typeOf_eq (e : Expr) :
    p.typeOf e =
      ((p.infer none p.options.maxDepth ∅ e 0 (Progress.record ∅ .query)).1,
        (p.infer none p.options.maxDepth ∅ e 0 (Progress.record ∅ .query)).2.work) := rfl

/-- A query records a depth hit for every truncation of its run. -/
lemma depthHits_typeOf (e : Expr) :
    (p.typeOf e).2.depthHits =
      (p.infer none p.options.maxDepth ∅ e 0 (Progress.record ∅ .query)).2.truncations := by
  have h := (depthHits_kept none).infer p p.options.maxDepth ∅ e 0 (Progress.record ∅ .query)
  have h₀ : (Progress.record ∅ .query).work.depthHits = 0 := rfl
  have h₁ : (Progress.record ∅ .query).truncations = 0 := rfl
  rw [typeOf_eq]
  dsimp only
  omega

/-- It records none if its run is quiet, and only then. -/
lemma depthHits_typeOf_eq_zero {e : Expr} :
    (p.typeOf e).2.depthHits = 0 ↔
      Quiet (Progress.record ∅ .query)
        (p.infer none p.options.maxDepth ∅ e 0 (Progress.record ∅ .query)).2 := by
  rw [depthHits_typeOf]
  exact Iff.rfl

lemma typeOf_withDepth (limit : Nat) (e : Expr) :
    (p.withDepth limit).typeOf e =
      ((p.infer none limit ∅ e 0 (Progress.record ∅ .query)).1,
        (p.infer none limit ∅ e 0 (Progress.record ∅ .query)).2.work) := by
  rw [typeOf_eq, infer_withDepth]
  rfl

/-- Without a level, nothing is found. -/
lemma typeOf_withDepth_zero (e : Expr) :
    (p.withDepth 0).typeOf e = (.unknown, (Tally.record ∅ .query).record .depthHit) := by
  have hquery : p.infer none 0 ∅ e 0 (Progress.record ∅ .query) =
      (.unknown, (Progress.record ∅ .query).truncate) := p.infer_zero none rfl rfl
  rw [typeOf_withDepth, hquery]
  rfl

lemma depthHits_withDepth (limit : Nat) (e : Expr) :
    ((p.withDepth limit).typeOf e).2.depthHits =
      (p.infer none limit ∅ e 0 (Progress.record ∅ .query)).2.truncations := by
  rw [depthHits_typeOf, infer_withDepth]
  rfl

lemma depthHits_withDepth_eq_zero {limit : Nat} {e : Expr} :
    ((p.withDepth limit).typeOf e).2.depthHits = 0 ↔
      Quiet (Progress.record ∅ .query)
        (p.infer none limit ∅ e 0 (Progress.record ∅ .query)).2 := by
  rw [depthHits_withDepth]
  exact Iff.rfl

/-- A query that records no depth hit gives the same type and does the same work under any higher
limit. -/
lemma typeOf_withDepth_of_le {m m' : Nat} (hm : m ≤ m') {e : Expr}
    (h : ((p.withDepth m).typeOf e).2.depthHits = 0) :
    (p.withDepth m').typeOf e = (p.withDepth m).typeOf e := by
  rw [depthHits_withDepth_eq_zero] at h
  rw [typeOf_withDepth, typeOf_withDepth, p.infer_eq_of_quiet none hm ∅ e 0 _ h]

/-- However cyclic a program is, some depth limit is never reached by a query about one of its
expressions, and any limit from there on gives the same types for the same work.  More generally,
any limit that a query does not reach may be raised. -/
theorem depth_limit_unneeded (es : List Expr) :
    ∃ D, ∀ e ∈ p.nodes es,
      (∀ m ≥ D, ((p.withDepth m).typeOf e).2.depthHits = 0 ∧
        (p.withDepth m).typeOf e = (p.withDepth D).typeOf e) ∧
      ∀ m, ((p.withDepth m).typeOf e).2.depthHits = 0 →
        ∀ m' ≥ m, (p.withDepth m').typeOf e = (p.withDepth m).typeOf e := by
  refine ⟨p.depthBound es, fun e he => ?_⟩
  have hquiet : ∀ m ≥ p.depthBound es, ((p.withDepth m).typeOf e).2.depthHits = 0 := by
    intro m hm
    rw [depthHits_withDepth_eq_zero]
    exact infer_quiet none ⟨he, Nat.zero_le _⟩ ((need_le_depthBound he ∅).trans hm) _
  refine ⟨fun m hm => ⟨hquiet m hm, ?_⟩, fun m h m' hm' => p.typeOf_withDepth_of_le hm' h⟩
  exact p.typeOf_withDepth_of_le hm (hquiet _ le_rfl)

/-- `local a = a`, where the value is that very `a`. -/
def selfLoop : Program :=
  let a : Declaration :=
    { Declaration.localName ⟨0, 1⟩ "a" with value := some ⟨[.name ⟨0, 0⟩ "a"], 0⟩ }
  ofReferences [(⟨0, 0⟩, a)]

/-- The query for `a` reaches a limit of one level, but no higher one: the guard stops it at the
second level. -/
theorem selfLoop_depth : .name ⟨0, 0⟩ "a" ∈ selfLoop.nodes [] ∧
    ((selfLoop.withDepth 1).typeOf (.name ⟨0, 0⟩ "a")).2.depthHits = 1 ∧
    ((selfLoop.withDepth 2).typeOf (.name ⟨0, 0⟩ "a")).2.depthHits = 0 ∧
    ∀ m ≥ 2, (selfLoop.withDepth m).typeOf (.name ⟨0, 0⟩ "a") =
      (selfLoop.withDepth 2).typeOf (.name ⟨0, 0⟩ "a") := by
  have hmem : .name ⟨0, 0⟩ "a" ∈ selfLoop.nodes [] := List.mem_cons_self
  have htwo : ((selfLoop.withDepth 2).typeOf (.name ⟨0, 0⟩ "a")).2.depthHits = 0 := by decide
  obtain ⟨D, hD⟩ := depth_limit_unneeded selfLoop []
  obtain ⟨-, hraise⟩ := hD _ hmem
  exact ⟨hmem, by decide, htwo, hraise 2 htwo⟩

end Program

end TypeQuery
