import TypeQuery.Proofs.Runs

/-!
# Giving back what a query holds

`TypeQuery.Query` passes the guard and the levels that are left down to each piece of work, so there
is nothing to give back at its end.  This file tells the same story with one state for the whole
query, a `Holding`: the keys in flight, the levels taken, and the progress.  Work enters its key and
takes a level in that state, and has to give both back itself, on each of the ways in which it can
end: with an answer from the memo, refused by the guard or by the depth limit, cancelled, or done.

`Program.inferHeld_eq` says that the two readings agree, and with them, that every way out gives
back exactly what the way in has taken.  The levels are compared with the depth limit at each
expression here, so nothing in the state bounds the recursion beforehand; a number that bounds the
nesting of calls takes its place, and any number above the levels that are left gives the same.

The main result is `Query.infer_restores`: a question that is put to an open query, in whatever
state that is, leaves its keys and its depth as they were, takes back no truncation, and changes no
answer of its memo.
-/

namespace TypeQuery

/-! ## One state for the whole query -/

/-- The state of a query: the keys in flight, the number of levels taken, and the progress. -/
structure Holding where
  guard : Guard
  depth : Nat
  progress : Progress

namespace Holding

/-- The same keys and levels, with other progress. -/
def advance (h : Holding) (r : Ty × Progress) : Ty × Holding := (r.1, { h with progress := r.2 })

end Holding

/-- A way to answer for an expression at a slot, in a state. -/
abbrev Holder := Expr → Nat → Holding → Ty × Holding

/-- Carries out a plan.  Work under a key enters it, and gives it back when it is done. -/
def Plan.runHeld (infer : Holder) (cancelOn : Option String) : Plan → Holding → Ty × Holding
  | .answer t, h => (t, h)
  | .ask e slot next, h =>
    let (t, h) := infer e slot h
    (next t).runHeld infer cancelOn h
  | .within key body next, h =>
    match h.guard.enter? key with
    | none => (next none).runHeld infer cancelOn h
    | some g =>
      let (t, h) := body.runHeld infer cancelOn { h with guard := g }
      (next (some t)).runHeld infer cancelOn { h with guard := h.guard.release key }
  | .consult name next, h =>
    next.runHeld infer cancelOn { h with progress := h.progress.consult cancelOn name }
  | .lookUpModule found next, h =>
    next.runHeld infer cancelOn { h with progress := h.progress.record (.resolution found) }

namespace Program

variable (p : Program) (cancelOn : Option String)

/-- Attempts an expression, under its key if it is guarded. -/
def attemptHeld (infer : Holder) : Holder := fun e slot h =>
  if e.isGuarded then
    match h.guard.enter? (.value e.id slot) with
    | none => (.unknown, { h with progress := h.progress.record .guardHit })
    | some g =>
      let (t, h) := (p.plan e slot).runHeld infer cancelOn { h with guard := g }
      (t, { h with guard := h.guard.release (.value e.id slot) })
  else (p.plan e slot).runHeld infer cancelOn h

/-- Answers for an expression: from the memo, or by taking a level of depth and working on it. -/
def visitHeld (infer : Holder) : Holder := fun e slot h =>
  if h.progress.cancelled then (.unknown, h)
  else
    match h.progress.memo.find? (.value e.id slot) with
    | some t => (t, { h with progress := h.progress.look })
    | none =>
      if p.options.maxDepth ≤ h.depth then
        (.unknown, { h with progress := h.progress.look.truncate })
      else
        let taken :=
          { h with depth := h.depth + 1, progress := h.progress.look.record .expression }
        let (t, h') := p.attemptHeld cancelOn infer e slot taken
        let kept := settle h'.guard (.value e.id slot) h.progress.truncations t h'.progress
        (t, { h' with depth := h'.depth - 1, progress := kept })

/-- Answers for an expression, with calls nested at most this deep. -/
def inferHeld : Nat → Holder
  | 0 => fun _ _ h => (.unknown, h)
  | n + 1 => p.visitHeld cancelOn (inferHeld n)

end Program

/-! ## The two readings agree -/

section Agreement

variable {cancelOn : Option String}

/-- A plan gives back the keys that its parts have entered. -/
lemma Plan.runHeld_eq {held : Holder} {infer : Infer} {depth : Nat}
    (hinfer : ∀ e slot h, h.depth = depth →
      held e slot h = h.advance (infer h.guard e slot h.progress))
    (plan : Plan) (h : Holding) (hd : h.depth = depth) :
    plan.runHeld held cancelOn h = h.advance (plan.run infer cancelOn h.guard h.progress) := by
  induction plan generalizing h with
  | answer t => rfl
  | ask e slot next ih =>
    simp only [runHeld, hinfer e slot h hd, run_ask]
    exact ih _ _ hd
  | within key body next ihb ihn =>
    cases hk : h.guard.enter? key with
    | none =>
      simp only [runHeld, hk]
      rw [run_within_of_mem _ _ _ hk]
      exact ihn none h hd
    | some g =>
      simp only [runHeld, hk]
      rw [run_within_of_enter _ _ _ hk, ihb { h with guard := g } hd]
      simp only [Holding.advance, Guard.release_enter? hk]
      exact ihn _ _ hd
  | consult name next ih => exact ih _ hd
  | lookUpModule found next ih => exact ih _ hd

namespace Program

variable (p : Program)

lemma attemptHeld_eq {held : Holder} {infer : Infer} {depth : Nat}
    (hinfer : ∀ e slot h, h.depth = depth →
      held e slot h = h.advance (infer h.guard e slot h.progress))
    (e : Expr) (slot : Nat) (h : Holding) (hd : h.depth = depth) :
    p.attemptHeld cancelOn held e slot h =
      h.advance (p.attempt cancelOn infer h.guard e slot h.progress) := by
  cases hg : e.isGuarded with
  | false =>
    simp only [attemptHeld, attempt, hg]
    exact Plan.runHeld_eq hinfer _ h hd
  | true =>
    cases hk : h.guard.enter? (.value e.id slot) with
    | none =>
      simp only [attemptHeld, attempt, hg, hk]
      rfl
    | some g =>
      simp only [attemptHeld, attempt, hg, hk, if_true]
      rw [Plan.runHeld_eq hinfer (p.plan e slot) { h with guard := g } hd]
      simp only [Holding.advance, Guard.release_enter? hk]

/-- Answering in one state is answering with the guard and the levels passed down: the keys and the
levels are the same afterwards as before. -/
theorem inferHeld_eq {n : Nat} (e : Expr) (slot : Nat) (h : Holding)
    (hn : p.options.maxDepth - h.depth < n) :
    p.inferHeld cancelOn n e slot h =
      h.advance (p.infer cancelOn (p.options.maxDepth - h.depth) h.guard e slot h.progress) := by
  induction n generalizing e slot h with
  | zero => omega
  | succ n ih =>
    cases hc : h.progress.cancelled with
    | true =>
      rw [p.infer_of_cancelled _ _ hc]
      simp [inferHeld, visitHeld, hc, Holding.advance]
    | false =>
      cases hm : h.progress.memo.find? (.value e.id slot) with
      | some t =>
        rw [p.infer_of_memo _ _ hc hm]
        simp [inferHeld, visitHeld, hc, hm, Holding.advance]
      | none =>
        by_cases hmax : p.options.maxDepth ≤ h.depth
        · rw [Nat.sub_eq_zero_of_le hmax, p.infer_zero _ hc hm]
          simp [inferHeld, visitHeld, hc, hm, hmax, Holding.advance]
        · obtain ⟨levels, hlevels⟩ : ∃ levels, p.options.maxDepth - h.depth = levels + 1 :=
            ⟨p.options.maxDepth - h.depth - 1, by omega⟩
          -- one level down, one level less is left
          have hdeeper : ∀ x i h', h'.depth = h.depth + 1 →
              p.inferHeld cancelOn n x i h' =
                h'.advance (p.infer cancelOn levels h'.guard x i h'.progress) := by
            intro x i h' hd
            have hl : p.options.maxDepth - h'.depth = levels := by omega
            rw [ih x i h' (by omega), hl]
          rw [hlevels, p.infer_succ _ _ hc hm]
          simp only [inferHeld, visitHeld, hc, hm, if_neg hmax]
          rw [p.attemptHeld_eq hdeeper e slot _ rfl]
          simp [Holding.advance]

end Program

end Agreement

/-! ## Open queries -/

/-- Answers for an expression that may be missing. -/
def Plan.ofExpr? : Option Expr → Nat → Plan
  | some e, slot => .ofExpr e slot
  | none, _ => .answer .unknown

namespace Query

/-- The state of an open query. -/
def holding (q : Query) : Holding := ⟨q.ledger.guard, q.depth, q.progress⟩

/-- The query in another state. -/
def resume (q : Query) (h : Holding) : Query :=
  { q with ledger.guard := h.guard, depth := h.depth, progress := h.progress }

/-- Carrying out a plan as a part of a query is carrying it out in the state of the query. -/
lemma perform_eq_runHeld (q : Query) (p : Program) (cancelOn : Option String) (plan : Plan)
    {n : Nat} (hn : p.options.maxDepth - q.depth < n) :
    plan.runHeld (p.inferHeld cancelOn n) cancelOn q.holding =
      q.holding.advance (plan.run (p.infer cancelOn (p.options.maxDepth - q.depth)) cancelOn
        q.ledger.guard q.progress) := by
  refine Plan.runHeld_eq (fun e slot h hd => ?_) plan q.holding rfl
  have hdepth : h.depth = q.depth := hd
  rw [p.inferHeld_eq e slot h (by omega), hdepth]

/-- A question put to an open query is answered in the state of the query, and each of the ways in
which the work on it can end restores that state: the keys in flight and the depth are what they
were, no truncation is taken back, and every answer in the memo is still there, unchanged. -/
theorem infer_restores (q : Query) (p : Program) (cancelOn : Option String) (e : Option Expr)
    (slot n : Nat) :
    ∃ t h,
      (Plan.ofExpr? e slot).runHeld (p.inferHeld cancelOn (p.options.maxDepth - q.depth + 1 + n))
        cancelOn q.holding = (t, h) ∧
      q.perform p cancelOn (.ofExpr? e slot) = (t, q.resume h) ∧
      h.guard = q.ledger.guard ∧ h.depth = q.depth ∧
      q.progress.truncations ≤ h.progress.truncations ∧
      ∀ k t', q.memoized? k = some t' → h.progress.memo.find? k = some t' := by
  have hrun := q.perform_eq_runHeld p cancelOn (.ofExpr? e slot)
    (by omega : p.options.maxDepth - q.depth < p.options.maxDepth - q.depth + 1 + n)
  have hext := (extends_kept cancelOn).run (p.infer_grows cancelOn (p.options.maxDepth - q.depth))
    (.ofExpr? e slot) q.ledger.guard q.progress
  exact ⟨_, _, hrun, rfl, rfl, rfl, hext.truncations_le, hext.memo⟩

end Query

end TypeQuery
