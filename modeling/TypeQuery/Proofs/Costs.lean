import Mathlib.Algebra.BigOperators.Group.Finset.Piecewise
import Mathlib.Algebra.Order.BigOperators.Group.Finset
import TypeQuery.Proofs.Levels

/-!
# What questions cost

How many expressions a query works on, put together from what single questions take.  There are two
ways to say it.

*Exactly*: `Spent` is the number of expressions and of truncations of a stretch of a query.  A
question takes one expression more than its plan, and its answer is kept if nothing was cut short
below it.  Where questions follow each other, what is known after one is what the next one starts
from, and `Takes` is the triple for that.

*At most*: expressions that have no answer yet hold some credit, and the work on an expression is
paid for in one of two ways.  If its answer is kept, it gives up one of its own credit.  If its
answer is cut short, a truncation below it pays; and since a truncation lies below no more
expressions than there are levels, it never has to pay for more than that.  So what a query works on
is at most the credit at its start, and as many expressions as there are levels for each truncation
(`Paid.typeOf`).

While an expression is worked on, one of its credit is set aside (`spend`).  What its questions pay
with the rest, and what it pays itself, then adds up without a look at what they have kept
(`infer_paid`).
-/

namespace TypeQuery

open Progress

/-! ## Single questions -/

/-- What is done with an answer in the end, if this number of truncations lies below it. -/
def Progress.keep (cuts : Nat) (k : Key) (t : Ty) (s : Progress) : Progress :=
  if cuts = 0 then s.memoize k t else s

namespace Program

section Questions

variable {p : Program} (levels : Nat) {g : Guard} {e : Expr} {slot cost cost' cuts cuts' : Nat}
  {s s₁ s₂ : Progress} {t : Ty}

/-- A question without an answer in the memo. -/
lemma infer_of_attempt (hc : s.patience = none) (hm : s.memo.find? (.value e.id slot) = none)
    (hk : .value e.id slot ∉ g)
    (hrun : p.attempt none (p.infer none levels) g e slot (s.record .expression) = (t, s₁))
    (hend : s₁.patience = none) (hcuts : s₁.truncations = s.truncations + cuts) :
    p.infer none (levels + 1) g e slot s = (t, s₁.keep cuts (.value e.id slot) t) := by
  rw [p.infer_succ_patient none hc levels hm, hrun, keep]
  refine congrArg (Prod.mk t) ?_
  show settle g _ s.truncations t s₁ = _
  split
  next hnone =>
    rw [hnone, Nat.add_zero] at hcuts
    exact settle_patient hend hk t hcuts
  next hsome =>
    rw [settle, if_neg]
    rintro ⟨hquiet, -⟩
    omega

/-- Between `s` and `s'`, this number of expressions is worked on, this number of truncations is
noted, and nothing is cancelled. -/
structure Spent (cost cuts : Nat) (s s' : Progress) : Prop where
  expressions : s'.work.expressions = s.work.expressions + cost
  truncations : s'.truncations = s.truncations + cuts
  patience : s'.patience = s.patience

lemma Spent.refl (s : Progress) : Spent 0 0 s s := ⟨rfl, rfl, rfl⟩

/-- A question without a level left. -/
lemma Spent.truncate (s : Progress) : Spent 0 1 s s.truncate := ⟨rfl, rfl, rfl⟩

lemma Spent.trans (h : Spent cost cuts s s₁) (h' : Spent cost' cuts' s₁ s₂) :
    Spent (cost + cost') (cuts + cuts') s s₂ where
  expressions := by rw [h'.expressions, h.expressions, Nat.add_assoc]
  truncations := by rw [h'.truncations, h.truncations, Nat.add_assoc]
  patience := h'.patience.trans h.patience

/-- Keeping the answer to a question costs nothing, but the question itself does. -/
lemma Spent.keep (h : Spent cost cuts (s.record .expression) s₁) (k : Key) (t : Ty) :
    Spent (cost + 1) cuts s (s₁.keep cuts k t) := by
  have hexpressions : s₁.work.expressions = s.work.expressions + 1 + cost := h.expressions
  have hwork : (s₁.keep cuts k t).work = s₁.work := by
    rw [Progress.keep]
    split <;> rfl
  refine ⟨?_, Eq.trans ?_ h.truncations, Eq.trans ?_ h.patience⟩
  · rw [hwork]
    omega
  all_goals
    rw [Progress.keep]
    split <;> rfl

/-- A question without an answer in the memo, about an expression that can be entered. -/
lemma infer_of_enter (hc : s.patience = none) (hm : s.memo.find? (.value e.id slot) = none)
    (hg : e.isGuarded = true) (hk : .value e.id slot ∉ g)
    (hrun : (p.plan e slot).run (p.infer none levels) none ⟨.value e.id slot :: g.inFlight⟩
      (s.record .expression) = (t, s₁)) (hs : Spent cost cuts (s.record .expression) s₁) :
    p.infer none (levels + 1) g e slot s = (t, s₁.keep cuts (.value e.id slot) t) ∧
      Spent (cost + 1) cuts s (s₁.keep cuts (.value e.id slot) t) := by
  have henter : g.enter? (.value e.id slot) = some ⟨.value e.id slot :: g.inFlight⟩ :=
    Guard.enter?_eq_some.2 ⟨hk, rfl⟩
  refine ⟨infer_of_attempt levels hc hm hk ?_ (hs.patience.trans hc) hs.truncations, hs.keep _ _⟩
  rw [p.attempt_of_enter none _ hg henter, hrun]

/-- The same for an expression that is not guarded. -/
lemma infer_of_unguarded (hc : s.patience = none)
    (hm : s.memo.find? (.value e.id slot) = none) (hg : e.isGuarded = false)
    (hk : .value e.id slot ∉ g)
    (hrun : (p.plan e slot).run (p.infer none levels) none g (s.record .expression) = (t, s₁))
    (hs : Spent cost cuts (s.record .expression) s₁) :
    p.infer none (levels + 1) g e slot s = (t, s₁.keep cuts (.value e.id slot) t) ∧
      Spent (cost + 1) cuts s (s₁.keep cuts (.value e.id slot) t) := by
  refine ⟨infer_of_attempt levels hc hm hk ?_ (hs.patience.trans hc) hs.truncations, hs.keep _ _⟩
  rw [p.attempt_of_unguarded none _ hg, hrun]

/-- The same as `infer_of_enter` where something was cut short on the way: nothing is kept. -/
lemma infer_of_enter_cut (hc : s.patience = none)
    (hm : s.memo.find? (.value e.id slot) = none) (hg : e.isGuarded = true)
    (hk : .value e.id slot ∉ g)
    (hrun : (p.plan e slot).run (p.infer none levels) none ⟨.value e.id slot :: g.inFlight⟩
      (s.record .expression) = (t, s₁)) (hend : s₁.patience = s.patience)
    (hcut : s.truncations < s₁.truncations) :
    p.infer none (levels + 1) g e slot s = (t, s₁) := by
  have henter : g.enter? (.value e.id slot) = some ⟨.value e.id slot :: g.inFlight⟩ :=
    Guard.enter?_eq_some.2 ⟨hk, rfl⟩
  obtain ⟨cuts, hcuts⟩ := Nat.exists_eq_add_of_lt hcut
  rw [Nat.add_assoc] at hcuts
  refine infer_of_attempt levels hc hm hk ?_ (hend.trans hc) hcuts
  rw [p.attempt_of_enter none _ hg henter, hrun]

/-- A question about an expression that is in progress: nothing is kept. -/
lemma infer_of_inFlight (hc : s.patience = none)
    (hm : s.memo.find? (.value e.id slot) = none) (hg : e.isGuarded = true)
    (hk : .value e.id slot ∈ g) :
    p.infer none (levels + 1) g e slot s =
        (.unknown, (s.record .expression).record .guardHit) ∧
      Spent 1 0 s ((s.record .expression).record .guardHit) :=
  ⟨p.infer_of_mem_patient none hc levels hm hg hk, rfl, rfl, rfl⟩

/-- What a query spends. -/
lemma Spent.typeOf (hrun : p.infer none levels ∅ e 0 (Progress.record ∅ .query) = (t, s₁))
    (hs : Spent cost cuts (Progress.record ∅ .query) s₁) :
    ((p.withDepth levels).typeOf e).2.depthHits = cuts ∧
      ((p.withDepth levels).typeOf e).2.expressions = cost := by
  rw [p.depthHits_withDepth, p.typeOf_withDepth, hrun]
  exact ⟨hs.truncations.trans (Nat.zero_add _), hs.expressions.trans (Nat.zero_add _)⟩

end Questions

/-! ## Sequences of questions -/

section Sequences

variable {p : Program} {levels : Nat} {g : Guard} {e : Expr} {es es' : List Expr} {s : Progress}
  {P Q R : Catalog Key Ty → Prop} {cost cost' cuts cuts' : Nat}

/-- Expressions that are asked for one after the other. -/
def askAll (infer : Infer) (g : Guard) (es : List Expr) (s : Progress) : Progress :=
  es.foldl (fun s e => (infer g e 0 s).2) s

/-- A stretch of a query leads from what is known before it to what is known after it, and this is
what it spends. -/
def Takes (P Q : Catalog Key Ty → Prop) (cost cuts : Nat) (f : Progress → Progress) : Prop :=
  ∀ s, s.patience = none → P s.memo → Q (f s).memo ∧ Spent cost cuts s (f s)

lemma Takes.cons (h : Takes P Q cost cuts fun s => (p.infer none levels g e 0 s).2)
    (h' : Takes Q R cost' cuts' (askAll (p.infer none levels) g es)) :
    Takes P R (cost + cost') (cuts + cuts') (askAll (p.infer none levels) g (e :: es)) := by
  intro s hc hs
  obtain ⟨hs₁, hspent₁⟩ := h s hc hs
  obtain ⟨hs₂, hspent₂⟩ := h' _ (hspent₁.patience.trans hc) hs₁
  exact ⟨hs₂, hspent₁.trans hspent₂⟩

/-- Nothing happens while known expressions are asked for. -/
lemma askAll_of_known (hc : s.patience = none)
    (h : ∀ e ∈ es, ∃ t, s.memo.find? (.value e.id 0) = some t) :
    askAll (p.infer none levels) g es s = s := by
  induction es with
  | nil => rfl
  | cons e es ih =>
    obtain ⟨t, ht⟩ := h e List.mem_cons_self
    show askAll _ g es (p.infer none levels g e 0 s).2 = s
    rw [p.infer_of_memo_patient none hc levels ht]
    exact ih fun e' he' => h e' (List.mem_cons_of_mem _ he')

lemma Takes.known (h : ∀ memo, P memo → ∀ e ∈ es, ∃ t, memo.find? (.value e.id 0) = some t) :
    Takes P P 0 0 (askAll (p.infer none levels) g es) := by
  intro s hc hs
  rw [askAll_of_known hc (h _ hs)]
  exact ⟨hs, .refl s⟩

/-- Known expressions in front make no difference. -/
lemma Takes.known_append
    (h : ∀ memo, P memo → ∀ e ∈ es', ∃ t, memo.find? (.value e.id 0) = some t)
    (h' : Takes P Q cost cuts (askAll (p.infer none levels) g es)) :
    Takes P Q cost cuts (askAll (p.infer none levels) g (es' ++ es)) := by
  intro s hc hs
  have hskip : askAll (p.infer none levels) g (es' ++ es) s =
      askAll (p.infer none levels) g es (askAll (p.infer none levels) g es' s) := List.foldl_append
  rw [hskip, askAll_of_known hc (h _ hs)]
  exact h' s hc hs

end Sequences

end Program

/-! ## Credit -/

section Credit

variable {bound i : Nat} {w : Nat → Nat} {memo : Catalog Key Ty}

/-- The credit of the expressions of a file, up to an index, that have no answer at their first
slot. -/
def credit (bound : Nat) (w : Nat → Nat) (memo : Catalog Key Ty) : Nat :=
  ∑ j ∈ Finset.range bound with memo.find? (.value ⟨0, j⟩ 0) = none, w j

/-- The credit while one of what the expression with index `i` has is set aside. -/
def spend (w : Nat → Nat) (i : Nat) : Nat → Nat := Function.update w i (w i - 1)

lemma spend_of_ne {j : Nat} (h : j ≠ i) : spend w i j = w j := Function.update_of_ne h ..

lemma credit_empty (bound : Nat) (w : Nat → Nat) :
    credit bound w ∅ = ∑ j ∈ Finset.range bound, w j := by
  have hall : (Finset.range bound).filter (fun j =>
      (∅ : Catalog Key Ty).find? (.value ⟨0, j⟩ 0) = none) = Finset.range bound :=
    Finset.filter_true_of_mem fun _ _ => rfl
  rw [credit, hall]

/-- What is set aside is a part of the credit of an expression without an answer. -/
lemma credit_spend (hi : i < bound) (hw : 1 ≤ w i) (hm : memo.find? (.value ⟨0, i⟩ 0) = none) :
    credit bound (spend w i) memo + 1 = credit bound w memo := by
  have hmem : i ∈ (Finset.range bound).filter fun j => memo.find? (.value ⟨0, j⟩ 0) = none :=
    Finset.mem_filter.2 ⟨Finset.mem_range.2 hi, hm⟩
  rw [credit, credit, spend, Finset.sum_update_of_mem hmem,
    Finset.sum_eq_add_sum_sdiff_singleton_of_mem hmem]
  omega

lemma credit_le_spend (bound : Nat) (w : Nat → Nat) (i : Nat) (memo : Catalog Key Ty) :
    credit bound w memo ≤ credit bound (spend w i) memo + 1 := by
  by_cases hmem : i ∈ (Finset.range bound).filter fun j => memo.find? (.value ⟨0, j⟩ 0) = none
  · rw [credit, credit, spend, Finset.sum_update_of_mem hmem,
      Finset.sum_eq_add_sum_sdiff_singleton_of_mem hmem]
    omega
  · rw [credit, credit, spend, Finset.sum_update_of_notMem hmem]
    exact Nat.le_succ _

lemma filter_insert (bound i : Nat) (memo : Catalog Key Ty) (t : Ty) :
    (Finset.range bound).filter (fun j =>
        (memo.insert (.value ⟨0, i⟩ 0) t).find? (.value ⟨0, j⟩ 0) = none) =
      ((Finset.range bound).filter fun j => memo.find? (.value ⟨0, j⟩ 0) = none).erase i := by
  ext j
  by_cases hj : i = j
  · subst hj
    simp [Catalog.find?_insert]
  · simp [Catalog.find?_insert, hj, Ne.symm hj]

/-- Once an expression has an answer, it does not matter what is set aside for it. -/
lemma credit_insert_le_spend (bound : Nat) (w : Nat → Nat) (i : Nat) (memo : Catalog Key Ty)
    (t : Ty) :
    credit bound w (memo.insert (.value ⟨0, i⟩ 0) t) ≤ credit bound (spend w i) memo := by
  rw [credit, credit, filter_insert]
  calc ∑ j ∈ ((Finset.range bound).filter fun j => memo.find? (.value ⟨0, j⟩ 0) = none).erase i, w j
      = ∑ j ∈ ((Finset.range bound).filter fun j => memo.find? (.value ⟨0, j⟩ 0) = none).erase i,
          spend w i j :=
        Finset.sum_congr rfl fun j hj => (spend_of_ne (Finset.ne_of_mem_erase hj)).symm
    _ ≤ _ := Finset.sum_le_sum_of_subset (Finset.erase_subset _ _)

end Credit

/-! ## Paying for expressions -/

namespace Program

section Paying

variable {p : Program} {bound levels i : Nat} {w : Nat → Nat} {g : Guard} {e : Expr} {t : Ty}
  {s s₁ s₂ : Progress}

/-- Between `s` and `s'`, every expression is paid for by credit that is given up, or by a
truncation, which pays for as many expressions as there are levels. -/
structure Paid (bound : Nat) (w : Nat → Nat) (levels : Nat) (s s' : Progress) : Prop where
  expressions : s'.work.expressions + credit bound w s'.memo + levels * s.truncations ≤
    s.work.expressions + credit bound w s.memo + levels * s'.truncations
  truncations : s.truncations ≤ s'.truncations
  patience : s'.patience = s.patience

namespace Paid

lemma refl (bound : Nat) (w : Nat → Nat) (levels : Nat) (s : Progress) : Paid bound w levels s s :=
  ⟨le_rfl, le_rfl, rfl⟩

lemma trans (h : Paid bound w levels s s₁) (h' : Paid bound w levels s₁ s₂) :
    Paid bound w levels s s₂ where
  expressions := by
    have hfirst := h.expressions
    have hsecond := h'.expressions
    omega
  truncations := h.truncations.trans h'.truncations
  patience := h'.patience.trans h.patience

/-- A question without a level left. -/
lemma truncate (bound : Nat) (w : Nat → Nat) (levels : Nat) (s : Progress) :
    Paid bound w levels s s.truncate :=
  ⟨Nat.add_le_add_left (Nat.mul_le_mul_left _ (Nat.le_succ _)) _, Nat.le_succ _, rfl⟩

/-- What a query works on is paid for by the credit at its start, and by its depth hits. -/
theorem typeOf (hrun : p.infer none levels ∅ e 0 (Progress.record ∅ .query) = (t, s₁))
    (hpaid : Paid bound w levels (Progress.record ∅ .query) s₁) :
    ((p.withDepth levels).typeOf e).2.expressions ≤
      credit bound w ∅ + levels * ((p.withDepth levels).typeOf e).2.depthHits := by
  have hexpressions := hpaid.expressions
  have hnone : (Progress.record ∅ .query).truncations = 0 := rfl
  have hzero : (Progress.record ∅ .query).work.expressions = 0 := rfl
  have hmemo : (Progress.record ∅ .query).memo = ∅ := rfl
  rw [hnone, hzero, hmemo, Nat.mul_zero, Nat.add_zero, Nat.zero_add] at hexpressions
  rw [p.depthHits_withDepth, p.typeOf_withDepth, hrun]
  exact (Nat.le_add_right _ _).trans hexpressions

end Paid

/-- What is known about the memo after a question: the answer is kept if nothing was cut short. -/
def Settles (k : Key) (t : Ty) (s s₁ s' : Progress) : Prop :=
  s'.memo = s₁.memo ∨ Quiet s s₁ ∧ s'.memo = s₁.memo.insert k t

/-- A question about an expression that is not in progress and has no answer yet.  It pays for
itself, if its own questions can be paid for while one of its credit is set aside. -/
theorem infer_paid (he : e.id = ⟨0, i⟩) (hi : i < bound) (hw : 1 ≤ w i) (hc : s.patience = none)
    (hm : s.memo.find? (.value e.id 0) = none) (hk : .value e.id 0 ∉ g)
    (hrun : p.attempt none (p.infer none levels) g e 0 (s.record .expression) = (t, s₁))
    (hpaid : Paid bound (spend w i) levels (s.record .expression) s₁) :
    ∃ s', p.infer none (levels + 1) g e 0 s = (t, s') ∧ Paid bound w (levels + 1) s s' ∧
      Settles (.value e.id 0) t s s₁ s' ∧ s'.work = s₁.work := by
  have hexpressions : s₁.work.expressions + credit bound (spend w i) s₁.memo +
      levels * s.truncations ≤ s.work.expressions + 1 + credit bound (spend w i) s.memo +
        levels * s₁.truncations := hpaid.expressions
  have htruncations : s.truncations ≤ s₁.truncations := hpaid.truncations
  have hend : s₁.patience = s.patience := hpaid.patience
  have hstart := credit_spend hi hw (he ▸ hm)
  obtain ⟨cuts, hcuts⟩ := Nat.exists_eq_add_of_le htruncations
  refine ⟨_, infer_of_attempt levels hc hm hk hrun (hend.trans hc) hcuts, ?_⟩
  cases cuts with
  | zero =>
    -- the answer is kept, and gives up what was set aside
    have hquiet : s₁.truncations = s.truncations := hcuts
    have hkept := credit_insert_le_spend bound w i s₁.memo t
    rw [← he] at hkept
    refine ⟨⟨?_, htruncations, hend⟩, .inr ⟨hquiet, rfl⟩, rfl⟩
    show s₁.work.expressions + credit bound w (s₁.memo.insert (.value e.id 0) t) + _ ≤
      _ + _ * s₁.truncations
    rw [hquiet] at hexpressions ⊢
    omega
  | succ cuts =>
    -- a truncation pays, and what was set aside is there again
    have hrest := credit_le_spend bound w i s₁.memo
    refine ⟨⟨?_, htruncations, hend⟩, .inl rfl, rfl⟩
    show s₁.work.expressions + credit bound w s₁.memo + _ ≤ _ + _ * s₁.truncations
    rw [Nat.succ_mul, Nat.succ_mul]
    omega

/-- The same for an expression that can be entered, from the run of its plan. -/
lemma infer_paid_of_enter (he : e.id = ⟨0, i⟩) (hi : i < bound) (hw : 1 ≤ w i)
    (hc : s.patience = none) (hm : s.memo.find? (.value e.id 0) = none) (hg : e.isGuarded = true)
    (hk : .value e.id 0 ∉ g)
    (hrun : (p.plan e 0).run (p.infer none levels) none ⟨.value e.id 0 :: g.inFlight⟩
      (s.record .expression) = (t, s₁))
    (hpaid : Paid bound (spend w i) levels (s.record .expression) s₁) :
    ∃ s', p.infer none (levels + 1) g e 0 s = (t, s') ∧ Paid bound w (levels + 1) s s' ∧
      Settles (.value e.id 0) t s s₁ s' ∧ s'.work = s₁.work := by
  have henter : g.enter? (.value e.id 0) = some ⟨.value e.id 0 :: g.inFlight⟩ :=
    Guard.enter?_eq_some.2 ⟨hk, rfl⟩
  refine infer_paid he hi hw hc hm hk ?_ hpaid
  rw [p.attempt_of_enter none _ hg henter, hrun]

end Paying

end Program

end TypeQuery
