import Mathlib.Tactic.Lemma
import TypeQuery.Query

/-!
# What a run does to its progress

A query hands its progress from step to step.  A step looks up a name or a module, looks for a
cancellation, counts an event, notes a truncation, or keeps an answer; nothing else changes the
progress.  `Kept` collects what a
relation between the progress before and after has to satisfy to survive all of these, and
`Kept.infer` carries it over a whole run.  Three such relations are used later:

* `Progress.Extends`: truncations are never taken back, and an answer in the memo stays as it is;
* `depthHits_kept`: every truncation is counted as a depth hit, and nothing else is;
* `patience_kept`: a query that waits for no name, and that nobody cancels from outside, is not
  cancelled on the way.

An answer is put in the memo only under a key that was not there at the start of the work on it.  It
may have arrived in between, from work on the same expression further down, and is then replaced;
this is why the condition on keeping an answer speaks of the progress at the start.

Most of what is proved about runs holds however many looks find the query still running.  Where a run
has to come to an answer, nobody may cancel it; the step lemmas for such runs are in a section of
their own, since there a look leaves no trace.

A run is *quiet* if it notes no truncation.  A quiet run consists of quiet runs.

The tally is only ever added to, never read: what was counted before a run is counted on top of what
the run counts (`Program.infer_recount`), and runs that start with the same memory find the same and
end with the same memory (`Program.infer_same`).
-/

namespace TypeQuery

/-- The query is cancelled, or has kept an answer for the key: no work on it starts. -/
def Progress.Knows (s : Progress) (k : Key) : Prop :=
  s.cancelled = true ∨ ∃ t, s.memo.find? k = some t

lemma Progress.knows_or_open (s : Progress) (k : Key) :
    s.Knows k ∨ s.cancelled = false ∧ s.memo.find? k = none := by
  cases hc : s.cancelled with
  | true => exact .inl (.inl hc)
  | false =>
    cases hm : s.memo.find? k with
    | some t => exact .inl (.inr ⟨t, hm⟩)
    | none => exact .inr ⟨rfl, rfl⟩

/-! ## Looking for a cancellation -/

namespace Progress

variable {s : Progress}

lemma cancelled_iff : s.cancelled = true ↔ s.patience = some 0 := decide_eq_true_iff

lemma look_of_cancelled (h : s.cancelled = true) : s.look = s := by
  obtain ⟨memo, truncations, patience, work⟩ := s
  obtain rfl : patience = some 0 := cancelled_iff.1 h
  rfl

lemma look_of_patient (h : s.patience = none) : s.look = s := by
  obtain ⟨memo, truncations, patience, work⟩ := s
  obtain rfl : patience = none := h
  rfl

lemma cancelled_of_patient (h : s.patience = none) : s.cancelled = false := by
  simp [cancelled, h]

lemma knows_look {k : Key} (h : s.Knows k) : s.look.Knows k :=
  h.imp_left fun hc => (look_of_cancelled hc).symm ▸ hc

end Progress

/-! ## One step of a run -/

namespace Plan

variable (infer : Infer) (cancelOn : Option String) (g : Guard) (s : Progress)

@[simp] lemma run_answer (t : Ty) : (answer t).run infer cancelOn g s = (t, s) := rfl

@[simp] lemma run_ask (e : Expr) (slot : Nat) (next : Ty → Plan) :
    (ask e slot next).run infer cancelOn g s =
      (next (infer g e slot s).1).run infer cancelOn g (infer g e slot s).2 := rfl

@[simp] lemma run_consult (name : String) (next : Plan) :
    (consult name next).run infer cancelOn g s =
      next.run infer cancelOn g (s.consult cancelOn name) := rfl

@[simp] lemma run_lookUpModule (found : Bool) (next : Plan) :
    (lookUpModule found next).run infer cancelOn g s =
      next.run infer cancelOn g (s.record (.resolution found)) := rfl

variable {g}

lemma run_within_of_mem {key : Key} (h : g.enter? key = none) (body : Plan)
    (next : Option Ty → Plan) :
    (within key body next).run infer cancelOn g s = (next none).run infer cancelOn g s := by
  rw [run, h]

lemma run_within_of_enter {key : Key} {g' : Guard} (h : g.enter? key = some g') (body : Plan)
    (next : Option Ty → Plan) :
    (within key body next).run infer cancelOn g s =
      (next (some (body.run infer cancelOn g' s).1)).run infer cancelOn g
        (body.run infer cancelOn g' s).2 := by
  rw [run, h]

/-- Carrying out a plan, and then what goes on with its answer. -/
lemma run_bind {infer : Infer} {cancelOn : Option String} (plan : Plan) (k : Ty → Plan)
    (g : Guard) (s : Progress) :
    (plan.bind k).run infer cancelOn g s =
      (k (plan.run infer cancelOn g s).1).run infer cancelOn g (plan.run infer cancelOn g s).2 := by
  induction plan generalizing g s with
  | answer t => rfl
  | ask e slot next ih => exact ih _ g _
  | within key body next _ ih =>
    rw [bind]
    cases hk : g.enter? key with
    | none =>
      rw [run_within_of_mem _ _ _ hk, run_within_of_mem _ _ _ hk]
      exact ih none g s
    | some g' =>
      rw [run_within_of_enter _ _ _ hk, run_within_of_enter _ _ _ hk]
      exact ih _ g _
  | consult name next ih => exact ih g _
  | lookUpModule found next ih => exact ih g _

end Plan

namespace Program

variable (p : Program) (cancelOn : Option String) {g : Guard} {e : Expr} {slot : Nat} {s : Progress}

lemma visit_of_cancelled (deeper : Option Infer) (h : s.cancelled = true) :
    p.visit cancelOn deeper g e slot s = (.unknown, s) := by
  simp [visit, h]

lemma visit_of_memo (deeper : Option Infer) (hc : s.cancelled = false) {t : Ty}
    (h : s.memo.find? (.value e.id slot) = some t) :
    p.visit cancelOn deeper g e slot s = (t, s.look) := by
  simp [visit, hc, h]

lemma visit_none (hc : s.cancelled = false) (h : s.memo.find? (.value e.id slot) = none) :
    p.visit cancelOn none g e slot s = (.unknown, s.look.truncate) := by
  simp [visit, hc, h]

lemma visit_some (infer : Infer) (hc : s.cancelled = false)
    (h : s.memo.find? (.value e.id slot) = none) :
    p.visit cancelOn (some infer) g e slot s =
      ((p.attempt cancelOn infer g e slot (s.look.record .expression)).1,
        settle g (.value e.id slot) s.truncations
          (p.attempt cancelOn infer g e slot (s.look.record .expression)).1
          (p.attempt cancelOn infer g e slot (s.look.record .expression)).2) := by
  simp [visit, hc, h]

/-- Once a query is cancelled, nothing more is found. -/
lemma infer_of_cancelled (levels : Nat) (h : s.cancelled = true) :
    p.infer cancelOn levels g e slot s = (.unknown, s) := by
  cases levels <;> exact p.visit_of_cancelled cancelOn _ h

/-- An answer in the memo is used wherever it is asked for. -/
lemma infer_of_memo (levels : Nat) (hc : s.cancelled = false) {t : Ty}
    (h : s.memo.find? (.value e.id slot) = some t) :
    p.infer cancelOn levels g e slot s = (t, s.look) := by
  cases levels <;> exact p.visit_of_memo cancelOn _ hc h

/-- Where the answer is known, it does not depend on the guard and the levels, and nothing but a look
for a cancellation happens. -/
lemma infer_of_knows (h : s.Knows (.value e.id slot)) :
    ∃ t, ∀ levels g, p.infer cancelOn levels g e slot s = (t, s.look) := by
  cases hc : s.cancelled with
  | true =>
    rw [Progress.look_of_cancelled hc]
    exact ⟨.unknown, fun levels g => p.infer_of_cancelled cancelOn levels hc⟩
  | false =>
    obtain ⟨t, hm⟩ := h.resolve_left (by rw [hc]; exact Bool.false_ne_true)
    exact ⟨t, fun levels g => p.infer_of_memo cancelOn levels hc hm⟩

lemma infer_zero (hc : s.cancelled = false) (h : s.memo.find? (.value e.id slot) = none) :
    p.infer cancelOn 0 g e slot s = (.unknown, s.look.truncate) :=
  p.visit_none cancelOn hc h

lemma infer_succ (levels : Nat) (hc : s.cancelled = false)
    (h : s.memo.find? (.value e.id slot) = none) :
    p.infer cancelOn (levels + 1) g e slot s =
      ((p.attempt cancelOn (p.infer cancelOn levels) g e slot (s.look.record .expression)).1,
        settle g (.value e.id slot) s.truncations
          (p.attempt cancelOn (p.infer cancelOn levels) g e slot (s.look.record .expression)).1
          (p.attempt cancelOn (p.infer cancelOn levels) g e slot (s.look.record .expression)).2) :=
  p.visit_some cancelOn _ hc h

lemma attempt_of_unguarded (infer : Infer) (h : e.isGuarded = false) :
    p.attempt cancelOn infer g e slot s = (p.plan e slot).run infer cancelOn g s := by
  simp [attempt, h]

lemma attempt_of_mem (infer : Infer) (h : e.isGuarded = true)
    (hk : g.enter? (.value e.id slot) = none) :
    p.attempt cancelOn infer g e slot s = (.unknown, s.record .guardHit) := by
  simp [attempt, h, hk]

lemma attempt_of_enter (infer : Infer) (h : e.isGuarded = true) {g' : Guard}
    (hk : g.enter? (.value e.id slot) = some g') :
    p.attempt cancelOn infer g e slot s = (p.plan e slot).run infer cancelOn g' s := by
  simp [attempt, h, hk]

/-- A question about an expression whose work is in progress is refused, and nothing is kept. -/
lemma infer_of_mem (levels : Nat) (hc : s.cancelled = false)
    (hm : s.memo.find? (.value e.id slot) = none) (hg : e.isGuarded = true)
    (hk : .value e.id slot ∈ g) :
    p.infer cancelOn (levels + 1) g e slot s =
      (.unknown, (s.look.record .expression).record .guardHit) := by
  have hrefuse : g.enter? (.value e.id slot) = none := if_pos hk
  rw [p.infer_succ cancelOn levels hc hm, p.attempt_of_mem cancelOn _ hg hrefuse, settle,
    if_neg fun hkeep => hkeep.2.1 hk]

end Program

lemma Guard.enter?_eq_some {g g' : Guard} {k : Key} :
    g.enter? k = some g' ↔ k ∉ g ∧ g' = ⟨k :: g.inFlight⟩ := by
  simp only [enter?, Option.ite_none_left_eq_some, Option.some.injEq]
  exact and_congr_right fun _ => eq_comm

lemma Guard.mem_of_enter? {g g' : Guard} {k j : Key} (h : g.enter? k = some g') :
    j ∈ g' ↔ j = k ∨ j ∈ g := by
  obtain ⟨-, rfl⟩ := enter?_eq_some.1 h
  simp [mem_def]

/-! ## Relations that every step keeps -/

/-- The relation holds between the progress before and after each step of a run. -/
structure Kept (cancelOn : Option String) (R : Progress → Progress → Prop) : Prop where
  refl : ∀ s, R s s
  trans : ∀ {s₁ s₂ s₃}, R s₁ s₂ → R s₂ s₃ → R s₁ s₃
  look : ∀ s, R s s.look
  record : ∀ s event, event ≠ .depthHit → R s (s.record event)
  consult : ∀ s name, R s (s.consult cancelOn name)
  truncate : ∀ s, R s s.truncate
  memoize : ∀ {s s'} k t, R s s' → s.memo.find? k = none → R s (s'.memoize k t)

namespace Kept

variable {cancelOn : Option String} {R : Progress → Progress → Prop} (hR : Kept cancelOn R)
include hR

/-- What holds from question to question holds over a plan. -/
lemma run {infer : Infer} (hinfer : ∀ g e slot s, R s (infer g e slot s).2) (plan : Plan)
    (g : Guard) (s : Progress) : R s (plan.run infer cancelOn g s).2 := by
  induction plan generalizing g s with
  | answer t => exact hR.refl s
  | ask e slot next ih => exact hR.trans (hinfer g e slot s) (ih _ g _)
  | within key body next ihb ihn =>
    cases hk : g.enter? key with
    | none =>
      rw [Plan.run_within_of_mem _ _ _ hk]
      exact ihn none g s
    | some g' =>
      rw [Plan.run_within_of_enter _ _ _ hk]
      exact hR.trans (ihb g' s) (ihn _ g _)
  | consult name next ih => exact hR.trans (hR.consult s name) (ih g _)
  | lookUpModule found next ih => exact hR.trans (hR.record s _ (by simp)) (ih g _)

lemma attempt (p : Program) {infer : Infer} (hinfer : ∀ g e slot s, R s (infer g e slot s).2)
    (g : Guard) (e : Expr) (slot : Nat) (s : Progress) :
    R s (p.attempt cancelOn infer g e slot s).2 := by
  unfold Program.attempt
  split
  · split
    · exact hR.record s _ (by simp)
    · exact hR.run hinfer _ _ s
  · exact hR.run hinfer _ _ s

lemma visit (p : Program) {deeper : Option Infer}
    (hdeeper : ∀ infer ∈ deeper, ∀ g e slot s, R s (infer g e slot s).2) (g : Guard) (e : Expr)
    (slot : Nat) (s : Progress) : R s (p.visit cancelOn deeper g e slot s).2 := by
  cases hc : s.cancelled with
  | true =>
    rw [p.visit_of_cancelled _ _ hc]
    exact hR.refl s
  | false =>
    cases hm : s.memo.find? (.value e.id slot) with
    | some t =>
      rw [p.visit_of_memo _ _ hc hm]
      exact hR.look s
    | none =>
      cases deeper with
      | none =>
        rw [p.visit_none _ hc hm]
        exact hR.trans (hR.look s) (hR.truncate _)
      | some infer =>
        rw [p.visit_some _ _ hc hm]
        have hwork := hR.trans (hR.look s) <| hR.trans (hR.record _ .expression (by simp))
          (hR.attempt p (hdeeper infer rfl) g e slot _)
        unfold Program.settle
        split
        · exact hR.memoize _ _ (hR.trans hwork (hR.look _)) hm
        · exact hwork

/-- What every step keeps, a whole run keeps. -/
theorem infer (p : Program) (levels : Nat) (g : Guard) (e : Expr) (slot : Nat) (s : Progress) :
    R s (p.infer cancelOn levels g e slot s).2 := by
  induction levels generalizing g e slot s with
  | zero => exact hR.visit p (by simp) g e slot s
  | succ levels ih =>
    refine hR.visit p (fun infer hinfer => ?_) g e slot s
    obtain rfl := Option.some.inj hinfer
    exact ih

end Kept

/-! ## The three relations -/

namespace Progress

/-- The truncations of `s` are not taken back in `s'`, and the answers in its memo are still there,
unchanged. -/
structure Extends (s s' : Progress) : Prop where
  truncations_le : s.truncations ≤ s'.truncations
  memo : ∀ k t, s.memo.find? k = some t → s'.memo.find? k = some t

lemma consult_memo (s : Progress) (cancelOn : Option String) (name : String) :
    (s.consult cancelOn name).memo = s.memo := by
  unfold consult
  split <;> rfl

lemma consult_truncations (s : Progress) (cancelOn : Option String) (name : String) :
    (s.consult cancelOn name).truncations = s.truncations := by
  unfold consult
  split <;> rfl

lemma consult_work (s : Progress) (cancelOn : Option String) (name : String) :
    (s.consult cancelOn name).work = s.work := by
  unfold consult
  split <;> rfl

@[simp] lemma consult_none (s : Progress) (name : String) : s.consult none name = s := by
  simp [consult]

end Progress

open Progress

/-- Every run extends its progress. -/
lemma extends_kept (cancelOn : Option String) : Kept cancelOn Extends where
  refl _ := ⟨Nat.le_refl _, fun _ _ h => h⟩
  trans h₁ h₂ := ⟨Nat.le_trans h₁.1 h₂.1, fun k t h => h₂.2 k t (h₁.2 k t h)⟩
  look _ := ⟨Nat.le_refl _, fun _ _ h => h⟩
  record _ _ _ := ⟨Nat.le_refl _, fun _ _ h => h⟩
  consult s name :=
    ⟨Nat.le_of_eq (consult_truncations s cancelOn name).symm, fun _ _ h => by rwa [consult_memo]⟩
  truncate _ := ⟨Nat.le_succ _, fun _ _ h => h⟩
  memoize {s s'} k t h hk := by
    refine ⟨h.1, fun k' t' h' => ?_⟩
    -- the key of an old answer is another key, since `k` had none
    have hne : k ≠ k' := by
      rintro rfl
      rw [hk] at h'
      cases h'
    show (s'.memo.insert k t).find? k' = some t'
    rw [Catalog.find?_insert, if_neg hne]
    exact h.2 k' t' h'

/-- A run counts a depth hit for each truncation. -/
theorem depthHits_kept (cancelOn : Option String) :
    Kept cancelOn fun s s' =>
      s'.work.depthHits + s.truncations = s.work.depthHits + s'.truncations where
  refl _ := rfl
  trans h₁ h₂ := by omega
  look _ := rfl
  record s event h := by
    cases event with
    | depthHit => exact absurd rfl h
    | resolution found => cases found <;> rfl
    | _ => rfl
  consult s name := by rw [consult_truncations, consult_work]
  truncate s := by
    show s.work.depthHits + 1 + s.truncations = s.work.depthHits + (s.truncations + 1)
    omega
  memoize _ _ h _ := h

/-- A query that waits for no name, and that nobody cancels, is not cancelled on the way. -/
theorem patience_kept : Kept none fun s s' => s.patience = none → s'.patience = none where
  refl _ h := h
  trans h₁ h₂ h := h₂ (h₁ h)
  look s h := (congrArg patience (look_of_patient h)).trans h
  record _ _ _ h := h
  consult s name h := by rwa [consult_none]
  truncate _ h := h
  memoize _ _ h _ := h

/-! ## Quiet runs -/

/-- A way to answer that extends the progress. -/
def Infer.Grows (infer : Infer) : Prop := ∀ g e slot s, Extends s (infer g e slot s).2

lemma Program.infer_grows (p : Program) (cancelOn : Option String) (levels : Nat) :
    Infer.Grows (p.infer cancelOn levels) :=
  (extends_kept cancelOn).infer p levels

namespace Progress

/-- No truncation is noted between `s` and `s'`. -/
def Quiet (s s' : Progress) : Prop := s'.truncations = s.truncations

/-- Both halves of a quiet stretch are quiet. -/
lemma Quiet.split {s₁ s₂ s₃ : Progress} (h : Quiet s₁ s₃) (h₁ : Extends s₁ s₂)
    (h₂ : Extends s₂ s₃) : Quiet s₁ s₂ ∧ Quiet s₂ s₃ := by
  have hle₁ := h₁.truncations_le
  have hle₂ := h₂.truncations_le
  unfold Quiet at h ⊢
  omega

end Progress

namespace Plan

variable {infer : Infer} {cancelOn : Option String} {g : Guard} {s : Progress}

lemma run_extends (hinfer : infer.Grows) (plan : Plan) :
    Extends s (plan.run infer cancelOn g s).2 :=
  (extends_kept cancelOn).run hinfer plan g s

lemma quiet_ask (hinfer : infer.Grows) {e : Expr} {slot : Nat} {next : Ty → Plan}
    (h : Quiet s ((ask e slot next).run infer cancelOn g s).2) :
    Quiet s (infer g e slot s).2 ∧
      Quiet (infer g e slot s).2
        ((next (infer g e slot s).1).run infer cancelOn g (infer g e slot s).2).2 :=
  h.split (hinfer g e slot s) (run_extends hinfer _)

lemma quiet_within (hinfer : infer.Grows) {key : Key} {body : Plan} {next : Option Ty → Plan}
    {g' : Guard} (hk : g.enter? key = some g')
    (h : Quiet s ((within key body next).run infer cancelOn g s).2) :
    Quiet s (body.run infer cancelOn g' s).2 ∧
      Quiet (body.run infer cancelOn g' s).2
        ((next (some (body.run infer cancelOn g' s).1)).run infer cancelOn g
          (body.run infer cancelOn g' s).2).2 := by
  rw [run_within_of_enter _ _ _ hk] at h
  exact h.split (run_extends hinfer body) (run_extends hinfer _)

end Plan

/-- A question without a level left is not quiet, unless its answer is known. -/
lemma Program.not_quiet_infer_zero (p : Program) {cancelOn : Option String} {g : Guard} {e : Expr}
    {slot : Nat} {s : Progress} (hc : s.cancelled = false)
    (hm : s.memo.find? (.value e.id slot) = none) :
    ¬ Quiet s (p.infer cancelOn 0 g e slot s).2 := by
  rw [p.infer_zero cancelOn hc hm]
  exact Nat.succ_ne_self _

/-- Keeping an answer, or not, changes no count. -/
lemma Program.settle_truncations (g : Guard) (k : Key) (before : Nat) (t : Ty) (s : Progress) :
    (settle g k before t s).truncations = s.truncations := by
  unfold settle
  split <;> rfl

lemma Program.settle_work (g : Guard) (k : Key) (before : Nat) (t : Ty) (s : Progress) :
    (settle g k before t s).work = s.work := by
  unfold settle
  split <;> rfl

/-! ## Runs that nobody cancels -/

namespace Program

variable (p : Program) (cancelOn : Option String) {g : Guard} {e : Expr} {slot : Nat} {s : Progress}
  (hc : s.patience = none)
include hc

lemma infer_of_memo_patient (levels : Nat) {t : Ty}
    (h : s.memo.find? (.value e.id slot) = some t) :
    p.infer cancelOn levels g e slot s = (t, s) := by
  rw [p.infer_of_memo cancelOn levels (cancelled_of_patient hc) h, look_of_patient hc]

lemma infer_zero_patient (h : s.memo.find? (.value e.id slot) = none) :
    p.infer cancelOn 0 g e slot s = (.unknown, s.truncate) := by
  rw [p.infer_zero cancelOn (cancelled_of_patient hc) h, look_of_patient hc]

lemma infer_succ_patient (levels : Nat) (h : s.memo.find? (.value e.id slot) = none) :
    p.infer cancelOn (levels + 1) g e slot s =
      ((p.attempt cancelOn (p.infer cancelOn levels) g e slot (s.record .expression)).1,
        settle g (.value e.id slot) s.truncations
          (p.attempt cancelOn (p.infer cancelOn levels) g e slot (s.record .expression)).1
          (p.attempt cancelOn (p.infer cancelOn levels) g e slot (s.record .expression)).2) := by
  rw [p.infer_succ cancelOn levels (cancelled_of_patient hc) h, look_of_patient hc]

lemma infer_of_mem_patient (levels : Nat) (hm : s.memo.find? (.value e.id slot) = none)
    (hg : e.isGuarded = true) (hk : .value e.id slot ∈ g) :
    p.infer cancelOn (levels + 1) g e slot s =
      (.unknown, (s.record .expression).record .guardHit) := by
  rw [p.infer_of_mem cancelOn levels (cancelled_of_patient hc) hm hg hk, look_of_patient hc]

omit p cancelOn in
/-- A quiet answer is kept, unless work on the same key is in progress. -/
lemma settle_patient {k : Key} (hk : k ∉ g) (t : Ty) {before : Nat}
    (hq : s.truncations = before) : settle g k before t s = s.memoize k t := by
  rw [settle, if_pos ⟨hq, hk, cancelled_of_patient hc⟩, look_of_patient hc]

end Program

/-! ## The tally is never read -/

namespace Progress

/-- The two differ at most in their tallies. -/
structure Same (s s' : Progress) : Prop where
  memo : s.memo = s'.memo
  truncations : s.truncations = s'.truncations
  patience : s.patience = s'.patience

lemma Same.cancelled {s s' : Progress} (h : Same s s') : s.cancelled = s'.cancelled :=
  congrArg (fun n => decide (n = some 0)) h.patience

lemma Same.record {s s' : Progress} (h : Same s s') (event event' : Event) :
    Same (s.record event) (s'.record event') := ⟨h.memo, h.truncations, h.patience⟩

/-- The progress with its tally changed. -/
def recount (f : Tally → Tally) (s : Progress) : Progress := { s with work := f s.work }

end Progress

/-- Runs with the same answer that leave the same memory. -/
def Alike (r r' : Ty × Progress) : Prop := r.1 = r'.1 ∧ Same r.2 r'.2

/-- It does not matter whether the tally is changed before an event is counted or after it. -/
def Tally.Steady (f : Tally → Tally) : Prop := ∀ t event, f (t.record event) = (f t).record event

lemma Tally.steady_record (event : Event) : Steady (·.record event) := by
  intro t event'
  rcases event with _ | _ | _ | _ | _ | (_ | _) <;>
    rcases event' with _ | _ | _ | _ | _ | (_ | _) <;> rfl

lemma Tally.steady_add (t : Tally) : Steady (t + ·) := by
  intro u event
  rcases event with _ | _ | _ | _ | _ | (_ | _) <;> rfl

section Recount

variable {f : Tally → Tally} (hf : Tally.Steady f) {infer : Infer} {cancelOn : Option String}
include hf

lemma Progress.recount_record (s : Progress) (event : Event) :
    (s.recount f).record event = (s.record event).recount f :=
  congrArg (fun work => { s with work }) (hf s.work event).symm

lemma Plan.run_recount
    (hinfer : ∀ g e slot s,
      infer g e slot (s.recount f) = ((infer g e slot s).1, (infer g e slot s).2.recount f))
    (plan : Plan) (g : Guard) (s : Progress) :
    plan.run infer cancelOn g (s.recount f) =
      ((plan.run infer cancelOn g s).1, (plan.run infer cancelOn g s).2.recount f) := by
  induction plan generalizing g s with
  | answer t => rfl
  | ask e slot next ih =>
    rw [run_ask, run_ask, hinfer]
    exact ih _ g _
  | within key body next ihb ihn =>
    cases hk : g.enter? key with
    | none =>
      rw [run_within_of_mem _ _ _ hk, run_within_of_mem _ _ _ hk]
      exact ihn none g s
    | some g' =>
      rw [run_within_of_enter _ _ _ hk, run_within_of_enter _ _ _ hk, ihb g' s]
      exact ihn _ g _
  | consult name next ih =>
    have hconsult : (s.recount f).consult cancelOn name =
        (s.consult cancelOn name).recount f := by
      unfold Progress.consult
      split <;> rfl
    rw [run_consult, run_consult, hconsult]
    exact ih g _
  | lookUpModule found next ih =>
    rw [run_lookUpModule, run_lookUpModule, recount_record hf]
    exact ih g _

namespace Program

variable (p : Program)

lemma attempt_recount
    (hinfer : ∀ g e slot s,
      infer g e slot (s.recount f) = ((infer g e slot s).1, (infer g e slot s).2.recount f))
    (g : Guard) (e : Expr) (slot : Nat) (s : Progress) :
    p.attempt cancelOn infer g e slot (s.recount f) =
      ((p.attempt cancelOn infer g e slot s).1,
        (p.attempt cancelOn infer g e slot s).2.recount f) := by
  unfold attempt
  split
  · split
    · rw [recount_record hf]
    · exact Plan.run_recount hf hinfer _ _ s
  · exact Plan.run_recount hf hinfer _ g s

omit hf in
lemma settle_recount (g : Guard) (k : Key) (before : Nat) (t : Ty) (s : Progress) :
    settle g k before t (s.recount f) = (settle g k before t s).recount f := by
  have hiff : (s.recount f).truncations = before ∧ k ∉ g ∧ (s.recount f).cancelled = false ↔
      s.truncations = before ∧ k ∉ g ∧ s.cancelled = false := Iff.rfl
  unfold settle
  by_cases hkeep : s.truncations = before ∧ k ∉ g ∧ s.cancelled = false
  · rw [if_pos hkeep, if_pos (hiff.2 hkeep)]
    rfl
  · rw [if_neg hkeep, if_neg (mt hiff.1 hkeep)]

lemma visit_recount {deeper : Option Infer}
    (hdeeper : ∀ infer ∈ deeper, ∀ g e slot s,
      infer g e slot (s.recount f) = ((infer g e slot s).1, (infer g e slot s).2.recount f))
    (g : Guard) (e : Expr) (slot : Nat) (s : Progress) :
    p.visit cancelOn deeper g e slot (s.recount f) =
      ((p.visit cancelOn deeper g e slot s).1,
        (p.visit cancelOn deeper g e slot s).2.recount f) := by
  cases hc : s.cancelled with
  | true => rw [p.visit_of_cancelled _ _ hc, p.visit_of_cancelled (s := s.recount f) _ _ hc]
  | false =>
    cases hm : s.memo.find? (.value e.id slot) with
    | some t =>
      rw [p.visit_of_memo _ _ hc hm, p.visit_of_memo (s := s.recount f) _ _ hc hm]
      rfl
    | none =>
      cases deeper with
      | none =>
        rw [p.visit_none _ hc hm, p.visit_none (s := s.recount f) _ hc hm]
        exact congrArg (fun work => (Ty.unknown, { s.look.truncate with work })) (hf s.work _).symm
      | some infer =>
        have hstart : (s.recount f).look.record .expression = (s.look.record .expression).recount f :=
          recount_record hf s.look .expression
        have hwork : p.attempt cancelOn infer g e slot ((s.look.record .expression).recount f) = _ :=
          p.attempt_recount hf (hdeeper infer rfl) g e slot (s.look.record .expression)
        rw [p.visit_some _ _ hc hm, p.visit_some (s := s.recount f) _ _ hc hm, hstart, hwork,
          settle_recount]
        rfl

/-- A change of the tally before a run comes to the same as the change after it. -/
theorem infer_recount (levels : Nat) (g : Guard) (e : Expr) (slot : Nat) (s : Progress) :
    p.infer cancelOn levels g e slot (s.recount f) =
      ((p.infer cancelOn levels g e slot s).1,
        (p.infer cancelOn levels g e slot s).2.recount f) := by
  induction levels generalizing g e slot s with
  | zero => exact p.visit_recount hf (by simp) g e slot s
  | succ levels ih =>
    refine p.visit_recount hf (fun infer hinfer => ?_) g e slot s
    obtain rfl := Option.some.inj hinfer
    exact ih

end Program

end Recount

namespace Program

lemma settle_same {g : Guard} {k : Key} {before : Nat} {t : Ty} {s s' : Progress}
    (h : Same s s') : Same (settle g k before t s) (settle g k before t s') := by
  unfold settle
  rw [h.truncations, h.cancelled]
  split
  · exact ⟨congrArg (·.insert k t) h.memo, h.truncations, congrArg (·.map (· - 1)) h.patience⟩
  · exact h

/-- What was counted before a run has no influence on it. -/
theorem infer_same (p : Program) (cancelOn : Option String) (levels : Nat) (g : Guard) (e : Expr)
    (slot : Nat) {s s' : Progress} (h : Same s s') :
    Alike (p.infer cancelOn levels g e slot s) (p.infer cancelOn levels g e slot s') := by
  -- both start with the same memory, and differ in what is added to an empty tally
  let idle : Progress := { s with work := ∅ }
  have hs : s = idle.recount (s.work + ·) := rfl
  have hs' : s' = idle.recount (s'.work + ·) := by
    obtain ⟨hmemo, htruncations, hpatience⟩ := h
    cases s'
    subst hmemo htruncations hpatience
    rfl
  rw [hs, hs', p.infer_recount (Tally.steady_add _), p.infer_recount (Tally.steady_add _)]
  exact ⟨rfl, rfl, rfl, rfl⟩

end Program

end TypeQuery
