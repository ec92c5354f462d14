import Mathlib.Data.Nat.Find
import TypeQuery.Proofs.Value

/-!
# What a cycle cannot touch

On a cycle the guard cuts the work short, and what is found there depends on where the query came
from.  The memo keeps such an answer like any other.  This file shows how far the damage goes: an
expression that has a value gets it in every query that is not too deep, whatever cycles the query
has met before, or is in the middle of.

Two facts say this.

* `Program.infer_finds`: with a memo that is right about the expressions that have values, and none
  of these in progress, a query for one of them finds its value.
* `Program.infer_inStep`: two queries whose memos are both right in this sense, and agree about all
  other expressions, give the same answers from then on.  So what a query has kept about expressions
  that have values never shows.

The first is by induction on the number of nested plans that the value takes, and not on the depth.
The query may be in the middle of a cycle, with keys in progress that would be refused; the
invariant is `Program.Clear`: nothing that ends within that number of plans is in progress.  Entering
an expression keeps it for the questions of its plan, since the value of the expression takes more
plans than theirs.  The work under the key of a module member is done at the least number of plans
that is enough for it, for the same reason.

The second is by induction on the levels.  An expression that has a value is answered alike by the
first fact, and any other one is looked up, refused or worked on by both queries alike.
-/

namespace TypeQuery

open Progress

namespace Program

/-- Ids tell apart what a query tells apart by them: different expressions, and declarations with
different names or modules. -/
structure WellNumbered (p : Program) (es : List Expr) : Prop where
  exprs : Distinct (p.nodes es)
  declarations : ∀ d ∈ p.declarations, ∀ d' ∈ p.declarations, d.id = d'.id →
    d.name = d'.name ∧ d.ofModule = d'.ofModule

variable (p : Program) (es : List Expr)

/-! ## Work that ends -/

/-- Done plainly, the work of the key ends within `n` nested plans. -/
def Finishes (n : Nat) : Key → Prop
  | .value id slot => ∃ e ∈ p.nodes es, e.id = id ∧ (p.value? n e slot).isSome
  | .member id => ∃ d ∈ p.declarations, ∃ m, d.ofModule = some m ∧ d.id = id ∧
      ∃ j < n, ((p.fieldType (.declared m) d.name).value? (p.value? j)).isSome

/-- Nothing that ends within `n` nested plans is in progress. -/
def Clear (n : Nat) (g : Guard) : Prop := ∀ k ∈ g, ¬ p.Finishes es n k

variable {p es} {n m : Nat} {g g' : Guard} {k : Key}

lemma Finishes.mono (hnm : n ≤ m) (h : p.Finishes es n k) : p.Finishes es m k := by
  cases k with
  | value id slot =>
    obtain ⟨e, he, hid, h⟩ := h
    obtain ⟨t, ht⟩ := Option.isSome_iff_exists.1 h
    refine ⟨e, he, hid, ?_⟩
    rw [value?_mono hnm ht, Option.isSome_some]
  | member id =>
    obtain ⟨d, hd, c, hc, hid, j, hj, h⟩ := h
    exact ⟨d, hd, c, hc, hid, j, by omega, h⟩

lemma Clear.mono (hnm : n ≤ m) (h : p.Clear es m g) : p.Clear es n g :=
  fun k hk hf => h k hk (hf.mono hnm)

lemma clear_empty : p.Clear es n ∅ := by
  intro k hk
  cases hk

/-- Work that takes longer may start. -/
lemma Clear.enter (h : p.Clear es n g) (hk : g.enter? k = some g')
    (hf : ¬ p.Finishes es n k) : p.Clear es n g' := by
  intro j hj
  obtain rfl | hj := (Guard.mem_of_enter? hk).1 hj
  · exact hf
  · exact h j hj

lemma WellNumbered.finishes_value (hp : p.WellNumbered es) {e : Expr} (he : e ∈ p.nodes es)
    {slot : Nat} : p.Finishes es n (.value e.id slot) ↔ (p.value? n e slot).isSome := by
  constructor
  · rintro ⟨x, hx, hid, h⟩
    obtain rfl := hp.exprs x hx e he hid
    exact h
  · intro h
    exact ⟨e, he, rfl, h⟩

lemma WellNumbered.finishes_member (hp : p.WellNumbered es) {d : Declaration} {c : String}
    (hd : d ∈ p.declarations) (hc : d.ofModule = some c) :
    p.Finishes es n (.member d.id) ↔
      ∃ j < n, ((p.fieldType (.declared c) d.name).value? (p.value? j)).isSome := by
  constructor
  · rintro ⟨d', hd', c', hc', hid, h⟩
    obtain ⟨hname, hmodule⟩ := hp.declarations d' hd' d hd hid
    obtain rfl : c' = c := Option.some.inj (hc'.symm.trans (hmodule.trans hc))
    rwa [← hname]
  · intro h
    exact ⟨d, hd, c, hc, rfl, h⟩

/-! ## Memos that are right where there is a value -/

variable (p es)

/-- What the memo holds about an expression that has a value is that value. -/
def Right (s : Progress) : Prop :=
  ∀ e ∈ p.nodes es, ∀ slot t u, p.HasValue e slot u →
    s.memo.find? (.value e.id slot) = some t → t = u

/-- The memos hold the same about expressions without a value. -/
def Agree (s s' : Progress) : Prop :=
  ∀ e ∈ p.nodes es, ∀ slot, (¬ ∃ t, p.HasValue e slot t) →
    s.memo.find? (.value e.id slot) = s'.memo.find? (.value e.id slot)

/-- Work that starts at `s` finds `t`, and touches the memo only where there are values. -/
structure Finds (s : Progress) (t : Ty) (r : Ty × Progress) : Prop where
  answer : r.1 = t
  right : p.Right es r.2
  agree : p.Agree es s r.2

variable {p es} {levels slot : Nat} {e : Expr} {s s' : Progress} {t : Ty}

lemma Agree.trans {s₁ s₂ s₃ : Progress} (h₁ : p.Agree es s₁ s₂) (h₂ : p.Agree es s₂ s₃) :
    p.Agree es s₁ s₃ :=
  fun x hx i hv => (h₁ x hx i hv).trans (h₂ x hx i hv)

lemma Agree.symm (h : p.Agree es s s') : p.Agree es s' s := fun x hx i hv => (h x hx i hv).symm

lemma agree_record (event : Event) : p.Agree es s (s.record event) := fun _ _ _ _ => rfl

lemma Finds.of_agree {r : Ty × Progress} (ha : p.Agree es s s') (h : p.Finds es s' t r) :
    p.Finds es s t r := ⟨h.answer, h.right, ha.trans h.agree⟩

lemma Right.memoize (hp : p.WellNumbered es) (he : e ∈ p.nodes es)
    (ht : ∀ u, p.HasValue e slot u → t = u) (hs : p.Right es s) :
    p.Right es (s.memoize (.value e.id slot) t) := by
  intro x hx i v u hu hv
  change (s.memo.insert _ _).find? _ = some v at hv
  rw [Catalog.find?_insert] at hv
  split at hv
  next hkey =>
    obtain ⟨hid, rfl⟩ := Key.value.inj hkey
    obtain rfl := hp.exprs e he x hx hid
    exact Option.some.inj hv ▸ ht u hu
  next => exact hs x hx i v u hu hv

lemma agree_memoize (hp : p.WellNumbered es) (he : e ∈ p.nodes es) {u : Ty}
    (hu : p.HasValue e slot u) : p.Agree es s (s.memoize (.value e.id slot) t) := by
  intro x hx i hv
  change _ = (s.memo.insert _ _).find? _
  rw [Catalog.find?_insert, if_neg]
  intro hkey
  obtain ⟨hid, rfl⟩ := Key.value.inj hkey
  obtain rfl := hp.exprs e he x hx hid
  exact hv ⟨u, hu⟩

/-- What is found is settled. -/
lemma Finds.settle (hp : p.WellNumbered es) (he : e ∈ p.nodes es) (ht : p.HasValue e slot t)
    {r : Ty × Progress} (h : p.Finds es s t r) (before : Nat) :
    p.Finds es s t (r.1, settle g (.value e.id slot) before r.1 r.2) := by
  obtain ⟨rfl, hr, ha⟩ := h
  unfold Program.settle
  split
  · refine ⟨rfl, hr.memoize hp he fun u hu => ht.unique hu, ?_⟩
    exact ha.trans (agree_memoize hp he ht)
  · exact ⟨rfl, hr, ha⟩

/-! ## Values are found -/

/-- With this many levels left, a quiet query finds the values that take up to `n` nested plans. -/
def FindsWithin (p : Program) (es : List Expr) (levels n : Nat) : Prop :=
  ∀ g e slot s t, p.Holds es e slot → p.value? n e slot = some t → p.Clear es n g →
    s.patience = none → p.Right es s → Quiet s (p.infer none levels g e slot s).2 →
    p.Finds es s t (p.infer none levels g e slot s)

/-- A plan with a value finds it, if the questions and the work under keys do. -/
lemma run_finds {plan : Plan} {W : Key → Plan → Prop} (hplan : plan.Confined (p.Holds es) W)
    (hinfer : p.FindsWithin es levels n) (hg : p.Clear es n g)
    (hwithin : ∀ key body, W key body → ∀ u s, body.value? (p.value? n) = some u →
      s.patience = none → p.Right es s → ∃ g', g.enter? key = some g' ∧
        (Quiet s (body.run (p.infer none levels) none g' s).2 →
          p.Finds es s u (body.run (p.infer none levels) none g' s)))
    (ht : plan.value? (p.value? n) = some t) (hc : s.patience = none) (hs : p.Right es s)
    (hq : Quiet s (plan.run (p.infer none levels) none g s).2) :
    p.Finds es s t (plan.run (p.infer none levels) none g s) := by
  have hgrows := p.infer_grows none levels
  induction plan generalizing s with
  | answer u => exact ⟨Option.some.inj ht, hs, fun _ _ _ _ => rfl⟩
  | ask e slot next ih =>
    obtain ⟨u, hu, hnext⟩ := Option.bind_eq_some_iff.1 ht
    obtain ⟨hq₁, hq₂⟩ := Plan.quiet_ask hgrows hq
    obtain ⟨rfl, hs₁, ha₁⟩ := hinfer g e slot s u hplan.1 hu hg hc hs hq₁
    have hc₁ := patience_kept.infer p levels g e slot s hc
    exact (ih _ (hplan.2 _) hnext hc₁ hs₁ hq₂).of_agree ha₁
  | within key body next _ ih =>
    obtain ⟨u, hu, hnext⟩ := Option.bind_eq_some_iff.1 ht
    obtain ⟨g', hk, hbody⟩ := hwithin key body hplan.1 u s hu hc hs
    obtain ⟨hq₁, hq₂⟩ := Plan.quiet_within hgrows hk hq
    obtain ⟨rfl, hs₁, ha₁⟩ := hbody hq₁
    have hc₁ := patience_kept.run (patience_kept.infer p levels) body g' s hc
    rw [Plan.run_within_of_enter _ _ _ hk]
    exact (ih _ (hplan.2.2 _) hnext hc₁ hs₁ hq₂).of_agree ha₁
  | consult name next ih =>
    rw [Plan.run_consult, consult_none] at hq ⊢
    exact ih hplan ht hc hs hq
  | lookUpModule found next ih =>
    exact (ih hplan ht (s := s.record _) hc hs hq).of_agree (agree_record _)

/-- The look-up of a declaration among the members of its module finds its value. -/
lemma memberWork_finds (hp : p.WellNumbered es) {body : Plan} (hw : p.MemberWork k body)
    (hinfer : ∀ j ≤ n, p.FindsWithin es levels j) (hg : p.Clear es n g)
    (hk : g.enter? k = some g') (ht : body.value? (p.value? n) = some t)
    (hc : s.patience = none) (hs : p.Right es s)
    (hq : Quiet s (body.run (p.infer none levels) none g' s).2) :
    p.Finds es s t (body.run (p.infer none levels) none g' s) := by
  obtain ⟨d, hd, c, hdc, rfl, rfl⟩ := hw
  -- at the least number of plans that is enough, the key itself does not end in time
  have henough : ∃ j, ((p.fieldType (.declared c) d.name).value? (p.value? j)).isSome :=
    ⟨n, by rw [ht, Option.isSome_some]⟩
  have hle : Nat.find henough ≤ n := Nat.find_min' henough (by rw [ht, Option.isSome_some])
  obtain ⟨u, hu⟩ := Option.isSome_iff_exists.1 (Nat.find_spec henough)
  obtain rfl : t = u := Option.some.inj (ht.symm.trans (plan_value?_mono hle hu))
  have hlate : ¬ p.Finishes es (Nat.find henough) (.member d.id) := by
    rw [hp.finishes_member hd hdc]
    rintro ⟨j, hj, h⟩
    exact Nat.find_min henough hj h
  have hg' := (hg.mono hle).enter hk hlate
  exact run_finds (W := fun _ _ => False) fieldType_holds (hinfer _ hle) hg'
    (fun _ _ h => h.elim) hu hc hs hq

/-- Where an expression that ends is attempted, its plan is carried out: under a guard that keeps
clear of what its questions need, and that does not hold the members that it looks up. -/
lemma attempt_clear (hp : p.WellNumbered es) (he : e ∈ p.nodes es)
    (hsome : (p.value? (n + 1) e slot).isSome) (hnone : p.value? n e slot = none)
    (hg : p.Clear es (n + 1) g) :
    ∃ g', (∀ infer s, p.attempt none infer g e slot s = (p.plan e slot).run infer none g' s) ∧
      p.Clear es n g' ∧ ∀ id, p.Finishes es (n + 1) (.member id) → .member id ∉ g' := by
  cases hguarded : e.isGuarded with
  | false =>
    refine ⟨g, fun infer s => p.attempt_of_unguarded _ _ hguarded, hg.mono (Nat.le_succ n), ?_⟩
    intro id hf hid
    exact hg _ hid hf
  | true =>
    have hkey : .value e.id slot ∉ g := fun hin => hg _ hin ((hp.finishes_value he).2 hsome)
    obtain ⟨g', hk⟩ : ∃ g', g.enter? (.value e.id slot) = some g' :=
      ⟨_, Guard.enter?_eq_some.2 ⟨hkey, rfl⟩⟩
    have hlate : ¬ p.Finishes es n (.value e.id slot) := by
      rw [hp.finishes_value he, hnone]
      exact Bool.false_ne_true
    refine ⟨g', fun infer s => p.attempt_of_enter _ _ hguarded hk, ?_, ?_⟩
    · exact (hg.mono (Nat.le_succ n)).enter hk hlate
    · intro id hf hid
      obtain h | h := (Guard.mem_of_enter? hk).1 hid
      · cases h
      · exact hg _ h hf

/-- An attempt at an expression finds its value, if its questions find theirs. -/
lemma attempt_finds (hp : p.WellNumbered es) (he : p.Holds es e slot)
    (ht : p.value? (n + 1) e slot = some t) (hnone : p.value? n e slot = none)
    (hinfer : ∀ j ≤ n, p.FindsWithin es levels j) (hg : p.Clear es (n + 1) g)
    (hc : s.patience = none) (hs : p.Right es s)
    (hq : Quiet s (p.attempt none (p.infer none levels) g e slot s).2) :
    p.Finds es s t (p.attempt none (p.infer none levels) g e slot s) := by
  have hsome : (p.value? (n + 1) e slot).isSome := by rw [ht, Option.isSome_some]
  obtain ⟨g', hattempt, hg', hmember⟩ := attempt_clear hp he.1 hsome hnone hg
  rw [hattempt] at hq ⊢
  refine run_finds (plan_confined he) (hinfer n le_rfl) hg' ?_ ht hc hs hq
  intro key body hw u s₁ hu hc₁ hs₁
  have hfree : key ∉ g' := by
    obtain ⟨d, hd, c, hdc, rfl, rfl⟩ := hw
    refine hmember _ ((hp.finishes_member hd hdc).2 ⟨n, Nat.lt_succ_self n, ?_⟩)
    rw [hu, Option.isSome_some]
  have hk := Guard.enter?_eq_some.2 ⟨hfree, rfl⟩
  exact ⟨_, hk, memberWork_finds hp hw hinfer hg' hk hu hc₁ hs₁⟩

/-- An expression that has a value gets it in a quiet query, though cycles may be in progress. -/
theorem infer_finds (hp : p.WellNumbered es) (n levels : Nat) : p.FindsWithin es levels n := by
  induction n using Nat.strong_induction_on generalizing levels with
  | _ n ih =>
  intro g e slot s t he ht hg hc hs hq
  cases n with
  | zero => cases ht
  | succ n =>
  have hg' : p.Clear es n g := hg.mono (Nat.le_succ n)
  cases hn : p.value? n e slot with
  | some u =>
    obtain rfl : t = u := Option.some.inj (ht.symm.trans (value?_mono (Nat.le_succ n) hn))
    exact ih n (Nat.lt_succ_self n) levels g e slot s t he hn hg' hc hs hq
  | none =>
  cases hm : s.memo.find? (.value e.id slot) with
  | some u =>
    rw [p.infer_of_memo_patient _ hc _ hm]
    exact ⟨hs e he.1 slot u t ⟨_, ht⟩ hm, hs, fun _ _ _ _ => rfl⟩
  | none =>
  cases levels with
  | zero =>
    rw [p.infer_zero_patient _ hc hm] at hq
    exact absurd hq (Nat.succ_ne_self _)
  | succ levels =>
    rw [p.infer_succ_patient _ hc _ hm] at hq ⊢
    have hq' := (settle_truncations _ _ _ _ _).symm.trans hq
    have hinfer : ∀ j ≤ n, p.FindsWithin es levels j :=
      fun j hj => ih j (Nat.lt_succ_of_le hj) levels
    have hattempt := attempt_finds hp he ht hn hinfer hg (s := s.record .expression) hc hs hq'
    exact (hattempt.settle hp he.1 ⟨n + 1, ht⟩ s.truncations).of_agree (agree_record _)

/-! ## Values that are kept do not show -/

/-- Two queries that can only differ in what they have kept about expressions with values. -/
structure InStep (p : Program) (es : List Expr) (s s' : Progress) : Prop where
  left : p.Right es s
  right : p.Right es s'
  agree : p.Agree es s s'

/-- What the two queries find next is the same, and they stay in step. -/
def MoveInStep (p : Program) (es : List Expr) (r r' : Ty × Progress) : Prop :=
  r.1 = r'.1 ∧ p.InStep es r.2 r'.2

lemma InStep.of_finds {r r' : Ty × Progress} (h : p.InStep es s s') (hr : p.Finds es s t r)
    (hr' : p.Finds es s' t r') : p.MoveInStep es r r' := by
  have hagree := (hr.agree.symm.trans h.agree).trans hr'.agree
  exact ⟨hr.answer.trans hr'.answer.symm, hr.right, hr'.right, hagree⟩

lemma InStep.record (h : p.InStep es s s') (event : Event) :
    p.InStep es (s.record event) (s'.record event) := ⟨h.left, h.right, h.agree⟩

/-- Keeping the same answer about an expression without a value. -/
lemma InStep.settle (hp : p.WellNumbered es) (he : e ∈ p.nodes es)
    (hv : ¬ ∃ u, p.HasValue e slot u) (h : p.InStep es s s') {before before' : Nat}
    (hq : s.truncations = before) (hq' : s'.truncations = before') (hc : s.patience = none)
    (hc' : s'.patience = none) :
    p.InStep es (settle g (.value e.id slot) before t s)
      (settle g (.value e.id slot) before' t s') := by
  have hnone : ∀ u, p.HasValue e slot u → t = u := fun u hu => absurd ⟨u, hu⟩ hv
  by_cases hk : Key.value e.id slot ∈ g
  · unfold Program.settle
    rw [if_neg (fun hand => hand.2.1 hk), if_neg (fun hand => hand.2.1 hk)]
    exact h
  · rw [settle_patient hc hk t hq, settle_patient hc' hk t hq']
    refine ⟨h.left.memoize hp he hnone, h.right.memoize hp he hnone, ?_⟩
    intro x hx i hx'
    change (s.memo.insert _ _).find? _ = (s'.memo.insert _ _).find? _
    rw [Catalog.find?_insert, Catalog.find?_insert, h.agree x hx i hx']

/-- With this many levels left, quiet questions move queries in step, while nothing that has a value
is in progress. -/
def KeepsStep (p : Program) (es : List Expr) (levels : Nat) : Prop :=
  ∀ g e slot s s', p.Holds es e slot → (∀ n, p.Clear es n g) → s.patience = none →
    s'.patience = none → p.InStep es s s' → Quiet s (p.infer none levels g e slot s).2 →
    Quiet s' (p.infer none levels g e slot s').2 →
    p.MoveInStep es (p.infer none levels g e slot s) (p.infer none levels g e slot s')

/-- Plans move queries in step, if their questions do. -/
lemma run_inStep (hp : p.WellNumbered es) {plan : Plan}
    (hplan : plan.Confined (p.Holds es) p.MemberWork) (hinfer : p.KeepsStep es levels)
    (hg : ∀ n, p.Clear es n g) (hc : s.patience = none) (hc' : s'.patience = none)
    (h : p.InStep es s s') (hq : Quiet s (plan.run (p.infer none levels) none g s).2)
    (hq' : Quiet s' (plan.run (p.infer none levels) none g s').2) :
    p.MoveInStep es (plan.run (p.infer none levels) none g s)
      (plan.run (p.infer none levels) none g s') := by
  have hgrows := p.infer_grows none levels
  have hinferc := patience_kept.infer p levels
  induction plan generalizing g s s' with
  | answer u => exact ⟨rfl, h⟩
  | ask e slot next ih =>
    obtain ⟨hq₁, hq₂⟩ := Plan.quiet_ask hgrows hq
    obtain ⟨hq₁', hq₂'⟩ := Plan.quiet_ask hgrows hq'
    obtain ⟨ht, h₁⟩ := hinfer g e slot s s' hplan.1 hg hc hc' h hq₁ hq₁'
    rw [Plan.run_ask, Plan.run_ask]
    rw [← ht] at hq₂' ⊢
    exact ih _ (hplan.2 _) hg (hinferc g e slot s hc) (hinferc g e slot s' hc') h₁ hq₂ hq₂'
  | within key body next ihb ihn =>
    cases hk : g.enter? key with
    | none =>
      rw [Plan.run_within_of_mem _ _ _ hk] at hq hq' ⊢
      rw [Plan.run_within_of_mem _ _ _ hk]
      exact ihn none (hplan.2.2 _) hg hc hc' h hq hq'
    | some g' =>
      obtain ⟨hq₁, hq₂⟩ := Plan.quiet_within hgrows hk hq
      obtain ⟨hq₁', hq₂'⟩ := Plan.quiet_within hgrows hk hq'
      have hbody : p.MoveInStep es (body.run (p.infer none levels) none g' s)
          (body.run (p.infer none levels) none g' s') := by
        by_cases hb : ∃ n u, body.value? (p.value? n) = some u
        · obtain ⟨n, u, hu⟩ := hb
          have hfinds := fun s hc hs hq => memberWork_finds (s := s) hp hplan.1
            (fun j _ => infer_finds hp j levels) (hg n) hk hu hc hs hq
          exact h.of_finds (hfinds s hc h.left hq₁) (hfinds s' hc' h.right hq₁')
        · refine ihb hplan.2.1 (fun n => (hg n).enter hk ?_) hc hc' h hq₁ hq₁'
          obtain ⟨d, hd, c, hdc, rfl, rfl⟩ := hplan.1
          rw [hp.finishes_member hd hdc]
          rintro ⟨j, -, hj⟩
          exact hb ⟨j, Option.isSome_iff_exists.1 hj⟩
      obtain ⟨ht, h₁⟩ := hbody
      rw [Plan.run_within_of_enter _ _ _ hk, Plan.run_within_of_enter _ _ _ hk]
      rw [← ht] at hq₂' ⊢
      exact ihn _ (hplan.2.2 _) hg (patience_kept.run hinferc body g' s hc)
        (patience_kept.run hinferc body g' s' hc') h₁ hq₂ hq₂'
  | consult name next ih =>
    rw [Plan.run_consult, consult_none] at hq hq' ⊢
    rw [Plan.run_consult, consult_none]
    exact ih hplan hg hc hc' h hq hq'
  | lookUpModule found next ih =>
    have h₁ := h.record (.resolution found)
    exact ih hplan hg (s := s.record _) hc hc' h₁ hq hq'

/-- An expression without a value is attempted by both queries in the same way. -/
lemma attempt_inStep (hp : p.WellNumbered es) (he : p.Holds es e slot)
    (hv : ¬ ∃ u, p.HasValue e slot u) (hinfer : p.KeepsStep es levels)
    (hg : ∀ n, p.Clear es n g) (hc : s.patience = none) (hc' : s'.patience = none)
    (h : p.InStep es s s') (hq : Quiet s (p.attempt none (p.infer none levels) g e slot s).2)
    (hq' : Quiet s' (p.attempt none (p.infer none levels) g e slot s').2) :
    p.MoveInStep es (p.attempt none (p.infer none levels) g e slot s)
      (p.attempt none (p.infer none levels) g e slot s') := by
  cases hguarded : e.isGuarded with
  | false =>
    rw [p.attempt_of_unguarded _ _ hguarded] at hq hq' ⊢
    rw [p.attempt_of_unguarded _ _ hguarded]
    exact run_inStep hp (plan_confined he) hinfer hg hc hc' h hq hq'
  | true =>
    cases hk : g.enter? (.value e.id slot) with
    | none =>
      rw [p.attempt_of_mem _ _ hguarded hk, p.attempt_of_mem _ _ hguarded hk]
      exact ⟨rfl, h.record .guardHit⟩
    | some g' =>
      have hg' : ∀ n, p.Clear es n g' := by
        intro n
        refine (hg n).enter hk ?_
        rw [hp.finishes_value he.1]
        intro hsome
        obtain ⟨u, hu⟩ := Option.isSome_iff_exists.1 hsome
        exact hv ⟨u, n, hu⟩
      rw [p.attempt_of_enter _ _ hguarded hk] at hq hq' ⊢
      rw [p.attempt_of_enter _ _ hguarded hk]
      exact run_inStep hp (plan_confined he) hinfer hg' hc hc' h hq hq'

/-- Only expressions without a value that neither query has kept are of interest. -/
lemma infer_inStep_of_unknown (hp : p.WellNumbered es) (he : p.Holds es e slot)
    (hg : ∀ n, p.Clear es n g) (hc : s.patience = none) (hc' : s'.patience = none)
    (h : p.InStep es s s') (hq : Quiet s (p.infer none levels g e slot s).2)
    (hq' : Quiet s' (p.infer none levels g e slot s').2)
    (hunknown : (¬ ∃ u, p.HasValue e slot u) → s.memo.find? (.value e.id slot) = none →
      s'.memo.find? (.value e.id slot) = none →
      p.MoveInStep es (p.infer none levels g e slot s) (p.infer none levels g e slot s')) :
    p.MoveInStep es (p.infer none levels g e slot s) (p.infer none levels g e slot s') := by
  by_cases hv : ∃ u, p.HasValue e slot u
  · obtain ⟨u, n, hu⟩ := hv
    have hfinds := infer_finds hp n levels g e slot s u he hu (hg n) hc h.left hq
    have hfinds' := infer_finds hp n levels g e slot s' u he hu (hg n) hc' h.right hq'
    exact h.of_finds hfinds hfinds'
  · have hagree := h.agree e he.1 slot hv
    cases hm : s.memo.find? (.value e.id slot) with
    | none => exact hunknown hv hm (hagree.symm.trans hm)
    | some u =>
      rw [p.infer_of_memo_patient _ hc _ hm,
        p.infer_of_memo_patient _ hc' _ (hagree.symm.trans hm)]
      exact ⟨rfl, h⟩

/-- Queries in step give the same answers, and stay in step, while nothing that has a value is in
progress. -/
theorem infer_inStep (hp : p.WellNumbered es) (levels : Nat) : p.KeepsStep es levels := by
  induction levels with
  | zero =>
    intro g e slot s s' he hg hc hc' h hq hq'
    refine infer_inStep_of_unknown hp he hg hc hc' h hq hq' fun _ hm _ => ?_
    rw [p.infer_zero_patient _ hc hm] at hq
    exact absurd hq (Nat.succ_ne_self _)
  | succ levels ih =>
    intro g e slot s s' he hg hc hc' h hq hq'
    refine infer_inStep_of_unknown hp he hg hc hc' h hq hq' fun hv hm hm' => ?_
    rw [p.infer_succ_patient _ hc _ hm] at hq ⊢
    rw [p.infer_succ_patient _ hc' _ hm'] at hq' ⊢
    have hq₁ := (settle_truncations _ _ _ _ _).symm.trans hq
    have hq₁' := (settle_truncations _ _ _ _ _).symm.trans hq'
    have hattempt : p.MoveInStep es
        (p.attempt none (p.infer none levels) g e slot (s.record .expression))
        (p.attempt none (p.infer none levels) g e slot (s'.record .expression)) := by
      apply attempt_inStep hp he hv ih hg
      · exact hc
      · exact hc'
      · exact h.record .expression
      · exact hq₁
      · exact hq₁'
    obtain ⟨ht, h₁⟩ := hattempt
    have hkept := patience_kept.attempt p (patience_kept.infer p levels) g e slot
    have hc₁ := hkept (s.record .expression) hc
    have hc₁' := hkept (s'.record .expression) hc'
    rw [← ht]
    exact ⟨rfl, h₁.settle hp he.1 hv hq₁ hq₁' hc₁ hc₁'⟩

end Program

end TypeQuery
