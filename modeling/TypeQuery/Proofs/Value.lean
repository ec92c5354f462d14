import TypeQuery.Proofs.Asks
import TypeQuery.Proofs.Course

/-!
# Values

What the rules say about an expression, without any of the means that keep a query in bounds.
`Program.value?` carries out the plan of an expression, and for each of its questions the plan of
that expression, and so on, with no memo, no guard and no depth limit.  Work under a key is simply
done.  On a cycle this does not end; so the recursion is cut at a number of nested plans and gives
nothing there, and an expression has a value if some number is enough (`Program.HasValue`).  A larger
number changes no value (`Program.value?_mono`), so there is at most one.

The main result, `Program.typeOf_eq_value`, is that the means are invisible as long as they do not
cut: a query that refuses no key and no level gives the value of its expression.  In particular the
expression has one.  The invariant is that the memo holds values only (`Program.Sound`).  It is for
this invariant that different expressions need different ids: the memo knows an expression by its id
alone.
-/

namespace TypeQuery

open Progress

/-! ## Plain evaluation -/

/-- The answer of a plan, if `value?` answers its questions. -/
def Plan.value? (value? : Expr → Nat → Option Ty) : Plan → Option Ty
  | .answer t => some t
  | .ask e slot next => (value? e slot).bind fun t => (next t).value? value?
  | .within _ body next => (body.value? value?).bind fun t => (next (some t)).value? value?
  | .consult _ next => next.value? value?
  | .lookUpModule _ next => next.value? value?

lemma Plan.value?_mono {v v' : Expr → Nat → Option Ty}
    (h : ∀ e slot t, v e slot = some t → v' e slot = some t) {plan : Plan} {t : Ty}
    (ht : plan.value? v = some t) : plan.value? v' = some t := by
  induction plan generalizing t with
  | answer u => exact ht
  | ask e slot next ih =>
    obtain ⟨u, hu, hnext⟩ := Option.bind_eq_some_iff.1 ht
    exact Option.bind_eq_some_iff.2 ⟨u, h e slot u hu, ih u hnext⟩
  | within key body next ihb ihn =>
    obtain ⟨u, hu, hnext⟩ := Option.bind_eq_some_iff.1 ht
    exact Option.bind_eq_some_iff.2 ⟨u, ihb hu, ihn (some u) hnext⟩
  | consult name next ih => exact ih ht
  | lookUpModule found next ih => exact ih ht

namespace Program

variable (p : Program)

/-- The value at a slot of an expression, if it is found with at most this many nested plans. -/
def value? : Nat → Expr → Nat → Option Ty
  | 0, _, _ => none
  | n + 1, e, slot => (p.plan e slot).value? (value? n)

/-- The expression has the value `t` at a slot: plain evaluation ends, and gives it. -/
def HasValue (e : Expr) (slot : Nat) (t : Ty) : Prop := ∃ n, p.value? n e slot = some t

variable {p}

/-- A value that is found stays the same however many plans may be nested. -/
theorem value?_mono {n m : Nat} (hnm : n ≤ m) {e : Expr} {slot : Nat} {t : Ty}
    (h : p.value? n e slot = some t) : p.value? m e slot = some t := by
  induction n generalizing m e slot t with
  | zero => cases h
  | succ n ih =>
    obtain ⟨m, rfl⟩ : ∃ m', m = m' + 1 := ⟨m - 1, by omega⟩
    exact Plan.value?_mono (fun e slot t => ih (by omega)) h

lemma HasValue.unique {e : Expr} {slot : Nat} {t u : Ty} (ht : p.HasValue e slot t)
    (hu : p.HasValue e slot u) : t = u := by
  obtain ⟨n, hn⟩ := ht
  obtain ⟨m, hm⟩ := hu
  have hn' := value?_mono (le_max_left n m) hn
  have hm' := value?_mono (le_max_right n m) hm
  exact Option.some.inj (hn'.symm.trans hm')

lemma HasValue.of_plan {e : Expr} {slot n : Nat} {t : Ty}
    (h : (p.plan e slot).value? (p.value? n) = some t) : p.HasValue e slot t :=
  ⟨n + 1, h⟩

/-- The value of a plan does not change either. -/
lemma plan_value?_mono {n m : Nat} (hnm : n ≤ m) {plan : Plan} {t : Ty}
    (h : plan.value? (p.value? n) = some t) : plan.value? (p.value? m) = some t :=
  Plan.value?_mono (fun _ _ _ => value?_mono hnm) h

/-! ## A query that nothing cuts short -/

variable (p) (es : List Expr)

/-- The memo holds values of the nodes of the program. -/
def Sound (s : Progress) : Prop :=
  ∀ e ∈ p.nodes es, ∀ slot t, s.memo.find? (.value e.id slot) = some t → p.HasValue e slot t

variable {p es} {levels : Nat} {g : Guard} {e : Expr} {slot : Nat} {s : Progress}

/-- A memo stays sound if a value is put in. -/
lemma Sound.settle (hd : Distinct (p.nodes es)) (he : e ∈ p.nodes es) {k : Nat} {t : Ty}
    (ht : p.HasValue e slot t) (hs : p.Sound es s) :
    p.Sound es (settle g (.value e.id slot) k t s) := by
  unfold Program.settle
  split
  · intro x hx i u hu
    change (s.memo.insert _ _).find? _ = some u at hu
    rw [Catalog.find?_insert] at hu
    split at hu
    next hkey =>
      obtain ⟨hid, rfl⟩ := Key.value.inj hkey
      obtain rfl := hd e he x hx hid
      exact Option.some.inj hu ▸ ht
    next => exact hs x hx i u hu
  · exact hs

/-- Uncut answers to its questions give an uncut plan its value. -/
lemma run_value {plan : Plan} {W : Key → Plan → Prop}
    (hplan : plan.Confined (fun x _ => x ∈ p.nodes es) W)
    (hinfer : ∀ g e slot s, e ∈ p.nodes es → s.patience = none → p.Sound es s →
      (∀ st ∈ p.course none levels g e slot s, st.isCut = false) →
      p.HasValue e slot (p.infer none levels g e slot s).1 ∧
        p.Sound es (p.infer none levels g e slot s).2)
    (hc : s.patience = none) (hs : p.Sound es s)
    (hcut : ∀ st ∈ plan.course (p.infer none levels) (p.course none levels) none g s,
      st.isCut = false) :
    (∃ n, plan.value? (p.value? n) = some (plan.run (p.infer none levels) none g s).1) ∧
      p.Sound es (plan.run (p.infer none levels) none g s).2 := by
  induction plan generalizing g s with
  | answer t => exact ⟨⟨0, rfl⟩, hs⟩
  | ask e slot next ih =>
    rw [Plan.course_ask] at hcut
    rw [Plan.run_ask]
    obtain ⟨⟨n, hn⟩, hs₁⟩ := hinfer g e slot s hplan.1 hc hs
      fun st hst => hcut st (List.mem_append_left _ hst)
    have hc₁ := patience_kept.infer p levels g e slot s hc
    obtain ⟨⟨m, hm⟩, hs₂⟩ := ih _ (hplan.2 _) hc₁ hs₁
      fun st hst => hcut st (List.mem_append_right _ hst)
    refine ⟨⟨max n m, ?_⟩, hs₂⟩
    rw [Plan.value?, value?_mono (le_max_left n m) hn]
    exact plan_value?_mono (le_max_right n m) hm
  | within key body next ihb ihn =>
    cases hk : g.enter? key with
    | none =>
      rw [Plan.course_within_of_mem _ _ _ _ hk] at hcut
      cases hcut _ List.mem_cons_self
    | some g' =>
      rw [Plan.course_within_of_enter _ _ _ _ hk] at hcut
      rw [Plan.run_within_of_enter _ _ _ hk]
      simp only [List.cons_append, List.mem_cons, List.mem_append] at hcut
      obtain ⟨⟨n, hn⟩, hs₁⟩ := ihb hplan.2.1 hc hs fun st hst => hcut st (.inr (.inl hst))
      have hc₁ := patience_kept.run (patience_kept.infer p levels) body g' s hc
      obtain ⟨⟨m, hm⟩, hs₂⟩ := ihn _ (hplan.2.2 _) hc₁ hs₁
        fun st hst => hcut st (.inr (.inr (.inr hst)))
      refine ⟨⟨max n m, ?_⟩, hs₂⟩
      rw [Plan.value?, plan_value?_mono (le_max_left n m) hn]
      exact plan_value?_mono (le_max_right n m) hm
  | consult name next ih =>
    rw [Plan.run_consult, consult_none]
    rw [Plan.course, consult_none] at hcut
    exact ih hplan hc hs hcut
  | lookUpModule found next ih => exact ih hplan hc hs hcut

/-- An uncut answer is the value of its expression, and leaves a sound memo sound. -/
lemma infer_value_of_node (hd : Distinct (p.nodes es)) (he : e ∈ p.nodes es)
    (hc : s.patience = none) (hs : p.Sound es s)
    (hcut : ∀ st ∈ p.course none levels g e slot s, st.isCut = false) :
    p.HasValue e slot (p.infer none levels g e slot s).1 ∧
      p.Sound es (p.infer none levels g e slot s).2 := by
  induction levels generalizing g e slot s with
  | zero =>
    cases hm : s.memo.find? (.value e.id slot) with
    | some t =>
      rw [p.infer_of_memo_patient _ hc _ hm]
      exact ⟨hs e he slot t hm, hs⟩
    | none =>
      rw [p.course_zero _ (cancelled_of_patient hc) hm] at hcut
      cases hcut _ List.mem_cons_self
  | succ levels ih =>
    cases hm : s.memo.find? (.value e.id slot) with
    | some t =>
      rw [p.infer_of_memo_patient _ hc _ hm]
      exact ⟨hs e he slot t hm, hs⟩
    | none =>
      rw [p.course_succ _ _ (cancelled_of_patient hc) hm, look_of_patient hc] at hcut
      rw [p.infer_succ_patient _ hc _ hm]
      have hcut' := fun st hst => hcut st (List.mem_append_left _ hst)
      -- the plan is carried out under some guard, and its course is a part of this one
      have hplan : ∃ g', p.attempt none (p.infer none levels) g e slot (s.record .expression) =
            (p.plan e slot).run (p.infer none levels) none g' (s.record .expression) ∧
          ∀ st ∈ (p.plan e slot).course (p.infer none levels) (p.course none levels) none g'
            (s.record .expression), st.isCut = false := by
        cases hg : e.isGuarded with
        | false =>
          rw [p.attemptCourse_of_unguarded _ _ _ hg] at hcut'
          exact ⟨g, p.attempt_of_unguarded _ _ hg, hcut'⟩
        | true =>
          cases hk : g.enter? (.value e.id slot) with
          | none =>
            rw [p.attemptCourse_of_mem _ _ _ hg hk] at hcut'
            cases hcut' _ List.mem_cons_self
          | some g' =>
            rw [p.attemptCourse_of_enter _ _ _ hg hk] at hcut'
            refine ⟨g', p.attempt_of_enter _ _ hg hk, fun st hst => hcut' st ?_⟩
            exact List.mem_append_left _ (List.mem_cons_of_mem _ hst)
      obtain ⟨g', hrun, hcut''⟩ := hplan
      obtain ⟨⟨n, hn⟩, hs'⟩ := run_value (plan_confined_nodes he slot)
        (fun _ _ _ _ => ih) (s := s.record .expression) hc hs hcut''
      rw [hrun]
      have hvalue := HasValue.of_plan hn
      exact ⟨hvalue, hs'.settle hd he hvalue⟩

lemma infer_value (hd : Distinct (p.nodes es)) (he : p.Holds es e slot)
    (hc : s.patience = none) (hs : p.Sound es s)
    (hcut : ∀ st ∈ p.course none levels g e slot s, st.isCut = false) :
    p.HasValue e slot (p.infer none levels g e slot s).1 ∧
      p.Sound es (p.infer none levels g e slot s).2 :=
  infer_value_of_node hd he.1 hc hs hcut

/-- The type that an uncut query finds is the value of the expression. -/
lemma hasValue_typeOf (hd : Distinct (p.nodes [e])) (hu : p.Uncut e) :
    p.HasValue e 0 (p.typeOf e).1 := by
  have hs : p.Sound [e] (Progress.record ∅ .query) := by
    intro x _ i t ht
    cases ht
  exact (infer_value_of_node hd (mem_nodes_of_mem List.mem_cons_self) rfl hs hu).1

/-- As long as nothing is cut short, the memo, the guard and the depth limit are invisible: the
query gives the type that the rules give by plain recursion, and that recursion ends. -/
theorem typeOf_eq_value (p : Program) (e : Expr) (hd : Distinct (p.nodes [e])) (hu : p.Uncut e) :
    ∃ n, ∀ m ≥ n, p.value? m e 0 = some (p.typeOf e).1 := by
  have he : p.Holds [e] e 0 := ⟨mem_nodes_of_mem List.mem_cons_self, Nat.zero_le _⟩
  have hs : p.Sound [e] (Progress.record ∅ .query) := by
    intro x _ i t ht
    cases ht
  obtain ⟨⟨n, hn⟩, -⟩ := infer_value hd he rfl hs hu
  exact ⟨n, fun m hm => value?_mono hm hn⟩

/-- `local x = f()`, where `f` is a function that returns a number; the names at which `x` is used
are the nodes 6 and 7. -/
def sharedCall : Program :=
  let f : Expr := .closure ⟨0, 1⟩ ⟨⟨0, 1⟩, [], [[.literal ⟨0, 0⟩ .number]]⟩
  let call : Expr := .call ⟨0, 4⟩ (.name ⟨0, 3⟩ "f") []
  let x : Declaration := { Declaration.localName ⟨0, 5⟩ "x" with value := some ⟨[call], 0⟩ }
  ofReferences [(⟨0, 7⟩, x), (⟨0, 6⟩, x),
    (⟨0, 3⟩, { Declaration.localName ⟨0, 2⟩ "f" with value := some ⟨[f], 0⟩ })]

/-- The expression `x or x` of `sharedCall`. -/
def sharedOr : Expr := .binary ⟨0, 8⟩ .or (.name ⟨0, 6⟩ "x") (some (.name ⟨0, 7⟩ "x"))

/-- In `x or x` the call is worked out once.  The second time it comes from the memo, which plain
evaluation does not have. -/
theorem sharedOr_value : Distinct (sharedCall.nodes [sharedOr]) ∧ sharedCall.Uncut sharedOr ∧
    ∃ n, ∀ m ≥ n, sharedCall.value? m sharedOr 0 = some .number := by
  let call : Expr := .call ⟨0, 4⟩ (.name ⟨0, 3⟩ "f") []
  let f : Expr := .closure ⟨0, 1⟩ ⟨⟨0, 1⟩, [], [[.literal ⟨0, 0⟩ .number]]⟩
  have hnodes : sharedCall.nodes [sharedOr] = [sharedOr, .name ⟨0, 6⟩ "x", .name ⟨0, 7⟩ "x",
      f, .literal ⟨0, 0⟩ .number, call, .name ⟨0, 3⟩ "f", call, .name ⟨0, 3⟩ "f"] := rfl
  have hd : Distinct [sharedOr, .name ⟨0, 6⟩ "x", .name ⟨0, 7⟩ "x", f, .literal ⟨0, 0⟩ .number,
      call, .name ⟨0, 3⟩ "f"] := .of_nodup (by decide)
  have hd' : Distinct (sharedCall.nodes [sharedOr]) := hd.of_subset (by rw [hnodes]; simp)
  have hu : sharedCall.Uncut sharedOr := by decide
  exact ⟨hd', hu, typeOf_eq_value sharedCall sharedOr hd' hu⟩

end Program

end TypeQuery
