import Mathlib.Data.Nat.Fib.Basic
import TypeQuery.Proofs.Costs

/-!
# Chains of wrappers

A function that only calls another one is a wrapper, and wrappers of wrappers form a chain: `f0`
returns its parameter, and `f1` to `fn` each return what a call of the one before returns.  A call
of a wrapper is asked for twice on the way: through the type of the callee, and, since that says
nothing here, through the body of the callee.  The second question is what the memo is for.

* With levels to spare, a call of the last of `n` wrappers takes `2 * n + 3` expressions
  (`Program.callWork_of_le`): the second question is always answered by the memo.
* If the depth limit does not reach the end of the chain, every answer is cut short and none is
  kept, so that both questions are worked on at every level.  The number of expressions then grows
  with the depth limit as the Fibonacci numbers do (`Program.callWork_of_ge`).
* In between, the far end of the chain is known after the first visit, and what is left is cut short
  until it is.  The work never exceeds the Fibonacci numbers, and it is paid for by the expressions
  of the chain and by depth hits (`Program.callWork_le`).
-/

namespace TypeQuery

open Progress

/-- No expression with an index from `lo` up to `hi` is in progress. -/
def Guard.Avoids (g : Guard) (lo hi : Nat) : Prop :=
  ∀ node slot, Key.value node slot ∈ g → node.index < lo ∨ hi ≤ node.index

namespace Guard.Avoids

variable {g : Guard} {lo hi lo' hi' : Nat} {node : NodeId}

lemma empty (lo hi : Nat) : Avoids ∅ lo hi := fun _ _ h => nomatch h

lemma mono (h : g.Avoids lo hi) (hlo : lo ≤ lo') (hhi : hi' ≤ hi) : g.Avoids lo' hi' := by
  intro node slot hmem
  have := h node slot hmem
  omega

lemma notMem (h : g.Avoids lo hi) (hlo : lo ≤ node.index) (hhi : node.index < hi) (slot : Nat) :
    Key.value node slot ∉ g := by
  intro hmem
  have := h node slot hmem
  omega

/-- Entering an expression outside the range. -/
lemma enter (h : g.Avoids lo hi) (hnode : node.index < lo ∨ hi ≤ node.index) (slot : Nat) :
    Guard.Avoids ⟨.value node slot :: g.inFlight⟩ lo hi := by
  intro node' slot' hmem
  rcases List.mem_cons.1 hmem with heq | hmem
  · obtain ⟨rfl, rfl⟩ := Key.value.inj heq
    exact hnode
  · exact h node' slot' hmem

end Guard.Avoids

namespace Program

/-! ## The program -/

/-- The name of the function with number `k`. -/
def wrapperName (k : Nat) : String := "f" ++ toString k

/-- The name of that function where it is called. -/
def wrapperRef (k : Nat) : Expr := .name ⟨0, 4 * k + 4⟩ (wrapperName k)

/-- A call of that function. -/
def wrapperCall (k : Nat) : Expr := .call ⟨0, 4 * k + 5⟩ (wrapperRef k) []

/-- What that function returns: its parameter, or a call of the function before it. -/
def returned : Nat → Expr
  | 0 => .name ⟨0, 1⟩ "x"
  | k + 1 => wrapperCall k

/-- The parameters of that function. -/
def wrapperParams : Nat → List Formal
  | 0 => [⟨⟨0, 0⟩, "x"⟩]
  | _ + 1 => []

/-- The declaration of that function. -/
def wrapperDecl (k : Nat) : Declaration :=
  { id := ⟨0, 4 * k + 3⟩, name := wrapperName k, kind := .function
    body := some ⟨⟨0, 4 * k + 2⟩, wrapperParams k, [[returned k]]⟩ }

/-- The type that is found for the name of that function. -/
def wrapperTy (k : Nat) : Ty :=
  .simpleFunction ((wrapperParams k).map fun q => ⟨q.name, .unknown⟩) [.unknown]

/-- What the names lead to where the functions with numbers below `n` are declared and called. -/
def wrapperReferences : Nat → List (NodeId × Declaration)
  | 0 => [(⟨0, 1⟩, .parameter ⟨⟨0, 0⟩, "x"⟩)]
  | n + 1 => (⟨0, 4 * n + 4⟩, wrapperDecl n) :: wrapperReferences n

/-- A chain of `n` wrappers around a function that returns its parameter, with a call of the last
of them. -/
def wrappers (n : Nat) : Program := { ofReferences (wrapperReferences (n + 1)) with options := {} }

/-- The work of the query for a call of the last of `n` wrappers, under the depth limit `m`. -/
def callWork (n m : Nat) : Tally := (((wrappers n).withDepth m).typeOf (wrapperCall n)).2

variable {k n m : Nat}

@[simp] lemma wrapperRef_id (k : Nat) : (wrapperRef k).id = ⟨0, 4 * k + 4⟩ := rfl

@[simp] lemma returned_id (k : Nat) : (returned k).id = ⟨0, 4 * k + 1⟩ := by
  cases k <;> rfl

lemma findIn_wrapperReferences (h : k < n) :
    Catalog.findIn ⟨0, 4 * k + 4⟩ (wrapperReferences n) = some (wrapperDecl k) := by
  induction n with
  | zero => cases h
  | succ n ih =>
    by_cases hk : k = n
    · subst hk
      simp [wrapperReferences, Catalog.findIn]
    · have hne : (⟨0, 4 * n + 4⟩ : NodeId) ≠ ⟨0, 4 * k + 4⟩ := by
        simp only [ne_eq, NodeId.mk.injEq, true_and]
        omega
      rw [wrapperReferences, Catalog.findIn, if_neg hne]
      exact ih (by omega)

lemma findIn_parameter (n : Nat) :
    Catalog.findIn ⟨0, 1⟩ (wrapperReferences n) = some (.parameter ⟨⟨0, 0⟩, "x"⟩) := by
  induction n with
  | zero => rfl
  | succ n ih =>
    have hne : (⟨0, 4 * n + 4⟩ : NodeId) ≠ ⟨0, 1⟩ := by simp
    rw [wrapperReferences, Catalog.findIn, if_neg hne]
    exact ih

lemma candidates_wrapperRef (h : k ≤ n) :
    (wrappers n).names.candidates (wrapperRef k) = [wrapperDecl k] :=
  Bindings.candidates_of_find? (findIn_wrapperReferences (Nat.lt_succ_of_le h))

lemma isRequire_wrapperName (k n : Nat) :
    (wrappers n).options.isRequire (wrapperName k) = false := by
  have hne : wrapperName k ≠ "require" := by
    intro h
    have hchars := congrArg String.toList h
    simp [wrapperName] at hchars
  simpa [Options.isRequire, wrappers] using hne

/-! ## The plans -/

section Plans

variable {infer : Infer} {g : Guard} {s s₁ s₂ : Progress}

lemma plan_wrapperCall (k n : Nat) :
    (wrappers n).plan (wrapperCall k) 0 = (wrappers n).applicationType (wrapperRef k) 0 := by
  show (wrappers n).callType (wrapperCall k) (wrapperRef k) 0 = _
  have hname : ¬ (wrappers n).options.isRequire (wrapperName k) = true := by
    rw [isRequire_wrapperName]
    exact Bool.false_ne_true
  rw [callType]
  exact if_neg hname

lemma withBody_wrapperRef (h : k ≤ n) (next : Option FunctionBody → Plan) :
    (wrappers n).withBody (wrapperRef k) next =
      .consult (wrapperName k)
        (next (some ⟨⟨0, 4 * k + 2⟩, wrapperParams k, [[returned k]]⟩)) := by
  show Plan.consult _ (next (((wrappers n).names.candidates (wrapperRef k)).findSome?
    Declaration.functionBody?)) = _
  rw [candidates_wrapperRef h]
  rfl

/-- The name of a wrapper asks for what the wrapper returns. -/
lemma run_wrapperRef (h : k ≤ n) (hask : infer g (returned k) 0 s = (.unknown, s₁)) :
    ((wrappers n).plan (wrapperRef k) 0).run infer none g s = (wrapperTy k, s₁) := by
  show ((wrappers n).nameType (wrapperRef k) (wrapperName k)).run infer none g s = _
  rw [nameType, candidates_wrapperRef h, Plan.run_consult, consult_none]
  show (Plan.ask (returned k) 0 _).run infer none g s = _
  rw [Plan.run_ask, hask]
  rfl

/-- The type of a wrapper says nothing about what it returns. -/
lemma resultsOf_wrapperTy (k : Nat) : Ty.joinAll (resultsOf (wrapperTy k) 0) = .unknown := rfl

/-- A call of a wrapper asks for its name and, if the type of that says nothing, for what the
wrapper returns. -/
lemma run_wrapperCall (h : k ≤ n) {t : Ty} (hname : infer g (wrapperRef k) 0 s = (t, s₁))
    (ht : Ty.joinAll (resultsOf t 0) = .unknown)
    (hask : infer g (returned k) 0 s₁ = (.unknown, s₂)) :
    ((wrappers n).plan (wrapperCall k) 0).run infer none g s = (.unknown, s₂) := by
  have hinvalid : Ty.unknown.isInvalid = true := rfl
  rw [plan_wrapperCall, applicationType, Plan.bind, Plan.run_ask, hname]
  dsimp only
  rw [ht, if_pos hinvalid, withBody_wrapperRef h, Plan.bind, Plan.run_consult, consult_none]
  show (Plan.ask (returned k) 0 _).run infer none g s₁ = _
  rw [Plan.run_ask, hask]
  rfl

/-- The parameter has no type of its own. -/
lemma run_parameter (n : Nat) :
    ((wrappers n).plan (returned 0) 0).run infer none g s = (.unknown, s) := by
  have hfind : Catalog.findIn ⟨0, 1⟩ (wrapperReferences (n + 1)) = _ := findIn_parameter (n + 1)
  have hcandidates : (wrappers n).names.candidates (returned 0) =
      [.parameter ⟨⟨0, 0⟩, "x"⟩] := Bindings.candidates_of_find? hfind
  have hlocal : (wrappers n).names.isGlobal (returned 0) = false := by
    show (true && !(Catalog.findIn ⟨0, 1⟩ (wrapperReferences (n + 1))).isSome) = false
    rw [hfind]
    rfl
  show ((wrappers n).nameType (returned 0) "x").run infer none g s = _
  rw [nameType, hcandidates, Plan.run_consult, consult_none]
  show ((wrappers n).unboundType (returned 0) "x" .unknown).run infer none g s = _
  rw [unboundType, hlocal]
  rfl

end Plans

/-! ## With levels to spare -/

/-- The guard while a call of a wrapper is worked on. -/
def inCall (k : Nat) (g : Guard) : Guard := ⟨.value (wrapperCall k).id 0 :: g.inFlight⟩

/-- The guard while the name in that call is worked on. -/
def inName (k : Nat) (g : Guard) : Guard := ⟨.value (wrapperRef k).id 0 :: (inCall k g).inFlight⟩

/-- Nothing further down the chain is in progress, so that both can be entered. -/
lemma avoids_wrapper {g : Guard} (hg : g.Avoids 0 (4 * (k + 1) + 2)) :
    .value (wrapperCall k).id 0 ∉ g ∧ .value (wrapperRef k).id 0 ∉ inCall k g ∧
      (inCall k g).Avoids 0 (4 * k + 2) ∧ (inName k g).Avoids 0 (4 * k + 2) := by
  have hcall : (inCall k g).Avoids 0 (4 * k + 5) :=
    (hg.mono le_rfl (by omega : 4 * k + 5 ≤ _)).enter (.inr le_rfl) 0
  have hname : (inName k g).Avoids 0 (4 * k + 4) :=
    (hcall.mono le_rfl (by omega : 4 * k + 4 ≤ _)).enter (.inr le_rfl) 0
  refine ⟨hg.notMem (Nat.zero_le _) ?_ 0, hcall.notMem (Nat.zero_le _) (Nat.lt_succ_self _) 0,
    hcall.mono le_rfl (by omega), hname.mono le_rfl (by omega)⟩
  show 4 * k + 5 < _
  omega

/-- A call of a wrapper takes two expressions more than what the wrapper returns: the call and the
name in it. -/
lemma infer_returned (hk : k ≤ n + 1) {levels : Nat} (hl : 2 * k + 1 ≤ levels) {g : Guard}
    (hg : g.Avoids 0 (4 * k + 2)) {s : Progress} (hc : s.patience = none) (hm : s.memo = ∅) :
    ∃ s', (wrappers n).infer none levels g (returned k) 0 s = (.unknown, s') ∧
      s'.memo.find? (.value (returned k).id 0) = some .unknown ∧ Spent (2 * k + 1) 0 s s' := by
  have hfresh : ∀ key, s.memo.find? key = none := fun key => hm ▸ rfl
  induction k generalizing levels g s with
  | zero =>
    obtain ⟨levels, rfl⟩ : ∃ l, levels = l + 1 := ⟨levels - 1, by omega⟩
    have hparam : .value (returned 0).id 0 ∉ g := hg.notMem (Nat.zero_le _) (by simp) 0
    obtain ⟨hrun, hspent⟩ := infer_of_enter levels hc (hfresh _) rfl hparam (run_parameter n)
      (.refl _)
    exact ⟨_, hrun, Catalog.find?_insert_self _ _ _, hspent⟩
  | succ k ih =>
    obtain ⟨levels, rfl⟩ : ∃ l, levels = l + 1 + 1 := ⟨levels - 2, by omega⟩
    have hlevels : 2 * k + 1 ≤ levels := by omega
    obtain ⟨hcall, hname, -, hguard⟩ := avoids_wrapper hg
    -- the first question about what the wrapper returns, through its name
    obtain ⟨s₁, hask, hknown, hspent⟩ := ih (by omega) hlevels hguard
      (s := (s.record .expression).record .expression) hc hm hfresh
    obtain ⟨href, hspent⟩ := infer_of_enter (p := wrappers n) levels
      (s := s.record .expression) hc (hfresh _) rfl hname (run_wrapperRef (by omega) hask) hspent
    -- the second one, through the body, is answered by the memo
    have hne : Key.value (wrapperRef k).id 0 ≠ .value (returned k).id 0 := by
      simp
    have hkept : (s₁.memoize (.value (wrapperRef k).id 0) (wrapperTy k)).memo.find?
        (.value (returned k).id 0) = some .unknown := by
      rw [memoize, Catalog.find?_insert, if_neg hne]
      exact hknown
    have hagain := (wrappers n).infer_of_memo_patient none (hspent.patience.trans hc) (levels + 1)
      (g := inCall k g) hkept
    obtain ⟨hrun, hspent⟩ := infer_of_enter (levels + 1) hc (hfresh _) rfl hcall
      (run_wrapperCall (by omega) href (resultsOf_wrapperTy k) hagain) hspent
    exact ⟨_, hrun, Catalog.find?_insert_self _ _ _, hspent⟩

theorem callWork_of_le (hm : 2 * n + 3 ≤ m) :
    (callWork n m).depthHits = 0 ∧ (callWork n m).expressions = 2 * n + 3 := by
  obtain ⟨s', hrun, -, hspent⟩ := infer_returned (n := n) (k := n + 1) le_rfl
    (show 2 * (n + 1) + 1 ≤ m by omega) (Guard.Avoids.empty _ _)
    (s := Progress.record ∅ .query) rfl rfl
  exact Spent.typeOf m hrun hspent

/-! ## Out of reach of the depth limit -/

/-- Between `s` and `s'`, something is cut short, and no answer is kept; `total` is the number of
expressions with an excess. -/
structure CutShort (excess total : Nat) (s s' : Progress) : Prop where
  expressions : s'.work.expressions + excess = s.work.expressions + total
  truncations : s.truncations < s'.truncations
  patience : s'.patience = s.patience
  memo : s'.memo = s.memo

/-- The name of a wrapper, if what the wrapper returns is cut short wherever a level is left for
it. -/
lemma infer_wrapperRef_cut (hk : k ≤ n) (levels : Nat) {g : Guard} {s : Progress}
    (hc : s.patience = none) (hm : s.memo = ∅) (hname : .value (wrapperRef k).id 0 ∉ g)
    (hask : ∀ l, levels = l + 1 → ∃ s', (wrappers n).infer none l
        ⟨.value (wrapperRef k).id 0 :: g.inFlight⟩ (returned k) 0 (s.record .expression) =
          (.unknown, s') ∧ CutShort 2 (Nat.fib (l + 3)) (s.record .expression) s') :
    ∃ t s', (wrappers n).infer none levels g (wrapperRef k) 0 s = (t, s') ∧
      Ty.joinAll (resultsOf t 0) = .unknown ∧ CutShort 1 (Nat.fib (levels + 2)) s s' := by
  have hfresh : ∀ key, s.memo.find? key = none := fun key => hm ▸ rfl
  cases levels with
  | zero =>
    exact ⟨_, _, infer_zero_patient _ none hc (hfresh _), rfl, rfl, Nat.lt_succ_self _, rfl, rfl⟩
  | succ levels =>
    obtain ⟨s', hreturned, hcut⟩ := hask levels rfl
    have hrun := infer_of_enter_cut levels hc (hfresh _) rfl hname (run_wrapperRef hk hreturned)
      hcut.patience hcut.truncations
    have htotal : s'.work.expressions + 2 = s.work.expressions + 1 + Nat.fib (levels + 1 + 2) :=
      hcut.expressions
    refine ⟨_, s', hrun, resultsOf_wrapperTy k, ?_, hcut.truncations, hcut.patience, hcut.memo⟩
    omega

/-- Where no call comes to an end within the levels that are left, every call asks for the one
before it twice, once with one level less and once with two. -/
lemma infer_returned_cut (hk : k ≤ n + 1) {levels : Nat} (hl : levels ≤ k) {g : Guard}
    (hg : g.Avoids 0 (4 * k + 2)) {s : Progress} (hc : s.patience = none) (hm : s.memo = ∅) :
    ∃ s', (wrappers n).infer none levels g (returned k) 0 s = (.unknown, s') ∧
      CutShort 2 (Nat.fib (levels + 3)) s s' := by
  induction levels using Nat.strong_induction_on generalizing k g s with
  | _ levels ih =>
    have hfresh : ∀ key, s.memo.find? key = none := fun key => hm ▸ rfl
    cases levels with
    | zero =>
      exact ⟨s.truncate, infer_zero_patient _ none hc (hfresh _), rfl, Nat.lt_succ_self _, rfl, rfl⟩
    | succ levels =>
      obtain ⟨k, rfl⟩ : ∃ j, k = j + 1 := ⟨k - 1, by omega⟩
      have hkn : k ≤ n := by omega
      obtain ⟨hcall, hname, hguard, hguard'⟩ := avoids_wrapper hg
      -- the name in the call, which asks for the call before with two levels less
      obtain ⟨t, s₁, hfirst, ht, hcut₁⟩ := infer_wrapperRef_cut hkn levels
        (s := s.record .expression) hc hm hname fun l hl' =>
          ih l (by omega) (by omega) (by omega) hguard' hc hm
      -- the body of the wrapper, which asks for it with one level less
      obtain ⟨s₂, hsecond, hcut₂⟩ := ih levels (by omega) (by omega : k ≤ n + 1) (by omega) hguard
        (hcut₁.patience.trans hc) (hcut₁.memo.trans hm)
      have hcut : s.truncations < s₂.truncations := hcut₁.truncations.trans hcut₂.truncations
      have hend : s₂.patience = s.patience := hcut₂.patience.trans hcut₁.patience
      refine ⟨s₂, infer_of_enter_cut levels hc (hfresh _) rfl hcall
        (run_wrapperCall hkn hfirst ht hsecond) hend hcut, ?_, hcut, hend,
        hcut₂.memo.trans hcut₁.memo⟩
      have htotal₁ : s₁.work.expressions + 1 = s.work.expressions + 1 + Nat.fib (levels + 2) :=
        hcut₁.expressions
      have htotal₂ := hcut₂.expressions
      have hfib : Nat.fib (levels + 1 + 3) = Nat.fib (levels + 2) + Nat.fib (levels + 3) :=
        Nat.fib_add_two
      omega

theorem callWork_of_ge (hm : m ≤ n + 1) : (callWork n m).expressions = Nat.fib (m + 3) - 2 := by
  obtain ⟨s', hrun, hcut⟩ := infer_returned_cut le_rfl hm (Guard.Avoids.empty _ _)
    (s := Progress.record ∅ .query) rfl rfl
  have hquery : (wrappers n).infer none m ∅ (wrapperCall n) 0 (Progress.record ∅ .query) = _ := hrun
  have htotal : s'.work.expressions + 2 = 0 + Nat.fib (m + 3) := hcut.expressions
  rw [callWork, typeOf_withDepth, hquery]
  show s'.work.expressions = _
  omega

/-! ## Under any limit -/

/-- Nothing that is known about the chain says what a call returns. -/
structure Silent (memo : Catalog Key Ty) : Prop where
  returned : ∀ k t, memo.find? (.value (returned k).id 0) = some t → t = .unknown
  ref : ∀ k t, memo.find? (.value (wrapperRef k).id 0) = some t →
    Ty.joinAll (resultsOf t 0) = .unknown

lemma Silent.insert_returned {memo : Catalog Key Ty} (h : Silent memo) (k : Nat) :
    Silent (memo.insert (.value (Program.returned k).id 0) .unknown) := by
  constructor
  · intro j t ht
    rw [Catalog.find?_insert] at ht
    split at ht
    · exact (Option.some.inj ht).symm
    · exact h.returned j t ht
  · intro j t ht
    have hne : Key.value (Program.returned k).id 0 ≠ .value (wrapperRef j).id 0 := by
      simp only [returned_id, wrapperRef_id, ne_eq, Key.value.injEq, NodeId.mk.injEq, true_and,
        and_true]
      omega
    rw [Catalog.find?_insert, if_neg hne] at ht
    exact h.ref j t ht

lemma Silent.insert_ref {memo : Catalog Key Ty} (h : Silent memo) (k : Nat) :
    Silent (memo.insert (.value (wrapperRef k).id 0) (wrapperTy k)) := by
  constructor
  · intro j t ht
    have hne : Key.value (wrapperRef k).id 0 ≠ .value (Program.returned j).id 0 := by
      simp only [returned_id, wrapperRef_id, ne_eq, Key.value.injEq, NodeId.mk.injEq, true_and,
        and_true]
      omega
    rw [Catalog.find?_insert, if_neg hne] at ht
    exact h.returned j t ht
  · intro j t ht
    rw [Catalog.find?_insert] at ht
    split at ht
    · rw [← Option.some.inj ht]
      exact resultsOf_wrapperTy k
    · exact h.ref j t ht

/-- Between `s` and `s'`, every expression is paid for, there are at most `total` of them with an
excess, and nothing is learned about what calls return. -/
structure Within (n : Nat) (w : Nat → Nat) (levels excess total : Nat) (s s' : Progress) :
    Prop where
  paid : Paid (4 * n + 6) w levels s s'
  expressions : s'.work.expressions + excess ≤ s.work.expressions + total
  silent : Silent s'.memo

section Within

variable {w : Nat → Nat} {g : Guard} {s s₁ : Progress}

/-- The name of a wrapper, if what the wrapper returns stays within its bounds wherever a level is
left for it. -/
lemma wrapperRef_within (hk : k ≤ n) (levels : Nat) (hw : 1 ≤ w (4 * k + 4))
    (hc : s.patience = none) (hs : Silent s.memo) (hname : .value (wrapperRef k).id 0 ∉ g)
    (hask : ∀ l, levels = l + 1 → ∃ s', (wrappers n).infer none l
        ⟨.value (wrapperRef k).id 0 :: g.inFlight⟩ (returned k) 0 (s.record .expression) =
          (.unknown, s') ∧
        Within n (spend w (4 * k + 4)) l 2 (Nat.fib (l + 3)) (s.record .expression) s') :
    ∃ t s', (wrappers n).infer none levels g (wrapperRef k) 0 s = (t, s') ∧
      Ty.joinAll (resultsOf t 0) = .unknown ∧ Within n w levels 1 (Nat.fib (levels + 2)) s s' := by
  cases hm : s.memo.find? (.value (wrapperRef k).id 0) with
  | some t =>
    have hpos : 0 < Nat.fib (levels + 2) := Nat.fib_pos.2 (by omega)
    exact ⟨t, s, infer_of_memo_patient _ none hc levels hm, hs.ref k t hm, .refl _ _ _ _, by omega,
      hs⟩
  | none =>
    cases levels with
    | zero => exact ⟨_, _, infer_zero_patient _ none hc hm, rfl, .truncate _ _ _ _, le_rfl, hs⟩
    | succ levels =>
      obtain ⟨s₁, hreturned, hwithin⟩ := hask levels rfl
      obtain ⟨s', hinfer, hpaid, hmemo, hwork⟩ := infer_paid_of_enter (wrapperRef_id k) (by omega)
        hw hc hm rfl hname (run_wrapperRef hk hreturned) hwithin.paid
      refine ⟨_, s', hinfer, resultsOf_wrapperTy k, hpaid, ?_, ?_⟩
      · have htotal : s₁.work.expressions + 2 ≤ s.work.expressions + 1 + Nat.fib (levels + 1 + 2) :=
          hwithin.expressions
        rw [hwork]
        omega
      · rcases hmemo with hmemo | ⟨-, hmemo⟩ <;> rw [hmemo]
        · exact hwithin.silent
        · exact hwithin.silent.insert_ref k

/-- What a function of the chain returns, if the plan for it stays within its bounds and finds
nothing. -/
lemma returned_within_of_run (levels : Nat) (hk : k ≤ n + 1) (hw : 1 ≤ w (4 * k + 1))
    (hc : s.patience = none) (hm : s.memo.find? (.value (returned k).id 0) = none)
    (hkey : .value (returned k).id 0 ∉ g)
    (hrun : ((wrappers n).plan (returned k) 0).run ((wrappers n).infer none levels) none
      ⟨.value (returned k).id 0 :: g.inFlight⟩ (s.record .expression) = (.unknown, s₁))
    (hwithin : Within n (spend w (4 * k + 1)) levels 3 (Nat.fib (levels + 1 + 3))
      (s.record .expression) s₁) :
    ∃ s', (wrappers n).infer none (levels + 1) g (returned k) 0 s = (.unknown, s') ∧
      Within n w (levels + 1) 2 (Nat.fib (levels + 1 + 3)) s s' := by
  have hguarded : (returned k).isGuarded = true := by
    cases k <;> rfl
  obtain ⟨s', hinfer, hpaid, hmemo, hwork⟩ := infer_paid_of_enter (returned_id k) (by omega) hw hc hm
    hguarded hkey hrun hwithin.paid
  refine ⟨s', hinfer, hpaid, ?_, ?_⟩
  · have htotal : s₁.work.expressions + 3 ≤ s.work.expressions + 1 + Nat.fib (levels + 1 + 3) :=
      hwithin.expressions
    rw [hwork]
    omega
  · rcases hmemo with hmemo | ⟨-, hmemo⟩ <;> rw [hmemo]
    · exact hwithin.silent
    · exact hwithin.silent.insert_returned k

/-- All that is below what the function with number `k` returns holds credit. -/
def Funded (k : Nat) (w : Nat → Nat) : Prop := ∀ i < 4 * k + 2, 1 ≤ i → i % 4 ≤ 1 → 1 ≤ w i

/-- While a call is worked on, and while the name in it is, the rest of the chain keeps its
credit. -/
lemma Funded.spend (h : Funded (k + 1) w) :
    1 ≤ TypeQuery.spend w (4 * (k + 1) + 1) (4 * k + 4) ∧
      Funded k (TypeQuery.spend w (4 * (k + 1) + 1)) ∧
      Funded k (TypeQuery.spend (TypeQuery.spend w (4 * (k + 1) + 1)) (4 * k + 4)) := by
  refine ⟨?_, fun i hi hpos hmod => ?_, fun i hi hpos hmod => ?_⟩
  · rw [spend_of_ne (by omega)]
    exact h _ (by omega) (by omega) (by omega)
  · rw [spend_of_ne (by omega)]
    exact h i (by omega) hpos hmod
  · rw [spend_of_ne (by omega), spend_of_ne (by omega)]
    exact h i (by omega) hpos hmod

/-- What a function of the chain returns, in whatever state the query is and however many levels are
left. -/
lemma returned_within (hk : k ≤ n + 1) (levels : Nat) (hg : g.Avoids 0 (4 * k + 2))
    (hw : Funded k w) (hc : s.patience = none) (hs : Silent s.memo) :
    ∃ s', (wrappers n).infer none levels g (returned k) 0 s = (.unknown, s') ∧
      Within n w levels 2 (Nat.fib (levels + 3)) s s' := by
  induction levels using Nat.strong_induction_on generalizing k g w s with
  | _ levels ih =>
    cases hm : s.memo.find? (.value (returned k).id 0) with
    | some t =>
      obtain rfl := hs.returned k t hm
      have hfib : 2 ≤ Nat.fib (levels + 3) := Nat.fib_mono (by omega : 3 ≤ levels + 3)
      exact ⟨s, infer_of_memo_patient _ none hc levels hm, .refl _ _ _ _, by omega, hs⟩
    | none =>
      cases levels with
      | zero => exact ⟨_, infer_zero_patient _ none hc hm, .truncate _ _ _ _, le_rfl, hs⟩
      | succ levels =>
        have hkey : .value (returned k).id 0 ∉ g := hg.notMem (Nat.zero_le _) (by simp) 0
        have hown : 1 ≤ w (4 * k + 1) := hw _ (by omega) (by omega) (by omega)
        cases k with
        | zero =>
          have hfib : 3 ≤ Nat.fib (levels + 1 + 3) := Nat.fib_mono (by omega : 4 ≤ levels + 4)
          refine returned_within_of_run levels hk hown hc hm hkey (run_parameter n)
            ⟨.refl _ _ _ _, ?_, hs⟩
          omega
        | succ k =>
          obtain ⟨-, hname, hguard, hguard'⟩ := avoids_wrapper hg
          obtain ⟨hwname, hwcall, hwbelow⟩ := hw.spend
          -- the name in the call, and then the body of the wrapper
          obtain ⟨t, s₁, hfirst, ht, hwithin₁⟩ := wrapperRef_within (by omega : k ≤ n) levels hwname
            (s := s.record .expression) hc hs hname fun l hl =>
              ih l (by omega) (by omega) hguard' hwbelow hc hs
          obtain ⟨s₂, hsecond, hwithin₂⟩ := ih levels (by omega) (by omega : k ≤ n + 1) hguard
            hwcall (hwithin₁.paid.patience.trans hc) hwithin₁.silent
          refine returned_within_of_run levels hk hown hc hm hkey
            (run_wrapperCall (by omega) hfirst ht hsecond)
            ⟨hwithin₁.paid.trans hwithin₂.paid, ?_, hwithin₂.silent⟩
          have htotal₁ := hwithin₁.expressions
          have htotal₂ := hwithin₂.expressions
          have hfib : Nat.fib (levels + 1 + 3) = Nat.fib (levels + 2) + Nat.fib (levels + 3) :=
            Nat.fib_add_two
          omega

end Within

/-- Every call, every name in a call and the parameter hold one credit. -/
def chainCredit (i : Nat) : Nat := if 1 ≤ i ∧ i % 4 ≤ 1 then 1 else 0

lemma sum_chainCredit (n : Nat) : ∑ i ∈ Finset.range (4 * n + 6), chainCredit i = 2 * n + 3 := by
  induction n with
  | zero => decide
  | succ n ih =>
    have hnext : ∀ r ∈ Finset.range 4, chainCredit (4 * n + 6 + r) = if r < 2 then 0 else 1 := by
      intro r hr
      have hr := Finset.mem_range.1 hr
      unfold chainCredit
      split <;> split <;> omega
    have hrange : 4 * (n + 1) + 6 = 4 * n + 6 + 4 := by omega
    rw [hrange, Finset.sum_range_add, ih, Finset.sum_congr rfl hnext]
    rfl

/-- Under any limit, the work is linear but for what depth hits pay for, and it is at most what it is
where every answer is cut short. -/
theorem callWork_le (n m : Nat) :
    (callWork n m).expressions ≤ 2 * n + 3 + m * (callWork n m).depthHits ∧
      (callWork n m).expressions ≤ Nat.fib (m + 3) - 2 := by
  have hempty : Silent (∅ : Catalog Key Ty) := ⟨fun _ _ h => (nomatch h), fun _ _ h => (nomatch h)⟩
  have hcredit : Funded (n + 1) chainCredit := by
    intro i _ hpos hmod
    simp [chainCredit, hpos, hmod]
  obtain ⟨s', hrun, hwithin⟩ := returned_within (n := n) (k := n + 1) le_rfl m
    (Guard.Avoids.empty _ _) hcredit (s := Progress.record ∅ .query) rfl hempty
  have hquery : (wrappers n).infer none m ∅ (wrapperCall n) 0 (Progress.record ∅ .query) = _ := hrun
  constructor
  · have hpaid := hwithin.paid.typeOf hquery
    rwa [credit_empty, sum_chainCredit] at hpaid
  · have htotal : s'.work.expressions + 2 ≤ 0 + Nat.fib (m + 3) := hwithin.expressions
    rw [callWork, typeOf_withDepth, hquery]
    show s'.work.expressions ≤ _
    omega

end Program

end TypeQuery
