import TypeQuery.Proofs.Cycles
import TypeQuery.Proofs.Levels

/-!
# The type of `a or b`

The plan of `a or b` asks for `a`, then for `b`, and joins the answers.  So one expects the type of
`a or b` to be the join of the types of `a` and `b`.  Both questions belong to one query, however,
and the second one finds the memo that the first one leaves.  If `a` and `b` lie on a common cycle,
this memo may hold an answer about an expression of the cycle that was cut short under the key of
another one, and a query for `b` alone would have found more.

`Program.typeOf_or` says what the type of `a or b` is: the join of the type of `a` and of the type
that `b` is found to have by a query that has answered for `a` before.  And it gives a case in which
a new query would find the same for `b`: one of the operands has a value, so that no cycle lies
behind it.  `Program.tangledOr_ne_join` is a pair of mutually dependent variables for which it would
not.
-/

namespace TypeQuery

open Progress

namespace Program

variable {p : Program} {es : List Expr} {id : NodeId} {a b : Expr}

/-- The type that `b` is found to have by a query that has answered for `a` before. -/
def typeOfAfter (p : Program) (a b : Expr) : Ty :=
  let q : Query := ((∅ : Query).perform p none (.ofExpr a 0)).2
  (q.perform p none (.ofExpr b 0)).1

/-! ## One query for both operands -/

/-- An `or` asks for its operands one after the other. -/
lemma infer_or (levels : Nat) {g : Guard} {slot : Nat} {s : Progress}
    (hc : s.patience = none) (hm : s.memo.find? (.value id slot) = none) :
    let r := p.infer none levels g a 0 (s.record .expression)
    let r' := p.infer none levels g b 0 r.2
    p.infer none (levels + 1) g (.binary id .or a (some b)) slot s =
      (r.1.join r'.1, settle g (.value id slot) s.truncations (r.1.join r'.1) r'.2) := by
  intro r r'
  have hplain : (Expr.binary id .or a (some b)).isGuarded = false := rfl
  have hm' : s.memo.find? (.value (Expr.binary id .or a (some b)).id slot) = none := hm
  rw [p.infer_succ_patient _ hc _ hm', p.attempt_of_unguarded _ _ hplain]
  rfl

/-- If the query for `a or b` is quiet, so are its two questions, and its answer is the join of
theirs, the first of which is the type of `a`.  The questions are one level deeper and come with a
larger tally, but to a quiet run this does not matter. -/
lemma typeOf_or_operands (ho : (p.typeOf (.binary id .or a (some b))).2.depthHits = 0) :
    let s := (Progress.record ∅ .query).record .expression
    let r := p.infer none p.options.maxDepth ∅ a 0 s
    let r' := p.infer none p.options.maxDepth ∅ b 0 r.2
    Quiet s r.2 ∧ Quiet r.2 r'.2 ∧
      (p.typeOf (.binary id .or a (some b))).1 = (p.typeOf a).1.join r'.1 := by
  intro s
  have hq := (p.depthHits_typeOf_eq_zero).1 ho
  have hanswer := congrArg Prod.fst (p.typeOf_eq (.binary id .or a (some b)))
  have hstart : Same s (Progress.record ∅ .query) := ⟨rfl, rfl, rfl⟩
  obtain ⟨hfirst, -⟩ := p.infer_same none p.options.maxDepth ∅ a 0 hstart
  rw [show (p.typeOf a).1 = _ from hfirst.symm]
  cases hlevels : p.options.maxDepth with
  | zero =>
    rw [hlevels, p.infer_zero_patient none rfl rfl] at hq
    exact absurd hq (Nat.succ_ne_self _)
  | succ levels =>
    rw [hlevels, infer_or levels rfl rfl] at hq hanswer
    have hgrows := p.infer_grows none levels
    have hq' : Quiet s (p.infer none levels ∅ b 0 (p.infer none levels ∅ a 0 s).2).2 :=
      (settle_truncations _ _ _ _ _).symm.trans hq
    obtain ⟨hqa, hqb⟩ := hq'.split (hgrows ∅ a 0 s) (hgrows ∅ b 0 _)
    have hra := p.infer_eq_of_quiet none (Nat.le_succ levels) ∅ a 0 s hqa
    have hrb := p.infer_eq_of_quiet none (Nat.le_succ levels) ∅ b 0 _ hqb
    dsimp only
    rw [hra, hrb]
    exact ⟨hqa, hqb, hanswer⟩

/-- The second answer is that of a query that has answered for `a`. -/
lemma typeOf_or_eq (ho : (p.typeOf (.binary id .or a (some b))).2.depthHits = 0) :
    (p.typeOf (.binary id .or a (some b))).1 = (p.typeOf a).1.join (p.typeOfAfter a b) := by
  obtain ⟨-, -, hjoin⟩ := typeOf_or_operands ho
  have hstart : Same ((Progress.record ∅ .query).record .expression) ∅ := ⟨rfl, rfl, rfl⟩
  obtain ⟨-, hsame⟩ := p.infer_same none p.options.maxDepth ∅ a 0 hstart
  obtain ⟨hb, -⟩ := p.infer_same none p.options.maxDepth ∅ b 0 hsame
  rw [hjoin, hb]
  rfl

/-! ## Operands with values -/

/-- A query starts with a memo that is right about everything. -/
lemma right_of_memo_empty {s : Progress} (h : s.memo = ∅) : p.Right es s := by
  intro x _ i t u _ ht
  rw [h] at ht
  cases ht

variable {s : Progress}

/-- A memo stays right, whatever a quiet query is about. -/
lemma Right.infer (hp : p.WellNumbered es) (ha : p.Holds es a 0) (hc : s.patience = none)
    (hs : p.Right es s) {levels : Nat} (hq : Quiet s (p.infer none levels ∅ a 0 s).2) :
    p.Right es (p.infer none levels ∅ a 0 s).2 := by
  have hself : p.InStep es s s := ⟨hs, hs, fun _ _ _ _ => rfl⟩
  have hclear : ∀ n, p.Clear es n ∅ := fun _ => clear_empty
  obtain ⟨-, hstep⟩ := infer_inStep hp levels ∅ a 0 s s ha hclear hc hc hself hq hq
  exact hstep.right

/-- A query that has answered for `a` gives `b` the type that a new one gives it, if `a` or `b` has a
value. -/
lemma infer_after_eq (hp : p.WellNumbered es) (ha : p.Holds es a 0) (hb : p.Holds es b 0)
    (hv : (∃ t, p.HasValue a 0 t) ∨ ∃ t, p.HasValue b 0 t) {levels : Nat} {s₀ : Progress}
    (hc : s.patience = none) (hc₀ : s₀.patience = none) (hm : s.memo = ∅) (hm₀ : s₀.memo = ∅)
    (hqa : Quiet s (p.infer none levels ∅ a 0 s).2)
    (hqb : Quiet (p.infer none levels ∅ a 0 s).2
      (p.infer none levels ∅ b 0 (p.infer none levels ∅ a 0 s).2).2)
    (hq₀ : Quiet s₀ (p.infer none levels ∅ b 0 s₀).2) :
    (p.infer none levels ∅ b 0 (p.infer none levels ∅ a 0 s).2).1 =
      (p.infer none levels ∅ b 0 s₀).1 := by
  have hs : p.Right es s := right_of_memo_empty hm
  have hs₀ : p.Right es s₀ := right_of_memo_empty hm₀
  have hca : (p.infer none levels ∅ a 0 s).2.patience = none :=
    patience_kept.infer p levels ∅ a 0 s hc
  rcases hv with ⟨t, n, ht⟩ | ⟨t, n, ht⟩
  · -- all that is kept about `a` are values, so the new query is in step with this one
    have hfinds := infer_finds hp n levels ∅ a 0 s t ha ht clear_empty hc hs hqa
    have hagree : p.Agree es s s₀ := by
      intro x _ i _
      rw [hm, hm₀]
    have hstep : p.InStep es (p.infer none levels ∅ a 0 s).2 s₀ :=
      ⟨hfinds.right, hs₀, hfinds.agree.symm.trans hagree⟩
    have hmove := infer_inStep hp levels ∅ b 0 _ s₀ hb (fun _ => clear_empty) hca hc₀ hstep hqb hq₀
    exact hmove.1
  · -- both queries find the value of `b`
    have hright := hs.infer hp ha hc hqa
    have hfinds := infer_finds hp n levels ∅ b 0 _ t hb ht clear_empty hca hright hqb
    have hfinds₀ := infer_finds hp n levels ∅ b 0 s₀ t hb ht clear_empty hc₀ hs₀ hq₀
    exact hfinds.answer.trans hfinds₀.answer.symm

/-- The type of `a or b` is the join of the type of `a` and of the type that `b` is found to have by
a query that has answered for `a` before.  If one of `a` and `b` has a value, the type of `b` by
itself does as well. -/
theorem typeOf_or (p : Program) (id : NodeId) (a b : Expr)
    (ho : (p.typeOf (.binary id .or a (some b))).2.depthHits = 0) :
    (p.typeOf (.binary id .or a (some b))).1 = (p.typeOf a).1.join (p.typeOfAfter a b) ∧
      ((p.typeOf b).2.depthHits = 0 → p.WellNumbered [.binary id .or a (some b)] →
        ((∃ t, p.HasValue a 0 t) ∨ ∃ t, p.HasValue b 0 t) →
        (p.typeOf (.binary id .or a (some b))).1 = (p.typeOf a).1.join (p.typeOf b).1) := by
  refine ⟨typeOf_or_eq ho, ?_⟩
  intro hb hp hv
  obtain ⟨hqa, hqb, hjoin⟩ := typeOf_or_operands ho
  have hnode := mem_nodes_of_mem (p := p) (List.mem_singleton_self (Expr.binary id .or a (some b)))
  have ha : p.Holds [.binary id .or a (some b)] a 0 :=
    ⟨mem_nodes_of_parts hnode List.mem_cons_self, Nat.zero_le _⟩
  have hb' : p.Holds [.binary id .or a (some b)] b 0 :=
    ⟨mem_nodes_of_parts hnode (List.mem_cons_of_mem _ List.mem_cons_self), Nat.zero_le _⟩
  have hq₀ := (p.depthHits_typeOf_eq_zero).1 hb
  have hsame := infer_after_eq hp ha hb' hv rfl rfl rfl rfl hqa hqb hq₀
  rw [hjoin, hsame]
  rfl

/-! ## Two variables on a cycle -/

/-- The value of `y`: `x or 5`. -/
def xOrFive : Expr := .binary ⟨0, 2⟩ .or (.name ⟨0, 0⟩ "x") (some (.literal ⟨0, 1⟩ .number))

/-- The value of `x`: `function() return y end`. -/
def returnsY : Expr := .closure ⟨0, 5⟩ ⟨⟨0, 5⟩, [], [[.name ⟨0, 4⟩ "y"]]⟩

/-- Two variables `y` and `x` that depend on each other, and a third one, `z = true`, that does not.
The nodes 7, 8 and 9 are further uses of `y`, `x` and `z`. -/
def tangled : Program :=
  let y : Declaration := { Declaration.localName ⟨0, 3⟩ "y" with value := some ⟨[xOrFive], 0⟩ }
  let x : Declaration := { Declaration.localName ⟨0, 6⟩ "x" with value := some ⟨[returnsY], 0⟩ }
  let z : Declaration :=
    { Declaration.localName ⟨0, 11⟩ "z" with value := some ⟨[.literal ⟨0, 10⟩ .boolean], 0⟩ }
  ofReferences [(⟨0, 9⟩, z), (⟨0, 8⟩, x), (⟨0, 7⟩, y), (⟨0, 4⟩, y), (⟨0, 0⟩, x)]

/-- `y or z`: only the first operand is on the cycle. -/
def looseOr : Expr := .binary ⟨0, 12⟩ .or (.name ⟨0, 7⟩ "y") (some (.name ⟨0, 9⟩ "z"))

/-- `y or x`: both operands are on the cycle. -/
def tangledOr : Expr := .binary ⟨0, 13⟩ .or (.name ⟨0, 7⟩ "y") (some (.name ⟨0, 8⟩ "x"))

/-- Everything that a query in `tangled` can meet. -/
def tangledNodes : List Expr :=
  [looseOr, tangledOr, .name ⟨0, 7⟩ "y", .name ⟨0, 8⟩ "x", .name ⟨0, 9⟩ "z", returnsY,
    .name ⟨0, 4⟩ "y", xOrFive, .name ⟨0, 0⟩ "x", .literal ⟨0, 1⟩ .number, .literal ⟨0, 10⟩ .boolean]

lemma tangled_wellNumbered {e : Expr} (he : e = looseOr ∨ e = tangledOr) :
    tangled.WellNumbered [e] := by
  have hd : Distinct tangledNodes := .of_nodup (by decide)
  have htabled : tangled.tabled.flatMap Expr.nodes =
      [returnsY, .name ⟨0, 4⟩ "y", xOrFive, .name ⟨0, 0⟩ "x", .literal ⟨0, 1⟩ .number, xOrFive,
        .name ⟨0, 0⟩ "x", .literal ⟨0, 1⟩ .number, returnsY, .name ⟨0, 4⟩ "y",
        .literal ⟨0, 10⟩ .boolean] := rfl
  have hown : e.nodes ⊆ tangledNodes := by
    rcases he with rfl | rfl
    · show [looseOr, .name ⟨0, 7⟩ "y", .name ⟨0, 9⟩ "z"] ⊆ _
      simp [tangledNodes]
    · show [tangledOr, .name ⟨0, 7⟩ "y", .name ⟨0, 8⟩ "x"] ⊆ _
      simp [tangledNodes]
  refine ⟨hd.of_subset ?_, by decide⟩
  show e.nodes ++ tangled.tabled.flatMap Expr.nodes ⊆ tangledNodes
  rw [htabled]
  exact List.append_subset.2 ⟨hown, by simp [tangledNodes]⟩

/-- `y or z` has the join of the types of `y` and `z`, though `y` is on a cycle. -/
theorem looseOr_join : tangled.WellNumbered [looseOr] ∧
    (∃ t, tangled.HasValue (.name ⟨0, 9⟩ "z") 0 t) ∧
    (tangled.typeOf (.name ⟨0, 9⟩ "z")).2.depthHits = 0 ∧
    (tangled.typeOf looseOr).2.depthHits = 0 ∧
    (tangled.typeOf looseOr).1 = (tangled.typeOf (.name ⟨0, 7⟩ "y")).1.join
      (tangled.typeOfAfter (.name ⟨0, 7⟩ "y") (.name ⟨0, 9⟩ "z")) ∧
    (tangled.typeOf looseOr).1 =
      (tangled.typeOf (.name ⟨0, 7⟩ "y")).1.join (tangled.typeOf (.name ⟨0, 9⟩ "z")).1 := by
  have hp : tangled.WellNumbered [looseOr] := tangled_wellNumbered (.inl rfl)
  have hz : ∃ t, tangled.HasValue (.name ⟨0, 9⟩ "z") 0 t := ⟨.boolean, 2, rfl⟩
  have hq : (tangled.typeOf (.name ⟨0, 9⟩ "z")).2.depthHits = 0 := by decide
  have ho : (tangled.typeOf looseOr).2.depthHits = 0 := by decide
  obtain ⟨hafter, hjoin⟩ := typeOf_or tangled _ _ _ ho
  exact ⟨hp, hz, hq, ho, hafter, hjoin hq hp (.inr hz)⟩

/-- `y or x` misses a part of the join.  The query for `y` keeps the function that is the value of
`x` as it comes out with the key of `x` in progress, where the `y` that it returns is cut short; a
new query for `x` goes one round further. -/
theorem tangledOr_ne_join : tangled.WellNumbered [tangledOr] ∧
    (tangled.typeOf (.name ⟨0, 7⟩ "y")).2.depthHits = 0 ∧
    (tangled.typeOf (.name ⟨0, 8⟩ "x")).2.depthHits = 0 ∧
    (tangled.typeOf tangledOr).2.depthHits = 0 ∧
    (tangled.typeOf tangledOr).1 ≠
      (tangled.typeOf (.name ⟨0, 7⟩ "y")).1.join (tangled.typeOf (.name ⟨0, 8⟩ "x")).1 :=
  ⟨tangled_wellNumbered (.inr rfl), by decide, by decide, by decide, by decide⟩

end Program

end TypeQuery
