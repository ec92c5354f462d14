import TypeQuery.Proofs.Levels

/-!
# Layers that cost a level and nothing else

Parentheses, a minus sign, and an operator whose type is that of its left operand add nothing to the
type of an expression.  All that they do is to put it one level deeper.  So an expression under `n`
such layers has, under a depth limit of `m`, the type that it has by itself under a limit of `m - n`;
and if there are as many layers as levels, nothing at all is found (`Program.typeOf_wrap`).

A layer is not guarded, and its plan is a single question (`Program.infer_around`).  When it comes to
that question, the query has counted one more expression and has one level less, and is otherwise
as it was: the same keys are in progress, and the same answers are in the memo.  An answer for the
layer is kept, or not, only after the expression inside has been answered for.  What is counted has
no influence on a run (`Program.infer_recount`), so that the run below the layers is the run for the
expression alone, step for step, including where the limit cuts it short and what it keeps.

Nothing here asks for the layers to have ids of their own.
-/

namespace TypeQuery

open Progress

/-! ## Layers -/

/-- Something around an expression that has the type of the expression. -/
inductive Layer where
  | paren (id : NodeId)
  | minus (id : NodeId)
  /-- The expression is the left operand.  The right one may be anything, or missing. -/
  | leftOperand (id : NodeId) (op : BinaryOp) (right : Option Expr)
      (transparent : op.isArithmetic = true ∨ op = .and)

namespace Layer

/-- The id of the node that the layer adds. -/
def id : Layer → NodeId
  | paren id | minus id | leftOperand id .. => id

/-- The expression with the layer around it. -/
def around : Layer → Expr → Expr
  | paren id, e => .paren id (some e)
  | minus id, e => .unary id .minus e
  | leftOperand id op right _, e => .binary id op e right

@[simp] lemma around_id (l : Layer) (e : Expr) : (l.around e).id = l.id := by
  cases l <;> rfl

lemma around_isGuarded (l : Layer) (e : Expr) : (l.around e).isGuarded = false := by
  cases l <;> rfl

end Layer

/-- The expression with layers around it, the outermost first. -/
def Expr.wrap (e : Expr) (layers : List Layer) : Expr := layers.foldr Layer.around e

lemma Tally.recordTimes_succ (t : Tally) (n : Nat) (event : Event) :
    t.recordTimes (n + 1) event = (t.record event).recordTimes n event := by
  induction n with
  | zero => rfl
  | succ n ih => exact congrArg (·.record event) ih

namespace Program

variable (p : Program) (cancelOn : Option String)

/-! ## The run below the layers -/

/-- A layer asks for the expression inside, and answers with its type. -/
lemma plan_around (l : Layer) (e : Expr) (slot : Nat) :
    p.plan (l.around e) slot = .ofExpr e 0 := by
  cases l with
  | paren id => rfl
  | minus id => rfl
  | leftOperand id op right transparent =>
    show binaryType op e right = .ofExpr e 0
    rcases transparent with harith | rfl
    · cases op <;> first | rfl | cases harith
    · rfl

/-- The run for a layer is the run for the expression inside, one level deeper. -/
lemma infer_around (l : Layer) (e : Expr) (levels : Nat) {g : Guard} {slot : Nat} {s : Progress}
    (hc : s.patience = none) (hm : s.memo.find? (.value l.id slot) = none) :
    p.infer cancelOn (levels + 1) g (l.around e) slot s =
      ((p.infer cancelOn levels g e 0 (s.record .expression)).1,
        settle g (.value l.id slot) s.truncations
          (p.infer cancelOn levels g e 0 (s.record .expression)).1
          (p.infer cancelOn levels g e 0 (s.record .expression)).2) := by
  rw [← l.around_id e] at hm ⊢
  rw [p.infer_succ_patient _ hc _ hm, p.attempt_of_unguarded _ _ (l.around_isGuarded e), plan_around]
  rfl

/-- With a level for each layer, the layers add nothing but an expression each to the count, if no
answer is kept for any of them. -/
lemma infer_wrap (e : Expr) (layers : List Layer) (levels : Nat) (g : Guard) {s : Progress}
    (hc : s.patience = none)
    (hm : ∀ l ∈ layers, s.memo.find? (.value l.id 0) = none) :
    (p.infer cancelOn (levels + layers.length) g (e.wrap layers) 0 s).1 =
        (p.infer cancelOn levels g e 0 s).1 ∧
      (p.infer cancelOn (levels + layers.length) g (e.wrap layers) 0 s).2.work =
        (p.infer cancelOn levels g e 0 s).2.work.recordTimes layers.length .expression := by
  induction layers generalizing s with
  | nil => exact ⟨rfl, rfl⟩
  | cons l layers ih =>
    obtain ⟨hl, hrest⟩ := List.forall_mem_cons.1 hm
    obtain ⟨htype, hwork⟩ := ih (s := s.record .expression) hc hrest
    have hcount : p.infer cancelOn levels g e 0 (s.record .expression) =
        ((p.infer cancelOn levels g e 0 s).1,
          (p.infer cancelOn levels g e 0 s).2.record .expression) :=
      p.infer_recount (Tally.steady_record .expression) levels g e 0 s
    rw [hcount] at htype hwork
    rw [List.length_cons, ← Nat.add_assoc]
    show (p.infer _ _ _ (l.around (e.wrap layers)) _ _).1 = _ ∧
      (p.infer _ _ _ (l.around (e.wrap layers)) _ _).2.work = _
    rw [p.infer_around _ _ _ _ hc hl, settle_work]
    refine ⟨htype, hwork.trans ?_⟩
    exact (Tally.recordTimes_succ _ _ _).symm

/-! ## Queries -/

/-- With levels to spare, the query under the layers is the query without them and with so many levels
less. -/
lemma typeOf_wrap_add (e : Expr) (layers : List Layer) (levels : Nat) :
    (p.withDepth (levels + layers.length)).typeOf (e.wrap layers) =
      (((p.withDepth levels).typeOf e).1,
        ((p.withDepth levels).typeOf e).2.recordTimes layers.length .expression) := by
  rw [typeOf_withDepth, typeOf_withDepth]
  obtain ⟨htype, hwork⟩ := p.infer_wrap none e layers levels ∅
    (s := Progress.record ∅ .query) rfl fun _ _ => rfl
  exact Prod.ext htype hwork

/-- Each of the layers around an expression takes one level from the depth limit `m`.  If that leaves
none, the type is unknown; otherwise it is the type of the expression by itself, under the limit that
is left.  The work is that of the query for the expression by itself, and one more expression for each
layer that the limit lets the query reach. -/
theorem typeOf_wrap (e : Expr) (layers : List Layer) (m : Nat) :
    ((p.withDepth m).typeOf (e.wrap layers)).1 =
        (if m ≤ layers.length then .unknown
          else ((p.withDepth (m - layers.length)).typeOf e).1) ∧
      ((p.withDepth m).typeOf (e.wrap layers)).2 =
        ((p.withDepth (m - layers.length)).typeOf e).2.recordTimes (min m layers.length)
          .expression := by
  by_cases hm : m ≤ layers.length
  · -- the outer `m` layers are reached, and what they hold is too deep
    have hsplit : e.wrap layers = (e.wrap (layers.drop m)).wrap (layers.take m) := by
      rw [Expr.wrap, Expr.wrap, Expr.wrap, ← List.foldr_append, List.take_append_drop]
    have hlength : (layers.take m).length = m := List.length_take_of_le hm
    have hcut := p.typeOf_wrap_add (e.wrap (layers.drop m)) (layers.take m) 0
    rw [Nat.zero_add, hlength, ← hsplit, typeOf_withDepth_zero] at hcut
    rw [hcut, if_pos hm, Nat.sub_eq_zero_of_le hm, typeOf_withDepth_zero, Nat.min_eq_left hm]
    exact ⟨rfl, rfl⟩
  · obtain ⟨levels, rfl⟩ : ∃ levels, m = levels + layers.length :=
      ⟨m - layers.length, by omega⟩
    rw [typeOf_wrap_add, if_neg hm, Nat.add_sub_cancel, Nat.min_eq_right (Nat.le_add_left _ _)]
    exact ⟨rfl, rfl⟩

/-- In `-(1 and y) * 2`, four layers around a number, the number is found with a fifth level. -/
example :
    let layers : List Layer :=
      [.leftOperand ⟨0, 6⟩ .multiply (some (.literal ⟨0, 5⟩ .number)) (.inl rfl), .minus ⟨0, 4⟩,
        .paren ⟨0, 3⟩, .leftOperand ⟨0, 2⟩ .and (some (.name ⟨0, 1⟩ "y")) (.inr rfl)]
    let wrapped := (Expr.literal ⟨0, 0⟩ .number).wrap layers
    (((ofReferences []).withDepth 4).typeOf wrapped).1 = .unknown ∧
      (((ofReferences []).withDepth 5).typeOf wrapped).1 = .number := by
  decide

end Program

end TypeQuery
