import TypeQuery.Expr.Basic
import TypeQuery.Guard
import TypeQuery.Ty.Join

/-!
# Plans

A plan says how the type of something is found, without saying how far a query may go or what it
already knows.  It is a finite conversation: the plan asks for the types of other expressions, one
after the other, may do a part of its work under a key of the recursion guard, and in the end gives
its answer.  Which expression is asked next may depend on the types found so far.

The rules of `TypeQuery.Typing` are functions into plans.  `TypeQuery.Query` carries plans out under
a memo, a guard, a depth limit and cancellation; since a plan cannot see any of these, a plan can
also be carried out without them, and the two can be compared.
-/

namespace TypeQuery

/-- A way to find a type. -/
inductive Plan where
  /-- The type is found. -/
  | answer (ty : Ty)
  /-- Asks for the value at position `slot` of an expression. -/
  | ask (expr : Expr) (slot : Nat) (next : Ty → Plan)
  /-- Carries out `body` as the work of `key`, and goes on with its answer; with none if the work of
  `key` is in progress already. -/
  | within (key : Key) (body : Plan) (next : Option Ty → Plan)
  /-- Looks up what the name of a node means. -/
  | consult (name : String) (next : Plan)
  /-- Looks up a module, which is found or not. -/
  | lookUpModule (found : Bool) (next : Plan)

namespace Plan

/-- Asks for an expression and answers with its type. -/
def ofExpr (e : Expr) (slot : Nat) : Plan := .ask e slot .answer

/-- Carries out a plan and goes on with its answer. -/
def bind : Plan → (Ty → Plan) → Plan
  | .answer t, k => k t
  | .ask e slot next, k => .ask e slot fun t => (next t).bind k
  | .within key body next, k => .within key body fun r => (next r).bind k
  | .consult name next, k => .consult name (next.bind k)
  | .lookUpModule found next, k => .lookUpModule found (next.bind k)

/-- Carries out plans one after the other and goes on with all their answers. -/
def collect : List Plan → (List Ty → Plan) → Plan
  | [], k => k []
  | p :: ps, k => p.bind fun t => collect ps fun ts => k (t :: ts)

/-- Carries out plans one after the other and joins their answers. -/
def join (ps : List Plan) : Plan := collect ps fun ts => .answer (Ty.joinAll ts)

/-- Carries out a plan and joins its answer to a type. -/
def joinTo (t : Ty) (p : Plan) : Plan := p.bind fun t' => .answer (t.join t')

end Plan

end TypeQuery
