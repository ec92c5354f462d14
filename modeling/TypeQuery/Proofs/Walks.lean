import TypeQuery.Proofs.Nodes

/-!
# Walks

Bindings are filled by a walk over a program, which opens and closes scopes, declares names and binds
references as it meets them.  `Bindings.Action` lists what a walk can do, and `Bindings.walk` is what
a walk from the start leaves behind.

Each action touches one part of the bindings: the open scopes (`scopes_act`), the references
(`find?_references_act`) or the globals (`globalsOf_act`).  What is true at the end of every walk follows
from these by induction on the walk, from its last action backwards (`walk_concat`).
-/

namespace TypeQuery.Bindings

/-- Something that a walk over a program does. -/
inductive Action where
  | enter
  | exit
  | declare (d : Declaration)
  | bind (e : Expr)
  | declareGlobal (d : Declaration)
  | setTarget (e : Expr) (d : Declaration)

/-- The bindings after an action. -/
def act (b : Bindings) : Action → Bindings
  | .enter => b.enter
  | .exit => b.exit
  | .declare d => (b.declare d).2
  | .bind e => (b.bind e).2
  | .declareGlobal d => b.declareGlobal d
  | .setTarget e d => b.setTarget e d

/-- The bindings that a walk leaves behind. -/
def walk (actions : List Action) : Bindings := actions.foldl act ∅

lemma walk_concat (log : List Action) (a : Action) : walk (log ++ [a]) = (walk log).act a :=
  List.foldl_concat ..

/-! ## What an action changes -/

/-- What an action does to the open scopes, innermost first. -/
theorem scopes_act (b : Bindings) (a : Action) : (b.act a).scopes =
    match a with
    | .enter => ∅ :: b.scopes
    | .exit => if b.enclosing = [] then b.scopes else b.enclosing
    | .declare d => b.current.insert d.name d :: b.enclosing
    | _ => b.scopes := by
  cases a with
  | exit =>
    rw [act, exit]
    split
    next h => rw [if_pos h]
    next s rest h => simp only [scopes, h, reduceCtorEq, if_false]
  | bind e =>
    rw [act, bind]
    split <;> rfl
  | _ => rfl

/-- What the action finds the node `n` to mean. -/
def Action.meaning? (b : Bindings) (n : NodeId) : Action → Option Declaration
  | .bind e => if e.id = n then e.name?.bind b.lookup else none
  | _ => none

theorem find?_references_act (b : Bindings) (a : Action) (n : NodeId) :
    (b.act a).references.find? n = (a.meaning? b n).or (b.references.find? n) := by
  cases a with
  | exit =>
    rw [act, exit]
    split <;> rfl
  | bind e =>
    rw [act, bind, Action.meaning?]
    split
    next d h => by_cases hn : e.id = n <;> simp [Catalog.find?_insert, hn, h]
    next h => simp [h]
  | _ => rfl

/-- The declaration of the global `x` that the action adds. -/
def Action.globalOf? (x : String) : Action → Option Declaration
  | .declareGlobal d => if d.name = x then some { d with kind := .globalName } else none
  | _ => none

theorem globalsOf_act (b : Bindings) (a : Action) (x : String) :
    (b.act a).globalsOf x = b.globalsOf x ++ (a.globalOf? x).toList := by
  cases a with
  | declareGlobal d =>
    rw [act, globalsOf_declareGlobal, Action.globalOf?]
    split
    · rfl
    · exact (List.append_nil _).symm
  | exit =>
    rw [act, exit]
    split <;> exact (List.append_nil _).symm
  | bind e =>
    rw [act, bind]
    split <;> exact (List.append_nil _).symm
  | _ => exact (List.append_nil _).symm

/-! ## Globals -/

/-- The declarations of a global are those that the walk met, in that order. -/
lemma globalsOf_walk (log : List Action) (x : String) :
    (walk log).globalsOf x = log.filterMap (Action.globalOf? x) := by
  induction log using List.reverseRecOn with
  | nil => rfl
  | append_singleton log a ih =>
    rw [walk_concat, globalsOf_act, ih, List.filterMap_append]
    cases h : a.globalOf? x <;> simp [h]

end TypeQuery.Bindings
