import Mathlib.Algebra.Order.BigOperators.Group.List
import Mathlib.Algebra.Order.Group.Nat
import Mathlib.Data.List.MinMax
import Mathlib.Data.List.Nodup
import TypeQuery.Typing

/-!
# The expressions of a program

A query starts at one expression and is led on by the tables of the program: from a name to the
values of its declarations, from a call to a function body, from a `require` to what a module
exports.  This file lists everything that it can be led to.

* `Expr.nodes` lists an expression with all expressions inside it, and `Expr.nodes_eq` unfolds it
  along `Expr.parts`, the expressions directly inside.  Its length is the size of the expression.
* `Program.nodes` lists the nodes of a program: those of the given expressions, and those of the
  expressions that its tables hold.
* `Program.lastSlot` bounds the slots at which any of them is asked for.  It is read off the
  program: the positions of its assigned values, and the numbers of values that its functions
  return.

`Distinct` says that no two different expressions of a list have the same id.  The same expression
may well stand in the list many times, since several tables may hold it.
-/

namespace TypeQuery

/-! ## Looking up in a catalog -/

namespace Catalog

variable {κ α : Type} [DecidableEq κ]

lemma mem_of_findIn {k : κ} {a : α} {l : List (κ × α)} (h : findIn k l = some a) :
    a ∈ l.map Prod.snd := by
  induction l with
  | nil => simp [findIn] at h
  | cons e rest ih =>
    obtain ⟨j, b⟩ := e
    by_cases hj : j = k
    · simp only [findIn, hj, if_true, Option.some.injEq] at h
      simp [h]
    · simp only [findIn, hj, if_false] at h
      exact List.mem_cons_of_mem _ (ih h)

/-- What is found is one of the values. -/
lemma mem_values_of_find? {c : Catalog κ α} {k : κ} {a : α} (h : c.find? k = some a) :
    a ∈ c.values := by
  rw [values, entries, List.map_reverse, List.mem_reverse]
  exact mem_of_findIn h

end Catalog

/-! ## The parts of an expression -/

/-- The expression in the brackets of a key. -/
def IndexKey.parts : IndexKey → List Expr
  | .field _ => []
  | .bracket key => [key]

/-- The expressions of a field of a table constructor. -/
def TableField.parts : TableField → List Expr
  | .named _ _ value => [value]
  | .keyed _ key value => [key, value]
  | .positional value => [value]

/-- The expressions directly inside an expression.  Those of a closure are what its body
returns. -/
def Expr.parts : Expr → List Expr
  | .unary _ _ operand => [operand]
  | .binary _ _ left right => left :: right.toList
  | .call _ callee arguments => callee :: arguments
  | .closure _ body => body.returns.flatten
  | .table _ fields => fields.flatMap TableField.parts
  | .paren _ inner => inner.toList
  | .name .. | .literal .. => []
  | .index _ object key => object :: key.parts

mutual

/-- An expression and all expressions inside it. -/
def Expr.nodes : Expr → List Expr
  | .unary n op operand => .unary n op operand :: operand.nodes
  | .binary n op left right => .binary n op left right :: (left.nodes ++ Expr.nodesOption right)
  | .call n callee arguments =>
    .call n callee arguments :: (callee.nodes ++ Expr.nodesList arguments)
  | .closure n body => .closure n body :: body.nodes
  | .table n fields => .table n fields :: TableField.nodesList fields
  | .paren n inner => .paren n inner :: Expr.nodesOption inner
  | .name n x => [.name n x]
  | .literal n l => [.literal n l]
  | .index n object key => .index n object key :: (object.nodes ++ key.nodes)

/-- The nodes of an expression that may be missing. -/
def Expr.nodesOption : Option Expr → List Expr
  | none => []
  | some e => e.nodes

/-- The nodes of several expressions. -/
def Expr.nodesList : List Expr → List Expr
  | [] => []
  | e :: es => e.nodes ++ Expr.nodesList es

/-- The nodes of several lists of expressions. -/
def Expr.nodesLists : List (List Expr) → List Expr
  | [] => []
  | es :: rest => Expr.nodesList es ++ Expr.nodesLists rest

/-- The nodes of a key. -/
def IndexKey.nodes : IndexKey → List Expr
  | .field _ => []
  | .bracket key => key.nodes

/-- The nodes of a field of a table constructor. -/
def TableField.nodes : TableField → List Expr
  | .named _ _ value => value.nodes
  | .keyed _ key value => key.nodes ++ value.nodes
  | .positional value => value.nodes

/-- The nodes of several fields of a table constructor. -/
def TableField.nodesList : List TableField → List Expr
  | [] => []
  | f :: fs => f.nodes ++ TableField.nodesList fs

/-- The nodes of what a body returns. -/
def FunctionBody.nodes : FunctionBody → List Expr
  | ⟨_, _, returns⟩ => Expr.nodesLists returns

end

lemma Expr.nodesOption_eq (o : Option Expr) : nodesOption o = o.toList.flatMap nodes := by
  cases o <;> simp [nodesOption]

lemma Expr.nodesList_eq (es : List Expr) : nodesList es = es.flatMap nodes := by
  induction es with
  | nil => rfl
  | cons e es ih => simp [nodesList, ih]

lemma Expr.nodesLists_eq (ls : List (List Expr)) : nodesLists ls = ls.flatten.flatMap nodes := by
  induction ls with
  | nil => rfl
  | cons es rest ih => simp [nodesLists, nodesList_eq, ih]

lemma IndexKey.nodes_eq (k : IndexKey) : k.nodes = k.parts.flatMap Expr.nodes := by
  cases k <;> simp [nodes, parts]

lemma TableField.nodes_eq (f : TableField) : f.nodes = f.parts.flatMap Expr.nodes := by
  cases f <;> simp [nodes, parts]

lemma TableField.nodesList_eq (fs : List TableField) :
    nodesList fs = (fs.flatMap parts).flatMap Expr.nodes := by
  induction fs with
  | nil => rfl
  | cons f fs ih => simp [nodesList, nodes_eq, ih]

lemma FunctionBody.nodes_eq (b : FunctionBody) :
    b.nodes = b.returns.flatten.flatMap Expr.nodes := by
  cases b
  exact Expr.nodesLists_eq _

namespace Expr

/-- The nodes of an expression are the expression and the nodes of its parts. -/
theorem nodes_eq (e : Expr) : e.nodes = e :: e.parts.flatMap nodes := by
  cases e <;>
    simp [nodes, parts, nodesOption_eq, nodesList_eq, TableField.nodesList_eq,
      FunctionBody.nodes_eq, IndexKey.nodes_eq]

/-- The number of nodes of an expression. -/
def size (e : Expr) : Nat := e.nodes.length

lemma self_mem_nodes (e : Expr) : e ∈ e.nodes := by
  rw [nodes_eq]
  exact List.mem_cons_self

lemma nodes_subset_of_mem_parts {e x : Expr} (h : x ∈ e.parts) : x.nodes ⊆ e.nodes := by
  intro y hy
  rw [nodes_eq]
  exact List.mem_cons_of_mem _ (List.mem_flatMap.2 ⟨x, h, hy⟩)

lemma size_pos (e : Expr) : 0 < e.size := List.length_pos_of_mem e.self_mem_nodes

/-- A part is smaller than the whole. -/
lemma size_lt_of_mem_parts {e x : Expr} (h : x ∈ e.parts) : x.size < e.size := by
  have hle : x.nodes.length ≤ (e.parts.flatMap nodes).length := by
    rw [List.length_flatMap]
    exact List.le_sum_of_mem (List.mem_map_of_mem h)
  rw [size, size, nodes_eq e, List.length_cons]
  omega

/-- The nodes of an expression are closed under taking parts. -/
lemma parts_subset_of_mem_nodes {e x : Expr} (hx : x ∈ e.nodes) : x.parts ⊆ e.nodes := by
  induction hn : e.size using Nat.strong_induction_on generalizing e with
  | h n ih =>
    rw [nodes_eq] at hx
    rcases List.mem_cons.1 hx with rfl | hx
    · intro y hy
      exact nodes_subset_of_mem_parts hy y.self_mem_nodes
    · obtain ⟨c, hc, hxc⟩ := List.mem_flatMap.1 hx
      have hsub := ih c.size (hn ▸ size_lt_of_mem_parts hc) hxc rfl
      exact List.Subset.trans hsub (nodes_subset_of_mem_parts hc)

lemma parts_of_body? {e : Expr} {b : FunctionBody} (h : e.body? = some b) :
    e.parts = b.returns.flatten := by
  cases e <;> simp_all [body?, parts]

end Expr

/-! ## The tables of a program -/

/-- Different expressions of the list have different ids. -/
def Distinct (es : List Expr) : Prop := ∀ x ∈ es, ∀ y ∈ es, x.id = y.id → x = y

lemma Distinct.of_nodup {es : List Expr} (h : (es.map Expr.id).Nodup) : Distinct es :=
  fun _ hx _ hy => List.inj_on_of_nodup_map h hx hy

lemma Distinct.of_subset {es es' : List Expr} (hd : Distinct es') (h : es ⊆ es') : Distinct es :=
  fun x hx y hy => hd x (h hx) y (h hy)

/-- The expressions at which the type of a declaration can be found. -/
def Declaration.exprs (d : Declaration) : List Expr :=
  (d.value.map Assigned.values).getD [] ++ (d.body.map fun b => b.returns.flatten).getD []

/-- The declarations to which names lead. -/
def Names.declarations : Names → List Declaration
  | .bound b => b.references.values ++ b.globals.values.flatten ++ b.targets.values
  | .bodyOnly _ => []

/-- The function body that every callee means, if there is one. -/
def Names.commonBody? : Names → Option FunctionBody
  | .bound _ => none
  | .bodyOnly b => some b

/-- All declarations of all fields. -/
def Members.declarations (m : Members) : List Declaration :=
  m.classes.values.flatMap fun fields => fields.values.flatten

/-- The expression whose value a module exports. -/
def Module.exportedExpr? (m : Module) : Option Expr :=
  match m.exported with
  | some (.value e) => some e
  | _ => none

namespace Program

/-- A program whose names lead to these declarations, without fields and modules. -/
def ofReferences (references : List (NodeId × Declaration)) : Program where
  names := .bound { (∅ : Bindings) with references := ⟨references⟩ }
  annotations := ∅
  members := ∅
  modules := ⟨.listed [], [], [], ⟨""⟩, ∅⟩
  options := { constructorNames := [], requireFunctions := [] }
  constructors := .listed

variable (p : Program) (es : List Expr)

/-- All declarations of a program. -/
def declarations : List Declaration := p.names.declarations ++ p.members.declarations

/-- The expressions that the tables of a program hold. -/
def tabled : List Expr :=
  p.declarations.flatMap Declaration.exprs ++
    (p.names.commonBody?.map fun b => b.returns.flatten).getD [] ++
    p.modules.registry.modules.values.filterMap Module.exportedExpr?

/-- The nodes of a program: of the expressions `es`, and of those that its tables hold. -/
def nodes : List Expr := (es ++ p.tabled).flatMap Expr.nodes

/-- The function bodies of a program. -/
def bodies : List FunctionBody :=
  (p.nodes es).filterMap Expr.body? ++ p.declarations.filterMap Declaration.body ++
    p.names.commonBody?.toList

/-- The last slot at which an expression of the program is asked for: the greatest position of an
assigned value, or the last position of the longest list of returned values. -/
def lastSlot : Nat :=
  max ((p.declarations.filterMap fun d => d.value.map Assigned.index).foldr max 0)
    (((p.bodies es).map FunctionBody.arity).foldr max 0 - 1)

end Program

/-! ## What the tables lead to -/

/-- A node with a reference means that declaration and no other. -/
lemma Bindings.candidates_of_find? {b : Bindings} {e : Expr} {d : Declaration}
    (h : b.references.find? e.id = some d) : b.candidates e = [d] := by
  simp [candidates, h]

/-- A name without a reference means all declarations of its global. -/
lemma Bindings.candidates_of_unbound {b : Bindings} {id : NodeId} (x : String)
    (h : b.references.find? id = none) : b.candidates (.name id x) = b.globalsOf x := by
  simp only [candidates, Expr.id, h]
  rfl

lemma Bindings.isGlobal_name (b : Bindings) (id : NodeId) (x : String) :
    b.isGlobal (.name id x) = true ↔ b.references.find? id = none := by
  simp [isGlobal, Expr.name?, Expr.id, Catalog.contains]

namespace Names

lemma mem_declarations_of_candidates {n : Names} {e : Expr} {d : Declaration}
    (h : d ∈ n.candidates e) : d ∈ n.declarations := by
  cases n with
  | bodyOnly b => simp [candidates] at h
  | bound b =>
    simp only [candidates, Bindings.candidates] at h
    simp only [declarations, List.mem_append]
    split at h
    next d' hd' =>
      rw [List.mem_singleton] at h
      exact .inl (.inl (h ▸ Catalog.mem_values_of_find? hd'))
    next =>
      refine .inl (.inr ?_)
      cases hn : e.name? with
      | none => simp [hn] at h
      | some x =>
        rw [hn, Option.map_some, Option.getD_some, Bindings.globalsOf] at h
        cases hx : b.globals.find? x with
        | none => simp [hx] at h
        | some ds =>
          rw [hx, Option.getD_some] at h
          exact List.mem_flatten.2 ⟨ds, Catalog.mem_values_of_find? hx, h⟩

lemma mem_declarations_of_target? {n : Names} {e : Expr} {d : Declaration}
    (h : n.target? e = some d) : d ∈ n.declarations := by
  cases n with
  | bodyOnly b => simp [target?] at h
  | bound b =>
    simp only [declarations, List.mem_append]
    exact .inr (Catalog.mem_values_of_find? h)

end Names

/-- The declarations of a global after one more declaration of a global. -/
lemma Bindings.globalsOf_declareGlobal (b : Bindings) (d : Declaration) (x : String) :
    (b.declareGlobal d).globalsOf x =
      if d.name = x then b.globalsOf x ++ [{ d with kind := .globalName }] else b.globalsOf x := by
  simp only [globalsOf, declareGlobal, Catalog.find?_insert]
  split
  next h => rw [h, Option.getD_some]
  next => rfl

/-- The declarations of a field after one more declaration was added to a class. -/
lemma Members.declarationsOf_add (m : Members) (c c' : ClassTy) (d : Declaration)
    (field : String) :
    (m.add c d).declarationsOf c' field =
      if c.memberKey = c'.memberKey ∧ d.name = field then m.declarationsOf c' field ++ [d]
      else m.declarationsOf c' field := by
  simp only [declarationsOf, fieldsOf, add, Catalog.find?_insert]
  by_cases hc : c.memberKey = c'.memberKey
  · by_cases hf : d.name = field <;> simp [hc, hf, Catalog.find?_insert]
  · simp [hc]

lemma Members.declarationsOf_add_self (m : Members) (c : ClassTy) (d : Declaration) :
    (m.add c d).declarationsOf c d.name = m.declarationsOf c d.name ++ [d] := by
  rw [declarationsOf_add, if_pos ⟨rfl, rfl⟩]

/-- Adds declarations to classes, one after the other. -/
def Members.addAll (m : Members) (ds : List (ClassTy × Declaration)) : Members :=
  ds.foldl (fun m d => m.add d.1 d.2) m

/-- What is found after adding: in the order of adding, what was added to a class with the same key. -/
lemma Members.declarationsOf_addAll (m : Members) (ds : List (ClassTy × Declaration))
    (c : ClassTy) (field : String) :
    (m.addAll ds).declarationsOf c field = m.declarationsOf c field ++
      (ds.filter fun d => d.1.memberKey = c.memberKey ∧ d.2.name = field).map Prod.snd := by
  induction ds generalizing m with
  | nil => simp [addAll]
  | cons d ds ih =>
    have hrest : (m.addAll (d :: ds)).declarationsOf c field = _ := ih (m.add d.1 d.2)
    rw [hrest, declarationsOf_add, List.filter_cons]
    by_cases h : d.1.memberKey = c.memberKey ∧ d.2.name = field <;> simp [h]

lemma Members.mem_declarations_of_declarationsOf {m : Members} {c : ClassTy} {field : String}
    {d : Declaration} (h : d ∈ m.declarationsOf c field) : d ∈ m.declarations := by
  unfold declarationsOf fieldsOf at h
  cases hc : m.classes.find? c.memberKey with
  | none => simp [hc] at h
  | some fields =>
    cases hf : fields.find? field with
    | none => simp [hc, hf] at h
    | some ds =>
      rw [hc, Option.getD_some, hf, Option.getD_some] at h
      refine List.mem_flatMap.2 ⟨fields, Catalog.mem_values_of_find? hc, ?_⟩
      exact List.mem_flatten.2 ⟨ds, Catalog.mem_values_of_find? hf, h⟩

/-- A module that is found is one of the indexed modules. -/
lemma Modules.mem_values_of_resolve {ms : Modules} {source : String} {file : FileId} {m : Module}
    (h : ms.resolve source file = .ok m) : m ∈ ms.registry.modules.values := by
  unfold resolve at h
  cases hp : ms.resolvePath source file with
  | error err => simp [hp, bind, Except.bind] at h
  | ok path =>
    simp only [hp, bind, Except.bind, Registry.get] at h
    split at h
    next m' hm =>
      cases h
      exact Catalog.mem_values_of_find? hm
    next => cases h

namespace Program

variable {p : Program} {es : List Expr}

lemma mem_nodes_of_mem {e : Expr} (h : e ∈ es) : e ∈ p.nodes es :=
  List.mem_flatMap.2 ⟨e, List.mem_append_left _ h, e.self_mem_nodes⟩

lemma mem_nodes_of_tabled {e : Expr} (h : e ∈ p.tabled) : e ∈ p.nodes es :=
  List.mem_flatMap.2 ⟨e, List.mem_append_right _ h, e.self_mem_nodes⟩

/-- The nodes of a program are closed under taking parts. -/
lemma mem_nodes_of_parts {e x : Expr} (he : e ∈ p.nodes es) (hx : x ∈ e.parts) :
    x ∈ p.nodes es := by
  obtain ⟨root, hroot, he⟩ := List.mem_flatMap.1 he
  exact List.mem_flatMap.2 ⟨root, hroot, Expr.parts_subset_of_mem_nodes he hx⟩

/-- What a node may mean is a declaration of the program. -/
lemma mem_declarations_of_candidate {e : Expr} {d : Declaration}
    (h : d ∈ p.names.candidates e) : d ∈ p.declarations :=
  List.mem_append_left _ (Names.mem_declarations_of_candidates h)

/-- What an assignment makes is a declaration of the program. -/
lemma mem_declarations_of_target {e : Expr} {d : Declaration} (h : p.names.target? e = some d) :
    d ∈ p.declarations :=
  List.mem_append_left _ (Names.mem_declarations_of_target? h)

/-- What a field is declared by is a declaration of the program. -/
lemma mem_declarations_of_member {c : ClassTy} {field : String} {d : Declaration}
    (h : d ∈ p.members.declarationsOf c field) : d ∈ p.declarations :=
  List.mem_append_right _ (Members.mem_declarations_of_declarationsOf h)

lemma mem_tabled_of_declaration {d : Declaration} {x : Expr} (hd : d ∈ p.declarations)
    (hx : x ∈ d.exprs) : x ∈ p.tabled := by
  simp only [tabled, List.mem_append]
  exact .inl (.inl (List.mem_flatMap.2 ⟨d, hd, hx⟩))

lemma mem_nodes_of_value {d : Declaration} {v : Assigned} {x : Expr} (hd : d ∈ p.declarations)
    (hv : d.value = some v) (hx : x ∈ v.values) : x ∈ p.nodes es := by
  refine mem_nodes_of_tabled (mem_tabled_of_declaration hd ?_)
  simp [Declaration.exprs, hv, hx]

lemma mem_nodes_of_export {m : Module} {x : Expr} (hm : m ∈ p.modules.registry.modules.values)
    (hx : m.exported = some (.value x)) : x ∈ p.nodes es := by
  refine mem_nodes_of_tabled ?_
  simp only [tabled, List.mem_append, List.mem_filterMap]
  exact .inr ⟨m, hm, by simp [Module.exportedExpr?, hx]⟩

/-- What a function body of the program returns is a node of the program. -/
lemma mem_nodes_of_body {b : FunctionBody} {x : Expr} (hb : b ∈ p.bodies es)
    (hx : x ∈ b.returns.flatten) : x ∈ p.nodes es := by
  simp only [bodies, List.mem_append, List.mem_filterMap] at hb
  rcases hb with (⟨e, he, hbe⟩ | ⟨d, hd, hbd⟩) | hbc
  · exact mem_nodes_of_parts he (Expr.parts_of_body? hbe ▸ hx)
  · refine mem_nodes_of_tabled (mem_tabled_of_declaration hd ?_)
    simpa [Declaration.exprs, hbd] using .inr (by simpa using hx)
  · rw [Option.mem_toList] at hbc
    refine mem_nodes_of_tabled ?_
    simp only [tabled, List.mem_append]
    exact .inl (.inr (by rw [hbc]; exact hx))

lemma index_le_lastSlot {d : Declaration} {v : Assigned} (hd : d ∈ p.declarations)
    (hv : d.value = some v) : v.index ≤ p.lastSlot es := by
  refine le_max_of_le_left (List.le_max_of_le' 0 (List.mem_filterMap.2 ⟨d, hd, ?_⟩) le_rfl)
  rw [hv, Option.map_some]

lemma lt_arity_le_lastSlot {b : FunctionBody} {slot : Nat} (hb : b ∈ p.bodies es)
    (h : slot < b.arity) : slot ≤ p.lastSlot es := by
  have hle : b.arity ≤ ((p.bodies es).map FunctionBody.arity).foldr max 0 :=
    List.le_max_of_le' 0 (List.mem_map_of_mem hb) le_rfl
  exact le_max_of_le_right (by omega)

lemma mem_bodies_of_declaration {d : Declaration} {b : FunctionBody} (hd : d ∈ p.declarations)
    (hb : d.body = some b) : b ∈ p.bodies es := by
  simp only [bodies, List.mem_append, List.mem_filterMap]
  exact .inl (.inr ⟨d, hd, hb⟩)

lemma mem_bodies_of_node {e : Expr} {b : FunctionBody} (he : e ∈ p.nodes es)
    (hb : e.body? = some b) : b ∈ p.bodies es := by
  simp only [bodies, List.mem_append, List.mem_filterMap]
  exact .inl (.inl ⟨e, he, hb⟩)

/-- The body that a declaration gives its name is a body of the program, whether it is its own or
that of a closure assigned to it. -/
lemma mem_bodies_of_functionBody? {d : Declaration} {b : FunctionBody} (hd : d ∈ p.declarations)
    (hb : d.functionBody? = some b) : b ∈ p.bodies es := by
  unfold Declaration.functionBody? at hb
  cases hbd : d.body with
  | some b' =>
    rw [hbd] at hb
    cases hb
    exact mem_bodies_of_declaration hd hbd
  | none =>
    simp only [hbd, Option.orElse_eq_orElse, Option.orElse_eq_or, Option.none_or,
      Option.bind_eq_some_iff] at hb
    obtain ⟨x, ⟨v, hv, hvx⟩, hbx⟩ := hb
    exact mem_bodies_of_node (mem_nodes_of_value hd hv (List.mem_of_getElem? hvx)) hbx

end Program

end TypeQuery
