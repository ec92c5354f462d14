import TypeQuery.Proofs.Asks
import TypeQuery.Proofs.Lattice
import TypeQuery.Proofs.Restore

/-!
# Properties that every inferred type has

A query makes its types out of types that the program brings in, by a handful of operations.  If a
property of types holds of all that the program brings in, and the operations keep it, then every
answer has the property, and so has every answer in the memo.  This file shows it once for all
properties.

* `Ty.Closed P` lists the operations: the join, the type of a function, and the ways in which the
  rules take a type apart (the choices of a union, the element of an array, the arguments of a
  generic type, the values that a signature returns).
* `Program.Supplies P` lists what a program brings in: its annotations and the types that its
  modules export, the type of each of its table constructors, and the open record of each of its
  globals.
* `Plan.Preserves P` is the step: a plan gives an answer with the property, if all the answers that
  it gets have it.  `Program.plan_preserves` says so for every rule.

From there, `Program.infer_preserves` carries the property over a whole query, however it is cut
short or cancelled.

Being well-formed is such a property.  So the only unions that ever come out of a query are those
that joins make, at whatever depth they stand: `Query.answers_wellFormed`.
-/

namespace TypeQuery

/-! ## Plans -/

namespace Plan

/-- If all the answers that the plan gets satisfy `P`, so does the answer that it gives. -/
def Preserves (P : Ty → Prop) : Plan → Prop
  | .answer t => P t
  | .ask _ _ next => ∀ t, P t → (next t).Preserves P
  | .within _ body next =>
    body.Preserves P ∧ (next none).Preserves P ∧ ∀ t, P t → (next (some t)).Preserves P
  | .consult _ next => next.Preserves P
  | .lookUpModule _ next => next.Preserves P

end Plan

/-- The rules put types together and take them apart by operations that keep the property. -/
structure Ty.Closed (P : Ty → Prop) : Prop where
  unknown : P .unknown
  nil : P .nil
  boolean : P .boolean
  number : P .number
  string : P .string
  join : ∀ {a b : Ty}, P a → P b → P (a.join b)
  function : ∀ {ps : List Parameter} {rs : List Ty}, (∀ q ∈ ps, P q.ty) → (∀ t ∈ rs, P t) →
    P (.simpleFunction ps rs)
  member : ∀ {t m : Ty}, P t → m ∈ t.members → P m
  element : ∀ {t : Ty}, P (.array t) → P t
  argument : ∀ {base : String} {ps : List Ty} {t : Ty}, P (.generic base ps) → t ∈ ps → P t
  returned : ∀ {ss : List Signature} {s : Signature} {t : Ty}, P (.function ss) → s ∈ ss →
    t ∈ s.returns → P t

/-- The type that a module is declared to export. -/
def Module.exportedType? (m : Module) : Option Ty :=
  match m.exported with
  | some (.type t) => some t
  | _ => none

namespace Program

variable (p : Program) (es : List Expr)

/-- The types that are written down in a program: its annotations, and the types that its modules
are declared to export. -/
def declaredTypes : List Ty :=
  p.annotations.values ++ p.modules.registry.modules.values.filterMap Module.exportedType?

/-- The types that a program brings in have the property. -/
structure Supplies (P : Ty → Prop) : Prop where
  declared : ∀ t ∈ p.declaredTypes, P t
  table : ∀ {id : NodeId} {fields : List TableField}, .table id fields ∈ p.nodes es → P (.table id)
  global : ∀ {id : NodeId} {x : String}, .name id x ∈ p.nodes es → P (.global x)
  globalName : ∀ d ∈ p.declarations, d.kind = .globalName → P (.global d.name)

end Program

section Rules

variable {P : Ty → Prop}

namespace Ty.Closed

variable (hP : Ty.Closed P)
include hP

lemma foldl_join {a : Ty} {ts : List Ty} (ha : P a) (hts : ∀ t ∈ ts, P t) :
    P (ts.foldl Ty.join a) := by
  induction ts generalizing a with
  | nil => exact ha
  | cons t ts ih =>
    have hat : P (a.join t) := hP.join ha (hts t List.mem_cons_self)
    exact ih hat fun u hu => hts u (List.mem_cons_of_mem _ hu)

lemma joinAll {ts : List Ty} (hts : ∀ t ∈ ts, P t) : P (Ty.joinAll ts) :=
  hP.foldl_join hP.unknown hts

lemma arrayElement {t u : Ty} (ht : P t) (h : t.arrayElement? = some u) : P u := by
  obtain ⟨m, hm, hmu⟩ := List.exists_of_findSome?_eq_some h
  have hPm : P m := hP.member ht hm
  cases m <;> cases hmu
  exact hP.element hPm

lemma genericArgument {t : Ty} {base : String} {ps : List Ty} (ht : P t)
    (h : t.generic? = some (base, ps)) (i : Nat) : P (Ty.argumentAt ps i) := by
  obtain ⟨m, hm, hmps⟩ := List.exists_of_findSome?_eq_some h
  have hPm : P m := hP.member ht hm
  cases m <;> cases hmps
  rw [Ty.argumentAt, List.getD_eq_getElem?_getD]
  cases hi : ps[i]? with
  | none => exact hP.unknown
  | some u => exact hP.argument hPm (List.mem_of_getElem? hi)

/-- What a call of a value gives has the property, if the type of the value has it. -/
lemma resultsOf {callee : Ty} (hc : P callee) (slot : Nat) :
    ∀ t ∈ Program.resultsOf callee slot, P t := by
  intro t ht
  obtain ⟨m, hm, htm⟩ := List.mem_flatMap.1 ht
  have hPm : P m := hP.member hc hm
  cases m with
  | function signatures =>
    obtain ⟨s, hs, rfl⟩ := List.mem_map.1 htm
    rw [Signature.returnAt, List.getD_eq_getElem?_getD]
    cases hi : s.returns[slot]? with
    | none => exact hP.nil
    | some u => exact hP.returned hPm hs (List.mem_of_getElem? hi)
  | object c =>
    dsimp only at htm
    split at htm
    · rwa [List.mem_singleton.1 htm]
    · cases htm
  | _ => cases htm

end Ty.Closed

/-! ## Combinators -/

namespace Plan

lemma ofExpr_preserves (e : Expr) (slot : Nat) : (ofExpr e slot).Preserves P :=
  fun _ ht => ht

lemma bind_preserves {plan : Plan} {k : Ty → Plan} (hplan : plan.Preserves P)
    (hk : ∀ t, P t → (k t).Preserves P) : (plan.bind k).Preserves P := by
  induction plan with
  | answer t => exact hk t hplan
  | ask e slot next ih => exact fun t ht => ih t (hplan t ht)
  | within key body next _ ih =>
    exact ⟨hplan.1, ih none hplan.2.1, fun t ht => ih (some t) (hplan.2.2 t ht)⟩
  | consult name next ih => exact ih hplan
  | lookUpModule found next ih => exact ih hplan

lemma collect_preserves {plans : List Plan} {k : List Ty → Plan}
    (hplans : ∀ plan ∈ plans, plan.Preserves P)
    (hk : ∀ ts, (∀ t ∈ ts, P t) → (k ts).Preserves P) : (collect plans k).Preserves P := by
  induction plans generalizing k with
  | nil => exact hk [] (by simp)
  | cons plan plans ih =>
    refine bind_preserves (hplans plan List.mem_cons_self) fun t ht => ?_
    refine ih (fun q hq => hplans q (List.mem_cons_of_mem _ hq)) fun ts hts => ?_
    exact hk (t :: ts) (List.forall_mem_cons.2 ⟨ht, hts⟩)

variable (hP : Ty.Closed P)
include hP

lemma join_preserves {plans : List Plan} (hplans : ∀ plan ∈ plans, plan.Preserves P) :
    (join plans).Preserves P :=
  collect_preserves hplans fun _ hts => hP.joinAll hts

lemma joinTo_preserves {t : Ty} {plan : Plan} (ht : P t) (hplan : plan.Preserves P) :
    (joinTo t plan).Preserves P :=
  bind_preserves hplan fun _ hu => hP.join ht hu

lemma valueAt_preserves (values : List Expr) (index : Nat) :
    (valueAt values index).Preserves P := by
  unfold valueAt
  split
  · exact ofExpr_preserves _ _
  · split
    · split
      · exact ofExpr_preserves _ _
      · exact hP.nil
    · exact hP.nil

lemma returnedAt_preserves (body : FunctionBody) (slot : Nat) :
    (returnedAt body slot).Preserves P := by
  refine join_preserves hP fun plan hplan => ?_
  obtain ⟨values, -, rfl⟩ := List.mem_map.1 hplan
  exact valueAt_preserves hP values slot

end Plan

open Plan

/-! ## The rules of a program -/

namespace Program

variable {p : Program} {es : List Expr}

lemma Supplies.annotated (hp : p.Supplies es P) {id : NodeId} {t : Ty}
    (h : p.annotations.find? id = some t) : P t :=
  hp.declared t (List.mem_append_left _ (Catalog.mem_values_of_find? h))

lemma Supplies.exported (hp : p.Supplies es P) {m : Module} {t : Ty}
    (hm : m ∈ p.modules.registry.modules.values) (ht : m.exported = some (.type t)) : P t := by
  refine hp.declared t (List.mem_append_right _ (List.mem_filterMap.2 ⟨m, hm, ?_⟩))
  rw [Module.exportedType?, ht]

variable (hP : Ty.Closed P) (hp : p.Supplies es P)
include hP hp

lemma parametersOf_preserves (body : FunctionBody) : ∀ q ∈ p.parametersOf body, P q.ty := by
  intro q hq
  obtain ⟨formal, -, rfl⟩ := List.mem_map.1 hq
  dsimp only
  cases hann : p.annotations.find? formal.id with
  | none => exact hP.unknown
  | some t => exact hp.annotated hann

lemma functionType_preserves (body : FunctionBody) : (p.functionType body).Preserves P := by
  have hparams := parametersOf_preserves hP hp body
  unfold functionType
  split
  next t ht =>
    have hreturns : ∀ u ∈ [t], P u := by
      intro u hu
      rw [List.mem_singleton.1 hu]
      exact hp.annotated ht
    exact hP.function hparams hreturns
  next =>
    refine collect_preserves (fun plan hplan => ?_) fun ts hts => hP.function hparams hts
    obtain ⟨slot, -, rfl⟩ := List.mem_map.1 hplan
    exact returnedAt_preserves hP body slot

lemma returnType_preserves (body : FunctionBody) (slot : Nat) :
    (p.returnType body slot).Preserves P := by
  unfold returnType
  split
  next t ht =>
    show P (if slot = 0 then t else .nil)
    split
    · exact hp.annotated ht
    · exact hP.nil
  next => exact returnedAt_preserves hP body slot

lemma declarationType_preserves (d : Declaration) : (p.declarationType d).Preserves P := by
  have hassigned : (p.assignedType d).Preserves P := by
    unfold assignedType
    split
    · exact functionType_preserves hP hp _
    · exact valueAt_preserves hP _ _
    · exact hP.unknown
  unfold declarationType
  split
  next t ht =>
    split
    · exact hassigned
    · exact hp.annotated ht
  next => exact hassigned

lemma fieldType_preserves (c : ClassTy) (field : String) : (p.fieldType c field).Preserves P := by
  refine join_preserves hP fun plan hplan => ?_
  obtain ⟨d, -, rfl⟩ := List.mem_map.1 hplan
  exact declarationType_preserves hP hp d

lemma bindingType_preserves {d : Declaration} (hd : d ∈ p.declarations) :
    (p.bindingType d).Preserves P := by
  have hown : (p.ownBindingType d).Preserves P := by
    unfold ownBindingType
    split
    next hkind =>
      refine bind_preserves (declarationType_preserves hP hp d) fun t ht => ?_
      exact hP.join ht (hp.globalName d hd hkind)
    next => exact declarationType_preserves hP hp d
  unfold bindingType
  split
  next => exact hown
  next m hm =>
    refine ⟨fieldType_preserves hP hp _ _, hown, fun t ht => ?_⟩
    dsimp only
    split
    · exact hown
    · exact ht

lemma nameType_preserves {id : NodeId} {x : String} (he : .name id x ∈ p.nodes es) :
    (p.nameType (.name id x) x).Preserves P := by
  have hglobal : ∀ t, P t →
      P (if p.names.isGlobal (.name id x) then t.join (.global x) else t) := by
    intro t ht
    split
    · exact hP.join ht (hp.global he)
    · exact ht
  refine bind_preserves (join_preserves hP fun plan hplan => ?_) fun t ht => ?_
  · obtain ⟨d, hd, rfl⟩ := List.mem_map.1 hplan
    exact bindingType_preserves hP hp (mem_declarations_of_candidate hd)
  · split
    · unfold unboundType
      dsimp only
      split
      next d hd =>
        have hmem := mem_declarations_of_target hd
        refine bind_preserves (bindingType_preserves hP hp hmem) fun u hu => ?_
        exact hglobal _ (hP.join ht hu)
      next => exact hglobal t ht
    · exact ht

lemma requiredType_preserves (source : String) (file : FileId) :
    (p.requiredType source file).Preserves P := by
  unfold requiredType
  split
  next => exact hP.unknown
  next m hm =>
    rw [Plan.Preserves]
    split
    next t ht => exact hp.exported (Modules.mem_values_of_resolve hm) ht
    next => exact ofExpr_preserves _ _
    next => exact hP.unknown

omit hP hp in
lemma withBody_preserves {callee : Expr} {next : Option FunctionBody → Plan}
    (hnext : ∀ body, (next body).Preserves P) : (p.withBody callee next).Preserves P := by
  unfold withBody
  split
  · exact hnext _
  · split
    · exact hnext _
    · exact hnext none

lemma callType_preserves (e callee : Expr) (slot : Nat) :
    (p.callType e callee slot).Preserves P := by
  unfold callType
  split
  · split
    · exact requiredType_preserves hP hp _ _
    · exact hP.unknown
  · refine bind_preserves (fun t ht => ?_) fun t ht => ?_
    · have hresults : P (Ty.joinAll (resultsOf t slot)) := hP.joinAll (hP.resultsOf ht slot)
      dsimp only
      split
      · refine withBody_preserves fun body => ?_
        cases body with
        | none => exact hresults
        | some body => exact returnType_preserves hP hp body slot
      · exact hresults
    · split
      · split
        · exact joinTo_preserves hP ht (ofExpr_preserves _ _)
        · exact ht
      · exact ht

lemma fieldOf_preserves (object : Ty) (field : String) {t : Ty} (ht : P t) :
    (p.fieldOf object field t).Preserves P := by
  refine collect_preserves (fun plan hplan => ?_) fun ts hts => hP.foldl_join ht hts
  obtain ⟨c, -, rfl⟩ := List.mem_map.1 hplan
  exact fieldType_preserves hP hp c field

omit hP in
/-- An annotation in force at an index expression: its own, or that of what is assigned to it. -/
lemma annotationAt?_preserves {e : Expr} {target : Option Declaration} {t : Ty}
    (h : p.annotationAt? e target = some t) : P t := by
  unfold annotationAt? at h
  split at h
  next u hu =>
    cases h
    exact hp.annotated hu
  next =>
    split at h
    · split at h
      · cases h
      · exact hp.annotated h
    · cases h

lemma memberType_preserves (e object : Expr) (key : IndexKey) (o : Option Ty) :
    (p.memberType e object key o).Preserves P := by
  unfold memberType
  dsimp only
  split
  next t ht => exact annotationAt?_preserves hp ht
  next =>
    refine bind_preserves ?_ fun t ht => ?_
    · split
      · exact joinTo_preserves hP hP.unknown (valueAt_preserves hP _ _)
      · exact hP.unknown
    · split
      · exact ht
      · exact fieldOf_preserves hP hp _ _ ht
      · exact fun o _ => fieldOf_preserves hP hp o _ ht

lemma indexType_preserves (e object : Expr) (key : IndexKey) :
    (p.indexType e object key).Preserves P := by
  unfold indexType
  split
  · intro t ht
    dsimp only
    split
    next u hu => exact hP.arrayElement ht hu
    next =>
      split
      next base ps hps => exact hP.genericArgument ht hps 1
      next => exact memberType_preserves hP hp e object key (some t)
  · exact memberType_preserves hP hp e object key none

/-- Whatever the rule for an expression, its plan preserves the property. -/
lemma plan_preserves {e : Expr} (he : e ∈ p.nodes es) (slot : Nat) :
    (p.plan e slot).Preserves P := by
  cases e with
  | unary id op operand =>
    cases op with
    | minus => exact ofExpr_preserves _ _
    | length => exact hP.number
    | not => exact hP.unknown
    | bitNot => exact hP.unknown
  | binary id op left right =>
    show (binaryType op left right).Preserves P
    unfold binaryType
    split
    · exact hP.string
    split
    · exact hP.boolean
    split
    · intro t ht
      cases right with
      | none => exact ht
      | some r => exact joinTo_preserves hP ht (ofExpr_preserves _ _)
    · exact ofExpr_preserves _ _
  | call id callee arguments => exact callType_preserves hP hp _ _ _
  | closure id body => exact functionType_preserves hP hp body
  | table id fields => exact hp.table he
  | paren id inner =>
    cases inner with
    | none => exact hP.unknown
    | some x => exact ofExpr_preserves _ _
  | name id x => exact nameType_preserves hP hp he
  | literal id l =>
    cases l with
    | nil => exact hP.nil
    | boolean => exact hP.boolean
    | number => exact hP.number
    | string text => exact hP.string
    | varargs => exact hP.unknown
  | index id object key => exact indexType_preserves hP hp _ _ _

end Program

end Rules

/-! ## Queries -/

/-- Every answer in the memo has the property. -/
def Progress.MemoAll (P : Ty → Prop) (s : Progress) : Prop :=
  ∀ k t, s.memo.find? k = some t → P t

lemma Progress.MemoAll.memoize {P : Ty → Prop} {s : Progress} (hs : s.MemoAll P) (k : Key)
    {t : Ty} (ht : P t) : (s.memoize k t).MemoAll P := by
  intro j u hu
  change (s.memo.insert k t).find? j = some u at hu
  rw [Catalog.find?_insert] at hu
  split at hu
  · exact Option.some.inj hu ▸ ht
  · exact hs j u hu

/-- The answer has the property, and so have the answers in the memo. -/
def AllHave (P : Ty → Prop) (r : Ty × Progress) : Prop := P r.1 ∧ r.2.MemoAll P

/-- Carrying out a plan that preserves the property, if its questions have answers with it. -/
lemma Plan.run_allHave {P : Ty → Prop} {A : Expr → Nat → Prop} {W : Key → Plan → Prop}
    {infer : Infer} {cancelOn : Option String} {plan : Plan} (hplan : plan.Confined A W)
    (hP : plan.Preserves P)
    (hinfer : ∀ g e slot s, A e slot → s.MemoAll P → AllHave P (infer g e slot s))
    (g : Guard) {s : Progress} (hs : s.MemoAll P) : AllHave P (plan.run infer cancelOn g s) := by
  induction plan generalizing g s with
  | answer t => exact ⟨hP, hs⟩
  | ask e slot next ih =>
    obtain ⟨ht, hs₁⟩ := hinfer g e slot s hplan.1 hs
    exact ih _ (hplan.2 _) (hP _ ht) g hs₁
  | within key body next ihb ihn =>
    cases hk : g.enter? key with
    | none =>
      rw [run_within_of_mem _ _ _ hk]
      exact ihn none (hplan.2.2 _) hP.2.1 g hs
    | some g' =>
      obtain ⟨ht, hs₁⟩ := ihb hplan.2.1 hP.1 g' hs
      rw [run_within_of_enter _ _ _ hk]
      exact ihn _ (hplan.2.2 _) (hP.2.2 _ ht) g hs₁
  | consult name next ih =>
    have hs₁ : (s.consult cancelOn name).MemoAll P := by
      rw [Progress.MemoAll, Progress.consult_memo]
      exact hs
    exact ih hplan hP g hs₁
  | lookUpModule found next ih => exact ih hplan hP g (s := s.record _) hs

namespace Program

variable {P : Ty → Prop} {p : Program} {es : List Expr} (hP : Ty.Closed P) (hp : p.Supplies es P)
  {cancelOn : Option String} {e : Expr} {slot : Nat} {s : Progress}
include hP hp

lemma attempt_preserves {infer : Infer}
    (hinfer : ∀ g e slot s, e ∈ p.nodes es → s.MemoAll P → AllHave P (infer g e slot s))
    (g : Guard) (he : e ∈ p.nodes es) (hs : s.MemoAll P) :
    AllHave P (p.attempt cancelOn infer g e slot s) := by
  have hplan : ∀ g, AllHave P ((p.plan e slot).run infer cancelOn g s) := fun g =>
    Plan.run_allHave (plan_confined_nodes he slot) (plan_preserves hP hp he slot) hinfer g hs
  unfold attempt
  split
  · split
    · exact ⟨hP.unknown, hs⟩
    · exact hplan _
  · exact hplan g

lemma visit_preserves {deeper : Option Infer}
    (hdeeper : ∀ infer ∈ deeper, ∀ g e slot s, e ∈ p.nodes es → s.MemoAll P →
      AllHave P (infer g e slot s))
    (g : Guard) (he : e ∈ p.nodes es) (hs : s.MemoAll P) :
    AllHave P (p.visit cancelOn deeper g e slot s) := by
  cases hc : s.cancelled with
  | true =>
    rw [p.visit_of_cancelled _ _ hc]
    exact ⟨hP.unknown, hs⟩
  | false =>
    cases hm : s.memo.find? (.value e.id slot) with
    | some t =>
      rw [p.visit_of_memo _ _ hc hm]
      exact ⟨hs _ t hm, hs⟩
    | none =>
      cases deeper with
      | none =>
        rw [p.visit_none _ hc hm]
        exact ⟨hP.unknown, hs⟩
      | some infer =>
        rw [p.visit_some _ _ hc hm]
        have hwork : AllHave P (p.attempt cancelOn infer g e slot (s.look.record .expression)) :=
          attempt_preserves hP hp (hdeeper infer rfl) g he hs
        refine ⟨hwork.1, ?_⟩
        unfold settle
        split
        · exact hwork.2.memoize _ hwork.1
        · exact hwork.2

/-- Whatever the state of a query, and wherever it is cut short, its answer has the property, and so
has all that it keeps. -/
theorem infer_preserves (levels : Nat) (g : Guard) (he : e ∈ p.nodes es) (hs : s.MemoAll P) :
    AllHave P (p.infer cancelOn levels g e slot s) := by
  induction levels generalizing g e slot s with
  | zero => exact visit_preserves hP hp (by simp) g he hs
  | succ levels ih =>
    refine visit_preserves hP hp (fun infer hinfer => ?_) g he hs
    obtain rfl := Option.some.inj hinfer
    intro g e slot s he hs
    exact ih g he hs

end Program

/-! ## Well-formed types -/

lemma Ty.closed_wellFormed : Ty.Closed WellFormed where
  unknown := .unknown
  nil := .nil
  boolean := .boolean
  number := .number
  string := .string
  join := WellFormed.join
  function hps hrs := by
    refine .function ?_ ?_ <;> simpa only [List.mem_singleton, forall_eq]
  member {t m} ht hm := by
    cases ht with
    | union _ hms => exact hms m hm
    | _ =>
      rw [List.mem_singleton.1 hm]
      constructor <;> assumption
  element h := by
    cases h with
    | array h => exact h
  argument h ht := by
    cases h with
    | generic h => exact h _ ht
  returned h hs ht := by
    cases h with
    | function _ hr => exact hr _ hs _ ht

/-- A class without arguments is well-formed. -/
lemma Ty.wellFormed_object {c : ClassTy} (h : c.params = none) : (Ty.object c).WellFormed := by
  refine .object fun ps hps => ?_
  rw [h] at hps
  cases hps

/-- A type to which the open record of a global is joined, if there is one. -/
lemma Ty.WellFormed.withGlobal {t : Ty} (ht : t.WellFormed) (isGlobal : Bool) (x : String) :
    (if isGlobal then t.join (.global x) else t).WellFormed := by
  split
  · exact ht.join (wellFormed_object rfl)
  · exact ht

lemma Program.supplies_wellFormed {p : Program} (es : List Expr)
    (hp : ∀ t ∈ p.declaredTypes, t.WellFormed) : p.Supplies es Ty.WellFormed where
  declared := hp
  table _ := Ty.wellFormed_object rfl
  global _ := Ty.wellFormed_object rfl
  globalName _ _ _ := Ty.wellFormed_object rfl

namespace Program

variable {p : Program} (hp : ∀ t ∈ p.declaredTypes, t.WellFormed)
include hp

/-- Plans preserve well-formedness, whatever the expression. -/
lemma plan_preserves_wellFormed (e : Expr) (slot : Nat) :
    (p.plan e slot).Preserves Ty.WellFormed :=
  plan_preserves Ty.closed_wellFormed (supplies_wellFormed [e] hp)
    (mem_nodes_of_mem List.mem_cons_self) slot

lemma infer_wellFormed (cancelOn : Option String) (levels : Nat) (g : Guard) (e : Expr)
    (slot : Nat) {s : Progress} (hs : s.MemoAll Ty.WellFormed) :
    AllHave Ty.WellFormed (p.infer cancelOn levels g e slot s) :=
  infer_preserves Ty.closed_wellFormed (supplies_wellFormed [e] hp) levels g
    (mem_nodes_of_mem List.mem_cons_self) hs

end Program

/-- If the types that are written down in a program are well-formed, then a question to an open
query with a well-formed memo, whatever the state of the query is otherwise, has a well-formed answer
and leaves a well-formed memo. -/
theorem Query.answers_wellFormed (q : Query) (p : Program) (cancelOn : Option String)
    (e : Option Expr) (slot : Nat) (hp : ∀ t ∈ p.declaredTypes, t.WellFormed)
    (hq : ∀ k t, q.memoized? k = some t → t.WellFormed) :
    (q.perform p cancelOn (.ofExpr? e slot)).1.WellFormed ∧
      ∀ k t, (q.perform p cancelOn (.ofExpr? e slot)).2.memoized? k = some t → t.WellFormed := by
  cases e with
  | none => exact ⟨.unknown, hq⟩
  | some e =>
    have hs : q.progress.MemoAll Ty.WellFormed := hq
    exact Program.infer_wellFormed hp cancelOn _ _ e slot hs

/-- `local f = function() return t[1] or nil end`, where `t` is annotated as an array of numbers and
strings.  The name at which `f` is used is the node 9. -/
def optionalElement : Program :=
  let t : Declaration := .localName ⟨0, 1⟩ "t"
  let element : Expr := .index ⟨0, 4⟩ (.name ⟨0, 2⟩ "t") (.bracket (.literal ⟨0, 3⟩ .number))
  let returned : Expr := .binary ⟨0, 6⟩ .or element (some (.literal ⟨0, 5⟩ .nil))
  let f : Declaration :=
    { Declaration.localName ⟨0, 8⟩ "f" with
      value := some ⟨[.closure ⟨0, 7⟩ ⟨⟨0, 7⟩, [], [[returned]]⟩], 0⟩ }
  { Program.ofReferences [(⟨0, 9⟩, f), (⟨0, 2⟩, t)] with
    annotations := ⟨[(⟨0, 1⟩, .array (Ty.number.join .string))]⟩ }

/-- A query that is in the middle of something else and has kept a union. -/
def busyQuery : Query where
  ledger := ⟨⟨[.value ⟨0, 21⟩ 0]⟩, [some (.value ⟨0, 21⟩ 0)]⟩
  depth := 3
  progress := (∅ : Progress).memoize (.value ⟨0, 20⟩ 0) (Ty.boolean.join .nil)

/-- The union of the annotation is taken out of the array and joined to another type inside a
signature. -/
theorem Query.optionalElement_wellFormed :
    let r := busyQuery.perform optionalElement none (.ofExpr? (some (.name ⟨0, 9⟩ "f")) 0)
    (∀ t ∈ optionalElement.declaredTypes, t.WellFormed) ∧
      (∀ k t, busyQuery.memoized? k = some t → t.WellFormed) ∧
      r.1 = .simpleFunction [] [.union [.nil, .number, .string]] ∧
      r.1.WellFormed ∧ ∀ k t, r.2.memoized? k = some t → t.WellFormed := by
  have hp : ∀ t ∈ optionalElement.declaredTypes, t.WellFormed := by
    intro t ht
    rw [List.mem_singleton.1 ht]
    exact .array (.join .number .string)
  have hq : ∀ k t, busyQuery.memoized? k = some t → t.WellFormed := by
    have hempty : (∅ : Progress).MemoAll Ty.WellFormed := by
      intro k t ht
      cases ht
    exact hempty.memoize (.value ⟨0, 20⟩ 0) (.join .boolean .nil)
  exact ⟨hp, hq, by decide, busyQuery.answers_wellFormed optionalElement none _ 0 hp hq⟩

end TypeQuery
