import Mathlib.Data.List.Forall2
import Mathlib.Data.Option.Basic
import TypeQuery.Proofs.Forward
import TypeQuery.Proofs.Preserved

/-!
# The order of declarations and of `return`s

The declarations of a field are listed in the order in which they were added, and the `return`s of a
function in the order in which they stand.  Both lists end up in a join, and a join does not depend
on the order.  So two programs that differ in nothing but these orders give an expression the same
type, provided that neither query is cut short: where a query refuses a key or a level, it depends
on the order which question is asked first and which one is refused.

* `Expr.Reordered` and its companions say that two expressions differ at most in the order of the
  `return`s in them, and `Program.Reordered` says the same of the tables of two programs, up to the
  order of the declarations of each field.
* `Carries` compares plans: what the first gives in one program, the second gives in the other.  It
  is about plain evaluation, since the queries themselves come by their answers in different orders
  and have different memos on the way.
* `Program.plan_carries` goes through the rules, and `Program.hasValue_of_reordered` concludes that
  corresponding expressions have the same value.
-/

namespace TypeQuery

/-! ## Lists up to order -/

/-- Up to the order of `l`, the elements of the lists are related one by one. -/
def Shuffled {α : Type} (R : α → α → Prop) (l l' : List α) : Prop :=
  ∃ m, l.Perm m ∧ List.Forall₂ R m l'

section Lists

variable {α β : Type} {R : α → α → Prop}

lemma optionRel_cases {o o' : Option α} (h : Option.Rel R o o') :
    (o = none ∧ o' = none) ∨ ∃ a a', o = some a ∧ o' = some a' ∧ R a a' := by
  cases h with
  | none => exact .inl ⟨rfl, rfl⟩
  | some h => exact .inr ⟨_, _, rfl, rfl, h⟩

lemma forall₂_getElem? {l l' : List α} (h : List.Forall₂ R l l') (i : Nat) :
    Option.Rel R l[i]? l'[i]? := by
  induction h generalizing i with
  | nil => exact .none
  | cons hab _ ih =>
    cases i with
    | zero => exact .some hab
    | succ i => exact ih i

lemma forall₂_getLast? {l l' : List α} (h : List.Forall₂ R l l') :
    Option.Rel R l.getLast? l'.getLast? := by
  rw [List.getLast?_eq_getElem?, List.getLast?_eq_getElem?, h.length_eq]
  exact forall₂_getElem? h _

lemma forall₂_findSome? {S : β → β → Prop} {f f' : α → Option β} {l l' : List α}
    (h : List.Forall₂ R l l') (hf : ∀ a a', R a a' → Option.Rel S (f a) (f' a')) :
    Option.Rel S (l.findSome? f) (l'.findSome? f') := by
  induction h with
  | nil => exact .none
  | @cons a a' l l' ha _ ih =>
    rcases optionRel_cases (hf a a' ha) with ⟨hnone, hnone'⟩ | ⟨b, b', hb, hb', hrel⟩
    · rwa [List.findSome?_cons_of_isNone (by simp [hnone]),
        List.findSome?_cons_of_isNone (by simp [hnone'])]
    · rw [List.findSome?_cons, List.findSome?_cons, hb, hb']
      exact .some hrel

lemma optionRel_bind {S : β → β → Prop} {o o' : Option α} {f f' : α → Option β}
    (h : Option.Rel R o o') (hf : ∀ a a', R a a' → Option.Rel S (f a) (f' a')) :
    Option.Rel S (o.bind f) (o'.bind f') := by
  cases h with
  | none => exact .none
  | some h => exact hf _ _ h

end Lists

/-! ## Expressions -/

mutual

/-- The expressions differ at most in the order of the `return`s of the functions in them. -/
inductive Expr.Reordered : Expr → Expr → Prop
  | unary {id : NodeId} {op : UnaryOp} {x x' : Expr} (h : Expr.Reordered x x') :
      Expr.Reordered (.unary id op x) (.unary id op x')
  | binary {id : NodeId} {op : BinaryOp} {l l' : Expr} {r r' : Option Expr}
      (hl : Expr.Reordered l l') (hr : Option.Rel Expr.Reordered r r') :
      Expr.Reordered (.binary id op l r) (.binary id op l' r')
  | call {id : NodeId} {c c' : Expr} {as as' : List Expr} (hc : Expr.Reordered c c')
      (has : List.Forall₂ Expr.Reordered as as') :
      Expr.Reordered (.call id c as) (.call id c' as')
  | closure {id : NodeId} {b b' : FunctionBody} (hb : FunctionBody.Reordered b b') :
      Expr.Reordered (.closure id b) (.closure id b')
  | table {id : NodeId} {fs fs' : List TableField}
      (hfs : List.Forall₂ TableField.Reordered fs fs') :
      Expr.Reordered (.table id fs) (.table id fs')
  | paren {id : NodeId} {x x' : Option Expr} (h : Option.Rel Expr.Reordered x x') :
      Expr.Reordered (.paren id x) (.paren id x')
  | name (id : NodeId) (x : String) : Expr.Reordered (.name id x) (.name id x)
  | literal (id : NodeId) (l : Literal) : Expr.Reordered (.literal id l) (.literal id l)
  | index {id : NodeId} {o o' : Expr} {k k' : IndexKey} (ho : Expr.Reordered o o')
      (hk : IndexKey.Reordered k k') : Expr.Reordered (.index id o k) (.index id o' k')

/-- The keys differ at most in the order of `return`s. -/
inductive IndexKey.Reordered : IndexKey → IndexKey → Prop
  | field (x : String) : IndexKey.Reordered (.field x) (.field x)
  | bracket {k k' : Expr} (h : Expr.Reordered k k') : IndexKey.Reordered (.bracket k) (.bracket k')

/-- The fields of table constructors differ at most in the order of `return`s. -/
inductive TableField.Reordered : TableField → TableField → Prop
  | named {id : NodeId} {x : String} {e e' : Expr} (h : Expr.Reordered e e') :
      TableField.Reordered (.named id x e) (.named id x e')
  | keyed {id : NodeId} {k k' e e' : Expr} (hk : Expr.Reordered k k') (h : Expr.Reordered e e') :
      TableField.Reordered (.keyed id k e) (.keyed id k' e')
  | positional {e e' : Expr} (h : Expr.Reordered e e') :
      TableField.Reordered (.positional e) (.positional e')

/-- The bodies differ at most in the order of their `return`s, and of those in the functions inside
them. -/
inductive FunctionBody.Reordered : FunctionBody → FunctionBody → Prop
  | mk {id : NodeId} {ps : List Formal} {rs ls rs' : List (List Expr)} (hperm : rs.Perm ls)
      (h : List.Forall₂ (List.Forall₂ Expr.Reordered) ls rs') :
      FunctionBody.Reordered ⟨id, ps, rs⟩ ⟨id, ps, rs'⟩

end

namespace Expr.Reordered

variable {e e' : Expr} (h : e.Reordered e')
include h

lemma id_eq : e'.id = e.id := by
  cases h <;> rfl

lemma name?_eq : e'.name? = e.name? := by
  cases h <;> rfl

lemma string?_eq : e'.string? = e.string? := by
  cases h <;> rfl

lemma isMultiValued_eq : e'.isMultiValued = e.isMultiValued := by
  cases h <;> rfl

lemma firstString?_eq : e'.firstString? = e.firstString? := by
  cases h with
  | call _ has =>
    cases has with
    | nil => rfl
    | cons ha _ => exact ha.string?_eq
  | _ => rfl

lemma body?_rel : Option.Rel FunctionBody.Reordered e.body? e'.body? := by
  cases h with
  | closure hb => exact .some hb
  | _ => exact .none

end Expr.Reordered

lemma IndexKey.Reordered.name?_eq {k k' : IndexKey} (h : k.Reordered k') :
    k'.name? = k.name? := by
  cases h with
  | field x => rfl
  | bracket h => exact h.string?_eq

lemma IndexKey.Reordered.isBracket_eq {k k' : IndexKey} (h : k.Reordered k') :
    k'.isBracket = k.isBracket := by
  cases h <;> rfl

namespace FunctionBody.Reordered

variable {b b' : FunctionBody} (h : b.Reordered b')
include h

lemma id_eq : b'.id = b.id := by
  cases h
  rfl

lemma params_eq : b'.params = b.params := by
  cases h
  rfl

lemma returns : Shuffled (List.Forall₂ Expr.Reordered) b.returns b'.returns := by
  cases h with
  | mk hperm h => exact ⟨_, hperm, h⟩

/-- The longest `return` has the same length. -/
lemma arity_eq : b'.arity = b.arity := by
  obtain ⟨ls, hperm, hls⟩ := h.returns
  have hlengths : ls.map List.length = b'.returns.map List.length := by
    rw [← List.forall₂_eq_eq_eq, List.forall₂_map_left_iff, List.forall₂_map_right_iff]
    exact hls.imp fun _ _ hvs => hvs.length_eq
  rw [FunctionBody.arity, ← hlengths, FunctionBody.arity]
  exact ((hperm.map List.length).foldl_eq 0).symm

end FunctionBody.Reordered

/-! ## Programs -/

/-- The value lists differ at most in the order of `return`s. -/
structure Assigned.Reordered (v v' : Assigned) : Prop where
  values : List.Forall₂ Expr.Reordered v.values v'.values
  index : v'.index = v.index

/-- The declarations differ at most in the order of `return`s. -/
structure Declaration.Reordered (d d' : Declaration) : Prop where
  id : d'.id = d.id
  name : d'.name = d.name
  kind : d'.kind = d.kind
  value : Option.Rel Assigned.Reordered d.value d'.value
  body : Option.Rel FunctionBody.Reordered d.body d'.body
  ofModule : d'.ofModule = d.ofModule

lemma Declaration.Reordered.functionBody?_rel {d d' : Declaration} (h : d.Reordered d') :
    Option.Rel FunctionBody.Reordered d.functionBody? d'.functionBody? := by
  have hvalue : Option.Rel FunctionBody.Reordered ((d.value.bind Assigned.at?).bind Expr.body?)
      ((d'.value.bind Assigned.at?).bind Expr.body?) := by
    refine optionRel_bind (optionRel_bind h.value fun v v' hv => ?_)
      fun _ _ => Expr.Reordered.body?_rel
    rw [Assigned.at?, Assigned.at?, hv.index]
    exact forall₂_getElem? hv.values _
  rw [Declaration.functionBody?, Declaration.functionBody?]
  rcases optionRel_cases h.body with ⟨hnone, hnone'⟩ | ⟨b, b', hb, hb', hrel⟩
  · rw [hnone, hnone']
    exact hvalue
  · rw [hb, hb']
    exact .some hrel

/-- The names lead to declarations that differ at most in the order of `return`s. -/
inductive Names.Reordered : Names → Names → Prop
  | bodyOnly {body body' : FunctionBody} (h : body.Reordered body') :
      Reordered (.bodyOnly body) (.bodyOnly body')
  | bound {b b' : Bindings}
      (references : ∀ id, Option.Rel Declaration.Reordered (b.references.find? id)
        (b'.references.find? id))
      (targets : ∀ id, Option.Rel Declaration.Reordered (b.targets.find? id) (b'.targets.find? id))
      (globals : ∀ x, List.Forall₂ Declaration.Reordered (b.globalsOf x) (b'.globalsOf x)) :
      Reordered (.bound b) (.bound b')

namespace Names.Reordered

variable {n n' : Names} {e e' : Expr} (h : n.Reordered n') (he : e.Reordered e')
include h he

lemma candidates : List.Forall₂ Declaration.Reordered (n.candidates e) (n'.candidates e') := by
  cases h with
  | bodyOnly _ => exact .nil
  | @bound b b' hr _ hg =>
    rw [Names.candidates, Names.candidates, Bindings.candidates, Bindings.candidates, he.id_eq,
      he.name?_eq]
    rcases optionRel_cases (hr e.id) with ⟨hnone, hnone'⟩ | ⟨d, d', hd, hd', hrel⟩
    · rw [hnone, hnone']
      cases e.name? with
      | none => exact .nil
      | some x => exact hg x
    · rw [hd, hd']
      exact .cons hrel .nil

lemma target?_rel : Option.Rel Declaration.Reordered (n.target? e) (n'.target? e') := by
  cases h with
  | bodyOnly _ => exact .none
  | bound _ ht _ =>
    rw [Names.target?, Names.target?, Bindings.target?, Bindings.target?, he.id_eq]
    exact ht e.id

lemma isGlobal_eq : n'.isGlobal e' = n.isGlobal e := by
  cases h with
  | bodyOnly _ => rfl
  | @bound b b' hr _ _ =>
    rw [Names.isGlobal, Names.isGlobal, Bindings.isGlobal, Bindings.isGlobal, he.id_eq, he.name?_eq,
      Catalog.contains, Catalog.contains]
    rcases optionRel_cases (hr e.id) with ⟨hnone, hnone'⟩ | ⟨d, d', hd, hd', -⟩
    · rw [hnone, hnone']
    · rw [hd, hd']
      rfl

omit h in
lemma functionBody?_rel {b b' : Bindings} (h : (Names.bound b).Reordered (.bound b')) :
    Option.Rel FunctionBody.Reordered (b.functionBody? e) (b'.functionBody? e') := by
  have hcandidates : List.Forall₂ Declaration.Reordered (b.candidates e) (b'.candidates e') :=
    h.candidates he
  rw [Bindings.functionBody?, Bindings.functionBody?, he.name?_eq]
  split
  · exact forall₂_findSome? hcandidates fun _ _ => Declaration.Reordered.functionBody?_rel
  · exact .none

end Names.Reordered

/-- The modules export the same, up to the order of `return`s. -/
inductive Export.Reordered : Export → Export → Prop
  | type (t : Ty) : Reordered (.type t) (.type t)
  | value {e e' : Expr} (h : e.Reordered e') : Reordered (.value e) (.value e')

/-- The same modules are found, and they export the same, up to the order of `return`s. -/
def Modules.Reordered (ms ms' : Modules) : Prop :=
  ∀ source file,
    Option.Rel (Option.Rel Export.Reordered) ((ms.resolve source file).toOption.map Module.exported)
      ((ms'.resolve source file).toOption.map Module.exported)

/-- The programs differ at most in the order of the declarations of each field, and in the order of
`return`s. -/
structure Program.Reordered (p p' : Program) : Prop where
  names : p.names.Reordered p'.names
  annotations : p'.annotations = p.annotations
  members : ∀ c field, Shuffled Declaration.Reordered (p.members.declarationsOf c field)
    (p'.members.declarationsOf c field)
  modules : p.modules.Reordered p'.modules
  options : p'.options = p.options
  constructors : p'.constructors = p.constructors

/-! ## Plans -/

lemma Plan.value?_bind (v : Expr → Nat → Option Ty) (plan : Plan) (k : Ty → Plan) :
    (plan.bind k).value? v = (plan.value? v).bind fun t => (k t).value? v := by
  induction plan with
  | answer t => rfl
  | ask e slot next ih => simp only [bind, value?, ih, Option.bind_assoc]
  | within key body next _ ih => simp only [bind, value?, ih, Option.bind_assoc]
  | consult name next ih => exact ih
  | lookUpModule found next ih => exact ih

lemma Plan.value?_collect {v : Expr → Nat → Option Ty} {plans : List Plan} {k : List Ty → Plan}
    {t : Ty} (h : (collect plans k).value? v = some t) :
    ∃ ts, List.Forall₂ (fun plan u => plan.value? v = some u) plans ts ∧
      (k ts).value? v = some t := by
  induction plans generalizing k with
  | nil => exact ⟨[], .nil, h⟩
  | cons plan plans ih =>
    rw [collect, value?_bind] at h
    obtain ⟨u, hu, hrest⟩ := Option.bind_eq_some_iff.1 h
    obtain ⟨ts, hts, hk⟩ := ih hrest
    exact ⟨u :: ts, .cons hu hts, hk⟩

/-- Whatever the first plan gives where `v` answers, the second one gives in `p'`; and that is
well-formed. -/
def Carries (v : Expr → Nat → Option Ty) (p' : Program) (plan plan' : Plan) : Prop :=
  ∀ t, plan.value? v = some t → t.WellFormed ∧ p'.Gives plan' t

namespace Carries

variable {v : Expr → Nat → Option Ty} {p' : Program} {plan plan' : Plan}

lemma answer {t : Ty} (ht : t.WellFormed) : Carries v p' (.answer t) (.answer t) := by
  intro u hu
  obtain rfl := Option.some.inj hu
  exact ⟨ht, Program.gives_answer.2 rfl⟩

lemma consult (name : String) (h : Carries v p' plan plan') :
    Carries v p' (.consult name plan) (.consult name plan') := h

lemma lookUpModule (found : Bool) (h : Carries v p' plan plan') :
    Carries v p' (.lookUpModule found plan) (.lookUpModule found plan') := h

lemma bind {k k' : Ty → Plan} (h : Carries v p' plan plan')
    (hk : ∀ t : Ty, t.WellFormed → Carries v p' (k t) (k' t)) :
    Carries v p' (plan.bind k) (plan'.bind k') := by
  intro t ht
  rw [Plan.value?_bind] at ht
  obtain ⟨u, hu, hrest⟩ := Option.bind_eq_some_iff.1 ht
  obtain ⟨hwf, hgives⟩ := h u hu
  obtain ⟨hwf', hgives'⟩ := hk u hwf t hrest
  exact ⟨hwf', Program.gives_bind.2 ⟨u, hgives, hgives'⟩⟩

lemma ask {e e' : Expr} {slot slot' : Nat} {next next' : Ty → Plan}
    (h : Carries v p' (.ofExpr e slot) (.ofExpr e' slot'))
    (hnext : ∀ t : Ty, t.WellFormed → Carries v p' (next t) (next' t)) :
    Carries v p' (.ask e slot next) (.ask e' slot' next') :=
  h.bind hnext

lemma within {key key' : Key} {next next' : Option Ty → Plan} (h : Carries v p' plan plan')
    (hnext : ∀ t : Ty, t.WellFormed → Carries v p' (next (some t)) (next' (some t))) :
    Carries v p' (.within key plan next) (.within key' plan' next') := by
  intro t ht
  obtain ⟨u, hu, hrest⟩ := Option.bind_eq_some_iff.1 ht
  obtain ⟨hwf, hgives⟩ := h u hu
  obtain ⟨hwf', hgives'⟩ := hnext u hwf t hrest
  exact ⟨hwf', Program.gives_within.2 ⟨u, hgives, hgives'⟩⟩

variable {α : Type} {f f' : α → Plan}

lemma collect {l : List α} (hf : ∀ a ∈ l, Carries v p' (f a) (f' a)) {k k' : List Ty → Plan}
    (hk : ∀ ts : List Ty, (∀ t ∈ ts, t.WellFormed) → Carries v p' (k ts) (k' ts)) :
    Carries v p' (.collect (l.map f) k) (.collect (l.map f') k') := by
  induction l generalizing k k' with
  | nil => exact hk [] (by simp)
  | cons a l ih =>
    obtain ⟨ha, hl⟩ := List.forall_mem_cons.1 hf
    refine ha.bind fun t ht => ih hl fun ts hts => ?_
    exact hk (t :: ts) (List.forall_mem_cons.2 ⟨ht, hts⟩)

/-- What plans give one by one. -/
lemma forall₂ {l l' : List α} {ts : List Ty}
    (hf : List.Forall₂ (fun a a' => Carries v p' (f a) (f' a')) l l')
    (hts : List.Forall₂ (fun a t => (f a).value? v = some t) l ts) :
    (∀ t ∈ ts, t.WellFormed) ∧ List.Forall₂ (fun a' t => p'.Gives (f' a') t) l' ts := by
  induction hf generalizing ts with
  | nil =>
    cases hts
    exact ⟨by simp, .nil⟩
  | cons ha _ ih =>
    cases hts with
    | cons ht hrest =>
      obtain ⟨hwf, hgives⟩ := ha _ ht
      obtain ⟨hwfs, hall⟩ := ih hrest
      exact ⟨List.forall_mem_cons.2 ⟨hwf, hwfs⟩, .cons hgives hall⟩

/-- A join does not depend on the order of its plans. -/
lemma join {R : α → α → Prop} {l l' : List α} (h : Shuffled R l l')
    (hf : ∀ a a', R a a' → Carries v p' (f a) (f' a')) :
    Carries v p' (.join (l.map f)) (.join (l'.map f')) := by
  obtain ⟨m, hperm, hm⟩ := h
  intro t ht
  obtain ⟨ts, hts, hjoin⟩ := Plan.value?_collect ht
  obtain rfl := Option.some.inj hjoin
  rw [List.forall₂_map_left_iff] at hts
  obtain ⟨us, hus, hperm'⟩ := List.perm_comp_forall₂ hperm.symm hts
  obtain ⟨hwf, hgives⟩ := forall₂ (hm.imp hf) hus
  have heq : Ty.joinAll ts = Ty.joinAll us :=
    (Ty.joinAll_congr (fun u hu => (hwf u hu).canonical) fun u => hperm'.mem_iff).symm
  rw [heq]
  refine ⟨Ty.closed_wellFormed.joinAll hwf, Program.gives_join.2 ⟨us, ?_, rfl⟩⟩
  exact List.forall₂_map_left_iff.2 hgives

end Carries

/-! ## The rules -/

section Rules

variable {v : Expr → Nat → Option Ty} {p p' : Program}
  (hask : ∀ {e e' : Expr} (slot : Nat), e.Reordered e' →
    Carries v p' (.ofExpr e slot) (.ofExpr e' slot))
include hask

lemma Plan.valueAt_carries {vs vs' : List Expr} (h : List.Forall₂ Expr.Reordered vs vs')
    (index : Nat) : Carries v p' (valueAt vs index) (valueAt vs' index) := by
  unfold valueAt
  rcases optionRel_cases (forall₂_getElem? h index) with ⟨hnone, hnone'⟩ | ⟨x, x', hx, hx', hrel⟩
  · simp only [hnone, hnone']
    rcases optionRel_cases (forall₂_getLast? h) with ⟨hnil, hnil'⟩ | ⟨x, x', hx, hx', hrel⟩
    · simp only [hnil, hnil']
      exact .answer .nil
    · simp only [hx, hx', hrel.isMultiValued_eq, ← h.length_eq]
      split
      · exact hask _ hrel
      · exact .answer .nil
  · simp only [hx, hx']
    exact hask 0 hrel

lemma Plan.returnedAt_carries {b b' : FunctionBody} (h : b.Reordered b') (slot : Nat) :
    Carries v p' (returnedAt b slot) (returnedAt b' slot) :=
  .join h.returns fun _ _ hvs => valueAt_carries hask hvs slot

namespace Program

open Plan

variable (h : p.Reordered p') (hp : ∀ t ∈ p.declaredTypes, t.WellFormed)
include h hp

omit hask hp in
lemma Reordered.parametersOf {b b' : FunctionBody} (hb : b.Reordered b') :
    p'.parametersOf b' = p.parametersOf b := by
  rw [Program.parametersOf, Program.parametersOf, hb.params_eq, h.annotations]

omit hask h in
lemma wellFormed_of_annotated {id : NodeId} {t : Ty} (ht : p.annotations.find? id = some t) :
    t.WellFormed :=
  (supplies_wellFormed [] hp).annotated ht

lemma functionType_carries {b b' : FunctionBody} (hb : b.Reordered b') :
    Carries v p' (p.functionType b) (p'.functionType b') := by
  have hparams := parametersOf_preserves Ty.closed_wellFormed (supplies_wellFormed [] hp) b
  rw [functionType, functionType, hb.id_eq, h.annotations, hb.arity_eq, h.parametersOf hb]
  cases hann : p.annotations.find? b.id with
  | some t =>
    have hreturns : ∀ u ∈ [t], u.WellFormed := by
      simpa using wellFormed_of_annotated hp hann
    exact .answer (Ty.closed_wellFormed.function hparams hreturns)
  | none =>
    refine .collect (fun slot _ => returnedAt_carries hask hb slot) fun ts hts => ?_
    exact .answer (Ty.closed_wellFormed.function hparams hts)

lemma returnType_carries {b b' : FunctionBody} (hb : b.Reordered b') (slot : Nat) :
    Carries v p' (p.returnType b slot) (p'.returnType b' slot) := by
  rw [returnType, returnType, hb.id_eq, h.annotations]
  cases hann : p.annotations.find? b.id with
  | some t =>
    refine .answer ?_
    split
    · exact wellFormed_of_annotated hp hann
    · exact .nil
  | none => exact returnedAt_carries hask hb slot

lemma declarationType_carries {d d' : Declaration} (hd : d.Reordered d') :
    Carries v p' (p.declarationType d) (p'.declarationType d') := by
  have hassigned : Carries v p' (p.assignedType d) (p'.assignedType d') := by
    unfold assignedType
    rcases optionRel_cases hd.body with ⟨hb, hb'⟩ | ⟨b, b', hb, hb', hrel⟩
    · rcases optionRel_cases hd.value with ⟨hv, hv'⟩ | ⟨a, a', ha, ha', hrel⟩
      · simp only [hb, hb', hv, hv']
        exact .answer .unknown
      · simp only [hb, hb', ha, ha', hrel.index]
        exact valueAt_carries hask hrel.values _
    · simp only [hb, hb']
      exact functionType_carries hask h hp hrel
  rw [declarationType, declarationType, hd.id, h.annotations]
  cases hann : p.annotations.find? d.id with
  | none => exact hassigned
  | some t =>
    dsimp only
    split
    · exact hassigned
    · exact .answer (wellFormed_of_annotated hp hann)

/-- The declarations of a field may come in any order. -/
lemma fieldType_carries (c : ClassTy) (field : String) :
    Carries v p' (p.fieldType c field) (p'.fieldType c field) :=
  .join (h.members c field) fun _ _ hd => declarationType_carries hask h hp hd

lemma bindingType_carries {d d' : Declaration} (hd : d.Reordered d') :
    Carries v p' (p.bindingType d) (p'.bindingType d') := by
  have hown : Carries v p' (p.ownBindingType d) (p'.ownBindingType d') := by
    have hdecl := declarationType_carries hask h hp hd
    rw [ownBindingType, ownBindingType, hd.kind, hd.name]
    split
    · exact hdecl.bind fun t ht => .answer (ht.join (Ty.wellFormed_object rfl))
    · exact hdecl
  rw [bindingType, bindingType, hd.ofModule, hd.name]
  cases d.ofModule with
  | none => exact hown
  | some m =>
    refine .within (fieldType_carries hask h hp _ _) fun t ht => ?_
    dsimp only
    split
    · exact hown
    · exact .answer ht

lemma nameType_carries {e e' : Expr} (he : e.Reordered e') (x : String) :
    Carries v p' (p.nameType e x) (p'.nameType e' x) := by
  have hcandidates := h.names.candidates he
  refine .consult x (.bind ?_ fun t ht => ?_)
  · exact .join ⟨_, .refl _, hcandidates⟩ fun _ _ hd => bindingType_carries hask h hp hd
  · split
    · simp only [unboundType, h.names.isGlobal_eq he]
      rcases optionRel_cases (h.names.target?_rel he) with ⟨hnone, hnone'⟩ | ⟨d, d', hd, hd', hrel⟩
      · simp only [hnone, hnone']
        exact .answer (ht.withGlobal _ x)
      · simp only [hd, hd']
        refine (bindingType_carries hask h hp hrel).bind fun u hu => ?_
        exact .answer ((ht.join hu).withGlobal _ x)
    · exact .answer ht

omit hask hp in
lemma withBody_carries {callee callee' : Expr} (hc : callee.Reordered callee')
    {next next' : Option FunctionBody → Plan} (hnone : Carries v p' (next none) (next' none))
    (hsome : ∀ b b' : FunctionBody, b.Reordered b' →
      Carries v p' (next (some b)) (next' (some b'))) :
    Carries v p' (p.withBody callee next) (p'.withBody callee' next') := by
  have hnames := h.names
  unfold withBody
  revert hnames
  generalize p.names = n, p'.names = n'
  intro hnames
  cases hnames with
  | bodyOnly hb => exact hsome _ _ hb
  | @bound b b' hr ht hg =>
    simp only [hc.name?_eq]
    cases callee.name? with
    | none => exact hnone
    | some x =>
      refine .consult x ?_
      have hrel := Names.Reordered.functionBody?_rel hc (.bound hr ht hg)
      rcases optionRel_cases hrel with ⟨hb, hb'⟩ | ⟨body, body', hb, hb', hbody⟩
      · rw [hb, hb']
        exact hnone
      · rw [hb, hb']
        exact hsome body body' hbody

lemma requiredType_carries (source : String) (file : FileId) :
    Carries v p' (p.requiredType source file) (p'.requiredType source file) := by
  have hrel := h.modules source file
  unfold requiredType
  cases hm : p.modules.resolve source file with
  | error err =>
    cases hm' : p'.modules.resolve source file with
    | error err' => exact .lookUpModule false (.answer .unknown)
    | ok m' =>
      rw [hm, hm'] at hrel
      cases hrel
  | ok m =>
    cases hm' : p'.modules.resolve source file with
    | error err' =>
      rw [hm, hm'] at hrel
      cases hrel
    | ok m' =>
      rw [hm, hm'] at hrel
      refine .lookUpModule true ?_
      cases hrel with
      | some hexport =>
        rcases optionRel_cases hexport with ⟨hx, hx'⟩ | ⟨x, x', hx, hx', hexported⟩
        · rw [hx, hx']
          exact .answer .unknown
        · rw [hx, hx']
          cases hexported with
          | type t =>
            have hmodule := Modules.mem_values_of_resolve hm
            exact .answer ((supplies_wellFormed [] hp).exported hmodule hx)
          | value he => exact hask 0 he

omit hask hp in
lemma Reordered.constructed?_rel {callee callee' : Expr} (hc : callee.Reordered callee') :
    Option.Rel Expr.Reordered (p.constructed? callee) (p'.constructed? callee') := by
  cases hc with
  | index ho hk =>
    simp only [constructed?, Expr.index?, hk.name?_eq, isConstructor_congr h.constructors h.options]
    split
    · split
      · exact .some ho
      · exact .none
    · exact .none
  | _ => exact .none

lemma applicationType_carries {callee callee' : Expr} (hc : callee.Reordered callee')
    (slot : Nat) :
    Carries v p' (p.applicationType callee slot) (p'.applicationType callee' slot) := by
  rw [applicationType, applicationType]
  refine .bind (.ask (hask 0 hc) fun t ht => ?_) fun t ht => ?_
  · have hresults := Ty.closed_wellFormed.joinAll (Ty.closed_wellFormed.resultsOf ht slot)
    dsimp only
    split
    · refine withBody_carries h hc (.answer hresults) fun b b' hb => ?_
      exact returnType_carries hask h hp hb slot
    · exact .answer hresults
  · rcases optionRel_cases (h.constructed?_rel hc) with ⟨ho, ho'⟩ | ⟨o, o', ho, ho', hrel⟩
    · simp only [ho, ho']
      exact .answer ht
    · simp only [ho, ho']
      split
      · exact (hask 0 hrel).bind fun u hu => .answer (ht.join hu)
      · exact .answer ht

lemma callType_carries {e e' callee callee' : Expr} (he : e.Reordered e')
    (hc : callee.Reordered callee') (slot : Nat) :
    Carries v p' (p.callType e callee slot) (p'.callType e' callee' slot) := by
  rw [callType, callType, hc.name?_eq, h.options, he.firstString?_eq, he.id_eq]
  split
  · split
    · exact requiredType_carries hask h hp _ _
    · exact .answer .unknown
  · exact applicationType_carries hask h hp hc slot

lemma fieldOf_carries (object : Ty) (field : String) {t : Ty} (ht : t.WellFormed) :
    Carries v p' (p.fieldOf object field t) (p'.fieldOf object field t) :=
  .collect (fun c _ => fieldType_carries hask h hp c field) fun _ hts =>
    .answer (Ty.closed_wellFormed.foldl_join ht hts)

omit hask hp in
lemma Reordered.annotationAt? {e e' : Expr} {o o' : Option Declaration} (he : e.Reordered e')
    (ho : Option.Rel Declaration.Reordered o o') :
    p'.annotationAt? e' o' = p.annotationAt? e o := by
  unfold Program.annotationAt?
  cases ho with
  | none => simp only [he.id_eq, h.annotations]
  | some hd => simp only [he.id_eq, h.annotations, hd.id]

lemma memberType_carries {e e' object object' : Expr} {key key' : IndexKey} (he : e.Reordered e')
    (ho : object.Reordered object') (hk : key.Reordered key') {o : Option Ty} :
    Carries v p' (p.memberType e object key o) (p'.memberType e' object' key' o) := by
  have htarget := h.names.target?_rel he
  simp only [memberType, h.annotationAt? he htarget, hk.name?_eq]
  cases hann : p.annotationAt? e (p.names.target? e) with
  | some t => exact .answer (annotationAt?_preserves (supplies_wellFormed [] hp) hann)
  | none =>
    refine .bind ?_ fun t ht => ?_
    · have hvalue := optionRel_bind htarget fun _ _ => Declaration.Reordered.value
      rcases optionRel_cases hvalue with ⟨ha, ha'⟩ | ⟨a, a', ha, ha', hrel⟩
      · simp only [ha, ha']
        exact .answer .unknown
      · simp only [ha, ha', hrel.index]
        refine (valueAt_carries hask hrel.values _).bind fun t ht => ?_
        exact .answer (Ty.WellFormed.unknown.join ht)
    · split
      · exact .answer ht
      · exact fieldOf_carries hask h hp _ _ ht
      · exact .ask (hask 0 ho) fun o _ => fieldOf_carries hask h hp o _ ht

lemma indexType_carries {e e' object object' : Expr} {key key' : IndexKey} (he : e.Reordered e')
    (ho : object.Reordered object') (hk : key.Reordered key') :
    Carries v p' (p.indexType e object key) (p'.indexType e' object' key') := by
  rw [indexType, indexType, hk.isBracket_eq]
  split
  · refine .ask (hask 0 ho) fun o hwf => ?_
    split
    next t ht => exact .answer (Ty.closed_wellFormed.arrayElement hwf ht)
    next =>
      split
      next base ps hps => exact .answer (Ty.closed_wellFormed.genericArgument hwf hps 1)
      next => exact memberType_carries hask h hp he ho hk
  · exact memberType_carries hask h hp he ho hk

/-- Whatever the rule for an expression, it carries over. -/
lemma plan_carries {e e' : Expr} (he : e.Reordered e') (slot : Nat) :
    Carries v p' (p.plan e slot) (p'.plan e' slot) := by
  cases he with
  | @unary id op x x' hx =>
    cases op with
    | minus => exact hask 0 hx
    | length => exact .answer .number
    | not => exact .answer .unknown
    | bitNot => exact .answer .unknown
  | @binary id op l l' r r' hl hr =>
    show Carries v p' (binaryType op l r) (binaryType op l' r')
    rw [binaryType, binaryType]
    split
    · exact .answer .string
    split
    · exact .answer .boolean
    split
    · refine .ask (hask 0 hl) fun t ht => ?_
      cases hr with
      | none => exact .answer ht
      | some hr => exact (hask 0 hr).bind fun u hu => .answer (ht.join hu)
    · exact hask 0 hl
  | call hc has => exact callType_carries hask h hp (.call hc has) hc slot
  | closure hb => exact functionType_carries hask h hp hb
  | table hfs => exact .answer (Ty.wellFormed_object rfl)
  | paren hx =>
    cases hx with
    | none => exact .answer .unknown
    | some hx => exact hask 0 hx
  | name id x => exact nameType_carries hask h hp (.name id x) x
  | literal id l => exact .answer (plan_preserves_wellFormed hp (.literal id l) slot)
  | index ho hk => exact indexType_carries hask h hp (.index ho hk) ho hk

end Program

end Rules

/-! ## Queries -/

namespace Program

variable {p p' : Program}

/-- However many plans are nested, corresponding questions have the same answers. -/
lemma ofExpr_carries (h : p.Reordered p') (hp : ∀ t ∈ p.declaredTypes, t.WellFormed) (n : Nat)
    {e e' : Expr} (slot : Nat) (he : e.Reordered e') :
    Carries (p.value? n) p' (.ofExpr e slot) (.ofExpr e' slot) := by
  induction n generalizing e e' slot with
  | zero =>
    rintro t ⟨⟩
  | succ n ih =>
    intro t ht
    obtain ⟨u, hu, hanswer⟩ := Option.bind_eq_some_iff.1 ht
    obtain rfl := Option.some.inj hanswer
    obtain ⟨hwf, hgives⟩ := plan_carries ih h hp he slot u hu
    exact ⟨hwf, gives_ask.2 ⟨u, gives_plan.1 hgives, gives_answer.2 rfl⟩⟩

/-- Corresponding expressions have the same values. -/
theorem hasValue_of_reordered (h : p.Reordered p') (hp : ∀ t ∈ p.declaredTypes, t.WellFormed)
    {e e' : Expr} (he : e.Reordered e') {slot : Nat} {t : Ty} (ht : p.HasValue e slot t) :
    p'.HasValue e' slot t := by
  obtain ⟨n, hn⟩ := gives_plan.2 ht
  exact gives_plan.1 (plan_carries (ofExpr_carries h hp n) h hp he slot t hn).2

/-- In two programs that differ at most in the order of the declarations of each field and in the
order of `return`s, corresponding expressions have the same type, if neither query is cut short. -/
theorem typeOf_of_reordered (p p' : Program) (e e' : Expr) (h : p.Reordered p')
    (he : e.Reordered e') (hd : Distinct (p.nodes [e])) (hd' : Distinct (p'.nodes [e']))
    (hp : ∀ t ∈ p.declaredTypes, t.WellFormed) (hu : p.Uncut e) (hu' : p'.Uncut e') :
    (p'.typeOf e').1 = (p.typeOf e).1 := by
  have hvalue := hasValue_typeOf hd hu
  have hvalue' := hasValue_typeOf hd' hu'
  exact hvalue'.unique (hasValue_of_reordered h hp he hvalue)

end Program

/-! ## Registering in another order -/

/-- Adding the same declarations in another order changes the order of the declarations of a field,
and nothing else. -/
lemma Members.shuffled_addAll {ds ds' : List (ClassTy × Declaration)}
    (h : Shuffled (fun d d' => d'.1 = d.1 ∧ d.2.Reordered d'.2) ds ds') (c : ClassTy)
    (field : String) :
    Shuffled Declaration.Reordered (((∅ : Members).addAll ds).declarationsOf c field)
      (((∅ : Members).addAll ds').declarationsOf c field) := by
  obtain ⟨m, hperm, hm⟩ := h
  rw [declarationsOf_addAll, declarationsOf_addAll]
  refine ⟨_, ((hperm.filter _).map _).append_left _, List.rel_append .nil ?_⟩
  rw [List.forall₂_map_left_iff, List.forall₂_map_right_iff]
  refine (List.rel_filter (fun d d' hd => ?_) hm).imp fun _ _ hd => hd.2
  simp only [hd.1, hd.2.name]

lemma Catalog.find?_rel {κ α : Type} [DecidableEq κ] {R : α → α → Prop} {l l' : List (κ × α)}
    (h : List.Forall₂ (fun x y => x.1 = y.1 ∧ R x.2 y.2) l l') (k : κ) :
    Option.Rel R (Catalog.find? ⟨l⟩ k) (Catalog.find? ⟨l'⟩ k) := by
  rw [Catalog.find?, Catalog.find?]
  induction h with
  | nil => exact .none
  | cons hxy _ ih =>
    rw [Catalog.findIn, Catalog.findIn, hxy.1]
    split
    · exact .some hxy.2
    · exact ih

namespace Program

/-- `local t = {}`, a function `f` with these `return`s, and assignments to the field `x` of `t`. -/
def assigning (returns : List (List Expr)) (fields : List Declaration) : Program :=
  let t : Declaration :=
    { Declaration.localName ⟨0, 1⟩ "t" with value := some ⟨[.table ⟨0, 0⟩ []], 0⟩ }
  let f : Declaration :=
    { Declaration.localName ⟨0, 5⟩ "f" with
      value := some ⟨[.closure ⟨0, 4⟩ ⟨⟨0, 4⟩, [], returns⟩], 0⟩ }
  { ofReferences [(⟨0, 8⟩, f), (⟨0, 11⟩, t)] with
    members := (∅ : Members).addAll (fields.map fun d => (.table ⟨0, 0⟩, d)) }

/-- The order of the assignments `t.x = true` and `t.x = f()` does not matter, and neither does that
of `return ""` and `return nil` in `f`. -/
theorem assigning_reordered :
    let r₁ : List Expr := [.literal ⟨0, 2⟩ (.string "")]
    let r₂ : List Expr := [.literal ⟨0, 3⟩ .nil]
    let d₁ : Declaration := .field ⟨0, 7⟩ "x" (.literal ⟨0, 6⟩ .boolean)
    let d₂ : Declaration := .field ⟨0, 10⟩ "x" (.call ⟨0, 9⟩ (.name ⟨0, 8⟩ "f") [])
    let p := assigning [r₁, r₂] [d₁, d₂]
    let p' := assigning [r₂, r₁] [d₂, d₁]
    let e : Expr := .index ⟨0, 12⟩ (.name ⟨0, 11⟩ "t") (.field "x")
    p.Reordered p' ∧ p.Uncut e ∧ p'.Uncut e ∧
      (p.typeOf e).1 = .union [.nil, .boolean, .string] ∧ (p'.typeOf e).1 = (p.typeOf e).1 := by
  intro r₁ r₂ d₁ d₂ p p' e
  have hreturns : FunctionBody.Reordered ⟨⟨0, 4⟩, [], [r₁, r₂]⟩ ⟨⟨0, 4⟩, [], [r₂, r₁]⟩ :=
    .mk (.swap _ _ _) (.cons (.cons (.literal _ _) .nil) (.cons (.cons (.literal _ _) .nil) .nil))
  have hclosure : Expr.Reordered (.closure ⟨0, 4⟩ _) (.closure ⟨0, 4⟩ _) := .closure hreturns
  have hd₁ : d₁.Reordered d₁ := by
    refine ⟨rfl, rfl, rfl, .some ⟨.cons (.literal _ _) .nil, rfl⟩, .none, rfl⟩
  have hd₂ : d₂.Reordered d₂ := by
    refine ⟨rfl, rfl, rfl, .some ⟨.cons (.call (.name _ _) .nil) .nil, rfl⟩, .none, rfl⟩
  have hp : p.Reordered p' := by
    refine ⟨.bound (Catalog.find?_rel ?_) (fun _ => .none) (fun _ => .nil), rfl, ?_, ?_, rfl, rfl⟩
    · refine .cons ⟨rfl, rfl, rfl, rfl, .some ⟨.cons hclosure .nil, rfl⟩, .none, rfl⟩ ?_
      exact .cons ⟨rfl, rfl, rfl, rfl, .some ⟨.cons (.table .nil) .nil, rfl⟩, .none, rfl⟩ .nil
    · exact Members.shuffled_addAll
        ⟨_, .swap _ _ _, .cons ⟨rfl, hd₂⟩ (.cons ⟨rfl, hd₁⟩ .nil)⟩
    · intro source file
      -- there are no modules
      cases hm : p.modules.resolve source file with
      | error err =>
        have hm' : p'.modules.resolve source file = .error err := hm
        rw [hm']
        exact .none
      | ok m => cases Modules.mem_values_of_resolve hm
  have he : e.Reordered e := .index (.name _ _) (.field _)
  have hu : p.Uncut e := by decide
  have hu' : p'.Uncut e := by decide
  have hd : Distinct (p.nodes [e]) := .of_nodup (by decide)
  have hd' : Distinct (p'.nodes [e]) := .of_nodup (by decide)
  have hdeclared : ∀ t ∈ p.declaredTypes, t.WellFormed := by
    intro t ht
    cases ht
  exact ⟨hp, hu, hu', by decide, typeOf_of_reordered p p' e e hp he hd hd' hdeclared hu hu'⟩

end Program

end TypeQuery
