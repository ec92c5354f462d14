import Mathlib.Data.List.Forall2
import Mathlib.Data.List.GetD
import TypeQuery.Proofs.Lattice
import TypeQuery.Proofs.Value

/-!
# What a call forwards

A function may return the results of another one: `function f() return g() end`.  A call of `f` then
has as many values as the call of `g`, and one expects the value of `f()` at each slot to be that of
`g()` there.  A call is typed in two ways, however.  If the type of the callee says anything, the
slot is read off the signature of that type, which lists the returned values only up to the length
of the longest `return`, and is nil from there on.  Only if that gives nothing is the body of the
function asked for the slot, and the body lets the last expression of a `return` go on.

`Program.call_forwards` says what comes of this: in a query that nothing cuts short, a call of a
local function has at each slot that the signature lists the join of what the `return`s of its body
give there, and nil at every later slot.  So the values that a `return` forwards past the longest
list are lost, unless they are nil.  `Program.wrapped_forwards` is a case of both.

The queries are related to plain evaluation by `TypeQuery.Proofs.Value`; what remains is to evaluate
the rules.  `Program.Gives` is plain evaluation of a plan, with one equation for each way in which
plans are put together.
-/

namespace TypeQuery

namespace Program

/-! ## Plain evaluation of plans -/

/-- Plain evaluation of the plan ends, and gives `t`. -/
def Gives (p : Program) (plan : Plan) (t : Ty) : Prop := ∃ n, plan.value? (p.value? n) = some t

variable {p : Program} {plan : Plan} {plans : List Plan} {t : Ty}

lemma Gives.unique {u : Ty} (ht : p.Gives plan t) (hu : p.Gives plan u) : t = u := by
  obtain ⟨n, hn⟩ := ht
  obtain ⟨m, hm⟩ := hu
  have hn' := plan_value?_mono (le_max_left n m) hn
  have hm' := plan_value?_mono (le_max_right n m) hm
  exact Option.some.inj (hn'.symm.trans hm')

lemma gives_plan {e : Expr} {slot : Nat} : p.Gives (p.plan e slot) t ↔ p.HasValue e slot t := by
  constructor
  · rintro ⟨n, h⟩
    exact .of_plan h
  · rintro ⟨n, h⟩
    cases n with
    | zero => cases h
    | succ n => exact ⟨n, h⟩

@[simp] lemma gives_answer {u : Ty} : p.Gives (.answer u) t ↔ t = u := by
  constructor
  · rintro ⟨n, h⟩
    exact (Option.some.inj h).symm
  · rintro rfl
    exact ⟨0, rfl⟩

@[simp] lemma gives_consult {name : String} {next : Plan} :
    p.Gives (.consult name next) t ↔ p.Gives next t := Iff.rfl

lemma gives_ask {e : Expr} {slot : Nat} {next : Ty → Plan} :
    p.Gives (.ask e slot next) t ↔ ∃ u, p.HasValue e slot u ∧ p.Gives (next u) t := by
  constructor
  · rintro ⟨n, h⟩
    obtain ⟨u, hu, hnext⟩ := Option.bind_eq_some_iff.1 h
    exact ⟨u, ⟨n, hu⟩, n, hnext⟩
  · rintro ⟨u, ⟨n, hu⟩, m, hnext⟩
    refine ⟨max n m, Option.bind_eq_some_iff.2 ⟨u, ?_, ?_⟩⟩
    · exact value?_mono (le_max_left n m) hu
    · exact plan_value?_mono (le_max_right n m) hnext

lemma gives_within {key : Key} {body : Plan} {next : Option Ty → Plan} :
    p.Gives (.within key body next) t ↔ ∃ u, p.Gives body u ∧ p.Gives (next (some u)) t := by
  constructor
  · rintro ⟨n, h⟩
    obtain ⟨u, hu, hnext⟩ := Option.bind_eq_some_iff.1 h
    exact ⟨u, ⟨n, hu⟩, n, hnext⟩
  · rintro ⟨u, ⟨n, hu⟩, m, hnext⟩
    refine ⟨max n m, Option.bind_eq_some_iff.2 ⟨u, ?_, ?_⟩⟩
    · exact plan_value?_mono (le_max_left n m) hu
    · exact plan_value?_mono (le_max_right n m) hnext

lemma gives_bind {k : Ty → Plan} :
    p.Gives (plan.bind k) t ↔ ∃ u, p.Gives plan u ∧ p.Gives (k u) t := by
  induction plan with
  | answer u => simp [Plan.bind]
  | ask e slot next ih =>
    simp only [Plan.bind, gives_ask, ih]
    constructor
    · rintro ⟨v, hv, u, hu, hk⟩
      exact ⟨u, ⟨v, hv, hu⟩, hk⟩
    · rintro ⟨u, ⟨v, hv, hu⟩, hk⟩
      exact ⟨v, hv, u, hu, hk⟩
  | within key body next _ ih =>
    simp only [Plan.bind, gives_within, ih]
    constructor
    · rintro ⟨v, hv, u, hu, hk⟩
      exact ⟨u, ⟨v, hv, hu⟩, hk⟩
    · rintro ⟨u, ⟨v, hv, hu⟩, hk⟩
      exact ⟨v, hv, u, hu, hk⟩
  | consult name next ih => exact ih
  | lookUpModule found next ih => exact ih

lemma gives_collect {k : List Ty → Plan} :
    p.Gives (.collect plans k) t ↔ ∃ ts, List.Forall₂ p.Gives plans ts ∧ p.Gives (k ts) t := by
  induction plans generalizing k with
  | nil => simp [Plan.collect]
  | cons plan plans ih =>
    simp only [Plan.collect, gives_bind, ih]
    constructor
    · rintro ⟨u, hu, ts, hts, hk⟩
      exact ⟨u :: ts, .cons hu hts, hk⟩
    · rintro ⟨_, hall, hk⟩
      cases hall with
      | cons hu hts => exact ⟨_, hu, _, hts, hk⟩

lemma gives_join :
    p.Gives (.join plans) t ↔ ∃ ts, List.Forall₂ p.Gives plans ts ∧ t = Ty.joinAll ts := by
  simp only [Plan.join, gives_collect, gives_answer]

/-! ## Function bodies -/

variable {body : FunctionBody} {slot : Nat}

/-- The types that the value lists of the body give at a slot, one for each `return`. -/
def Returns (p : Program) (body : FunctionBody) (slot : Nat) (ts : List Ty) : Prop :=
  List.Forall₂ (fun values t => p.Gives (.valueAt values slot) t) body.returns ts

lemma Returns.unique {ts us : List Ty} (ht : p.Returns body slot ts)
    (hu : p.Returns body slot us) :
    ts = us :=
  List.right_unique_forall₂'
    (fun values t _ (ht : p.Gives (.valueAt values slot) t) hu => ht.unique hu) ht hu

lemma gives_returnedAt :
    p.Gives (.returnedAt body slot) t ↔ ∃ ts, p.Returns body slot ts ∧ t = Ty.joinAll ts := by
  simp only [Plan.returnedAt, gives_join, List.forall₂_map_left_iff, Returns]

/-- The body path: without an annotation, the body gives at each slot what its `return`s give. -/
lemma gives_returnType (hbody : p.annotations.find? body.id = none) :
    p.Gives (p.returnType body slot) t ↔ ∃ ts, p.Returns body slot ts ∧ t = Ty.joinAll ts := by
  rw [returnType, hbody]
  exact gives_returnedAt

/-- The signature path: without an annotation, the type of the function has a single signature,
which returns at the slots below the arity what the `return`s give there, and nil from there on. -/
lemma gives_functionType (hbody : p.annotations.find? body.id = none)
    (h : p.Gives (p.functionType body) t) :
    ∃ s : Signature, t = .function [s] ∧
      (∀ slot < body.arity, ∃ ts, p.Returns body slot ts ∧ s.returnAt slot = Ty.joinAll ts) ∧
      ∀ slot ≥ body.arity, s.returnAt slot = .nil := by
  rw [functionType, hbody] at h
  obtain ⟨rs, hrs, ht⟩ := gives_collect.1 h
  rw [gives_answer] at ht
  have hlen : rs.length = body.arity := by
    rw [← hrs.length_eq, List.length_map, List.length_range]
  refine ⟨⟨p.parametersOf body, rs⟩, ht, fun slot hslot => ?_, fun slot hslot => ?_⟩
  · have hget := hrs.get (i := slot) (by simpa using hslot) (by omega)
    simp only [List.get_eq_getElem, List.getElem_map, List.getElem_range] at hget
    obtain ⟨ts, hts, heq⟩ := gives_returnedAt.1 hget
    refine ⟨ts, hts, ?_⟩
    show rs.getD slot .nil = _
    rw [List.getD_eq_getElem _ _ (by omega)]
    exact heq
  · show rs.getD slot .nil = _
    exact List.getD_eq_default _ _ (by omega)

/-! ## Names of local functions -/

/-- The callee is a name that loads no module and is bound to the declaration `d` of a local
function with this body; the declaration belongs to no module, and neither it nor the body is
annotated. -/
structure NamesFunction (p : Program) (callee : Expr) (d : Declaration) (body : FunctionBody) :
    Prop where
  isName : ∃ id x, callee = .name id x ∧ p.options.isRequire x = false
  isBound : ∃ b, p.names = .bound b ∧ b.references.find? callee.id = some d
  isLocal : d.kind ≠ .globalName
  noModule : d.ofModule = none
  hasBody : d.body = some body
  unannotated : p.annotations.find? d.id = none
  bodyUnannotated : p.annotations.find? body.id = none

variable {callee : Expr} {d : Declaration}

lemma NamesFunction.candidates (h : p.NamesFunction callee d body) :
    p.names.candidates callee = [d] := by
  obtain ⟨b, hnames, hb⟩ := h.isBound
  rw [hnames]
  exact Bindings.candidates_of_find? hb

/-- The name of a function has the type of its body. -/
lemma NamesFunction.hasValue (h : p.NamesFunction callee d body) (ht : p.HasValue callee 0 t) :
    p.Gives (p.functionType body) t := by
  obtain ⟨id, x, rfl, -⟩ := h.isName
  have hbinding : p.bindingType d = p.functionType body := by
    simp only [bindingType, ownBindingType, declarationType, assignedType, h.noModule, h.isLocal,
      h.hasBody, h.unannotated, if_false]
  have hplan : p.plan (.name id x) 0 = .consult x ((Plan.join [p.functionType body]).bind fun t =>
      if t.isInvalid then p.unboundType (.name id x) x t else .answer t) := by
    simp only [plan, nameType, h.candidates, List.map_cons, List.map_nil, hbinding]
  rw [← gives_plan, hplan, gives_consult, gives_bind] at ht
  obtain ⟨u, hu, ht⟩ := ht
  obtain ⟨ts, hts, rfl⟩ := gives_join.1 hu
  obtain ⟨v, hv, rfl⟩ : ∃ v, p.Gives (p.functionType body) v ∧ ts = [v] := by
    cases hts with
    | cons hv hrest =>
      cases hrest
      exact ⟨_, hv, rfl⟩
  -- a function carries information, so joining it to nothing leaves it as it is
  obtain ⟨s, rfl, -⟩ := gives_functionType h.bodyUnannotated hv
  have hjoin : Ty.joinAll [.function [s]] = .function [s] := rfl
  rw [hjoin] at ht
  obtain rfl := gives_answer.1 ht
  exact hv

lemma NamesFunction.withBody (h : p.NamesFunction callee d body)
    (next : Option FunctionBody → Plan) :
    p.Gives (p.withBody callee next) t ↔ p.Gives (next (some body)) t := by
  obtain ⟨id, x, rfl, -⟩ := h.isName
  obtain ⟨b, hnames, hb⟩ := h.isBound
  have hcandidates : b.candidates (.name id x) = [d] := Bindings.candidates_of_find? hb
  have hfunction : b.functionBody? (.name id x) = some body := by
    simp [Bindings.functionBody?, Expr.name?, hcandidates, Declaration.functionBody?, h.hasBody]
  simp [Program.withBody, hnames, Expr.name?, hfunction]

/-! ## Calls of local functions -/

/-- The value of a call of a local function at a slot: below the arity of the body, the join of what
its `return`s give there; above, nil. -/
lemma NamesFunction.hasValue_call (h : p.NamesFunction callee d body) {id : NodeId}
    {arguments : List Expr} (ht : p.HasValue (.call id callee arguments) slot t) :
    (slot < body.arity → ∃ ts, p.Returns body slot ts ∧ t = Ty.joinAll ts) ∧
      (slot ≥ body.arity → t = .nil) := by
  obtain ⟨nameId, x, hcallee, hx⟩ := h.isName
  have hcall : p.callType (.call id callee arguments) callee slot =
      p.applicationType callee slot := by
    simp [callType, hcallee, Expr.name?, hx]
  have hobject : p.constructed? callee = none := by
    simp [constructed?, hcallee, Expr.index?]
  rw [← gives_plan, plan, hcall, applicationType, gives_bind] at ht
  obtain ⟨u, hu, hanswer⟩ := ht
  rw [hobject, gives_answer] at hanswer
  subst hanswer
  obtain ⟨f, hf, hu⟩ := gives_ask.1 hu
  obtain ⟨s, rfl, hlisted, hrest⟩ := gives_functionType h.bodyUnannotated (h.hasValue hf)
  have hresults : Ty.joinAll (resultsOf (.function [s]) slot) = Ty.unknown.join (s.returnAt slot) :=
    rfl
  simp only [hresults] at hu
  refine ⟨fun hslot => ?_, fun hslot => ?_⟩
  · obtain ⟨ts, hts, hs⟩ := hlisted slot hslot
    by_cases hinv : (s.returnAt slot).isInvalid
    · -- the signature says nothing, and the body is asked
      rw [Ty.unknown_join, if_pos hinv, if_pos (by rfl), h.withBody,
        gives_returnType h.bodyUnannotated] at hu
      exact hu
    · rw [Ty.unknown_join, if_neg hinv, if_neg hinv, gives_answer] at hu
      exact ⟨ts, hts, hu.trans hs⟩
  · rw [hrest slot hslot] at hu
    exact gives_answer.1 hu

/-- In the query for `e₀` at `slot₀`, the expression `e` is found to have the type `t` at a slot: it
is the answer of the query, or stands in the memo at the end. -/
def Answers (p : Program) (e₀ : Expr) (slot₀ : Nat) (e : Expr) (slot : Nat) (t : Ty) : Prop :=
  let r := p.infer none p.options.maxDepth ∅ e₀ slot₀ (Progress.record ∅ .query)
  (e = e₀ ∧ slot = slot₀ ∧ t = r.1) ∨ r.2.memo.find? (.value e.id slot) = some t

/-- The query for `e₀` at `slot₀` refuses no key and no level. -/
def UncutAt (p : Program) (e₀ : Expr) (slot₀ : Nat) : Prop :=
  ∀ st ∈ p.course none p.options.maxDepth ∅ e₀ slot₀ (Progress.record ∅ .query), st.isCut = false

/-- What an uncut query finds are values. -/
lemma Answers.hasValue {e₀ e : Expr} {slot₀ : Nat} (hd : Distinct (p.nodes [e₀]))
    (hu : p.UncutAt e₀ slot₀) (he : e ∈ p.nodes [e₀]) (h : p.Answers e₀ slot₀ e slot t) :
    p.HasValue e slot t := by
  have he₀ : e₀ ∈ p.nodes [e₀] := mem_nodes_of_mem List.mem_cons_self
  have hstart : p.Sound [e₀] (Progress.record ∅ .query) := by
    intro x _ i u hu
    cases hu
  obtain ⟨hvalue, hsound⟩ := infer_value_of_node hd he₀ rfl hstart hu
  rcases h with ⟨rfl, rfl, rfl⟩ | h
  · exact hvalue
  · exact hsound e he slot t h

/-- In a query that nothing cuts short, a call of a local function has at the slots below the arity
of its body the join of what the `return`s of the body give there, and is nil at all other slots.
So it forwards what the `return`s give exactly at the slots below the arity, and where they give
nil. -/
theorem call_forwards (p : Program) (e₀ : Expr) (slot₀ : Nat) (hd : Distinct (p.nodes [e₀]))
    (hu : p.UncutAt e₀ slot₀) {id : NodeId} {callee : Expr} {arguments : List Expr}
    (hmem : .call id callee arguments ∈ p.nodes [e₀]) {d : Declaration} {body : FunctionBody}
    (h : p.NamesFunction callee d body) (slot : Nat) (t : Ty)
    (ht : p.Answers e₀ slot₀ (.call id callee arguments) slot t) :
    (slot < body.arity → ∃ ts, p.Returns body slot ts ∧ t = Ty.joinAll ts) ∧
      (slot ≥ body.arity → t = .nil) ∧
      ∀ ts, p.Returns body slot ts →
        (t = Ty.joinAll ts ↔ slot < body.arity ∨ Ty.joinAll ts = .nil) := by
  obtain ⟨hlisted, hrest⟩ := h.hasValue_call (ht.hasValue hd hu hmem)
  refine ⟨hlisted, hrest, fun ts hts => ?_⟩
  by_cases hslot : slot < body.arity
  · obtain ⟨ts', hts', rfl⟩ := hlisted hslot
    simp [hslot, hts'.unique hts]
  · simp [hslot, hrest (by omega), eq_comm]

/-! ## A wrapper of a function with two results -/

/-- The body of `function f() return g() end`. -/
def wrapperBody : FunctionBody := ⟨⟨0, 6⟩, [], [[.call ⟨0, 5⟩ (.name ⟨0, 4⟩ "g") []]]⟩

/-- `function g() return 1, "s" end`, `function f() return g() end` and `local a, b = f()`; the name
at which `b` is used is the node 12. -/
def wrapped : Program :=
  let g : Declaration := {
    id := ⟨0, 3⟩, name := "g", kind := .function
    body := some ⟨⟨0, 2⟩, [], [[.literal ⟨0, 0⟩ .number, .literal ⟨0, 1⟩ (.string "s")]]⟩ }
  let f : Declaration := { id := ⟨0, 7⟩, name := "f", kind := .function, body := some wrapperBody }
  let call : Expr := .call ⟨0, 9⟩ (.name ⟨0, 8⟩ "f") []
  let b : Declaration := { Declaration.localName ⟨0, 11⟩ "b" with value := some ⟨[call], 1⟩ }
  ofReferences [(⟨0, 12⟩, b), (⟨0, 8⟩, f), (⟨0, 4⟩, g)]

/-- The query for `b` asks for `f()` at the slot 1, which is not below the arity of `f`.  The body
of `f` gives a string there, the second result of `g`, but `f()` is found to be nil. -/
theorem wrapped_forwards :
    let b : Expr := .name ⟨0, 12⟩ "b"
    let call : Expr := .call ⟨0, 9⟩ (.name ⟨0, 8⟩ "f") []
    Distinct (wrapped.nodes [b]) ∧ wrapped.UncutAt b 0 ∧ call ∈ wrapped.nodes [b] ∧
      (∃ d, wrapped.NamesFunction (.name ⟨0, 8⟩ "f") d wrapperBody) ∧
      wrapped.Answers b 0 call 1 .nil ∧ wrapped.Returns wrapperBody 1 [.string] ∧
      (Ty.nil = Ty.joinAll [.string] ↔ 1 < wrapperBody.arity ∨ Ty.joinAll [.string] = .nil) := by
  intro b call
  let inner : Expr := .call ⟨0, 5⟩ (.name ⟨0, 4⟩ "g") []
  have hnodes : wrapped.nodes [b] = [b, .literal ⟨0, 0⟩ .number, .literal ⟨0, 1⟩ (.string "s"),
      inner, .name ⟨0, 4⟩ "g", call, .name ⟨0, 8⟩ "f"] := rfl
  have hd : Distinct (wrapped.nodes [b]) := by
    rw [hnodes]
    exact .of_nodup (by decide)
  have hu : wrapped.UncutAt b 0 := by
    unfold UncutAt
    decide
  have hmem : call ∈ wrapped.nodes [b] := by
    rw [hnodes]
    simp
  have hf : wrapped.NamesFunction (.name ⟨0, 8⟩ "f") _ wrapperBody :=
    ⟨⟨_, _, rfl, rfl⟩, ⟨_, rfl, rfl⟩, by decide, rfl, rfl, rfl, rfl⟩
  have hans : wrapped.Answers b 0 call 1 .nil := by
    refine .inr ?_
    decide
  have hret : wrapped.Returns wrapperBody 1 [.string] := .cons ⟨3, by decide⟩ .nil
  obtain ⟨-, -, hforward⟩ := call_forwards wrapped b 0 hd hu hmem hf 1 .nil hans
  exact ⟨hd, hu, hmem, ⟨_, hf⟩, hans, hret, hforward [.string] hret⟩

/-- So `b` is found to be nil, although a query for what the body of `f` returns there gives a
string. -/
theorem wrapped_loses_result :
    (wrapped.typeOf (.name ⟨0, 12⟩ "b")).1 = .nil ∧
      ((∅ : Query).perform wrapped none (wrapped.returnType wrapperBody 1)).1 = .string := by
  decide

end Program

end TypeQuery
