import TypeQuery.Proofs.Nodes

/-!
# What a plan asks for

Which question a plan asks next depends on the answers so far, but whatever these are, the questions
are among the expressions of the program.  `Plan.Confined A W` says so for all answers at once: every
question satisfies `A`, and every piece of work under a key satisfies `W`.

Two facts about the plan of an expression carry the proofs about queries.

* `Program.plan_asked`: if the expression is a node of the program, so are the expressions that it
  asks for, at slots up to `Program.lastSlot`, and past the first slot only if they may stand for
  several values; and the only work that it does under a key of its own is to look up a declaration
  among the members of its module.  `Program.plan_confined` leaves out which expressions have more
  than one slot, and `Program.plan_confined_nodes` is the part of this that holds at any slot.
* `Program.plan_asked_parts`: an expression that is not guarded asks for its own parts only.  So a
  query can come back to where it was only through a guarded expression.

The facts about the rules on the way there hold for the plans as they are built, one for each
combinator and one for each rule of `TypeQuery.Typing`.
-/

namespace TypeQuery

/-- The expression has a value at the slot: every expression has a first one, and only those that
may stand for several have others. -/
def Expr.HasSlot (e : Expr) (slot : Nat) : Prop := 0 < slot → e.isMultiValued = true

lemma Expr.hasSlot_zero (e : Expr) : e.HasSlot 0 := fun h => absurd h (Nat.lt_irrefl 0)

namespace Plan

/-- Whatever the answers are, the plan only asks questions that satisfy `A`, and only does work under
a key that satisfies `W`. -/
def Confined (A : Expr → Nat → Prop) (W : Key → Plan → Prop) : Plan → Prop
  | .answer _ => True
  | .ask e slot next => A e slot ∧ ∀ t, (next t).Confined A W
  | .within key body next => W key body ∧ body.Confined A W ∧ ∀ r, (next r).Confined A W
  | .consult _ next => next.Confined A W
  | .lookUpModule _ next => next.Confined A W

variable {A A' : Expr → Nat → Prop} {W W' : Key → Plan → Prop}

lemma Confined.mono (hA : ∀ e slot, A e slot → A' e slot) (hW : ∀ k b, W k b → W' k b)
    {plan : Plan} (h : plan.Confined A W) : plan.Confined A' W' := by
  induction plan with
  | answer t => trivial
  | ask e slot next ih => exact ⟨hA _ _ h.1, fun t => ih t (h.2 t)⟩
  | within key body next ihb ihn =>
    exact ⟨hW _ _ h.1, ihb h.2.1, fun r => ihn r (h.2.2 r)⟩
  | consult name next ih => exact ih h
  | lookUpModule found next ih => exact ih h

/-! ## Combinators -/

lemma ofExpr_confined {e : Expr} {slot : Nat} (h : A e slot) : (ofExpr e slot).Confined A W :=
  ⟨h, fun _ => trivial⟩

lemma bind_confined {plan : Plan} {k : Ty → Plan} (hp : plan.Confined A W)
    (hk : ∀ t, (k t).Confined A W) : (plan.bind k).Confined A W := by
  induction plan with
  | answer t => exact hk t
  | ask e slot next ih => exact ⟨hp.1, fun t => ih t (hp.2 t)⟩
  | within key body next _ ih => exact ⟨hp.1, hp.2.1, fun r => ih r (hp.2.2 r)⟩
  | consult name next ih => exact ih hp
  | lookUpModule found next ih => exact ih hp

lemma collect_confined {plans : List Plan} {k : List Ty → Plan}
    (hp : ∀ plan ∈ plans, plan.Confined A W) (hk : ∀ ts, (k ts).Confined A W) :
    (collect plans k).Confined A W := by
  induction plans generalizing k with
  | nil => exact hk []
  | cons plan plans ih =>
    refine bind_confined (hp plan List.mem_cons_self) fun t => ?_
    exact ih (fun q hq => hp q (List.mem_cons_of_mem _ hq)) fun ts => hk (t :: ts)

lemma join_confined {plans : List Plan} (hp : ∀ plan ∈ plans, plan.Confined A W) :
    (join plans).Confined A W :=
  collect_confined hp fun _ => trivial

lemma joinTo_confined {t : Ty} {plan : Plan} (hp : plan.Confined A W) :
    (joinTo t plan).Confined A W :=
  bind_confined hp fun _ => trivial

/-! ## Values and function bodies -/

/-- A value list is asked for one of its expressions, at a slot that the expression has and that is
no later than the position that was wanted. -/
lemma valueAt_confined {values : List Expr} {index : Nat}
    (h : ∀ x ∈ values, ∀ i ≤ index, x.HasSlot i → A x i) : (valueAt values index).Confined A W := by
  unfold valueAt
  split
  next x hx =>
    exact ofExpr_confined (h x (List.mem_of_getElem? hx) 0 (Nat.zero_le _) x.hasSlot_zero)
  next =>
    split
    next last hlast =>
      split
      next hmulti =>
        refine ofExpr_confined (h last (List.mem_of_getLast? hlast) _ (Nat.sub_le _ _) ?_)
        exact fun _ => hmulti
      next => trivial
    next => trivial

lemma returnedAt_confined {body : FunctionBody} {slot : Nat}
    (h : ∀ x ∈ body.returns.flatten, ∀ i ≤ slot, x.HasSlot i → A x i) :
    (returnedAt body slot).Confined A W := by
  refine join_confined fun plan hplan => ?_
  obtain ⟨values, hvalues, rfl⟩ := List.mem_map.1 hplan
  exact valueAt_confined fun x hx => h x (List.mem_flatten.2 ⟨values, hvalues, hx⟩)

end Plan

open Plan

namespace Program

variable {A : Expr → Nat → Prop} {W : Key → Plan → Prop} {p : Program}

lemma functionType_confined {body : FunctionBody}
    (h : ∀ x ∈ body.returns.flatten, ∀ i < body.arity, x.HasSlot i → A x i) :
    (p.functionType body).Confined A W := by
  unfold functionType
  split
  · trivial
  · refine collect_confined (fun plan hplan => ?_) fun _ => trivial
    obtain ⟨slot, hslot, rfl⟩ := List.mem_map.1 hplan
    rw [List.mem_range] at hslot
    exact returnedAt_confined fun x hx i hi => h x hx i (by omega)

lemma returnType_confined {body : FunctionBody} {slot : Nat}
    (h : ∀ x ∈ body.returns.flatten, ∀ i ≤ slot, x.HasSlot i → A x i) :
    (p.returnType body slot).Confined A W := by
  unfold returnType
  split
  · trivial
  · exact returnedAt_confined h

/-! ## Declarations -/

variable {es : List Expr}

/-- The expression is a node of the program, and the slot is one at which its nodes are asked
for. -/
def Holds (p : Program) (es : List Expr) (e : Expr) (slot : Nat) : Prop :=
  e ∈ p.nodes es ∧ slot ≤ p.lastSlot es

/-- The expression is a node of the program, and the slot is one that it has and at which nodes of
the program are asked for. -/
def Asked (p : Program) (es : List Expr) (e : Expr) (slot : Nat) : Prop :=
  p.Holds es e slot ∧ e.HasSlot slot

lemma asked_zero {e : Expr} (he : e ∈ p.nodes es) : p.Asked es e 0 :=
  ⟨⟨he, Nat.zero_le _⟩, e.hasSlot_zero⟩

/-- The work of looking up a declaration among the members of its module. -/
def MemberWork (p : Program) (key : Key) (body : Plan) : Prop :=
  ∃ d ∈ p.declarations, ∃ m, d.ofModule = some m ∧ key = .member d.id ∧
    body = p.fieldType (.declared m) d.name

lemma functionType_asked {body : FunctionBody} (hb : body ∈ p.bodies es) :
    (p.functionType body).Confined (p.Asked es) W :=
  functionType_confined fun _ hx _ hi hslot =>
    ⟨⟨mem_nodes_of_body hb hx, lt_arity_le_lastSlot hb hi⟩, hslot⟩

lemma valueAt_asked {d : Declaration} {v : Assigned} (hd : d ∈ p.declarations)
    (hv : d.value = some v) : (valueAt v.values v.index).Confined (p.Asked es) W :=
  valueAt_confined fun _ hx _ hi hslot =>
    ⟨⟨mem_nodes_of_value hd hv hx, hi.trans (index_le_lastSlot hd hv)⟩, hslot⟩

lemma declarationType_asked {d : Declaration} (hd : d ∈ p.declarations) :
    (p.declarationType d).Confined (p.Asked es) W := by
  have hassigned : (p.assignedType d).Confined (p.Asked es) W := by
    unfold assignedType
    split
    next body _ hb => exact functionType_asked (mem_bodies_of_declaration hd hb)
    next v _ hv => exact valueAt_asked hd hv
    next => trivial
  unfold declarationType
  split
  · split
    · exact hassigned
    · trivial
  · exact hassigned

lemma fieldType_asked {c : ClassTy} {field : String} :
    (p.fieldType c field).Confined (p.Asked es) W := by
  refine join_confined fun plan hplan => ?_
  obtain ⟨d, hd, rfl⟩ := List.mem_map.1 hplan
  exact declarationType_asked (mem_declarations_of_member hd)

/-! ## Names -/

lemma bindingType_asked {d : Declaration} (hd : d ∈ p.declarations) :
    (p.bindingType d).Confined (p.Asked es) p.MemberWork := by
  have hown : (p.ownBindingType d).Confined (p.Asked es) p.MemberWork := by
    unfold ownBindingType
    split
    · exact bind_confined (declarationType_asked hd) fun _ => trivial
    · exact declarationType_asked hd
  unfold bindingType
  split
  next => exact hown
  next m hm =>
    refine ⟨⟨d, hd, m, hm, rfl, rfl⟩, fieldType_asked, fun r => ?_⟩
    cases r with
    | none => exact hown
    | some t =>
      dsimp only
      split
      · exact hown
      · trivial

lemma nameType_asked (e : Expr) (name : String) :
    (p.nameType e name).Confined (p.Asked es) p.MemberWork := by
  refine bind_confined (join_confined fun plan hplan => ?_) fun t => ?_
  · obtain ⟨d, hd, rfl⟩ := List.mem_map.1 hplan
    exact bindingType_asked (mem_declarations_of_candidate hd)
  · split
    · unfold unboundType
      dsimp only
      split
      next d hd =>
        exact bind_confined (bindingType_asked (mem_declarations_of_target hd)) fun _ => trivial
      next => trivial
    · trivial

/-! ## Calls -/

lemma requiredType_asked {source : String} {file : FileId} :
    (p.requiredType source file).Confined (p.Asked es) W := by
  unfold requiredType
  split
  next => trivial
  next m hm =>
    have hmem := Modules.mem_values_of_resolve hm
    rw [Plan.Confined]
    split
    next => trivial
    next x hx => exact ofExpr_confined (asked_zero (mem_nodes_of_export hmem hx))
    next => trivial

/-- The body that a callee means is a body of the program. -/
lemma withBody_confined (es : List Expr) {callee : Expr} {next : Option FunctionBody → Plan}
    (hsome : ∀ body ∈ p.bodies es, (next (some body)).Confined A W)
    (hnone : (next none).Confined A W) : (p.withBody callee next).Confined A W := by
  unfold withBody
  split
  next body hn =>
    refine hsome body ?_
    simp [bodies, hn, Names.commonBody?]
  next b hn =>
    split
    next name hname =>
      show (next (b.functionBody? callee)).Confined A W
      cases hbody : b.functionBody? callee with
      | none => exact hnone
      | some body =>
        refine hsome body ?_
        simp only [Bindings.functionBody?, hname, Option.isSome_some, if_true] at hbody
        obtain ⟨d, hd, hdb⟩ := List.exists_of_findSome?_eq_some hbody
        refine mem_bodies_of_functionBody? (List.mem_append_left _ ?_) hdb
        rw [hn]
        exact Names.mem_declarations_of_candidates (n := .bound b) hd
    next => exact hnone

/-- Which names make instances depends on the options and on the rule only. -/
lemma isConstructor_congr {p p' : Program} (hrule : p'.constructors = p.constructors)
    (hoptions : p'.options = p.options) (name : String) :
    p'.isConstructor name = p.isConstructor name := by
  rw [isConstructor, isConstructor, hrule, hoptions]

lemma mem_parts_of_constructed? {callee object : Expr} (h : p.constructed? callee = some object) :
    object ∈ callee.parts := by
  cases callee <;> simp only [constructed?, Expr.index?, reduceCtorEq] at h
  next id o key =>
    split at h
    · split at h
      · cases h
        exact List.mem_cons_self
      · cases h
    · cases h

/-- An ordinary call asks for its callee, for the object that holds it, and for what the function
bodies of the program return. -/
lemma applicationType_confined (es : List Expr) {callee : Expr} {slot : Nat} (hc : A callee 0)
    (hobject : ∀ object ∈ callee.parts, A object 0)
    (hbody : ∀ body ∈ p.bodies es, ∀ x ∈ body.returns.flatten, ∀ i ≤ slot, x.HasSlot i → A x i) :
    (p.applicationType callee slot).Confined A W := by
  refine bind_confined ⟨hc, fun t => ?_⟩ fun t => ?_
  · dsimp only
    split
    · refine withBody_confined es (fun body hb => ?_) trivial
      exact returnType_confined (hbody body hb)
    · trivial
  · split
    next object h =>
      split
      · exact joinTo_confined (ofExpr_confined (hobject object (mem_parts_of_constructed? h)))
      · trivial
    next => trivial

lemma applicationType_asked {callee : Expr} {slot : Nat} (hc : callee ∈ p.nodes es)
    (hs : slot ≤ p.lastSlot es) : (p.applicationType callee slot).Confined (p.Asked es) W :=
  applicationType_confined es (asked_zero hc)
    (fun _ hobject => asked_zero (mem_nodes_of_parts hc hobject))
    fun _ hb _ hx _ hi hslot => ⟨⟨mem_nodes_of_body hb hx, hi.trans hs⟩, hslot⟩

lemma callType_asked {e callee : Expr} {slot : Nat} (hc : callee ∈ p.nodes es)
    (hs : slot ≤ p.lastSlot es) : (p.callType e callee slot).Confined (p.Asked es) W := by
  unfold callType
  split
  · split
    · exact requiredType_asked
    · trivial
  · exact applicationType_asked hc hs

/-! ## Index expressions -/

lemma fieldOf_asked {object : Ty} {field : String} {t : Ty} :
    (p.fieldOf object field t).Confined (p.Asked es) W := by
  refine collect_confined (fun plan hplan => ?_) fun _ => trivial
  obtain ⟨c, _, rfl⟩ := List.mem_map.1 hplan
  exact fieldType_asked

lemma memberType_asked {e object : Expr} {key : IndexKey} {o : Option Ty}
    (ho : object ∈ p.nodes es) : (p.memberType e object key o).Confined (p.Asked es) W := by
  unfold memberType
  dsimp only
  split
  · trivial
  · refine bind_confined ?_ fun t => ?_
    · split
      next v hv =>
        obtain ⟨d, hd, hdv⟩ := Option.bind_eq_some_iff.1 hv
        exact joinTo_confined (valueAt_asked (mem_declarations_of_target hd) hdv)
      next => trivial
    · split
      · trivial
      · exact fieldOf_asked
      · exact ⟨asked_zero ho, fun _ => fieldOf_asked⟩

lemma indexType_asked {e object : Expr} {key : IndexKey} (ho : object ∈ p.nodes es) :
    (p.indexType e object key).Confined (p.Asked es) W := by
  unfold indexType
  split
  · refine ⟨asked_zero ho, fun t => ?_⟩
    dsimp only
    split
    · trivial
    · split
      · trivial
      · exact memberType_asked ho
  · exact memberType_asked ho

/-! ## All expressions -/

/-- An expression that is not guarded asks for its parts only, and does no work under a key. -/
lemma plan_asked_parts {e : Expr} {slot : Nat} (he : e ∈ p.nodes es) (hg : e.isGuarded = false) :
    (p.plan e slot).Confined (fun x i => x ∈ e.parts ∧ p.Asked es x i) fun _ _ => False := by
  have hpart : ∀ x ∈ e.parts, x ∈ e.parts ∧ p.Asked es x 0 :=
    fun x hx => ⟨hx, asked_zero (mem_nodes_of_parts he hx)⟩
  cases e with
  | unary id op operand =>
    cases op with
    | minus => exact ofExpr_confined (hpart operand List.mem_cons_self)
    | length => trivial
    | not => trivial
    | bitNot => trivial
  | binary id op left right =>
    show (binaryType op left right).Confined _ _
    unfold binaryType
    split
    · trivial
    split
    · trivial
    split
    · refine ⟨hpart left List.mem_cons_self, fun t => ?_⟩
      cases right with
      | none => trivial
      | some r =>
        refine joinTo_confined (ofExpr_confined (hpart r ?_))
        exact List.mem_cons_of_mem _ List.mem_cons_self
    · exact ofExpr_confined (hpart left List.mem_cons_self)
  | closure id body =>
    have hbody : body ∈ p.bodies es := mem_bodies_of_node he rfl
    exact functionType_confined fun x hx i hi hslot =>
      ⟨hx, ⟨mem_nodes_of_body hbody hx, lt_arity_le_lastSlot hbody hi⟩, hslot⟩
  | table id fields => trivial
  | paren id inner =>
    cases inner with
    | none => trivial
    | some x => exact ofExpr_confined (hpart x List.mem_cons_self)
  | literal id l => trivial
  | call id callee arguments => cases hg
  | name id x => cases hg
  | index id object key => cases hg

lemma plan_confined_parts {e : Expr} {slot : Nat} (he : e ∈ p.nodes es)
    (hg : e.isGuarded = false) :
    (p.plan e slot).Confined (fun x i => x ∈ e.parts ∧ i ≤ p.lastSlot es) fun _ _ => False :=
  (plan_asked_parts he hg).mono (fun _ _ h => ⟨h.1, h.2.1.2⟩) fun _ _ h => h

/-- A query stays among the nodes of the program, at slots that they have and up to the last one. -/
theorem plan_asked {e : Expr} {slot : Nat} (he : p.Holds es e slot) :
    (p.plan e slot).Confined (p.Asked es) p.MemberWork := by
  cases hg : e.isGuarded with
  | false => exact (plan_asked_parts he.1 hg).mono (fun _ _ h => h.2) fun _ _ h => h.elim
  | true =>
    cases e with
    | call id callee arguments =>
      exact callType_asked (mem_nodes_of_parts he.1 List.mem_cons_self) he.2
    | name id x => exact nameType_asked _ _
    | index id object key => exact indexType_asked (mem_nodes_of_parts he.1 List.mem_cons_self)
    | _ => cases hg

/-! ## Without the slots of an expression -/

lemma valueAt_holds {d : Declaration} {v : Assigned} (hd : d ∈ p.declarations)
    (hv : d.value = some v) : (valueAt v.values v.index).Confined (p.Holds es) W :=
  (valueAt_asked hd hv).mono (fun _ _ h => h.1) fun _ _ h => h

lemma declarationType_holds {d : Declaration} (hd : d ∈ p.declarations) :
    (p.declarationType d).Confined (p.Holds es) W :=
  (declarationType_asked hd).mono (fun _ _ h => h.1) fun _ _ h => h

lemma fieldType_holds {c : ClassTy} {field : String} :
    (p.fieldType c field).Confined (p.Holds es) W :=
  fieldType_asked.mono (fun _ _ h => h.1) fun _ _ h => h

lemma bindingType_holds {d : Declaration} (hd : d ∈ p.declarations) :
    (p.bindingType d).Confined (p.Holds es) p.MemberWork :=
  (bindingType_asked hd).mono (fun _ _ h => h.1) fun _ _ h => h

/-- A query stays among the nodes of the program, and at slots up to the last one. -/
theorem plan_confined {e : Expr} {slot : Nat} (he : p.Holds es e slot) :
    (p.plan e slot).Confined (p.Holds es) p.MemberWork :=
  (plan_asked he).mono (fun _ _ h => h.1) fun _ _ h => h

/-- Only calls make use of the slot. -/
lemma plan_of_not_isCall {e : Expr} (h : e.isCall = false) (slot : Nat) :
    p.plan e slot = p.plan e 0 := by
  cases e with
  | call => cases h
  | paren id inner => cases inner <;> rfl
  | _ => rfl

/-- A query stays among the nodes of the program, at whatever slot it starts. -/
lemma plan_confined_nodes {e : Expr} (he : e ∈ p.nodes es) (slot : Nat) :
    (p.plan e slot).Confined (fun x _ => x ∈ p.nodes es) p.MemberWork := by
  cases hcall : e.isCall with
  | false =>
    rw [plan_of_not_isCall hcall]
    exact (plan_confined ⟨he, Nat.zero_le _⟩).mono (fun _ _ h => h.1) fun _ _ h => h
  | true =>
    cases e with
    | call id callee arguments =>
      have hc := mem_nodes_of_parts he (x := callee) List.mem_cons_self
      show (p.callType _ callee slot).Confined _ _
      unfold callType
      split
      · split
        · exact (requiredType_asked (W := p.MemberWork)).mono (fun _ _ h => h.1.1) fun _ _ h => h
        · trivial
      · exact applicationType_confined es hc (fun _ => mem_nodes_of_parts hc)
          fun _ hb _ hx _ _ _ => mem_nodes_of_body hb hx
    | _ => cases hcall

end Program

end TypeQuery
