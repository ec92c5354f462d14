import TypeQuery.Proofs.Again
import TypeQuery.Proofs.Levels
import TypeQuery.Proofs.Preserved

/-!
# Registering a declaration again

A declaration may be registered many times: a member that is added to its class again, the fields of
a table constructor that is walked over again, a global that is declared again.  Every occurrence
counts, so a query over the longer lists does more work; but it finds the same types.

* `Program.Reregistered` says how the program comes about, and `Program.Repeats` what its tables
  then look like: further occurrences at the end of some lists, and nothing else.
* The two queries are carried out side by side.  At each point they have the same memory, with the
  same keys in progress (`Abreast`).  One plan follows another (`Program.Follows`) if from any such
  point it gives the same answer and leads to such a point again.  Only quiet runs are compared,
  since further work takes further truncations where the depth limit is reached.
* A join with further occurrences of its plans follows the join without them
  (`Follows.join_of_repeated`): to carry out a plan again changes nothing, as
  `TypeQuery.Proofs.Again` shows, and neither does joining a type again.

`Program.infer_alike` puts this together, and `Program.typeOf_of_reregistered` is about a query from
its start.
-/

namespace TypeQuery

open Progress

/-! ## Programs with repeats -/

/-- `l'` goes on after `l` with further occurrences of its elements. -/
def Repeated {α : Type} (l l' : List α) : Prop := ∃ copies, copies ⊆ l ∧ l' = l ++ copies

namespace Repeated

variable {α : Type} {l l' : List α} {a : α}

lemma refl (l : List α) : Repeated l l := ⟨[], List.nil_subset l, (List.append_nil l).symm⟩

lemma snoc (h : Repeated l l') (ha : a ∈ l') : Repeated l (l' ++ [a]) := by
  obtain ⟨copies, hsub, rfl⟩ := h
  have hmem : a ∈ l := (List.mem_append.1 ha).elim id fun h => hsub h
  refine ⟨copies ++ [a], List.append_subset.2 ⟨hsub, ?_⟩, List.append_assoc _ _ _⟩
  simpa using hmem

/-- The first element at which a function is defined is not one of the repeats. -/
lemma findSome?_eq {β : Type} (h : Repeated l l') (f : α → Option β) :
    l'.findSome? f = l.findSome? f := by
  obtain ⟨copies, hsub, rfl⟩ := h
  rw [List.findSome?_append]
  cases hl : l.findSome? f with
  | some b => rfl
  | none =>
    rw [Option.none_or, List.findSome?_eq_none_iff]
    exact fun x hx => List.findSome?_eq_none_iff.1 hl x (hsub hx)

end Repeated

/-- The names lead to the same declarations, and to some of the globals more often. -/
inductive Names.Repeats : Names → Names → Prop
  | bodyOnly (body : FunctionBody) : Repeats (.bodyOnly body) (.bodyOnly body)
  | bound {b b' : Bindings} (references : b'.references = b.references)
      (targets : b'.targets = b.targets)
      (globals : ∀ x, Repeated (b.globalsOf x) (b'.globalsOf x)) : Repeats (.bound b) (.bound b')

namespace Names.Repeats

variable {n n' : Names}

lemma refl (n : Names) : Repeats n n := by
  cases n with
  | bound b => exact .bound rfl rfl fun x => .refl _
  | bodyOnly body => exact .bodyOnly body

lemma target? (h : Repeats n n') (e : Expr) : n'.target? e = n.target? e := by
  cases h with
  | bodyOnly body => rfl
  | bound hr ht hg => rw [Names.target?, Names.target?, Bindings.target?, ht, Bindings.target?]

lemma isGlobal (h : Repeats n n') (e : Expr) : n'.isGlobal e = n.isGlobal e := by
  cases h with
  | bodyOnly body => rfl
  | bound hr ht hg => rw [Names.isGlobal, Names.isGlobal, Bindings.isGlobal, hr, Bindings.isGlobal]

lemma candidates (h : Repeats n n') (e : Expr) :
    Repeated (n.candidates e) (n'.candidates e) := by
  cases h with
  | bodyOnly body => exact .refl _
  | @bound b b' hr ht hg =>
    rw [Names.candidates, Names.candidates, Bindings.candidates, Bindings.candidates, hr]
    cases hb : b.references.find? e.id with
    | some d => exact .refl _
    | none =>
      cases hx : e.name? with
      | none => exact .refl _
      | some x => exact hg x

end Names.Repeats

namespace Program

/-- The programs are the same, but for further occurrences of declarations of members and globals
in `p'`. -/
structure Repeats (p p' : Program) : Prop where
  names : p.names.Repeats p'.names
  annotations : p'.annotations = p.annotations
  members : ∀ c field,
    Repeated (p.members.declarationsOf c field) (p'.members.declarationsOf c field)
  modules : p'.modules = p.modules
  options : p'.options = p.options
  constructors : p'.constructors = p.constructors

/-- The program comes from `p` by registering again, any number of times, what is registered: a
member of a class, the fields of a table constructor, or a global. -/
inductive Reregistered (p : Program) : Program → Prop
  | refl : Reregistered p p
  | addMember {p' : Program} (h : Reregistered p p') (c : ClassTy) (d : Declaration)
      (hd : d ∈ p'.members.declarationsOf c d.name) :
      Reregistered p { p' with members := p'.members.add c d }
  | addTable {p' : Program} (h : Reregistered p p') (e : Expr)
      (he : ∀ d ∈ Members.declarationsOfTable e,
        d ∈ p'.members.declarationsOf (.table e.id) d.name) :
      Reregistered p { p' with members := (p'.members.addTable e).2 }
  | declareGlobal {p' : Program} (h : Reregistered p p') {b : Bindings} (hb : p'.names = .bound b)
      (d : Declaration) (hd : { d with kind := .globalName } ∈ b.globalsOf d.name) :
      Reregistered p { p' with names := .bound (b.declareGlobal d) }

end Program

namespace Members

variable {m m' : Members}

/-- One more occurrence of a member. -/
lemma repeated_add
    (h : ∀ c field, Repeated (m.declarationsOf c field) (m'.declarationsOf c field))
    {c : ClassTy} {d : Declaration} (hd : d ∈ m'.declarationsOf c d.name) (c' : ClassTy)
    (field : String) :
    Repeated (m.declarationsOf c' field) ((m'.add c d).declarationsOf c' field) := by
  rw [declarationsOf_add]
  split
  next heq =>
    refine (h c' field).snoc ?_
    rw [← heq.2, declarationsOf, fieldsOf, ← heq.1]
    exact hd
  next => exact h c' field

/-- Adding a declaration removes none. -/
lemma mem_declarationsOf_add {c c' : ClassTy} {d d' : Declaration} {field : String}
    (h : d ∈ m.declarationsOf c field) : d ∈ (m.add c' d').declarationsOf c field := by
  rw [declarationsOf_add]
  split
  · exact List.mem_append_left _ h
  · exact h

/-- One more occurrence of each of several members. -/
lemma repeated_foldl_add
    (h : ∀ c field, Repeated (m.declarationsOf c field) (m'.declarationsOf c field))
    {c : ClassTy} {ds : List Declaration} (hds : ∀ d ∈ ds, d ∈ m'.declarationsOf c d.name)
    (c' : ClassTy) (field : String) :
    Repeated (m.declarationsOf c' field)
      ((ds.foldl (fun m d => m.add c d) m').declarationsOf c' field) := by
  induction ds generalizing m' with
  | nil => exact h c' field
  | cons d ds ih =>
    obtain ⟨hd, hrest⟩ := List.forall_mem_cons.1 hds
    exact ih (repeated_add h hd) fun d' hd' => mem_declarationsOf_add (hrest d' hd')

end Members

namespace Program

variable {p p' : Program}

/-- Registering again only adds further occurrences. -/
lemma Reregistered.repeats (h : p.Reregistered p') : p.Repeats p' := by
  induction h with
  | refl =>
    exact ⟨.refl _, rfl, fun c field => .refl _, rfl, rfl, rfl⟩
  | addMember _ c d hd ih => exact { ih with members := Members.repeated_add ih.members hd }
  | addTable _ e he ih => exact { ih with members := Members.repeated_foldl_add ih.members he }
  | @declareGlobal p' _ b hb d hd ih =>
    have hnames := ih.names
    rw [hb] at hnames
    refine { ih with names := ?_ }
    cases hn : p.names with
    | bodyOnly body =>
      rw [hn] at hnames
      cases hnames
    | bound b₀ =>
      rw [hn] at hnames
      cases hnames with
      | bound hr ht hg =>
        refine .bound hr ht fun x => ?_
        rw [Bindings.globalsOf_declareGlobal]
        split
        next hx =>
          refine (hg x).snoc ?_
          rw [← hx]
          exact hd
        next => exact hg x

end Program

/-! ## Side by side -/

/-- The queries have the same memory, with the same keys in progress. -/
structure Abreast (g : Guard) (s s' : Progress) : Prop where
  inOrder : InOrder g s
  wellFormed : s.MemoAll Ty.WellFormed
  same : Same s s'

lemma Abreast.of_same {g : Guard} {s₁ s₂ s' : Progress} (h : Abreast g s₂ s')
    (hs : Same s₁ s₂) : Abreast g s₁ s' := by
  refine ⟨h.inOrder.same hs.symm, ?_, hs.trans h.same⟩
  rw [MemoAll, hs.memo]
  exact h.wellFormed

lemma Abreast.record {g : Guard} {s s' : Progress} (h : Abreast g s s') (event : Event) :
    Abreast g (s.record event) (s'.record event) :=
  ⟨h.inOrder.same (same_record s event), h.wellFormed, h.same.record _ _⟩

/-- The runs give the same answer, and lead to the same memory. -/
structure Concur (g : Guard) (r r' : Ty × Progress) : Prop where
  answer : r.1 = r'.1
  wellFormed : r.1.WellFormed
  abreast : Abreast g r.2 r'.2

namespace Program

variable {p p' : Program}

/-- Wherever the queries about `p` and `p'` stand, if the first plan has a quiet run in `p`, the
second one does the same in `p'`. -/
def Follows (p p' : Program) (levels : Nat) (plan plan' : Plan) : Prop :=
  ∀ g s s', Abreast g s s' → Quiet s (plan.run (p.infer none levels) none g s).2 →
    Concur g (plan.run (p.infer none levels) none g s) (plan'.run (p'.infer none levels) none g s')

namespace Follows

open Plan

variable {levels : Nat} {plan plan' : Plan}

lemma answer {t : Ty} (ht : t.WellFormed) : Follows p p' levels (.answer t) (.answer t) :=
  fun _ _ _ hs _ => ⟨rfl, ht, hs⟩

lemma consult (name : String) (h : Follows p p' levels plan plan') :
    Follows p p' levels (.consult name plan) (.consult name plan') := by
  intro g s s' hs hq
  rw [run_consult, consult_none] at hq ⊢
  rw [run_consult, consult_none]
  exact h g s s' hs hq

lemma lookUpModule (found : Bool) (h : Follows p p' levels plan plan') :
    Follows p p' levels (.lookUpModule found plan) (.lookUpModule found plan') :=
  fun g _ _ hs hq => h g _ _ (hs.record _) hq

lemma bind {k k' : Ty → Plan} (h : Follows p p' levels plan plan')
    (hk : ∀ t : Ty, t.WellFormed → Follows p p' levels (k t) (k' t)) :
    Follows p p' levels (plan.bind k) (plan'.bind k') := by
  intro g s s' hs hq
  have hgrows := p.infer_grows none levels
  rw [run_bind] at hq ⊢
  rw [run_bind]
  obtain ⟨hq₁, hq₂⟩ := hq.split (run_extends hgrows plan) (run_extends hgrows _)
  have hfirst := h g s s' hs hq₁
  rw [← hfirst.answer]
  exact hk _ hfirst.wellFormed g _ _ hfirst.abreast hq₂

/-- Work on a member. -/
lemma within {key : Key} {next next' : Option Ty → Plan} (hkey : key.IsMember)
    (hbody : Follows p p' levels plan plan')
    (hnone : Follows p p' levels (next none) (next' none))
    (hsome : ∀ t : Ty, t.WellFormed → Follows p p' levels (next (some t)) (next' (some t))) :
    Follows p p' levels (.within key plan next) (.within key plan' next') := by
  intro g s s' hs hq
  cases hk : g.enter? key with
  | none =>
    rw [run_within_of_mem _ _ _ hk] at hq ⊢
    rw [run_within_of_mem _ _ _ hk]
    exact hnone g s s' hs hq
  | some g' =>
    obtain ⟨hq₁, hq₂⟩ := quiet_within (p.infer_grows none levels) hk hq
    have hstart : Abreast g' s s' := ⟨hs.inOrder.enter_member hk hkey, hs.wellFormed, hs.same⟩
    have hwork := hbody g' s s' hstart hq₁
    have hend : Abreast g _ _ :=
      ⟨hwork.abreast.inOrder.leave hk, hwork.abreast.wellFormed, hwork.abreast.same⟩
    rw [run_within_of_enter _ _ _ hk, run_within_of_enter _ _ _ hk, ← hwork.answer]
    exact hsome _ hwork.wellFormed g _ _ hend hq₂

/-- A plan that stays the same. -/
lemma self (hask : ∀ e slot, Follows p p' levels (.ofExpr e slot) (.ofExpr e slot))
    (hmembers : plan.OnlyMembers) (hplan : plan.Preserves Ty.WellFormed) :
    Follows p p' levels plan plan := by
  induction plan with
  | answer t => exact .answer hplan
  | ask e slot next ih => exact (hask e slot).bind fun t ht => ih t (hmembers.2 t) (hplan t ht)
  | within key body next ihb ihn =>
    refine within hmembers.1 (ihb hmembers.2.1 hplan.1) (ihn none (hmembers.2.2 _) hplan.2.1) ?_
    exact fun t ht => ihn (some t) (hmembers.2.2 _) (hplan.2.2 t ht)
  | consult name next ih => exact (ih hmembers hplan).consult name
  | lookUpModule found next ih => exact (ih hmembers hplan).lookUpModule found

section Lists

variable {α : Type} {l l' : List α} {f f' : α → Plan}
  (hf : ∀ a ∈ l, Follows p p' levels (f a) (f' a))
include hf

lemma collect {k k' : List Ty → Plan}
    (hk : ∀ ts : List Ty, (∀ t ∈ ts, t.WellFormed) → Follows p p' levels (k ts) (k' ts)) :
    Follows p p' levels (.collect (l.map f) k) (.collect (l.map f') k') := by
  induction l generalizing k k' with
  | nil => exact hk [] (by simp)
  | cons a l ih =>
    obtain ⟨ha, hl⟩ := List.forall_mem_cons.1 hf
    refine ha.bind fun t ht => ih hl fun ts hts => ?_
    exact hk (t :: ts) (List.forall_mem_cons.2 ⟨ht, hts⟩)

lemma join : Follows p p' levels (.join (l.map f)) (.join (l.map f')) :=
  collect hf fun _ hts => .answer (Ty.closed_wellFormed.joinAll hts)

lemma runAll_wellFormed {g : Guard} {s s' : Progress} (hs : Abreast g s s')
    (hq : Quiet s (runAll (p.infer none levels) none g (l.map f) s).2) :
    ∀ t ∈ (runAll (p.infer none levels) none g (l.map f) s).1, t.WellFormed := by
  have hgrows := p.infer_grows none levels
  induction l generalizing s s' with
  | nil => simp [runAll]
  | cons a l ih =>
    obtain ⟨ha, hl⟩ := List.forall_mem_cons.1 hf
    obtain ⟨hq₁, hq₂⟩ := hq.split (run_extends hgrows (f a)) (runAll_extends hgrows (l.map f))
    have hfirst := ha g s s' hs hq₁
    exact List.forall_mem_cons.2 ⟨hfirst.wellFormed, ih hl hfirst.abreast hq₂⟩

/-- A join with further occurrences of its plans follows the join without them. -/
lemma join_of_repeated (hmembers : ∀ a ∈ l, (f a).OnlyMembers) (h : Repeated l l') :
    Follows p p' levels (.join (l.map f)) (.join (l'.map f')) := by
  obtain ⟨copies, hsub, rfl⟩ := h
  intro g s s' hs hq
  -- already in the first program, the further occurrences would change nothing
  have hrepeat : Alike ((Plan.join (l.map f)).run (p.infer none levels) none g s)
      ((Plan.join ((l ++ copies).map f)).run (p.infer none levels) none g s) := by
    rw [List.map_append]
    refine run_join_append_copies (fun plan hplan => ?_) (List.map_subset f hsub) hs.inOrder
      (fun t ht => ?_) hq
    · obtain ⟨a, ha, rfl⟩ := List.mem_map.1 hplan
      exact hmembers a ha
    · rw [run_join] at hq
      exact (runAll_wellFormed hf hs hq t ht).canonical
  have hlong : Follows p p' levels (.join ((l ++ copies).map f)) (.join ((l ++ copies).map f')) :=
    join fun a ha => hf a ((List.mem_append.1 ha).elim id fun h => hsub h)
  have hrun := hlong g s s' hs (hrepeat.2.truncations.symm.trans hq)
  exact ⟨hrepeat.1.trans hrun.answer, hrepeat.1 ▸ hrun.wellFormed, hrun.abreast.of_same hrepeat.2⟩

end Lists

end Follows

/-! ## The rules -/

section Rules

open Plan

variable {levels : Nat} (h : p.Repeats p')
include h

lemma Repeats.declarationType (d : Declaration) : p'.declarationType d = p.declarationType d := by
  simp only [Program.declarationType, assignedType, functionType, parametersOf, h.annotations]

lemma Repeats.ownBindingType (d : Declaration) : p'.ownBindingType d = p.ownBindingType d := by
  rw [Program.ownBindingType, Program.ownBindingType, h.declarationType]

lemma Repeats.annotationAt? (e : Expr) (target : Option Declaration) :
    p'.annotationAt? e target = p.annotationAt? e target := by
  simp only [Program.annotationAt?, h.annotations]

lemma Repeats.returnType (body : FunctionBody) (slot : Nat) :
    p'.returnType body slot = p.returnType body slot := by
  simp only [Program.returnType, h.annotations]

lemma Repeats.constructed? (callee : Expr) : p'.constructed? callee = p.constructed? callee := by
  simp only [Program.constructed?, isConstructor_congr h.constructors h.options]

lemma Repeats.requiredType (source : String) (file : FileId) :
    p'.requiredType source file = p.requiredType source file := by
  simp only [Program.requiredType, h.modules]

/-- Callees mean the same function bodies: a repeat is never the first with a body. -/
lemma Repeats.withBody (callee : Expr) (next : Option FunctionBody → Plan) :
    p'.withBody callee next = p.withBody callee next := by
  have hnames := h.names
  have hcandidates := h.names.candidates callee
  unfold Program.withBody
  revert hnames hcandidates
  generalize p.names = n, p'.names = n'
  intro hnames hcandidates
  cases hnames with
  | bodyOnly body => rfl
  | @bound b b' hr ht hg =>
    have hbody : b'.functionBody? callee = b.functionBody? callee := by
      rw [Bindings.functionBody?, Bindings.functionBody?]
      exact if_congr Iff.rfl (hcandidates.findSome?_eq _) rfl
    simp only [hbody]

/-- A call goes the same way in both programs. -/
lemma Repeats.callType (e callee : Expr) (slot : Nat) :
    p'.callType e callee slot = p.callType e callee slot := by
  simp only [Program.callType, applicationType, h.requiredType, h.withBody, h.returnType,
    h.constructed?, h.options]

variable (hp : ∀ t ∈ p.declaredTypes, t.WellFormed)
  (hask : ∀ e slot, Follows p p' levels (.ofExpr e slot) (.ofExpr e slot))
include hp hask

lemma fieldType_follows (c : ClassTy) (field : String) :
    Follows p p' levels (p.fieldType c field) (p'.fieldType c field) := by
  have hmembers : ∀ d ∈ p.members.declarationsOf c field, (p.declarationType d).OnlyMembers := by
    intro d hd
    exact onlyMembers_of_holds p (declarationType_holds (mem_declarations_of_member hd))
  refine .join_of_repeated (fun d hd => ?_) hmembers (h.members c field)
  rw [h.declarationType]
  exact .self hask (hmembers d hd)
    (declarationType_preserves Ty.closed_wellFormed (supplies_wellFormed [] hp) d)

lemma bindingType_follows {d : Declaration} (hd : d ∈ p.declarations) :
    Follows p p' levels (p.bindingType d) (p'.bindingType d) := by
  have hmembers : (p.bindingType d).OnlyMembers := onlyMembers_of_holds p (bindingType_holds hd)
  have hpreserves := bindingType_preserves Ty.closed_wellFormed (supplies_wellFormed [] hp) hd
  unfold bindingType at hmembers hpreserves ⊢
  rw [h.ownBindingType]
  cases hm : d.ofModule with
  | none =>
    simp only [hm] at hmembers hpreserves ⊢
    exact .self hask hmembers hpreserves
  | some m =>
    simp only [hm] at hmembers hpreserves ⊢
    have hown : Follows p p' levels (p.ownBindingType d) (p.ownBindingType d) :=
      .self hask (hmembers.2.2 none) hpreserves.2.1
    refine .within ⟨d.id, rfl⟩ (fieldType_follows h hp hask _ _) hown fun t ht => ?_
    dsimp only
    split
    · exact hown
    · exact .answer ht

lemma nameType_follows (e : Expr) (x : String) :
    Follows p p' levels (p.nameType e x) (p'.nameType e x) := by
  refine .consult x (.bind (.join_of_repeated (fun d hd => ?_) (fun d hd => ?_)
    (h.names.candidates e)) fun t ht => ?_)
  · exact bindingType_follows h hp hask (mem_declarations_of_candidate hd)
  · exact onlyMembers_of_holds p (bindingType_holds (mem_declarations_of_candidate hd))
  · split
    · simp only [unboundType, h.names.target?, h.names.isGlobal]
      split
      next d hd =>
        have hmem := mem_declarations_of_target hd
        refine (bindingType_follows h hp hask hmem).bind fun u hu => ?_
        exact .answer ((ht.join hu).withGlobal _ x)
      next => exact .answer (ht.withGlobal _ x)
    · exact .answer ht

lemma fieldOf_follows (object : Ty) (field : String) {t : Ty} (ht : t.WellFormed) :
    Follows p p' levels (p.fieldOf object field t) (p'.fieldOf object field t) :=
  .collect (fun c _ => fieldType_follows h hp hask c field) fun _ hts =>
    .answer (Ty.closed_wellFormed.foldl_join ht hts)

lemma memberType_follows (e object : Expr) (key : IndexKey) (o : Option Ty) :
    Follows p p' levels (p.memberType e object key o) (p'.memberType e object key o) := by
  simp only [memberType, h.names.target?, h.annotationAt?]
  cases hann : p.annotationAt? e (p.names.target? e) with
  | some t => exact .answer (annotationAt?_preserves (supplies_wellFormed [] hp) hann)
  | none =>
    refine .bind ?_ fun t ht => ?_
    · cases hv : (p.names.target? e).bind Declaration.value with
      | none => exact .answer .unknown
      | some v =>
        obtain ⟨d, hd, hdv⟩ := Option.bind_eq_some_iff.1 hv
        refine .self hask (onlyMembers_of_holds p ?_) ?_
        · exact joinTo_confined (valueAt_holds (mem_declarations_of_target hd) hdv)
        · exact joinTo_preserves Ty.closed_wellFormed .unknown
            (valueAt_preserves Ty.closed_wellFormed _ _)
    · split
      · exact .answer ht
      · exact fieldOf_follows h hp hask _ _ ht
      · exact (hask object 0).bind fun o _ => fieldOf_follows h hp hask o _ ht

lemma indexType_follows (e object : Expr) (key : IndexKey) :
    Follows p p' levels (p.indexType e object key) (p'.indexType e object key) := by
  unfold indexType
  split
  · refine (hask object 0).bind fun o ho => ?_
    split
    next t ht => exact .answer (Ty.closed_wellFormed.arrayElement ho ht)
    next =>
      split
      next base ps hps => exact .answer (Ty.closed_wellFormed.genericArgument ho hps 1)
      next => exact memberType_follows h hp hask e object key (some o)
  · exact memberType_follows h hp hask e object key none

/-- Names and index expressions look at lists with repeats; all other plans are the same. -/
lemma plan_follows (e : Expr) (slot : Nat) :
    Follows p p' levels (p.plan e slot) (p'.plan e slot) := by
  have hself : Follows p p' levels (p.plan e slot) (p.plan e slot) :=
    .self hask (p.plan_members e slot) (plan_preserves_wellFormed hp e slot)
  cases e with
  | name id x => exact nameType_follows h hp hask _ x
  | index id object key => exact indexType_follows h hp hask _ object key
  | call id callee arguments =>
    have hcall : p'.plan (.call id callee arguments) slot =
        p.plan (.call id callee arguments) slot := h.callType _ _ _
    rwa [hcall]
  | closure id body =>
    have hclosure : p'.plan (.closure id body) slot = p.plan (.closure id body) slot := by
      simp only [plan, functionType, parametersOf, h.annotations]
    rwa [hclosure]
  | paren id inner => cases inner <;> exact hself
  | _ => exact hself

end Rules

/-! ## Queries -/

section Queries

variable (h : p.Repeats p') (hp : ∀ t ∈ p.declaredTypes, t.WellFormed) {levels : Nat} {g : Guard}
  {e : Expr} {slot : Nat} {s s' : Progress}
include h hp

omit h hp in
lemma infer_alike_of_memo (hs : Abreast g s s') {t : Ty}
    (hm : s.memo.find? (.value e.id slot) = some t) :
    Alike (p.infer none levels g e slot s) (p'.infer none levels g e slot s') := by
  have hc := hs.inOrder.running
  rw [p.infer_of_memo_patient none hc levels hm,
    p'.infer_of_memo_patient none (hs.same.patience ▸ hc) levels (hs.same.memo ▸ hm)]
  exact ⟨rfl, hs.same⟩

lemma attempt_alike (hask : ∀ e slot, Follows p p' levels (.ofExpr e slot) (.ofExpr e slot))
    (hs : Abreast g s s') (hm : s.memo.find? (.value e.id slot) = none)
    (hq : Quiet s (p.attempt none (p.infer none levels) g e slot s).2) :
    Alike (p.attempt none (p.infer none levels) g e slot s)
      (p'.attempt none (p'.infer none levels) g e slot s') := by
  have hplan := plan_follows h hp hask e slot
  cases hg : e.isGuarded with
  | false =>
    rw [p.attempt_of_unguarded _ _ hg] at hq ⊢
    rw [p'.attempt_of_unguarded _ _ hg]
    have hrun := hplan g s s' hs hq
    exact ⟨hrun.answer, hrun.abreast.same⟩
  | true =>
    cases hk : g.enter? (.value e.id slot) with
    | none =>
      rw [p.attempt_of_mem _ _ hg hk, p'.attempt_of_mem _ _ hg hk]
      exact ⟨rfl, hs.same.record _ _⟩
    | some g' =>
      rw [p.attempt_of_enter _ _ hg hk] at hq ⊢
      rw [p'.attempt_of_enter _ _ hg hk]
      have hrun := hplan g' s s' ⟨hs.inOrder.enter hk hm, hs.wellFormed, hs.same⟩ hq
      exact ⟨hrun.answer, hrun.abreast.same⟩

omit h in
lemma ofExpr_follows
    (halike : ∀ g e slot s s', Abreast g s s' → Quiet s (p.infer none levels g e slot s).2 →
      Alike (p.infer none levels g e slot s) (p'.infer none levels g e slot s'))
    (e : Expr) (slot : Nat) : Follows p p' levels (.ofExpr e slot) (.ofExpr e slot) := by
  intro g s s' hs hq
  obtain ⟨ht, hsame⟩ := halike g e slot s s' hs hq
  have hall := infer_wellFormed hp none levels g e slot hs.wellFormed
  exact ⟨ht, hall.1, hs.inOrder.infer p levels e slot, hall.2, hsame⟩

/-- A question that has a quiet run in the first program has the same answer in the second one. -/
theorem infer_alike (hs : Abreast g s s') (hq : Quiet s (p.infer none levels g e slot s).2) :
    Alike (p.infer none levels g e slot s) (p'.infer none levels g e slot s') := by
  induction levels generalizing g e slot s s' with
  | zero =>
    cases hm : s.memo.find? (.value e.id slot) with
    | some t => exact infer_alike_of_memo hs hm
    | none => exact absurd hq (p.not_quiet_infer_zero (cancelled_of_patient hs.inOrder.running) hm)
  | succ levels ih =>
    cases hm : s.memo.find? (.value e.id slot) with
    | some t => exact infer_alike_of_memo hs hm
    | none =>
      have hc := hs.inOrder.running
      have hc' : s'.patience = none := hs.same.patience ▸ hc
      have hm' : s'.memo.find? (.value e.id slot) = none := hs.same.memo ▸ hm
      rw [p.infer_succ_patient none hc levels hm] at hq ⊢
      rw [Quiet, settle_truncations] at hq
      have hask := ofExpr_follows hp fun g e slot s s' => ih
      obtain ⟨ht, hend⟩ := attempt_alike h hp hask (hs.record .expression) hm hq
      rw [p'.infer_succ_patient none hc' levels hm', ht, hs.same.truncations]
      exact ⟨rfl, settle_same hend⟩

end Queries

/-- If a query records no depth hit, then registering again what is registered does not change the
type that it finds, and does not lead to a depth hit either. -/
theorem typeOf_of_reregistered (p p' : Program) (e : Expr)
    (hp : ∀ t ∈ p.declaredTypes, t.WellFormed) (h : p.Reregistered p')
    (hdepth : (p.typeOf e).2.depthHits = 0) :
    (p'.typeOf e).2.depthHits = 0 ∧ (p'.typeOf e).1 = (p.typeOf e).1 := by
  have hstart : Abreast ∅ (Progress.record ∅ .query) (Progress.record ∅ .query) := by
    refine ⟨⟨rfl, fun _ _ => rfl, fun _ _ => rfl⟩, ?_, rfl, rfl, rfl⟩
    rintro k t ⟨⟩
  have hq := p.depthHits_typeOf_eq_zero.1 hdepth
  obtain ⟨ht, hend⟩ := infer_alike h.repeats hp hstart hq
  rw [depthHits_typeOf_eq_zero, typeOf_eq, typeOf_eq, h.repeats.options]
  exact ⟨hend.truncations.symm.trans hq, ht.symm⟩

/-- The constructor of a table with a number in its field `x`. -/
def startTable : Expr := .table ⟨0, 2⟩ [.named ⟨0, 0⟩ "x" (.literal ⟨0, 1⟩ .number)]

/-- The global `g`, which is read from the field `x` of the table. -/
def readBack : Declaration :=
  { Declaration.localName ⟨0, 6⟩ "g" with
    kind := .globalName
    value := some ⟨[.index ⟨0, 5⟩ (.name ⟨0, 4⟩ "t") (.field "x")], 0⟩ }

/-- The field `x` of the table, to which `g` is assigned. -/
def writtenBack : Declaration := .field ⟨0, 8⟩ "x" (.name ⟨0, 7⟩ "g")

/-- `local t = { x = 1 }; g = t.x; t.x = g`. -/
def feedback : Program :=
  let t : Declaration :=
    { Declaration.localName ⟨0, 3⟩ "t" with value := some ⟨[startTable], 0⟩ }
  let b : Bindings := { (∅ : Bindings) with references := ⟨[(⟨0, 4⟩, t)]⟩ }
  { ofReferences [] with
    names := .bound (b.declareGlobal readBack)
    members := ((∅ : Members).addTable startTable).2.add (.table ⟨0, 2⟩) writtenBack
    options := {} }

/-- The same program, where everything but the local variable is registered twice. -/
def feedbackTwice : Program :=
  { feedback with
    names :=
      match feedback.names with
      | .bound b => .bound (b.declareGlobal readBack)
      | n => n
    members := (feedback.members.addTable startTable).2.add (.table ⟨0, 2⟩) writtenBack }

/-- The global and the field depend on each other, and the two queries end in different states; but
they find the same type. -/
theorem feedbackTwice_typeOf :
    let e := Expr.name ⟨0, 9⟩ "g"
    feedback.Reregistered feedbackTwice ∧ (feedback.typeOf e).2.depthHits = 0 ∧
      (feedback.typeOf e).1 = .union [.number, .global "g"] ∧
      (feedback.typeOf e).2 ≠ (feedbackTwice.typeOf e).2 ∧
      (feedbackTwice.typeOf e).2.depthHits = 0 ∧
      (feedbackTwice.typeOf e).1 = (feedback.typeOf e).1 := by
  intro e
  have hagain : feedback.Reregistered feedbackTwice := by
    refine ((Reregistered.refl.addTable startTable ?_).addMember (.table ⟨0, 2⟩) writtenBack
      ?_).declareGlobal rfl readBack ?_
    · intro d hd
      rw [List.mem_singleton.1 hd]
      exact List.mem_cons_self
    · exact List.mem_cons_of_mem _ List.mem_cons_self
    · exact List.mem_cons_self
  have hdepth : (feedback.typeOf e).2.depthHits = 0 := by decide
  have hdeclared : ∀ t ∈ feedback.declaredTypes, t.WellFormed := by
    intro t ht
    cases ht
  exact ⟨hagain, hdepth, by decide, by decide,
    typeOf_of_reregistered feedback feedbackTwice e hdeclared hagain hdepth⟩

end Program

end TypeQuery
