import TypeQuery.Proofs.Lattice
import TypeQuery.Proofs.Levels
import TypeQuery.Proofs.Trail
import TypeQuery.Proofs.Walks

/-!
# Globals stay open

Any file may add fields to a global.  So the type of a name that stands for a global always has the
open record of that global among its choices, next to whatever the declarations of the global say.
There are two places where the record comes from.  Each declaration of a global adds it to its own
type; and if the declarations say nothing, because there are none, the name itself adds it.

`Plan.Ensures` is about a plan alone: whatever the answers to its questions are, the answer that it
gives has a property.  The plan of such a name ensures the open record (`Program.nameType_ensures`),
so it does not matter how a query cuts its questions short, or on which cycle they lie.  The only
answer without the record is the `unknown` of a query that comes back to the name while it is being
worked on, that lies too deep or that is cancelled.  None of these is kept: an answer is kept only if
an attempt has found it under a guard without the key of the name (`Program.course_steps`).  So every
answer in the memo has the record, at every point of every query (`Program.globals_stay_open`).

What a name stands for is read off bindings that a walk over the program has made, starting with
none (`Bindings.walk`).  Such bindings list each declaration of a global under its own name, and as
the declaration of a global.
-/

namespace TypeQuery

/-! ## Names that stand for a global -/

namespace Bindings

/-- The declarations of each global have its name, and are declarations of a global. -/
def Filed (b : Bindings) : Prop := ∀ x, ∀ d ∈ b.globalsOf x, d.name = x ∧ d.kind = .globalName

lemma filed_walk (actions : List Action) : (walk actions).Filed := by
  intro x d hd
  rw [globalsOf_walk] at hd
  obtain ⟨a, -, ha⟩ := List.mem_filterMap.1 hd
  cases a with
  | declareGlobal d' =>
    rw [Action.globalOf?, Option.ite_none_right_eq_some] at ha
    obtain ⟨hname, hd'⟩ := ha
    obtain rfl := Option.some.inj hd'
    exact ⟨hname, rfl⟩
  | _ => cases ha

/-- The name node stands for a global, none of whose declarations belongs to a module. -/
structure OpenGlobal (b : Bindings) (id : NodeId) (x : String) : Prop where
  unbound : b.references.find? id = none
  noModule : ∀ d ∈ b.candidates (.name id x), d.ofModule = none

namespace OpenGlobal

variable {b : Bindings} {id : NodeId} {x : String} (h : b.OpenGlobal id x)
include h

lemma candidates_eq : b.candidates (.name id x) = b.globalsOf x :=
  candidates_of_unbound x h.unbound

lemma isGlobal : b.isGlobal (.name id x) = true := (b.isGlobal_name id x).2 h.unbound

end OpenGlobal

end Bindings

/-! ## What a plan ensures -/

namespace Plan

/-- Whatever the answers to the questions of the plan are, the answer that it gives satisfies `P`. -/
def Ensures (P : Ty → Prop) : Plan → Prop
  | .answer t => P t
  | .ask _ _ next => ∀ t, (next t).Ensures P
  | .within _ _ next => ∀ r, (next r).Ensures P
  | .consult _ next => next.Ensures P
  | .lookUpModule _ next => next.Ensures P

variable {P Q : Ty → Prop}

lemma ensures_true (plan : Plan) : plan.Ensures fun _ => True := by
  induction plan with
  | answer t => trivial
  | ask e slot next ih => exact ih
  | within key body next _ ih => exact ih
  | consult name next ih => exact ih
  | lookUpModule found next ih => exact ih

lemma Ensures.bind {plan : Plan} (h : plan.Ensures Q) {k : Ty → Plan}
    (hk : ∀ t, Q t → (k t).Ensures P) : (plan.bind k).Ensures P := by
  induction plan with
  | answer t => exact hk t h
  | ask e slot next ih => exact fun t => ih t (h t)
  | within key body next _ ih => exact fun r => ih r (h r)
  | consult name next ih => exact ih h
  | lookUpModule found next ih => exact ih h

lemma collect_ensures {plans : List Plan} (h : ∀ plan ∈ plans, plan.Ensures Q)
    {k : List Ty → Plan} (hk : ∀ ts, (∀ t ∈ ts, Q t) → (k ts).Ensures P) :
    (collect plans k).Ensures P := by
  induction plans generalizing k with
  | nil => exact hk [] fun _ ht => absurd ht List.not_mem_nil
  | cons plan plans ih =>
    obtain ⟨hplan, hplans⟩ := List.forall_mem_cons.1 h
    refine hplan.bind fun t ht => ih hplans fun ts hts => ?_
    exact hk _ (List.forall_mem_cons.2 ⟨ht, hts⟩)

lemma Ensures.run {plan : Plan} (h : plan.Ensures P) (infer : Infer) (cancelOn : Option String)
    (g : Guard) (s : Progress) : P (plan.run infer cancelOn g s).1 := by
  induction plan generalizing g s with
  | answer t => exact h
  | ask e slot next ih => exact ih _ (h _) g _
  | within key body next _ ih =>
    cases hk : g.enter? key with
    | none =>
      rw [run_within_of_mem _ _ _ hk]
      exact ih none (h none) g s
    | some g' =>
      rw [run_within_of_enter _ _ _ hk]
      exact ih _ (h _) g _
  | consult name next ih => exact ih h g _
  | lookUpModule found next ih => exact ih h g _

end Plan

/-! ## The plan of a global -/

namespace Program

open Plan

variable {p : Program} {b : Bindings} {id : NodeId} {x : String}

/-- The declaration of a global adds the open record. -/
lemma bindingType_ensures {d : Declaration} (hkind : d.kind = .globalName)
    (hmodule : d.ofModule = none) :
    (p.bindingType d).Ensures fun t => .global d.name ∈ t.members := by
  rw [bindingType, hmodule]
  show (p.ownBindingType d).Ensures _
  rw [ownBindingType, if_pos hkind]
  exact (ensures_true _).bind fun t _ => Ty.mem_members_join rfl (.inr List.mem_cons_self)

/-- What is known from the declarations of a global has its open record, or is nothing. -/
lemma join_candidates_ensures (hp : p.names = .bound b) (hb : b.Filed) (h : b.OpenGlobal id x) :
    (Plan.join ((p.names.candidates (.name id x)).map p.bindingType)).Ensures
      fun t => t.isInvalid = true ∨ .global x ∈ t.members := by
  have hcandidates : ∀ plan ∈ (p.names.candidates (.name id x)).map p.bindingType,
      plan.Ensures fun t => .global x ∈ t.members := by
    intro plan hplan
    obtain ⟨d, hd, rfl⟩ := List.mem_map.1 hplan
    rw [hp] at hd
    change d ∈ b.candidates (.name id x) at hd
    have hmodule := h.noModule d hd
    rw [h.candidates_eq] at hd
    obtain ⟨rfl, hkind⟩ := hb x d hd
    exact bindingType_ensures hkind hmodule
  refine collect_ensures hcandidates fun ts hts => ?_
  cases ts with
  | nil => exact .inl rfl
  | cons t ts =>
    refine .inr (Ty.mem_members_foldl_join rfl (.inr ⟨t, List.mem_cons_self, ?_⟩))
    exact hts t List.mem_cons_self

/-- The type of a name that stands for a global has the open record, whatever the answers to its
questions are. -/
lemma nameType_ensures (hp : p.names = .bound b) (hb : b.Filed) (h : b.OpenGlobal id x) :
    (p.nameType (.name id x) x).Ensures fun t => .global x ∈ t.members := by
  have hglobal : p.names.isGlobal (.name id x) = true := by
    rw [hp]
    exact h.isGlobal
  have hrecord : ∀ t : Ty, .global x ∈ (t.join (.global x)).members :=
    fun t => Ty.mem_members_join rfl (.inr List.mem_cons_self)
  refine (join_candidates_ensures hp hb h).bind fun t ht => ?_
  split
  next =>
    -- the declarations say nothing, and the name adds the record itself
    simp only [unboundType, hglobal, if_true]
    split
    · exact (ensures_true _).bind fun t' _ => hrecord _
    · exact hrecord t
  next hvalid => exact ht.resolve_left hvalid

/-- An attempt on a name that stands for a global finds the open record, unless the name is being
worked on. -/
lemma attempt_global (hp : p.names = .bound b) (hb : b.Filed) (h : b.OpenGlobal id x)
    (cancelOn : Option String) (infer : Infer) {g : Guard} {slot : Nat}
    (hg : .value id slot ∉ g) (s : Progress) :
    .global x ∈ (p.attempt cancelOn infer g (.name id x) slot s).1.members := by
  have henter : g.enter? (.value id slot) = some ⟨.value id slot :: g.inFlight⟩ := if_neg hg
  rw [p.attempt_of_enter cancelOn infer rfl henter]
  exact (nameType_ensures hp hb h).run infer cancelOn _ s

/-! ## Queries -/

/-- Every answer in the memo for a name node that stands for a global has the open record. -/
def KeepsOpen (p : Program) (b : Bindings) (es : List Expr) (memo : Catalog Key Ty) : Prop :=
  ∀ id x slot t, .name id x ∈ p.nodes es → b.OpenGlobal id x →
    memo.find? (.value id slot) = some t → t.contains (.global x) = true

/-- What a query keeps for a name node that stands for a global has the open record. -/
lemma contains_global_of_keep (hp : p.names = .bound b) (hb : b.Filed) (h : b.OpenGlobal id x)
    {es : List Expr} (hd : Distinct (p.nodes es)) (hname : .name id x ∈ p.nodes es)
    {cancelOn : Option String} {slot : Nat} {t : Ty}
    (hstep : p.StepOf cancelOn (fun e _ => e ∈ p.nodes es) (.keep (.value id slot) t)) :
    t.contains (.global x) = true := by
  obtain ⟨e, infer, g, s, he, hid, hg, rfl⟩ := hstep.of_keep
  -- no other node has the id of the name
  obtain rfl : e = .name id x := hd e he _ hname hid
  rw [Ty.contains_iff_mem_members rfl]
  exact attempt_global hp hb h cancelOn infer hg s

/-- Steps keep the open records. -/
lemma KeepsOpen.follow (hp : p.names = .bound b) (hb : b.Filed) {es : List Expr}
    (hd : Distinct (p.nodes es)) {cancelOn : Option String} {steps : List Step}
    (hsteps : ∀ st ∈ steps, p.StepOf cancelOn (fun e _ => e ∈ p.nodes es) st) {tr : Trail}
    (hmemo : p.KeepsOpen b es tr.memo) : p.KeepsOpen b es (tr.follow steps).memo := by
  intro id x slot t hname h hfind
  rcases Trail.memo_follow hfind with hbefore | hkept
  · exact hmemo id x slot t hname h hbefore
  · exact contains_global_of_keep hp hb h hd hname (hsteps _ hkept)

/-- The open record of a global is a choice of the type of every name that stands for it, with at
least one level of depth, and of every answer for such a name that is in the memo of a query: at
every point of the query, in whatever state it starts, and when it has ended. -/
theorem globals_stay_open (p : Program) (actions : List Bindings.Action)
    (hp : p.names = .bound (.walk actions)) :
    (∀ id x, (Bindings.walk actions).OpenGlobal id x → 1 ≤ p.options.maxDepth →
      (p.typeOf (.name id x)).1.contains (.global x) = true) ∧
    ∀ es, Distinct (p.nodes es) → ∀ e ∈ p.nodes es, ∀ cancelOn levels g slot s,
      p.KeepsOpen (.walk actions) es s.memo →
        p.KeepsOpen (.walk actions) es (p.infer cancelOn levels g e slot s).2.memo ∧
        ∀ steps, steps <+: p.course cancelOn levels g e slot s →
          p.KeepsOpen (.walk actions) es ((⟨g, s.memo⟩ : Trail).follow steps).memo := by
  have hfiled := Bindings.filed_walk actions
  refine ⟨fun id x h hdepth => ?_, fun es hd e he cancelOn levels g slot s hmemo => ?_⟩
  · obtain ⟨levels, hlevels⟩ : ∃ levels, p.options.maxDepth = levels + 1 :=
      ⟨p.options.maxDepth - 1, by omega⟩
    have hquery : p.infer none (levels + 1) ∅ (.name id x) 0 (Progress.record ∅ .query) = _ :=
      p.infer_succ_patient none rfl levels rfl
    rw [typeOf_eq, hlevels, hquery, Ty.contains_iff_mem_members rfl]
    exact attempt_global hp hfiled h none _ List.not_mem_nil _
  · have hsteps : ∀ st ∈ p.course cancelOn levels g e slot s,
        p.StepOf cancelOn (fun e _ => e ∈ p.nodes es) st :=
      course_steps (fun _ slot he => plan_confined_nodes he slot) levels g s he
    have hprefix : ∀ steps, steps <+: p.course cancelOn levels g e slot s →
        p.KeepsOpen (.walk actions) es ((⟨g, s.memo⟩ : Trail).follow steps).memo :=
      fun steps hpre => KeepsOpen.follow hp hfiled hd (fun st hst => hsteps st (hpre.subset hst)) hmemo
    refine ⟨?_, hprefix⟩
    have hend := hprefix _ List.prefix_rfl
    rwa [p.infer_follow cancelOn levels g e slot s] at hend

/-- The walk over `x = x or 1`, which declares a global from itself. -/
def selfGlobalWalk : List Bindings.Action :=
  let value : Expr := .binary ⟨0, 2⟩ .or (.name ⟨0, 0⟩ "x") (some (.literal ⟨0, 1⟩ .number))
  [.declareGlobal { Declaration.localName ⟨0, 3⟩ "x" with value := some ⟨[value], 0⟩ }]

def selfGlobal : Program := { ofReferences [] with names := .bound (.walk selfGlobalWalk) }

/-- A use of `x` after that finds its record, with a single level as well as with many.  The query
keeps an answer for the `x` inside the value too, although the work on it comes back to it. -/
theorem selfGlobal_stays_open :
    let x : Expr := .name ⟨0, 4⟩ "x"
    let memo := (selfGlobal.infer none 9 ∅ x 0 ∅).2.memo
    (Bindings.walk selfGlobalWalk).OpenGlobal ⟨0, 4⟩ "x" ∧
      ((selfGlobal.withDepth 1).typeOf x).1.contains (.global "x") = true ∧
      (selfGlobal.typeOf x).1.contains (.global "x") = true ∧ Distinct (selfGlobal.nodes [x]) ∧
      (memo.find? (.value ⟨0, 0⟩ 0)).isSome = true ∧
      selfGlobal.KeepsOpen (.walk selfGlobalWalk) [x] memo := by
  intro x memo
  have hopen : (Bindings.walk selfGlobalWalk).OpenGlobal ⟨0, 4⟩ "x" := by
    refine ⟨rfl, fun d hd => ?_⟩
    obtain rfl := List.mem_singleton.1 hd
    rfl
  have hdistinct : Distinct (selfGlobal.nodes [x]) := .of_nodup (by decide)
  obtain ⟨htype, hmemo⟩ := globals_stay_open selfGlobal selfGlobalWalk rfl
  obtain ⟨hshallow, -⟩ := globals_stay_open (selfGlobal.withDepth 1) selfGlobalWalk rfl
  refine ⟨hopen, hshallow _ _ hopen (by decide), htype _ _ hopen (by decide), hdistinct,
    by decide, ?_⟩
  exact (hmemo [x] hdistinct x (mem_nodes_of_mem List.mem_cons_self) none 9 ∅ 0 ∅
    fun _ _ _ _ _ _ h => nomatch h).1

end Program

end TypeQuery
