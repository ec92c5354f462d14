import Mathlib.Logic.Relation
import TypeQuery.Proofs.Preserved

/-!
# Where inferred types come from

A query invents no types.  A class, an array or a generic type that stands anywhere in an answer,
also deep inside the signature of a function, was written down somewhere in the program, in an
annotation or as what a module is declared to export.  There are two exceptions, and both are read
off the program as well: the class of a table, which belongs to the constructor of that table, and
the open record of a global, which has the name of the global.  `Program.ClassOrigin` lists these
cases.  The type `invalid` is a mark that only annotations and exports can bear.

`Ty.Occurs` says where a type stands, and `Program.Grounded` that everything in a type is accounted
for.  Being grounded is a property in the sense of `TypeQuery.Proofs.Preserved`: a join brings in
nothing but a union around the choices of its operands (`Ty.occurs_join`), and taking a type apart
only leads to what stands inside it.  The main result is `Program.typeOf_origins`.
-/

namespace TypeQuery

/-! ## Types inside types -/

namespace Ty

/-- The types directly inside a type. -/
def parts : Ty → List Ty
  | .object c => c.params.getD []
  | .array element => [element]
  | .generic _ params => params
  | .function signatures => signatures.flatMap fun s => s.params.map Parameter.ty ++ s.returns
  | .union members => members
  | .unknown | .invalid | .nil | .boolean | .number | .string => []

/-- The first type is the second, or stands somewhere inside it. -/
def Occurs (u t : Ty) : Prop := Relation.ReflTransGen (fun a b => a ∈ b.parts) u t

lemma Occurs.refl (t : Ty) : t.Occurs t := Relation.ReflTransGen.refl

lemma Occurs.of_part {u m t : Ty} (h : u.Occurs m) (hm : m ∈ t.parts) : u.Occurs t :=
  Relation.ReflTransGen.tail h hm

lemma occurs_iff {u t : Ty} : u.Occurs t ↔ u = t ∨ ∃ m ∈ t.parts, u.Occurs m := by
  rw [Occurs, Relation.ReflTransGen.cases_tail_iff]
  constructor
  · rintro (rfl | ⟨m, h, hm⟩)
    · exact .inl rfl
    · exact .inr ⟨m, hm, h⟩
  · rintro (rfl | ⟨m, hm, h⟩)
    · exact .inl rfl
    · exact .inr ⟨m, h, hm⟩

lemma Occurs.eq_of_parts {u t : Ty} (h : u.Occurs t) (ht : t.parts = []) : u = t := by
  rcases occurs_iff.1 h with rfl | ⟨m, hm, -⟩
  · rfl
  · rw [ht] at hm
    cases hm

/-- The choices of a type stand in it. -/
lemma Occurs.of_member {u m t : Ty} (h : u.Occurs m) (hm : m ∈ t.members) : u.Occurs t := by
  cases t with
  | union ms => exact h.of_part hm
  | _ => rwa [List.mem_singleton.1 hm] at h

lemma occurs_ofMembers {u : Ty} {ms : List Ty} (h : u.Occurs (ofMembers ms)) :
    u = .unknown ∨ (∃ us, u = .union us) ∨ ∃ m ∈ ms, u.Occurs m := by
  match ms with
  | [] => exact .inl (h.eq_of_parts rfl)
  | [m] => exact .inr (.inr ⟨m, List.mem_cons_self, h⟩)
  | _ :: _ :: _ =>
    rcases occurs_iff.1 h with rfl | hparts
    · exact .inr (.inl ⟨_, rfl⟩)
    · exact .inr (.inr hparts)

/-- What stands in a join stands in one of its operands, but for the join itself where it is a new
union or carries no information. -/
lemma occurs_join {u a b : Ty} (h : u.Occurs (a.join b)) :
    u = .unknown ∨ (∃ us, u = .union us) ∨ u.Occurs a ∨ u.Occurs b := by
  unfold join at h
  split at h
  · split at h
    · split at h
      next hboth =>
        rw [← hboth.1] at h
        exact .inr (.inr (.inl h))
      next => exact .inl (h.eq_of_parts rfl)
    · exact .inr (.inr (.inr h))
  split at h
  · exact .inr (.inr (.inl h))
  split at h
  · exact .inr (.inr (.inl h))
  · rcases occurs_ofMembers h with hu | hu | ⟨m, hm, hum⟩
    · exact .inl hu
    · exact .inr (.inl hu)
    · have hmem : m ∈ a.members ++ b.members := ((arrange_spec _).2 m).1 hm
      rcases List.mem_append.1 hmem with hma | hmb
      · exact .inr (.inr (.inl (hum.of_member hma)))
      · exact .inr (.inr (.inr (hum.of_member hmb)))

end Ty

/-! ## What is accounted for -/

namespace Program

variable (p : Program) (es : List Expr)

/-- The type stands in an annotation, or in what a module is declared to export. -/
def Declares (u : Ty) : Prop := ∃ t ∈ p.declaredTypes, u.Occurs t

/-- Where a class in an inferred type can come from: it is written down; or it is the class of a
table constructor, or the open record of a name or of a declared global. -/
inductive ClassOrigin : ClassTy → Prop
  | declared {c : ClassTy} (h : p.Declares (.object c)) : ClassOrigin c
  | table {id : NodeId} {fields : List TableField} (h : .table id fields ∈ p.nodes es) :
    ClassOrigin (.table id)
  | name {id : NodeId} {x : String} (h : .name id x ∈ p.nodes es) : ClassOrigin (.global x)
  | globalName {d : Declaration} (hd : d ∈ p.declarations) (hk : d.kind = .globalName) :
    ClassOrigin (.global d.name)

/-- The program accounts for the type, apart from what stands inside it. -/
def Accounts : Ty → Prop
  | .object c => p.ClassOrigin es c
  | .array element => p.Declares (.array element)
  | .generic base params => p.Declares (.generic base params)
  | .invalid => p.Declares .invalid
  | .unknown | .nil | .boolean | .number | .string | .function _ | .union _ => True

/-- The program accounts for everything in the type. -/
def Grounded (t : Ty) : Prop := ∀ u : Ty, u.Occurs t → p.Accounts es u

variable {p es} {t u : Ty}

lemma Accounts.of_declares (h : p.Declares u) : p.Accounts es u := by
  cases u with
  | object c => exact .declared h
  | array _ => exact h
  | generic _ _ => exact h
  | invalid => exact h
  | _ => trivial

lemma Grounded.of_part {m : Ty} (h : p.Grounded es t) (hm : m ∈ t.parts) : p.Grounded es m :=
  fun u hu => h u (hu.of_part hm)

lemma grounded_of_parts (ht : p.Accounts es t) (hparts : ∀ m ∈ t.parts, p.Grounded es m) :
    p.Grounded es t := by
  intro u hu
  rcases Ty.occurs_iff.1 hu with rfl | ⟨m, hm, hum⟩
  · exact ht
  · exact hparts m hm u hum

/-- A type with nothing inside is grounded if it is accounted for. -/
lemma grounded_of_parts_eq (ht : p.Accounts es t) (hparts : t.parts = []) : p.Grounded es t := by
  refine grounded_of_parts ht fun m hm => ?_
  rw [hparts] at hm
  cases hm

lemma closed_grounded : Ty.Closed (p.Grounded es) where
  unknown := grounded_of_parts_eq trivial rfl
  nil := grounded_of_parts_eq trivial rfl
  boolean := grounded_of_parts_eq trivial rfl
  number := grounded_of_parts_eq trivial rfl
  string := grounded_of_parts_eq trivial rfl
  join {a b} ha hb := by
    intro u hu
    rcases Ty.occurs_join hu with rfl | ⟨us, rfl⟩ | hua | hub
    · trivial
    · trivial
    · exact ha u hua
    · exact hb u hub
  function {ps rs} hps hrs := by
    refine grounded_of_parts trivial fun m hm => ?_
    obtain ⟨s, hs, hms⟩ := List.mem_flatMap.1 hm
    obtain rfl := List.mem_singleton.1 hs
    rcases List.mem_append.1 hms with hms | hms
    · obtain ⟨q, hq, rfl⟩ := List.mem_map.1 hms
      exact hps q hq
    · exact hrs m hms
  member h hm := fun u hu => h u (hu.of_member hm)
  element h := h.of_part List.mem_cons_self
  argument h ht := h.of_part ht
  returned h hs ht := h.of_part (List.mem_flatMap.2 ⟨_, hs, List.mem_append_right _ ht⟩)

/-- What a program brings in is grounded. -/
lemma supplies_grounded : p.Supplies es (p.Grounded es) where
  declared t ht := fun _ hu => .of_declares ⟨t, ht, hu⟩
  table h := grounded_of_parts_eq (.table h) rfl
  global h := grounded_of_parts_eq (.name h) rfl
  globalName _ hd hk := grounded_of_parts_eq (.globalName hd hk) rfl

/-- Whatever depth limit is in force, each class in the type that a query finds is written down in
the program or belongs to one of its tables or globals, and each array, each generic type and each
`invalid` in it is written down in the program. -/
theorem typeOf_origins (p : Program) (e : Expr) :
    (∀ c, (Ty.object c).Occurs (p.typeOf e).1 → p.ClassOrigin [e] c) ∧
      (∀ t, (Ty.array t).Occurs (p.typeOf e).1 → p.Declares (.array t)) ∧
      (∀ base ps, (Ty.generic base ps).Occurs (p.typeOf e).1 → p.Declares (.generic base ps)) ∧
      (Ty.invalid.Occurs (p.typeOf e).1 → p.Declares .invalid) := by
  have he : e ∈ p.nodes [e] := mem_nodes_of_mem List.mem_cons_self
  have hstart : (Progress.record ∅ .query).MemoAll (p.Grounded [e]) := by
    intro k t ht
    cases ht
  have hall : AllHave (p.Grounded [e])
      (p.infer none p.options.maxDepth ∅ e 0 (Progress.record ∅ .query)) :=
    infer_preserves closed_grounded supplies_grounded _ _ he hstart
  have hground : p.Grounded [e] (p.typeOf e).1 := hall.1
  exact ⟨fun c h => hground _ h, fun t h => hground _ h, fun base ps h => hground _ h,
    fun h => hground _ h⟩

end Program

end TypeQuery
