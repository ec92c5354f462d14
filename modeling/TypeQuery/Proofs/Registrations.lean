import Mathlib.Data.List.Basic
import TypeQuery.Proofs.Nodes

/-!
# What the members of a class are

Members are registered one by one, or all at once for the fields of a table constructor.  A
registration says to which class a declaration belongs, and the index files it under the key of that
class and then under the name of the field.  `Members.additions` says for each registration which
declarations it adds, and to which class.  What the index finds is exactly what was added, in that
order, under the same key and the same name (`Members.registered_eq`, `Members.declarationsOf_addAll`).

A key is a text, so two classes could share one.  The key of a global record starts with `$` and that
of a table with `table@`, and what follows tells the global or the table: the name, or the id of the
constructor, written as two numbers with a colon between them (`NodeId.text_injective`).  So classes
of tables and globals, and declared classes whose names start with neither of the two, are kept apart
(`ClassTy.Separate.eq_of_memberKey_eq`).
-/

namespace TypeQuery

/-! ## Keys -/

namespace NodeId

lemma colon_notMem_toDigits (n : Nat) : ':' ∉ Nat.toDigits 10 n := by
  intro h
  have hdigit := Nat.isDigit_of_mem_toDigits (by decide) (by decide) h
  revert hdigit
  decide

lemma toList_text (n : NodeId) :
    n.text.toList = Nat.toDigits 10 n.file ++ ':' :: Nat.toDigits 10 n.index := by
  simp [text, String.toList_append]

/-- Ids are told apart by how they are written. -/
theorem text_injective {a b : NodeId} (h : a.text = b.text) : a = b := by
  have hlist := congrArg String.toList h
  rw [toList_text, toList_text,
    List.append_cons_inj_of_notMem (colon_notMem_toDigits _) (colon_notMem_toDigits _)] at hlist
  obtain ⟨hfile, -, hindex⟩ := hlist
  have hnumber : ∀ {m n : Nat}, Nat.toDigits 10 m = Nat.toDigits 10 n → m = n := by
    intro m n hd
    rw [← Nat.ofDigitChars_ten_toDigits (n := m), hd, Nat.ofDigitChars_ten_toDigits]
  cases a
  cases b
  rw [NodeId.mk.injEq]
  exact ⟨hnumber hfile, hnumber hindex⟩

end NodeId

namespace ClassTy

/-- A class of a table or of a global, or a declared class whose name could be the key of neither. -/
inductive Separate : ClassTy → Prop
  | table (site : NodeId) : Separate (.table site)
  | global (name : String) : Separate (.global name)
  | declared {name : String} (notGlobal : name.startsWith "$" = false)
      (notTable : name.startsWith "table@" = false) : Separate (.declared name)

/-- A name without a mark at its start is not one that the mark was put in front of. -/
lemma ne_append_of_startsWith {name mark : String} (h : name.startsWith mark = false)
    (rest : String) : name ≠ mark ++ rest := by
  rintro rfl
  have hstart : (mark ++ rest).startsWith mark = true := by
    rw [String.startsWith_string_iff, String.toList_append]
    exact List.prefix_append _ _
  rw [hstart] at h
  cases h

lemma global_key_ne_table_key (name : String) (site : NodeId) :
    "$" ++ name ≠ "table@" ++ site.text := by
  intro h
  have hlist := congrArg String.toList h
  rw [String.toList_append, String.toList_append] at hlist
  exact absurd (List.cons.inj hlist).1 (by decide)

/-- Separate classes share a key only if they are the same class. -/
lemma Separate.eq_of_memberKey_eq {c c' : ClassTy} (hc : c.Separate) (hc' : c'.Separate)
    (h : c.memberKey = c'.memberKey) : c = c' := by
  cases hc with
  | table site =>
    cases hc' with
    | table site' => rw [NodeId.text_injective ((String.append_right_inj _).1 h)]
    | global name => exact absurd h.symm (global_key_ne_table_key name site)
    | declared _ notTable => exact absurd h.symm (ne_append_of_startsWith notTable _)
  | global name =>
    cases hc' with
    | table site => exact absurd h (global_key_ne_table_key name site)
    | global name' => exact congrArg ClassTy.global ((String.append_right_inj _).1 h)
    | declared notGlobal _ => exact absurd h.symm (ne_append_of_startsWith notGlobal _)
  | declared notGlobal notTable =>
    cases hc' with
    | table site => exact absurd h (ne_append_of_startsWith notTable _)
    | global name => exact absurd h (ne_append_of_startsWith notGlobal _)
    | declared _ _ => exact congrArg ClassTy.declared h

end ClassTy

namespace Members

/-! ## Registrations -/

/-- Something that a client registers. -/
inductive Registration where
  | member (c : ClassTy) (d : Declaration)
  | table (e : Expr)

/-- The members after a registration. -/
def register (m : Members) : Registration → Members
  | .member c d => m.add c d
  | .table e => (m.addTable e).2

/-- The members after a list of registrations, starting without any. -/
def registered (log : List Registration) : Members := log.foldl register ∅

/-- The declaration of a field with a name, written as such or as a string in brackets.  Any other
field makes none. -/
def labelled : TableField → List Declaration
  | .named id name value | .keyed id (.literal _ (.string name)) value =>
    [{ id, name, kind := .field, span := value.span, value := some ⟨[value], 0⟩ }]
  | _ => []

/-- What a registration adds: declarations, each with the class that it is added to. -/
def additions : Registration → List (ClassTy × Declaration)
  | .member c d => [(c, d)]
  | .table (.table id fields) => (fields.flatMap labelled).map (.table id, ·)
  | .table _ => []

lemma toList_declarationOfField (f : TableField) :
    (declarationOfField f).toList = labelled f := by
  match f with
  | .named .. | .positional .. => rfl
  | .keyed id key value =>
    match key with
    | .literal _ (.string _) => rfl
    | .literal _ .nil | .literal _ .boolean | .literal _ .number | .literal _ .varargs => rfl
    | .unary .. | .binary .. | .call .. | .closure .. | .table .. | .paren .. | .name ..
    | .index .. => rfl

/-- A table constructor makes a declaration for each of its fields with a name. -/
lemma additions_table (e : Expr) :
    additions (.table e) = (declarationsOfTable e).map (.table e.id, ·) := by
  cases e with
  | table id fields =>
    have hfields : fields.flatMap labelled = fields.filterMap declarationOfField := by
      rw [List.filterMap_eq_flatMap_toList]
      exact List.flatMap_congr fun f _ => (toList_declarationOfField f).symm
    exact congrArg (List.map _) hfields
  | _ => rfl

/-- A registration adds its additions, one after the other. -/
lemma register_eq (m : Members) (r : Registration) : m.register r = m.addAll (additions r) := by
  cases r with
  | member c d => rfl
  | table e =>
    rw [additions_table, addAll, List.foldl_map]
    rfl

/-- Registrations add all their additions, one after the other. -/
theorem registered_eq (log : List Registration) :
    registered log = (∅ : Members).addAll (log.flatMap additions) := by
  have hrun : ∀ m : Members, log.foldl register m = m.addAll (log.flatMap additions) := by
    induction log with
    | nil => exact fun _ => rfl
    | cons r log ih =>
      intro m
      rw [List.foldl_cons, ih, register_eq, List.flatMap_cons, addAll, addAll, addAll,
        List.foldl_append]
  exact hrun ∅

/-- The declarations of a field of a class are those that were added under its name, in that order, to
classes with the same key.  A table constructor adds one declaration to the class of its table for
each of its fields with a name, and tells how many; any other expression adds none.  Separate
classes share a key only if they are the same class; so each of them has the members that it would
have if nothing had been added to the other. -/
theorem declarationsOf_registered (log : List Registration) :
    (∀ c field, (registered log).declarationsOf c field =
      ((log.flatMap additions).filter
        fun r => r.1.memberKey = c.memberKey ∧ r.2.name = field).map Prod.snd) ∧
    (∀ (m : Members) e, (m.addTable e).1 = (additions (.table e)).length) ∧
    (∀ c c' : ClassTy, c.Separate → c'.Separate → c.memberKey = c'.memberKey → c = c') ∧
    (∀ c c' : ClassTy, c.Separate → c'.Separate → c ≠ c' → ∀ field,
      (registered log).declarationsOf c field =
        ((∅ : Members).addAll ((log.flatMap additions).filter (·.1 ≠ c'))).declarationsOf c field) := by
  refine ⟨fun c field => ?_, fun m e => ?_, fun c c' => ClassTy.Separate.eq_of_memberKey_eq, ?_⟩
  · rw [registered_eq, declarationsOf_addAll]
    rfl
  · rw [additions_table, List.length_map]
    rfl
  · intro c c' hc hc' hne field
    rw [registered_eq, declarationsOf_addAll, declarationsOf_addAll, List.filter_filter]
    refine congrArg (_ ++ List.map _ ·) (List.filter_congr fun r _ => ?_)
    by_cases hr : r.1 = c'
    · have hkey : r.1.memberKey ≠ c.memberKey :=
        fun h => hne (hc.eq_of_memberKey_eq hc' (hr ▸ h.symm))
      simp [hkey]
    · simp [hr]

/-- The constructor `{x = 1, ["y"] = 2, 3}`, and a global and a declared class of one name, with a
further declaration of `x` for each of the three. -/
def threeClasses : List Registration :=
  let number (i : Nat) : Expr := .literal ⟨0, i⟩ .number
  let added (i : Nat) : Declaration := .field ⟨0, i⟩ "x" (number (i + 1))
  [.member (.global "T") (added 10),
    .table (.table ⟨0, 6⟩ [.named ⟨0, 1⟩ "x" (number 0),
      .keyed ⟨0, 2⟩ (.literal ⟨0, 3⟩ (.string "y")) (number 4), .positional (number 5)]),
    .member (.declared "T") (added 12), .member (.table ⟨0, 6⟩) (added 14)]

/-- Of the four declarations of `x` each class has its own, and what was added to the global `T` makes
no difference to the declared class `T`. -/
theorem threeClasses_declarationsOf :
    let found (c : ClassTy) := (registered threeClasses).declarationsOf c "x"
    (ClassTy.declared "T").Separate ∧ (ClassTy.global "T").Separate ∧
      ClassTy.declared "T" ≠ .global "T" ∧
      (found (.table ⟨0, 6⟩)).map Declaration.id = [⟨0, 1⟩, ⟨0, 14⟩] ∧
      (found (.global "T")).map Declaration.id = [⟨0, 10⟩] ∧
      found (.declared "T") = ((∅ : Members).addAll
        ((threeClasses.flatMap additions).filter (·.1 ≠ .global "T"))).declarationsOf
          (.declared "T") "x" := by
  intro found
  have hdeclared : (ClassTy.declared "T").Separate := .declared (by simp) (by simp)
  have hne : ClassTy.declared "T" ≠ .global "T" := by decide
  obtain ⟨hexact, -, -, hapart⟩ := declarationsOf_registered threeClasses
  refine ⟨hdeclared, .global _, hne, ?_, ?_, hapart _ _ hdeclared (.global _) hne _⟩
  · rw [show found (.table ⟨0, 6⟩) = _ from hexact _ _]
    decide
  · rw [show found (.global "T") = _ from hexact _ _]
    decide

end Members

end TypeQuery
