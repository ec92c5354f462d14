/-!
# Places in a program

Every expression, declaration, parameter, table field and function body of a program is a *node*
with an id of its own: the file that holds it and a number that is unique in that file.  Ids are
what the side tables of a program (references, annotations, assignment targets) are keyed by, and
what a query uses to recognise a node that it is already working on.

A span is where a node stands in its file.  Inference never reads it; it travels with
declarations so that a client can show where a name comes from.
-/

namespace TypeQuery

/-- A file of a program, by number. -/
abbrev FileId := Nat

/-- The identity of a node: its file, and its number in that file. -/
structure NodeId where
  file : FileId
  index : Nat
deriving DecidableEq, Repr, Inhabited

namespace NodeId

/-- Ids are ordered by file, then by number. -/
def cmp (a b : NodeId) : Ordering :=
  (compare a.file b.file).then (compare a.index b.index)

/-- An id is written `file:index`. -/
def text (n : NodeId) : String :=
  toString n.file ++ ":" ++ toString n.index

theorem cmp_eq_iff {a b : NodeId} : a.cmp b = .eq ↔ a = b := by
  cases a; cases b
  simp [cmp, Ordering.then_eq_eq]

end NodeId

/-- A stretch of a file: first and last character offset, and the line and column of the first. -/
structure Span where
  start : Nat
  stop : Nat
  line : Nat
  column : Nat
deriving DecidableEq, Repr, Inhabited

/-- The span of something that stands nowhere. -/
def Span.none : Span := ⟨0, 0, 0, 0⟩

end TypeQuery
