import TypeQuery.Tally
import TypeQuery.Typing

/-!
# Queries

A query finds the type of one expression by carrying out its plan, and the plans of the expressions
that it asks for, and so on.  Four things keep this in bounds:

* the *guard*: an expression whose work is in progress is not worked on again; asking for it there
  gives `unknown`;
* the *depth limit*: an expression that lies deeper than the limit is not worked on either, and the
  query takes a note that its answer may be cut short (a truncation);
* the *memo*: an answer that no truncation, no work in progress under the same key and no
  cancellation has touched is kept for the rest of the query;
* *cancellation*: once a query finds itself cancelled, every further expression is `unknown`.

A caller may cancel a query at any moment, and from another thread.  The query looks for it at every
expression that it is asked for, before it keeps an answer, and once more at its end.  Since a
cancellation is never taken back, all that the moment decides is how many of these looks find
nothing: the *patience* of the query.

What only holds inside a piece of work (the guard, and the levels that are left to the depth limit)
is passed down; what adds up over the query (memo, truncations, patience, counts) is its
`Progress`, which is handed from step to step.
-/

namespace TypeQuery

/-- What adds up over a query. -/
structure Progress where
  memo : Catalog Key Ty
  truncations : Nat
  /-- How many more looks find that the query is not cancelled.  Without a number, all of them do. -/
  patience : Option Nat
  work : Tally

namespace Progress

instance : EmptyCollection Progress := ⟨⟨∅, 0, none, ∅⟩⟩

/-- Counts an event. -/
def record (s : Progress) (e : Event) : Progress := { s with work := s.work.record e }

/-- Notes that an expression was too deep. -/
def truncate (s : Progress) : Progress :=
  { s with truncations := s.truncations + 1, work := s.work.record .depthHit }

/-- Keeps an answer for the rest of the query. -/
def memoize (s : Progress) (k : Key) (t : Ty) : Progress := { s with memo := s.memo.insert k t }

/-- The next look finds the query cancelled. -/
def cancelled (s : Progress) : Bool := s.patience = some 0

/-- Looks whether the query is cancelled, and takes note of it if it is not. -/
def look (s : Progress) : Progress := { s with patience := s.patience.map (· - 1) }

/-- Cancels the query. -/
def cancel (s : Progress) : Progress := { s with patience := some 0 }

/-- Cancels the query if the name that is looked up is the one that the caller waits for. -/
def consult (s : Progress) (cancelOn : Option String) (name : String) : Progress :=
  if cancelOn = some name then s.cancel else s

end Progress

/-- A way to answer for an expression at a slot, under a guard. -/
abbrev Infer := Guard → Expr → Nat → Progress → Ty × Progress

/-- Carries out a plan.  `infer` answers for the expressions that the plan asks for, and looking up
the name `cancelOn` cancels the query. -/
def Plan.run (infer : Infer) (cancelOn : Option String) (g : Guard) :
    Plan → Progress → Ty × Progress
  | .answer t, s => (t, s)
  | .ask e slot next, s =>
    let (t, s) := infer g e slot s
    (next t).run infer cancelOn g s
  | .within key body next, s =>
    match g.enter? key with
    | none => (next none).run infer cancelOn g s
    | some g' =>
      let (t, s) := body.run infer cancelOn g' s
      (next (some t)).run infer cancelOn g s
  | .consult name next, s => next.run infer cancelOn g (s.consult cancelOn name)
  | .lookUpModule found next, s => next.run infer cancelOn g (s.record (.resolution found))

namespace Program

variable (p : Program) (cancelOn : Option String)

/-- Attempts an expression: carries out its plan, under its key if the work could come back to
it. -/
def attempt (infer : Infer) : Infer := fun g e slot s =>
  if e.isGuarded then
    match g.enter? (.value e.id slot) with
    | none => (.unknown, s.record .guardHit)
    | some g' => (p.plan e slot).run infer cancelOn g' s
  else (p.plan e slot).run infer cancelOn g s

/-- Keeps an answer in the memo, unless it came out under a truncation or a cancellation, or while
work under the same key is in progress.  `before` is the number of truncations at the start. -/
def settle (g : Guard) (k : Key) (before : Nat) (t : Ty) (s : Progress) : Progress :=
  if s.truncations = before ∧ k ∉ g ∧ s.cancelled = false then s.look.memoize k t else s

/-- Answers for an expression at a slot: from the memo, or by working on it.  `deeper` answers for
the expressions one level further down; it is missing where the depth limit is reached. -/
def visit (deeper : Option Infer) : Infer := fun g e slot s =>
  if s.cancelled then (.unknown, s)
  else
    match s.memo.find? (.value e.id slot), deeper with
    | some t, _ => (t, s.look)
    | none, none => (.unknown, s.look.truncate)
    | none, some infer =>
      let (t, s') := p.attempt cancelOn infer g e slot (s.look.record .expression)
      (t, settle g (.value e.id slot) s.truncations t s')

/-- Answers for an expression with this many levels left to the depth limit. -/
def infer : Nat → Guard → Expr → Nat → Progress → Ty × Progress
  | 0, g, e, slot, s => p.visit cancelOn none g e slot s
  | levels + 1, g, e, slot, s => p.visit cancelOn (some (infer levels)) g e slot s

/-- The type of an expression, and the work of finding it. -/
def typeOf (e : Expr) : Ty × Tally :=
  let (t, s) := p.infer none p.options.maxDepth ∅ e 0 (Progress.record ∅ .query)
  (t, s.work)

/-- The type of an expression in a query that may be cancelled: beforehand, from outside at any
time, or by looking up the name `cancelOn`.  A cancelled query answers `unknown`. -/
def typeOfCancellable (patience : Option Nat) (e : Expr) : Ty × Tally :=
  let start : Progress := { (∅ : Progress) with patience }
  let (t, s) := p.infer cancelOn p.options.maxDepth ∅ e 0 (start.record .query)
  if s.cancelled then (.unknown, (s.record .cancellation).work) else (t, s.work)

end Program

/-! ## Queries that stay open -/

/-- A query that stays open between the questions of a caller.  The caller may hold keys of the
guard and levels of depth across questions. -/
structure Query where
  ledger : Ledger
  depth : Nat
  progress : Progress

namespace Query

instance : EmptyCollection Query := ⟨⟨∅, 0, ∅⟩⟩

/-- Carries out a plan as a part of the query. -/
def perform (q : Query) (p : Program) (cancelOn : Option String) (plan : Plan) : Ty × Query :=
  let levels := p.options.maxDepth - q.depth
  let (t, s) := plan.run (p.infer cancelOn levels) cancelOn q.ledger.guard q.progress
  (t, { q with progress := s })

/-- Enters a key for the caller. -/
def hold (q : Query) (k : Key) : Bool × Query :=
  let (entered, l) := q.ledger.enter k
  (entered, { q with ledger := l })

/-- Gives a token of the caller back. -/
def release (q : Query) (n : Nat) : Bool × Query :=
  let (released, l) := q.ledger.drop n
  (released, { q with ledger := l })

/-- Takes a level of depth for the caller, unless `maxDepth` levels are taken already, which counts
as a truncation. -/
def descend (q : Query) (maxDepth : Nat) : Bool × Query :=
  if maxDepth ≤ q.depth then
    (false, { q with progress := { q.progress with truncations := q.progress.truncations + 1 } })
  else (true, { q with depth := q.depth + 1 })

/-- Gives the latest level of depth of the caller back, if there is one. -/
def ascend (q : Query) : Bool × Query :=
  if q.depth = 0 then (false, q) else (true, { q with depth := q.depth - 1 })

/-- Keeps an answer that the caller knows. -/
def memoize (q : Query) (k : Key) (t : Ty) : Query :=
  { q with progress := q.progress.memoize k t }

/-- The answer that is kept under a key. -/
def memoized? (q : Query) (k : Key) : Option Ty := q.progress.memo.find? k

/-- Cancels the query. -/
def cancel (q : Query) : Query := { q with progress := q.progress.cancel }

end Query

end TypeQuery
