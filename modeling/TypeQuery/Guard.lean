import TypeQuery.Node

/-!
# The recursion guard

Work on a node can lead back to that node: a variable may be assigned from itself, two modules may
require each other.  The guard holds the keys of the work in progress and refuses to start work
under a key that is already there.

A key is a node together with the position of the value that is asked for, since asking for the
second result of a call is different work from asking for the first.  Looking up a declaration among
the members of a module has keys of its own.

Inside a query, entering is scoped: the work runs under the larger guard, and afterwards the smaller
one is in force again.  A `Ledger` serves callers that enter and leave in an order of their own; it
hands out a numbered token for every attempt, and a token that was granted can be given back once.
-/

namespace TypeQuery

/-- A piece of work. -/
inductive Key where
  /-- The value at position `slot` of the expression at `node`. -/
  | value (node : NodeId) (slot : Nat)
  /-- The declaration at `node`, among the members of its module. -/
  | member (node : NodeId)
deriving DecidableEq, Repr

/-- The keys of the work in progress, the latest first. -/
structure Guard where
  inFlight : List Key
deriving DecidableEq, Repr

namespace Guard

instance : EmptyCollection Guard := ⟨⟨[]⟩⟩

instance : Membership Key Guard := ⟨fun g k => k ∈ g.inFlight⟩

instance (k : Key) (g : Guard) : Decidable (k ∈ g) :=
  decidable_of_iff (g.inFlight.any (· = k)) (by simp [Membership.mem])

/-- Starts work under `k`, unless it is in progress already. -/
def enter? (g : Guard) (k : Key) : Option Guard :=
  if k ∈ g then none else some ⟨k :: g.inFlight⟩

/-- Ends the work under `k`. -/
def release (g : Guard) (k : Key) : Guard := ⟨g.inFlight.erase k⟩

/-- The number of keys in progress. -/
def size (g : Guard) : Nat := g.inFlight.length

/-- No work is in progress. -/
def isEmpty (g : Guard) : Bool := g.inFlight.isEmpty

/-- Enters the keys one inside the other, up to the first that is refused.  For each level: whether
it was entered, and the number of keys in progress there. -/
def nest (g : Guard) : List Key → List (Bool × Nat)
  | [] => []
  | k :: ks =>
    match g.enter? k with
    | none => [(false, g.size)]
    | some g' => (true, g'.size) :: g'.nest ks

theorem mem_def {k : Key} {g : Guard} : k ∈ g ↔ k ∈ g.inFlight := Iff.rfl

/-- Leaving undoes entering. -/
theorem release_enter? {g g' : Guard} {k : Key} (h : g.enter? k = some g') : g'.release k = g := by
  unfold enter? at h
  split at h
  · cases h
  · cases h
    simp [release]

end Guard

/-- A guard together with the tokens for it, by number.  A token that was refused, or given back,
stands for no key. -/
structure Ledger where
  guard : Guard
  tokens : List (Option Key)
deriving Repr

namespace Ledger

instance : EmptyCollection Ledger := ⟨⟨∅, []⟩⟩

/-- Tries to enter `k` and takes the next token for it; the first part of the result says whether it
was entered. -/
def enter (l : Ledger) (k : Key) : Bool × Ledger :=
  match l.guard.enter? k with
  | some g => (true, ⟨g, l.tokens ++ [some k]⟩)
  | none => (false, ⟨l.guard, l.tokens ++ [none]⟩)

/-- Gives token `n` back; the first part of the result says whether it stood for a key. -/
def drop (l : Ledger) (n : Nat) : Bool × Ledger :=
  match l.tokens[n]? with
  | some (some k) => (true, ⟨l.guard.release k, l.tokens.set n none⟩)
  | _ => (false, l)

end Ledger

end TypeQuery
