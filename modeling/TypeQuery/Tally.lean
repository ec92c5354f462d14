/-!
# Tallies

Counts of the events of inference, for reports on how much work queries do.  The hit rate is the
share of module look-ups that found their module, as a binary64 number; without look-ups it is one.

The report shows the hit rate as a percentage with one decimal.  `Float` arithmetic gives the rate;
the decimal is then taken from the exact value of that number, with a tie going to the even digit.
-/

namespace TypeQuery

/-- Something that happens during inference. -/
inductive Event where
  /-- A query starts. -/
  | query
  /-- An expression is worked on. -/
  | expression
  /-- A node is met again while it is being worked on. -/
  | guardHit
  /-- An expression lies too deep. -/
  | depthHit
  /-- A query ends without an answer because it was cancelled. -/
  | cancellation
  /-- A module is looked up, and found or not. -/
  | resolution (found : Bool)
deriving DecidableEq, Repr

/-- How often each event happened. -/
structure Tally where
  queries : Nat := 0
  expressions : Nat := 0
  guardHits : Nat := 0
  depthHits : Nat := 0
  cancellations : Nat := 0
  resolutions : Nat := 0
  failures : Nat := 0
deriving DecidableEq, Repr

namespace Tally

instance : EmptyCollection Tally := ⟨{}⟩

/-- Counts an event. -/
def record (t : Tally) : Event → Tally
  | .query => { t with queries := t.queries + 1 }
  | .expression => { t with expressions := t.expressions + 1 }
  | .guardHit => { t with guardHits := t.guardHits + 1 }
  | .depthHit => { t with depthHits := t.depthHits + 1 }
  | .cancellation => { t with cancellations := t.cancellations + 1 }
  | .resolution true => { t with resolutions := t.resolutions + 1 }
  | .resolution false => { t with resolutions := t.resolutions + 1, failures := t.failures + 1 }

/-- Counts an event `n` times. -/
def recordTimes (t : Tally) (n : Nat) (e : Event) : Tally := n.repeat (·.record e) t

/-- The events of two stretches of work together. -/
def add (a b : Tally) : Tally where
  queries := a.queries + b.queries
  expressions := a.expressions + b.expressions
  guardHits := a.guardHits + b.guardHits
  depthHits := a.depthHits + b.depthHits
  cancellations := a.cancellations + b.cancellations
  resolutions := a.resolutions + b.resolutions
  failures := a.failures + b.failures

instance : Add Tally := ⟨add⟩

/-- The share of module look-ups that found their module; one if there were none. -/
def hitRate (t : Tally) : Float :=
  if t.resolutions = 0 then 1.0
  else Float.ofNat (t.resolutions - t.failures) / Float.ofNat t.resolutions

/-! ## The report -/

/-- The quotient rounded to the nearest whole number, a tie to the even one. -/
def divNearest (num den : Nat) : Nat :=
  let q := num / den
  let twice := 2 * (num % den)
  if twice < den then q
  else if den < twice then q + 1
  else if q % 2 = 0 then q else q + 1

/-- A finite number that is not negative, in tenths, rounded from its exact value. -/
def tenths (x : Float) : Nat :=
  let bits := x.toBits.toNat
  let fraction := bits % Nat.pow 2 52
  let exponent := bits / Nat.pow 2 52 % Nat.pow 2 11
  let significand := if exponent = 0 then fraction else Nat.pow 2 52 + fraction
  let shift := max exponent 1
  if 1075 ≤ shift then significand * 10 * Nat.pow 2 (shift - 1075)
  else divNearest (significand * 10) (Nat.pow 2 (1075 - shift))

/-- A number of tenths with a decimal point. -/
def tenthsText (n : Nat) : String := toString (n / 10) ++ "." ++ toString (n % 10)

/-- The report on a tally. -/
def report (t : Tally) : String :=
  String.intercalate "\n"
    ["=== Inference Metrics ===",
      "Queries: " ++ toString t.queries,
      "Expressions Inferred: " ++ toString t.expressions,
      "Recursion Guard Hits: " ++ toString t.guardHits,
      "Depth Limit Hits: " ++ toString t.depthHits,
      "Cancelled Queries: " ++ toString t.cancellations,
      "Module Resolutions: " ++ toString t.resolutions ++
        " (hit rate: " ++ tenthsText (tenths (t.hitRate * 100.0)) ++ "%)"]

end Tally

end TypeQuery
