import Mathlib.Algebra.BigOperators.Ring.Finset
import Mathlib.Tactic.Ring
import TypeQuery.Proofs.Wrappers

/-!
# Repeated increments of a field

A table `t` with a field `x` that is zero at first, and after it `n` times `t.x = t.x + 1`.  Every
assignment is a declaration of the field, so that reading `t.x` anywhere asks for zero and for the
sums of all assignments, and each of these sums reads `t.x` again.

The first read goes down from sum to sum: in the read of the sum with number `k`, the sums before it
are known already, the sum itself is found in progress, and the next one is entered.  On the way
back all sums are known.  So, with levels to spare, a sum takes five expressions, twice itself and
its read, and once the table that it reads from, and reading the field takes `5 * n + 4`.

Every sum goes two levels down.  Where only four or five levels are left, what is asked for in the
read of a sum is cut short, and the next sum starts again.  But the sum itself is known by then,
since it was found in progress, and is not asked for again.  So, if there are `i` sums after it,
they are cut short `i` times with four levels, and `i * i` times with five, where each of them still
asks for all of them (`Program.takes_sums_four`, `Program.takes_sums_five`).  This gives the exact
work under every limit (`Program.readWork_odd`, `Program.readWork_even`): at most quadratic under odd
limits, and at most cubic under even ones.

What is known is always one of few things, a `Stage`: the sums of the first `k` increments, and the
variables in the first `c` of them.  Every step is a triple from one stage to another.
-/

namespace TypeQuery

open Progress

open Plan

namespace Program

/-! ## The program -/

/-- The number zero in the constructor of the table. -/
def zeroLiteral : Expr := .literal ⟨0, 0⟩ .number

/-- The constructor of the table. -/
def counter : Expr := .table ⟨0, 2⟩ [.named ⟨0, 1⟩ "x" zeroLiteral]

/-- The declaration of the variable that holds the table. -/
def counterDecl : Declaration :=
  { Declaration.localName ⟨0, 3⟩ "t" with value := some ⟨[counter], 0⟩ }

/-- A place where the variable is named. -/
def counterName (j : Nat) : Expr := .name ⟨0, j⟩ "t"

/-- A place where the field is read; `i` and `j` are the indices of the read and of the variable in
it. -/
def readAt (i j : Nat) : Expr := .index ⟨0, i⟩ (counterName j) (.field "x")

/-- The sum that is assigned by the increment with number `k`. -/
def increment (k : Nat) : Expr :=
  .binary ⟨0, 6 * k + 9⟩ .add (readAt (6 * k + 7) (6 * k + 5))
    (some (.literal ⟨0, 6 * k + 8⟩ .number))

/-- The declaration that this increment makes. -/
def incrementDecl (k : Nat) : Declaration := Declaration.field ⟨0, 6 * k + 6⟩ "x" (increment k)

/-- What the names lead to: all of them are the name of the variable. -/
def counterReferences : Nat → List (NodeId × Declaration)
  | 0 => [(⟨0, 4⟩, counterDecl)]
  | n + 1 =>
    (⟨0, 6 * (n + 1) + 4⟩, counterDecl) :: (⟨0, 6 * n + 5⟩, counterDecl) :: counterReferences n

/-- What the first `n` increments assign to. -/
def incrementTargets : Nat → Catalog NodeId Declaration
  | 0 => ∅
  | n + 1 => (incrementTargets n).insert ⟨0, 6 * n + 6⟩ (incrementDecl n)

/-- The members of the table after the first `n` increments. -/
def counterMembers : Nat → Members
  | 0 => ((∅ : Members).addTable counter).2
  | n + 1 => (counterMembers n).add (.table ⟨0, 2⟩) (incrementDecl n)

/-- A table with a field that is incremented `n` times, and then read. -/
def increments (n : Nat) : Program :=
  { ofReferences (counterReferences n) with
    names := .bound { (∅ : Bindings) with
      references := ⟨counterReferences n⟩, targets := incrementTargets n }
    members := counterMembers n
    options := {} }

/-- The last read. -/
def lastRead (n : Nat) : Expr := readAt (6 * n + 5) (6 * n + 4)

/-- The work of the query for the last read after `n` increments, under the depth limit `m`. -/
def readWork (n m : Nat) : Tally := (((increments n).withDepth m).typeOf (lastRead n)).2

/-- The values of the field, in the order of their declarations. -/
def fieldValues (n : Nat) : List Expr := zeroLiteral :: (List.range n).map increment

variable {n m : Nat}

lemma findIn_counterReferences {j : Nat} (hj : 4 ≤ j % 6) (h : j < 6 * n + 5) :
    Catalog.findIn ⟨0, j⟩ (counterReferences n) = some counterDecl := by
  induction n with
  | zero =>
    obtain rfl : j = 4 := by omega
    rfl
  | succ n ih =>
    rw [counterReferences, Catalog.findIn]
    split
    · rfl
    next hlast =>
      rw [Catalog.findIn]
      split
      · rfl
      next hsource =>
        simp only [NodeId.mk.injEq, true_and] at hlast hsource
        exact ih (by omega)

lemma find?_incrementTargets {i : Nat} (h : i % 6 ≠ 0) (n : Nat) :
    (incrementTargets n).find? ⟨0, i⟩ = none := by
  induction n with
  | zero => rfl
  | succ n ih =>
    have hne : (⟨0, 6 * n + 6⟩ : NodeId) ≠ ⟨0, i⟩ := by
      simp only [ne_eq, NodeId.mk.injEq, true_and]
      omega
    rw [incrementTargets, Catalog.find?_insert, if_neg hne]
    exact ih

lemma declarationsOf_counterMembers (n : Nat) :
    (counterMembers n).declarationsOf (.table ⟨0, 2⟩) "x" =
      { Declaration.field ⟨0, 1⟩ "x" zeroLiteral with span := zeroLiteral.span } ::
        (List.range n).map incrementDecl := by
  induction n with
  | zero => exact Members.declarationsOf_add_self ∅ _ _
  | succ n ih =>
    have hadd := (counterMembers n).declarationsOf_add_self (.table ⟨0, 2⟩) (incrementDecl n)
    rw [counterMembers, List.range_succ, List.map_append, ← List.cons_append, ← ih]
    exact hadd

/-! ## The plans -/

section Plans

variable {infer : Infer} {g : Guard} {s s₁ : Progress}

/-- The variable asks for the table, and is known if that is. -/
lemma run_counterName {j : Nat} (hj : 4 ≤ j % 6) (h : j < 6 * n + 5) {t : Ty}
    (ht : t = .unknown ∨ t = .table ⟨0, 2⟩) (hask : infer g counter 0 s = (t, s₁)) :
    ((increments n).plan (counterName j) 0).run infer none g s = (t, s₁) := by
  have hfind : Catalog.findIn ⟨0, j⟩ (counterReferences n) = some counterDecl :=
    findIn_counterReferences hj h
  have hcandidates : (increments n).names.candidates (counterName j) = [counterDecl] :=
    Bindings.candidates_of_find? hfind
  show ((increments n).nameType _ "t").run infer none g s = _
  rw [nameType, hcandidates, run_consult, consult_none]
  show (Plan.ask counter 0 _).run infer none g s = _
  rw [run_ask, hask]
  rcases ht with rfl | rfl
  · -- there is no other declaration to go by
    have hlocal : (increments n).names.isGlobal (counterName j) = false := by
      show (true && !(Catalog.findIn ⟨0, j⟩ (counterReferences n)).isSome) = false
      rw [hfind]
      rfl
    have htarget : (increments n).names.target? (counterName j) = none :=
      find?_incrementTargets (by omega) n
    show ((increments n).unboundType (counterName j) "t" .unknown).run infer none g s₁ = _
    rw [unboundType, hlocal, htarget]
    rfl
  · rfl

lemma fieldType_counter (n : Nat) :
    (increments n).fieldType (.table ⟨0, 2⟩) "x" =
      join ((fieldValues n).map fun e => ofExpr e 0) := by
  have hdecls : (increments n).members.declarationsOf (.table ⟨0, 2⟩) "x" = _ :=
    declarationsOf_counterMembers n
  rw [fieldType, hdecls, fieldValues, List.map_cons, List.map_cons, List.map_map, List.map_map]
  rfl

lemma plan_readAt {i j : Nat} (hi : i % 6 ≠ 0) :
    (increments n).plan (readAt i j) 0 =
      .ask (counterName j) 0 fun o => (increments n).fieldOf o "x" .unknown := by
  have htarget : (increments n).names.target? (readAt i j) = none := find?_incrementTargets hi n
  show (increments n).memberType (readAt i j) (counterName j) (.field "x") none = _
  rw [memberType, htarget]
  rfl

lemma run_join_ofExpr (es : List Expr) (s : Progress) :
    ((join (es.map fun e => ofExpr e 0)).run infer none g s).2 = askAll infer g es s := by
  have hcollect : ∀ k : List Ty → Plan, (∀ ts, ∃ t, k ts = .answer t) →
      ((collect (es.map fun e => ofExpr e 0) k).run infer none g s).2 = askAll infer g es s := by
    induction es generalizing s with
    | nil =>
      intro k hk
      obtain ⟨t, ht⟩ := hk []
      rw [List.map_nil, collect, ht]
      rfl
    | cons e es ih =>
      intro k hk
      exact ih _ _ fun ts => hk _
  exact hcollect _ fun ts => ⟨_, rfl⟩

/-- A read asks for the variable, and then for all values of the field. -/
lemma run_readAt {i j : Nat} (hi : i % 6 ≠ 0)
    (hask : infer g (counterName j) 0 s = (.table ⟨0, 2⟩, s₁)) :
    ∃ t, ((increments n).plan (readAt i j) 0).run infer none g s =
      (t, askAll infer g (fieldValues n) s₁) := by
  have hfield : (increments n).fieldOf (.table ⟨0, 2⟩) "x" .unknown =
      (join ((fieldValues n).map fun e => ofExpr e 0)).bind fun t =>
        .answer ([t].foldl Ty.join .unknown) := by
    rw [← fieldType_counter]
    rfl
  rw [plan_readAt hi, run_ask, hask, hfield, run_bind, ← run_join_ofExpr]
  exact ⟨_, rfl⟩

/-- A read from what is not known asks for nothing more. -/
lemma run_readAt_unknown {i j : Nat} (hi : i % 6 ≠ 0)
    (hask : infer g (counterName j) 0 s = (.unknown, s₁)) :
    ((increments n).plan (readAt i j) 0).run infer none g s = (.unknown, s₁) := by
  rw [plan_readAt hi, run_ask, hask]
  rfl

end Plans

/-! ## Stages -/

/-- The sums from the one with number `k` on. -/
def sumsFrom (n k : Nat) : List Expr := (List.range' k (n - k)).map increment

lemma sumsFrom_self (n : Nat) : sumsFrom n n = [] := by
  rw [sumsFrom, Nat.sub_self]
  rfl

lemma sumsFrom_of_lt {k : Nat} (hk : k < n) :
    sumsFrom n k = increment k :: sumsFrom n (k + 1) := by
  have hlength : n - k = n - (k + 1) + 1 := by omega
  rw [sumsFrom, hlength, List.range'_succ, List.map_cons, sumsFrom]

lemma fieldValues_eq {k : Nat} (hk : k ≤ n) :
    fieldValues n = (zeroLiteral :: (List.range k).map increment) ++ sumsFrom n k := by
  have hrange : List.range n = List.range k ++ List.range' k (n - k) := by
    have happend := List.range'_append_1 (s := 0) (m := k) (n := n - k)
    rwa [Nat.zero_add, Nat.add_sub_cancel' hk, ← List.range_eq_range', ← List.range_eq_range',
      eq_comm] at happend
  rw [fieldValues, hrange, List.map_append, List.cons_append, sumsFrom]

/-- Of the increments, the sums of the first `k` and the names in the first `c` are known, and
nothing about the others is. -/
structure Stage (n k c : Nat) (memo : Catalog Key Ty) : Prop where
  table : memo.find? (.value ⟨0, 2⟩ 0) = some (.table ⟨0, 2⟩)
  zero : ∃ t, memo.find? (.value ⟨0, 0⟩ 0) = some t
  sum : ∀ j < k, ∃ t, memo.find? (.value ⟨0, 6 * j + 9⟩ 0) = some t
  name : ∀ j < c, memo.find? (.value ⟨0, 6 * j + 5⟩ 0) = some (.table ⟨0, 2⟩)
  no_sum : ∀ j < n, k ≤ j → memo.find? (.value ⟨0, 6 * j + 9⟩ 0) = none
  no_read : ∀ j < n, k ≤ j → memo.find? (.value ⟨0, 6 * j + 7⟩ 0) = none
  no_name : ∀ j < n, c ≤ j → memo.find? (.value ⟨0, 6 * j + 5⟩ 0) = none

variable {j k c k' c' : Nat} {memo : Catalog Key Ty}

lemma find?_insert_value (memo : Catalog Key Ty) (i j : Nat) (t : Ty) :
    (memo.insert (.value ⟨0, i⟩ 0) t).find? (.value ⟨0, j⟩ 0) =
      if i = j then some t else memo.find? (.value ⟨0, j⟩ 0) := by
  simp [Catalog.find?_insert]

namespace Stage

/-- An answer that leads from one stage to another. -/
lemma insert (h : Stage n k c memo) {i : Nat} {t : Ty} (hi : 4 ≤ i)
    (hsum : ∀ j < k', k ≤ j → i = 6 * j + 9) (hname : ∀ j < c', c ≤ j → i = 6 * j + 5)
    (ht : i % 6 = 5 → t = .table ⟨0, 2⟩)
    (hk : ∀ j, k' ≤ j → k ≤ j ∧ i ≠ 6 * j + 9 ∧ i ≠ 6 * j + 7)
    (hc : ∀ j, c' ≤ j → c ≤ j ∧ i ≠ 6 * j + 5) :
    Stage n k' c' (memo.insert (.value ⟨0, i⟩ 0) t) := by
  constructor
  all_goals simp only [find?_insert_value]
  · rw [if_neg (by omega)]
    exact h.table
  · rw [if_neg (by omega)]
    exact h.zero
  · intro j hj
    split
    · exact ⟨t, rfl⟩
    next hne => exact h.sum j (Nat.lt_of_not_le fun hle => hne (hsum j hj hle))
  · intro j hj
    split
    next heq => rw [ht (by omega)]
    next hne => exact h.name j (Nat.lt_of_not_le fun hle => hne (hname j hj hle))
  · intro j hj hkj
    rw [if_neg (hk j hkj).2.1]
    exact h.no_sum j hj (hk j hkj).1
  · intro j hj hkj
    rw [if_neg (hk j hkj).2.2]
    exact h.no_read j hj (hk j hkj).1
  · intro j hj hcj
    rw [if_neg (hc j hcj).2]
    exact h.no_name j hj (hc j hcj).1

lemma insert_name (h : Stage n k c memo) :
    Stage n k (c + 1) (memo.insert (.value ⟨0, 6 * c + 5⟩ 0) (.table ⟨0, 2⟩)) := by
  refine h.insert ?_ ?_ ?_ (fun _ => rfl) ?_ ?_ <;> omega

lemma insert_sum (h : Stage n k c memo) (t : Ty) :
    Stage n (k + 1) c (memo.insert (.value ⟨0, 6 * k + 9⟩ 0) t) := by
  refine h.insert ?_ ?_ ?_ ?_ ?_ ?_ <;> omega

/-- Nothing is lost if there is a later answer for the read or for the sum of an increment. -/
lemma insert_again (h : Stage n k c memo) (hj : j < k) (t t' : Ty) :
    Stage n k c ((memo.insert (.value ⟨0, 6 * j + 7⟩ 0) t).insert
      (.value ⟨0, 6 * j + 9⟩ 0) t') := by
  have hread : Stage n k c (memo.insert (.value ⟨0, 6 * j + 7⟩ 0) t) := by
    refine h.insert ?_ ?_ ?_ ?_ ?_ ?_ <;> omega
  refine hread.insert ?_ ?_ ?_ ?_ ?_ ?_ <;> omega

/-- Zero and the first sums are known. -/
lemma known (h : Stage n k c memo) :
    ∀ e ∈ zeroLiteral :: (List.range k).map increment, ∃ t, memo.find? (.value e.id 0) = some t := by
  intro e he
  rcases List.mem_cons.1 he with rfl | he
  · exact h.zero
  · obtain ⟨j, hj, rfl⟩ := List.mem_map.1 he
    exact h.sum j (List.mem_range.1 hj)

end Stage

/-- In progress are at most the last read and reads of the first `k` increments. -/
def Reads (n k : Nat) (g : Guard) : Prop :=
  ∀ key ∈ g, key = .value (lastRead n).id 0 ∨ ∃ j < k, key = .value ⟨0, 6 * j + 7⟩ 0

/-- The guard while the read of an increment is worked on. -/
def inRead (k : Nat) (g : Guard) : Guard := ⟨.value ⟨0, 6 * k + 7⟩ 0 :: g.inFlight⟩

namespace Reads

variable {g : Guard}

lemma mono (h : Reads n k g) (hk : k ≤ k') : Reads n k' g := by
  intro key hmem
  rcases h key hmem with hlast | ⟨j, hj, hread⟩
  · exact .inl hlast
  · exact .inr ⟨j, by omega, hread⟩

lemma inRead (h : Reads n k g) (hk : k ≤ j) : Reads n (j + 1) (inRead j g) := by
  intro key hmem
  rcases List.mem_cons.1 hmem with rfl | hmem
  · exact .inr ⟨j, Nat.lt_succ_self j, rfl⟩
  · exact h.mono (by omega) key hmem

lemma notMem (h : Reads n k g) {i : Nat} (hlast : i ≠ 6 * n + 5)
    (hread : ∀ j < k, i ≠ 6 * j + 7) : .value ⟨0, i⟩ 0 ∉ g := by
  intro hmem
  rcases h _ hmem with heq | ⟨j, hj, heq⟩
  · obtain ⟨hnode, -⟩ := Key.value.inj heq
    exact hlast (congrArg NodeId.index hnode)
  · obtain ⟨hnode, -⟩ := Key.value.inj heq
    exact hread j hj (congrArg NodeId.index hnode)

end Reads

/-! ## Single sums -/

section Sums

variable {g : Guard} {cost cuts : Nat}

/-- The name in an increment, unless it is known. -/
lemma infer_sourceName (levels : Nat) (hg : Reads n k' g) (hj : j < n) (hc : j ≤ c)
    {s : Progress} (hp : s.patience = none) (hs : Stage n k c s.memo) :
    ∃ s₁, (increments n).infer none (levels + 1) g (counterName (6 * j + 5)) 0 s =
        (.table ⟨0, 2⟩, s₁) ∧
      Stage n k (max c (j + 1)) s₁.memo ∧ Spent (max c (j + 1) - c) 0 s s₁ := by
  by_cases hknown : j < c
  · have hmax : max c (j + 1) = c := by omega
    rw [hmax, Nat.sub_self]
    exact ⟨s, (increments n).infer_of_memo_patient none hp _ (hs.name j hknown), hs, .refl s⟩
  · obtain rfl : j = c := by omega
    have hmax : max j (j + 1) = j + 1 := by omega
    have htable := (increments n).infer_of_memo_patient none (s := s.record .expression) hp levels
      (g := ⟨.value (counterName (6 * j + 5)).id 0 :: g.inFlight⟩) (e := counter) hs.table
    obtain ⟨hrun, hspent⟩ := infer_of_enter levels (e := counterName (6 * j + 5)) hp
      (hs.no_name j hj le_rfl) rfl (hg.notMem (by omega) (by omega))
      (run_counterName (by omega) (by omega) (.inr rfl) htable) (.refl _)
    rw [hmax, Nat.add_sub_cancel_left]
    exact ⟨_, hrun, hs.insert_name, hspent⟩

/-- With one level, the read of an increment is cut short. -/
lemma takes_increment_one (hg : Reads n k' g) (hj : j < n) (hk : k ≤ j) :
    Takes (Stage n k c) (Stage n k c) 1 1
      fun s => ((increments n).infer none 1 g (increment j) 0 s).2 := by
  intro s hp hs
  have hread := (increments n).infer_zero_patient none (s := s.record .expression) hp
    (g := g) (e := readAt (6 * j + 7) (6 * j + 5)) (hs.no_read j hj hk)
  obtain ⟨hrun, hspent⟩ := infer_of_unguarded (p := increments n) 0 (e := increment j) hp
    (hs.no_sum j hj hk) rfl (hg.notMem (by omega) (by omega)) hread (.truncate _)
  dsimp only
  rw [hrun]
  exact ⟨hs, hspent⟩

/-- With two levels, the name in the read is cut short, and the read asks for nothing more. -/
lemma takes_increment_two (hg : Reads n k g) (hj : j < n) (hk : k ≤ j) (hc : c ≤ j) :
    Takes (Stage n k c) (Stage n k c) 2 1
      fun s => ((increments n).infer none 2 g (increment j) 0 s).2 := by
  intro s hp hs
  have hname := (increments n).infer_zero_patient none
    (s := (s.record .expression).record .expression) hp (g := inRead j g)
    (e := counterName (6 * j + 5)) (hs.no_name j hj hc)
  obtain ⟨hread, hspent⟩ := infer_of_enter (p := increments n) 0
    (e := readAt (6 * j + 7) (6 * j + 5)) (s := s.record .expression) hp (hs.no_read j hj hk) rfl
    (hg.notMem (by omega) (by omega)) (run_readAt_unknown (by omega) hname) (.truncate _)
  obtain ⟨hrun, hspent⟩ := infer_of_unguarded (p := increments n) 1 (e := increment j) hp
    (hs.no_sum j hj hk) rfl (hg.notMem (by omega) (by omega)) hread hspent
  dsimp only
  rw [hrun]
  exact ⟨hs, hspent⟩

/-- With more levels, the read asks for all values of the field. -/
lemma takes_increment (levels : Nat) (hg : Reads n k g) (hj : j < n) (hk : k ≤ j) (hc : j ≤ c)
    (hvalues : Takes (Stage n k (max c (j + 1))) (Stage n k' c') cost cuts
      (askAll ((increments n).infer none (levels + 1)) (inRead j g) (fieldValues n)))
    (hkept : cuts = 0 → j < k') :
    Takes (Stage n k c) (Stage n k' c') (max c (j + 1) - c + cost + 2) cuts
      fun s => ((increments n).infer none (levels + 3) g (increment j) 0 s).2 := by
  intro s hp hs
  obtain ⟨s₁, hname, hs₁, hspent₁⟩ := infer_sourceName levels (hg.inRead hk) hj hc
    (s := (s.record .expression).record .expression) hp hs
  obtain ⟨hs₂, hspent₂⟩ := hvalues s₁ (hspent₁.patience.trans hp) hs₁
  obtain ⟨t, hplan⟩ := run_readAt (n := n) (i := 6 * j + 7) (by omega) hname
  obtain ⟨hread, hspent⟩ := infer_of_enter (levels + 1) (e := readAt (6 * j + 7) (6 * j + 5))
    (s := s.record .expression) hp (hs.no_read j hj hk) rfl (hg.notMem (by omega) (by omega)) hplan
    (hspent₁.trans hspent₂)
  obtain ⟨hrun, hspent⟩ := infer_of_unguarded (p := increments n) (levels + 2) (e := increment j)
    hp (hs.no_sum j hj hk) rfl (hg.notMem (by omega) (by omega)) hread hspent
  rw [Nat.zero_add] at hrun hspent
  dsimp only
  rw [hrun]
  refine ⟨?_, hspent⟩
  -- if nothing was cut short, the read and the sum are kept, but the sum was known already
  cases cuts with
  | zero => exact hs₂.insert_again (hkept rfl) t t
  | succ cuts => exact hs₂

/-- In the read of an increment, its own sum comes back to the read. -/
lemma takes_increment_inRead (levels : Nat) (hg : Reads n k g) (hk : k < n) :
    Takes (Stage n k c) (Stage n (k + 1) c) 2 0
      fun s => ((increments n).infer none (levels + 2) (inRead k g) (increment k) 0 s).2 := by
  intro s hp hs
  obtain ⟨hread, hspent⟩ := infer_of_inFlight (p := increments n) levels (g := inRead k g)
    (e := readAt (6 * k + 7) (6 * k + 5)) (s := s.record .expression) hp
    (hs.no_read k hk le_rfl) rfl List.mem_cons_self
  obtain ⟨hrun, hspent⟩ := infer_of_unguarded (p := increments n) (levels + 1) (e := increment k)
    (s := s) hp (hs.no_sum k hk le_rfl) rfl ((hg.inRead le_rfl).notMem (by omega) (by omega)) hread
    hspent
  dsimp only
  rw [hrun]
  exact ⟨hs.insert_sum _, hspent⟩

lemma takes_fieldValues (levels : Nat) (hk : k ≤ n)
    (h : Takes (Stage n k c) (Stage n k' c') cost cuts
      (askAll ((increments n).infer none levels) g (sumsFrom n k))) :
    Takes (Stage n k c) (Stage n k' c') cost cuts
      (askAll ((increments n).infer none levels) g (fieldValues n)) := by
  rw [fieldValues_eq hk]
  exact .known_append (fun _ hs => hs.known) h

/-- The first sum that is not known, if the sums after it are asked for in its read. -/
lemma takes_increment_first (levels : Nat) (hg : Reads n k g) (hk : k < n) (hc : k ≤ c)
    {c₁ : Nat} (hc₁ : max c (k + 1) = c₁)
    (h : Takes (Stage n (k + 1) c₁) (Stage n k' c') cost cuts
      (askAll ((increments n).infer none (levels + 2)) (inRead k g) (sumsFrom n (k + 1))))
    (hk' : k < k') :
    Takes (Stage n k c) (Stage n k' c') (c₁ - c + cost + 4) cuts
      fun s => ((increments n).infer none (levels + 4) g (increment k) 0 s).2 := by
  subst hc₁
  have hsums : Takes (Stage n k (max c (k + 1))) (Stage n k' c') (2 + cost) (0 + cuts)
      (askAll ((increments n).infer none (levels + 2)) (inRead k g) (sumsFrom n k)) := by
    rw [sumsFrom_of_lt hk]
    exact (takes_increment_inRead levels hg hk).cons h
  have htake := takes_increment (levels + 1) hg hk le_rfl hc
    (takes_fieldValues (levels + 2) hk.le hsums) fun _ => hk'
  rw [Nat.zero_add] at htake
  convert htake using 1
  omega

end Sums

/-! ## The sums that are not known -/

section Sequences

variable {g : Guard}

lemma takes_nothing (levels : Nat) {P : Catalog Key Ty → Prop} :
    Takes P P 0 0
      (askAll ((increments n).infer none levels) g (sumsFrom n n)) := by
  rw [sumsFrom_self]
  exact .known fun _ _ _ h => nomatch h

/-- If every sum leaves the stage as it is, then so do all of them. -/
lemma takes_sums_each {levels cost cuts : Nat} {P : Catalog Key Ty → Prop} (hk : k ≤ n)
    (h : ∀ j < n, k ≤ j → Takes P P cost cuts
      fun s => ((increments n).infer none levels g (increment j) 0 s).2) :
    Takes P P (cost * (n - k)) (cuts * (n - k))
      (askAll ((increments n).infer none levels) g (sumsFrom n k)) := by
  induction hk using Nat.decreasingInduction with
  | self =>
    rw [Nat.sub_self]
    exact takes_nothing levels
  | of_succ k hk ih =>
    have hlength : n - k = 1 + (n - (k + 1)) := by omega
    rw [sumsFrom_of_lt hk, hlength, Nat.mul_add, Nat.mul_add, Nat.mul_one, Nat.mul_one]
    exact (h k hk le_rfl).cons (ih fun j hj hkj => h j hj (by omega))

/-- With one level, every sum is cut short. -/
lemma takes_sums_one (hg : Reads n k' g) (hk : k ≤ n) :
    Takes (Stage n k c) (Stage n k c) (n - k) (n - k)
      (askAll ((increments n).infer none 1) g (sumsFrom n k)) := by
  have hsums := takes_sums_each hk fun j hj hkj => takes_increment_one (c := c) hg hj hkj
  rwa [Nat.one_mul] at hsums

/-- With two levels as well. -/
lemma takes_sums_two (hg : Reads n k g) (hk : k ≤ n) :
    Takes (Stage n k k) (Stage n k k) (2 * (n - k)) (n - k)
      (askAll ((increments n).infer none 2) g (sumsFrom n k)) := by
  have hsums := takes_sums_each hk fun j hj hkj => takes_increment_two hg hj hkj hkj
  rwa [Nat.one_mul] at hsums

/-- With three levels, every sum asks for all sums that are not known, with one level, so that only
the names become known. -/
lemma takes_sums_three (hg : Reads n k g) (hk : k ≤ c) (hc : c ≤ n) :
    Takes (Stage n k c) (Stage n k n) ((n - k) * (n - k + 2) + (n - c)) ((n - k) * (n - k))
      (askAll ((increments n).infer none 3) g (sumsFrom n k)) := by
  suffices h : ∀ j ≤ n, k ≤ j → ∀ c ≤ n, j ≤ c →
      Takes (Stage n k c) (Stage n k n) ((n - j) * (n - k + 2) + (n - c)) ((n - j) * (n - k))
        (askAll ((increments n).infer none 3) g (sumsFrom n j)) from
    h k (hk.trans hc) le_rfl c hc hk
  intro j hj hkj
  induction hj using Nat.decreasingInduction with
  | self =>
    intro c hc hnc
    obtain rfl : c = n := by omega
    rw [Nat.sub_self, Nat.zero_mul, Nat.zero_mul]
    exact takes_nothing 3
  | of_succ j hj ih =>
    intro c hc hjc
    have hlength : n - j = n - (j + 1) + 1 := by omega
    have hsum := takes_increment 0 hg hj hkj hjc
      (takes_fieldValues 1 (by omega) (takes_sums_one (hg.inRead hkj) (by omega)))
      fun hcuts : n - k = 0 => by omega
    rw [sumsFrom_of_lt hj, hlength, Nat.succ_mul, Nat.succ_mul, Nat.add_comm _ (n - k)]
    convert hsum.cons (ih (by omega) (max c (j + 1)) (by omega) (by omega)) using 1
    omega

/-- With four levels, each sum becomes known in its own read, and the ones after it are cut short
there. -/
lemma takes_sums_four (hg : Reads n k g) (hk : k ≤ n) :
    Takes (Stage n k k) (Stage n n n)
      (5 * (n - k) + ∑ i ∈ Finset.range (n - k), 2 * i) (∑ i ∈ Finset.range (n - k), i)
      (askAll ((increments n).infer none 4) g (sumsFrom n k)) := by
  induction hk using Nat.decreasingInduction with
  | self =>
    rw [Nat.sub_self]
    exact takes_nothing 4
  | of_succ k hk ih =>
    have hlength : n - k = n - (k + 1) + 1 := by omega
    have hsum := takes_increment_first 0 hg hk le_rfl (max_eq_right (Nat.le_succ k))
      (takes_sums_two (hg.inRead le_rfl) hk) (Nat.lt_succ_self k)
    rw [sumsFrom_of_lt hk, hlength, Finset.sum_range_succ, Finset.sum_range_succ,
      Nat.add_comm _ (n - (k + 1))]
    convert hsum.cons (ih (hg.mono (Nat.le_succ k))) using 1
    omega

/-- With five levels as well. -/
lemma takes_sums_five (hg : Reads n k g) (hk : k ≤ c) (hc : c ≤ n) :
    Takes (Stage n k c) (Stage n n n)
      (4 * (n - k) + (n - c) + ∑ i ∈ Finset.range (n - k), i * (i + 2))
      (∑ i ∈ Finset.range (n - k), i * i)
      (askAll ((increments n).infer none 5) g (sumsFrom n k)) := by
  obtain hkn : k ≤ n := hk.trans hc
  induction hkn using Nat.decreasingInduction generalizing c with
  | self =>
    obtain rfl : c = n := by omega
    rw [Nat.sub_self]
    exact takes_nothing 5
  | of_succ k hkn ih =>
    have hlength : n - k = n - (k + 1) + 1 := by omega
    have hsum := takes_increment_first 1 hg hkn hk rfl
      (takes_sums_three (hg.inRead le_rfl) (by omega) (by omega)) (Nat.lt_succ_self k)
    rw [sumsFrom_of_lt hkn, hlength, Finset.sum_range_succ, Finset.sum_range_succ,
      Nat.add_comm _ ((n - (k + 1)) * (n - (k + 1)))]
    convert hsum.cons (ih (hg.mono (Nat.le_succ k)) hkn le_rfl) using 1
    omega

end Sequences

/-- With this number of levels, the sums that are not known, as many as there are, become known;
they take five expressions each and an excess. -/
def Resolves (n levels : Nat) (excess cuts : Nat → Nat) : Prop :=
  ∀ k g, k ≤ n → Reads n k g → Takes (Stage n k k) (Stage n n n)
    (5 * (n - k) + excess (n - k)) (cuts (n - k))
    (askAll ((increments n).infer none levels) g (sumsFrom n k))

lemma resolves_four (n : Nat) :
    Resolves n 4 (fun d => ∑ i ∈ Finset.range d, 2 * i) fun d => ∑ i ∈ Finset.range d, i :=
  fun _ _ hk hg => takes_sums_four hg hk

lemma resolves_five (n : Nat) :
    Resolves n 5 (fun d => ∑ i ∈ Finset.range d, i * (i + 2))
      fun d => ∑ i ∈ Finset.range d, i * i := by
  intro k g hk hg
  dsimp only
  convert takes_sums_five hg le_rfl hk using 1
  omega

namespace Resolves

variable {levels : Nat} {excess cuts : Nat → Nat}

/-- Two more levels are used up by the first sum: all others are asked for in its read, and known
after it. -/
lemma add_two (h : Resolves n (levels + 2) excess cuts) (hexcess : excess 0 = 0)
    (hcuts : cuts 0 = 0) :
    Resolves n (levels + 4) (fun d => excess (d - 1)) fun d => cuts (d - 1) := by
  intro k g hk hg
  dsimp only
  rcases hk.eq_or_lt with rfl | hk
  · rw [Nat.sub_self, hexcess, hcuts]
    exact takes_nothing (levels + 4)
  · have hlength : n - k - 1 = n - (k + 1) := by omega
    have hsum := takes_increment_first levels hg hk le_rfl (max_eq_right (Nat.le_succ k))
      (h (k + 1) _ hk (hg.inRead le_rfl)) hk
    have hknown : ∀ memo, Stage n n n memo → ∀ e ∈ sumsFrom n (k + 1),
        ∃ t, memo.find? (.value e.id 0) = some t := by
      intro memo hs e he
      obtain ⟨j, hj, rfl⟩ := List.mem_map.1 he
      have hlast := (List.mem_range'_1.1 hj).2
      exact hs.sum j (by omega)
    rw [sumsFrom_of_lt hk, hlength]
    convert hsum.cons (.known hknown) using 1
    · omega
    · rfl

/-- And so on, until a sum comes to the levels with which the sums after it are cut short. -/
lemma add (h : Resolves n (levels + 2) excess cuts) (hexcess : excess 0 = 0) (hcuts : cuts 0 = 0)
    (q : Nat) :
    Resolves n (levels + 2 * q + 2) (fun d => excess (d - q)) fun d => cuts (d - q) := by
  induction q with
  | zero => exact h
  | succ q ih =>
    have hstep := ih.add_two (by rw [Nat.zero_sub, hexcess]) (by rw [Nat.zero_sub, hcuts])
    simp only [Nat.sub_sub, Nat.add_comm 1 q] at hstep
    exact hstep

end Resolves

/-! ## The last read -/

section LastRead

variable (levels : Nat) {g : Guard} {s : Progress}

lemma reads_lastRead (n : Nat) : Reads n 0 ⟨[.value (lastRead n).id 0]⟩ := by
  intro key hmem
  exact .inl (List.mem_singleton.1 hmem)

/-- What is known once the last read has its table. -/
def startMemo (n : Nat) : Catalog Key Ty :=
  (Catalog.insert ∅ (.value ⟨0, 2⟩ 0) (.table ⟨0, 2⟩)).insert (.value ⟨0, 6 * n + 4⟩ 0)
    (.table ⟨0, 2⟩)

lemma find?_startMemo {i : Nat} (htable : i ≠ 2) (hname : i ≠ 6 * n + 4) :
    (startMemo n).find? (.value ⟨0, i⟩ 0) = none := by
  rw [startMemo, find?_insert_value, if_neg (Ne.symm hname), find?_insert_value,
    if_neg (Ne.symm htable)]
  rfl

/-- At the start of the last read: the variable, and the table that it holds. -/
lemma infer_lastName (hg : Reads n 0 g) (hc : s.patience = none) (hm : s.memo = ∅) :
    ∃ s₁, (increments n).infer none (levels + 2) g (counterName (6 * n + 4)) 0 s =
        (.table ⟨0, 2⟩, s₁) ∧ Spent 2 0 s s₁ ∧ s₁.memo = startMemo n := by
  have hfresh : ∀ key, s.memo.find? key = none := fun key => hm ▸ rfl
  have htable : Key.value counter.id 0 ∉
      (⟨.value (counterName (6 * n + 4)).id 0 :: g.inFlight⟩ : Guard) := by
    intro hmem
    rcases List.mem_cons.1 hmem with heq | hmem
    · have hindex : 2 = 6 * n + 4 := congrArg NodeId.index (Key.value.inj heq).1
      omega
    · exact hg.notMem (by omega) (by omega) hmem
  obtain ⟨htable, hspent⟩ := infer_of_unguarded (p := increments n) levels (e := counter)
    (s := s.record .expression) hc (hfresh _) rfl htable rfl (.refl _)
  obtain ⟨hrun, hspent⟩ := infer_of_enter (levels + 1) hc (hfresh _) rfl
    (hg.notMem (by omega) (by omega))
    (run_counterName (by omega) (by omega) (.inr rfl) htable) hspent
  exact ⟨_, hrun, hspent, congrArg (fun memo => (Catalog.insert memo _ _).insert _ _) hm⟩

/-- With zero, nothing is known but what is needed for the sums. -/
lemma Stage.start (n : Nat) (t : Ty) :
    Stage n 0 0 ((startMemo n).insert (.value ⟨0, 0⟩ 0) t) := by
  have hnone : ∀ i ≥ 3, i ≠ 6 * n + 4 →
      ((startMemo n).insert (.value ⟨0, 0⟩ 0) t).find? (.value ⟨0, i⟩ 0) = none := by
    intro i hi hlast
    rw [find?_insert_value, if_neg (by omega)]
    exact find?_startMemo (by omega) hlast
  constructor
  · rw [find?_insert_value, if_neg (by omega), startMemo, find?_insert_value, if_neg (by omega)]
    exact Catalog.find?_insert_self _ _ _
  · exact ⟨t, Catalog.find?_insert_self _ _ _⟩
  · exact fun _ hj => nomatch hj
  · exact fun _ hj => nomatch hj
  all_goals exact fun j hj _ => hnone _ (by omega) (by omega)

/-- The last read asks for its table, for zero and for all sums. -/
lemma readWork_of_takes {cost cuts : Nat}
    (h : ∀ g, Reads n 0 g → Takes (Stage n 0 0) (Stage n k c) cost cuts
      (askAll ((increments n).infer none (levels + 2)) g (sumsFrom n 0))) :
    (readWork n (levels + 3)).depthHits = cuts ∧
      (readWork n (levels + 3)).expressions = cost + 4 := by
  have hg := reads_lastRead n
  obtain ⟨s₁, hname, hspent₁, hm₁⟩ := infer_lastName levels hg
    (s := (Progress.record ∅ .query).record .expression) rfl rfl
  have hzero : Takes (· = startMemo n) (Stage n 0 0) 1 0
      fun s => ((increments n).infer none (levels + 2) ⟨[.value (lastRead n).id 0]⟩
        zeroLiteral 0 s).2 := by
    intro s hp hs
    obtain ⟨hrun, hspent⟩ := infer_of_unguarded (p := increments n) (levels + 1)
      (e := zeroLiteral) hp (hs ▸ find?_startMemo (by omega) (by omega)) rfl
      (hg.notMem (by omega) (by omega)) rfl (.refl _)
    dsimp only
    rw [hrun]
    refine ⟨?_, hspent⟩
    show Stage n 0 0 (s.memo.insert (.value ⟨0, 0⟩ 0) _)
    rw [hs]
    exact .start n _
  obtain ⟨-, hspent₂⟩ := hzero.cons (h _ hg) s₁ hspent₁.patience hm₁
  obtain ⟨t, hplan⟩ := run_readAt (n := n) (i := 6 * n + 5) (by omega) hname
  have hvalues : fieldValues n = zeroLiteral :: sumsFrom n 0 := fieldValues_eq (Nat.zero_le n)
  rw [hvalues] at hplan
  obtain ⟨hrun, hspent⟩ := infer_of_enter (levels + 2) (g := ∅) (e := lastRead n) rfl rfl rfl
    (fun h => nomatch h) hplan (hspent₁.trans hspent₂)
  obtain ⟨hhits, hexpressions⟩ := Spent.typeOf (levels + 3) hrun hspent
  constructor
  · rw [readWork, hhits]
    omega
  · rw [readWork, hexpressions]
    omega

/-- With less than three levels, the last read does not get to the values of the field. -/
lemma readWork_of_le_two (hm : m ≤ 2) : (readWork n m).expressions = m := by
  obtain ⟨s₁, hname, hspent⟩ : ∃ s₁, (increments n).infer none (m - 1)
        ⟨[.value (lastRead n).id 0]⟩ (counterName (6 * n + 4)) 0
        ((Progress.record ∅ .query).record .expression) = (.unknown, s₁) ∧
      Spent (m - 1) 1 ((Progress.record ∅ .query).record .expression) s₁ := by
    obtain hm | rfl : m - 1 = 0 ∨ m = 2 := by omega
    · rw [hm]
      exact ⟨_, infer_zero_patient _ none rfl rfl, .truncate _⟩
    · obtain ⟨hrun, hspent⟩ := infer_of_enter 0 (p := increments n)
        (s := (Progress.record ∅ .query).record .expression) (e := counterName (6 * n + 4)) rfl rfl
        rfl ((reads_lastRead n).notMem (by omega) (by omega))
        (run_counterName (by omega) (by omega) (.inl rfl) (infer_zero_patient _ none rfl rfl))
        (.truncate _)
      exact ⟨_, hrun, hspent⟩
  cases m with
  | zero =>
    rw [readWork, typeOf_withDepth_zero]
    rfl
  | succ m =>
    obtain ⟨hrun, hspent⟩ := infer_of_enter m (g := ∅) (e := lastRead n) rfl rfl rfl
      (fun h => nomatch h) (run_readAt_unknown (by omega) hname) hspent
    exact (Spent.typeOf (m + 1) hrun hspent).2

end LastRead

/-! ## The work under any limit -/

lemma readWork_three (n : Nat) :
    (readWork n 3).depthHits = n ∧ (readWork n 3).expressions = 2 * n + 4 :=
  readWork_of_takes 0 fun _ hg => takes_sums_two hg (Nat.zero_le n)

lemma readWork_four (n : Nat) :
    (readWork n 4).depthHits = n * n ∧ (readWork n 4).expressions = n * (n + 2) + n + 4 :=
  readWork_of_takes 1 fun _ hg => takes_sums_three hg le_rfl (Nat.zero_le n)

lemma Resolves.readWork {levels : Nat} {excess cuts : Nat → Nat}
    (h : Resolves n (levels + 2) excess cuts) :
    (Program.readWork n (levels + 3)).depthHits = cuts n ∧
      (Program.readWork n (levels + 3)).expressions = 5 * n + 4 + excess n := by
  obtain ⟨hhits, hexpressions⟩ := readWork_of_takes levels fun g hg => h 0 g (Nat.zero_le n) hg
  exact ⟨hhits, hexpressions.trans (Nat.add_right_comm _ _ _)⟩

/-- The work under an odd limit, from five on. -/
theorem readWork_odd (n q : Nat) :
    (readWork n (2 * q + 5)).depthHits = ∑ i ∈ Finset.range (n - q), i ∧
      (readWork n (2 * q + 5)).expressions = 5 * n + 4 + ∑ i ∈ Finset.range (n - q), 2 * i := by
  have hlimit : 2 * q + 5 = 2 + 2 * q + 3 := by omega
  rw [hlimit]
  exact ((resolves_four n).add rfl rfl q).readWork

/-- The work under an even limit, from six on. -/
theorem readWork_even (n q : Nat) :
    (readWork n (2 * q + 6)).depthHits = ∑ i ∈ Finset.range (n - q), i * i ∧
      (readWork n (2 * q + 6)).expressions =
        5 * n + 4 + ∑ i ∈ Finset.range (n - q), i * (i + 2) := by
  have hlimit : 2 * q + 6 = 3 + 2 * q + 3 := by omega
  rw [hlimit]
  exact ((resolves_five n).add rfl rfl q).readWork

/-- The limits that the work has been found for. -/
lemma limit_cases (m : Nat) :
    m ≤ 2 ∨ m = 3 ∨ m = 4 ∨ (∃ q, m = 2 * q + 5) ∨ ∃ q, m = 2 * q + 6 := by
  by_cases hm : m < 5
  · omega
  · rcases Nat.mod_two_eq_zero_or_one m with heven | hodd
    · exact .inr (.inr (.inr (.inr ⟨(m - 6) / 2, by omega⟩)))
    · exact .inr (.inr (.inr (.inl ⟨(m - 5) / 2, by omega⟩)))

/-- With `2 * n + 3` levels, nothing is cut short. -/
lemma readWork_of_le (hm : 2 * n + 3 ≤ m) : (readWork n m).depthHits = 0 := by
  have hzero : ∀ {q i : Nat}, n ≤ q + 1 → i ∈ Finset.range (n - q) → i = 0 := by
    intro q i hq hi
    have hlt := Finset.mem_range.1 hi
    omega
  rcases limit_cases m with hm' | rfl | rfl | ⟨q, rfl⟩ | ⟨q, rfl⟩
  · omega
  · rw [(readWork_three n).1]
    omega
  · obtain rfl : n = 0 := by omega
    exact (readWork_four 0).1
  · rw [(readWork_odd n q).1]
    exact Finset.sum_eq_zero fun i hi => hzero (by omega) hi
  · rw [(readWork_even n q).1]
    refine Finset.sum_eq_zero fun i hi => ?_
    rw [hzero (by omega) hi, Nat.zero_mul]

/-- In general, a depth hit stands for three expressions at most. -/
lemma readWork_le (n m : Nat) :
    (readWork n m).expressions ≤ 5 * n + 4 + 3 * (readWork n m).depthHits := by
  rcases limit_cases m with hm | rfl | rfl | ⟨q, rfl⟩ | ⟨q, rfl⟩
  · rw [readWork_of_le_two hm]
    omega
  · rw [(readWork_three n).2]
    omega
  · rw [(readWork_four n).1, (readWork_four n).2, Nat.mul_add]
    omega
  · rw [(readWork_odd n q).1, (readWork_odd n q).2, Finset.mul_sum]
    refine Nat.add_le_add_left (Finset.sum_le_sum fun i _ => ?_) _
    omega
  · rw [(readWork_even n q).1, (readWork_even n q).2, Finset.mul_sum]
    refine Nat.add_le_add_left (Finset.sum_le_sum fun i _ => ?_) _
    have hsquare := Nat.le_mul_self i
    rw [Nat.mul_add]
    omega

/-- The most that a limit can cost is what the limit of six levels costs. -/
lemma readWork_le_six (n m : Nat) : (readWork n m).expressions ≤ (readWork n 6).expressions := by
  have hsix : (readWork n 6).expressions = 5 * n + 4 + ∑ i ∈ Finset.range n, i * (i + 2) :=
    (readWork_even n 0).2
  have hsub : ∀ q, Finset.range (n - q) ⊆ Finset.range n := fun q =>
    Finset.range_mono (Nat.sub_le n q)
  rw [hsix]
  rcases limit_cases m with hm | rfl | rfl | ⟨q, rfl⟩ | ⟨q, rfl⟩
  · rw [readWork_of_le_two hm]
    omega
  · rw [(readWork_three n).2]
    omega
  · rw [(readWork_four n).2]
    clear hsix hsub
    induction n with
    | zero => decide
    | succ n ih =>
      rw [Finset.sum_range_succ]
      have hnext : (n + 1) * (n + 1 + 2) = n * (n + 2) + 2 * n + 3 := by ring
      omega
  · rw [(readWork_odd n q).2]
    refine Nat.add_le_add_left ((Finset.sum_le_sum fun i _ => ?_).trans
      (Finset.sum_le_sum_of_subset (hsub q))) _
    rw [Nat.mul_add]
    omega
  · rw [(readWork_even n q).2]
    exact Nat.add_le_add_left (Finset.sum_le_sum_of_subset (hsub q)) _

/-! ## The work of both queries -/

/-- Queries that do not reach their depth limits do linear work, both on a chain of wrappers and on
repeated increments, and `2 * n + 3` levels are enough for that.

Under any limit, the work is linear in what is there and in what is cut short.  On increments, it is
never more than cubic, which it is if there are six levels.  A call of the last wrapper takes
exponential work in the limit at most, and exactly so if the limit does not reach its end. -/
theorem uncut_work_linear (n m : Nat) :
    ((callWork n m).depthHits = 0 → (callWork n m).expressions ≤ 4 * (n + 2)) ∧
      ((readWork n m).depthHits = 0 → (readWork n m).expressions ≤ 6 * (n + 2)) ∧
      (2 * n + 3 ≤ m → (callWork n m).depthHits = 0 ∧ (readWork n m).depthHits = 0) ∧
      (m ≤ n + 1 → (callWork n m).expressions = Nat.fib (m + 3) - 2) ∧
      (callWork n m).expressions ≤ Nat.fib (m + 3) - 2 ∧
      (callWork n m).expressions ≤ 2 * n + 3 + m * (callWork n m).depthHits ∧
      (readWork n m).expressions ≤ 5 * n + 4 + 3 * (readWork n m).depthHits ∧
      (readWork n m).expressions ≤ 5 * n + 4 + ∑ i ∈ Finset.range n, i * (i + 2) := by
  obtain ⟨hcallHits, hcallFib⟩ := callWork_le n m
  have hreadHits := readWork_le n m
  have hreadMost := (readWork_le_six n m).trans_eq (readWork_even n 0).2
  refine ⟨fun hcall => ?_, fun hread => ?_, fun hm => ⟨(callWork_of_le hm).1, readWork_of_le hm⟩,
    callWork_of_ge, hcallFib, hcallHits, hreadHits, hreadMost⟩
  · rw [hcall] at hcallHits
    omega
  · rw [hread] at hreadHits
    omega

theorem uncut_work_linear_seven :
    ((callWork 2 7).depthHits = 0 ∧ (callWork 2 7).expressions ≤ 4 * (2 + 2)) ∧
      ((readWork 2 7).depthHits = 0 ∧ (readWork 2 7).expressions ≤ 6 * (2 + 2)) ∧
      (7 ≤ 7 + 1 ∧ (callWork 7 7).expressions = Nat.fib (7 + 3) - 2) := by
  obtain ⟨hcall, hread, huncut, -⟩ := uncut_work_linear 2 7
  obtain ⟨hcall₀, hread₀⟩ := huncut (by decide)
  exact ⟨⟨hcall₀, hcall hcall₀⟩, ⟨hread₀, hread hread₀⟩, by decide,
    (uncut_work_linear 7 7).2.2.2.1 (by decide)⟩

/-- Queries that are cut short exceed the linear bounds. -/
theorem cut_work_exceeds :
    4 * (7 + 2) < (callWork 7 7).expressions ∧ 6 * (5 + 2) < (readWork 5 4).expressions := by
  rw [callWork_of_ge (by decide), (readWork_four 5).2]
  decide

end Program

end TypeQuery
