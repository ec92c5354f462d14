import Mathlib.Data.Set.Card
import TypeQuery.Proofs.Runs

/-!
# Tokens for keys in flight

A caller that enters a key gets a token for it, and gives the token back when the work is done.
Inside a query this is nested: what is entered last is left first.  Nothing makes a caller keep to
that, and nothing here depends on it: tokens are given back in any order.

What a caller does is told by a log of its attempts to enter and of the tokens that it gives back.
`Ledger.Live log n k` says, from the log and the answers that the caller was given, that token `n`
was granted for `k` and has not been given back since.  `Ledger.holds_after` ties this to the numbers
that the ledger keeps, and `Ledger.Sound` is the invariant that each action keeps: the keys in flight
are those of the live tokens, each of them once.

A guarded call enters its key, does its work if it was granted, and gives its token back.  The log
has the actions of the calls inside it as well (`Ledger.Call.record`), so what is true after every log
is true at every point of every call.  The main result is `Ledger.token_discipline`.
-/

namespace TypeQuery.Ledger

/-! ## Logs -/

/-- Something that is asked of a ledger: to enter a key, or to take a token back. -/
inductive Action where
  | enter (k : Key)
  | drop (n : Nat)
deriving DecidableEq

/-- The ledger after an action. -/
def act (l : Ledger) : Action → Ledger
  | .enter k => (l.enter k).2
  | .drop n => (l.drop n).2

/-- The ledger after all actions of a log. -/
def after (log : List Action) : Ledger := log.foldl act ∅

lemma after_concat (log : List Action) (a : Action) : after (log ++ [a]) = (after log).act a :=
  List.foldl_concat ..

/-- The attempt to enter `k` after the log is granted. -/
def Grants (log : List Action) (k : Key) : Prop := ((after log).enter k).1 = true

instance (log : List Action) (k : Key) : Decidable (Grants log k) :=
  inferInstanceAs (Decidable (_ = true))

/-- The number of attempts in a log.  It is the number of the next token. -/
def attempts : List Action → Nat
  | [] => 0
  | .enter _ :: log => attempts log + 1
  | .drop _ :: log => attempts log

lemma attempts_append (log log' : List Action) :
    attempts (log ++ log') = attempts log + attempts log' := by
  induction log with
  | nil => exact (Nat.zero_add _).symm
  | cons a log ih =>
    cases a with
    | enter k =>
      rw [List.cons_append, attempts, attempts, ih]
      omega
    | drop n => exact ih

/-- Token `n` was granted for `k`, and has not been given back since. -/
def Live (log : List Action) (n : Nat) (k : Key) : Prop :=
  ∃ before later, log = before ++ .enter k :: later ∧ attempts before = n ∧ Grants before k ∧
    .drop n ∉ later

lemma not_live_nil (n : Nat) (k : Key) : ¬ Live [] n k := by
  rintro ⟨before, later, h, -⟩
  simp at h

/-- A live token has been given out. -/
lemma Live.lt_attempts {log : List Action} {n : Nat} {k : Key} (h : Live log n k) :
    n < attempts log := by
  obtain ⟨before, later, rfl, rfl, -⟩ := h
  rw [attempts_append, attempts]
  omega

/-- A token is live after an action if it was before and is not given back, or if it is granted by
the action. -/
lemma live_concat {log : List Action} {a : Action} {n : Nat} {k : Key} :
    Live (log ++ [a]) n k ↔
      Live log n k ∧ a ≠ .drop n ∨ a = .enter k ∧ n = attempts log ∧ Grants log k := by
  constructor
  · rintro ⟨before, later, hlog, hn, hgrant, hlater⟩
    rcases List.eq_nil_or_concat later with rfl | ⟨later, b, rfl⟩
    · obtain ⟨rfl, ha⟩ := List.append_inj' hlog rfl
      exact .inr ⟨List.singleton_inj.1 ha, hn.symm, hgrant⟩
    · rw [List.concat_eq_append] at hlog hlater
      rw [← List.cons_append, ← List.append_assoc] at hlog
      obtain ⟨rfl, ha⟩ := List.append_inj' hlog rfl
      obtain rfl := List.singleton_inj.1 ha
      rw [List.mem_append, List.mem_singleton, not_or] at hlater
      exact .inl ⟨⟨before, later, rfl, hn, hgrant, hlater.1⟩, Ne.symm hlater.2⟩
  · rintro (⟨⟨before, later, rfl, hn, hgrant, hlater⟩, ha⟩ | ⟨rfl, hn, hgrant⟩)
    · refine ⟨before, later ++ [a], by simp, hn, hgrant, ?_⟩
      rw [List.mem_append, List.mem_singleton, not_or]
      exact ⟨hlater, Ne.symm ha⟩
    · exact ⟨log, [], rfl, hn.symm, hgrant, List.not_mem_nil⟩

lemma live_enter {log : List Action} {n : Nat} {j k : Key} :
    Live (log ++ [.enter j]) n k ↔ Live log n k ∨ j = k ∧ n = attempts log ∧ Grants log k := by
  simp [live_concat]

lemma live_drop {log : List Action} {m n : Nat} {k : Key} :
    Live (log ++ [.drop m]) n k ↔ Live log n k ∧ m ≠ n := by
  simp [live_concat]

/-! ## One action -/

/-- Token `n` of the ledger stands for `k`. -/
def Holds (l : Ledger) (n : Nat) (k : Key) : Prop := l.tokens[n]? = some (some k)

lemma Holds.key_unique {l : Ledger} {n : Nat} {j k : Key} (hj : l.Holds n j) (hk : l.Holds n k) :
    j = k :=
  Option.some.inj (Option.some.inj (hj.symm.trans hk))

section

variable {l : Ledger} {n : Nat} {k : Key}

lemma enter_of_mem (h : k ∈ l.guard) :
    l.enter k = (false, ⟨l.guard, l.tokens ++ [none]⟩) := by
  rw [enter, Guard.enter?, if_pos h]

lemma enter_of_notMem (h : k ∉ l.guard) :
    l.enter k = (true, ⟨⟨k :: l.guard.inFlight⟩, l.tokens ++ [some k]⟩) := by
  rw [enter, Guard.enter?, if_neg h]

lemma enter_granted_iff : (l.enter k).1 = true ↔ k ∉ l.guard := by
  by_cases h : k ∈ l.guard
  · simp [enter_of_mem h, h]
  · simp [enter_of_notMem h, h]

lemma drop_of_holds (h : l.Holds n k) :
    l.drop n = (true, ⟨l.guard.release k, l.tokens.set n none⟩) := by
  unfold Holds at h
  rw [drop, h]

lemma drop_of_not_holds (h : ∀ k, ¬ l.Holds n k) : l.drop n = (false, l) := by
  unfold drop
  split
  next k hk => exact absurd hk (h k)
  next => rfl

end

lemma length_tokens_act (l : Ledger) (a : Action) :
    (l.act a).tokens.length = l.tokens.length + attempts [a] := by
  cases a with
  | enter k =>
    simp only [act, enter]
    split <;> simp [attempts]
  | drop n =>
    simp only [act, drop]
    split <;> simp [attempts]

lemma length_tokens_after (log : List Action) : (after log).tokens.length = attempts log := by
  induction log using List.reverseRecOn with
  | nil => rfl
  | append_singleton log a ih => rw [after_concat, length_tokens_act, ih, attempts_append]

lemma grants_iff_notMem {log : List Action} {k : Key} : Grants log k ↔ k ∉ (after log).guard :=
  enter_granted_iff

/-- A granted attempt takes the next number for its key; a refused one takes it for nothing. -/
lemma holds_enter {l : Ledger} {n : Nat} {j k : Key} :
    (l.enter j).2.Holds n k ↔ l.Holds n k ∨ j = k ∧ n = l.tokens.length ∧ k ∉ l.guard := by
  have hconcat : ∀ t, (l.tokens ++ [t])[n]? = some (some k) ↔
      l.Holds n k ∨ n = l.tokens.length ∧ t = some k := by
    intro t
    unfold Holds
    grind
  by_cases hj : j ∈ l.guard
  · have hnot : ¬ (j = k ∧ n = l.tokens.length ∧ k ∉ l.guard) := fun h => h.2.2 (h.1 ▸ hj)
    rw [enter_of_mem hj, Holds, hconcat, or_iff_left hnot]
    simp
  · have hfree : (n = l.tokens.length ∧ some j = some k) ↔
        j = k ∧ n = l.tokens.length ∧ k ∉ l.guard := by
      rw [Option.some.injEq]
      exact ⟨fun h => ⟨h.2, h.1, h.2 ▸ hj⟩, fun h => ⟨h.2.1, h.1⟩⟩
    rw [enter_of_notMem hj, Holds, hconcat, hfree]

/-- A token that is given back stands for nothing, and all others stand for what they did. -/
lemma holds_drop {l : Ledger} {m n : Nat} {k : Key} :
    (l.drop m).2.Holds n k ↔ l.Holds n k ∧ m ≠ n := by
  by_cases hm : ∃ j, l.Holds m j
  · obtain ⟨j, hj⟩ := hm
    rw [drop_of_holds hj]
    unfold Holds
    grind
  · have hfree : ∀ j, ¬ l.Holds m j := not_exists.1 hm
    rw [drop_of_not_holds hfree]
    refine (and_iff_left_of_imp fun h => ?_).symm
    rintro rfl
    exact hfree k h

/-- A token of the ledger stands for `k` exactly if the log says that it is live. -/
theorem holds_after {log : List Action} {n : Nat} {k : Key} :
    (after log).Holds n k ↔ Live log n k := by
  induction log using List.reverseRecOn with
  | nil => exact iff_of_false (fun h => nomatch h) (not_live_nil n k)
  | append_singleton log a ih =>
    rw [after_concat]
    cases a with
    | enter j =>
      rw [act, holds_enter, live_enter, ih, length_tokens_after, grants_iff_notMem]
    | drop m => rw [act, holds_drop, live_drop, ih]

/-! ## The invariant -/

/-- The keys in flight are those that a token stands for, and each of them has one token. -/
structure Sound (l : Ledger) : Prop where
  mem_iff : ∀ k, k ∈ l.guard ↔ ∃ n, l.Holds n k
  unique : ∀ {m n k}, l.Holds m k → l.Holds n k → m = n
  nodup : l.guard.inFlight.Nodup

namespace Sound

variable {l : Ledger} (h : l.Sound)
include h

/-- A key that is entered was in flight before or has a new token. -/
lemma enter (j : Key) : (l.enter j).2.Sound := by
  by_cases hj : j ∈ l.guard
  · -- the attempt is refused: the guard stays, and no token stands for more than before
    have hholds : ∀ n k, (l.enter j).2.Holds n k ↔ l.Holds n k := fun n k =>
      holds_enter.trans (or_iff_left fun hnew => hnew.2.2 (hnew.1 ▸ hj))
    have hguard : (l.enter j).2.guard = l.guard := by rw [enter_of_mem hj]
    refine ⟨fun k => ?_, fun hm hn => ?_, ?_⟩
    · simp only [hguard, h.mem_iff, hholds]
    · exact h.unique ((hholds _ _).1 hm) ((hholds _ _).1 hn)
    · rw [hguard]
      exact h.nodup
  · have hguard : (l.enter j).2.guard = ⟨j :: l.guard.inFlight⟩ := by rw [enter_of_notMem hj]
    -- the new token is the only one for its key
    have hnew : ∀ {n}, ¬ l.Holds n j := fun hn => hj ((h.mem_iff j).2 ⟨_, hn⟩)
    refine ⟨fun k => ?_, fun {m n k} hm hn => ?_, ?_⟩
    · have hlast : (∃ n, j = k ∧ n = l.tokens.length ∧ k ∉ l.guard) ↔ k = j :=
        ⟨fun ⟨_, hk, _⟩ => hk.symm, fun hk => ⟨_, hk.symm, rfl, hk ▸ hj⟩⟩
      rw [hguard, Guard.mem_def, List.mem_cons, ← Guard.mem_def, h.mem_iff]
      simp only [holds_enter, exists_or, hlast]
      exact or_comm
    · rcases holds_enter.1 hm with hm | ⟨rfl, hm, -⟩
      · rcases holds_enter.1 hn with hn | ⟨rfl, -, -⟩
        · exact h.unique hm hn
        · exact absurd hm hnew
      · rcases holds_enter.1 hn with hn | ⟨-, hn, -⟩
        · exact absurd hn hnew
        · exact hm.trans hn.symm
    · rw [hguard]
      exact List.nodup_cons.2 ⟨hj, h.nodup⟩

/-- A token takes its own key with it. -/
lemma drop (m : Nat) : (l.drop m).2.Sound := by
  by_cases hm : ∃ j, l.Holds m j
  · obtain ⟨j, hj⟩ := hm
    have hguard : (l.drop m).2.guard = l.guard.release j := by rw [drop_of_holds hj]
    refine ⟨fun k => ?_, fun hm hn => ?_, ?_⟩
    · rw [hguard, Guard.mem_def, Guard.release, h.nodup.mem_erase_iff, ← Guard.mem_def, h.mem_iff]
      simp only [holds_drop]
      constructor
      · rintro ⟨hne, n, hn⟩
        refine ⟨n, hn, ?_⟩
        rintro rfl
        exact hne (hn.key_unique hj)
      · rintro ⟨n, hn, hmn⟩
        refine ⟨?_, n, hn⟩
        rintro rfl
        exact hmn (h.unique hj hn)
    · exact h.unique (holds_drop.1 hm).1 (holds_drop.1 hn).1
    · rw [hguard]
      exact h.nodup.erase j
  · rw [drop_of_not_holds (not_exists.1 hm)]
    exact h

/-- There are as many keys in flight as tokens that stand for one. -/
lemma encard_eq : {n | ∃ k, l.Holds n k}.encard = l.guard.size := by
  let token : Nat → Option Key := fun n => l.tokens[n]?.join
  have htoken : ∀ n k, token n = some k ↔ l.Holds n k := fun n k => Option.join_eq_some_iff
  have hinj : Set.InjOn token {n | ∃ k, l.Holds n k} := by
    rintro m ⟨k, hm⟩ n - heq
    have hn : l.Holds n k := (htoken n k).1 (heq ▸ (htoken m k).2 hm)
    exact h.unique hm hn
  have himage : token '' {n | ∃ k, l.Holds n k} = some '' {k | k ∈ l.guard} := by
    ext t
    constructor
    · rintro ⟨n, ⟨k, hn⟩, rfl⟩
      exact ⟨k, (h.mem_iff k).2 ⟨n, hn⟩, ((htoken n k).2 hn).symm⟩
    · rintro ⟨k, hk, rfl⟩
      obtain ⟨n, hn⟩ := (h.mem_iff k).1 hk
      exact ⟨n, ⟨k, hn⟩, (htoken n k).2 hn⟩
  have hguard : {k | k ∈ l.guard} = (l.guard.inFlight.toFinset : Set Key) := by
    ext k
    simp [Guard.mem_def]
  rw [← hinj.encard_image, himage, (Option.some_injective Key).encard_image, hguard,
    Set.encard_coe_eq_coe_finsetCard, List.toFinset_card_of_nodup h.nodup]
  rfl

end Sound

/-- After every log, the keys in flight are those of the live tokens. -/
lemma sound_after (log : List Action) : (after log).Sound := by
  induction log using List.reverseRecOn with
  | nil =>
    have hempty : ∀ n k, ¬ (after []).Holds n k := fun n k h => nomatch h
    refine ⟨fun k => iff_of_false (fun h => nomatch h) ?_, fun h => absurd h (hempty _ _),
      List.nodup_nil⟩
    exact not_exists.2 fun n => hempty n k
  | append_singleton log a ih =>
    rw [after_concat]
    cases a with
    | enter k => exact ih.enter k
    | drop n => exact ih.drop n

section

variable {log : List Action} {n : Nat} {j k : Key}

lemma mem_after_iff : k ∈ (after log).guard ↔ ∃ n, Live log n k := by
  simp only [(sound_after log).mem_iff, holds_after]

lemma Live.unique {m : Nat} (hm : Live log m k) (hn : Live log n k) : m = n :=
  (sound_after log).unique (holds_after.2 hm) (holds_after.2 hn)

lemma Live.key_unique (hj : Live log n j) (hk : Live log n k) : j = k :=
  (holds_after.2 hj).key_unique (holds_after.2 hk)

lemma grants_iff : Grants log k ↔ ∀ n, ¬ Live log n k := by
  rw [grants_iff_notMem, mem_after_iff, not_exists]

/-- A live token that is given back takes its own key with it, and no other. -/
lemma mem_after_drop (h : Live log n k) :
    j ∈ (after (log ++ [.drop n])).guard ↔ j ∈ (after log).guard ∧ j ≠ k := by
  simp only [mem_after_iff, live_drop]
  constructor
  · rintro ⟨m, hm, hne⟩
    refine ⟨⟨m, hm⟩, ?_⟩
    rintro rfl
    exact hne (h.unique hm)
  · rintro ⟨⟨m, hm⟩, hne⟩
    refine ⟨m, hm, ?_⟩
    rintro rfl
    exact hne (hm.key_unique h)

end

/-! ## Guarded calls -/

/-- A guarded call under a key, with the guarded calls that it makes in turn. -/
inductive Call where
  | guarded (k : Key) (inside : List Call)

mutual

/-- The log after a call.  A call that is granted makes the calls inside it, and gives its token
back; one that is refused does nothing. -/
def Call.record : Call → List Action → List Action
  | .guarded k inside, log =>
    if Grants log k then Call.recordAll inside (log ++ [.enter k]) ++ [.drop (attempts log)]
    else log ++ [.enter k]

/-- The log after calls that are made one after the other. -/
def Call.recordAll : List Call → List Action → List Action
  | [], log => log
  | c :: cs, log => Call.recordAll cs (c.record log)

end

/-- What was done between two logs has left the guard as it was, and has kept all tokens. -/
structure Restores (log log' : List Action) : Prop where
  guard_eq : (after log').guard = (after log).guard
  live : ∀ {n k}, Live log n k → Live log' n k

namespace Restores

variable {log log' : List Action} {k : Key}

lemma refl (log : List Action) : Restores log log := ⟨rfl, id⟩

lemma trans {log'' : List Action} (h : Restores log log') (h' : Restores log' log'') :
    Restores log log'' :=
  ⟨h'.guard_eq.trans h.guard_eq, fun hn => h'.live (h.live hn)⟩

/-- A token that is live afterwards was live before: its key was in flight with a token that is
still live. -/
lemma live_iff (h : Restores log log') {n : Nat} : Live log' n k ↔ Live log n k := by
  refine ⟨fun hn => ?_, h.live⟩
  have hk : k ∈ (after log').guard := mem_after_iff.2 ⟨n, hn⟩
  rw [h.guard_eq] at hk
  obtain ⟨m, hm⟩ := mem_after_iff.1 hk
  rwa [(h.live hm).unique hn] at hm

lemma refused (hk : ¬ Grants log k) : Restores log (log ++ [.enter k]) := by
  have hmem : k ∈ (after log).guard := by rwa [grants_iff_notMem, not_not] at hk
  refine ⟨?_, fun hn => live_enter.2 (.inl hn)⟩
  rw [after_concat, act, enter_of_mem hmem]

/-- A call that is granted restores what it found, if the work inside does. -/
lemma entered (hk : Grants log k) (h : Restores (log ++ [.enter k]) log') :
    Restores log (log' ++ [.drop (attempts log)]) := by
  have hfree : k ∉ (after log).guard := grants_iff_notMem.1 hk
  -- the work inside has kept the token of the call
  have hown : Live log' (attempts log) k := h.live (live_enter.2 (.inr ⟨rfl, rfl, hk⟩))
  constructor
  · rw [after_concat, act, drop_of_holds (holds_after.2 hown), h.guard_eq, after_concat, act,
      enter_of_notMem hfree]
    exact Guard.release_enter? (if_neg hfree)
  · intro n j hn
    exact live_drop.2 ⟨h.live (live_enter.2 (.inl hn)), hn.lt_attempts.ne'⟩

end Restores

mutual

/-- A call restores what it found, whether it is granted or refused. -/
lemma Call.record_restores : ∀ (c : Call) (log : List Action), Restores log (c.record log)
  | .guarded k inside, log => by
    rw [Call.record]
    split
    next hk => exact .entered hk (Call.recordAll_restores inside (log ++ [.enter k]))
    next hk => exact .refused hk

lemma Call.recordAll_restores :
    ∀ (cs : List Call) (log : List Action), Restores log (Call.recordAll cs log)
  | [], log => by
    rw [Call.recordAll]
    exact .refl log
  | c :: cs, log => by
    rw [Call.recordAll]
    exact (c.record_restores log).trans (Call.recordAll_restores cs (c.record log))

end

/-- The levels of nested calls: one that is granted has the next one inside, and one that is refused
is the last. -/
lemma nest_after (log : List Action) (k : Key) (ks : List Key) :
    (after log).guard.nest (k :: ks) =
      if Grants log k then
        (true, (after (log ++ [.enter k])).guard.size) :: (after (log ++ [.enter k])).guard.nest ks
      else [(false, (after log).guard.size)] := by
  simp only [after_concat, act, grants_iff_notMem, Guard.nest, Guard.enter?]
  by_cases hk : k ∈ (after log).guard
  · simp only [hk, if_true, not_true, if_false]
  · simp only [hk, if_false, not_false_eq_true, if_true, enter_of_notMem hk]

/-- After every log, the keys in flight are those of the live tokens.  Live tokens are different
exactly if their keys are.  A key is granted exactly if no live token is for it, so entering or
leaving another one makes no difference; and there are as many keys in flight as live tokens.

A guarded call, granted or refused and with calls inside it to any depth, leaves the guard and the
tokens as it found them.  With other work inside, which may enter keys and give back any token but
that of the call itself, the call takes out its own key and no other. -/
theorem token_discipline (log : List Action) :
    (∀ k, k ∈ (after log).guard ↔ ∃ n, Live log n k) ∧
      (∀ m n j k, Live log m j → Live log n k → (m = n ↔ j = k)) ∧
      (∀ k, Grants log k ↔ ∀ n, ¬ Live log n k) ∧
      (∀ j k, j ≠ k → (Grants (log ++ [.enter j]) k ↔ Grants log k) ∧
        ∀ n, Live log n j → (Grants (log ++ [.drop n]) k ↔ Grants log k)) ∧
      {n | ∃ k, Live log n k}.encard = (after log).guard.size ∧
      (∀ c : Call, (after (c.record log)).guard = (after log).guard ∧
        ∀ n k, Live (c.record log) n k ↔ Live log n k) ∧
      (∀ k ks, (after log).guard.nest (k :: ks) =
        if Grants log k then
          (true, (after (log ++ [.enter k])).guard.size) ::
            (after (log ++ [.enter k])).guard.nest ks
        else [(false, (after log).guard.size)]) ∧
      ∀ k work, Grants log k → .drop (attempts log) ∉ work → ∀ j,
        (j ∈ (after (log ++ Action.enter k :: work ++ [Action.drop (attempts log)])).guard ↔
          j ∈ (after (log ++ Action.enter k :: work)).guard ∧ j ≠ k) := by
  refine ⟨fun k => mem_after_iff, fun m n j k hm hn => ?_, fun k => grants_iff,
    fun j k hne => ⟨?_, fun n hn => ?_⟩, ?_, fun c => ?_, nest_after log,
    fun k work hk hwork j => ?_⟩
  · constructor
    · rintro rfl
      exact hm.key_unique hn
    · rintro rfl
      exact hm.unique hn
  · simp only [grants_iff, live_enter, hne, false_and, or_false]
  · rw [grants_iff_notMem, grants_iff_notMem, mem_after_drop hn, and_iff_left hne.symm]
  · simp only [← holds_after]
    exact (sound_after log).encard_eq
  · have hcall := c.record_restores log
    exact ⟨hcall.guard_eq, fun n k => hcall.live_iff⟩
  · exact mem_after_drop ⟨log, work, rfl, rfl, hk, hwork⟩

/-- Tokens for two values of a node and for the node as a member, with one attempt refused and the
oldest token given back first. -/
theorem token_discipline_unordered :
    let node : NodeId := ⟨0, 5⟩
    let a : Key := .value node 0
    let b : Key := .value node 1
    let c : Key := .member node
    let log : List Action := [.enter a, .enter b, .enter a, .enter c, .drop 2, .drop 0]
    let call : Call := .guarded a [.guarded c [], .guarded (.value node 2) [.guarded a []]]
    Live log 1 b ∧ Live log 3 c ∧ (∀ n, ¬ Live log n a) ∧ b ∈ (after log).guard ∧
      ¬ Grants log c ∧ Grants (log ++ [.enter b]) a ∧ Grants (log ++ [.drop 1]) a ∧
      {n | ∃ k, Live log n k}.encard = 2 ∧ (after (call.record log)).guard = ⟨[c, b]⟩ ∧
      (after log).guard.nest [a, c] = [(true, 3), (false, 3)] ∧
      a ∉ (after (log ++ Action.enter a :: [.drop 1] ++ [Action.drop 4])).guard ∧
      c ∈ (after (log ++ Action.enter a :: [.drop 1] ++ [Action.drop 4])).guard := by
  intro node a b c log call
  obtain ⟨hmem, -, hgrants, hother, hcard, hcall, hnest, hwork⟩ := token_discipline log
  have hb : Live log 1 b :=
    ⟨[.enter a], [.enter a, .enter c, .drop 2, .drop 0], rfl, rfl, by decide, by decide⟩
  have hc : Live log 3 c :=
    ⟨[.enter a, .enter b, .enter a], [.drop 2, .drop 0], rfl, rfl, by decide, by decide⟩
  have ha : Grants log a := by decide
  have hset : (after log).guard = ⟨[c, b]⟩ := by decide
  have hnext : attempts log = 4 := rfl
  have hduring : c ∈ (after (log ++ .enter a :: [.drop 1])).guard := by decide
  have hba := hother b a (by decide)
  rw [hset] at hcard hcall hnest
  rw [hnext] at hwork
  have hcalled := hwork a [.drop 1] ha (by decide)
  refine ⟨hb, hc, (hgrants a).1 ha, (hmem b).2 ⟨1, hb⟩, fun h => (hgrants c).1 h 3 hc, hba.1.2 ha,
    (hba.2 1 hb).2 ha, hcard, (hcall call).1, ?_, fun h => ((hcalled a).1 h).2 rfl,
    (hcalled c).2 ⟨hduring, by decide⟩⟩
  rw [hset, hnest, if_pos ha]
  decide

end TypeQuery.Ledger
