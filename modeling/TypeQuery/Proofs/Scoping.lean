import TypeQuery.Proofs.Walks

/-!
# Lexical scoping

What a name means at the end of a walk can be read off the list of what the walk did, without the
stack of scopes that the walk keeps.  Three things are read off it.

* How many scopes are open around the current one (`Bindings.level`).  A scope that was current when
  the level was `k` is still open as long as the level has not been below `k` since.
* What a name means (`Bindings.Means`): of the scopes that are still open and declare the name, the
  innermost one decides, and in that scope the latest declaration.
* What a node was bound to (`Bindings.BoundAt`): what its name meant when it was last bound with
  success.  That scopes were closed or names declared again later makes no difference.

The bindings agree with all three (`Bindings.lexical_scoping`).  The stack is followed action by
action: each scope in it holds, for each name, the latest declaration at its level
(`Bindings.Tracks`), where the level of a scope is the number of scopes around it.  Both for
declarations and for references the question is what the latest of some occurrences is, and what one
more action does to the answer is said once for both (`Bindings.latest_extend`).
-/

namespace TypeQuery.Bindings

/-! ## The latest of some occurrences -/

/-- `d` occurs at the latest position at which anything occurs. -/
def Latest (P : Nat → Declaration → Prop) (d : Declaration) : Prop :=
  ∃ i, P i d ∧ ∀ i' d', P i' d' → i' ≤ i

/-- One more position `n` comes after all others.  The declarations that occur there hide the earlier
occurrences, which are otherwise kept or dropped together. -/
lemma latest_extend {P Q : Nat → Declaration → Prop} {n : Nat} {new : Declaration → Prop}
    {kept : Prop} (hP : ∀ i d, P i d → i < n)
    (hQ : ∀ i d, Q i d ↔ (i = n ∧ new d) ∨ (kept ∧ P i d)) (d : Declaration) :
    Latest Q d ↔ new d ∨ ((∀ d', ¬ new d') ∧ kept ∧ Latest P d) := by
  constructor
  · rintro ⟨i, hi, hlast⟩
    rcases (hQ i d).1 hi with ⟨-, hnew⟩ | ⟨hkept, hold⟩
    · exact .inl hnew
    · refine .inr ⟨fun d' hnew => ?_, hkept, i, hold, fun i' d' h => ?_⟩
      · have hle := hlast n d' ((hQ n d').2 (.inl ⟨rfl, hnew⟩))
        have hlt := hP i d hold
        omega
      · exact hlast i' d' ((hQ i' d').2 (.inr ⟨hkept, h⟩))
  · rintro (hnew | ⟨hnone, hkept, i, hi, hlast⟩)
    · refine ⟨n, (hQ n d).2 (.inl ⟨rfl, hnew⟩), fun i' d' h => ?_⟩
      rcases (hQ i' d').1 h with ⟨rfl, -⟩ | ⟨-, hold⟩
      · exact Nat.le_refl _
      · exact Nat.le_of_lt (hP i' d' hold)
    · refine ⟨i, (hQ i d).2 (.inr ⟨hkept, hi⟩), fun i' d' h => ?_⟩
      rcases (hQ i' d').1 h with ⟨-, hnew⟩ | ⟨-, hold⟩
      · exact absurd hnew (hnone d')
      · exact hlast i' d' hold

/-- Among occurrences that come to an end there is a latest. -/
lemma exists_latest {P : Nat → Declaration → Prop} {n : Nat} (hP : ∀ i d, P i d → i < n)
    {i : Nat} {d : Declaration} (h : P i d) : ∃ d', Latest P d' := by
  by_contra hnone
  -- without a latest one there is an occurrence at or after every position
  have hafter : ∀ m, ∃ i d, m ≤ i ∧ P i d := by
    intro m
    induction m with
    | zero => exact ⟨i, d, Nat.zero_le _, h⟩
    | succ m ih =>
      obtain ⟨j, e, hmj, hj⟩ := ih
      by_contra hno
      refine hnone ⟨e, j, hj, fun i' d' hi' => ?_⟩
      by_contra hlt
      exact hno ⟨i', d', by omega, hi'⟩
  obtain ⟨j, e, hnj, hj⟩ := hafter n
  have hlt := hP j e hj
  omega

/-! ## Levels -/

/-- The number of scopes around the current one after an action, if it was `k` before.  The outermost
scope is never closed. -/
def Action.levelAfter (k : Nat) : Action → Nat
  | .enter => k + 1
  | .exit => k - 1
  | _ => k

/-- The number of scopes around the current one at the end of a walk. -/
def level (log : List Action) : Nat := log.foldl Action.levelAfter 0

lemma level_concat (log : List Action) (a : Action) :
    level (log ++ [a]) = a.levelAfter (level log) :=
  List.foldl_concat ..

lemma length_scopes (b : Bindings) : b.scopes.length = b.depth + 1 := rfl

lemma depth_act (b : Bindings) (a : Action) : (b.act a).depth = a.levelAfter b.depth := by
  have hlength := congrArg List.length (scopes_act b a)
  rw [length_scopes] at hlength
  refine Nat.succ_injective (hlength.trans ?_)
  cases a with
  | exit =>
    cases h : b.enclosing with
    | nil => simp [Action.levelAfter, scopes, depth, h]
    | cons s rest => simp [Action.levelAfter, depth, h]
  | _ => rfl

lemma depth_walk (log : List Action) : (walk log).depth = level log := by
  induction log using List.reverseRecOn with
  | nil => rfl
  | append_singleton log a ih => rw [walk_concat, depth_act, ih, level_concat]

/-! ## What a name means -/

/-- The action at position `i` declares `x` as `d` in a scope of level `k` that is still open. -/
structure DeclaredAt (log : List Action) (x : String) (k i : Nat) (d : Declaration) : Prop where
  made : log[i]? = some (.declare d)
  name : d.name = x
  level_eq : level (log.take i) = k
  stillOpen : ∀ j, i ≤ j → k ≤ level (log.take j)

/-- At the end of the walk `x` means `d`: of the open scopes that declare `x` take the innermost, and
of its declarations of `x` the latest. -/
def Means (log : List Action) (x : String) (d : Declaration) : Prop :=
  ∃ k, Latest (DeclaredAt log x k) d ∧ ∀ k' i d', DeclaredAt log x k' i d' → k' ≤ k

lemma take_concat (log : List Action) (a : Action) (j : Nat) :
    (log ++ [a]).take j = if j ≤ log.length then log.take j else log ++ [a] := by
  split
  next h => exact List.take_append_of_le_length h
  next h =>
    refine List.take_of_length_le ?_
    rw [List.length_append, List.length_singleton]
    omega

namespace DeclaredAt

variable {log : List Action} {x : String} {k i : Nat} {d : Declaration}

lemma lt_length (h : DeclaredAt log x k i d) : i < log.length :=
  (List.getElem?_eq_some_iff.1 h.made).1

/-- There are no open scopes beyond the current level. -/
lemma le_level (h : DeclaredAt log x k i d) : k ≤ level log := by
  have hend := h.stillOpen log.length (Nat.le_of_lt h.lt_length)
  rwa [List.take_length] at hend

lemma of_concat {a : Action} (h : DeclaredAt (log ++ [a]) x k i d) :
    (i = log.length ∧ a = .declare d ∧ d.name = x ∧ level log = k) ∨
      (k ≤ level (log ++ [a]) ∧ DeclaredAt log x k i d) := by
  obtain ⟨hmade, hname, hlevel, hopen⟩ := h
  have hi : i < log.length + 1 := by
    obtain ⟨hlt, -⟩ := List.getElem?_eq_some_iff.1 hmade
    simpa using hlt
  rw [take_concat, if_pos (by omega)] at hlevel
  rcases Nat.lt_succ_iff_lt_or_eq.1 hi with hlt | rfl
  · have hend := hopen (log.length + 1) (by omega)
    rw [take_concat, if_neg (by omega)] at hend
    rw [List.getElem?_append_left hlt] at hmade
    refine .inr ⟨hend, hmade, hname, hlevel, fun j hj => ?_⟩
    by_cases hjlog : j ≤ log.length
    · have hthen := hopen j hj
      rwa [take_concat, if_pos hjlog] at hthen
    · -- past the end of the shorter walk nothing more happens in it
      have hthen := hopen log.length (Nat.le_of_lt hlt)
      rw [take_concat, if_pos (Nat.le_refl _), List.take_length] at hthen
      rwa [List.take_of_length_le (by omega)]
  · rw [List.getElem?_concat_length, Option.some.injEq] at hmade
    rw [List.take_length] at hlevel
    exact .inl ⟨rfl, hmade, hname, hlevel⟩

lemma concat {a : Action} (hk : k ≤ level (log ++ [a])) (h : DeclaredAt log x k i d) :
    DeclaredAt (log ++ [a]) x k i d := by
  have hlt := h.lt_length
  refine ⟨?_, h.name, ?_, fun j hj => ?_⟩
  · rw [List.getElem?_append_left hlt]
    exact h.made
  · rw [take_concat, if_pos (Nat.le_of_lt hlt)]
    exact h.level_eq
  · rw [take_concat]
    split
    · exact h.stillOpen j hj
    · exact hk

lemma new (log : List Action) (d : Declaration) :
    DeclaredAt (log ++ [.declare d]) d.name (level log) log.length d := by
  refine ⟨List.getElem?_concat_length, rfl, ?_, fun j hj => ?_⟩
  · rw [take_concat, if_pos (Nat.le_refl _), List.take_length]
  · rw [take_concat]
    split
    · rw [List.take_of_length_le hj]
    · rw [level_concat]
      exact Nat.le_refl _

end DeclaredAt

/-- One more action closes the scope at level `k`, or leaves it open and may declare `x` there. -/
lemma declaredAt_concat (log : List Action) (a : Action) (x : String) (k i : Nat)
    (d : Declaration) :
    DeclaredAt (log ++ [a]) x k i d ↔
      (i = log.length ∧ a = .declare d ∧ d.name = x ∧ level log = k) ∨
        (k ≤ level (log ++ [a]) ∧ DeclaredAt log x k i d) := by
  constructor
  · exact DeclaredAt.of_concat
  · rintro (⟨rfl, rfl, rfl, rfl⟩ | ⟨hk, h⟩)
    · exact .new log d
    · exact h.concat hk

lemma latest_declaredAt_concat (log : List Action) (a : Action) (x : String) (k : Nat)
    (d : Declaration) :
    Latest (DeclaredAt (log ++ [a]) x k) d ↔
      (a = .declare d ∧ d.name = x ∧ level log = k) ∨
        ((∀ d', ¬ (a = .declare d' ∧ d'.name = x ∧ level log = k)) ∧ k ≤ level (log ++ [a]) ∧
          Latest (DeclaredAt log x k) d) :=
  latest_extend (fun _ _ h => h.lt_length) (declaredAt_concat log a x k) d

lemma Latest.le_level {log : List Action} {x : String} {k : Nat} {d : Declaration}
    (h : Latest (DeclaredAt log x k) d) : k ≤ level log := by
  obtain ⟨i, hi, -⟩ := h
  exact hi.le_level

/-! ## The stack of scopes -/

/-- Each of the scopes, innermost first, holds the latest declarations at its level, which is the
number of scopes around it. -/
def Tracks (log : List Action) : List Scope → Prop
  | [] => True
  | s :: outer =>
    (∀ x d, s.find? x = some d ↔ Latest (DeclaredAt log x outer.length) d) ∧ Tracks log outer

lemma Tracks.congr {log log' : List Action} {scopes : List Scope} (h : Tracks log scopes)
    (heq : ∀ x k d, k < scopes.length →
      (Latest (DeclaredAt log' x k) d ↔ Latest (DeclaredAt log x k) d)) : Tracks log' scopes := by
  induction scopes with
  | nil => trivial
  | cons s outer ih =>
    obtain ⟨hs, houter⟩ := h
    refine ⟨fun x d => (hs x d).trans (heq x _ d (Nat.lt_succ_self _)).symm, ih houter ?_⟩
    exact fun x k d hk => heq x k d (Nat.lt_succ_of_lt hk)

/-- An action that declares nothing at these levels, and closes none of them, changes nothing. -/
lemma Tracks.concat {log : List Action} {a : Action} {scopes : List Scope}
    (h : Tracks log scopes) (hdeclare : ∀ d, a = .declare d → scopes.length ≤ level log)
    (hlevel : ∀ k < scopes.length, k ≤ level (log ++ [a])) : Tracks (log ++ [a]) scopes := by
  refine h.congr fun x k d hk => ?_
  have hnew : ∀ d', ¬ (a = .declare d' ∧ d'.name = x ∧ level log = k) := by
    rintro d' ⟨ha, -, hk'⟩
    have := hdeclare d' ha
    omega
  rw [latest_declaredAt_concat]
  constructor
  · rintro (hd | ⟨-, -, hd⟩)
    · exact absurd hd (hnew d)
    · exact hd
  · exact fun hd => .inr ⟨hnew, hlevel k hk, hd⟩

/-- Nothing is declared in a new scope. -/
lemma Tracks.enter {log : List Action} {scopes : List Scope} (h : Tracks log scopes)
    (hlength : scopes.length = level log + 1) : Tracks (log ++ [.enter]) (∅ :: scopes) := by
  have hlevel : level (log ++ [.enter]) = level log + 1 := level_concat ..
  refine ⟨fun x d => ?_, h.concat (fun _ h => nomatch h) fun k hk => by omega⟩
  rw [latest_declaredAt_concat]
  constructor
  · exact fun h => nomatch h
  · rintro (⟨h, -⟩ | ⟨-, -, h⟩)
    · cases h
    · have hle := h.le_level
      omega

/-- A declaration hides what the scope had under its name. -/
lemma Tracks.declare {log : List Action} {s : Scope} {outer : List Scope}
    (h : Tracks log (s :: outer)) (hlength : outer.length = level log) (d : Declaration) :
    Tracks (log ++ [.declare d]) (s.insert d.name d :: outer) := by
  obtain ⟨hs, houter⟩ := h
  have hlevel : level (log ++ [.declare d]) = level log := level_concat ..
  refine ⟨fun x d' => ?_, houter.concat (fun _ _ => hlength.le) fun k hk => by omega⟩
  rw [Catalog.find?_insert, latest_declaredAt_concat, hlevel, hlength]
  rw [hlength] at hs
  by_cases hx : d.name = x
  · rw [if_pos hx]
    constructor
    · intro h
      obtain rfl := Option.some.inj h
      exact .inl ⟨rfl, hx, rfl⟩
    · rintro (⟨h, -⟩ | ⟨hnone, -⟩)
      · rw [Action.declare.inj h]
      · exact absurd ⟨rfl, hx, rfl⟩ (hnone d)
  · rw [if_neg hx, hs]
    constructor
    · refine fun h => .inr ⟨?_, Nat.le_refl _, h⟩
      rintro d'' ⟨h', hname, -⟩
      exact hx (Action.declare.inj h' ▸ hname)
    · rintro (⟨h', hname, -⟩ | ⟨-, -, h⟩)
      · exact absurd (Action.declare.inj h' ▸ hname) hx
      · exact h

/-- The scopes of the bindings keep track of one more action. -/
lemma Tracks.act {log : List Action} {b : Bindings} (h : Tracks log b.scopes)
    (hdepth : b.depth = level log) (a : Action) : Tracks (log ++ [a]) (b.act a).scopes := by
  have hlength := length_scopes b
  have hlevel := level_concat log a
  rw [scopes_act]
  cases a with
  | enter => exact h.enter (by omega)
  | declare d => exact h.declare hdepth d
  | exit =>
    change _ = level log - 1 at hlevel
    by_cases henclosing : b.enclosing = []
    · -- the outermost scope stays open
      have hzero : b.depth = 0 := congrArg List.length henclosing
      simp only [henclosing, if_true]
      exact h.concat (fun _ h => nomatch h) fun k hk => by omega
    · simp only [henclosing, if_false]
      have houter : b.enclosing.length = b.depth := rfl
      exact h.2.concat (fun _ h => nomatch h) fun k hk => by omega
  | _ =>
    change _ = level log at hlevel
    exact h.concat (fun _ h => nomatch h) fun k hk => by omega

lemma tracks_walk (log : List Action) : Tracks log (walk log).scopes := by
  induction log using List.reverseRecOn with
  | nil =>
    refine ⟨fun x d => ?_, trivial⟩
    constructor
    · exact fun h => nomatch h
    · rintro ⟨i, hi, -⟩
      cases hi.made
  | append_singleton log a ih =>
    rw [walk_concat]
    exact ih.act (depth_walk log) a

/-- Looking through the scopes from the inside finds the declaration of the innermost scope that has
one. -/
lemma Tracks.findSome?_eq_some_iff {log : List Action} {scopes : List Scope}
    (h : Tracks log scopes) (x : String) (d : Declaration) :
    scopes.findSome? (Scope.lookup · x) = some d ↔
      ∃ k, k < scopes.length ∧ Latest (DeclaredAt log x k) d ∧
        ∀ k' d', k' < scopes.length → Latest (DeclaredAt log x k') d' → k' ≤ k := by
  induction scopes with
  | nil => simp
  | cons s outer ih =>
    obtain ⟨hs, houter⟩ := h
    rw [List.findSome?_cons, Scope.lookup]
    cases hfind : s.find? x with
    | some d₀ =>
      have h₀ := (hs x d₀).1 hfind
      simp only [Option.some.injEq]
      constructor
      · rintro rfl
        exact ⟨outer.length, Nat.lt_succ_self _, h₀, fun k' _ hk' _ => Nat.le_of_lt_succ hk'⟩
      · rintro ⟨k, hk, hd, hinner⟩
        have hle := hinner _ d₀ (Nat.lt_succ_self _) h₀
        obtain rfl : k = outer.length := Nat.le_antisymm (Nat.le_of_lt_succ hk) hle
        rw [← hs, hfind] at hd
        exact Option.some.inj hd
    | none =>
      have hnone : ∀ d', ¬ Latest (DeclaredAt log x outer.length) d' := by
        intro d' hd'
        rw [← hs, hfind] at hd'
        cases hd'
      have hlt : ∀ k d', k < outer.length + 1 → Latest (DeclaredAt log x k) d' →
          k < outer.length := by
        intro k d' hk hd'
        rcases Nat.lt_succ_iff_lt_or_eq.1 hk with hk | rfl
        · exact hk
        · exact absurd hd' (hnone d')
      refine (ih houter).trans ?_
      constructor
      · rintro ⟨k, hk, hd, hinner⟩
        exact ⟨k, Nat.lt_succ_of_lt hk, hd, fun k' d' hk' hd' => hinner k' d' (hlt k' d' hk' hd') hd'⟩
      · rintro ⟨k, hk, hd, hinner⟩
        exact ⟨k, hlt k d hk hd, hd, fun k' d' hk' => hinner k' d' (Nat.lt_succ_of_lt hk')⟩

lemma lookup_walk (log : List Action) (x : String) (d : Declaration) :
    (walk log).lookup x = some d ↔ Means log x d := by
  have hlength : (walk log).scopes.length = level log + 1 := by rw [length_scopes, depth_walk]
  rw [lookup, (tracks_walk log).findSome?_eq_some_iff, hlength]
  constructor
  · rintro ⟨k, -, hd, hinner⟩
    refine ⟨k, hd, fun k' i d' hi => ?_⟩
    obtain ⟨d'', hd''⟩ := exists_latest (P := DeclaredAt log x k') (fun _ _ h => h.lt_length) hi
    exact hinner k' d'' (Nat.lt_succ_of_le hi.le_level) hd''
  · rintro ⟨k, hd, hinner⟩
    refine ⟨k, Nat.lt_succ_of_le hd.le_level, hd, fun k' d' _ => ?_⟩
    rintro ⟨i, hi, -⟩
    exact hinner k' i d' hi

/-! ## References -/

/-- The action at position `i` binds the node `n`, which is a name that means `d` there. -/
def BoundAt (log : List Action) (n : NodeId) (i : Nat) (d : Declaration) : Prop :=
  ∃ e x, log[i]? = some (.bind e) ∧ e.id = n ∧ e.name? = some x ∧
    (walk (log.take i)).lookup x = some d

lemma boundAt_iff {log : List Action} {n : NodeId} {i : Nat} {d : Declaration} :
    BoundAt log n i d ↔
      ∃ a, log[i]? = some a ∧ a.meaning? (walk (log.take i)) n = some d := by
  constructor
  · rintro ⟨e, x, he, hid, hx, hd⟩
    refine ⟨_, he, ?_⟩
    rw [Action.meaning?, if_pos hid, hx]
    exact hd
  · rintro ⟨a, ha, hd⟩
    cases a with
    | bind e =>
      rw [Action.meaning?, Option.ite_none_right_eq_some] at hd
      obtain ⟨hid, hd⟩ := hd
      obtain ⟨x, hx, hd⟩ := Option.bind_eq_some_iff.1 hd
      exact ⟨e, x, ha, hid, hx, hd⟩
    | _ => cases hd

lemma BoundAt.lt_length {log : List Action} {n : NodeId} {i : Nat} {d : Declaration}
    (h : BoundAt log n i d) : i < log.length := by
  obtain ⟨_, _, he, -⟩ := h
  exact (List.getElem?_eq_some_iff.1 he).1

/-- Binding a node succeeds exactly if it is bound to something. -/
lemma bind_eq_true_iff {log : List Action} {i : Nat} {e : Expr} (he : log[i]? = some (.bind e)) :
    ((walk (log.take i)).bind e).1 = true ↔ ∃ d, BoundAt log e.id i d := by
  have hbound : ∀ d, BoundAt log e.id i d ↔ e.name?.bind (walk (log.take i)).lookup = some d := by
    intro d
    rw [boundAt_iff, he]
    simp [Action.meaning?]
  simp only [hbound, bind]
  cases e.name?.bind (walk (log.take i)).lookup <;> simp

lemma boundAt_concat (log : List Action) (a : Action) (n : NodeId) (i : Nat) (d : Declaration) :
    BoundAt (log ++ [a]) n i d ↔
      (i = log.length ∧ a.meaning? (walk log) n = some d) ∨ (True ∧ BoundAt log n i d) := by
  rw [true_and, boundAt_iff, boundAt_iff]
  rcases Nat.lt_trichotomy i log.length with hi | rfl | hi
  · rw [List.getElem?_append_left hi, List.take_append_of_le_length (Nat.le_of_lt hi)]
    simp [Nat.ne_of_lt hi]
  · rw [List.getElem?_concat_length, List.take_append_of_le_length (Nat.le_refl _), List.take_length]
    simp
  · have hnone : (log ++ [a])[i]? = none := by
      refine List.getElem?_eq_none ?_
      rw [List.length_append, List.length_singleton]
      exact hi
    rw [hnone, List.getElem?_eq_none (Nat.le_of_lt hi)]
    simp [Nat.ne_of_gt hi]

/-- The reference of a node is what it was last bound to. -/
lemma find?_references_walk (log : List Action) (n : NodeId) (d : Declaration) :
    (walk log).references.find? n = some d ↔ Latest (BoundAt log n) d := by
  induction log using List.reverseRecOn generalizing d with
  | nil =>
    constructor
    · exact fun h => nomatch h
    · rintro ⟨i, hi, -⟩
      cases hi.lt_length
  | append_singleton log a ih =>
    rw [walk_concat, find?_references_act, Option.or_eq_some_iff, ih,
      latest_extend (fun _ _ h => BoundAt.lt_length h) (boundAt_concat log a n), true_and]
    refine or_congr_right (and_congr_left fun _ => ?_)
    rw [Option.eq_none_iff_forall_ne_some]

/-! ## Blocks -/

/-- Every scope that the actions open is closed by them again, and no other. -/
inductive Balanced : List Action → Prop
  | nil : Balanced []
  | plain {a : Action} {rest : List Action} (notEnter : a ≠ .enter) (notExit : a ≠ .exit)
      (h : Balanced rest) : Balanced (a :: rest)
  | block {body rest : List Action} (hbody : Balanced body) (hrest : Balanced rest) :
      Balanced (.enter :: body ++ .exit :: rest)

/-- Balanced actions leave the scopes around the current one alone. -/
lemma Balanced.enclosing {body : List Action} (h : Balanced body) (b : Bindings) :
    (body.foldl act b).enclosing = b.enclosing := by
  induction h generalizing b with
  | nil => rfl
  | @plain a rest notEnter notExit _ ih =>
    have hscopes := scopes_act b a
    refine (ih (b.act a)).trans ?_
    cases a with
    | enter => exact absurd rfl notEnter
    | exit => exact absurd rfl notExit
    | _ => exact (List.cons.inj hscopes).2
  | @block body rest _ _ ihbody ihrest =>
    have hinside : (body.foldl act (b.act .enter)).enclosing = b.scopes := ihbody _
    have hscopes := scopes_act (body.foldl act (b.act .enter)) .exit
    simp only [hinside, scopes, reduceCtorEq, if_false] at hscopes
    rw [List.cons_append, List.foldl_cons, List.foldl_append, List.foldl_cons]
    exact (ihrest _).trans (List.cons.inj hscopes).2

/-- After a block the scopes are as they were before it. -/
lemma scopes_block (log : List Action) {body : List Action} (h : Balanced body) :
    (walk (log ++ .enter :: body ++ [.exit])).scopes = (walk log).scopes := by
  have hinside : (walk (log ++ .enter :: body)).enclosing = (walk log).scopes := by
    rw [walk, List.foldl_append, List.foldl_cons]
    exact h.enclosing _
  have hscopes := scopes_act (walk (log ++ .enter :: body)) .exit
  rw [← walk_concat] at hscopes
  simp only [hinside] at hscopes
  exact hscopes

/-! ## The result -/

/-- At the end of every walk, a name means the latest declaration of it in the innermost open scope
that declares it.  A node that was ever bound with success means the declaration that its name meant
when it was last bound so, and no other; a name node that never was stands for its global, and means
all declarations of that global, in the order in which the walk met them.  A block changes neither what
any name means nor the number of open scopes. -/
theorem lexical_scoping (log : List Action) :
    (walk log).depth = level log ∧
    (∀ x d, (walk log).lookup x = some d ↔ Means log x d) ∧
    (∀ i e, log[i]? = some (.bind e) →
      (((walk (log.take i)).bind e).1 = true ↔ ∃ d, BoundAt log e.id i d)) ∧
    (∀ e, (∃ i d, BoundAt log e.id i d) →
      ∃ d, Latest (BoundAt log e.id) d ∧ (walk log).candidates e = [d] ∧
        (walk log).isGlobal e = false) ∧
    (∀ id x, (∀ i d, ¬ BoundAt log id i d) →
      (walk log).isGlobal (.name id x) = true ∧
        (walk log).candidates (.name id x) = log.filterMap (Action.globalOf? x)) ∧
    (∀ body, Balanced body →
      (walk (log ++ .enter :: body ++ [.exit])).depth = (walk log).depth ∧
        ∀ x, (walk (log ++ .enter :: body ++ [.exit])).lookup x = (walk log).lookup x) := by
  refine ⟨depth_walk log, lookup_walk log, fun i e => bind_eq_true_iff, ?_, ?_, ?_⟩
  · rintro e ⟨i, d, hd⟩
    obtain ⟨d', hd'⟩ := exists_latest (P := BoundAt log e.id) (fun _ _ h => h.lt_length) hd
    have hfind := (find?_references_walk log e.id d').2 hd'
    refine ⟨d', hd', candidates_of_find? hfind, ?_⟩
    simp [isGlobal, Catalog.contains, hfind]
  · intro id x hnever
    have hfind : (walk log).references.find? id = none := by
      rw [Option.eq_none_iff_forall_ne_some]
      intro d hd
      obtain ⟨i, hi, -⟩ := (find?_references_walk log id d).1 hd
      exact hnever i d hi
    refine ⟨((walk log).isGlobal_name id x).2 hfind, ?_⟩
    rw [candidates_of_unbound x hfind, globalsOf_walk]
  · intro body hbody
    have hscopes := scopes_block log hbody
    refine ⟨?_, fun x => ?_⟩
    · have hlength := congrArg List.length hscopes
      rw [length_scopes, length_scopes] at hlength
      exact Nat.succ_injective hlength
    · rw [lookup, hscopes, lookup]

/-- `local x`, then a block in which `x` is declared, used and declared again, then an `end` too many,
and a global `g`. -/
def unevenWalk : List Action :=
  [.declare (.localName ⟨0, 0⟩ "x"), .enter, .declare (.localName ⟨0, 1⟩ "x"),
    .bind (.name ⟨0, 2⟩ "x"), .declare (.localName ⟨0, 3⟩ "x"), .exit, .exit,
    .declareGlobal (.localName ⟨0, 4⟩ "g")]

/-- The outer `x` is in force again; the `x` that was used in the block still means the first one of
the block; a use of `g` means the global.  A further block that declares `x` changes nothing. -/
theorem unevenWalk_scoping :
    let inner : List Action := [.declare (.localName ⟨0, 6⟩ "x"), .enter, .exit]
    Means unevenWalk "x" (.localName ⟨0, 0⟩ "x") ∧
      (∃ d, Latest (BoundAt unevenWalk ⟨0, 2⟩) d ∧
        (walk unevenWalk).candidates (.name ⟨0, 2⟩ "x") = [d] ∧ d.id = ⟨0, 1⟩) ∧
      (∀ i d, ¬ BoundAt unevenWalk ⟨0, 5⟩ i d) ∧
      ((walk unevenWalk).candidates (.name ⟨0, 5⟩ "g")).map Declaration.id = [⟨0, 4⟩] ∧
      Balanced inner ∧
      (walk (unevenWalk ++ .enter :: inner ++ [.exit])).lookup "x" =
        (walk unevenWalk).lookup "x" := by
  intro inner
  have hnever : ∀ i d, ¬ BoundAt unevenWalk ⟨0, 5⟩ i d := by
    rintro i d ⟨e, x, he, hid, -⟩
    have hmem := List.mem_of_getElem? he
    simp only [unevenWalk, List.mem_cons, Action.bind.injEq, reduceCtorEq, false_or,
      List.not_mem_nil, or_false] at hmem
    rw [hmem] at hid
    cases hid
  have hinner : Balanced inner := .plain (by simp) (by simp) (.block .nil .nil)
  obtain ⟨-, hlookup, -, hbound, hglobal, hblock⟩ := lexical_scoping unevenWalk
  have hfirst : BoundAt unevenWalk ⟨0, 2⟩ 3 (.localName ⟨0, 1⟩ "x") := ⟨_, _, rfl, rfl, rfl, rfl⟩
  obtain ⟨d, hlatest, hcandidates, -⟩ := hbound (.name ⟨0, 2⟩ "x") ⟨3, _, hfirst⟩
  have hd : [d] = [Declaration.localName ⟨0, 1⟩ "x"] := hcandidates.symm.trans rfl
  refine ⟨(hlookup _ _).1 rfl, ⟨d, hlatest, hcandidates, ?_⟩, hnever, ?_, hinner,
    (hblock inner hinner).2 "x"⟩
  · rw [List.singleton_inj.1 hd]
    rfl
  · rw [(hglobal ⟨0, 5⟩ "g" hnever).2]
    rfl

end TypeQuery.Bindings
