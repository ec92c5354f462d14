import Mathlib.Data.List.Perm.Basic
import TypeQuery.Proofs.Walks

/-!
# What is visible is what is found

There are two ways to ask what can be used at a point of a walk.  Looking up one name goes through the
open scopes from the inside and stops at the first scope that declares it.  Listing all names starts
at the outside and lays each scope over those around it.  Both give every name the same declaration
(`Bindings.visible_iff_lookup`).

A scope is a map, and in which order its names are laid over the others must not matter.  So
`Bindings.overlay` takes the entries of each scope as a list, and the result holds for every
arrangement of every scope.  It rests on each scope having each name once, which is true after every
walk (`Bindings.nodup_keys_walk`).
-/

namespace TypeQuery

/-! ## Maps with each key once -/

namespace Catalog

variable {κ α : Type} [DecidableEq κ]

lemma nodup_keys_insert {c : Catalog κ α} (h : c.keys.Nodup) (k : κ) (a : α) :
    (c.insert k a).keys.Nodup := by
  rw [keys_insert]
  split
  next => exact h
  next hk =>
    rw [← List.concat_eq_append]
    exact h.concat hk

lemma findIn_eq_some_iff {l : List (κ × α)} (h : (l.map Prod.fst).Nodup) {k : κ} {a : α} :
    findIn k l = some a ↔ (k, a) ∈ l := by
  induction l with
  | nil => simp [findIn]
  | cons e rest ih =>
    obtain ⟨j, b⟩ := e
    obtain ⟨hj, hrest⟩ := List.nodup_cons.1 h
    rw [findIn, List.mem_cons, Prod.mk.injEq]
    by_cases hjk : j = k
    · subst hjk
      have hmem : (j, a) ∉ rest := fun hmem => hj (List.mem_map.2 ⟨_, hmem, rfl⟩)
      simp [hmem, eq_comm]
    · rw [if_neg hjk, ih hrest]
      simp [Ne.symm hjk]

/-- If each key is there once, the entries can be found in any order. -/
lemma findIn_of_perm {c : Catalog κ α} (h : c.keys.Nodup) {l : List (κ × α)}
    (hl : l.Perm c.entries) (k : κ) : findIn k l = c.find? k := by
  have hrecent : l.Perm c.recent := hl.trans (List.reverse_perm _)
  have hnodup : (c.recent.map Prod.fst).Nodup := by
    rwa [keys, entries, List.map_reverse, List.nodup_reverse] at h
  refine Option.ext fun a => ?_
  rw [find?, findIn_eq_some_iff hnodup,
    findIn_eq_some_iff ((hrecent.map Prod.fst).nodup_iff.2 hnodup)]
  exact hrecent.mem_iff

lemma mem_entries_iff {c : Catalog κ α} (h : c.keys.Nodup) {k : κ} {a : α} :
    (k, a) ∈ c.entries ↔ c.find? k = some a := by
  rw [← findIn_of_perm h (List.Perm.refl _), findIn_eq_some_iff h]

/-- Stores entries, one after the other. -/
def storeAll (c : Catalog κ α) (l : List (κ × α)) : Catalog κ α :=
  l.foldl (fun c (k, a) => c.insert k a) c

/-- Stored entries with different keys are laid over what was there. -/
lemma find?_storeAll (c : Catalog κ α) {l : List (κ × α)} (h : (l.map Prod.fst).Nodup) (k : κ) :
    (c.storeAll l).find? k = (findIn k l).or (c.find? k) := by
  induction l generalizing c with
  | nil => rfl
  | cons e rest ih =>
    obtain ⟨j, b⟩ := e
    obtain ⟨hj, hrest⟩ := List.nodup_cons.1 h
    have hstep : ((c.insert j b).storeAll rest).find? k = _ := ih (c.insert j b) hrest
    refine hstep.trans ?_
    rw [find?_insert, findIn]
    by_cases hjk : j = k
    · -- the key does not come again, so the value is not replaced
      subst hjk
      have hnone : findIn j rest = none := by
        rwa [← Option.not_isSome_iff_eq_none, findIn_isSome_iff]
      simp [hnone]
    · rw [if_neg hjk, if_neg hjk]

lemma nodup_keys_storeAll {c : Catalog κ α} (h : c.keys.Nodup) (l : List (κ × α)) :
    (c.storeAll l).keys.Nodup := by
  induction l generalizing c with
  | nil => exact h
  | cons e rest ih => exact ih (nodup_keys_insert h e.1 e.2)

end Catalog

namespace Bindings

/-! ## Scopes -/

lemma nodup_keys_act {b : Bindings} (h : ∀ s ∈ b.scopes, s.keys.Nodup) (a : Action) :
    ∀ s ∈ (b.act a).scopes, s.keys.Nodup := by
  obtain ⟨hcurrent, henclosing⟩ := List.forall_mem_cons.1 h
  rw [scopes_act]
  cases a with
  | enter => exact List.forall_mem_cons.2 ⟨List.nodup_nil, h⟩
  | exit =>
    by_cases hnil : b.enclosing = []
    · simpa only [hnil, if_true] using h
    · simpa only [hnil, if_false] using henclosing
  | declare d =>
    exact List.forall_mem_cons.2 ⟨Catalog.nodup_keys_insert hcurrent _ _, henclosing⟩
  | _ => exact h

/-- After every walk, each open scope has each name once. -/
lemma nodup_keys_walk (log : List Action) : ∀ s ∈ (walk log).scopes, s.keys.Nodup := by
  induction log using List.reverseRecOn with
  | nil => exact List.forall_mem_cons.2 ⟨List.nodup_nil, fun _ hs => absurd hs List.not_mem_nil⟩
  | append_singleton log a ih =>
    rw [walk_concat]
    exact nodup_keys_act ih a

/-! ## Scopes laid over each other -/

/-- The names of scopes that are laid over each other.  Each scope is given by its entries, and the
innermost scope comes first. -/
def overlay (layers : List (List (String × Declaration))) : Catalog String Declaration :=
  layers.reverse.foldl Catalog.storeAll ∅

lemma overlay_cons (layer : List (String × Declaration))
    (layers : List (List (String × Declaration))) :
    overlay (layer :: layers) = (overlay layers).storeAll layer := by
  rw [overlay, List.reverse_cons, List.foldl_concat, overlay]

lemma nodup_keys_overlay (layers : List (List (String × Declaration))) :
    (overlay layers).keys.Nodup := by
  induction layers with
  | nil => exact List.nodup_nil
  | cons layer layers ih =>
    rw [overlay_cons]
    exact Catalog.nodup_keys_storeAll ih layer

lemma visible_eq_overlay (b : Bindings) :
    b.visible = overlay (b.scopes.map Catalog.entries) := by
  rw [overlay, ← List.map_reverse, List.foldl_map]
  rfl

/-- However the entries of each scope are arranged, the innermost scope that has a name decides. -/
lemma find?_overlay {layers : List (List (String × Declaration))} {scopes : List Scope}
    (h : List.Forall₂ (fun layer s => layer.Perm s.entries) layers scopes)
    (hscopes : ∀ s ∈ scopes, s.keys.Nodup) (x : String) :
    (overlay layers).find? x = scopes.findSome? (Scope.lookup · x) := by
  induction h with
  | nil => rfl
  | @cons layer s layers scopes hlayer _ ih =>
    obtain ⟨hs, hrest⟩ := List.forall_mem_cons.1 hscopes
    have hnodup : (layer.map Prod.fst).Nodup := (hlayer.map Prod.fst).nodup_iff.2 hs
    rw [overlay_cons, Catalog.find?_storeAll _ hnodup, Catalog.findIn_of_perm hs hlayer, ih hrest,
      List.findSome?_cons, Scope.lookup]
    cases s.find? x <;> rfl

/-- After every walk, the visible names are those that are found by looking them up, each with the
declaration that is found: in the map of visible names, in its list by name, and in every map that
results from laying the open scopes over each other, with the entries of each scope in any order. -/
theorem visible_iff_lookup (log : List Action) (x : String) (d : Declaration) :
    ((walk log).visible.find? x = some d ↔ (walk log).lookup x = some d) ∧
    ((x, d) ∈ (walk log).visibleByName ↔ (walk log).lookup x = some d) ∧
    (walk log).visible = overlay ((walk log).scopes.map Catalog.entries) ∧
    ∀ layers, List.Forall₂ (fun layer s => layer.Perm s.entries) layers (walk log).scopes →
      ((overlay layers).find? x = some d ↔ (walk log).lookup x = some d) := by
  have hoverlay : ∀ layers,
      List.Forall₂ (fun layer s => layer.Perm s.entries) layers (walk log).scopes →
        (overlay layers).find? x = (walk log).lookup x :=
    fun layers h => find?_overlay h (nodup_keys_walk log) x
  have hvisible : (walk log).visible.find? x = (walk log).lookup x := by
    rw [visible_eq_overlay]
    refine hoverlay _ ?_
    rw [List.forall₂_map_left_iff]
    exact List.forall₂_same.2 fun s _ => List.Perm.refl _
  have hnodup : (walk log).visible.keys.Nodup := by
    rw [visible_eq_overlay]
    exact nodup_keys_overlay _
  refine ⟨by rw [hvisible], ?_, visible_eq_overlay _, fun layers h => by rw [hoverlay layers h]⟩
  rw [visibleByName, (List.mergeSort_perm _ _).mem_iff, Catalog.mem_entries_iff hnodup, hvisible]

/-- `local x, y`, then a block with another `x` and a `z`. -/
def shadowingWalk : List Action :=
  [.declare (.localName ⟨0, 0⟩ "x"), .declare (.localName ⟨0, 1⟩ "y"), .enter,
    .declare (.localName ⟨0, 2⟩ "x"), .declare (.localName ⟨0, 3⟩ "z")]

/-- The entries of both scopes are taken in the opposite order.  The inner `x` and the outer `y` are
visible, as they are found. -/
theorem shadowingWalk_visible :
    let layers := (walk shadowingWalk).scopes.map (·.entries.reverse)
    List.Forall₂ (fun layer s => layer.Perm s.entries) layers (walk shadowingWalk).scopes ∧
      (overlay layers).find? "x" = some (.localName ⟨0, 2⟩ "x") ∧
      (overlay layers).find? "y" = some (.localName ⟨0, 1⟩ "y") ∧
      ("x", .localName ⟨0, 2⟩ "x") ∈ (walk shadowingWalk).visibleByName := by
  intro layers
  have hlayers : List.Forall₂ (fun layer s => layer.Perm s.entries) layers
      (walk shadowingWalk).scopes := by
    rw [List.forall₂_map_left_iff]
    exact List.forall₂_same.2 fun s _ => List.reverse_perm _
  obtain ⟨-, hlisted, -, hx⟩ := visible_iff_lookup shadowingWalk "x" (.localName ⟨0, 2⟩ "x")
  obtain ⟨-, -, -, hy⟩ := visible_iff_lookup shadowingWalk "y" (.localName ⟨0, 1⟩ "y")
  exact ⟨hlayers, (hx layers hlayers).2 rfl, (hy layers hlayers).2 rfl, hlisted.2 rfl⟩

end Bindings

end TypeQuery
