import TypeQuery.Module.Search
import TypeQuery.Proofs.Paths

/-!
# Where paths lead

A path leads from a directory to a place: a name goes down, `..` goes up, and the root starts over.
`Path.location` follows a path in this way, and the question of this file is whether the normal form
of a path leads to the same place as the path does.

It does as long as every `..` has a name before it to take away.  A path for which this fails
*climbs*, and then its normal form leads elsewhere (`Path.location_normal`):

* a relative path loses the `..` that would take it out of the directory where it starts, so `../x`
  becomes `x`;
* an absolute path loses its root, which a `..` takes away like a name, so `/../x` becomes `x` as
  well, and is relative from then on.

From the root no difference is seen, since `..` stays there; the normal form is the place where the
path leads from the root, written down (`Path.normal_eq`).

Both are seen by following a path and its normal form side by side: `Path.exists_leads` does so for
the inner components of a relative path, and `Path.exists_rest` below the root.
-/

namespace TypeQuery.Path

/-! ## Following a path -/

/-- Where a component leads from a directory.  A directory is given by the names on the way to it
from the root. -/
def walkStep (here : List String) : Component → List String
  | .root => []
  | .current => here
  | .parent => here.dropLast
  | .normal name => here ++ [name]

/-- Where a path leads from a directory. -/
def location (p : Path) (dir : List String) : List String := p.components.foldl walkStep dir

/-- With so many names before the components, some `..` finds no name before it to take away. -/
def climbsFrom : Nat → List Component → Bool
  | _, [] => false
  | _, .root :: cs => climbsFrom 0 cs
  | height, .current :: cs => climbsFrom height cs
  | 0, .parent :: _ => true
  | height + 1, .parent :: cs => climbsFrom height cs
  | height, .normal _ :: cs => climbsFrom (height + 1) cs

/-- Some `..` of the path finds no name before it to take away. -/
def climbs (p : Path) : Bool := climbsFrom 0 p.components

lemma location_eq (p : Path) (dir : List String) :
    p.location dir = (inner p.text.toList).foldl walkStep (if p.isAbsolute then [] else dir) :=
  foldl_components walkStep (fun _ => rfl) dir p

lemma normalComponents_eq (p : Path) :
    normalComponents p.components =
      (inner p.text.toList).foldl normalStep (plain p.isAbsolute []) := by
  rw [normalComponents, foldl_components normalStep (fun _ => rfl)]
  cases p.isAbsolute <;> rfl

lemma climbs_eq (p : Path) : p.climbs = climbsFrom 0 (inner p.text.toList) := by
  rw [climbs, components_eq]
  cases h : p.isAbsolute with
  | true => simp [lead_of_isAbsolute h, climbsFrom]
  | false => rcases lead_of_not_isAbsolute h with hlead | hlead <;> simp [hlead, climbsFrom]

/-! ## One step -/

lemma normalStep_normal (rooted : Bool) (names : List String) (name : String) :
    normalStep (plain rooted names) (.normal name) = plain rooted (names ++ [name]) := by
  rw [plain_append]
  rfl

lemma normalStep_parent (rooted : Bool) (names : List String) (name : String) :
    normalStep (plain rooted (names ++ [name])) .parent = plain rooted names := by
  rw [plain_append]
  simp [normalStep]

/-- A `..` takes the root away, and finds nothing in the empty list. -/
lemma normalStep_parent_nil (rooted : Bool) :
    normalStep (plain rooted []) .parent = plain false [] := by
  cases rooted <;> rfl

/-! ## Relative paths -/

/-- Below any directory, the components lead from the place of `names` up by `lost` directories out
of it, and down again by `rest`.  Their normal form keeps `rest` only. -/
structure Leads (cs : List Component) (names : List String) (lost : Nat) (rest : List String) :
    Prop where
  isName : ∀ name ∈ rest, IsName name
  normal : cs.foldl normalStep (plain false names) = plain false rest
  walk : ∀ dir : List String,
    cs.foldl walkStep (dir ++ names) = dir.take (dir.length - lost) ++ rest
  climbs : lost = 0 ↔ climbsFrom names.length cs = false

lemma exists_leads {cs : List Component} (hcs : ∀ c ∈ cs, IsInner c) {names : List String}
    (hnames : ∀ name ∈ names, IsName name) : ∃ lost rest, Leads cs names lost rest := by
  induction cs generalizing names with
  | nil => exact ⟨0, names, hnames, rfl, by simp, by simp [climbsFrom]⟩
  | cons c cs ih =>
    have hrest : ∀ c ∈ cs, IsInner c := fun c hc => hcs c (List.mem_cons_of_mem _ hc)
    cases hcs c List.mem_cons_self with
    | normal hname =>
      rename_i name
      obtain ⟨lost, rest, h⟩ := ih hrest (isName_concat.2 ⟨hnames, hname⟩)
      refine ⟨lost, rest, h.isName, ?_, fun dir => ?_, ?_⟩
      · rw [List.foldl_cons, normalStep_normal, h.normal]
      · rw [List.foldl_cons, walkStep, List.append_assoc, h.walk]
      · simpa [climbsFrom] using h.climbs
    | parent =>
      obtain rfl | ⟨names, name, rfl⟩ := names.eq_nil_or_concat'
      · -- the directory itself is left, and one more with every such step
        obtain ⟨lost, rest, h⟩ := ih hrest hnames
        refine ⟨lost + 1, rest, h.isName, ?_, fun dir => ?_, by simp [climbsFrom]⟩
        · rw [List.foldl_cons, normalStep_parent_nil, h.normal]
        · have hwalk := h.walk dir.dropLast
          rw [List.append_nil] at hwalk
          rw [List.foldl_cons, List.append_nil, walkStep, hwalk, List.dropLast_eq_take,
            List.take_take, List.length_take]
          congr 2
          omega
      · obtain ⟨lost, rest, h⟩ := ih hrest (isName_concat.1 hnames).1
        refine ⟨lost, rest, h.isName, ?_, fun dir => ?_, ?_⟩
        · rw [List.foldl_cons, normalStep_parent, h.normal]
        · rw [List.foldl_cons, walkStep, ← List.append_assoc, List.dropLast_concat, h.walk]
        · simpa [climbsFrom] using h.climbs

/-! ## Absolute paths -/

/-- Below the root, the components lead to the place of `rest`, and so does their normal form if it
starts there; but it has lost the root if the components climb. -/
lemma exists_rest {cs : List Component} (hcs : ∀ c ∈ cs, IsInner c) {names : List String}
    (hnames : ∀ name ∈ names, IsName name) :
    ∃ rest, (∀ name ∈ rest, IsName name) ∧ cs.foldl walkStep names = rest ∧
      cs.foldl normalStep (plain true names) = plain (!climbsFrom names.length cs) rest := by
  induction cs generalizing names with
  | nil => exact ⟨names, hnames, rfl, by simp [climbsFrom]⟩
  | cons c cs ih =>
    have hrest : ∀ c ∈ cs, IsInner c := fun c hc => hcs c (List.mem_cons_of_mem _ hc)
    cases hcs c List.mem_cons_self with
    | normal hname =>
      rename_i name
      obtain ⟨rest, hisName, hwalk, hnormal⟩ := ih hrest (isName_concat.2 ⟨hnames, hname⟩)
      refine ⟨rest, hisName, hwalk, ?_⟩
      rw [List.foldl_cons, normalStep_normal, hnormal]
      simp [climbsFrom]
    | parent =>
      obtain rfl | ⟨names, name, rfl⟩ := names.eq_nil_or_concat'
      · -- the root is gone, and what follows is a relative path, seen from the root
        obtain ⟨lost, rest, h⟩ := exists_leads hrest hnames
        refine ⟨rest, h.isName, ?_, ?_⟩
        · simpa [walkStep] using h.walk []
        · rw [List.foldl_cons, normalStep_parent_nil, h.normal]
          simp [climbsFrom]
      · obtain ⟨rest, hisName, hwalk, hnormal⟩ := ih hrest (isName_concat.1 hnames).1
        refine ⟨rest, hisName, ?_, ?_⟩
        · rw [List.foldl_cons, walkStep, List.dropLast_concat, hwalk]
        · rw [List.foldl_cons, normalStep_parent, hnormal]
          simp [climbsFrom]

/-! ## All paths -/

lemma location_plainText {rooted : Bool} {names : List String}
    (h : ∀ name ∈ names, IsName name) (dir : List String) :
    (⟨plainText rooted names⟩ : Path).location dir = (if rooted then [] else dir) ++ names := by
  have hnames : ∀ here, (names.map Component.normal).foldl walkStep here = here ++ names := by
    clear h
    induction names with
    | nil => simp
    | cons name names ih =>
      intro here
      rw [List.map_cons, List.foldl_cons, ih]
      simp [walkStep]
  rw [location, components_plainText h, plain, List.foldl_append, hnames]
  cases rooted <;> rfl

/-- Where a path leads, and what its normal form is.  `lost` is the number of directories that a
relative path goes up out of the one where it starts. -/
lemma exists_location (p : Path) :
    ∃ lost rest, (∀ name ∈ rest, IsName name) ∧
      p.normal = ⟨plainText (p.isAbsolute && !p.climbs) rest⟩ ∧
      (∀ dir, p.location dir =
        (if p.isAbsolute then [] else dir.take (dir.length - lost)) ++ rest) ∧
      (p.isAbsolute = false → (lost = 0 ↔ p.climbs = false)) := by
  have hinner : ∀ c ∈ inner p.text.toList, IsInner c := fun _ => isInner_of_mem_inner
  have hnil : ∀ name ∈ ([] : List String), IsName name := by simp
  rw [normal, normalComponents_eq, climbs_eq]
  cases habs : p.isAbsolute with
  | true =>
    obtain ⟨rest, hisName, hwalk, hnormal⟩ := exists_rest hinner hnil
    refine ⟨0, rest, hisName, ?_, fun dir => ?_, by simp⟩
    · rw [hnormal, ofComponents_plain hisName]
      rfl
    · rw [location_eq, habs, if_pos rfl, hwalk]
      rfl
  | false =>
    obtain ⟨lost, rest, h⟩ := exists_leads hinner hnil
    refine ⟨lost, rest, h.isName, ?_, fun dir => ?_, fun _ => h.climbs⟩
    · rw [h.normal, ofComponents_plain h.isName]
      rfl
    · have hwalk := h.walk dir
      rw [List.append_nil] at hwalk
      rw [location_eq, habs, if_neg (by simp), hwalk]
      rfl

lemma isName_location (p : Path) : ∀ name ∈ p.location [], IsName name := by
  obtain ⟨lost, rest, hrest, -, hlocation, -⟩ := p.exists_location
  simpa [hlocation] using hrest

/-- The normal form of a path is the place where it leads from the root, written down.  It is
absolute if the path is and does not climb. -/
theorem normal_eq (p : Path) :
    p.normal = ⟨plainText (p.isAbsolute && !p.climbs) (p.location [])⟩ := by
  obtain ⟨lost, rest, -, hnormal, hlocation, -⟩ := p.exists_location
  simp [hnormal, hlocation]

lemma isAbsolute_normal (p : Path) : p.normal.isAbsolute = (p.isAbsolute && !p.climbs) := by
  rw [normal_eq, isAbsolute_plainText p.isName_location]

/-- The components of a normal form are names, after the root if the path is absolute and does not
climb. -/
lemma components_normal (p : Path) :
    p.normal.components = plain (p.isAbsolute && !p.climbs) (p.location []) := by
  rw [normal_eq, components_plainText p.isName_location]

/-- What is joined to a path is followed from the place where the path leads. -/
lemma location_join (p q : Path) (dir : List String) :
    (p.join q).location dir = q.location (p.location dir) := by
  by_cases hq : q.isAbsolute = true
  · rw [join_of_isAbsolute p hq, location_eq, location_eq, hq]
    rfl
  · rw [Bool.not_eq_true] at hq
    by_cases hp : p.text = ""
    · obtain rfl : p = ⟨""⟩ := congrArg Path.mk hp
      rw [empty_join]
      rfl
    · rw [location, components_join hp hq, List.foldl_append, location_eq q, hq]
      rfl

lemma location_normal_iff (p : Path) :
    (∀ dir, p.normal.location dir = p.location dir) ↔ p.climbs = false := by
  obtain ⟨lost, rest, hrest, hnormal, hlocation, hlost⟩ := p.exists_location
  simp only [hnormal, location_plainText hrest, hlocation, List.append_left_inj]
  cases habs : p.isAbsolute with
  | true =>
    constructor
    · intro h
      by_contra hclimbs
      simpa [hclimbs] using h [""]
    · intro hclimbs dir
      simp [hclimbs]
  | false =>
    rw [← hlost habs]
    constructor
    · intro h
      have hlength := congrArg List.length (h [""])
      simp only [Bool.false_and, Bool.false_eq_true, if_false, List.length_take,
        List.length_singleton] at hlength
      omega
    · rintro rfl dir
      simp

/-- A path and its normal form lead to the same place from every directory exactly if the path does
not climb; from the root they always do.  The normal form of an absolute path is absolute exactly if
the path does not climb.  So, seen from an absolute base directory, a module is named by the root
and names below it exactly if its path does not climb. -/
theorem location_normal (p : Path) :
    ((∀ dir, p.normal.location dir = p.location dir) ↔ p.climbs = false) ∧
      p.normal.location [] = p.location [] ∧
      p.normal.isAbsolute = (p.isAbsolute && !p.climbs) ∧
      ∀ m : Modules, m.base.isAbsolute = true →
        ((∃ names : List String, (m.locate p).components = .root :: names.map .normal) ↔
          (if p.isAbsolute then p else m.base.join p).climbs = false) := by
  refine ⟨p.location_normal_iff, ?_, p.isAbsolute_normal, fun m hm => ?_⟩
  · obtain ⟨lost, rest, hrest, hnormal, hlocation, -⟩ := p.exists_location
    rw [hnormal, location_plainText hrest, hlocation]
    simp
  · set q := if p.isAbsolute then p else m.base.join p with hq
    have habs : q.isAbsolute = true := by
      rw [hq]
      split
      next hp => exact hp
      next => exact isAbsolute_join hm p
    have hnames := q.components_normal
    show (∃ names : List String, q.normal.components = .root :: names.map .normal) ↔ _
    rw [habs, Bool.true_and] at hnames
    constructor
    · rintro ⟨names', hnames'⟩
      have hroot : q.normal.isAbsolute = true := by
        rw [← root_mem_components, hnames']
        exact List.mem_cons_self
      simpa [isAbsolute_normal, habs] using hroot
    · intro hclimbs
      exact ⟨q.location [], by simp [hnames, hclimbs, plain]⟩

/-- Modules without files, seen from the directory `/project`. -/
def projectModules : Modules := ⟨.listed [], [], [], ⟨"/project"⟩, ∅⟩

/-- From `/project`, the path `../lib/x.lua` stays below the root, but `../../x.lua` climbs past it
and becomes the relative path `x.lua`, which leads to another place. -/
theorem projectModules_locate :
    projectModules.base.isAbsolute = true ∧
      (∃ names : List String, (projectModules.locate ⟨"../lib/x.lua"⟩).components =
        .root :: names.map .normal) ∧
      (¬ ∃ names : List String, (projectModules.locate ⟨"../../x.lua"⟩).components =
        .root :: names.map .normal) ∧
      (projectModules.locate ⟨"../../x.lua"⟩).text = "x.lua" ∧
      (⟨"/project/../../x.lua"⟩ : Path).location ["tmp"] = ["x.lua"] ∧
      (⟨"/project/../../x.lua"⟩ : Path).normal.location ["tmp"] = ["tmp", "x.lua"] := by
  have habs : projectModules.base.isAbsolute = true := by decide
  have hinside := ((location_normal ⟨"../lib/x.lua"⟩).2.2.2 projectModules habs).2 (by decide)
  have houtside := (location_normal ⟨"../../x.lua"⟩).2.2.2 projectModules habs
  refine ⟨habs, hinside, fun h => ?_, by decide, by decide, by decide⟩
  exact absurd (houtside.1 h) (by decide)

end TypeQuery.Path
