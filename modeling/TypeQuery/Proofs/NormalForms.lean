import TypeQuery.Proofs.Locations

/-!
# Laws of the normal form

The normal form of a path is found by reading its components, working through them one by one, and
writing down what is left.  What is left is plain: names, after the root or not.  Plain components
are read back as they were written, and working through them again changes nothing
(`Path.components_plainText`, `Path.normalComponents_plain`).  So the components of a normal form are
those that were left (`Path.components_normal_eq`), and everything else follows from the fact that
components are worked through from left to right.

* A normal form is its own normal form.
* Taking the normal form of a path before something is joined to it makes no difference in the end:
  the components of a relative path are worked through after those of the path in front of it, and
  an absolute path takes the place of whatever was in front of it.

This holds of paths that climb as well.  They lose a `..`, or the root, but they lose it in the same
way whether or not something follows.
-/

namespace TypeQuery.Path

/-! ## What is left of the components -/

/-- Of the components of a path, names are left, after the root or not. -/
lemma exists_normalComponents (p : Path) :
    ∃ rooted names, (∀ name ∈ names, IsName name) ∧
      normalComponents p.components = plain rooted names := by
  have hinner : ∀ c ∈ inner p.text.toList, IsInner c := fun _ => isInner_of_mem_inner
  have hnil : ∀ name ∈ ([] : List String), IsName name := by simp
  rw [normalComponents_eq]
  by_cases habs : p.isAbsolute = true
  · obtain ⟨rest, hrest, -, hnormal⟩ := exists_rest hinner hnil
    exact ⟨_, rest, hrest, by rw [habs, hnormal]⟩
  · obtain ⟨lost, rest, h⟩ := exists_leads hinner hnil
    rw [Bool.not_eq_true] at habs
    exact ⟨false, rest, h.isName, by rw [habs, h.normal]⟩

/-- The components of a normal form are what was left. -/
lemma components_normal_eq (p : Path) : p.normal.components = normalComponents p.components := by
  obtain ⟨rooted, names, hnames, hplain⟩ := p.exists_normalComponents
  rw [normal, hplain, ofComponents_plain hnames, components_plainText hnames]

/-- Nothing more is lost the second time. -/
lemma normalComponents_normal (p : Path) :
    normalComponents p.normal.components = normalComponents p.components := by
  obtain ⟨rooted, names, -, hplain⟩ := p.exists_normalComponents
  rw [components_normal_eq, hplain, normalComponents_plain]

lemma normal_normal (p : Path) : p.normal.normal = p.normal :=
  congrArg ofComponents p.normalComponents_normal

/-! ## Joining -/

/-- The components of a relative path are worked through after those of the path in front of it. -/
lemma normalComponents_join (a : Path) {b : Path} (hb : b.isAbsolute = false) :
    normalComponents (a.join b).components =
      (inner b.text.toList).foldl normalStep (normalComponents a.components) := by
  by_cases ha : a.text = ""
  · obtain rfl : a = ⟨""⟩ := congrArg Path.mk ha
    rw [empty_join, normalComponents_eq, hb]
    rfl
  · rw [components_join ha hb, normalComponents, List.foldl_append]
    rfl

/-- It makes no difference whether the path in front is in normal form. -/
lemma normal_join (a b : Path) : (a.join b).normal = (a.normal.join b).normal := by
  by_cases hb : b.isAbsolute = true
  · rw [join_of_isAbsolute a hb, join_of_isAbsolute a.normal hb]
  · rw [Bool.not_eq_true] at hb
    rw [normal, normal, normalComponents_join a hb, normalComponents_join a.normal hb,
      normalComponents_normal]

/-! ## Paths in normal form -/

/-- A path is in normal form, apart from how it is written, if it has no `.` and no `..`. -/
lemma components_normal_eq_self_iff (p : Path) :
    p.normal.components = p.components ↔ .current ∉ p.components ∧ .parent ∉ p.components := by
  rw [components_normal_eq]
  constructor
  · intro hself
    obtain ⟨rooted, names, -, hplain⟩ := p.exists_normalComponents
    rw [← hself, hplain]
    exact notMem_plain rooted names
  · rintro ⟨hcurrent, hparent⟩
    exact foldl_normalStep_eq_append hcurrent hparent []

/-- A normal form is its own normal form, and its components are names, after the root if the path is
absolute and does not climb.  A path may be replaced by its normal form before another one is joined
to it.  And the normal form changes nothing but `.` and `..`: a path without these has the components
of its normal form. -/
theorem normal_canonical (a b : Path) :
    a.normal.normal = a.normal ∧
      (a.join b).normal = (a.normal.join b).normal ∧
      (∃ names : List String, (∀ name ∈ names, IsName name) ∧
        a.normal.components =
          (if a.isAbsolute && !a.climbs then [.root] else []) ++ names.map .normal) ∧
      (a.normal.components = a.components ↔
        .current ∉ a.components ∧ .parent ∉ a.components) :=
  ⟨a.normal_normal, a.normal_join b, ⟨_, a.isName_location, a.components_normal⟩,
    a.components_normal_eq_self_iff⟩

/-- `..` takes the root away like a name, before a path is joined as well as after it. -/
example : ((⟨"/lib/./.."⟩ : Path).join ⟨"../src//main"⟩).normal = ⟨"src/main"⟩ ∧
    ((⟨"/lib/./.."⟩ : Path).normal.join ⟨"../src//main"⟩).normal = ⟨"src/main"⟩ := by
  decide

end TypeQuery.Path
