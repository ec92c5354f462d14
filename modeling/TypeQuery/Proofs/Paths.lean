import Mathlib.Data.List.Basic
import Mathlib.Data.List.Induction
import TypeQuery.Path.Normal

/-!
# Reading and writing paths

A path is a text, and its components are read off it.  The two directions meet here: what the
components of a joined path are (`Path.components_join`), and that components which stand for
themselves are read back as they were written (`Path.components_plainText`).

All but the first component of a path are read in the same way wherever they stand, and a slash
between two texts separates their components; `Path.inner` is this part of reading, and
`Path.components_eq` adds the first component.  An inner component is a `..` or a name, and a name
is a text that can only be read as itself (`Path.IsName`).

A path in normal form has no other components than names, after the root if it is absolute.
`Path.plain` is the list of these, and such a list is the normal form of itself
(`Path.normalComponents_plain`).
-/

namespace TypeQuery.Path

/-! ## Parts -/

/-- The parts of a text are what splitting it at its slashes gives. -/
lemma parts_eq_splitOn (cs : List Char) : parts cs = cs.splitOn '/' := by
  induction cs with
  | nil => rfl
  | cons c cs ih =>
    rw [List.splitOn_cons_eq_if_modifyHead, ← ih]
    by_cases hc : c = '/'
    · subst hc
      simp [parts]
    · have hne : parts cs ≠ [] := by
        rw [ih]
        exact List.splitOn_ne_nil _ _
      obtain ⟨part, rest, hparts⟩ := List.exists_cons_of_ne_nil hne
      simp [parts, hc, hparts]

lemma parts_ne_nil (cs : List Char) : parts cs ≠ [] := by
  rw [parts_eq_splitOn]
  exact List.splitOn_ne_nil _ _

lemma parts_append_slash (as bs : List Char) :
    parts (as ++ '/' :: bs) = parts as ++ parts bs := by
  simp only [parts_eq_splitOn, List.splitOn_append_cons_self]

/-- What is in a part of a text between separators is in the text, and is no separator. -/
lemma mem_of_mem_splitOn {a : Char} {cs part : List Char} (h : part ∈ cs.splitOn a) {x : Char}
    (hx : x ∈ part) : x ∈ cs ∧ x ≠ a := by
  induction cs generalizing part with
  | nil =>
    rw [List.splitOn_nil, List.mem_singleton] at h
    rw [h] at hx
    cases hx
  | cons c cs ih =>
    rw [List.splitOn_cons_eq_if_modifyHead] at h
    have hrest : ∀ {part}, part ∈ cs.splitOn a → x ∈ part → x ∈ c :: cs ∧ x ≠ a := by
      intro part hpart hx
      obtain ⟨hmem, hne⟩ := ih hpart hx
      exact ⟨List.mem_cons_of_mem _ hmem, hne⟩
    obtain ⟨first, rest, hparts⟩ := List.exists_cons_of_ne_nil (List.splitOn_ne_nil a cs)
    rw [hparts] at h hrest
    by_cases hc : c = a
    · simp only [hc, beq_self_eq_true, if_true, List.mem_cons] at h
      rcases h with rfl | h
      · cases hx
      · exact hrest (List.mem_cons.2 h) hx
    · simp only [beq_iff_eq, hc, if_false, List.modifyHead_cons, List.mem_cons] at h
      rcases h with rfl | h
      · rcases List.mem_cons.1 hx with rfl | hx
        · exact ⟨List.mem_cons_self, hc⟩
        · exact hrest List.mem_cons_self hx
      · exact hrest (List.mem_cons_of_mem _ h) hx

lemma mem_of_mem_parts {cs part : List Char} (h : part ∈ parts cs) {x : Char} (hx : x ∈ part) :
    x ∈ cs ∧ x ≠ '/' := by
  rw [parts_eq_splitOn] at h
  exact mem_of_mem_splitOn h hx

/-! ## Names -/

/-- The text is the name of something in a directory: it has no slash, and it is read as itself. -/
structure IsName (name : String) : Prop where
  no_slash : '/' ∉ name.toList
  ne_empty : name.toList ≠ []
  ne_dot : name.toList ≠ ['.']
  ne_dots : name.toList ≠ ['.', '.']

lemma isName_concat {names : List String} {name : String} :
    (∀ n ∈ names ++ [name], IsName n) ↔ (∀ n ∈ names, IsName n) ∧ IsName name := by
  simp [or_imp, forall_and]

/-- A `..` or a name. -/
inductive IsInner : Component → Prop
  | parent : IsInner .parent
  | normal {name : String} (h : IsName name) : IsInner (.normal name)

/-- The components of a text that stands inside a path. -/
def inner (cs : List Char) : List Component := (parts cs).filterMap innerComponent

lemma inner_append_slash (as bs : List Char) :
    inner (as ++ '/' :: bs) = inner as ++ inner bs := by
  rw [inner, parts_append_slash, List.filterMap_append]
  rfl

@[simp] lemma inner_nil : inner [] = [] := rfl

lemma IsName.ne_empty_text {name : String} (h : IsName name) : name ≠ "" := by
  rintro rfl
  exact h.ne_empty rfl

lemma IsName.parts_eq {name : String} (h : IsName name) : parts name.toList = [name.toList] := by
  rw [parts_eq_splitOn]
  exact List.splitOn_eq_singleton h.no_slash

lemma IsName.head?_ne {name : String} (h : IsName name) : name.toList.head? ≠ some '/' :=
  fun hhead => h.no_slash (List.mem_of_head? hhead)

lemma IsName.isAbsolute {name : String} (h : IsName name) :
    (⟨name⟩ : Path).isAbsolute = false := by
  simpa [Path.isAbsolute] using h.head?_ne

lemma isInner_of_mem_inner {cs : List Char} {c : Component} (h : c ∈ inner cs) : IsInner c := by
  obtain ⟨part, hpart, hc⟩ := List.mem_filterMap.1 h
  unfold innerComponent at hc
  split at hc
  · cases hc
  next hne =>
    rw [not_or] at hne
    split at hc
    · cases hc
      exact .parent
    next hdots =>
      cases hc
      refine .normal ⟨?_, ?_, ?_, ?_⟩ <;> rw [String.toList_ofList]
      · exact fun hslash => (mem_of_mem_parts hpart hslash).2 rfl
      · exact hne.1
      · exact hne.2
      · exact hdots

/-! ## The components of a path -/

lemma isAbsolute_iff {p : Path} : p.isAbsolute = true ↔ ∃ cs, p.text.toList = '/' :: cs := by
  unfold isAbsolute
  cases p.text.toList <;> simp

/-- The first component of a text, if it is the root or a leading `.`. -/
def lead : List Char → List Component
  | '/' :: _ => [.root]
  | cs => if (parts cs).head? = some ['.'] then [.current] else []

lemma lead_of_head?_ne {cs : List Char} (h : cs.head? ≠ some '/') :
    lead cs = if (parts cs).head? = some ['.'] then [.current] else [] := by
  unfold lead
  split
  · exact absurd rfl h
  · rfl

lemma componentsOf_eq (cs : List Char) : componentsOf cs = lead cs ++ inner cs := by
  unfold componentsOf lead
  split
  · rw [inner, parts]
    rfl
  · split
    next rest hparts => simp [inner, hparts, innerComponent]
    next hparts =>
      have hhead : (parts cs).head? ≠ some ['.'] := by
        intro hhead
        obtain ⟨rest, hrest⟩ := List.head?_eq_some_iff.1 hhead
        exact hparts rest hrest
      simp [inner, hhead]

/-- The components of a path: those that any text has inside a path, after the root or a leading
`.`. -/
lemma components_eq (p : Path) : p.components = lead p.text.toList ++ inner p.text.toList :=
  componentsOf_eq _

lemma lead_of_isAbsolute {p : Path} (h : p.isAbsolute = true) : lead p.text.toList = [.root] := by
  obtain ⟨cs, hcs⟩ := isAbsolute_iff.1 h
  rw [hcs]
  rfl

lemma lead_of_not_isAbsolute {p : Path} (h : p.isAbsolute = false) :
    lead p.text.toList = [] ∨ lead p.text.toList = [.current] := by
  unfold lead
  split
  next cs hcs =>
    rw [isAbsolute_iff.2 ⟨cs, hcs⟩] at h
    cases h
  next =>
    split
    · exact .inr rfl
    · exact .inl rfl

/-- What does not care about a leading `.` reads a path from the root if it is absolute, and else
from where it is. -/
lemma foldl_components {α : Type} (f : α → Component → α) (hf : ∀ a, f a .current = a) (a : α)
    (p : Path) :
    p.components.foldl f a =
      (inner p.text.toList).foldl f (if p.isAbsolute then f a .root else a) := by
  rw [components_eq, List.foldl_append]
  cases h : p.isAbsolute with
  | true => simp [lead_of_isAbsolute h]
  | false => rcases lead_of_not_isAbsolute h with hlead | hlead <;> simp [hlead, hf]

/-! ## Joining -/

lemma join_of_isAbsolute (p : Path) {q : Path} (h : q.isAbsolute = true) : p.join q = q := by
  simp [join, h]

@[simp] lemma empty_join (q : Path) : (⟨""⟩ : Path).join q = q := by
  simp [join]

/-- A joined path has the text of the first one in front. -/
lemma join_text {p q : Path} (hp : p.text ≠ "") (hq : q.isAbsolute = false) :
    ∃ cs, (p.join q).text.toList = cs ++ '/' :: q.text.toList ∧
      (cs = p.text.toList ∨ cs ++ ['/'] = p.text.toList) := by
  unfold join
  rw [hq]
  by_cases hlast : p.text.toList.getLast? = some '/'
  · obtain ⟨cs, hcs⟩ := List.getLast?_eq_some_iff.1 hlast
    refine ⟨cs, ?_, .inr hcs.symm⟩
    simp [hcs]
  · refine ⟨p.text.toList, ?_, .inl rfl⟩
    simp [hp, hlast]

lemma isAbsolute_join {p : Path} (hp : p.isAbsolute = true) (q : Path) :
    (p.join q).isAbsolute = true := by
  by_cases hq : q.isAbsolute = true
  · rwa [join_of_isAbsolute p hq]
  · obtain ⟨cs, hcs⟩ := isAbsolute_iff.1 hp
    rw [isAbsolute_iff]
    unfold join
    rw [if_neg hq]
    split <;> simp [hcs]

lemma lead_append_slash (as bs : List Char) :
    lead (as ++ '/' :: bs) = if as = [] then [.root] else lead as := by
  cases as with
  | nil => rfl
  | cons a as =>
    by_cases ha : a = '/'
    · subst ha
      rfl
    · have hhead : (parts (a :: as ++ '/' :: bs)).head? = (parts (a :: as)).head? := by
        rw [parts_append_slash]
        exact List.head?_append_of_ne_nil _ (parts_ne_nil _)
      simp only [List.cons_append] at hhead
      simp [lead, ha, hhead]

/-- A relative path adds its inner components to a path that is not empty. -/
theorem components_join {p q : Path} (hp : p.text ≠ "") (hq : q.isAbsolute = false) :
    (p.join q).components = p.components ++ inner q.text.toList := by
  obtain ⟨cs, htext, hcs⟩ := join_text hp hq
  rw [components_eq, components_eq, htext, inner_append_slash, lead_append_slash]
  rcases hcs with hcs | hcs
  · have hne : cs ≠ [] := by
      rwa [hcs, Ne, String.toList_eq_nil_iff]
    rw [if_neg hne, hcs, List.append_assoc]
  · rw [← hcs, inner_append_slash, lead_append_slash, inner_nil]
    simp

/-! ## Plain components -/

/-- Names, after the root or not. -/
def plain (rooted : Bool) (names : List String) : List Component :=
  (if rooted then [.root] else []) ++ names.map .normal

lemma plain_append (rooted : Bool) (names names' : List String) :
    plain rooted (names ++ names') = plain rooted names ++ names'.map .normal := by
  simp [plain]

/-- How plain components are written. -/
def plainText (rooted : Bool) (names : List String) : String :=
  (if rooted then "/" else "") ++ "/".intercalate names

/-- A text of names with slashes between them is read as these names; where two slashes meet,
nothing is read. -/
lemma inner_intercalate {names : List String} (hne : names ≠ [])
    (h : ∀ name ∈ names, name ≠ "" → IsName name) :
    inner ("/".intercalate names).toList = (names.filter (· ≠ "")).map .normal := by
  have hslash : ∀ l ∈ names.map String.toList, '/' ∉ l := by
    intro l hl
    obtain ⟨name, hname, rfl⟩ := List.mem_map.1 hl
    by_cases hempty : name = ""
    · simp [hempty]
    · exact (h name hname hempty).no_slash
  have hparts : parts ("/".intercalate names).toList = names.map String.toList := by
    rw [parts_eq_splitOn, String.toList_intercalate]
    exact List.splitOn_intercalate '/' hslash (by simpa using hne)
  rw [inner, hparts, List.filterMap_map, ← List.filterMap_eq_map, List.filterMap_filter]
  refine List.filterMap_congr fun name hname => ?_
  by_cases hempty : name = ""
  · simp [hempty, innerComponent]
  · have hn := h name hname hempty
    simp [hempty, innerComponent, hn.ne_dot, hn.ne_dots]

lemma filter_names {names : List String} (h : ∀ name ∈ names, IsName name) :
    names.filter (· ≠ "") = names := by
  rw [List.filter_eq_self]
  intro name hname
  simpa using (h name hname).ne_empty_text

lemma inner_names {names : List String} (h : ∀ name ∈ names, IsName name) :
    inner ("/".intercalate names).toList = names.map .normal := by
  by_cases hne : names = []
  · simp [hne]
  · rw [inner_intercalate hne fun name hname _ => h name hname, filter_names h]

lemma lead_names {names : List String} (h : ∀ name ∈ names, IsName name) :
    lead ("/".intercalate names).toList = [] := by
  cases names with
  | nil => rfl
  | cons name names =>
    have hn := h name List.mem_cons_self
    have hlead : lead name.toList = [] := by
      rw [lead_of_head?_ne hn.head?_ne, hn.parts_eq]
      simpa using hn.ne_dot
    cases names with
    | nil => simpa using hlead
    | cons name' names =>
      rw [String.intercalate_cons_cons]
      have happend := lead_append_slash name.toList ("/".intercalate (name' :: names)).toList
      rw [if_neg hn.ne_empty, hlead] at happend
      simpa using happend

/-- Plain components are read back as they were written. -/
theorem components_plainText {rooted : Bool} {names : List String}
    (h : ∀ name ∈ names, IsName name) : (⟨plainText rooted names⟩ : Path).components =
      plain rooted names := by
  rw [components_eq]
  cases rooted with
  | false =>
    have htext : plainText false names = "/".intercalate names := by simp [plainText]
    rw [htext, lead_names h, inner_names h]
    rfl
  | true =>
    have htext : (plainText true names).toList = [] ++ '/' :: ("/".intercalate names).toList := by
      simp [plainText]
    rw [htext, lead_append_slash, inner_append_slash, inner_names h]
    rfl

lemma root_mem_components {p : Path} : .root ∈ p.components ↔ p.isAbsolute = true := by
  have hinner : .root ∉ inner p.text.toList := fun h => nomatch isInner_of_mem_inner h
  rw [components_eq, List.mem_append, or_iff_left hinner]
  cases h : p.isAbsolute with
  | true => simp [lead_of_isAbsolute h]
  | false => rcases lead_of_not_isAbsolute h with hlead | hlead <;> simp [hlead]

lemma isAbsolute_plainText {rooted : Bool} {names : List String}
    (h : ∀ name ∈ names, IsName name) :
    (⟨plainText rooted names⟩ : Path).isAbsolute = rooted := by
  rw [Bool.eq_iff_iff, ← root_mem_components, components_plainText h]
  cases rooted <;> simp [plain]

lemma ofComponents_concat (cs : List Component) (c : Component) :
    ofComponents (cs ++ [c]) = (ofComponents cs).join ⟨c.text⟩ := by
  simp [ofComponents]

lemma plainText_concat (rooted : Bool) {names : List String} (hne : names ≠ []) (name : String) :
    plainText rooted (names ++ [name]) = plainText rooted names ++ "/" ++ name := by
  simp [plainText, String.intercalate_append_of_ne_nil hne, String.append_assoc]

lemma plainText_ne_empty (rooted : Bool) {names : List String} (hne : names ≠ [])
    (h : ∀ name ∈ names, IsName name) : plainText rooted names ≠ "" := by
  intro htext
  have hcomponents : (⟨plainText rooted names⟩ : Path).components = plain rooted names :=
    components_plainText h
  rw [htext] at hcomponents
  have hplain : plain rooted names = [] := hcomponents.symm
  simp [plain, hne] at hplain

/-- Only the root alone ends in a slash. -/
lemma plainText_getLast? (rooted : Bool) {names : List String} (hne : names ≠ [])
    (h : ∀ name ∈ names, IsName name) : (plainText rooted names).toList.getLast? ≠ some '/' := by
  obtain rfl | ⟨names, name, rfl⟩ := names.eq_nil_or_concat'
  · exact absurd rfl hne
  · have hn : IsName name := (isName_concat.1 h).2
    have hlast : ∃ text, plainText rooted (names ++ [name]) = text ++ name := by
      by_cases hnames : names = []
      · exact ⟨if rooted then "/" else "", by simp [plainText, hnames]⟩
      · exact ⟨_, plainText_concat rooted hnames name⟩
    obtain ⟨text, htext⟩ := hlast
    rw [htext, String.toList_append, List.getLast?_append_of_ne_nil _ hn.ne_empty]
    intro hslash
    exact hn.no_slash (List.mem_of_getLast? hslash)

/-- Plain components are written with slashes between them. -/
lemma ofComponents_plain {rooted : Bool} {names : List String}
    (h : ∀ name ∈ names, IsName name) :
    ofComponents (plain rooted names) = ⟨plainText rooted names⟩ := by
  induction names using List.reverseRecOn with
  | nil => cases rooted <;> simp [plain, plainText, ofComponents, Component.text]
  | append_singleton names name ih =>
    obtain ⟨hnames, hn⟩ := isName_concat.1 h
    rw [plain_append, List.map_singleton, ofComponents_concat, ih hnames]
    unfold join
    rw [Component.text, hn.isAbsolute]
    by_cases hne : names = []
    · cases rooted <;> simp [plainText, hne]
    · have htext := plainText_ne_empty rooted hne hnames
      have hslash := plainText_getLast? rooted hne hnames
      rw [plainText_concat rooted hne]
      simp only [htext, hslash, or_self, if_false, Bool.false_eq_true]

/-! ## The normal form of plain components -/

/-- A component other than `.` and `..` is added as it is. -/
lemma foldl_normalStep_eq_append {cs : List Component} (hcurrent : .current ∉ cs)
    (hparent : .parent ∉ cs) (done : List Component) : cs.foldl normalStep done = done ++ cs := by
  induction cs generalizing done with
  | nil => simp
  | cons c cs ih =>
    rw [List.mem_cons, not_or] at hcurrent hparent
    have hstep : normalStep done c = done ++ [c] := by
      cases c with
      | current => exact absurd rfl hcurrent.1
      | parent => exact absurd rfl hparent.1
      | root => rfl
      | normal name => rfl
    rw [List.foldl_cons, hstep, ih hcurrent.2 hparent.2, List.append_assoc, List.singleton_append]

lemma notMem_plain (rooted : Bool) (names : List String) :
    .current ∉ plain rooted names ∧ .parent ∉ plain rooted names := by
  cases rooted <;> simp [plain]

lemma normalComponents_plain (rooted : Bool) (names : List String) :
    normalComponents (plain rooted names) = plain rooted names := by
  obtain ⟨hcurrent, hparent⟩ := notMem_plain rooted names
  exact foldl_normalStep_eq_append hcurrent hparent []

/-- A path with plain components is its own normal form, apart from how it is written. -/
lemma normal_of_plain {p : Path} {rooted : Bool} {names : List String}
    (hp : p.components = plain rooted names) (h : ∀ name ∈ names, IsName name) :
    p.normal = ⟨plainText rooted names⟩ := by
  rw [normal, hp, normalComponents_plain, ofComponents_plain h]

end TypeQuery.Path
