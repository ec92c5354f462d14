import TypeQuery.Options
import TypeQuery.Proofs.Locations

/-!
# What a search looks at

A search for a module tries candidates one after the other: all templates below the first directory,
then all templates below the next.  `Modules.search_eq` says what the two loops compute, and from
this it follows that resolving a name is first-match search through a list which is known in advance
(`Modules.resolvePath_firstMatch`).

A candidate is a filled template, seen from a directory, in normal form.  Both steps are said in
other words as well: filling a template takes all of its question marks out and puts the name between
what is left (`Modules.exists_pieces`), and a path is located by following it from the place of the
base directory (`Modules.locate_eq`).

With the default templates the candidates can be written down.  A package name is a text of
segments with slashes between them, a template adds to the last segment or puts one more after it,
and below a root in normal form the result is again in normal form (`Modules.locate_join`).  There
is one exception.  A package name that starts with a dot or a slash leads to an absolute path,
which is not seen from the root at all but from the root of the file system, whatever the roots
are.  `Modules.lookedUp_covered_iff` says when a search stays below its roots in spite of this.
-/

namespace TypeQuery.Modules

open TypeQuery.Path

/-! ## First-match search -/

/-- The paths that may be tried for a name below some directories, in this order. -/
def candidates (m : Modules) (name : String) (dirs : List Path) : List Path :=
  dirs.flatMap fun dir => m.templates.map fun t => m.locate (dir.join ⟨fill t name⟩)

lemma fill_append (s t name : String) : fill (s ++ t) name = fill s name ++ fill t name := by
  simp [fill, String.ofList_append]

lemma fill_of_no_mark {s : String} (h : '?' ∉ s.toList) (name : String) : fill s name = s := by
  have hsame : s.toList.flatMap (fun c => if c = '?' then name.toList else [c]) =
      s.toList.flatMap fun c => [c] := by
    refine List.flatMap_congr fun c hc => if_neg ?_
    rintro rfl
    exact h hc
  rw [fill, hsame, List.flatMap_singleton', String.ofList_toList]

lemma fill_intercalate (pieces : List String) (h : ∀ s ∈ pieces, '?' ∉ s.toList)
    (name : String) :
    fill ("?".intercalate pieces) name = name.intercalate pieces := by
  induction pieces with
  | nil => rfl
  | cons s pieces ih =>
    have hs := fill_of_no_mark (h s List.mem_cons_self) name
    have hpieces := ih fun s hs => h s (List.mem_cons_of_mem _ hs)
    have hmark : fill "?" name = name := by simp [fill]
    cases pieces with
    | nil => simpa using hs
    | cons s' pieces =>
      rw [String.intercalate_cons_cons, String.intercalate_cons_cons, fill_append, fill_append, hs,
        hmark, hpieces]

/-- A template is some pieces without question marks, with a question mark between each two.  Filled
in, it is the same pieces with the name between each two. -/
theorem exists_pieces (template : String) :
    ∃ pieces : List String, (∀ s ∈ pieces, '?' ∉ s.toList) ∧ template = "?".intercalate pieces ∧
      ∀ name, fill template name = name.intercalate pieces := by
  set pieces := (template.toList.splitOn '?').map String.ofList with hsplit
  have hmarks : ∀ s ∈ pieces, '?' ∉ s.toList := by
    intro s hs hmark
    obtain ⟨piece, hpiece, rfl⟩ := List.mem_map.1 hs
    rw [String.toList_ofList] at hmark
    exact (mem_of_mem_splitOn hpiece hmark).2 rfl
  have htext : template = "?".intercalate pieces := by
    have hpieces : pieces.map String.toList = template.toList.splitOn '?' := by
      simp [hsplit, Function.comp_def]
    apply String.toList_inj.1
    rw [String.toList_intercalate, hpieces]
    exact (List.intercalate_splitOn '?').symm
  refine ⟨pieces, hmarks, htext, fun name => ?_⟩
  rw [htext, fill_intercalate pieces hmarks]

/-- A path is located by following it from the place where the base directory leads from the root.
What is written down is the place where this ends, as an absolute path unless the base directory is
relative or a `..` has taken the root away. -/
theorem locate_eq (m : Modules) (p : Path) :
    m.locate p = ⟨plainText ((m.base.join p).isAbsolute && !(m.base.join p).climbs)
      (p.location (m.base.location []))⟩ := by
  have hseen : (if p.isAbsolute then p else m.base.join p) = m.base.join p := by
    split
    next habs => rw [join_of_isAbsolute _ habs]
    next => rfl
  rw [locate, hseen, normal_eq, location_join]

/-- What comes out of trying paths in order: the first one that is a file, or else all of them,
after those that were tried before. -/
def firstFile (m : Modules) (tried paths : List Path) : Except (List Path) Path :=
  match paths.find? m.files.contains with
  | some p => .ok p
  | none => .error (tried ++ paths)

lemma firstFile_append (m : Modules) (tried paths paths' : List Path) :
    m.firstFile tried (paths ++ paths') =
      match m.firstFile tried paths with
      | .ok p => .ok p
      | .error tried => m.firstFile tried paths' := by
  unfold firstFile
  rw [List.find?_append]
  cases paths.find? m.files.contains <;> simp

lemma searchIn_eq (m : Modules) (name : String) (dir : Path) (ts : List String)
    (tried : List Path) :
    m.searchIn name dir ts tried = m.firstFile tried (ts.map (m.candidate name dir)) := by
  induction ts generalizing tried with
  | nil => simp [searchIn, firstFile]
  | cons t ts ih =>
    simp only [searchIn, ih]
    by_cases h : m.files.contains (m.candidate name dir t) = true <;> simp [firstFile, h]

/-- A search tries the candidates in their order. -/
theorem search_eq (m : Modules) (name : String) (dirs tried : List Path) :
    m.search name dirs tried = m.firstFile tried (m.candidates name dirs) := by
  induction dirs generalizing tried with
  | nil => simp [search, firstFile, candidates]
  | cons dir dirs ih =>
    have hcons : m.candidates name (dir :: dirs) =
        m.templates.map (m.candidate name dir) ++ m.candidates name dirs := rfl
    rw [hcons, firstFile_append, search, searchIn_eq]
    cases m.firstFile tried (m.templates.map (m.candidate name dir)) with
    | ok p => rfl
    | error tried => exact ih tried

/-- What is tried for a name in a `require` of a file.  A name that starts with `./` or `../` is
looked for in the directory of the file, and any other below the roots, with its dots as slashes.
-/
inductive Searched (m : Modules) (source : String) (file : FileId) : List Path → Prop
  | relative {path dir : Path}
      (hsource : ['.', '/'] <+: source.toList ∨ ['.', '.', '/'] <+: source.toList)
      (hpath : m.registry.files.find? file = some path) (hdir : path.parent? = some dir) :
      Searched m source file (m.candidates source [dir])
  | package (hsource : ¬ (['.', '/'] <+: source.toList ∨ ['.', '.', '/'] <+: source.toList)) :
      Searched m source file (m.candidates (packagePath source) m.roots)

lemma isRelative_iff {source : String} :
    isRelative source = true ↔
      ['.', '/'] <+: source.toList ∨ ['.', '.', '/'] <+: source.toList := by
  simp [isRelative]

/-- Resolving a name tries what is searched for it. -/
lemma Searched.resolvePath_eq {m : Modules} {source : String} {file : FileId} {tried : List Path}
    (h : m.Searched source file tried) (hne : source ≠ "") :
    m.resolvePath source file =
      match tried.find? m.files.contains with
      | some p => .ok p
      | none => .error (.notFound source tried) := by
  have hfirst : ∀ {dirs name}, m.whereToLook source file = .ok (dirs, name) →
      m.resolvePath source file =
        match (m.candidates name dirs).find? m.files.contains with
        | some p => .ok p
        | none => .error (.notFound source (m.candidates name dirs)) := by
    intro dirs name hlook
    simp only [resolvePath, hlook, bind, Except.bind, search_eq, firstFile, List.nil_append]
    cases (m.candidates name dirs).find? m.files.contains <;> rfl
  cases h with
  | relative hsource hpath hdir =>
    apply hfirst
    simp [whereToLook, hne, isRelative_iff.2 hsource, Registry.pathOf, hpath, hdir, bind,
      Except.bind]
  | package hsource =>
    apply hfirst
    have hrel : isRelative source = false := by
      rwa [← Bool.not_eq_true, isRelative_iff]
    simp [whereToLook, hne, hrel]

lemma Searched.resolvePath_eq_ok_iff {m : Modules} {source : String} {file : FileId}
    {tried : List Path} (h : m.Searched source file tried) (hne : source ≠ "") {p : Path} :
    m.resolvePath source file = .ok p ↔ tried.find? m.files.contains = some p := by
  rw [h.resolvePath_eq hne]
  cases tried.find? m.files.contains <;> simp

lemma Searched.resolvePath_eq_error {m : Modules} {source : String} {file : FileId}
    {tried : List Path} (h : m.Searched source file tried) (hne : source ≠ "")
    (hnone : ∀ p ∈ tried, m.files.contains p = false) :
    m.resolvePath source file = .error (.notFound source tried) := by
  have hfind : tried.find? m.files.contains = none := by simpa using hnone
  rw [h.resolvePath_eq hne, hfind]

/-! ## Package names -/

/-- A text without dots and slashes. -/
structure IsSegment (s : String) : Prop where
  no_dot : '.' ∉ s.toList
  no_slash : '/' ∉ s.toList

lemma IsSegment.isName {s : String} (h : IsSegment s) (hne : s ≠ "") : IsName s where
  no_slash := h.no_slash
  ne_empty := by simpa using hne
  ne_dot hs := h.no_dot (by simp [hs])
  ne_dots hs := h.no_dot (by simp [hs])

lemma IsSegment.isName_lua {s : String} (h : IsSegment s) : IsName (s ++ ".lua") where
  no_slash := by simp [h.no_slash]
  ne_empty := by simp
  ne_dot hs := by simpa using congrArg List.length hs
  ne_dots hs := by simpa using congrArg List.length hs

lemma isName_init : IsName "init.lua" := ⟨by decide, by decide, by decide, by decide⟩

lemma packagePath_append (s t : String) :
    packagePath (s ++ t) = packagePath s ++ packagePath t := by
  simp [packagePath, String.ofList_append]

lemma IsSegment.packagePath_eq {s : String} (h : IsSegment s) : packagePath s = s := by
  have hmap : s.toList.map (fun c => if c = '.' then '/' else c) = s.toList.map id := by
    apply List.map_congr_left
    intro c hc
    apply if_neg
    rintro rfl
    exact h.no_dot hc
  rw [packagePath, hmap, List.map_id, String.ofList_toList]

/-- The dots between segments become slashes. -/
lemma packagePath_intercalate {segments : List String} (h : ∀ s ∈ segments, IsSegment s) :
    packagePath (".".intercalate segments) = "/".intercalate segments := by
  induction segments with
  | nil => rfl
  | cons s segments ih =>
    have hs := (h s List.mem_cons_self).packagePath_eq
    have hsegments := ih fun s hs => h s (List.mem_cons_of_mem _ hs)
    cases segments with
    | nil => simpa using hs
    | cons s' segments =>
      rw [String.intercalate_cons_cons, String.intercalate_cons_cons, packagePath_append,
        packagePath_append, hs, hsegments]
      rfl

/-- Every package name is a text of segments with slashes between them, some of which may be empty.
-/
lemma exists_segments (source : String) :
    ∃ segments last, (∀ s ∈ segments ++ [last], IsSegment s) ∧
      packagePath source = "/".intercalate (segments ++ [last]) := by
  set cs := (packagePath source).toList with hcs
  have hdot : '.' ∉ cs := by
    rw [hcs, packagePath, String.toList_ofList, List.mem_map]
    rintro ⟨c, -, hc⟩
    split at hc
    · cases hc
    next hne => exact hne hc
  have hsegment : ∀ s ∈ (parts cs).map String.ofList, IsSegment s := by
    intro s hs
    obtain ⟨part, hpart, rfl⟩ := List.mem_map.1 hs
    constructor <;> rw [String.toList_ofList] <;> intro hx
    · exact hdot (mem_of_mem_parts hpart hx).1
    · exact (mem_of_mem_parts hpart hx).2 rfl
  have htext : packagePath source = "/".intercalate ((parts cs).map String.ofList) := by
    apply String.toList_inj.1
    have hparts : ((parts cs).map String.ofList).map String.toList = parts cs := by
      simp [Function.comp_def]
    rw [String.toList_intercalate, hparts, parts_eq_splitOn, ← hcs]
    exact (List.intercalate_splitOn '/').symm
  obtain hnil | ⟨segments, last, hlast⟩ := ((parts cs).map String.ofList).eq_nil_or_concat'
  · exact absurd (List.map_eq_nil_iff.1 hnil) (parts_ne_nil cs)
  · rw [hlast] at hsegment htext
    exact ⟨segments, last, hsegment, htext⟩

/-! ## The default templates -/

lemma fill_lua (segments : List String) (last : String) :
    fill "?.lua" ("/".intercalate (segments ++ [last])) =
      "/".intercalate (segments ++ [last ++ ".lua"]) := by
  have hfill : ∀ name, fill "?.lua" name = name ++ ".lua" := by
    intro name
    have hpieces := fill_intercalate ["", ".lua"] (by decide) name
    simpa using hpieces
  rw [hfill]
  by_cases hne : segments = []
  · simp [hne]
  · simp [String.intercalate_append_of_ne_nil hne, String.append_assoc]

lemma fill_init {segments : List String} (hne : segments ≠ []) :
    fill "?/init.lua" ("/".intercalate segments) = "/".intercalate (segments ++ ["init.lua"]) := by
  have hpieces := fill_intercalate ["", "/init.lua"] (by decide)
    ("/".intercalate segments)
  rw [String.intercalate_append_of_ne_nil hne (by simp), String.append_assoc]
  simpa using hpieces

/-- Both default templates fill in a package name so that names with slashes between them result. -/
lemma exists_filled (source : String) {t : String} (ht : t ∈ ({} : Options).modulePaths) :
    ∃ names, names ≠ [] ∧ (∀ name ∈ names, name ≠ "" → IsName name) ∧
      fill t (packagePath source) = "/".intercalate names := by
  obtain ⟨segments, last, hsegment, hsource⟩ := exists_segments source
  have hname : ∀ s ∈ segments ++ [last], s ≠ "" → IsName s := fun s hs => (hsegment s hs).isName
  rcases List.mem_pair.1 ht with rfl | rfl
  · refine ⟨segments ++ [last ++ ".lua"], by simp, fun name hmem hne => ?_, ?_⟩
    · rcases List.mem_append.1 hmem with hmem | hmem
      · exact hname name (List.mem_append_left _ hmem) hne
      · rw [List.mem_singleton.1 hmem]
        exact (hsegment last (by simp)).isName_lua
    · rw [hsource, fill_lua]
  · refine ⟨segments ++ [last] ++ ["init.lua"], by simp, fun name hmem hne => ?_, ?_⟩
    · rcases List.mem_append.1 hmem with hmem | hmem
      · exact hname name hmem hne
      · rw [List.mem_singleton.1 hmem]
        exact isName_init
    · rw [hsource, fill_init (by simp)]

/-! ## Below a root -/

/-- An absolute path in normal form consists of the root and names. -/
lemma exists_names_of_normal {root : Path} (habs : root.isAbsolute = true)
    (hnormal : root.normal.same root = true) :
    ∃ names, (∀ name ∈ names, IsName name) ∧ root.components = plain true names := by
  have hcomponents := root.components_normal
  have hsame : root.normal.components = root.components := by simpa [same] using hnormal
  have hrooted : root.normal.isAbsolute = true := by
    rwa [← root_mem_components, hsame, root_mem_components]
  rw [isAbsolute_normal] at hrooted
  rw [hsame, hrooted] at hcomponents
  exact ⟨root.location [], root.isName_location, hcomponents⟩

lemma isName_append_filter {above names : List String} (habove : ∀ name ∈ above, IsName name)
    (hnames : ∀ name ∈ names, name ≠ "" → IsName name) :
    ∀ name ∈ above ++ names.filter (· ≠ ""), IsName name := by
  intro name hmem
  rcases List.mem_append.1 hmem with hmem | hmem
  · exact habove name hmem
  · obtain ⟨hmem, hempty⟩ := List.mem_filter.1 hmem
    exact hnames name hmem (by simpa using hempty)

/-- What is found below a root when names are looked for there.  If their text is absolute, the root
is left out. -/
lemma locate_join (m : Modules) {root : Path} {above : List String}
    (hroot : root.components = plain true above) (habove : ∀ name ∈ above, IsName name)
    {names : List String} (hne : names ≠ []) (hnames : ∀ name ∈ names, name ≠ "" → IsName name) :
    m.locate (root.join ⟨"/".intercalate names⟩) =
      ⟨plainText true ((if (⟨"/".intercalate names⟩ : Path).isAbsolute then [] else above) ++
        names.filter (· ≠ ""))⟩ := by
  have habs : root.isAbsolute = true := by
    rw [← root_mem_components, hroot]
    simp [plain]
  rw [locate, if_pos (isAbsolute_join habs _)]
  cases htext : (⟨"/".intercalate names⟩ : Path).isAbsolute with
  | true =>
    rw [join_of_isAbsolute root htext]
    apply normal_of_plain
    · rw [components_eq, lead_of_isAbsolute htext, inner_intercalate hne hnames]
      rfl
    · exact isName_append_filter (by simp) hnames
  | false =>
    have hempty : root.text ≠ "" := by
      intro hempty
      simp [isAbsolute, hempty] at habs
    apply normal_of_plain
    · rw [components_join hempty htext, hroot, inner_intercalate hne hnames]
      exact (plain_append true above _).symm
    · exact isName_append_filter habove hnames

/-- Below an absolute root in normal form, the default templates look for a dotted name first in a
file with the last segment as its name, and then in a directory of this name. -/
lemma candidates_dotted (m : Modules) (htemplates : m.templates = ({} : Options).modulePaths)
    {root : Path} {above : List String} (hroot : root.components = plain true above)
    (habove : ∀ name ∈ above, IsName name) {segments : List String} {last : String}
    (hsegments : ∀ s ∈ segments ++ [last], IsSegment s ∧ s ≠ "") :
    m.candidates (packagePath (".".intercalate (segments ++ [last]))) [root] =
      [⟨plainText true (above ++ segments ++ [last ++ ".lua"])⟩,
        ⟨plainText true (above ++ segments ++ [last, "init.lua"])⟩] := by
  have hlast := hsegments last (by simp)
  have hnames : ∀ s ∈ segments ++ [last], IsName s :=
    fun s hs => (hsegments s hs).1.isName (hsegments s hs).2
  -- nothing is empty, so the text is relative and all of it is kept
  have hlocate : ∀ names, names ≠ [] → (∀ name ∈ names, IsName name) →
      m.locate (root.join ⟨"/".intercalate names⟩) = ⟨plainText true (above ++ names)⟩ := by
    intro names hne hnames
    have hrel : (⟨plainText false names⟩ : Path).isAbsolute = false := isAbsolute_plainText hnames
    rw [plainText, if_neg (by simp), String.empty_append] at hrel
    rw [m.locate_join hroot habove hne fun name hname _ => hnames name hname, hrel,
      filter_names hnames]
    rfl
  have hlua := hlocate (segments ++ [last ++ ".lua"]) (by simp)
    (isName_concat.2 ⟨(isName_concat.1 hnames).1, hlast.1.isName_lua⟩)
  have hinit := hlocate (segments ++ [last] ++ ["init.lua"]) (by simp)
    (isName_concat.2 ⟨hnames, isName_init⟩)
  rw [packagePath_intercalate fun s hs => (hsegments s hs).1]
  simp only [candidates, htemplates, List.flatMap_cons, List.flatMap_nil, List.map_cons,
    List.map_nil, List.append_nil, fill_lua, fill_init (List.concat_ne_nil last segments)]
  rw [hlua, hinit, List.append_assoc, List.append_assoc, List.append_assoc]
  rfl

lemma head?_dotted {segments : List String} (hne : segments ≠ [])
    (hsegments : ∀ s ∈ segments, IsSegment s ∧ s ≠ "") :
    (".".intercalate segments).toList.head? ≠ some '.' := by
  obtain ⟨s, rest, rfl⟩ := List.exists_cons_of_ne_nil hne
  obtain ⟨hs, hempty⟩ := hsegments s List.mem_cons_self
  have hhead : (".".intercalate (s :: rest)).toList.head? = s.toList.head? := by
    cases rest with
    | nil => simp
    | cons s' rest =>
      rw [String.intercalate_cons_cons, String.append_assoc, String.toList_append]
      exact List.head?_append_of_ne_nil _ (by simpa using hempty)
  rw [hhead]
  intro hdot
  exact hs.no_dot (List.mem_of_head? hdot)

/-- A dotted name is a package name. -/
lemma not_relative_dotted {segments : List String} (hne : segments ≠ [])
    (hsegments : ∀ s ∈ segments, IsSegment s ∧ s ≠ "") :
    ¬ (['.', '/'] <+: (".".intercalate segments).toList ∨
      ['.', '.', '/'] <+: (".".intercalate segments).toList) := by
  have hhead := head?_dotted hne hsegments
  rintro (⟨rest, hrest⟩ | ⟨rest, hrest⟩) <;> simp [← hrest] at hhead

/-- Resolving a name is first-match search.  What is tried is known in advance; the result is the
first of it that is a file, there is a result exactly if one of them is a file, and otherwise the
error has all of it in order.  A dotted name is tried below each root in turn, and what the default
templates make of it below an absolute root in normal form is the file of that name and the
`init.lua` in the directory of that name. -/
theorem resolvePath_firstMatch (m : Modules) :
    (∀ (source : String) (file : FileId) (tried : List Path), source ≠ "" →
      m.Searched source file tried →
        (∀ p, m.resolvePath source file = .ok p ↔
          ∃ earlier later, tried = earlier ++ p :: later ∧ m.files.contains p = true ∧
            ∀ q ∈ earlier, m.files.contains q = false) ∧
        ((∃ p, m.resolvePath source file = .ok p) ↔ ∃ p ∈ tried, m.files.contains p = true) ∧
        ((∀ p ∈ tried, m.files.contains p = false) →
          m.resolvePath source file = .error (.notFound source tried))) ∧
      ∀ (segments : List String) (last : String),
        (∀ s ∈ segments ++ [last], s ≠ "" ∧ '.' ∉ s.toList ∧ '/' ∉ s.toList) →
          (∀ file, m.Searched (".".intercalate (segments ++ [last])) file
            (m.candidates (packagePath (".".intercalate (segments ++ [last]))) m.roots)) ∧
          (m.templates = ({} : Options).modulePaths → ∀ root : Path, root.isAbsolute = true →
            root.normal.same root = true →
              ∃ above : List String, root.components = .root :: above.map .normal ∧
                m.candidates (packagePath (".".intercalate (segments ++ [last]))) [root] =
                  [⟨"/" ++ "/".intercalate (above ++ segments ++ [last ++ ".lua"])⟩,
                    ⟨"/" ++ "/".intercalate (above ++ segments ++ [last, "init.lua"])⟩]) := by
  constructor
  · intro source file tried hne hsearched
    refine ⟨fun p => ?_, ?_, hsearched.resolvePath_eq_error hne⟩
    · rw [hsearched.resolvePath_eq_ok_iff hne, List.find?_eq_some_iff_append]
      simp only [Bool.not_eq_true']
      constructor
      · rintro ⟨hp, earlier, later, htried, hearlier⟩
        exact ⟨earlier, later, htried, hp, hearlier⟩
      · rintro ⟨earlier, later, htried, hp, hearlier⟩
        exact ⟨hp, earlier, later, htried, hearlier⟩
    · simp only [hsearched.resolvePath_eq_ok_iff hne]
      rw [← Option.isSome_iff_exists, List.find?_isSome]
  · intro segments last hsegments
    have hsegment : ∀ s ∈ segments ++ [last], IsSegment s ∧ s ≠ "" :=
      fun s hs => ⟨⟨(hsegments s hs).2.1, (hsegments s hs).2.2⟩, (hsegments s hs).1⟩
    refine ⟨fun file => .package ?_, fun htemplates root habs hnormal => ?_⟩
    · exact not_relative_dotted (by simp) hsegment
    · obtain ⟨above, habove, hroot⟩ := exists_names_of_normal habs hnormal
      refine ⟨above, hroot, ?_⟩
      rw [m.candidates_dotted htemplates hroot habove hsegment]
      rfl

/-- Modules below two roots, with one known file. -/
def layeredModules : Modules where
  files := .listed [⟨"/a/main.lua"⟩, ⟨"/a/util.lua"⟩, ⟨"/b/lib/x/init.lua"⟩]
  roots := [⟨"/a"⟩, ⟨"/b"⟩]
  templates := ({} : Options).modulePaths
  base := ⟨"/a"⟩
  registry := (∅ : Registry).register ⟨⟨"/a/main.lua"⟩, 0, none⟩

/-- A package name is found below the second root with the second template, after three other
places; a relative name is found beside the file that asks; and a name without a file is searched
in all four places. -/
theorem layeredModules_firstMatch :
    layeredModules.Searched "lib.x" 0
        [⟨"/a/lib/x.lua"⟩, ⟨"/a/lib/x/init.lua"⟩, ⟨"/b/lib/x.lua"⟩, ⟨"/b/lib/x/init.lua"⟩] ∧
      layeredModules.resolvePath "lib.x" 0 = .ok ⟨"/b/lib/x/init.lua"⟩ ∧
      layeredModules.resolvePath "./util" 0 = .ok ⟨"/a/util.lua"⟩ ∧
      layeredModules.resolvePath "y" 0 = .error (.notFound "y"
        [⟨"/a/y.lua"⟩, ⟨"/a/y/init.lua"⟩, ⟨"/b/y.lua"⟩, ⟨"/b/y/init.lua"⟩]) ∧
      ∃ above : List String, (⟨"/b"⟩ : Path).components = .root :: above.map .normal ∧
        layeredModules.candidates (packagePath "lib.x") [⟨"/b"⟩] =
          [⟨"/" ++ "/".intercalate (above ++ ["lib"] ++ ["x" ++ ".lua"])⟩,
            ⟨"/" ++ "/".intercalate (above ++ ["lib"] ++ ["x", "init.lua"])⟩] := by
  obtain ⟨hfirst, hdotted⟩ := layeredModules.resolvePath_firstMatch
  have hpackage : layeredModules.candidates (packagePath "lib.x") layeredModules.roots =
      [⟨"/a/lib/x.lua"⟩, ⟨"/a/lib/x/init.lua"⟩, ⟨"/b/lib/x.lua"⟩, ⟨"/b/lib/x/init.lua"⟩] := by
    decide
  have hrelative : layeredModules.candidates "./util" [⟨"/a"⟩] =
      [⟨"/a/util.lua"⟩, ⟨"/a/util/init.lua"⟩] := by decide
  have habsent : layeredModules.candidates (packagePath "y") layeredModules.roots =
      [⟨"/a/y.lua"⟩, ⟨"/a/y/init.lua"⟩, ⟨"/b/y.lua"⟩, ⟨"/b/y/init.lua"⟩] := by decide
  have hx : layeredModules.Searched "lib.x" 0 _ := .package (by decide)
  have hutil : layeredModules.Searched "./util" 0
      (layeredModules.candidates "./util" [⟨"/a"⟩]) := by
    apply Searched.relative
    · decide
    · show _ = some (⟨"/a/main.lua"⟩ : Path)
      decide
    · decide
  have hy : layeredModules.Searched "y" 0 _ := .package (by decide)
  rw [hpackage] at hx
  rw [hrelative] at hutil
  rw [habsent] at hy
  refine ⟨hx, ?_, ?_, ?_, ?_⟩
  · rw [(hfirst _ _ _ (by decide) hx).1]
    refine ⟨[⟨"/a/lib/x.lua"⟩, ⟨"/a/lib/x/init.lua"⟩, ⟨"/b/lib/x.lua"⟩], [], rfl, ?_, ?_⟩ <;> decide
  · rw [(hfirst _ _ _ (by decide) hutil).1]
    exact ⟨[], _, rfl, by decide, by simp⟩
  · exact (hfirst _ _ _ (by decide) hy).2.2 (by decide)
  · exact (hdotted ["lib"] "x" (by decide)).2 rfl ⟨"/b"⟩ (by decide) (by decide)

/-! ## Staying below the roots -/

/-- The path is looked at when the name is resolved: it is what was found, or it is among what was
searched in vain. -/
def LooksUp (m : Modules) (source : String) (file : FileId) (p : Path) : Prop :=
  m.resolvePath source file = .ok p ∨
    ∃ name tried, m.resolvePath source file = .error (.notFound name tried) ∧ p ∈ tried

/-- The path is below one of the roots. -/
def Covers (m : Modules) (p : Path) : Prop := ∃ root ∈ m.roots, root.components <+: p.components

/-- The path of the package name is absolute. -/
def startsAtRoot (source : String) : Bool :=
  source.toList.head? = some '.' || source.toList.head? = some '/'

lemma Searched.mem_of_looksUp {m : Modules} {source : String} {file : FileId} {tried : List Path}
    (h : m.Searched source file tried) (hne : source ≠ "") {p : Path}
    (hp : m.LooksUp source file p) : p ∈ tried := by
  rcases hp with hp | ⟨name, tried', herror, hp⟩
  · exact List.mem_of_find?_eq_some ((h.resolvePath_eq_ok_iff hne).1 hp)
  · rw [h.resolvePath_eq hne] at herror
    split at herror
    · cases herror
    · cases herror
      exact hp

lemma isAbsolute_fill {source t : String} (hne : source ≠ "")
    (ht : t ∈ ({} : Options).modulePaths) :
    (⟨fill t (packagePath source)⟩ : Path).isAbsolute = startsAtRoot source := by
  have hcs : source.toList ≠ [] := by simpa using hne
  obtain ⟨c, cs, hcons⟩ := List.exists_cons_of_ne_nil hcs
  rcases List.mem_pair.1 ht with rfl | rfl <;>
    by_cases hc : c = '.' <;>
    simp [isAbsolute, startsAtRoot, fill, packagePath, hcons, hc]

/-- What is tried for a package name below a root is covered by the root, unless the name starts
with a dot or a slash. -/
lemma isPrefix_of_mem_candidates (m : Modules)
    (htemplates : m.templates = ({} : Options).modulePaths) {root : Path}
    (habs : root.isAbsolute = true) (hnormal : root.normal.same root = true) {source : String}
    (hne : source ≠ "") (hstart : startsAtRoot source = false) {p : Path}
    (hp : p ∈ m.candidates (packagePath source) [root]) : root.components <+: p.components := by
  rw [candidates, htemplates, List.flatMap_singleton] at hp
  obtain ⟨t, ht, rfl⟩ := List.mem_map.1 hp
  obtain ⟨above, habove, hroot⟩ := exists_names_of_normal habs hnormal
  obtain ⟨names, hnames, hname, hfill⟩ := exists_filled source ht
  have hrel := isAbsolute_fill hne ht
  rw [hstart, hfill] at hrel
  rw [hfill, m.locate_join hroot habove hnames hname, hrel, if_neg (by simp),
    components_plainText (isName_append_filter habove hname), plain_append, hroot]
  exact List.prefix_append _ _

/-- A name that starts with a dot or a slash is looked for in the same places below every
directory. -/
lemma candidates_of_startsAtRoot (m : Modules)
    (htemplates : m.templates = ({} : Options).modulePaths) {source : String} (hne : source ≠ "")
    (hstart : startsAtRoot source = true) (dir dir' : Path) :
    m.candidates (packagePath source) [dir] = m.candidates (packagePath source) [dir'] := by
  rw [candidates, candidates, htemplates, List.flatMap_singleton, List.flatMap_singleton]
  apply List.map_congr_left
  intro t ht
  have habs := isAbsolute_fill hne ht
  rw [hstart] at habs
  rw [join_of_isAbsolute _ habs, join_of_isAbsolute _ habs]

/-- With absolute roots in normal form and the default templates, a search for a package name stays
below the roots, whatever the files are, if the name starts with neither a dot nor a slash.  If it
does start so, the search goes to the root of the file system, and it stays below the roots only if
there are none, or if they happen to cover what is tried there. -/
theorem lookedUp_covered_iff (m : Modules)
    (hroots : ∀ root ∈ m.roots, root.isAbsolute = true ∧ root.normal.same root = true)
    (htemplates : m.templates = ({} : Options).modulePaths) {source : String} (hne : source ≠ "")
    (hpackage : ¬ (['.', '/'] <+: source.toList ∨ ['.', '.', '/'] <+: source.toList)) :
    (∀ files file p, ({ m with files } : Modules).LooksUp source file p → m.Covers p) ↔
      startsAtRoot source = false ∨ m.roots = [] ∨
        ∀ p ∈ m.candidates (packagePath source) [⟨"/"⟩], m.Covers p := by
  have hsearched : ∀ files file, ({ m with files } : Modules).Searched source file
      (m.candidates (packagePath source) m.roots) := fun files file => .package hpackage
  have hmem : ∀ p, p ∈ m.candidates (packagePath source) m.roots ↔
      ∃ root ∈ m.roots, p ∈ m.candidates (packagePath source) [root] := by
    simp [candidates]
  have hlooks : ∀ files file p, ({ m with files } : Modules).LooksUp source file p →
      ∃ root ∈ m.roots, p ∈ m.candidates (packagePath source) [root] := by
    intro files file p hp
    exact (hmem p).1 ((hsearched files file).mem_of_looksUp hne hp)
  cases hstart : startsAtRoot source with
  | false =>
    refine iff_of_true (fun files file p hp => ?_) (.inl rfl)
    obtain ⟨root, hroot, hp⟩ := hlooks files file p hp
    obtain ⟨habs, hnormal⟩ := hroots root hroot
    exact ⟨root, hroot, m.isPrefix_of_mem_candidates htemplates habs hnormal hne hstart hp⟩
  | true =>
    have hsame := m.candidates_of_startsAtRoot htemplates hne hstart
    simp only [Bool.true_eq_false, false_or]
    constructor
    · intro hcovered
      by_cases hnil : m.roots = []
      · exact .inl hnil
      · obtain ⟨root, hroot⟩ := List.exists_mem_of_ne_nil _ hnil
        refine .inr fun p hp => ?_
        -- without any file, all that may be tried is tried
        have herror := (hsearched (.listed []) 0).resolvePath_eq_error hne fun _ _ => rfl
        have hp : p ∈ m.candidates (packagePath source) m.roots :=
          (hmem p).2 ⟨root, hroot, by rwa [hsame root ⟨"/"⟩]⟩
        exact hcovered (.listed []) 0 p (.inr ⟨source, _, herror, hp⟩)
    · rintro (hnil | hcovers) files file p hp
      · obtain ⟨root, hroot, -⟩ := hlooks files file p hp
        rw [hnil] at hroot
        cases hroot
      · obtain ⟨root, -, hp⟩ := hlooks files file p hp
        rw [hsame root ⟨"/"⟩] at hp
        exact hcovers p hp

/-- Modules below the root `/project`, with one file outside of it. -/
def guardedModules : Modules :=
  ⟨.listed [⟨"/secret.lua"⟩], [⟨"/project"⟩], ({} : Options).modulePaths, ⟨"/project"⟩, ∅⟩

/-- The name `lib.secret` stays below the root `/project`, but `.secret` leads to `/secret.lua`. -/
theorem guardedModules_escape :
    (∀ root ∈ guardedModules.roots, root.isAbsolute = true ∧ root.normal.same root = true) ∧
      (∀ files file p, ({ guardedModules with files } : Modules).LooksUp "lib.secret" file p →
        guardedModules.Covers p) ∧
      guardedModules.LooksUp ".secret" 0 ⟨"/secret.lua"⟩ ∧
      ¬ ∀ files file p, ({ guardedModules with files } : Modules).LooksUp ".secret" file p →
        guardedModules.Covers p := by
  have hroots : ∀ root ∈ guardedModules.roots,
      root.isAbsolute = true ∧ root.normal.same root = true := by decide
  have hinside := (guardedModules.lookedUp_covered_iff hroots rfl (by decide : "lib.secret" ≠ "")
    (by decide)).2 (.inl (by decide))
  have houtside := guardedModules.lookedUp_covered_iff hroots rfl (by decide : ".secret" ≠ "")
    (by decide)
  refine ⟨hroots, hinside, .inl rfl, fun h => ?_⟩
  rcases houtside.1 h with hstart | hnil | hcovers
  · exact absurd hstart (by decide)
  · exact absurd hnil (by simp [guardedModules])
  · obtain ⟨root, hroot, hprefix⟩ := hcovers ⟨"/secret.lua"⟩ (List.mem_cons_self)
    rw [List.mem_singleton.1 hroot] at hprefix
    exact absurd hprefix (by decide)

end TypeQuery.Modules
