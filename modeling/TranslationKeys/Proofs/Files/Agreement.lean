import TranslationKeys.Configuration.Basic
import TranslationKeys.Proofs.Files.Places
import TranslationKeys.Proofs.Path.Wildcards
import TranslationKeys.Proofs.Related

/-!
# Selections and rules

A pattern that selects files is matched component by component against the directories of a file
system; the same pattern in a rule is matched against the text of a relative path, where a run of
characters may span slashes. What the components of a pattern stand for is said here by a relation
between components and names. A file that a selection finds is found along it, and where every `**`
but a leading one stands for at least one name, the rule accepts the file as well.
-/

namespace TranslationKeys

namespace Glob

/-- The names that the components of a pattern stand for: a component stands for one name that it
matches, and `**` for any names, at least as many as given. -/
inductive Spells (least : Nat) : List String → List String → Prop where
  | nil : Spells least [] []
  | name {c name : String} {cs names : List String} (hc : c ≠ anyDepth)
      (hmatch : Wildcard.matchesText c.toList name.toList = true) (h : Spells least cs names) :
      Spells least (c :: cs) (name :: names)
  | depth {cs more names : List String} (hleast : least ≤ more.length) (h : Spells least cs names) :
      Spells least (anyDepth :: cs) (more ++ names)

section Spells

variable {least : Nat} {c : String} {cs names : List String}

/-- What two lists of components stand for, the two one after the other stand for. -/
theorem Spells.append {ds more : List String} (h : Spells least cs names)
    (hds : Spells least ds more) : Spells least (cs ++ ds) (names ++ more) := by
  induction h with
  | nil => exact hds
  | name hc hmatch _ ih => exact .name hc hmatch ih
  | depth hleast _ ih =>
    rw [List.append_assoc]
    exact .depth hleast ih

/-- A plain component stands for itself. -/
theorem spells_of_plain (h : hasMagic c = false) : Spells least [c] [c] := by
  refine .name ?_ ((Wildcard.matchesText_iff_of_plain h).2 rfl) .nil
  rintro rfl
  exact absurd h (by decide)

/-- Plain components stand for themselves. -/
theorem spells_self (h : ∀ c ∈ cs, hasMagic c = false) : Spells least cs cs := by
  induction cs with
  | nil => exact .nil
  | cons c cs ih =>
    obtain ⟨hc, hcs⟩ := List.forall_mem_cons.1 h
    exact (spells_of_plain hc).append (ih hcs)

/-- Components without `**` leave no choice of how many names they stand for. -/
theorem Spells.of_notMem {more : Nat} (h : Spells least cs names) (hcs : anyDepth ∉ cs) :
    Spells more cs names := by
  induction h with
  | nil => exact .nil
  | name hc hmatch _ ih => exact .name hc hmatch (ih fun hmem => hcs (List.mem_cons_of_mem _ hmem))
  | depth => exact absurd List.mem_cons_self hcs

/-- Every `**` but a leading one stands for at least one name. -/
def SpellsFully (cs names : List String) : Prop :=
  Spells 1 cs names ∨ ∃ rest, cs = anyDepth :: rest ∧ Spells 1 rest names

/-- Where only the first component can be `**`, every other `**` stands for at least one name. -/
theorem Spells.spellsFully (h : Spells 0 cs names) (hcs : anyDepth ∉ cs.tail) :
    SpellsFully cs names := by
  cases h with
  | nil => exact .inl .nil
  | name hc hmatch hrest => exact .inl (.name hc hmatch (hrest.of_notMem hcs))
  | @depth cs more names _ hrest =>
    have hfull : Spells 1 cs names := hrest.of_notMem hcs
    cases more with
    | nil => exact .inr ⟨cs, rfl, hfull⟩
    | cons name more => exact .inl (.depth (by simp) hfull)

/-- Where every `**` stands for something, some components stand for some names. -/
theorem Spells.ne_nil (h : Spells 1 cs names) (hcs : cs ≠ []) : names ≠ [] := by
  cases h with
  | nil => exact absurd rfl hcs
  | name => simp
  | depth hleast =>
    intro hnil
    rw [(List.append_eq_nil_iff.1 hnil).1] at hleast
    exact absurd hleast (by decide)

end Spells

section Expanding

variable {tree : FileTree} {m : Match}

/-- A path with further components, and then more. -/
theorem extend_extend (dir : Path) (names more : List String) :
    extend (extend dir names) more = extend dir (names ++ more) := by
  simp [extend]

/-- What a component leads to is spelled by it. -/
theorem exists_spells_of_mem_expandOne {onlyDirectories : Bool} {c : String} {dir : Path}
    (h : m ∈ expandOne tree onlyDirectories c dir) :
    ∃ names, m.path = extend dir names ∧ Spells 0 [c] names := by
  have hdepth (names : List String) : Spells 0 [anyDepth] names := by
    simpa using Spells.depth (Nat.zero_le names.length) .nil
  rcases cases_of_mem_expandOne h with ⟨rfl, hpath | ⟨t, names, -, -, hpath⟩⟩ |
    ⟨hc, name, hpath, ⟨t, -, hname⟩ | ⟨hplain, rfl⟩⟩
  · exact ⟨[], by simp [hpath, extend], hdepth []⟩
  · exact ⟨names, hpath, hdepth names⟩
  · exact ⟨[name], hpath, .name hc (List.mem_filter.1 hname).2 .nil⟩
  · exact ⟨[name], hpath, spells_of_plain hplain⟩

/-- What components lead to is spelled by them. -/
theorem exists_spells_of_mem_expandAll {cs : List String} {found : List Path}
    (h : m ∈ expandAll tree cs found) :
    ∃ dir ∈ found, ∃ names, m.path = extend dir names ∧ Spells 0 cs names := by
  fun_induction expandAll tree cs found with
  | case1 found =>
    obtain ⟨dir, hdir, rfl⟩ := List.mem_map.1 h
    exact ⟨dir, hdir, [], by simp [extend], .nil⟩
  | case2 last found =>
    obtain ⟨dir, hdir, hm⟩ := List.mem_flatMap.1 h
    obtain ⟨names, hpath, hspells⟩ := exists_spells_of_mem_expandOne hm
    exact ⟨dir, hdir, names, hpath, hspells⟩
  | case3 c rest found hrest ih =>
    obtain ⟨inner, hinner, names, hpath, hspells⟩ := ih h
    obtain ⟨first, hfirst, rfl⟩ := List.mem_map.1 hinner
    obtain ⟨dir, hdir, hm⟩ := List.mem_flatMap.1 hfirst
    obtain ⟨before, hbefore, hc⟩ := exists_spells_of_mem_expandOne hm
    rw [hbefore, extend_extend] at hpath
    exact ⟨dir, hdir, before ++ names, hpath, hc.append hspells⟩

/-- Plain components of a root stand before those of a pattern under it. -/
theorem divide_extend {root : Path} (hroot : ∀ c ∈ root.components, hasMagic c = false)
    (cs : List String) :
    divide (extend root cs) = (root.components ++ cs.takeWhile fun c => !hasMagic c,
      cs.dropWhile fun c => !hasMagic c) := by
  have hplain : ∀ c ∈ root.components, (!hasMagic c) = true := fun c hc => by simp [hroot c hc]
  rw [divide, extend, List.span_eq_takeWhile_dropWhile, List.takeWhile_append_of_pos hplain,
    List.dropWhile_append_of_pos hplain]

/-- The files that a pattern under a root without wildcards stands for are spelled by it. -/
theorem exists_spells_of_mem_files {root f : Path} {cs : List String}
    (hroot : ∀ c ∈ root.components, hasMagic c = false) (h : f ∈ files tree (extend root cs)) :
    ∃ names, f = extend root names ∧ Spells 0 cs names := by
  obtain ⟨m, hm, rfl⟩ := List.mem_map.1 (List.mem_filter.1 h).1
  have hm : m ∈ expand tree (extend root cs) := (List.mergeSort_perm _ _).mem_iff.1 hm
  rw [expand, divide_extend hroot] at hm
  obtain ⟨dir, hdir, names, hpath, hspells⟩ := exists_spells_of_mem_expandAll hm
  obtain rfl := List.mem_singleton.1 hdir
  have hplain : ∀ c ∈ cs.takeWhile fun c => !hasMagic c, hasMagic c = false := fun c hc => by
    simpa using List.mem_takeWhile_imp hc
  refine ⟨(cs.takeWhile fun c => !hasMagic c) ++ names, ?_, ?_⟩
  · rw [hpath]
    simp [extend]
  · have hall := (spells_self hplain).append hspells
    rwa [List.takeWhile_append_dropWhile] at hall

end Expanding

section Joined

/-- The text of components joined by slashes. -/
def joined (cs : List String) : List Char :=
  (String.intercalate "/" cs).toList

variable {cs ds : List String}

/-- Two lists of components are joined by a slash. -/
theorem joined_append (hcs : cs ≠ []) (hds : ds ≠ []) :
    joined (cs ++ ds) = joined cs ++ '/' :: joined ds := by
  rw [joined, String.intercalate_append_of_ne_nil hcs hds]
  simp [joined]

/-- One component is joined to itself. -/
theorem joined_singleton (c : String) : joined [c] = c.toList := by
  rw [joined, String.intercalate_singleton]

/-- A component is joined to others by a slash. -/
theorem joined_cons (c : String) (hcs : cs ≠ []) :
    joined (c :: cs) = c.toList ++ '/' :: joined cs := by
  rw [← List.singleton_append, joined_append (by simp) hcs, joined_singleton]

/-- A character other than a slash is in joined components only if it is in one of them. -/
theorem notMem_joined {c : Char} (hc : c ≠ '/') (h : ∀ d ∈ cs, c ∉ d.toList) : c ∉ joined cs := by
  induction cs with
  | nil => simp [joined]
  | cons d cs ih =>
    obtain ⟨hd, hcs⟩ := List.forall_mem_cons.1 h
    by_cases hnil : cs = []
    · rw [hnil, joined_singleton]
      exact hd
    · rw [joined_cons d hnil]
      simp [hd, hc, ih hcs]

/-- No bracket that a component leaves open is closed in a later one. -/
def ClosesBrackets (cs : List String) : Prop :=
  cs.Pairwise fun c d => .only '[' ∈ Wildcard.parse c.toList → ']' ∉ d.toList

/-- Where every `**` stands for something, joined components match what they spell, joined. -/
theorem Spells.matchesText {names : List String} (h : Spells 1 cs names) (hcs : cs ≠ [])
    (hbrackets : ClosesBrackets cs) :
    Wildcard.matchesText (joined cs) (joined names) = true := by
  induction h with
  | nil => exact absurd rfl hcs
  | @name c name cs names hc hmatch hrest ih =>
    obtain ⟨hopen, hbrackets⟩ := List.pairwise_cons.1 hbrackets
    by_cases hnil : cs = []
    · subst hnil
      cases hrest
      rwa [joined_singleton, joined_singleton]
    · rw [joined_cons c hnil, joined_cons name (hrest.ne_nil hnil)]
      refine Wildcard.matchesText_append_slash (fun ho => ?_) hmatch (ih hnil hbrackets)
      exact notMem_joined (by decide) fun d hd => hopen d hd ho
  | @depth cs more names hleast hrest ih =>
    obtain ⟨-, hbrackets⟩ := List.pairwise_cons.1 hbrackets
    have hmore : more ≠ [] := List.ne_nil_of_length_pos hleast
    by_cases hnil : cs = []
    · subst hnil
      cases hrest
      rw [joined_singleton]
      exact Wildcard.matchesText_runs _
    · rw [joined_cons anyDepth hnil, joined_append hmore (hrest.ne_nil hnil)]
      have hopen : Wildcard.only '[' ∉ Wildcard.parse anyDepth.toList := by decide
      exact Wildcard.matchesText_append_slash (fun ho => absurd ho hopen)
        (Wildcard.matchesText_runs _) (ih hnil hbrackets)

end Joined

end Glob

namespace PathPattern

/-- A pattern that is matched by a whole relative path accepts it. -/
theorem matchesNormalised_of_matchesText {relative pattern : List Char} (hne : pattern ≠ [])
    (h : Wildcard.matchesText pattern relative = true) :
    matchesNormalised relative pattern = true := by
  unfold matchesNormalised
  rw [if_neg (by simpa using hne)]
  split <;> simp [h]

/-- A pattern after a leading `**` that is matched by a whole relative path accepts it. -/
theorem matchesNormalised_of_leading {relative pattern : List Char}
    (h : Wildcard.matchesText pattern relative = true) :
    matchesNormalised relative ('*' :: '*' :: '/' :: pattern) = true := by
  simp [matchesNormalised, h]

/-- The components of a pattern accept every relative path that they spell, if every `**` but a
leading one stands for something. -/
theorem matchesNormalised_of_spells {cs names : List String} (hcs : cs ≠ [])
    (hempty : ∀ c ∈ cs, c ≠ "") (hbrackets : Glob.ClosesBrackets cs)
    (h : Glob.SpellsFully cs names) :
    matchesNormalised (Path.text ⟨.relative, names⟩).toList (Glob.joined cs) = true := by
  have hjoined (names : List String) (hnames : names ≠ []) :
      (Path.text ⟨.relative, names⟩).toList = Glob.joined names := by
    simp [Path.text, hnames, Glob.joined]
  have hne : Glob.joined cs ≠ [] := by
    obtain ⟨c, rest, rfl⟩ := List.exists_cons_of_ne_nil hcs
    by_cases hrest : rest = []
    · rw [hrest, Glob.joined_singleton]
      simpa using hempty c List.mem_cons_self
    · rw [Glob.joined_cons c hrest]
      simp
  rcases h with h | ⟨rest, rfl, h⟩
  · rw [hjoined names (h.ne_nil hcs)]
    exact matchesNormalised_of_matchesText hne (h.matchesText hcs hbrackets)
  · by_cases hrest : rest = []
    · subst hrest
      exact matchesNormalised_of_matchesText hne (Wildcard.matchesText_runs _)
    · rw [Glob.joined_cons _ hrest, hjoined names (h.ne_nil hrest)]
      exact matchesNormalised_of_leading (h.matchesText hrest (List.pairwise_cons.1 hbrackets).2)

end PathPattern

/-- The components of the path that a string spells are not empty. -/
theorem Path.ne_empty_of_mem_ofString {pattern c : String}
    (h : c ∈ (Path.ofString pattern).components) : c ≠ "" := by
  have hc := (List.mem_filter.1 h).2
  simp only [Bool.and_eq_true, bne_iff_ne] at hc
  exact hc.1

/-- A relative path is joined to a root as more components of it. -/
theorem Path.join_eq_extend {p : Path} (h : p.isAbsolute = false) (root : Path) :
    root.join p = Glob.extend root p.components := by
  simp [Path.join, h, Glob.extend]

/-- The text of a path below a root relative to it. -/
theorem Path.relativeText_extend (root : Path) (names : List String) :
    (Glob.extend root names).relativeText root = Path.text ⟨.relative, names⟩ := by
  simp [Path.relativeText, Path.relativeTo?, Glob.extend]

namespace Listing

variable {tree : FileTree} {root : Path} {pattern : String}

/-- The files that a pattern which leads nowhere by itself selects under a root without wildcards
are spelled by its components, of which it has some. -/
theorem exists_spells_of_mem_expand {extensions : Value} {files : List Path} {f : Path}
    (hrelative : (Path.ofString pattern).isAbsolute = false)
    (hroot : ∀ c ∈ root.components, Glob.hasMagic c = false)
    (hnowhere : tree.probe (root.join (Path.ofString pattern)) = .ok none)
    (hexpand : expand tree root extensions pattern = .ok files) (hf : f ∈ files) :
    (Path.ofString pattern).components ≠ [] ∧ ∃ names, f = Glob.extend root names ∧
      Glob.Spells 0 (Path.ofString pattern).components names := by
  have hjoin := Path.join_eq_extend hrelative root
  rw [expand_of_probe_eq_none extensions hnowhere, hjoin] at hexpand
  have hf := mem_files_of_mem_expandWildcards hexpand hf
  obtain ⟨names, rfl, hspells⟩ := Glob.exists_spells_of_mem_files hroot hf
  refine ⟨fun hnil => ?_, names, rfl, hspells⟩
  -- Without components the file would be what the pattern leads to by itself.
  rw [hnil] at hspells hjoin
  cases hspells
  have hfile := (List.mem_filter.1 hf).2
  rw [hjoin] at hnowhere
  unfold FileTree.probe at hnowhere
  unfold FileTree.hasFile at hfile
  cases hlocate : tree.locate (Glob.extend root []) with
  | ok found => simp [hlocate] at hnowhere
  | error e => simp [hlocate, Except.toOption] at hfile

/-- Selections and rules agree. Let a relative pattern lead nowhere by itself, let its normal form
be its components joined by slashes, and let no bracket that one component leaves open be closed in
a later one. Every file that it selects under a root without wildcards is spelled by its components.
If `**` is only the first of them, or stands for at least one name wherever it is a later one, then
a rule with the pattern accepts the file, and the file is ignored or overridden accordingly. -/
theorem matchesPath_of_mem_expand {extensions : Value} {files : List Path}
    (hrelative : (Path.ofString pattern).isAbsolute = false)
    (hnormal : PathPattern.normalise pattern.toList =
      Glob.joined (Path.ofString pattern).components)
    (hbrackets : Glob.ClosesBrackets (Path.ofString pattern).components)
    (hroot : ∀ c ∈ root.components, Glob.hasMagic c = false)
    (hnowhere : tree.probe (root.join (Path.ofString pattern)) = .ok none)
    (hexpand : expand tree root extensions pattern = .ok files) :
    ∀ f ∈ files, ∃ names, f = Glob.extend root names ∧
      Glob.Spells 0 (Path.ofString pattern).components names ∧
      (Glob.anyDepth ∉ (Path.ofString pattern).components.tail ∨
          Glob.SpellsFully (Path.ofString pattern).components names →
        PathPattern.matchesPath (f.relativeText root).toList pattern.toList = true ∧
          (∀ rules, pattern ∈ rules → Path.ignoredUnder root rules f = true) ∧
          ∀ override : PatternOverride, pattern ∈ override.files →
            override.covers (f.relativeText root) = true) := by
  intro f hf
  obtain ⟨hcomponents, names, rfl, hspells⟩ :=
    exists_spells_of_mem_expand hrelative hroot hnowhere hexpand hf
  refine ⟨names, rfl, hspells, fun hfull => ?_⟩
  have hfully : Glob.SpellsFully (Path.ofString pattern).components names :=
    hfull.elim hspells.spellsFully id
  have hmatches : PathPattern.matchesPath ((Glob.extend root names).relativeText root).toList
      pattern.toList = true := by
    rw [PathPattern.matchesPath, hnormal, Path.relativeText_extend]
    exact PathPattern.matchesNormalised_of_spells hcomponents
      (fun c hc => Path.ne_empty_of_mem_ofString hc) hbrackets hfully
  have hsome (rules : List String) (hmem : pattern ∈ rules) :
      PathPattern.matchesSome ((Glob.extend root names).relativeText root) rules = true :=
    List.any_eq_true.2 ⟨pattern, hmem, hmatches⟩
  refine ⟨hmatches, fun rules hmem => ?_, fun override hmem => hsome override.files hmem⟩
  rw [Path.ignoredUnder, hsome rules hmem, Bool.or_true]

/-- The sources of a project: two components, one of them below another directory, and a script
with a backslash in its name. -/
def sampleSources : FileTree :=
  .directory [("r", .directory
    [("src", .directory
      [("Top.vue", .file []), ("views", .directory [("Page.vue", .file [])])]),
      ("src\\a.js", .file [])])]

/-- The root of the project. -/
def sampleSourcesRoot : Path := ⟨.slash, ["r"]⟩

/-- A pattern of the project that leads nowhere by itself selects what it expands to. -/
theorem mem_expand_sampleSources (pattern : String) (f : Path)
    (hnowhere : sampleSources.probe (sampleSourcesRoot.join (Path.ofString pattern)) = .ok none)
    (hmagic : Glob.hasMagic pattern = true)
    (hnul : searchesNul (sampleSourcesRoot.join (Path.ofString pattern)) = false)
    (hfound : f ∈ (Glob.expand sampleSources
      (sampleSourcesRoot.join (Path.ofString pattern))).map Glob.Match.path)
    (hfile : sampleSources.hasFile f = true) :
    ∃ files, expand sampleSources sampleSourcesRoot .null pattern = .ok files ∧ f ∈ files := by
  refine ⟨Glob.files sampleSources (sampleSourcesRoot.join (Path.ofString pattern)), ?_,
    List.mem_filter.2 ⟨?_, hfile⟩⟩
  · rw [expand_of_probe_eq_none .null hnowhere, expandWildcards]
    simp only [hmagic, hnul]
    rfl
  · obtain ⟨m, hm, rfl⟩ := List.mem_map.1 hfound
    exact List.mem_map_of_mem ((List.mergeSort_perm _ _).mem_iff.2 hm)

/-- The component below another directory is selected and accepted. -/
theorem matchesPath_of_mem_expand_sampleSources :
    ∃ files, expand sampleSources sampleSourcesRoot .null "src/**/*.vue" = .ok files ∧
      ⟨.slash, ["r", "src", "views", "Page.vue"]⟩ ∈ files ∧
      PathPattern.matchesPath "src/views/Page.vue".toList "src/**/*.vue".toList = true := by
  have hnowhere : sampleSources.probe
      (sampleSourcesRoot.join (Path.ofString "src/**/*.vue")) = .ok none := rfl
  obtain ⟨files, hexpand, hf⟩ := mem_expand_sampleSources "src/**/*.vue"
    ⟨.slash, ["r", "src", "views", "Page.vue"]⟩ hnowhere (by decide +kernel) (by decide +kernel)
    (by decide +kernel) (by decide +kernel)
  have hbrackets : Glob.ClosesBrackets (Path.ofString "src/**/*.vue").components := by
    unfold Glob.ClosesBrackets
    decide +kernel
  obtain ⟨names, hnames, -, haccepts⟩ := matchesPath_of_mem_expand (by decide +kernel)
    (by decide +kernel) hbrackets (by decide +kernel) hnowhere hexpand _ hf
  obtain rfl : names = ["src", "views", "Page.vue"] := by
    simpa [Glob.extend, sampleSourcesRoot] using congrArg Path.components hnames.symm
  have hfully : Glob.SpellsFully (Path.ofString "src/**/*.vue").components
      ["src", "views", "Page.vue"] := by
    have hdepth : Glob.Spells 1 ["**", "*.vue"] (["views"] ++ ["Page.vue"]) :=
      .depth (by decide) (.name (by decide) (by decide +kernel) .nil)
    exact .inl (.name (by decide) (by decide +kernel) hdepth)
  exact ⟨files, hexpand, hf, (haccepts (.inr hfully)).1⟩

/-- A pattern that turns into another one when it is normalised, and one in which a later `**`
stands for no directory, select files that a rule with the same pattern does not accept. -/
theorem exists_mem_expand_not_matchesPath :
    (∃ files, expand sampleSources sampleSourcesRoot .null "src\\*.js" = .ok files ∧
      ∃ f ∈ files, PathPattern.matchesPath (f.relativeText sampleSourcesRoot).toList
        "src\\*.js".toList = false) ∧
    ∃ files, expand sampleSources sampleSourcesRoot .null "src/**/*.vue" = .ok files ∧
      ∃ f ∈ files, PathPattern.matchesPath (f.relativeText sampleSourcesRoot).toList
        "src/**/*.vue".toList = false := by
  constructor
  · obtain ⟨files, hexpand, hf⟩ := mem_expand_sampleSources "src\\*.js"
      ⟨.slash, ["r", "src\\a.js"]⟩ rfl (by decide +kernel) (by decide +kernel)
      (by decide +kernel) (by decide +kernel)
    exact ⟨files, hexpand, _, hf, by decide +kernel⟩
  · obtain ⟨files, hexpand, hf⟩ := mem_expand_sampleSources "src/**/*.vue"
      ⟨.slash, ["r", "src", "Top.vue"]⟩ rfl (by decide +kernel) (by decide +kernel)
      (by decide +kernel) (by decide +kernel)
    exact ⟨files, hexpand, _, hf, by decide +kernel⟩

end Listing

end TranslationKeys
