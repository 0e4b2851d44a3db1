import TranslationKeys.Proofs.Files.Relocation
import TranslationKeys.Proofs.Parser.Suffixes
import TranslationKeys.Proofs.UsedKeys.Transparency

/-!
# The keys of a project wherever it lies

The files of a project have the same texts and the same configurations at every place it may lie at,
and parsers that look at nothing of a path but its suffix find the same keys in them. So a listing
gives the same relative paths, and a collection the same keys, unless one of two places lies in the
directory of dependencies: there, every file is ignored.
-/

namespace TranslationKeys

/-- The collection of keys in a project. -/
def Project.setting (tree : FileTree) (root : Path) (rules : List String) (config : Configuration)
    (current : Path) (catalogue : Catalogue) : Setting where
  sources := Project.sources tree root rules
  current := current
  policy := ParserPolicy.project config current root
  catalogue := catalogue

namespace FileTree.LiesAt

variable {t fs : FileTree} {root : Path} {names : List String}

/-- The path of a file in a project is read back from its text. -/
theorem ofString_text_extend (h : t.LiesAt fs root) {found : FileTree}
    (hfound : t.follow [] names = .ok found) :
    Path.ofString (Glob.extend root names).text = Glob.extend root names := by
  obtain ⟨hproper, hroot⟩ := h.proper_and_isStep
  have hnames := (hproper.of_follow hfound).2
  refine Path.ofString_text h.isAbsolute fun c hc => ?_
  have hstep : IsStep c := (List.mem_append.1 hc).elim (hroot c) (hnames c)
  exact ⟨hstep.spelling.1, hstep.spelling.2.1, hstep.spelling.2.2.1⟩

/-- The keys of a file in a project are collected under its path. -/
theorem nameOf_extend (h : t.LiesAt fs root) (names : List String) :
    Setting.nameOf (Glob.extend root names) = (Glob.extend root names).text := by
  have hne : (Glob.extend root names).text ≠ "" := Path.text_ne_empty h.isAbsolute
  simp [Setting.nameOf, Option.filter, hne]

/-- The configuration of a file in a project is the one for the names that lead to it. -/
theorem policy_extend (h : t.LiesAt fs root) (config : Configuration) (current : Path)
    (names : List String) :
    ParserPolicy.project config current root (Glob.extend root names) =
      .ok (config.forRelative (Path.text ⟨.relative, names⟩)) := by
  have habsolute : (Glob.extend root names).isAbsolute = true := h.isAbsolute
  rw [ParserPolicy.project, Configuration.forPath, Path.absolute, Path.absolute, Path.join,
    if_pos habsolute, Path.join, if_pos h.isAbsolute, Path.relativeText_extend]

end FileTree.LiesAt

namespace FileTree.LiesAtBoth

variable {t fs₁ fs₂ : FileTree} {root₁ root₂ p₁ p₂ : Path}

/-- A file of the project has the same text at both places. -/
theorem readText_alike (h : t.LiesAtBoth fs₁ root₁ fs₂ root₂)
    (hp : t.FileAlike root₁ root₂ p₁ p₂) : fs₁.readText p₁ = fs₂.readText p₂ := by
  obtain ⟨names, content, hnames, hfollow, rfl, rfl⟩ := hp
  rw [readText, readText, readBytes, readBytes, h.locate_eq hnames (h.fits_iff hnames hfollow)]

/-- A file of the project has the same suffix at both places. -/
theorem suffix_alike (h : t.LiesAtBoth fs₁ root₁ fs₂ root₂)
    (hp : t.FileAlike root₁ root₂ p₁ p₂) : p₁.suffix = p₂.suffix := by
  obtain ⟨names, content, -, hfollow, rfl, rfl⟩ := hp
  have hne := h.left.ne_nil_of_follow_file hfollow
  rw [Path.suffix, Path.suffix, Path.name_extend hne, Path.name_extend hne]

/-- A file of the project has the same keys at both places. -/
theorem fileKeys_alike (h : t.LiesAtBoth fs₁ root₁ fs₂ root₂)
    (hp : t.FileAlike root₁ root₂ p₁ p₂) {catalogue : Catalogue}
    (hparsers : ∀ name, (catalogue.resolve name).2.ReadsSuffixOnly) (rules : List String)
    (config : Configuration) (current₁ current₂ : Path) :
    (Project.setting fs₁ root₁ rules config current₁ catalogue).fileKeys p₁ =
      (Project.setting fs₂ root₂ rules config current₂ catalogue).fileKeys p₂ := by
  have hread := h.readText_alike hp
  have hsuffix := h.suffix_alike hp
  obtain ⟨names, content, hnames, hfollow, rfl, rfl⟩ := hp
  have hname₁ := h.left.ofString_text_extend hfollow
  have hname₂ := h.right.ofString_text_extend hfollow
  have hsuffixOf : suffixOf (Glob.extend root₁ names).text =
      suffixOf (Glob.extend root₂ names).text := by
    rw [suffixOf, suffixOf, hname₁, hname₂, hsuffix]
  rw [Setting.fileKeys_eq, Setting.fileKeys_eq, h.left.nameOf_extend, h.right.nameOf_extend,
    hname₁, hname₂]
  simp only [Project.setting, Project.sources, hread, h.left.policy_extend, h.right.policy_extend,
    keysOfRun, hparsers _ _ _ hsuffixOf]

/-- The targets of a selection are the same at both places, if both lie in the directory of
dependencies or neither does. -/
theorem selected_alike (h : t.LiesAtBoth fs₁ root₁ fs₂ root₂) {patterns : List String}
    (hpatterns : ∀ s ∈ patterns, Path.StaysBelow (Path.ofString s))
    (hfits : ∀ s ∈ patterns,
      ((root₁.join (Path.ofString s)).Fits ↔ (root₂.join (Path.ofString s)).Fits))
    (hdependencies : root₁.InDependencies ↔ root₂.InDependencies) (extensions : Value)
    (rules : List String) (config : Configuration) (current₁ current₂ : Path)
    (catalogue : Catalogue) :
    EndsAlike (List.Forall₂ (t.FileAlike root₁ root₂))
      ((Project.setting fs₁ root₁ rules config current₁ catalogue).selected
        (.ofStrings patterns) extensions)
      ((Project.setting fs₂ root₂ rules config current₂ catalogue).selected
        (.ofStrings patterns) extensions) := by
  unfold Setting.selected
  cases Targets.accepted (.ofStrings patterns) extensions with
  | error f => exact .error f
  | ok suffixes =>
    refine (h.files_alike hpatterns hfits rules extensions).bind fun hlisted => .ok ?_
    have hkept := List.rel_filter
      (p := fun f => f.ignored = false ∧ f.path.suffix ∈ suffixes)
      (q := fun f => f.ignored = false ∧ f.path.suffix ∈ suffixes)
      (fun f₁ f₂ hf => by simp only [hf.ignored_eq hdependencies, h.suffix_alike hf.1]) hlisted
    refine List.rel_map (fun f₁ f₂ hf => ?_) hkept
    obtain ⟨names, content, hnames, hfollow, hp₁, hp₂⟩ := hf.1
    have habsolute (current : Path) {root p : Path} (hroot : root.isAbsolute = true)
        (hp : p = Glob.extend root names) : current.absolute p = Glob.extend root names := by
      have hp' : p.isAbsolute = true := hp ▸ hroot
      rw [Path.absolute, Path.join, if_pos hp', hp]
    exact ⟨names, content, hnames, hfollow, habsolute current₁ h.left.isAbsolute hp₁,
      habsolute current₂ h.right.isAbsolute hp₂⟩

/-- A collection without memos gives the same keys at both places, if both lie in the directory of
dependencies or neither does. -/
theorem uncached_eq (h : t.LiesAtBoth fs₁ root₁ fs₂ root₂) {patterns : List String}
    (hpatterns : ∀ s ∈ patterns, Path.StaysBelow (Path.ofString s))
    (hfits : ∀ s ∈ patterns,
      ((root₁.join (Path.ofString s)).Fits ↔ (root₂.join (Path.ofString s)).Fits))
    (hdependencies : root₁.InDependencies ↔ root₂.InDependencies) {catalogue : Catalogue}
    (hparsers : ∀ name, (catalogue.resolve name).2.ReadsSuffixOnly) (extensions : Value)
    (rules : List String) (config : Configuration) (current₁ current₂ : Path) :
    (Project.setting fs₁ root₁ rules config current₁ catalogue).uncached
        (.ofStrings patterns) extensions =
      (Project.setting fs₂ root₂ rules config current₂ catalogue).uncached
        (.ofStrings patterns) extensions := by
  have hselected := h.selected_alike hpatterns hfits hdependencies extensions rules config
    current₁ current₂ catalogue
  refine EndsAlike.eq (hselected.bind fun hpaths => ?_)
  have hfound := EndsAlike.mapM hpaths fun _ _ hp =>
    EndsAlike.of_eq (h.fileKeys_alike hp hparsers rules config current₁ current₂)
  refine hfound.bind fun heq => .ok ?_
  rw [List.forall₂_eq_eq_eq] at heq
  rw [heq]

end FileTree.LiesAtBoth

namespace Project

/-- Where a project lies cannot be observed. Let the same directory lie at two absolute paths
without wildcards, and let patterns stay below it, none of its paths and patterns being too long at
one place only. Then both places list the same relative paths in the same order. At a place in the
directory of dependencies all of them are ignored. If both places are in it or neither is, the same
ones are ignored, and a collection gives the same keys by parsers that look at nothing of a path but
its suffix. -/
theorem files_and_keys_eq_of_liesAtBoth {t fs₁ fs₂ : FileTree} {root₁ root₂ : Path}
    (h : t.LiesAtBoth fs₁ root₁ fs₂ root₂) {patterns : List String}
    (hpatterns : ∀ s ∈ patterns, Path.StaysBelow (Path.ofString s))
    (hfits : ∀ s ∈ patterns,
      ((root₁.join (Path.ofString s)).Fits ↔ (root₂.join (Path.ofString s)).Fits))
    (rules extensions : List String) :
    let listed₁ := Listing.files fs₁ root₁ rules (.ofStrings patterns) (.ofStrings extensions)
    let listed₂ := Listing.files fs₂ root₂ rules (.ofStrings patterns) (.ofStrings extensions)
    listed₁.map (List.map fun f => f.path.relativeText root₁) =
        listed₂.map (List.map fun f => f.path.relativeText root₂) ∧
      (root₁.InDependencies → ∀ files, listed₁ = .ok files → ∀ f ∈ files, f.ignored = true) ∧
      ((root₁.InDependencies ↔ root₂.InDependencies) →
        listed₁.map (List.map fun f => (f.path.relativeText root₁, f.ignored)) =
            listed₂.map (List.map fun f => (f.path.relativeText root₂, f.ignored)) ∧
          ∀ (config : Configuration) (current₁ current₂ : Path) (catalogue : Catalogue),
            (∀ name, (catalogue.resolve name).2.ReadsSuffixOnly) →
              ((usedKeys config current₁ root₁ catalogue).collect (sources fs₁ root₁ rules)
                  current₁ (.ofStrings patterns) (.ofStrings extensions)).result =
                ((usedKeys config current₂ root₂ catalogue).collect (sources fs₂ root₂ rules)
                  current₂ (.ofStrings patterns) (.ofStrings extensions)).result) := by
  intro listed₁ listed₂
  have halike := h.files_alike hpatterns hfits rules (.ofStrings extensions)
  refine ⟨halike.map_eq fun hfiles => ?_, fun hroot files hfiles f hf => ?_,
    fun hdependencies => ⟨halike.map_eq fun hfiles => ?_,
      fun config current₁ current₂ catalogue hparsers => ?_⟩⟩
  · exact map_eq_map_of_forall₂ (fun hf => hf.relativeText_eq) hfiles
  · obtain ⟨found, -, hfound⟩ := halike.exists_of_eq_ok hfiles
    obtain ⟨f₂, -, -, own, hignored, -⟩ := exists_mem_right_of_forall₂ hfound hf
    exact hignored.2 (.inl hroot)
  · refine map_eq_map_of_forall₂ (fun hf => ?_) hfiles
    rw [hf.relativeText_eq, hf.ignored_eq hdependencies]
  · have hcollect {fs : FileTree} {root current : Path} :
        ((usedKeys config current root catalogue).collect (sources fs root rules) current
            (.ofStrings patterns) (.ofStrings extensions)).result =
          (setting fs root rules config current catalogue).uncached (.ofStrings patterns)
            (.ofStrings extensions) :=
      ((Setting.agrees_start (setting fs root rules config current catalogue) {}).collect
        (listsByItems_sources fs root rules) _ _).2 (.inr ⟨patterns, rfl⟩) (.inr ⟨extensions, rfl⟩)
    rw [hcollect, hcollect]
    exact h.uncached_eq hpatterns hfits hdependencies hparsers _ rules config current₁ current₂

/-- A project with one page. -/
def sampleApp : FileTree :=
  .directory [("src", .directory [("page.vue", .file [60, 112, 62])])]

/-- A disk with three copies of the project, one of them among the dependencies of another. -/
def sampleDisk : FileTree :=
  .directory [("app", sampleApp), ("srv", .directory [("web", .directory [("site", sampleApp)]),
    ("node_modules", .directory [("app", sampleApp)])])]

/-- The disk has proper names. -/
theorem proper_sampleDisk : sampleDisk.Proper := by
  have hone {name : String} {t : FileTree} (hname : IsEntryName name) (ht : t.Proper) :
      (FileTree.directory [(name, t)]).Proper :=
    .directory (List.forall_mem_singleton.2 hname) (List.nodup_singleton name)
      (List.forall_mem_singleton.2 ht)
  have happ : sampleApp.Proper := hone (by decide) (hone (by decide) (.file _))
  refine .directory (by decide) (by decide) ?_
  refine List.forall_mem_cons.2 ⟨happ, List.forall_mem_singleton.2 ?_⟩
  refine .directory (by decide) (by decide) ?_
  exact List.forall_mem_cons.2 ⟨hone (by decide) happ,
    List.forall_mem_singleton.2 (hone (by decide) happ)⟩

/-- The project has three places. -/
theorem mem_of_follow_sampleApp {names : List String} {found : FileTree} (hnames : ".." ∉ names)
    (h : sampleApp.follow [] names = .ok found) :
    names ∈ [[], ["src"], ["src", "page.vue"]] := by
  have hone {name c : String} {t : FileTree} {above : List FileTree} {names : List String}
      (hnames : ".." ∉ c :: names)
      (h : (FileTree.directory [(name, t)]).follow above (c :: names) = .ok found) :
      c = name ∧ ∃ above', t.follow above' names = .ok found := by
    obtain ⟨above', next, hnext, ⟨rfl, -⟩ | ⟨entries, hentries, hlookup, -⟩⟩ :=
      FileTree.exists_follow_cons h
    · exact absurd List.mem_cons_self hnames
    · obtain rfl := FileTree.directory.inj hentries
      have hmem := FileTree.mem_of_lookup_eq_some hlookup
      obtain ⟨rfl, rfl⟩ := Prod.mk.inj (List.mem_singleton.1 hmem)
      exact ⟨rfl, above', hnext names ▸ h⟩
  rcases names with _ | ⟨c, _ | ⟨d, _ | ⟨e, names⟩⟩⟩
  · simp
  · obtain ⟨rfl, -⟩ := hone hnames h
    simp
  · obtain ⟨rfl, above, h⟩ := hone hnames h
    obtain ⟨rfl, -⟩ := hone (fun hmem => hnames (List.mem_cons_of_mem _ hmem)) h
    simp
  · obtain ⟨rfl, above, h⟩ := hone hnames h
    obtain ⟨rfl, above', h⟩ := hone (fun hmem => hnames (List.mem_cons_of_mem _ hmem)) h
    exact nomatch h

/-- The roots of the copies. -/
def sampleRoots : List Path :=
  [⟨.slash, ["app"]⟩, ⟨.slash, ["srv", "web", "site"]⟩, ⟨.slash, ["srv", "node_modules", "app"]⟩]

/-- The project lies at any two of its roots. -/
theorem liesAtBoth_sampleRoots :
    ∀ root₁ ∈ sampleRoots, ∀ root₂ ∈ sampleRoots,
      sampleApp.LiesAtBoth sampleDisk root₁ sampleDisk root₂ := by
  have hlies : ∀ root ∈ sampleRoots, sampleApp.LiesAt sampleDisk root := by
    intro root hroot
    have hlocate : ∀ root ∈ sampleRoots, sampleDisk.locate root = .ok sampleApp := by
      simp only [sampleRoots, List.forall_mem_cons]
      exact ⟨rfl, rfl, rfl, fun _ hroot => absurd hroot List.not_mem_nil⟩
    have hplain : ∀ root ∈ sampleRoots, root.isAbsolute = true ∧
        ∀ c ∈ root.components, Glob.hasMagic c = false := by decide +kernel
    exact ⟨proper_sampleDisk, (hplain root hroot).1, (hplain root hroot).2, hlocate root hroot, rfl⟩
  have hfits : ∀ root ∈ sampleRoots, ∀ names ∈ [[], ["src"], ["src", "page.vue"]],
      (Glob.extend root names).Fits := by decide +kernel
  intro root₁ h₁ root₂ h₂
  refine ⟨hlies root₁ h₁, hlies root₂ h₂, fun hnames hfound => ?_⟩
  have hmem := mem_of_follow_sampleApp hnames hfound
  exact iff_of_true (hfits root₁ h₁ _ hmem) (hfits root₂ h₂ _ hmem)

/-- A catalogue without other parsers than the bundled ones. -/
def sampleCatalogue : Catalogue :=
  Catalogue.new { installed := fun _ => false, tree? := fun _ _ => none } [] (.grouped [])

/-- Two copies of a project, neither of them among dependencies, list the same file for a pattern,
for its directory and for its path, and have the same keys. -/
theorem files_and_keys_eq_of_sampleRoots :
    let root₁ : Path := ⟨.slash, ["app"]⟩
    let root₂ : Path := ⟨.slash, ["srv", "web", "site"]⟩
    let patterns := ["src/*.vue", "src", "src/page.vue"]
    let listed (root : Path) :=
      Listing.files sampleDisk root ["*.js"] (.ofStrings patterns) (.ofStrings [".vue"])
    (listed root₁).toOption =
        some (List.replicate 3 ⟨⟨.slash, ["app", "src", "page.vue"]⟩, false⟩) ∧
      (listed root₁).map (List.map fun f => (f.path.relativeText root₁, f.ignored)) =
        (listed root₂).map (List.map fun f => (f.path.relativeText root₂, f.ignored)) ∧
      ((usedKeys {} root₁ root₁ sampleCatalogue).collect (sources sampleDisk root₁ ["*.js"]) root₁
          (.ofStrings patterns) (.ofStrings [".vue"])).result =
        ((usedKeys {} root₂ root₂ sampleCatalogue).collect (sources sampleDisk root₂ ["*.js"])
          root₂ (.ofStrings patterns) (.ofStrings [".vue"])).result := by
  intro root₁ root₂ patterns listed
  have hlies := liesAtBoth_sampleRoots root₁ (by decide) root₂ (by decide)
  have hpatterns : ∀ s ∈ patterns, Path.StaysBelow (Path.ofString s) := by decide +kernel
  obtain ⟨-, -, hsame⟩ := files_and_keys_eq_of_liesAtBoth hlies hpatterns (by decide +kernel)
    ["*.js"] [".vue"]
  obtain ⟨hlisted, hkeys⟩ := hsame (by decide)
  refine ⟨by decide +kernel, hlisted, hkeys {} root₁ root₂ sampleCatalogue fun name => ?_⟩
  exact Catalogue.readsSuffixOnly_resolve_new _ _ _ name

/-- A copy of a project among dependencies lists its file as ignored, a copy elsewhere does not. -/
theorem ignored_ne_of_sampleRoots :
    let root₁ : Path := ⟨.slash, ["app"]⟩
    let root₂ : Path := ⟨.slash, ["srv", "node_modules", "app"]⟩
    let listed (root : Path) :=
      (Listing.files sampleDisk root [] (.ofStrings ["src/page.vue"]) (.ofStrings [".vue"])).map
        (List.map fun f => (f.path.relativeText root, f.ignored))
    sampleApp.LiesAtBoth sampleDisk root₁ sampleDisk root₂ ∧
      Path.StaysBelow (Path.ofString "src/page.vue") ∧
      listed root₁ = .ok [("src/page.vue", false)] ∧ listed root₂ = .ok [("src/page.vue", true)] :=
  ⟨liesAtBoth_sampleRoots _ (by decide) _ (by decide), by decide +kernel, rfl, rfl⟩

end Project

end TranslationKeys
