import TranslationKeys.Proofs.Files.Agreement
import TranslationKeys.Proofs.Files.Places

/-!
# Names of a file

A file can be named in many ways: by its path or that of a directory it lies in, by wildcards, and
on detours that lead back up. Where a path leads is said by its components once every double point
has taken back the component before it, and a file whose place lies in the directory of dependencies
is ignored however it is named.

Rules are asked about the path as it is spelled. Two patterns spell one file alike if they take the
same detour first, and take it without wildcards. Most take none, and then it does not matter
whether a pattern is relative or absolute, names the file or a directory, or has wildcards.
-/

namespace TranslationKeys

namespace Path

/-- The components to go back along, innermost first, after one more component. -/
def stepBack (back : List String) (c : String) : List String :=
  if c == ".." then back.drop 1 else c :: back

/-- A path is collapsed component by component. -/
theorem components_collapsed (p : Path) :
    p.collapsed.components = (p.components.foldl stepBack []).reverse :=
  rfl

/-- Components that never lead back up all stay. -/
theorem foldl_stepBack_of_notMem {names : List String} (h : ".." ∉ names) (back : List String) :
    names.foldl stepBack back = names.reverse ++ back := by
  induction names generalizing back with
  | nil => rfl
  | cons c names ih =>
    obtain ⟨hc, hnames⟩ := not_or.1 (mt List.mem_cons.2 h)
    have hstep : stepBack back c = c :: back := if_neg (by simpa using Ne.symm hc)
    rw [List.foldl_cons, hstep, ih hnames]
    simp

/-- Only components that were there stay. -/
theorem foldl_stepBack_subset (back cs : List String) :
    cs.foldl stepBack back ⊆ back ++ cs := by
  induction cs generalizing back with
  | nil => simp
  | cons c cs ih =>
    refine List.Subset.trans (ih (stepBack back c))
      (List.append_subset.2 ⟨fun d hd => ?_, by simp⟩)
    unfold stepBack at hd
    split at hd
    · exact List.mem_append_left _ (List.mem_of_mem_drop hd)
    · rcases List.mem_cons.1 hd with rfl | hd
      · simp
      · exact List.mem_append_left _ hd

/-- The directories that a path leads through are named in it. -/
theorem dropLast_collapsed_subset (p : Path) :
    p.collapsed.components.dropLast ⊆ p.components.dropLast := by
  rw [components_collapsed, List.dropLast_reverse]
  rcases List.eq_nil_or_concat' p.components with hnil | ⟨cs, c, hcs⟩
  · simp [hnil]
  · rw [hcs, List.foldl_append, List.dropLast_concat]
    intro d hd
    have hmem : d ∈ cs.foldl stepBack [] := by
      have hd := List.mem_reverse.1 hd
      simp only [List.foldl_cons, List.foldl_nil, stepBack] at hd
      split at hd
      · exact List.mem_of_mem_drop (List.mem_of_mem_tail hd)
      · exact hd
    simpa using foldl_stepBack_subset [] cs hmem

/-- Names below a path stay when it is collapsed. -/
theorem components_collapsed_extend (p : Path) {names : List String} (h : ".." ∉ names) :
    (Glob.extend p names).collapsed.components = p.collapsed.components ++ names := by
  rw [components_collapsed, components_collapsed, Glob.extend, List.foldl_append,
    foldl_stepBack_of_notMem h]
  simp

/-- The part of a path that ends where it leads back up for the last time. -/
def detour (p : Path) : Path :=
  { p with components := (p.components.reverse.dropWhile (· != "..")).reverse }

/-- After its detour a path never leads back up. -/
theorem exists_eq_extend_detour (p : Path) :
    ∃ names, ".." ∉ names ∧ p = Glob.extend p.detour names := by
  refine ⟨(p.components.reverse.takeWhile (· != "..")).reverse, fun hmem => ?_, ?_⟩
  · simpa using List.mem_takeWhile_imp (List.mem_reverse.1 hmem)
  · have hsplit := congrArg List.reverse
      (List.takeWhile_append_dropWhile (p := (· != "..")) (l := p.components.reverse))
    rw [List.reverse_append, List.reverse_reverse] at hsplit
    simp [Glob.extend, detour, hsplit]

/-- A path that leads through the directory of dependencies lies in an ignored directory. -/
theorem liesInIgnored_of_collapsed {p : Path}
    (h : dependencyDirectory ∈ p.collapsed.components.dropLast) : p.liesInIgnored = true := by
  have hmem := dropLast_collapsed_subset p h
  have hne : p.components ≠ [] := fun hnil => by simp [hnil] at hmem
  rw [liesInIgnored, List.contains_iff_mem, leadingParts]
  split
  · rw [List.dropLast_cons_of_ne_nil hne]
    exact List.mem_cons_of_mem _ hmem
  · exact hmem

end Path

namespace FileTree

/-- Where following components from the top of a tree has come to: the names that lead there from
the top and the directories they lead through, innermost first, and what is there. -/
inductive StandsAt (top : FileTree) : List String → List FileTree → FileTree → Prop where
  | top : StandsAt top [] [] top
  | entry {back : List String} {above : List FileTree} {entries : List (String × FileTree)}
      {name : String} {next : FileTree} (h : StandsAt top back above (.directory entries))
      (hname : name ≠ "..") (hlookup : entries.lookup name = some next) :
      StandsAt top (name :: back) (.directory entries :: above) next

namespace StandsAt

variable {top here found : FileTree} {above : List FileTree} {back : List String}

/-- The names lead there from the top. -/
theorem follow_reverse (h : StandsAt top back above here) (more : List String) :
    top.follow [] (back.reverse ++ more) = follow above here more := by
  induction h generalizing more with
  | top => rfl
  | @entry back above entries name next _ hname hlookup ih =>
    have hname' : (name == "..") = false := beq_eq_false_iff_ne.2 hname
    calc top.follow [] ((name :: back).reverse ++ more)
        = top.follow [] (back.reverse ++ name :: more) := by simp
      _ = follow above (.directory entries) (name :: more) := ih _
      _ = follow (.directory entries :: above) next more := by simp [follow, hname', hlookup]

/-- Further components lead from there to where their steps lead. -/
theorem exists_of_follow (h : StandsAt top back above here) {cs : List String}
    (hfollow : follow above here cs = .ok found) :
    ∃ above', StandsAt top (cs.foldl Path.stepBack back) above' found := by
  induction cs generalizing back above here with
  | nil =>
    obtain rfl : here = found := Except.ok.inj hfollow
    exact ⟨above, h⟩
  | cons c cs ih =>
    cases here with
    | file content => cases hfollow
    | directory entries =>
      by_cases hc : c = ".."
      · subst hc
        cases h with
        | top => exact ih .top hfollow
        | entry h => exact ih h hfollow
      · have hc' : (c == "..") = false := beq_eq_false_iff_ne.2 hc
        simp only [follow, hc', Bool.false_eq_true, if_false] at hfollow
        split at hfollow
        · rename_i next hlookup
          have hstep : Path.stepBack back c = c :: back := if_neg (by simp [hc])
          rw [List.foldl_cons, hstep]
          exact ih (h.entry hc hlookup) hfollow
        · cases hfollow

end StandsAt

/-- A path leads where the path without its double points leads. -/
theorem follow_collapsed {tree found : FileTree} {p : Path}
    (h : tree.follow [] p.components = .ok found) :
    tree.follow [] p.collapsed.components = .ok found := by
  obtain ⟨above, hstands⟩ := StandsAt.top.exists_of_follow h
  have hfollow := hstands.follow_reverse []
  rwa [List.append_nil] at hfollow

end FileTree

namespace Glob

variable {tree : FileTree} {base f : Path} {cs : List String}

/-- A path that leads on from another one without leading back up. -/
def LeadsOnFrom (base p : Path) : Prop :=
  ∃ names, ".." ∉ names ∧ p = extend base names

/-- Names lead on. -/
theorem LeadsOnFrom.extend {p : Path} (h : LeadsOnFrom base p) {more : List String}
    (hmore : ".." ∉ more) : LeadsOnFrom base (Glob.extend p more) := by
  obtain ⟨names, hnames, rfl⟩ := h
  refine ⟨names ++ more, ?_, extend_extend _ _ _⟩
  exact fun hmem => (List.mem_append.1 hmem).elim hnames hmore

/-- Two paths that lead on from one are the same if they lead to one place. -/
theorem LeadsOnFrom.eq_of_collapsed_eq {p q : Path} (hp : LeadsOnFrom base p)
    (hq : LeadsOnFrom base q) (h : p.collapsed = q.collapsed) : p = q := by
  obtain ⟨names, hnames, rfl⟩ := hp
  obtain ⟨names', hnames', rfl⟩ := hq
  have hcomponents := congrArg Path.components h
  rw [Path.components_collapsed_extend _ hnames,
    Path.components_collapsed_extend _ hnames'] at hcomponents
  rw [List.append_cancel_left hcomponents]

/-- In a file system, a component leads on unless it is written to lead back up. -/
theorem leadsOnFrom_of_mem_expandOne (htree : tree.Proper) {onlyDirectories : Bool} {c : String}
    {dir : Path} {m : Match} (hc : c ≠ "..") (hdir : LeadsOnFrom base dir)
    (h : m ∈ expandOne tree onlyDirectories c dir) : LeadsOnFrom base m.path := by
  have hproper {t : FileTree} (ht : tree.locate dir = .ok t) : t.Proper :=
    (htree.of_follow (FileTree.follow_eq_of_locate ht)).1
  rcases cases_of_mem_expandOne h with ⟨-, hpath | ⟨t, names, ht, hnames, hpath⟩⟩ |
    ⟨-, name, hpath, ⟨t, ht, hname⟩ | ⟨-, rfl⟩⟩
  · exact hpath ▸ hdir
  · have hentries := (isEntryName_of_mem_below (hproper ht) hnames).2
    exact hpath ▸ hdir.extend (FileTree.notMem_of_isEntryName hentries)
  · have hentry := isEntryName_of_mem_matchingNames (hproper ht) hname
    exact hpath ▸ hdir.extend
      (FileTree.notMem_of_isEntryName (List.forall_mem_singleton.2 hentry))
  · exact hpath ▸ hdir.extend (by simpa using hc.symm)

/-- In a file system, components lead on unless one is written to lead back up. -/
theorem leadsOnFrom_of_mem_expandAll (htree : tree.Proper) (hcs : ".." ∉ cs) {found : List Path}
    (hfound : ∀ p ∈ found, LeadsOnFrom base p) {m : Match} (h : m ∈ expandAll tree cs found) :
    LeadsOnFrom base m.path := by
  fun_induction expandAll tree cs found with
  | case1 found =>
    obtain ⟨dir, hdir, rfl⟩ := List.mem_map.1 h
    exact hfound dir hdir
  | case2 last found =>
    obtain ⟨dir, hdir, hm⟩ := List.mem_flatMap.1 h
    have hlast : last ≠ ".." := fun heq => hcs (heq ▸ List.mem_singleton_self _)
    exact leadsOnFrom_of_mem_expandOne htree hlast (hfound dir hdir) hm
  | case3 c rest found hrest ih =>
    obtain ⟨hc, hcs⟩ := not_or.1 (mt List.mem_cons.2 hcs)
    refine ih hcs (fun p hp => ?_) h
    obtain ⟨m, hm, rfl⟩ := List.mem_map.1 hp
    obtain ⟨dir, hdir, hm⟩ := List.mem_flatMap.1 hm
    exact leadsOnFrom_of_mem_expandOne htree (Ne.symm hc) (hfound dir hdir) hm

/-- The files that a pattern stands for lie where its detour leads, if that has no wildcards. -/
theorem leadsOnFrom_of_mem_files (htree : tree.Proper)
    (hbase : ∀ c ∈ base.components, hasMagic c = false) (hcs : ".." ∉ cs)
    (h : f ∈ files tree (extend base cs)) : LeadsOnFrom base f := by
  obtain ⟨m, hm, rfl⟩ := List.mem_map.1 (List.mem_filter.1 h).1
  have hm : m ∈ expand tree (extend base cs) := (List.mergeSort_perm _ _).mem_iff.1 hm
  rw [expand, divide_extend hbase] at hm
  refine leadsOnFrom_of_mem_expandAll htree ?_ (List.forall_mem_singleton.2 ?_) hm
  · exact fun hmem => hcs ((List.dropWhile_sublist _).subset hmem)
  · exact ⟨_, fun hmem => hcs ((List.takeWhile_sublist _).subset hmem), rfl⟩

end Glob

namespace Listing

variable {tree : FileTree} {root f : Path} {rules : List String} {pattern : String}

/-- A walk for extensions is one that accepts some of them. -/
theorem exists_eq_walk {extensions : Value} {t : FileTree} {found : List (List String)}
    (h : walkFor extensions t = .ok found) : ∃ accepts, found = walk accepts t := by
  unfold walkFor at h
  simp only at h
  split at h
  · exact ⟨_, (Except.ok.inj h).symm⟩
  · cases h

/-- What one pattern selects: the file it leads to, what a walk finds in the directory it leads to,
or the files it stands for by its wildcards. -/
theorem cases_of_mem_expand {extensions : Value} {found : List Path}
    (h : expand tree root extensions pattern = .ok found) (hf : f ∈ found) :
    let candidate := root.join (Path.ofString pattern)
    (f = candidate ∧ ∃ content, tree.locate candidate = .ok (.file content)) ∨
      (∃ entries accepts names, tree.locate candidate = .ok (.directory entries) ∧
        names ∈ walk accepts (.directory entries) ∧ f = Glob.extend candidate names) ∨
      f ∈ Glob.files tree candidate := by
  intro candidate
  cases hprobe : tree.probe candidate with
  | error e => simp [candidate, expand, hprobe, bind, Except.bind] at h
  | ok result =>
    rcases result with _ | ⟨content | entries⟩
    · rw [expand_of_probe_eq_none extensions hprobe] at h
      exact .inr (.inr (mem_files_of_mem_expandWildcards h hf))
    · rw [expand_of_probe_eq_file extensions hprobe] at h
      obtain rfl := Except.ok.inj h
      exact .inl ⟨List.mem_singleton.1 hf, content, FileTree.probe_eq_some_iff.1 hprobe⟩
    · rw [expand_of_probe_eq_directory extensions hprobe] at h
      cases hwalk : walkFor extensions (.directory entries) with
      | error e => simp [hwalk, Except.map] at h
      | ok paths =>
        rw [hwalk] at h
        obtain ⟨accepts, rfl⟩ := exists_eq_walk hwalk
        obtain rfl := Except.ok.inj h
        obtain ⟨names, hnames, rfl⟩ := List.mem_map.1 hf
        exact .inr (.inl ⟨entries, accepts, names, FileTree.probe_eq_some_iff.1 hprobe, hnames,
          rfl⟩)

/-- In a file system, what a pattern selects is a file that lies where its detour leads, if that
has no wildcards. -/
theorem follow_and_leadsOnFrom_of_mem_expand (htree : tree.Proper) {extensions : Value}
    {found : List Path} (h : expand tree root extensions pattern = .ok found) (hf : f ∈ found) :
    (∃ content, tree.follow [] f.components = .ok (.file content)) ∧
      ∀ base, (∀ c ∈ base.components, Glob.hasMagic c = false) →
        Glob.LeadsOnFrom base (root.join (Path.ofString pattern)) → Glob.LeadsOnFrom base f := by
  rcases cases_of_mem_expand h hf with ⟨rfl, content, hcontent⟩ |
    ⟨entries, accepts, names, hentries, hnames, rfl⟩ | hfiles
  · exact ⟨⟨content, FileTree.follow_eq_of_locate hcontent⟩, fun _ _ => id⟩
  · have hfollow := FileTree.follow_eq_of_locate hentries
    obtain ⟨hnames, content, hcontent⟩ :=
      exists_follow_of_mem_walk (htree.of_follow hfollow).1 hnames
    have hup := FileTree.notMem_of_isEntryName hnames
    exact ⟨⟨content, (FileTree.follow_append hfollow hup).trans hcontent⟩,
      fun _ _ hcandidate => hcandidate.extend hup⟩
  · obtain ⟨content, hcontent⟩ := FileTree.hasFile_eq_true_iff.1 (List.mem_filter.1 hfiles).2
    refine ⟨⟨content, FileTree.follow_eq_of_locate hcontent⟩, ?_⟩
    rintro base hbase ⟨cs, hcs, hcandidate⟩
    rw [hcandidate] at hfiles
    exact Glob.leadsOnFrom_of_mem_files htree hbase hcs hfiles

/-- Whether a pattern selects a file that is listed. -/
def Selects (tree : FileTree) (root : Path) (rules : List String) (extensions : Value)
    (pattern : String) (f : FoundFile) : Prop :=
  ∃ listed, files tree root rules (.ofStrings [pattern]) extensions = .ok listed ∧ f ∈ listed

/-- A listed file is found by the pattern, and flagged as the rules say of its path. -/
theorem Selects.exists_expand {extensions : Value} {f : FoundFile}
    (h : Selects tree root rules extensions pattern f) :
    (∃ found, expand tree root extensions pattern = .ok found ∧ f.path ∈ found) ∧
      f = ⟨f.path, Path.ignoredUnder root rules f.path⟩ := by
  obtain ⟨listed, hlisted, hf⟩ := h
  rw [files_ofStrings_singleton] at hlisted
  cases hexpand : expand tree root extensions pattern with
  | error e => simp [hexpand, Except.map] at hlisted
  | ok found =>
    rw [hexpand] at hlisted
    obtain rfl := Except.ok.inj hlisted
    obtain ⟨p, hp, rfl⟩ := List.mem_map.1 hf
    exact ⟨⟨found, rfl, hp⟩, rfl⟩

/-- In a file system, a listed file is one, and lies where the detour of the pattern leads, if that
has no wildcards. -/
theorem Selects.follow_and_leadsOnFrom (htree : tree.Proper) {extensions : Value} {f : FoundFile}
    (h : Selects tree root rules extensions pattern f) :
    (∃ content, tree.follow [] f.path.components = .ok (.file content)) ∧
      ((∀ c ∈ (root.join (Path.ofString pattern)).detour.components, Glob.hasMagic c = false) →
        Glob.LeadsOnFrom (root.join (Path.ofString pattern)).detour f.path) := by
  obtain ⟨⟨found, hexpand, hmem⟩, -⟩ := h.exists_expand
  obtain ⟨hfile, hleads⟩ := follow_and_leadsOnFrom_of_mem_expand htree hexpand hmem
  exact ⟨hfile, fun hplain => hleads _ hplain (Path.exists_eq_extend_detour _)⟩

/-- A file whose place lies in the directory of dependencies is ignored. -/
theorem Selects.ignored_of_collapsed {extensions : Value} {f : FoundFile}
    (h : Selects tree root rules extensions pattern f)
    (hdependency : dependencyDirectory ∈ f.path.collapsed.components.dropLast) :
    f.ignored = true := by
  rw [h.exists_expand.2, Path.ignoredUnder, Path.liesInIgnored_of_collapsed hdependency,
    Bool.true_or]

/-- One file by two names. In a file system, let two patterns select files that lie at one place.
Both paths lead to one file. If the place lies in the directory of dependencies, it is ignored by
either name. If the patterns take one detour, which has no wildcards, they select it by the same
path and with the same flag. -/
theorem eq_of_selects (htree : tree.Proper) {extensions₁ extensions₂ : Value}
    {pattern₁ pattern₂ : String} {f₁ f₂ : FoundFile}
    (h₁ : Selects tree root rules extensions₁ pattern₁ f₁)
    (h₂ : Selects tree root rules extensions₂ pattern₂ f₂)
    (hplace : f₁.path.collapsed = f₂.path.collapsed) :
    (∃ content, tree.follow [] f₁.path.components = .ok (.file content) ∧
        tree.follow [] f₂.path.components = .ok (.file content)) ∧
      (dependencyDirectory ∈ f₁.path.collapsed.components.dropLast →
        f₁.ignored = true ∧ f₂.ignored = true) ∧
      ((root.join (Path.ofString pattern₁)).detour = (root.join (Path.ofString pattern₂)).detour →
        (∀ c ∈ (root.join (Path.ofString pattern₁)).detour.components, Glob.hasMagic c = false) →
        f₁ = f₂) := by
  obtain ⟨⟨content₁, hfile₁⟩, hleads₁⟩ := h₁.follow_and_leadsOnFrom htree
  obtain ⟨⟨content₂, hfile₂⟩, hleads₂⟩ := h₂.follow_and_leadsOnFrom htree
  refine ⟨⟨content₁, hfile₁, ?_⟩, fun hdependency => ?_, fun hdetour hplain => ?_⟩
  · have hcollapsed := (hplace ▸ FileTree.follow_collapsed hfile₁).symm
    have hsame : FileTree.file content₁ = .file content₂ :=
      Except.ok.inj (hcollapsed.trans (FileTree.follow_collapsed hfile₂))
    rw [hsame, hfile₂]
  · exact ⟨h₁.ignored_of_collapsed hdependency, h₂.ignored_of_collapsed (hplace ▸ hdependency)⟩
  · have hpath : f₁.path = f₂.path :=
      (hleads₁ hplain).eq_of_collapsed_eq (hdetour ▸ hleads₂ (hdetour ▸ hplain)) hplace
    rw [h₁.exists_expand.2, h₂.exists_expand.2, hpath]

-- After another detour the rules are asked about another text.
example :
    Path.ignoredUnder ⟨.slash, ["p"]⟩ ["src/*.js"] ⟨.slash, ["p", "src", "a.js"]⟩ = true ∧
      Path.ignoredUnder ⟨.slash, ["p"]⟩ ["src/*.js"] ⟨.slash, ["p", "lib", "..", "src", "a.js"]⟩ =
        false := by
  decide +kernel

/-- A project with one script and a directory beside it. -/
def sampleNamed : FileTree :=
  .directory [("p", .directory
    [("src", .directory [("a.js", .file [])]), ("lib", .directory [])])]

/-- The script is ignored by the name of its directory, and by its path with points and doubled
slashes. -/
theorem eq_of_selects_sampleNamed :
    let root : Path := ⟨.slash, ["p"]⟩
    let f₁ : FoundFile := ⟨Glob.extend (root.join (Path.ofString "src")) ["a.js"], true⟩
    let f₂ : FoundFile := ⟨root.join (Path.ofString "/p/./src//a.js"), true⟩
    sampleNamed.Proper ∧
      Selects sampleNamed root ["src/*.js"] (.ofStrings [".js"]) "src" f₁ ∧
      Selects sampleNamed root ["src/*.js"] .null "/p/./src//a.js" f₂ ∧ f₁ = f₂ := by
  intro root f₁ f₂
  have hproper : sampleNamed.Proper := by
    refine .directory (by decide) (by decide) (List.forall_mem_singleton.2 ?_)
    refine .directory (by decide) (by decide) ?_
    simp only [List.forall_mem_cons]
    refine ⟨.directory (by decide) (by decide) ?_, .directory (by simp) (by decide) (by simp),
      by simp⟩
    exact List.forall_mem_singleton.2 (.file [])
  have h₁ : Selects sampleNamed root ["src/*.js"] (.ofStrings [".js"]) "src" f₁ :=
    ⟨[f₁], by decide +kernel, List.mem_singleton_self f₁⟩
  have h₂ : Selects sampleNamed root ["src/*.js"] .null "/p/./src//a.js" f₂ :=
    ⟨[f₂], by decide +kernel, List.mem_singleton_self f₂⟩
  have hsame := (eq_of_selects hproper h₁ h₂ (by decide +kernel)).2.2
  exact ⟨hproper, h₁, h₂, hsame (by decide +kernel) (by decide +kernel)⟩

end Listing

end TranslationKeys
