import TranslationKeys.Proofs.Files.Places
import TranslationKeys.Proofs.Memo.StringArguments
import TranslationKeys.Proofs.Text.Order

/-!
# Walks are exact

A walk of a directory finds the files below it whose extension is asked for, except those that lie
in a hidden or excluded directory. The files of each directory come before what lies in its
directories, both in the order of their names; no two files found compare equal in this order, so
each is found once. A selection of the directory lists these files, and its targets are those of
them that are not ignored and whose suffix is asked for. Extensions count as a set.
-/

namespace TranslationKeys

namespace Listing

/-- The names along which a walk has to find a file: they lead down to it through no hidden and no
excluded directory, and its extension is accepted. -/
structure IsWalked (accepts : String → Bool) (t : FileTree) (names : List String) : Prop where
  /-- The names lead to a file. -/
  isFile : ∃ content, t.follow [] names = .ok (.file content)
  /-- They never lead back up. -/
  staysBelow : ".." ∉ names
  /-- No directory on the way is hidden or excluded. -/
  isVisible : ∀ c ∈ names.dropLast, c ∉ excludedDirectories ∧ c.toList.head? ≠ some '.'
  /-- The extension of the file is accepted. -/
  isAccepted : ∃ name ∈ names.getLast?, accepts (extensionOf name) = true

/-- The order of a walk: the files of a directory by name, then its directories by name. -/
def Precedes : List String → List String → Prop
  | [a], [b] => Text.IsBefore a b
  | [_], _ :: _ :: _ => True
  | a :: c :: as, b :: d :: bs => Text.IsBefore a b ∨ (a = b ∧ Precedes (c :: as) (d :: bs))
  | _, _ => False

variable {accepts : String → Bool} {t : FileTree} {entries : List (String × FileTree)}
  {name : String} {names : List String}

section Members

/-- A walk skips a directory if it is excluded or hidden. -/
theorem skipsDirectory_eq_false_iff :
    skipsDirectory name = false ↔
      name ∉ excludedDirectories ∧ name.toList.head? ≠ some '.' := by
  simp [skipsDirectory, Glob.isHidden]

/-- A walk finds no directories. -/
theorem ne_nil_of_mem_walk (h : names ∈ walk accepts t) : names ≠ [] := by
  cases t with
  | file content => simp [walk] at h
  | directory entries =>
    rcases mem_walk_directory_iff.1 h with ⟨_, _, _, _, rfl⟩ | ⟨_, _, _, _, _, _, rfl⟩ <;>
      exact List.cons_ne_nil _ _

/-- A file of a directory has to be found if its extension is accepted. -/
theorem isWalked_singleton_iff (ht : (FileTree.directory entries).Proper) :
    IsWalked accepts (.directory entries) [name] ↔
      (∃ content, (name, .file content) ∈ entries) ∧ accepts (extensionOf name) = true := by
  cases ht with
  | directory hnames hdistinct _ =>
    constructor
    · rintro ⟨⟨content, hfile⟩, hbelow, -, haccepted⟩
      refine ⟨⟨content, ?_⟩, by simpa using haccepted⟩
      obtain ⟨above, next, hnext, ⟨rfl, -⟩ | ⟨entries', heq, hlookup, -⟩⟩ :=
        FileTree.exists_follow_cons hfile
      · exact absurd List.mem_cons_self hbelow
      · obtain rfl := FileTree.directory.inj heq
        obtain rfl : next = .file content := Except.ok.inj ((hnext []).symm.trans hfile)
        exact FileTree.mem_of_lookup_eq_some hlookup
    · rintro ⟨⟨content, hmem⟩, haccepted⟩
      have hname := hnames _ hmem
      refine ⟨⟨content, ?_⟩, by simpa using hname.2.2.1.symm, by simp, by simpa using haccepted⟩
      rw [FileTree.follow_of_mem hdistinct hname hmem List.not_mem_nil, FileTree.follow]

/-- A file further down has to be found if it has to be from an entry on that is not skipped. -/
theorem isWalked_cons_iff (ht : (FileTree.directory entries).Proper) (hne : names ≠ []) :
    IsWalked accepts (.directory entries) (name :: names) ↔
      ∃ below, (name, below) ∈ entries ∧ skipsDirectory name = false ∧
        IsWalked accepts below names := by
  have hdrop : (name :: names).dropLast = name :: names.dropLast :=
    List.dropLast_cons_of_ne_nil hne
  have hlast : (name :: names).getLast? = names.getLast? := by
    rw [← List.singleton_append, List.getLast?_append_of_ne_nil _ hne]
  cases ht with
  | directory hnames hdistinct _ =>
    constructor
    · rintro ⟨⟨content, hfile⟩, hbelow, hvisible, haccepted⟩
      obtain ⟨hup, hrest⟩ := not_or.1 (mt List.mem_cons.2 hbelow)
      rw [hdrop, List.forall_mem_cons] at hvisible
      rw [hlast] at haccepted
      obtain ⟨above, next, hnext, ⟨rfl, -⟩ | ⟨entries', heq, hlookup, -⟩⟩ :=
        FileTree.exists_follow_cons hfile
      · exact absurd rfl hup
      · obtain rfl := FileTree.directory.inj heq
        have hmem := FileTree.mem_of_lookup_eq_some hlookup
        rw [FileTree.follow_of_mem hdistinct (hnames _ hmem) hmem hrest] at hfile
        exact ⟨next, hmem, skipsDirectory_eq_false_iff.2 hvisible.1,
          ⟨content, hfile⟩, hrest, hvisible.2, haccepted⟩
    · rintro ⟨below, hmem, hskip, ⟨content, hfile⟩, hbelow, hvisible, haccepted⟩
      have hname := hnames _ hmem
      refine ⟨⟨content, ?_⟩, ?_, ?_, hlast.symm ▸ haccepted⟩
      · rw [FileTree.follow_of_mem hdistinct hname hmem hbelow, hfile]
      · exact fun h => (List.mem_cons.1 h).elim (fun heq => hname.2.2.1 heq.symm) hbelow
      · rw [hdrop]
        exact List.forall_mem_cons.2 ⟨skipsDirectory_eq_false_iff.1 hskip, hvisible⟩

/-- A walk finds what it has to find and nothing else. -/
theorem mem_walk_iff (ht : t.Proper) : names ∈ walk accepts t ↔ IsWalked accepts t names := by
  induction ht generalizing names with
  | file content =>
    simp only [walk, List.not_mem_nil, false_iff]
    rintro ⟨⟨_, hfile⟩, -, -, name, hname, -⟩
    have hne : names ≠ [] := List.ne_nil_of_mem (List.mem_of_getLast? hname)
    obtain ⟨c, rest, rfl⟩ := List.exists_cons_of_ne_nil hne
    cases hfile
  | @directory entries hnames hdistinct hentries ih =>
    have ht : (FileTree.directory entries).Proper := .directory hnames hdistinct hentries
    rw [mem_walk_directory_iff]
    rcases names with _ | ⟨name, names⟩
    · refine ⟨?_, fun h => ?_⟩
      · rintro (⟨_, _, _, _, h⟩ | ⟨_, _, _, _, _, _, h⟩) <;> cases h
      · obtain ⟨content, hfile⟩ := h.isFile
        cases hfile
    · by_cases hnil : names = []
      · subst hnil
        rw [isWalked_singleton_iff ht]
        constructor
        · rintro (⟨_, content, hmem, haccepted, ⟨⟩⟩ | ⟨_, below, _, _, _, hrest, ⟨⟩⟩)
          · exact ⟨⟨content, hmem⟩, haccepted⟩
          · exact absurd rfl (ne_nil_of_mem_walk hrest)
        · rintro ⟨⟨content, hmem⟩, haccepted⟩
          exact .inl ⟨name, content, hmem, haccepted, rfl⟩
      · rw [isWalked_cons_iff ht hnil]
        constructor
        · rintro (⟨_, _, _, _, ⟨⟩⟩ | ⟨_, below, _, hmem, hskip, hrest, ⟨⟩⟩)
          · exact absurd rfl hnil
          · exact ⟨below, hmem, hskip, (ih _ hmem).1 hrest⟩
        · rintro ⟨below, hmem, hskip, hrest⟩
          exact .inr ⟨name, below, names, hmem, hskip, (ih _ hmem).2 hrest, rfl⟩

end Members

section Order

/-- Nothing comes before itself. -/
theorem not_precedes_self (names : List String) : ¬ Precedes names names := by
  induction names with
  | nil => exact id
  | cons a names ih =>
    cases names with
    | nil => exact fun h => h.2 rfl
    | cons b names => exact fun h => h.elim (fun hbefore => hbefore.2 rfl) fun hrest => ih hrest.2

/-- What lies in one directory keeps its order seen from further up. -/
theorem Precedes.cons {ms ns : List String} (h : Precedes ms ns) (name : String) :
    Precedes (name :: ms) (name :: ns) := by
  rcases ms with _ | ⟨a, ms⟩
  · exact (h : False).elim
  · rcases ns with _ | ⟨b, ns⟩
    · cases ms <;> exact (h : False).elim
    · exact .inr ⟨rfl, h⟩

/-- Files come before what lies in the directories beside them. -/
theorem precedes_of_ne_nil (a b : String) {ns : List String} (hns : ns ≠ []) :
    Precedes [a] (b :: ns) := by
  obtain ⟨c, rest, rfl⟩ := List.exists_cons_of_ne_nil hns
  exact trivial

/-- What lies in different directories comes in the order of their names. -/
theorem Precedes.of_isBefore {a b : String} (h : Text.IsBefore a b) {ms ns : List String}
    (hms : ms ≠ []) (hns : ns ≠ []) : Precedes (a :: ms) (b :: ns) := by
  obtain ⟨c, ms, rfl⟩ := List.exists_cons_of_ne_nil hms
  obtain ⟨d, ns, rfl⟩ := List.exists_cons_of_ne_nil hns
  exact .inl h

/-- Parts of distinct names are arranged in the order of a walk. -/
theorem pairwise_arrange {parts : List (String × Option (List (List String)))}
    (hdistinct : (parts.map Prod.fst).Nodup)
    (hparts : ∀ name paths, (name, some paths) ∈ parts →
      paths.Pairwise Precedes ∧ ∀ names ∈ paths, names ≠ []) :
    (arrange accepts parts).Pairwise Precedes := by
  let directory (p : String × Option (List (List String))) : Option (String × List (List String)) :=
    if skipsDirectory p.1 then none else p.2.map fun paths => (p.1, paths)
  have hdirectory {p : String × Option (List (List String))} {d : String × List (List String)}
      (h : directory p = some d) : p = (d.1, some d.2) := by
    simp only [directory] at h
    split at h
    · exact nomatch h
    · obtain ⟨paths, hpaths, rfl⟩ := Option.map_eq_some_iff.1 h
      exact Prod.ext rfl hpaths
  have hheld : ∀ d ∈ sortByName (parts.filterMap directory),
      d.2.Pairwise Precedes ∧ ∀ names ∈ d.2, names ≠ [] := by
    intro d hd
    obtain ⟨p, hp, heq⟩ := List.mem_filterMap.1 (List.mem_mergeSort.1 hd)
    exact hparts d.1 d.2 (hdirectory heq ▸ hp)
  have hnames : ((parts.filterMap directory).map Prod.fst).Nodup := by
    refine List.pairwise_map.2 (List.pairwise_filterMap.2 ?_)
    refine (List.pairwise_map.1 hdistinct).imp fun {p q} hne d hd e he => ?_
    rwa [hdirectory hd, hdirectory he] at hne
  unfold arrange
  refine List.pairwise_append.2 ⟨?_, List.pairwise_flatMap.2 ⟨fun d hd => ?_, ?_⟩, ?_⟩
  · refine List.pairwise_map.2 (Text.pairwise_isBefore_mergeSort (?_ : (List.map id _).Nodup))
    rw [List.map_id]
    exact (List.filter_sublist.map Prod.fst).nodup hdistinct
  · exact List.pairwise_map.2 ((hheld d hd).1.imp fun h => h.cons d.1)
  · refine (Text.pairwise_isBefore_mergeSort hnames).imp_of_mem fun {d e} hd he hbefore => ?_
    intro ms hms ns hns
    obtain ⟨below, hbelow, rfl⟩ := List.mem_map.1 hms
    obtain ⟨below', hbelow', rfl⟩ := List.mem_map.1 hns
    exact .of_isBefore hbefore ((hheld d hd).2 below hbelow) ((hheld e he).2 below' hbelow')
  · intro ms hms ns hns
    obtain ⟨a, -, rfl⟩ := List.mem_map.1 hms
    obtain ⟨d, hd, hns⟩ := List.mem_flatMap.1 hns
    obtain ⟨below, hbelow, rfl⟩ := List.mem_map.1 hns
    exact precedes_of_ne_nil a d.1 ((hheld d hd).2 below hbelow)

/-- A walk finds files in the order of a walk. -/
theorem pairwise_walk (ht : t.Proper) : (walk accepts t).Pairwise Precedes := by
  induction ht with
  | file content => exact List.Pairwise.nil
  | @directory entries hnames hdistinct hentries ih =>
    rw [walk, walkEach_eq_map]
    refine pairwise_arrange (by simpa [Function.comp_def] using hdistinct) fun name paths hmem => ?_
    obtain ⟨e, he, heq⟩ := List.mem_map.1 hmem
    obtain ⟨-, hpaths⟩ := Prod.mk.inj heq
    split at hpaths
    · cases hpaths
    · obtain rfl := Option.some.inj hpaths
      exact ⟨ih e he, fun names => ne_nil_of_mem_walk⟩

end Order

section Selection

variable {tree : FileTree} {root : Path} {directory : String}

/-- A walk asks a list of extensions which ones it holds. -/
theorem walkFor_ofStrings (extensions : List String) (t : FileTree) :
    walkFor (.ofStrings extensions) t = .ok (walk (extensions.contains ·) t) := by
  simp [walkFor, canAsk, Value.holds?_ofStrings]

/-- A directory is selected by a walk. -/
theorem files_of_directory
    (hdirectory :
      tree.probe (root.join (Path.ofString directory)) = .ok (some (.directory entries)))
    (rules extensions : List String) :
    files tree root rules (.ofStrings [directory]) (.ofStrings extensions) =
      .ok (((walk (extensions.contains ·) (.directory entries)).map
        (Glob.extend (root.join (Path.ofString directory)))).map fun p =>
          ⟨p, Path.ignoredUnder root rules p⟩) := by
  rw [files_ofStrings_singleton, expand_of_probe_eq_directory _ hdirectory, walkFor_ofStrings]
  rfl

/-- A memo that knows nothing yet has the targets of a selection listed. -/
theorem result_resolve_fresh (current : Path) (patterns extensions : List String)
    (listed : Except Failure (List FoundFile)) :
    (Targets.resolve {} current (fun s => (s, listed)) (.ofStrings patterns)
        (.ofStrings extensions) ()).2.2 = listed.map (Targets.select current extensions) := by
  obtain ⟨key, hkey⟩ := Arguments.exists_key_of_isStrings (v := .ofStrings patterns)
    (w := .ofStrings extensions) (.inr ⟨patterns, rfl⟩) (.inr ⟨extensions, rfl⟩)
  have haccepted : Targets.accepted (.ofStrings patterns) (.ofStrings extensions) =
      .ok extensions := by
    rw [Targets.accepted, Value.strings?_ofStrings]
    rfl
  simp only [Targets.resolve, Memo.callWith, hkey, haccepted, List.any_nil]
  cases listed <;> rfl

/-- The targets among listed paths, asked for anew, are those that are not to be ignored and whose
suffix is accepted; absolute paths stay as they are. -/
theorem result_resolve_of_paths {paths : List Path} (hpaths : ∀ p ∈ paths, p.isAbsolute = true)
    (current root : Path) (rules patterns extensions : List String) :
    (Targets.resolve {} current
        (fun s => (s, .ok (paths.map fun p => ⟨p, Path.ignoredUnder root rules p⟩)))
        (.ofStrings patterns) (.ofStrings extensions) ()).2.2 =
      .ok (paths.filter fun p =>
        !Path.ignoredUnder root rules p && extensions.contains p.suffix) := by
  rw [result_resolve_fresh]
  refine congrArg Except.ok ?_
  rw [Targets.select, List.filter_map, List.map_map]
  refine (List.map_congr_left fun p hp => ?_).trans (List.map_id _)
  have habsolute : p.isAbsolute = true := hpaths p (List.mem_filter.1 hp).1
  exact if_pos habsolute

/-- Selecting a directory is exact. In a file system, let a string lead from an absolute root to a
directory. The walk finds along names what it has to find and nothing else, in the order of a walk,
and no path twice. Listing the directory with the same extensions, in any order and repeated or not,
gives the paths along these names, each with its flag. Its targets, asked for anew, are those of the
paths that are not to be ignored and whose suffix is one of the extensions. -/
theorem files_and_targets_of_directory (htree : tree.Proper) (hroot : root.isAbsolute = true)
    (hdirectory :
      tree.probe (root.join (Path.ofString directory)) = .ok (some (.directory entries)))
    (extensions : List String) :
    let found := walk (extensions.contains ·) (.directory entries)
    let base := root.join (Path.ofString directory)
    (∀ names, names ∈ found ↔ IsWalked (extensions.contains ·) (.directory entries) names) ∧
      found.Pairwise Precedes ∧ (found.map (Glob.extend base)).Nodup ∧
      ∀ (rules extensions' : List String), (∀ e, e ∈ extensions' ↔ e ∈ extensions) →
        let listed := files tree root rules (.ofStrings [directory]) (.ofStrings extensions')
        listed = .ok (found.map fun names =>
            ⟨Glob.extend base names, Path.ignoredUnder root rules (Glob.extend base names)⟩) ∧
          ∀ current, (Targets.resolve {} current (fun s => (s, listed)) (.ofStrings [directory])
              (.ofStrings extensions') ()).2.2 =
            .ok ((found.map (Glob.extend base)).filter fun p =>
              !Path.ignoredUnder root rules p && extensions.contains p.suffix) := by
  intro found base
  have hfollow := FileTree.follow_eq_of_locate (FileTree.probe_eq_some_iff.1 hdirectory)
  have hdirectoryProper : (FileTree.directory entries).Proper := (htree.of_follow hfollow).1
  have hordered : found.Pairwise Precedes := pairwise_walk hdirectoryProper
  have hdistinct : found.Nodup := by
    refine hordered.imp fun h heq => ?_
    subst heq
    exact not_precedes_self _ h
  refine ⟨fun names => mem_walk_iff hdirectoryProper, hordered, ?_, ?_⟩
  · refine hdistinct.map fun ms ns heq => ?_
    exact List.append_cancel_left (congrArg Path.components heq)
  · intro rules extensions' hsame listed
    have hcontains : (extensions'.contains ·) = (extensions.contains ·) := by
      funext e
      rw [Bool.eq_iff_iff, List.contains_iff_mem, List.contains_iff_mem, hsame]
    have hlisted : listed = .ok ((found.map (Glob.extend base)).map fun p =>
        ⟨p, Path.ignoredUnder root rules p⟩) := by
      simp only [listed, files_of_directory hdirectory, hcontains, found, base]
    have habsolute : ∀ p ∈ found.map (Glob.extend base), p.isAbsolute = true := by
      intro p hp
      obtain ⟨names, -, rfl⟩ := List.mem_map.1 hp
      exact Path.isAbsolute_join hroot _
    refine ⟨hlisted.trans (by rw [List.map_map]; rfl), fun current => ?_⟩
    rw [hlisted, result_resolve_of_paths habsolute]
    simp only [congrFun hcontains]

/-- What lies in a directory of sources: two scripts, a directory with a component and a style
sheet, and the directory of dependencies. -/
def sampleEntries : List (String × FileTree) :=
  [("node_modules", .directory [("x.js", .file [])]), ("main.js", .file []),
    ("a", .directory [("c.css", .file []), ("z.vue", .file [])]), ("B.js", .file [])]

/-- The disk that holds the directory. -/
def sampleWalked : FileTree :=
  .directory [("p", .directory [("src", .directory sampleEntries)])]

/-- A walk of the directory finds both scripts, by name, and then the component. -/
theorem walk_sampleEntries :
    walk ([".vue", ".js"].contains ·) (.directory sampleEntries) =
      [["B.js"], ["main.js"], ["a", "z.vue"]] := by
  have hbelow : walk ([".vue", ".js"].contains ·)
      (.directory [("c.css", .file []), ("z.vue", .file [])]) = [["z.vue"]] := by decide +kernel
  have hparts : walk ([".vue", ".js"].contains ·) (.directory sampleEntries) =
      (sortedStrings ["main.js", "B.js"]).map ([·]) ++
        (sortByName [("a", [["z.vue"]])]).flatMap fun d => d.2.map (d.1 :: ·) := by
    rw [← hbelow]
    rfl
  have hafter : Text.le (Text.ofString "main.js") (Text.ofString "B.js") = false := by
    decide +kernel
  have hsorted : sortedStrings ["main.js", "B.js"] = ["B.js", "main.js"] := by
    simp [sortedStrings, List.mergeSort, List.MergeSort.Internal.splitInTwo, hafter]
  rw [hparts, hsorted]
  simp [sortByName]

/-- Both scripts and the component are listed, the scripts first. The component is ignored, so that
the scripts are the targets, for extensions in another order and repeated. -/
theorem files_and_targets_of_sampleWalked :
    let root : Path := ⟨.slash, ["p"]⟩
    let base : Path := ⟨.slash, ["p", "src"]⟩
    let listed := files sampleWalked root ["*.vue"] (.ofStrings ["src"])
      (.ofStrings [".js", ".vue", ".js"])
    sampleWalked.Proper ∧ sampleWalked.probe base = .ok (some (.directory sampleEntries)) ∧
      listed = .ok [⟨Glob.extend base ["B.js"], false⟩, ⟨Glob.extend base ["main.js"], false⟩,
        ⟨Glob.extend base ["a", "z.vue"], true⟩] ∧
      (Targets.resolve {} root (fun s => (s, listed)) (.ofStrings ["src"])
          (.ofStrings [".js", ".vue", ".js"]) ()).2.2 =
        .ok [Glob.extend base ["B.js"], Glob.extend base ["main.js"]] := by
  intro root base listed
  have hproper : sampleWalked.Proper := by
    have hfile (content : List UInt8) : (FileTree.file content).Proper := .file content
    refine .directory (by decide) (by decide) (List.forall_mem_singleton.2 ?_)
    refine .directory (by decide) (by decide) (List.forall_mem_singleton.2 ?_)
    refine .directory (by decide) (by decide) ?_
    simp only [sampleEntries, List.forall_mem_cons]
    refine ⟨.directory (by decide) (by decide) (by simp [hfile]), hfile _,
      .directory (by decide) (by decide) (by simp [hfile]), hfile _, by simp⟩
  have hdirectory : sampleWalked.probe (root.join (Path.ofString "src")) =
      .ok (some (.directory sampleEntries)) := rfl
  obtain ⟨-, -, -, hselects⟩ :=
    files_and_targets_of_directory hproper rfl hdirectory [".vue", ".js"]
  obtain ⟨hlisted, htargets⟩ := hselects ["*.vue"] [".js", ".vue", ".js"] (by simp [or_comm])
  rw [walk_sampleEntries] at hlisted htargets
  refine ⟨hproper, hdirectory, hlisted.trans (congrArg Except.ok ?_),
    (htargets root).trans (congrArg Except.ok ?_)⟩
  · decide +kernel
  · decide +kernel

end Selection

end Listing

end TranslationKeys
