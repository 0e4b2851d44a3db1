import TranslationKeys.Files.Listing
import TranslationKeys.Proofs.Related
import Mathlib.Data.List.Nodup

/-!
# Places in a file tree

The places of a tree are what its names lead to, one after the other and never back up. In a file
system they have proper names, and no two entries of a directory share one. What is below a place is
then the same wherever the place lies: it is found from the place on along the same names.

A pattern selects by where it leads: a file itself, a directory what a walk finds below it, and a
pattern that leads nowhere what it stands for by its wildcards.
-/

namespace TranslationKeys

/-- Whether an entry of a directory can have a name. -/
def IsEntryName (name : String) : Prop :=
  name ≠ "" ∧ name ≠ "." ∧ name ≠ ".." ∧ '/' ∉ name.toList ∧ Char.ofNat 0 ∉ name.toList

instance (name : String) : Decidable (IsEntryName name) :=
  inferInstanceAs (Decidable (_ ∧ _ ∧ _ ∧ _ ∧ _))

/-- What is joined to an absolute path is absolute. -/
theorem Path.isAbsolute_join {p : Path} (h : p.isAbsolute = true) (q : Path) :
    (p.join q).isAbsolute = true := by
  unfold join
  split
  · assumption
  · exact h

namespace FileTree

/-- The entries of every directory have proper names, no two of them the same. -/
inductive Proper : FileTree → Prop where
  | file (content : List UInt8) : Proper (.file content)
  | directory {entries : List (String × FileTree)} (hnames : ∀ e ∈ entries, IsEntryName e.1)
      (hdistinct : (entries.map Prod.fst).Nodup) (hentries : ∀ e ∈ entries, Proper e.2) :
      Proper (.directory entries)

variable {t found : FileTree} {above : List FileTree} {names : List String}

/-- The name of an entry leads to what the entry holds. -/
theorem lookup_eq_some_of_mem {entries : List (String × FileTree)} {name : String}
    (hdistinct : (entries.map Prod.fst).Nodup) (h : (name, t) ∈ entries) :
    entries.lookup name = some t := by
  induction entries with
  | nil => exact absurd h List.not_mem_nil
  | cons e entries ih =>
    obtain ⟨hhead, htail⟩ := List.nodup_cons.1 hdistinct
    rcases List.mem_cons.1 h with rfl | h
    · exact List.lookup_cons_self
    · have hne : name ≠ e.1 := fun heq => hhead (heq ▸ List.mem_map_of_mem h)
      rw [List.lookup_cons, beq_eq_false_iff_ne.2 hne]
      exact ih htail h

/-- What a name leads to is held by an entry of that name. -/
theorem mem_of_lookup_eq_some {entries : List (String × FileTree)} {name : String}
    (h : entries.lookup name = some t) : (name, t) ∈ entries := by
  obtain ⟨before, after, rfl, -⟩ := List.lookup_eq_some_iff.1 h
  simp

/-- A component that leads on from a place leads back up to what is above, or to the entry of that
name; the components after it are followed from there. -/
theorem exists_follow_cons {c : String} (h : follow above t (c :: names) = .ok found) :
    ∃ above' next, (∀ more, follow above t (c :: more) = follow above' next more) ∧
      ((c = ".." ∧ (next = t ∨ next ∈ above) ∧ above' ⊆ above) ∨
        (∃ entries, t = directory entries ∧ entries.lookup c = some next ∧
          above' = t :: above)) := by
  cases t with
  | file content => exact nomatch h
  | directory entries =>
    by_cases hc : c = ".."
    · subst hc
      cases above with
      | nil => exact ⟨[], directory entries, fun _ => rfl, .inl ⟨rfl, .inl rfl, fun _ => id⟩⟩
      | cons up above =>
        exact ⟨above, up, fun _ => rfl, .inl ⟨rfl, .inr List.mem_cons_self,
          List.subset_cons_self up above⟩⟩
    · have hc' : (c == "..") = false := beq_eq_false_iff_ne.2 hc
      cases hlookup : entries.lookup c with
      | none => simp [follow, hc', hlookup] at h
      | some next =>
        exact ⟨directory entries :: above, next, fun _ => by simp [follow, hc', hlookup],
          .inr ⟨entries, rfl, hlookup, rfl⟩⟩

/-- Components after those that lead to a place are followed from the place on. -/
theorem exists_follow_append (h : follow above t names = .ok found) :
    ∃ above', ∀ more, follow above t (names ++ more) = follow above' found more := by
  induction names generalizing above t with
  | nil =>
    obtain rfl : t = found := Except.ok.inj h
    exact ⟨above, fun _ => rfl⟩
  | cons c names ih =>
    obtain ⟨above', next, hnext, -⟩ := exists_follow_cons h
    rw [hnext] at h
    obtain ⟨above'', hmore⟩ := ih h
    exact ⟨above'', fun more => (hnext (names ++ more)).trans (hmore more)⟩

/-- Components that never lead back up lead to the same whatever is above. -/
theorem follow_eq_of_notMem (h : ".." ∉ names) : follow above t names = follow [] t names := by
  induction names generalizing above t with
  | nil => rfl
  | cons c names ih =>
    obtain ⟨hc, hnames⟩ := not_or.1 (mt List.mem_cons.2 h)
    cases t with
    | file content => rfl
    | directory entries =>
      have hc' : (c == "..") = false := beq_eq_false_iff_ne.2 fun heq => hc heq.symm
      simp only [follow, hc', Bool.false_eq_true, if_false]
      cases entries.lookup c with
      | none => rfl
      | some next =>
        calc follow (directory entries :: above) next names
            = follow [] next names := ih hnames
          _ = follow [directory entries] next names := (ih hnames).symm

/-- The name of an entry leads to what the entry holds, and names after it lead on from there. -/
theorem follow_of_mem {entries : List (String × FileTree)} {name : String}
    (hdistinct : (entries.map Prod.fst).Nodup) (hname : IsEntryName name)
    (h : (name, t) ∈ entries) (hnames : ".." ∉ names) :
    (directory entries).follow [] (name :: names) = t.follow [] names := by
  have hup : (name == "..") = false := beq_eq_false_iff_ne.2 hname.2.2.1
  simp only [follow, hup, Bool.false_eq_true, if_false, lookup_eq_some_of_mem hdistinct h]
  exact follow_eq_of_notMem hnames

/-- Names are followed from the place that the components before them lead to. -/
theorem follow_append (h : follow [] t names = .ok found) {more : List String}
    (hmore : ".." ∉ more) :
    follow [] t (names ++ more) = follow [] found more := by
  obtain ⟨above, habove⟩ := exists_follow_append h
  rw [habove, follow_eq_of_notMem hmore]

/-- A component of a path is a name or leads back up. -/
def IsStep (c : String) : Prop :=
  c = ".." ∨ IsEntryName c

/-- A component of a path has neither slashes nor NUL characters, and is not left out when the path
is read. -/
theorem IsStep.spelling {c : String} (h : IsStep c) :
    c ≠ "" ∧ c ≠ "." ∧ '/' ∉ c.toList ∧ Char.ofNat 0 ∉ c.toList := by
  rcases h with rfl | ⟨hempty, hpoint, -, hslash, hnul⟩
  · decide
  · exact ⟨hempty, hpoint, hslash, hnul⟩

/-- What components lead to in a file system is one itself, and each component is a name or leads
back up. -/
theorem Proper.follow (ht : t.Proper) (habove : ∀ u ∈ above, u.Proper)
    (h : FileTree.follow above t names = .ok found) : found.Proper ∧ ∀ c ∈ names, IsStep c := by
  induction names generalizing above t with
  | nil =>
    obtain rfl : t = found := Except.ok.inj h
    exact ⟨ht, fun _ hc => absurd hc List.not_mem_nil⟩
  | cons c names ih =>
    obtain ⟨above', next, hnext, hstep⟩ := exists_follow_cons h
    rw [hnext] at h
    rcases hstep with ⟨rfl, hup, hsub⟩ | ⟨entries, rfl, hlookup, rfl⟩
    · have hproper : next.Proper := hup.elim (fun heq => heq ▸ ht) (habove next)
      obtain ⟨hfound, hnames⟩ := ih hproper (fun u hu => habove u (hsub hu)) h
      exact ⟨hfound, List.forall_mem_cons.2 ⟨.inl rfl, hnames⟩⟩
    · have hmem := mem_of_lookup_eq_some hlookup
      cases ht with
      | directory hentryNames hdistinct hentries =>
        have habove' : ∀ u ∈ FileTree.directory entries :: above, u.Proper :=
          List.forall_mem_cons.2 ⟨.directory hentryNames hdistinct hentries, habove⟩
        obtain ⟨hfound, hnames⟩ := ih (hentries _ hmem) habove' h
        exact ⟨hfound, List.forall_mem_cons.2 ⟨.inr (hentryNames _ hmem), hnames⟩⟩

/-- What names lead to from the top of a file system is one itself, and each of them is a name or
leads back up. -/
theorem Proper.of_follow (ht : t.Proper) (h : t.follow [] names = .ok found) :
    found.Proper ∧ ∀ c ∈ names, IsStep c :=
  ht.follow (fun _ hu => absurd hu List.not_mem_nil) h

/-- A path leads to a file exactly if that is what it is followed to. -/
theorem hasFile_eq_true_iff {p : Path} :
    t.hasFile p = true ↔ ∃ content, t.locate p = .ok (.file content) := by
  unfold hasFile
  cases t.locate p with
  | error e => simp [Except.toOption]
  | ok found => cases found <;> simp [Except.toOption, isFile]

/-- A path leads to what its components are followed to. -/
theorem follow_eq_of_locate {p : Path} (h : t.locate p = .ok found) :
    t.follow [] p.components = .ok found := by
  unfold locate at h
  split at h
  · exact nomatch h
  · exact h

/-- Something is found where a path leads to it. -/
theorem probe_eq_some_iff {p : Path} : t.probe p = .ok (some found) ↔ t.locate p = .ok found := by
  unfold probe
  split <;> simp_all

/-- Names never lead back up. -/
theorem notMem_of_isEntryName (h : ∀ c ∈ names, IsEntryName c) : ".." ∉ names :=
  fun hmem => (h _ hmem).2.2.1 rfl

end FileTree

section Below

variable {t : FileTree} {names : List String}

namespace Glob

/-- What is at or below entries is an entry, or below one. -/
theorem exists_mem_of_mem_belowEach {onlyDirectories : Bool} {entries : List (String × FileTree)}
    (h : names ∈ belowEach onlyDirectories entries) :
    ∃ e ∈ entries, ∃ rest, names = e.1 :: rest ∧
      (rest = [] ∨ rest ∈ below onlyDirectories e.2) := by
  induction entries with
  | nil => simp [belowEach] at h
  | cons e entries ih =>
    obtain ⟨name, t⟩ := e
    rw [belowEach] at h
    rcases List.mem_append.1 h with h | h
    · split at h
      · exact absurd h List.not_mem_nil
      · refine ⟨(name, t), List.mem_cons_self, ?_⟩
        rcases List.mem_cons.1 h with rfl | h
        · exact ⟨[], rfl, .inl rfl⟩
        · obtain ⟨rest, hrest, rfl⟩ := List.mem_map.1 h
          exact ⟨rest, rfl, .inr hrest⟩
    · obtain ⟨e, he, hnames⟩ := ih h
      exact ⟨e, List.mem_cons_of_mem _ he, hnames⟩

/-- What is below a directory is found along some names. -/
theorem isEntryName_of_mem_below (ht : t.Proper) {onlyDirectories : Bool}
    (h : names ∈ below onlyDirectories t) : names ≠ [] ∧ ∀ c ∈ names, IsEntryName c := by
  induction ht generalizing names with
  | file content => simp [below] at h
  | directory hnames _ _ ih =>
    rw [below] at h
    obtain ⟨e, he, rest, rfl, hrest⟩ := exists_mem_of_mem_belowEach h
    refine ⟨List.cons_ne_nil _ _, List.forall_mem_cons.2 ⟨hnames e he, ?_⟩⟩
    rcases hrest with rfl | hrest
    · exact fun _ hc => absurd hc List.not_mem_nil
    · exact (ih e he hrest).2

/-- What a component leads to. `**` leads to the path itself and to what lies below it, any other
component to a name of the directory that it matches, or to itself if it has no wildcards. -/
theorem cases_of_mem_expandOne {tree : FileTree} {onlyDirectories : Bool} {c : String} {dir : Path}
    {m : Match} (h : m ∈ expandOne tree onlyDirectories c dir) :
    (c = anyDepth ∧ (m.path = dir ∨ ∃ t names, tree.locate dir = .ok t ∧
        names ∈ below onlyDirectories t ∧ m.path = extend dir names)) ∨
      (c ≠ anyDepth ∧ ∃ name, m.path = extend dir [name] ∧
        ((∃ t, tree.locate dir = .ok t ∧ name ∈ matchingNames c onlyDirectories t) ∨
          (hasMagic c = false ∧ name = c))) := by
  unfold expandOne at h
  split at h
  · rename_i hc
    refine .inl ⟨eq_of_beq hc, ?_⟩
    split at h
    · rename_i t ht
      rcases List.mem_cons.1 h with rfl | h
      · exact .inl rfl
      · obtain ⟨names, hnames, rfl⟩ := List.mem_map.1 h
        exact .inr ⟨t, names, ht, hnames, rfl⟩
    · obtain rfl := List.mem_singleton.1 h
      exact .inl rfl
  · rename_i hc
    refine .inr ⟨by simpa using hc, ?_⟩
    split at h
    · split at h
      · rename_i t ht
        obtain ⟨name, hname, rfl⟩ := List.mem_map.1 h
        exact ⟨name, rfl, .inl ⟨t, ht, hname⟩⟩
      · exact absurd h List.not_mem_nil
    · rename_i hmagic
      split at h
      · obtain rfl := List.mem_singleton.1 h
        exact ⟨c, rfl, .inr ⟨by simpa using hmagic, rfl⟩⟩
      · exact absurd h List.not_mem_nil

/-- The names that a component matches are names. -/
theorem isEntryName_of_mem_matchingNames (ht : t.Proper) {c name : String} {onlyDirectories : Bool}
    (h : name ∈ matchingNames c onlyDirectories t) : IsEntryName name := by
  obtain ⟨e, he, rfl⟩ := List.mem_map.1 (List.mem_filter.1 h).1
  have he : e ∈ t.entries.filter fun e => !onlyDirectories || e.2.isDirectory := by
    split at he
    · exact he
    · exact (List.mem_filter.1 he).1
  have hmem : e ∈ t.entries := (List.mem_filter.1 he).1
  cases ht with
  | file content => exact absurd hmem List.not_mem_nil
  | directory hnames => exact hnames e hmem

end Glob

namespace Listing

/-- A walk says of each entry what lies below it. -/
theorem walkEach_eq_map (accepts : String → Bool) (entries : List (String × FileTree)) :
    walkEach accepts entries =
      entries.map fun e => (e.1, if e.2.isFile then none else some (walk accepts e.2)) :=
  eq_map_of_cons rfl (fun _ _ => rfl) entries

/-- What a walk yields is the name of a part without more that is accepted, or lies below a part
that is not skipped. -/
theorem mem_arrange_iff {accepts : String → Bool}
    {parts : List (String × Option (List (List String)))} :
    names ∈ arrange accepts parts ↔
      (∃ name, (name, none) ∈ parts ∧ accepts (extensionOf name) = true ∧ names = [name]) ∨
        ∃ name paths rest, (name, some paths) ∈ parts ∧ skipsDirectory name = false ∧
          rest ∈ paths ∧ names = name :: rest := by
  unfold arrange sortedStrings sortByName
  simp only [List.mem_append, List.mem_map, List.mem_flatMap, List.mem_mergeSort,
    List.mem_filterMap, List.mem_filter]
  constructor
  · rintro (⟨name, ⟨⟨name', found⟩, ⟨hpart, hkeep⟩, rfl⟩, rfl⟩ |
      ⟨d, ⟨part, hpart, heq⟩, rest, hrest, rfl⟩)
    · obtain ⟨hnone, haccepts⟩ := Bool.and_eq_true_iff.1 hkeep
      obtain rfl := Option.isNone_iff_eq_none.1 hnone
      exact .inl ⟨name', hpart, haccepts, rfl⟩
    · split at heq
      · exact nomatch heq
      · rename_i hskip
        obtain ⟨paths, hpaths, rfl⟩ := Option.map_eq_some_iff.1 heq
        exact .inr ⟨part.1, paths, rest, hpaths ▸ hpart, by simpa using hskip, hrest, rfl⟩
  · rintro (⟨name, hpart, haccepts, rfl⟩ | ⟨name, paths, rest, hpart, hskip, hrest, rfl⟩)
    · exact .inl ⟨name, ⟨(name, none), ⟨hpart, by simpa using haccepts⟩, rfl⟩, rfl⟩
    · exact .inr ⟨(name, paths), ⟨(name, some paths), hpart, by simp [hskip]⟩, rest, hrest, rfl⟩

/-- A walk through a directory finds its files with an accepted extension, and what it finds in the
directories that are not skipped. -/
theorem mem_walk_directory_iff {accepts : String → Bool} {entries : List (String × FileTree)} :
    names ∈ walk accepts (.directory entries) ↔
      (∃ name content, (name, .file content) ∈ entries ∧ accepts (extensionOf name) = true ∧
          names = [name]) ∨
        ∃ name below rest, (name, below) ∈ entries ∧ skipsDirectory name = false ∧
          rest ∈ walk accepts below ∧ names = name :: rest := by
  rw [walk, walkEach_eq_map, mem_arrange_iff]
  simp only [List.mem_map, Prod.mk.injEq]
  constructor
  · rintro (⟨name, ⟨e, he, rfl, hfile⟩, haccepts, rfl⟩ |
      ⟨name, paths, rest, ⟨e, he, rfl, hpaths⟩, hskip, hrest, rfl⟩)
    · obtain ⟨name, t⟩ := e
      cases t with
      | directory => simp [FileTree.isFile] at hfile
      | file content => exact .inl ⟨name, content, he, haccepts, rfl⟩
    · split at hpaths
      · cases hpaths
      · obtain rfl := Option.some.inj hpaths
        exact .inr ⟨e.1, e.2, rest, he, hskip, hrest, rfl⟩
  · rintro (⟨name, content, he, haccepts, rfl⟩ | ⟨name, below, rest, he, hskip, hrest, rfl⟩)
    · exact .inl ⟨name, ⟨_, he, rfl, rfl⟩, haccepts, rfl⟩
    · cases below with
      | file content => simp [walk] at hrest
      | directory below => exact .inr ⟨name, _, rest, ⟨_, he, rfl, rfl⟩, hskip, hrest, rfl⟩

/-- A walk finds files along names. -/
theorem exists_follow_of_mem_walk (ht : t.Proper) {accepts : String → Bool}
    (h : names ∈ walk accepts t) :
    (∀ c ∈ names, IsEntryName c) ∧ ∃ content, t.follow [] names = .ok (.file content) := by
  induction ht generalizing names with
  | file content => simp [walk] at h
  | directory hnames hdistinct _ ih =>
    rcases mem_walk_directory_iff.1 h with
      ⟨name, content, he, -, rfl⟩ | ⟨name, below, rest, he, -, hrest, rfl⟩
    · refine ⟨List.forall_mem_singleton.2 (hnames _ he), content, ?_⟩
      rw [FileTree.follow_of_mem hdistinct (hnames _ he) he List.not_mem_nil, FileTree.follow]
    · obtain ⟨hrestNames, content, hcontent⟩ := ih _ he hrest
      refine ⟨List.forall_mem_cons.2 ⟨hnames _ he, hrestNames⟩, content, ?_⟩
      rw [FileTree.follow_of_mem hdistinct (hnames _ he) he
        (FileTree.notMem_of_isEntryName hrestNames), hcontent]

end Listing

end Below

section Selecting

namespace Listing

variable {tree : FileTree} {root : Path} {pattern : String}

/-- A pattern that leads to a file selects it. -/
theorem expand_of_probe_eq_file (extensions : Value) {content : List UInt8}
    (h : tree.probe (root.join (Path.ofString pattern)) = .ok (some (.file content))) :
    expand tree root extensions pattern = .ok [root.join (Path.ofString pattern)] := by
  simp only [expand, h]
  rfl

/-- A pattern that leads to a directory selects what a walk finds there. -/
theorem expand_of_probe_eq_directory (extensions : Value) {entries : List (String × FileTree)}
    (h : tree.probe (root.join (Path.ofString pattern)) = .ok (some (.directory entries))) :
    expand tree root extensions pattern =
      (walkFor extensions (.directory entries)).map
        (·.map (Glob.extend (root.join (Path.ofString pattern)))) := by
  simp only [expand, h]
  cases hwalk : walkFor extensions (.directory entries) <;>
    simp [hwalk, bind, Except.bind, pure, Except.pure, Except.map]

/-- A pattern that leads nowhere by itself is expanded. -/
theorem expand_of_probe_eq_none (extensions : Value)
    (h : tree.probe (root.join (Path.ofString pattern)) = .ok none) :
    expand tree root extensions pattern =
      expandWildcards tree pattern (root.join (Path.ofString pattern)) := by
  simp only [expand, h]
  rfl

/-- What wildcards select is what the pattern stands for. -/
theorem mem_files_of_mem_expandWildcards {candidate f : Path} {found : List Path}
    (h : expandWildcards tree pattern candidate = .ok found) (hf : f ∈ found) :
    f ∈ Glob.files tree candidate := by
  unfold expandWildcards at h
  split at h
  · obtain rfl := Except.ok.inj h
    exact absurd hf List.not_mem_nil
  · split at h
    · cases h
    · obtain rfl := Except.ok.inj h
      exact hf

/-- A listing for one pattern lists what the pattern selects, each file with its flag. -/
theorem files_ofStrings_singleton (tree : FileTree) (root : Path) (rules : List String)
    (extensions : Value) (pattern : String) :
    files tree root rules (.ofStrings [pattern]) extensions =
      (expand tree root extensions pattern).map
        (·.map fun p => ⟨p, Path.ignoredUnder root rules p⟩) := by
  have hitems : (Value.ofStrings [pattern]).elements? = some [.str pattern] := rfl
  simp only [files, hitems, List.mapM_cons, List.mapM_nil, expandValue]
  cases expand tree root extensions pattern <;>
    simp [bind, Except.bind, pure, Except.pure, Except.map]

end Listing

end Selecting

end TranslationKeys
