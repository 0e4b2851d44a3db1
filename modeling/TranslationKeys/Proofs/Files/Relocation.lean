import TranslationKeys.Proofs.Files.Places
import TranslationKeys.Proofs.Path.Texts
import TranslationKeys.Proofs.Text.Order

/-!
# The same directory at two places

A directory may lie at one absolute path or another, in one file system or two. Patterns that stay
below it are expanded there in step: whatever is asked of the one place has the same answer at the
other, and paths below the two are found in the same order, since their texts differ in nothing but
what they start with. So a selection lists the same files at both places.

Three things could tell the places apart: wildcards in the path of the directory itself, a path that
is too long at one place only, and a path that leads through the directory of dependencies.
-/

namespace TranslationKeys

/-- Whether a path can be asked for. -/
def Path.Fits (p : Path) : Prop :=
  p.text.utf8ByteSize ≤ FileTree.longestPath

instance (p : Path) : Decidable p.Fits :=
  inferInstanceAs (Decidable (_ ≤ _))

/-- A directory that lies at an absolute path of a file system, with no wildcards on the path. -/
structure FileTree.LiesAt (t fs : FileTree) (root : Path) : Prop where
  /-- The file system has proper names. -/
  proper : fs.Proper
  /-- The path is absolute. -/
  isAbsolute : root.isAbsolute = true
  /-- The path has no wildcards. -/
  plain : ∀ c ∈ root.components, Glob.hasMagic c = false
  /-- The path leads to the directory. -/
  locate_eq : fs.locate root = .ok t
  /-- It is a directory. -/
  isDirectory : t.isDirectory = true

namespace FileTree.LiesAt

variable {t fs : FileTree} {root : Path} {names : List String}

/-- The path is followed to the directory, and can be asked for. -/
theorem follow_eq (h : t.LiesAt fs root) : fs.follow [] root.components = .ok t :=
  follow_eq_of_locate h.locate_eq

/-- The directory has proper names, and so has the path to it. -/
theorem proper_and_isStep (h : t.LiesAt fs root) : t.Proper ∧ ∀ c ∈ root.components, IsStep c :=
  h.proper.of_follow h.follow_eq

/-- What a path below the directory leads to, if it can be asked for, is found from the directory
on. -/
theorem locate_extend (h : t.LiesAt fs root) (hnames : ".." ∉ names) :
    ((Glob.extend root names).Fits ∧ fs.locate (Glob.extend root names) = t.follow [] names) ∨
      (¬ (Glob.extend root names).Fits ∧
        fs.locate (Glob.extend root names) = .error .nameTooLong) := by
  by_cases hfits : (Glob.extend root names).Fits
  · refine .inl ⟨hfits, ?_⟩
    rw [locate, if_neg (Nat.not_lt.2 hfits)]
    exact follow_append h.follow_eq hnames
  · exact .inr ⟨hfits, if_pos (Nat.not_le.1 hfits)⟩

/-- What is found below the directory is found from the directory on. -/
theorem follow_of_locate (h : t.LiesAt fs root) (hnames : ".." ∉ names) {found : FileTree}
    (hfound : fs.locate (Glob.extend root names) = .ok found) : t.follow [] names = .ok found := by
  rcases h.locate_extend hnames with ⟨-, hlocate⟩ | ⟨-, hlocate⟩
  · exact hlocate.symm.trans hfound
  · exact nomatch hlocate.symm.trans hfound

/-- A file of the directory is found along some names. -/
theorem ne_nil_of_follow_file (h : t.LiesAt fs root) {content : List UInt8}
    (hfile : t.follow [] names = .ok (.file content)) : names ≠ [] := by
  rintro rfl
  obtain rfl : t = .file content := Except.ok.inj hfile
  exact nomatch h.isDirectory

/-- Only components of a pattern below the directory can have NUL characters. -/
theorem searchesNul_extend (h : t.LiesAt fs root) (cs : List String) :
    Listing.searchesNul (Glob.extend root cs) =
      (cs.takeWhile fun c => !Glob.hasMagic c).any fun c => c.toList.contains (Char.ofNat 0) := by
  have hroot : (root.components.any fun c => c.toList.contains (Char.ofNat 0)) = false := by
    rw [List.any_eq_false]
    exact fun c hc => by simpa using (h.proper_and_isStep.2 c hc).spelling.2.2.2
  rw [Listing.searchesNul, Glob.divide_extend h.plain, List.any_append, hroot, Bool.false_or]

end FileTree.LiesAt

/-- A directory that lies at two places. No path to something in it is too long at one of them
only. -/
structure FileTree.LiesAtBoth (t fs₁ : FileTree) (root₁ : Path) (fs₂ : FileTree) (root₂ : Path) :
    Prop where
  /-- It lies at the first place. -/
  left : t.LiesAt fs₁ root₁
  /-- It lies at the second place. -/
  right : t.LiesAt fs₂ root₂
  /-- Paths are too long at both places or at none. -/
  fits_iff : ∀ {names : List String} {found : FileTree}, ".." ∉ names →
    t.follow [] names = .ok found →
      ((Glob.extend root₁ names).Fits ↔ (Glob.extend root₂ names).Fits)

/-- A relative path that never leads back up. -/
def Path.StaysBelow (p : Path) : Prop :=
  p.isAbsolute = false ∧ ".." ∉ p.components

instance (p : Path) : Decidable p.StaysBelow :=
  inferInstanceAs (Decidable (_ ∧ _))

/-- Two paths that lead from two roots along the same names. -/
def Path.Alike (root₁ root₂ p₁ p₂ : Path) : Prop :=
  ∃ names, ".." ∉ names ∧ p₁ = Glob.extend root₁ names ∧ p₂ = Glob.extend root₂ names

/-- Two paths that a pattern stands for, found along the same names. -/
def Glob.Match.Alike (root₁ root₂ : Path) (m₁ m₂ : Match) : Prop :=
  ∃ names, ".." ∉ names ∧ (names = [] → m₁.slash = true) ∧ m₁.slash = m₂.slash ∧
    m₁.path = extend root₁ names ∧ m₂.path = extend root₂ names

section Alike

variable {root root₁ root₂ p₁ p₂ : Path} {m₁ m₂ : Glob.Match}

/-- Paths along the same names may be written with a slash at their ends. -/
theorem Path.Alike.of_slash (h : Path.Alike root₁ root₂ p₁ p₂) :
    Glob.Match.Alike root₁ root₂ ⟨p₁, true⟩ ⟨p₂, true⟩ := by
  obtain ⟨names, hnames, hp₁, hp₂⟩ := h
  exact ⟨names, hnames, fun _ => rfl, rfl, hp₁, hp₂⟩

/-- Paths along the same names lead on along the same names. -/
theorem Path.Alike.extend (h : Path.Alike root₁ root₂ p₁ p₂) {more : List String}
    (hne : more ≠ []) (hmore : ".." ∉ more) :
    Glob.Match.Alike root₁ root₂ ⟨Glob.extend p₁ more, false⟩ ⟨Glob.extend p₂ more, false⟩ := by
  obtain ⟨names, hnames, rfl, rfl⟩ := h
  refine ⟨names ++ more, ?_, fun hnil => absurd (List.append_eq_nil_iff.1 hnil).2 hne, rfl,
    Glob.extend_extend _ _ _, Glob.extend_extend _ _ _⟩
  exact fun hmem => (List.mem_append.1 hmem).elim hnames hmore

/-- Paths that are found along the same names lead along them. -/
theorem Glob.Match.Alike.path (h : m₁.Alike root₁ root₂ m₂) :
    Path.Alike root₁ root₂ m₁.path m₂.path := by
  obtain ⟨names, hnames, -, -, hp₁, hp₂⟩ := h
  exact ⟨names, hnames, hp₁, hp₂⟩

/-- No names lead to where they start from. -/
theorem Glob.extend_nil (dir : Path) : extend dir [] = dir := by
  simp [extend]

/-- The text of what a pattern stands for below a root. -/
theorem Glob.Match.toList_text {m : Match} (hroot : root.isAbsolute = true) {names : List String}
    (hslash : names = [] → m.slash = true) (hpath : m.path = extend root names) :
    m.text.toList =
      root.stem ++ (joined names ++ if m.slash && !names.isEmpty then ['/'] else []) := by
  unfold Match.text
  rw [hpath]
  by_cases hnil : names = []
  · subst hnil
    rw [hslash rfl, extend_nil, Path.stem]
    by_cases hcomponents : root.components = [] <;>
      simp [hcomponents, Path.toList_text hroot, joined]
  · have hempty : (extend root names).components.isEmpty = false := by simp [extend, hnil]
    rw [hempty]
    cases m.slash <;> simp [hnil, Path.toList_text_extend hroot hnil]

/-- What is found along the same names below two roots comes in the same order. -/
theorem Glob.Match.Alike.le_eq (hroot₁ : root₁.isAbsolute = true) (hroot₂ : root₂.isAbsolute = true)
    {m₁ m₂ n₁ n₂ : Match} (hm : m₁.Alike root₁ root₂ m₂) (hn : n₁.Alike root₁ root₂ n₂) :
    Text.le (Text.ofString m₁.text) (Text.ofString n₁.text) =
      Text.le (Text.ofString m₂.text) (Text.ofString n₂.text) := by
  obtain ⟨names, -, hslash, hsame, hm₁, hm₂⟩ := hm
  obtain ⟨names', -, hslash', hsame', hn₁, hn₂⟩ := hn
  simp only [Text.ofString, Text.ofChars, toList_text hroot₁ hslash hm₁,
    toList_text hroot₁ hslash' hn₁, toList_text hroot₂ (hsame ▸ hslash) hm₂,
    toList_text hroot₂ (hsame' ▸ hslash') hn₂, List.map_append, Text.le_append_left, hsame, hsame']

end Alike

/-- Two paths that lead from two roots to one file of a directory. -/
def FileTree.FileAlike (t : FileTree) (root₁ root₂ p₁ p₂ : Path) : Prop :=
  ∃ names content, ".." ∉ names ∧ t.follow [] names = .ok (.file content) ∧
    p₁ = Glob.extend root₁ names ∧ p₂ = Glob.extend root₂ names

namespace FileTree.LiesAtBoth

variable {t fs₁ fs₂ : FileTree} {root₁ root₂ : Path} {names : List String}

/-- What names lead to is the same at both places, unless it is too far from one of them only. -/
theorem locate_eq (h : t.LiesAtBoth fs₁ root₁ fs₂ root₂) (hnames : ".." ∉ names)
    (hfits : (Glob.extend root₁ names).Fits ↔ (Glob.extend root₂ names).Fits) :
    fs₁.locate (Glob.extend root₁ names) = fs₂.locate (Glob.extend root₂ names) := by
  rcases h.left.locate_extend hnames with ⟨hfits₁, h₁⟩ | ⟨hfits₁, h₁⟩
  · rcases h.right.locate_extend hnames with ⟨-, h₂⟩ | ⟨hfits₂, -⟩
    · exact h₁.trans h₂.symm
    · exact absurd (hfits.1 hfits₁) hfits₂
  · rcases h.right.locate_extend hnames with ⟨hfits₂, -⟩ | ⟨-, h₂⟩
    · exact absurd (hfits.2 hfits₂) hfits₁
    · exact h₁.trans h₂.symm

/-- Paths along the same names both lead to one thing, or both lead nowhere. -/
theorem locate_alike (h : t.LiesAtBoth fs₁ root₁ fs₂ root₂) {p₁ p₂ : Path}
    (hp : Path.Alike root₁ root₂ p₁ p₂) :
    (∃ found, found.Proper ∧ fs₁.locate p₁ = .ok found ∧ fs₂.locate p₂ = .ok found) ∨
      ∃ e₁ e₂, fs₁.locate p₁ = .error e₁ ∧ fs₂.locate p₂ = .error e₂ := by
  obtain ⟨names, hnames, rfl, rfl⟩ := hp
  cases hfollow : t.follow [] names with
  | ok found =>
    have heq := h.locate_eq hnames (h.fits_iff hnames hfollow)
    have hproper := (h.left.proper_and_isStep.1.of_follow hfollow).1
    rcases h.left.locate_extend hnames with ⟨-, h₁⟩ | ⟨-, h₁⟩
    · exact .inl ⟨found, hproper, h₁.trans hfollow, heq.symm.trans (h₁.trans hfollow)⟩
    · exact .inr ⟨_, _, h₁, heq.symm.trans h₁⟩
  | error e =>
    have herror {fs : FileTree} {root : Path} (hlies : t.LiesAt fs root) :
        ∃ e, fs.locate (Glob.extend root names) = .error e := by
      rcases hlies.locate_extend hnames with ⟨-, h'⟩ | ⟨-, h'⟩
      · exact ⟨e, h'.trans hfollow⟩
      · exact ⟨_, h'⟩
    obtain ⟨e₁, h₁⟩ := herror h.left
    obtain ⟨e₂, h₂⟩ := herror h.right
    exact .inr ⟨e₁, e₂, h₁, h₂⟩

/-- Paths along the same names both lead somewhere or both lead nowhere. -/
theorem contains_alike (h : t.LiesAtBoth fs₁ root₁ fs₂ root₂) {p₁ p₂ : Path}
    (hp : Path.Alike root₁ root₂ p₁ p₂) : fs₁.contains p₁ = fs₂.contains p₂ := by
  rcases h.locate_alike hp with ⟨found, -, h₁, h₂⟩ | ⟨e₁, e₂, h₁, h₂⟩ <;>
    simp [contains, h₁, h₂, Except.isOk, Except.toBool]

/-- Paths along the same names both lead to a file or neither does. -/
theorem hasFile_alike (h : t.LiesAtBoth fs₁ root₁ fs₂ root₂) {p₁ p₂ : Path}
    (hp : Path.Alike root₁ root₂ p₁ p₂) : fs₁.hasFile p₁ = fs₂.hasFile p₂ := by
  rcases h.locate_alike hp with ⟨found, -, h₁, h₂⟩ | ⟨e₁, e₂, h₁, h₂⟩ <;>
    simp [hasFile, h₁, h₂, Except.toOption]

/-- One component of a pattern leads along the same names at both places. -/
theorem expandOne_alike (h : t.LiesAtBoth fs₁ root₁ fs₂ root₂) {p₁ p₂ : Path}
    (hp : Path.Alike root₁ root₂ p₁ p₂) {c : String} (hc : c ≠ "..") (onlyDirectories : Bool) :
    List.Forall₂ (Glob.Match.Alike root₁ root₂) (Glob.expandOne fs₁ onlyDirectories c p₁)
      (Glob.expandOne fs₂ onlyDirectories c p₂) := by
  unfold Glob.expandOne
  by_cases hdepth : (c == Glob.anyDepth) = true
  · rw [if_pos hdepth, if_pos hdepth]
    rcases h.locate_alike hp with ⟨found, hproper, h₁, h₂⟩ | ⟨e₁, e₂, h₁, h₂⟩
    · rw [h₁, h₂]
      refine .cons hp.of_slash (forall₂_map_map fun more hmem => ?_)
      obtain ⟨hne, hentries⟩ := Glob.isEntryName_of_mem_below hproper hmem
      exact hp.extend hne (notMem_of_isEntryName hentries)
    · rw [h₁, h₂]
      exact .cons hp.of_slash .nil
  · rw [if_neg hdepth, if_neg hdepth]
    by_cases hmagic : Glob.hasMagic c = true
    · rw [if_pos hmagic, if_pos hmagic]
      rcases h.locate_alike hp with ⟨found, hproper, h₁, h₂⟩ | ⟨e₁, e₂, h₁, h₂⟩
      · rw [h₁, h₂]
        refine forall₂_map_map fun name hmem => hp.extend (List.cons_ne_nil name []) ?_
        exact notMem_of_isEntryName
          (List.forall_mem_singleton.2 (Glob.isEntryName_of_mem_matchingNames hproper hmem))
      · rw [h₁, h₂]
        exact .nil
    · rw [if_neg hmagic, if_neg hmagic]
      have hchild := hp.extend (List.cons_ne_nil c []) (by simpa using hc.symm)
      have hcontains : fs₁.contains (p₁.child c) = fs₂.contains (p₂.child c) :=
        h.contains_alike hchild.path
      rw [hcontains]
      split
      · exact .cons hchild .nil
      · exact .nil

/-- The components of a pattern lead along the same names at both places. -/
theorem expandAll_alike (h : t.LiesAtBoth fs₁ root₁ fs₂ root₂) {cs : List String}
    (hcs : ".." ∉ cs) (hne : cs ≠ []) {found₁ found₂ : List Path}
    (hfound : List.Forall₂ (Path.Alike root₁ root₂) found₁ found₂) :
    List.Forall₂ (Glob.Match.Alike root₁ root₂) (Glob.expandAll fs₁ cs found₁)
      (Glob.expandAll fs₂ cs found₂) := by
  induction cs generalizing found₁ found₂ with
  | nil => exact absurd rfl hne
  | cons c cs ih =>
    obtain ⟨hc, hcs⟩ := not_or.1 (mt List.mem_cons.2 hcs)
    have hstep (onlyDirectories : Bool) :=
      List.rel_flatMap hfound fun _ _ hp => h.expandOne_alike hp (Ne.symm hc) onlyDirectories
    cases cs with
    | nil => exact hstep false
    | cons d cs =>
      exact ih hcs (List.cons_ne_nil d cs) (List.rel_map (fun _ _ hm => hm.path) (hstep true))

/-- A pattern below the directory stands for paths along the same names at both places. -/
theorem expand_alike (h : t.LiesAtBoth fs₁ root₁ fs₂ root₂) {cs : List String}
    (hcs : ".." ∉ cs) (hmagic : ∃ c ∈ cs, Glob.hasMagic c = true) :
    List.Forall₂ (Glob.Match.Alike root₁ root₂) (Glob.expand fs₁ (Glob.extend root₁ cs))
      (Glob.expand fs₂ (Glob.extend root₂ cs)) := by
  have hrest : (cs.dropWhile fun c => !Glob.hasMagic c) ≠ [] := by
    obtain ⟨c, hc, hmagic⟩ := hmagic
    intro hnil
    simpa [hmagic] using List.dropWhile_eq_nil_iff.1 hnil c hc
  have hstart : Path.Alike root₁ root₂
      (Glob.extend root₁ (cs.takeWhile fun c => !Glob.hasMagic c))
      (Glob.extend root₂ (cs.takeWhile fun c => !Glob.hasMagic c)) :=
    ⟨_, fun hmem => hcs ((List.takeWhile_sublist _).subset hmem), rfl, rfl⟩
  rw [Glob.expand, Glob.expand, Glob.divide_extend h.left.plain, Glob.divide_extend h.right.plain]
  exact h.expandAll_alike (fun hmem => hcs ((List.dropWhile_sublist _).subset hmem)) hrest
    (.cons hstart .nil)

/-- A pattern below the directory stands for the same files at both places, in the same order. -/
theorem globFiles_alike (h : t.LiesAtBoth fs₁ root₁ fs₂ root₂) {cs : List String}
    (hcs : ".." ∉ cs) (hmagic : ∃ c ∈ cs, Glob.hasMagic c = true) :
    List.Forall₂ (t.FileAlike root₁ root₂) (Glob.files fs₁ (Glob.extend root₁ cs))
      (Glob.files fs₂ (Glob.extend root₂ cs)) := by
  have hsorted := forall₂_mergeSort
    (fun hm hn => hm.le_eq h.left.isAbsolute h.right.isAbsolute hn) (h.expand_alike hcs hmagic)
  have hpaths := List.rel_map (fun _ _ hm => hm.path) hsorted
  have hfiles : List.Forall₂ (Path.Alike root₁ root₂) (Glob.files fs₁ (Glob.extend root₁ cs))
      (Glob.files fs₂ (Glob.extend root₂ cs)) :=
    List.rel_filter (fun _ _ hp => by simp [h.hasFile_alike hp]) hpaths
  refine forall₂_imp_of_mem (fun p₁ hp₁ p₂ _ hp => ?_) hfiles
  obtain ⟨names, hnames, rfl, rfl⟩ := hp
  obtain ⟨content, hfile⟩ := hasFile_eq_true_iff.1 (List.mem_filter.1 hp₁).2
  exact ⟨names, content, hnames, h.left.follow_of_locate hnames hfile, rfl, rfl⟩

/-- A walk through a part of the directory finds the same files at both places. -/
theorem walkFor_alike (h : t.LiesAtBoth fs₁ root₁ fs₂ root₂) (hnames : ".." ∉ names)
    {part : FileTree} (hpart : t.follow [] names = .ok part) (extensions : Value) :
    EndsAlike (List.Forall₂ (t.FileAlike root₁ root₂))
      (Listing.walkFor extensions part >>= fun found =>
        pure (found.map (Glob.extend (Glob.extend root₁ names))))
      (Listing.walkFor extensions part >>= fun found =>
        pure (found.map (Glob.extend (Glob.extend root₂ names)))) := by
  have hproper := (h.left.proper_and_isStep.1.of_follow hpart).1
  unfold Listing.walkFor
  simp only
  split
  · refine .ok (forall₂_map_map fun more hmore => ?_)
    obtain ⟨hentries, content, hcontent⟩ := Listing.exists_follow_of_mem_walk hproper hmore
    have hmore' : ".." ∉ more := notMem_of_isEntryName hentries
    refine ⟨names ++ more, content, ?_, ?_, Glob.extend_extend _ _ _, Glob.extend_extend _ _ _⟩
    · exact fun hmem => (List.mem_append.1 hmem).elim hnames hmore'
    · rw [follow_append hpart hmore', hcontent]
  · exact .error _

/-- The wildcards of a pattern below the directory select the same files at both places. -/
theorem expandWildcards_alike (h : t.LiesAtBoth fs₁ root₁ fs₂ root₂) {pattern : String}
    (hcs : ".." ∉ (Path.ofString pattern).components) :
    EndsAlike (List.Forall₂ (t.FileAlike root₁ root₂))
      (Listing.expandWildcards fs₁ pattern
        (Glob.extend root₁ (Path.ofString pattern).components))
      (Listing.expandWildcards fs₂ pattern
        (Glob.extend root₂ (Path.ofString pattern).components)) := by
  unfold Listing.expandWildcards
  rw [h.left.searchesNul_extend, h.right.searchesNul_extend]
  by_cases hmagic : Glob.hasMagic pattern = true
  · simp only [hmagic, Bool.not_true, Bool.false_eq_true, if_false]
    split
    · exact .error _
    · exact .ok (h.globFiles_alike hcs (Path.exists_mem_ofString_hasMagic hmagic))
  · simp only [hmagic, Bool.not_false, if_true]
    exact .ok .nil

/-- One pattern below the directory selects the same files at both places. -/
theorem listingExpand_alike (h : t.LiesAtBoth fs₁ root₁ fs₂ root₂) {pattern : String}
    (hpattern : Path.StaysBelow (Path.ofString pattern))
    (hfits : (root₁.join (Path.ofString pattern)).Fits ↔ (root₂.join (Path.ofString pattern)).Fits)
    (extensions : Value) :
    EndsAlike (List.Forall₂ (t.FileAlike root₁ root₂))
      (Listing.expand fs₁ root₁ extensions pattern)
      (Listing.expand fs₂ root₂ extensions pattern) := by
  obtain ⟨hrelative, hcs⟩ := hpattern
  rw [Path.join_eq_extend hrelative, Path.join_eq_extend hrelative] at hfits
  have hlocate := h.locate_eq hcs hfits
  have hprobe : fs₁.probe (Glob.extend root₁ (Path.ofString pattern).components) =
      fs₂.probe (Glob.extend root₂ (Path.ofString pattern).components) := by
    unfold probe
    rw [hlocate]
  simp only [Listing.expand, Path.join_eq_extend hrelative, hprobe]
  cases hresult : fs₂.probe (Glob.extend root₂ (Path.ofString pattern).components) with
  | error e => exact .error e
  | ok result =>
    cases result with
    | none => exact h.expandWildcards_alike hcs
    | some found =>
      have hfound := h.right.follow_of_locate hcs (probe_eq_some_iff.1 hresult)
      cases found with
      | file content => exact .ok (.cons ⟨_, content, hcs, hfound, rfl, rfl⟩ .nil)
      | directory entries => exact h.walkFor_alike hcs hfound extensions

end FileTree.LiesAtBoth

/-- Whether a path leads through the directory of dependencies. -/
def Path.InDependencies (root : Path) : Prop :=
  dependencyDirectory ∈ root.components

instance (root : Path) : Decidable root.InDependencies :=
  inferInstanceAs (Decidable (_ ∈ _))

/-- Two listed files that are one file of a directory. Each is flagged if the path of the directory
leads through the directory of dependencies, and for reasons that both share. -/
def FoundFile.Alike (t : FileTree) (root₁ root₂ : Path) (f₁ f₂ : FoundFile) : Prop :=
  t.FileAlike root₁ root₂ f₁.path f₂.path ∧ ∃ own : Prop,
    (f₁.ignored = true ↔ root₁.InDependencies ∨ own) ∧
    (f₂.ignored = true ↔ root₂.InDependencies ∨ own)

namespace FoundFile.Alike

variable {t : FileTree} {root₁ root₂ : Path} {f₁ f₂ : FoundFile}

/-- One file of a directory has one path relative to it. -/
theorem relativeText_eq (h : f₁.Alike t root₁ root₂ f₂) :
    f₁.path.relativeText root₁ = f₂.path.relativeText root₂ := by
  obtain ⟨⟨names, content, -, -, hp₁, hp₂⟩, -⟩ := h
  rw [hp₁, hp₂, Path.relativeText_extend, Path.relativeText_extend]

/-- One file of a directory is ignored at both places or at none, if both lie in the directory of
dependencies or neither does. -/
theorem ignored_eq (h : f₁.Alike t root₁ root₂ f₂)
    (hdependencies : root₁.InDependencies ↔ root₂.InDependencies) : f₁.ignored = f₂.ignored := by
  obtain ⟨-, own, h₁, h₂⟩ := h
  rw [Bool.eq_iff_iff, h₁, h₂, hdependencies]

end FoundFile.Alike

/-- Whether a path below an absolute root is ignored: because of the root, or because of the names
that lead to it from there. -/
theorem Path.ignoredUnder_extend_iff {root : Path} {names : List String}
    (habsolute : root.isAbsolute = true) (hnames : names ≠ []) (rules : List String) :
    Path.ignoredUnder root rules (Glob.extend root names) = true ↔
      root.InDependencies ∨ (dependencyDirectory ∈ names.dropLast ∨
        PathPattern.matchesSome (Path.text ⟨.relative, names⟩) rules = true) := by
  have hparts : (Glob.extend root names).leadingParts =
      root.root.text :: (root.components ++ names.dropLast) := by
    have habsolute' : (Glob.extend root names).isAbsolute = true := habsolute
    simp only [leadingParts, if_pos habsolute']
    calc ((root.root.text :: root.components) ++ names).dropLast
        = (root.root.text :: root.components) ++ names.dropLast :=
          List.dropLast_append_of_ne_nil hnames
      _ = root.root.text :: (root.components ++ names.dropLast) := List.cons_append
  have hroot : dependencyDirectory ≠ root.root.text := by
    cases root.root <;> decide
  rw [ignoredUnder, liesInIgnored, hparts, relativeText_extend, Bool.or_eq_true]
  simp [InDependencies, hroot, or_assoc]

namespace FileTree.LiesAtBoth

variable {t fs₁ fs₂ : FileTree} {root₁ root₂ : Path}

/-- Patterns that stay below the directory list the same files at both places. -/
theorem files_alike (h : t.LiesAtBoth fs₁ root₁ fs₂ root₂) {patterns : List String}
    (hpatterns : ∀ s ∈ patterns, Path.StaysBelow (Path.ofString s))
    (hfits : ∀ s ∈ patterns,
      ((root₁.join (Path.ofString s)).Fits ↔ (root₂.join (Path.ofString s)).Fits))
    (rules : List String) (extensions : Value) :
    EndsAlike (List.Forall₂ (FoundFile.Alike t root₁ root₂))
      (Listing.files fs₁ root₁ rules (.ofStrings patterns) extensions)
      (Listing.files fs₂ root₂ rules (.ofStrings patterns) extensions) := by
  have hexpand : EndsAlike (List.Forall₂ (List.Forall₂ (t.FileAlike root₁ root₂)))
      ((patterns.map Value.str).mapM (Listing.expandValue fs₁ root₁ extensions))
      ((patterns.map Value.str).mapM (Listing.expandValue fs₂ root₂ extensions)) := by
    refine EndsAlike.mapM (List.forall₂_eq_eq_eq ▸ rfl) fun hmem _ heq => ?_
    subst heq
    obtain ⟨s, hs, rfl⟩ := List.mem_map.1 hmem
    exact h.listingExpand_alike (hpatterns s hs) (hfits s hs) extensions
  refine hexpand.bind fun hfound => .ok ?_
  refine List.rel_map (fun p₁ p₂ hp => ⟨hp, ?_⟩) (List.rel_flatten hfound)
  obtain ⟨names, content, -, hfollow, rfl, rfl⟩ := hp
  have hne : names ≠ [] := h.left.ne_nil_of_follow_file hfollow
  exact ⟨_, Path.ignoredUnder_extend_iff h.left.isAbsolute hne rules,
    Path.ignoredUnder_extend_iff h.right.isAbsolute hne rules⟩

end FileTree.LiesAtBoth

end TranslationKeys
