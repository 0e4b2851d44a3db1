import TranslationKeys.Proofs.Files.Agreement
import TranslationKeys.Proofs.Text.Splitting

/-!
# Texts of absolute paths

The text of a path below an absolute root starts with a stem that depends on the root alone, and
goes on with what depends on the names below it alone. An absolute path can be read back from its
text, and its suffix is that of its last name.
-/

namespace TranslationKeys

namespace Glob

variable {cs : List String}

/-- Joined components are split into themselves. -/
theorem splitAtEach_joined (hcs : cs ≠ []) (h : ∀ c ∈ cs, '/' ∉ c.toList) :
    splitAtEach '/' (joined cs) = cs.map String.toList := by
  induction cs with
  | nil => exact absurd rfl hcs
  | cons c cs ih =>
    obtain ⟨hc, hrest⟩ := List.forall_mem_cons.1 h
    by_cases hnil : cs = []
    · rw [hnil, joined_singleton, splitAtEach_of_notMem hc]
      rfl
    · rw [joined_cons c hnil, splitAtEach_append hc, ih hnil hrest, List.map_cons]

/-- Joined components do not start with a slash. -/
theorem head?_joined_ne_slash (h : ∀ c ∈ cs, c ≠ "" ∧ '/' ∉ c.toList) :
    (joined cs).head? ≠ some '/' := by
  cases cs with
  | nil => simp [joined]
  | cons c cs =>
    obtain ⟨hempty, hslash⟩ := h c List.mem_cons_self
    obtain ⟨a, as, has⟩ := List.exists_cons_of_ne_nil (mt String.toList_eq_nil_iff.1 hempty)
    have hhead : (joined (c :: cs)).head? = some a := by
      by_cases hnil : cs = []
      · rw [hnil, joined_singleton, has, List.head?_cons]
      · rw [joined_cons c hnil, has, List.cons_append, List.head?_cons]
    rw [hhead]
    rintro ⟨rfl⟩
    exact hslash (has ▸ List.mem_cons_self)

end Glob

namespace Path

/-- What the texts of all paths below an absolute root start with. -/
def stem (root : Path) : List Char :=
  root.root.text.toList ++
    if root.components.isEmpty then [] else Glob.joined root.components ++ ['/']

variable {root : Path} {names : List String}

/-- The text of an absolute path. -/
theorem toList_text (habsolute : root.isAbsolute = true) :
    root.text.toList = root.root.text.toList ++ Glob.joined root.components := by
  cases hroot : root.root with
  | relative => simp [isAbsolute, hroot] at habsolute
  | slash | doubleSlash => simp [text, hroot, Glob.joined]

/-- The text of an absolute path is not empty. -/
theorem text_ne_empty (habsolute : root.isAbsolute = true) : root.text ≠ "" := by
  intro hempty
  have htext := toList_text habsolute
  rw [hempty] at htext
  cases hroot : root.root with
  | relative => simp [isAbsolute, hroot] at habsolute
  | slash | doubleSlash => simp [hroot, PathRoot.text] at htext

/-- The text of a path below an absolute root. -/
theorem toList_text_extend (habsolute : root.isAbsolute = true) (hnames : names ≠ []) :
    (Glob.extend root names).text.toList = root.stem ++ Glob.joined names := by
  have habsolute' : (Glob.extend root names).isAbsolute = true := habsolute
  rw [toList_text habsolute', stem]
  by_cases hnil : root.components = []
  · simp [Glob.extend, hnil]
  · simp [Glob.extend, hnil, Glob.joined_append hnil hnames]

/-- The root of a path that starts with one slash. -/
theorem rootOf_slash {cs : List Char} (h : cs.head? ≠ some '/') : rootOf ('/' :: cs) = .slash := by
  cases cs with
  | nil => rfl
  | cons c cs =>
    have hc : c ≠ '/' := fun heq => h (congrArg some heq)
    simp [rootOf, hc]

/-- The root of a path that starts with two slashes. -/
theorem rootOf_doubleSlash {cs : List Char} (h : cs.head? ≠ some '/') :
    rootOf ('/' :: '/' :: cs) = .doubleSlash := by
  cases cs with
  | nil => rfl
  | cons c cs =>
    have hc : c ≠ '/' := fun heq => h (congrArg some heq)
    simp [rootOf, hc]

/-- The components that joined ones are read as. -/
theorem filter_pieces_joined {cs : List String}
    (h : ∀ c ∈ cs, c ≠ "" ∧ c ≠ "." ∧ '/' ∉ c.toList) :
    ((splitAtEach '/' (Glob.joined cs)).map String.ofList).filter
      (fun piece => piece != "" && piece != ".") = cs := by
  by_cases hnil : cs = []
  · subst hnil
    rfl
  · rw [Glob.splitAtEach_joined hnil fun c hc => (h c hc).2.2, List.map_map]
    have hid : (cs.map (String.ofList ∘ String.toList)) = cs := by simp
    rw [hid, List.filter_eq_self]
    intro c hc
    simp [(h c hc).1, (h c hc).2.1]

/-- An absolute path with proper components is read back from its text. -/
theorem ofString_text (habsolute : root.isAbsolute = true)
    (h : ∀ c ∈ root.components, c ≠ "" ∧ c ≠ "." ∧ '/' ∉ c.toList) : ofString root.text = root := by
  have hhead : (Glob.joined root.components).head? ≠ some '/' :=
    Glob.head?_joined_ne_slash fun c hc => ⟨(h c hc).1, (h c hc).2.2⟩
  have hcomponents := filter_pieces_joined h
  obtain ⟨start, components⟩ := root
  unfold ofString slashPieces
  rw [toList_text habsolute]
  cases start with
  | relative => simp [isAbsolute] at habsolute
  | slash =>
    have htext : PathRoot.slash.text.toList = ['/'] := rfl
    simp only [htext, List.singleton_append, rootOf_slash hhead, splitAtEach_cons_self]
    simpa using hcomponents
  | doubleSlash =>
    have htext : PathRoot.doubleSlash.text.toList = ['/', '/'] := rfl
    simp only [htext, List.cons_append, List.nil_append, rootOf_doubleSlash hhead,
      splitAtEach_cons_self]
    simpa using hcomponents

/-- A pattern with wildcards has a component with wildcards. -/
theorem exists_mem_ofString_hasMagic {pattern : String} (h : Glob.hasMagic pattern = true) :
    ∃ c ∈ (ofString pattern).components, Glob.hasMagic c = true := by
  obtain ⟨x, hx, hmagic⟩ := List.any_eq_true.1 h
  have hne : x ≠ '/' := by
    rintro rfl
    exact absurd hmagic (by decide)
  obtain ⟨piece, hpiece, hmem⟩ := exists_mem_splitAtEach hx hne
  have hpieceMagic : Glob.hasMagic (String.ofList piece) = true :=
    List.any_eq_true.2 ⟨x, by simpa using hmem, hmagic⟩
  refine ⟨String.ofList piece, List.mem_filter.2 ⟨List.mem_map_of_mem hpiece, ?_⟩, hpieceMagic⟩
  simp only [Bool.and_eq_true, bne_iff_ne]
  constructor
  · intro hempty
    rw [hempty] at hpieceMagic
    exact absurd hpieceMagic (by decide)
  · intro hpoint
    rw [hpoint] at hpieceMagic
    exact absurd hpieceMagic (by decide)

/-- The name of a path below a root is its last name. -/
theorem name_extend (hnames : names ≠ []) :
    (Glob.extend root names).name = names.getLast hnames := by
  rw [name, Glob.extend, List.getLast?_append_of_ne_nil _ hnames,
    List.getLast?_eq_some_getLast hnames, Option.getD_some]

end Path

end TranslationKeys
