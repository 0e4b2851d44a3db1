import TranslationKeys.Path.Pattern
import TranslationKeys.Proofs.Path.Wildcards

/-!
# Patterns that name a directory

A pattern without wildcards names a directory by its path, with or without a slash at the end. If
there is a slash in it, it matches what lies below the directory, and nothing elsewhere. A single
name without a slash is looked for among the last components of paths instead, at any depth, so it
does not stand for what lies below a directory of that name.
-/

namespace TranslationKeys

/-- What is left of a list without its ends was in the list. -/
theorem mem_of_mem_trimBy {α : Type} {drops : α → Bool} {xs : List α} {x : α}
    (h : x ∈ trimBy drops xs) : x ∈ xs := by
  rw [trimBy, List.mem_reverse] at h
  have hfront := (List.dropWhile_sublist drops).subset h
  exact (List.dropWhile_sublist drops).subset (List.mem_reverse.1 hfront)

namespace PathPattern

/-- A pattern with forward slashes, without surrounding blanks and leading `./`. -/
def cleaned (pattern : List Char) : List Char :=
  dropCurrent (trimBlanks (pattern.map fun c => if c == '\\' then '/' else c))

/-- Whether a cleaned pattern ends in a slash. -/
def EndsInSlash (pattern : List Char) : Prop :=
  (cleaned pattern).getLast? = some '/'

instance (pattern : List Char) : Decidable (EndsInSlash pattern) :=
  inferInstanceAs (Decidable (_ = _))

/-- The path of the directory that a pattern without wildcards names: the cleaned pattern without a
slash at its end. -/
def directory (pattern : List Char) : List Char :=
  if EndsInSlash pattern then (cleaned pattern).dropLast else cleaned pattern

variable {pattern : List Char}

/-- A pattern is normalised by cleaning it and making a slash at the end match everything below. -/
theorem normalise_eq (pattern : List Char) :
    normalise pattern =
      if EndsInSlash pattern then cleaned pattern ++ ['*', '*'] else cleaned pattern := by
  simp only [normalise, EndsInSlash, cleaned, beq_iff_eq]

/-- What is left without a leading `./` is an end of the whole. -/
theorem dropCurrent_suffix (cs : List Char) : dropCurrent cs <:+ cs := by
  fun_induction dropCurrent cs with
  | case1 rest ih => exact ih.trans ⟨['.', '/'], rfl⟩
  | case2 cs => exact List.suffix_refl cs

/-- A cleaned pattern is made of characters of the pattern and of slashes. -/
theorem mem_or_eq_slash_of_mem_cleaned {c : Char} (h : c ∈ cleaned pattern) :
    c ∈ pattern ∨ c = '/' := by
  have hslashed := mem_of_mem_trimBy ((dropCurrent_suffix _).subset h)
  obtain ⟨d, hd, rfl⟩ := List.mem_map.1 hslashed
  split
  · exact .inr rfl
  · exact .inl hd

/-- Cleaning a pattern leaves it without wildcards. -/
theorem hasMagic_cleaned (h : Wildcard.hasMagic pattern = false) :
    Wildcard.hasMagic (cleaned pattern) = false := by
  refine List.any_eq_false.2 fun c hc => ?_
  rcases mem_or_eq_slash_of_mem_cleaned hc with hmem | rfl
  · exact List.any_eq_false.1 h c hmem
  · decide

/-- A cleaned pattern that ends in a slash is the path of the directory and the slash. -/
theorem cleaned_of_endsInSlash (h : EndsInSlash pattern) :
    cleaned pattern = directory pattern ++ ['/'] := by
  rw [directory, if_pos h]
  exact (List.dropLast_append_getLast? '/' h).symm

/-- The path of the directory has no wildcards. -/
theorem hasMagic_directory (h : Wildcard.hasMagic pattern = false) :
    Wildcard.hasMagic (directory pattern) = false := by
  refine List.any_eq_false.2 fun c hc => List.any_eq_false.1 (hasMagic_cleaned h) c ?_
  unfold directory at hc
  split at hc
  · exact List.dropLast_subset _ hc
  · exact hc

/-- A pattern with a slash that does not start with a wildcard matches a whole relative path, or,
without any wildcards, what lies below it. -/
theorem matchesNormalised_iff {relative : List Char} (hmem : '/' ∈ pattern)
    (hhead : pattern.head? ≠ some '*') :
    matchesNormalised relative pattern = true ↔
      Wildcard.matchesText pattern relative = true ∨
        (Wildcard.hasMagic pattern = false ∧ isBelow relative pattern = true) := by
  have hne : pattern ≠ [] := List.ne_nil_of_mem hmem
  unfold matchesNormalised
  rw [if_neg (by simpa using hne), if_neg (by simpa using hmem)]
  split
  · exact absurd rfl hhead
  · simp

/-- A plain text does not start with a wildcard. -/
theorem head?_ne_of_plain {first : List Char} (hne : first ≠ [])
    (h : Wildcard.hasMagic first = false) (second : List Char) :
    (first ++ second).head? ≠ some '*' := by
  obtain ⟨c, cs, rfl⟩ := List.exists_cons_of_ne_nil hne
  rintro ⟨rfl⟩
  exact List.any_eq_false.1 h '*' List.mem_cons_self rfl

/-- A path lies below a directory if its text goes on with a slash after that of the directory. -/
theorem isBelow_iff {relative directory : List Char} (h : directory.getLast? ≠ some '/') :
    isBelow relative directory = true ↔ ∃ rest, relative = directory ++ '/' :: rest := by
  have htrailing : dropTrailing '/' directory = directory := by
    rw [dropTrailing, List.reverse_eq_iff]
    refine List.dropWhile_eq_self_iff.2 fun hlength heq => h ?_
    rw [List.getLast?_eq_head?_reverse, List.head?_eq_getElem?, List.getElem?_eq_getElem hlength]
    exact congrArg some (eq_of_beq heq)
  rw [isBelow, htrailing, List.isPrefixOf_iff_prefix]
  constructor
  · rintro ⟨rest, rfl⟩
    exact ⟨rest, by simp⟩
  · rintro ⟨rest, rfl⟩
    exact ⟨rest, by simp⟩

/-- A pattern that ends in a slash matches what lies below its directory. -/
theorem matchesPath_iff_of_endsInSlash (hplain : Wildcard.hasMagic pattern = false)
    (hne : directory pattern ≠ []) (hslash : EndsInSlash pattern) {relative : List Char} :
    matchesPath relative pattern = true ↔ ∃ rest, relative = directory pattern ++ '/' :: rest := by
  have hnormal : normalise pattern = directory pattern ++ ['/', '*', '*'] := by
    rw [normalise_eq, if_pos hslash, cleaned_of_endsInSlash hslash, List.append_assoc]
    rfl
  have hmagic : Wildcard.hasMagic (directory pattern ++ ['/', '*', '*']) = true := by
    simp [Wildcard.hasMagic, Wildcard.isMagic]
  have hstem : Wildcard.hasMagic (directory pattern ++ ['/']) = false :=
    cleaned_of_endsInSlash hslash ▸ hasMagic_cleaned hplain
  have hbelow := Wildcard.matchesText_append_of_plain hstem ['*', '*'] relative
  have hhead := head?_ne_of_plain hne (hasMagic_directory hplain) ['/', '*', '*']
  rw [matchesPath, hnormal, matchesNormalised_iff (by simp) hhead, hmagic]
  simpa [Wildcard.matchesText_runs] using hbelow

/-- A path with a slash in it, but none at its end, matches itself and what lies below it. -/
theorem matchesPath_iff_of_mem_slash (hplain : Wildcard.hasMagic pattern = false)
    (hend : (directory pattern).getLast? ≠ some '/') (hslash : ¬ EndsInSlash pattern)
    (hmem : '/' ∈ directory pattern) {relative : List Char} :
    matchesPath relative pattern = true ↔
      relative = directory pattern ∨ ∃ rest, relative = directory pattern ++ '/' :: rest := by
  have hdirectory := hasMagic_directory hplain
  have hnormal : normalise pattern = directory pattern := by
    rw [normalise_eq, directory, if_neg hslash, if_neg hslash]
  have hhead : (directory pattern).head? ≠ some '*' := by
    simpa using head?_ne_of_plain (List.ne_nil_of_mem hmem) hdirectory []
  rw [matchesPath, hnormal, matchesNormalised_iff hmem hhead,
    Wildcard.matchesText_iff_of_plain hdirectory, isBelow_iff hend]
  simp [hdirectory]

/-- A single name matches the paths with that last component. -/
theorem matchesPath_iff_of_name (hplain : Wildcard.hasMagic pattern = false)
    (hne : directory pattern ≠ []) (hslash : ¬ EndsInSlash pattern)
    (hmem : '/' ∉ directory pattern) {relative : List Char} :
    matchesPath relative pattern = true ↔
      nameOf relative = directory pattern ∨ relative = directory pattern := by
  have hdirectory := hasMagic_directory hplain
  have hnormal : normalise pattern = directory pattern := by
    rw [normalise_eq, directory, if_neg hslash, if_neg hslash]
  have hself (cs : List Char) : Wildcard.matchesText (directory pattern) cs = true ↔
      cs = directory pattern := Wildcard.matchesText_iff_of_plain hdirectory
  unfold matchesPath matchesNormalised
  rw [hnormal, if_neg (by simpa using hne), if_pos (by simpa using hmem)]
  simp [hself]

/-- Patterns that name a directory cover what lies below it. Let a pattern have no wildcards, and
let the path of its directory be there and not end in a slash. With a slash in the path or at its
end, the pattern matches every path below the directory. With a slash in the path, it matches no
other paths than the directory itself and those below it; with a slash at the end, none but those
below it. A single name without a slash matches exactly the paths with that last component. -/
theorem matchesPath_directory (hplain : Wildcard.hasMagic pattern = false)
    (hne : directory pattern ≠ []) (hend : (directory pattern).getLast? ≠ some '/') :
    ('/' ∈ directory pattern ∨ EndsInSlash pattern →
        ∀ rest, matchesPath (directory pattern ++ '/' :: rest) pattern = true) ∧
      ('/' ∈ directory pattern ∨ EndsInSlash pattern →
        ∀ relative, matchesPath relative pattern = true →
          (¬ EndsInSlash pattern ∧ relative = directory pattern) ∨
            ∃ rest, relative = directory pattern ++ '/' :: rest) ∧
      (¬ ('/' ∈ directory pattern ∨ EndsInSlash pattern) →
        ∀ relative, matchesPath relative pattern = true ↔
          nameOf relative = directory pattern ∨ relative = directory pattern) := by
  by_cases hslash : EndsInSlash pattern
  · refine ⟨fun _ rest => ?_, fun _ relative h => .inr ?_, fun hno => absurd (.inr hslash) hno⟩
    · exact (matchesPath_iff_of_endsInSlash hplain hne hslash).2 ⟨rest, rfl⟩
    · exact (matchesPath_iff_of_endsInSlash hplain hne hslash).1 h
  · refine ⟨fun hor rest => ?_, fun hor relative h => ?_, fun hno relative => ?_⟩
    · have hmem := hor.resolve_right hslash
      exact (matchesPath_iff_of_mem_slash hplain hend hslash hmem).2 (.inr ⟨rest, rfl⟩)
    · have hmem := hor.resolve_right hslash
      have hcases := (matchesPath_iff_of_mem_slash hplain hend hslash hmem).1 h
      exact hcases.imp_left fun heq => ⟨hslash, heq⟩
    · exact matchesPath_iff_of_name hplain hne hslash fun hmem => hno (.inl hmem)

/-- A pattern with blanks around it, backslashes and one at the end covers its directory, and not a
directory whose name only starts alike. -/
theorem matchesPath_directory_sampleGenerated :
    matchesPath "src/generated/a.vue".toList " .\\src\\generated\\ ".toList = true ∧
      matchesPath "src/generated-extra/a.vue".toList " .\\src\\generated\\ ".toList = false := by
  have hplain : Wildcard.hasMagic " .\\src\\generated\\ ".toList = false := by decide +kernel
  have hdirectory : directory " .\\src\\generated\\ ".toList = "src/generated".toList := by
    decide +kernel
  obtain ⟨hbelow, honly, -⟩ := matchesPath_directory hplain (by decide +kernel) (by decide +kernel)
  rw [hdirectory] at hbelow honly
  refine ⟨hbelow (by decide) "a.vue".toList, Bool.eq_false_iff.2 fun h => ?_⟩
  rcases honly (by decide) _ h with ⟨-, heq⟩ | ⟨rest, heq⟩
  · exact absurd heq (by decide)
  · exact absurd (congrArg (List.take 14) heq) (by simp)

/-- A single name does not match what lies below a directory of that name. -/
theorem not_matchesPath_below_name :
    Wildcard.hasMagic "src".toList = false ∧ directory "src".toList = "src".toList ∧
      matchesPath ("src".toList ++ '/' :: "a.js".toList) "src".toList = false := by
  decide +kernel

end PathPattern

end TranslationKeys
