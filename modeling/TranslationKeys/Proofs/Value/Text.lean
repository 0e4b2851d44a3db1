import TranslationKeys.Proofs.Causes
import TranslationKeys.Value

/-!
# Values that have a text

Only an integer with too many digits has no text. A value without such an integer in any of its
parts has one, and so has every value that is reached from it.
-/

namespace TranslationKeys

/-- An integer of at most as many digits as can be written. It is kept closed: the bound is too
large to be worked out. -/
@[irreducible] def Integer.isShort (i : Int) : Bool :=
  decide (i.natAbs < Nat.pow 10 maxDigits)

/-- An integer is short if it is below the bound. -/
theorem Integer.isShort_iff {i : Int} : isShort i = true ↔ i.natAbs < Nat.pow 10 maxDigits := by
  unfold isShort
  exact decide_eq_true_iff

/-- An integer is short if it has at most as many digits as some number within the bound. -/
theorem Integer.isShort_of_lt {i : Int} {k : Nat} (h : i.natAbs < Nat.pow 10 k)
    (hk : k ≤ maxDigits) : isShort i = true := by
  have hbound {m : Nat} (hm : k ≤ m) : i.natAbs < Nat.pow 10 m :=
    Nat.lt_of_lt_of_le h (Nat.pow_le_pow_right (by decide) hm)
  exact isShort_iff.2 (hbound hk)

/-- A short integer has a text. -/
theorem Integer.text?_of_isShort {i : Int} (h : isShort i = true) :
    text? i = some (String.ofList (digitsOf i)) := by
  rw [text?]
  exact if_pos (isShort_iff.1 h)

namespace Value

mutual

/-- Whether all integers in a value are short, those in its keys included. -/
def hasShortIntegers : Value → Bool
  | int i => Integer.isShort i
  | list items => haveShortIntegers items
  | tuple items => haveShortIntegers items
  | map entries => entriesHaveShortIntegers entries
  | set items => haveShortIntegers items
  | frozenSet items => haveShortIntegers items
  | _ => true

/-- Whether all integers in the values of a list are short. -/
def haveShortIntegers : List Value → Bool
  | [] => true
  | v :: vs => hasShortIntegers v && haveShortIntegers vs

/-- Whether all integers in the keys and values of a mapping are short. -/
def entriesHaveShortIntegers : List (Value × Value) → Bool
  | [] => true
  | (k, v) :: entries =>
    hasShortIntegers k && hasShortIntegers v && entriesHaveShortIntegers entries

end

/-- The integers of a list of values are short if those of each value are. -/
theorem haveShortIntegers_iff {vs : List Value} :
    haveShortIntegers vs = true ↔ ∀ v ∈ vs, v.hasShortIntegers = true := by
  induction vs with
  | nil => simp [haveShortIntegers]
  | cons v vs ih => simp [haveShortIntegers, ih]

/-- The integers of the entries of a mapping are short if those of each key and value are. -/
theorem entriesHaveShortIntegers_iff {entries : List (Value × Value)} :
    entriesHaveShortIntegers entries = true ↔
      ∀ entry ∈ entries, entry.1.hasShortIntegers = true ∧ entry.2.hasShortIntegers = true := by
  induction entries with
  | nil => simp [entriesHaveShortIntegers]
  | cons entry entries ih => simp [entriesHaveShortIntegers, ih]

/-- The integers in the values of a mapping with short integers are short. -/
theorem hasShortIntegers_of_mem_map {entries : List (Value × Value)} {k v : Value}
    (h : (map entries).hasShortIntegers = true) (hv : (k, v) ∈ entries) :
    v.hasShortIntegers = true := by
  rw [hasShortIntegers, entriesHaveShortIntegers_iff] at h
  exact (h (k, v) hv).2

/-- An integer with a text is shown by it. -/
theorem shown_int {i : Int} {s : String} (h : Integer.text? i = some s) :
    (int i).shown = .ok s := by
  unfold shown
  simp only [h]

mutual

/-- A value with short integers can be shown. -/
theorem exists_shown : ∀ {v : Value}, v.hasShortIntegers = true → ∃ s, v.shown = .ok s
  | null, _ | bool _, _ | float _, _ | str _, _ | moment _, _ | bytes _ _, _ | object _, _ =>
    ⟨_, rfl⟩
  | int i, h => by
    rw [hasShortIntegers] at h
    exact ⟨_, shown_int (Integer.text?_of_isShort h)⟩
  | list items, h | tuple items, h | set items, h | frozenSet items, h => by
    rw [hasShortIntegers] at h
    obtain ⟨parts, hparts⟩ := exists_shownItems h
    exact ⟨_, by unfold shown; rw [hparts]; rfl⟩
  | map entries, h => by
    rw [hasShortIntegers] at h
    obtain ⟨parts, hparts⟩ := exists_shownEntries h
    exact ⟨_, by unfold shown; rw [hparts]; rfl⟩

/-- Items with short integers can be shown. -/
theorem exists_shownItems : ∀ {vs : List Value}, haveShortIntegers vs = true →
    ∃ parts, shownItems vs = .ok parts
  | [], _ => ⟨[], rfl⟩
  | v :: vs, h => by
    rw [haveShortIntegers, Bool.and_eq_true] at h
    obtain ⟨s, hs⟩ := exists_shown h.1
    obtain ⟨parts, hparts⟩ := exists_shownItems h.2
    exact ⟨s :: parts, by rw [shownItems, hs, hparts]; rfl⟩

/-- Entries with short integers can be shown. -/
theorem exists_shownEntries : ∀ {entries : List (Value × Value)},
    entriesHaveShortIntegers entries = true → ∃ parts, shownEntries entries = .ok parts
  | [], _ => ⟨[], rfl⟩
  | (k, v) :: entries, h => by
    rw [entriesHaveShortIntegers, Bool.and_eq_true, Bool.and_eq_true] at h
    obtain ⟨key, hkey⟩ := exists_shown h.1.1
    obtain ⟨s, hs⟩ := exists_shown h.1.2
    obtain ⟨parts, hparts⟩ := exists_shownEntries h.2
    exact ⟨_, by rw [shownEntries, hkey, hs, hparts]; rfl⟩

end

/-- A value with short integers has a text. -/
theorem exists_text {v : Value} (h : v.hasShortIntegers = true) : ∃ s, v.text = .ok s := by
  cases v with
  | str | moment => exact ⟨_, rfl⟩
  | _ => exact exists_shown h

mutual

/-- Showing a value fails only for an integer that is too long. -/
theorem shown_failsOnlyBy : ∀ v : Value, FailsOnlyBy (· = .numeralTooLong) v.shown
  | null | bool _ | float _ | str _ | moment _ | bytes _ _ | object _ => .ok _
  | int i => by
    unfold shown
    split
    · exact .ok _
    · intro e he
      exact (Except.error.inj he).symm
  | list items | tuple items | set items | frozenSet items => by
    unfold shown
    exact .bind (shownItems_failsOnlyBy items) fun _ _ => .pure _
  | map entries => by
    unfold shown
    exact .bind (shownEntries_failsOnlyBy entries) fun _ _ => .pure _

/-- Showing items fails only for an integer that is too long. -/
theorem shownItems_failsOnlyBy : ∀ vs : List Value,
    FailsOnlyBy (· = .numeralTooLong) (shownItems vs)
  | [] => .ok _
  | v :: vs => by
    rw [shownItems]
    exact .bind (shown_failsOnlyBy v) fun _ _ =>
      .bind (shownItems_failsOnlyBy vs) fun _ _ => .pure _

/-- Showing entries fails only for an integer that is too long. -/
theorem shownEntries_failsOnlyBy : ∀ entries : List (Value × Value),
    FailsOnlyBy (· = .numeralTooLong) (shownEntries entries)
  | [] => .ok _
  | (k, v) :: entries => by
    rw [shownEntries]
    exact .bind (shown_failsOnlyBy k) fun _ _ =>
      .bind (shown_failsOnlyBy v) fun _ _ =>
        .bind (shownEntries_failsOnlyBy entries) fun _ _ => .pure _

end

/-- A value has a text unless an integer in it is too long. -/
theorem text_failsOnlyBy (v : Value) : FailsOnlyBy (· = .numeralTooLong) v.text := by
  cases v with
  | str | moment => exact .ok _
  | _ => exact shown_failsOnlyBy _

end Value

/-- A literal has a text unless an integer in it is too long. -/
theorem Scalar.scriptText_failsOnlyBy (value : Scalar) :
    FailsOnlyBy (· = .numeralTooLong) value.scriptText := by
  cases value with
  | int i =>
    unfold scriptText
    simp only
    split
    · exact .ok _
    · intro e he
      exact (Except.error.inj he).symm
  | other v => exact .bind (Value.text_failsOnlyBy v) fun _ _ => .pure _
  | null | bool | float | text => exact .ok _

end TranslationKeys
