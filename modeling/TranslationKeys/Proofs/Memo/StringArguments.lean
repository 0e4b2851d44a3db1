import TranslationKeys.Proofs.Memo.Freezing

/-!
# Strings as arguments

Patterns and extensions are strings or sequences of strings. Calls with such arguments share a key
only if the arguments are the same, up to a list being given for a tuple.
-/

namespace TranslationKeys

/-- Patterns or extensions as they are meant to be given: a string, or a sequence of strings. -/
def Value.IsStrings (v : Value) : Prop :=
  (∃ s, v = .str s) ∨ ∃ names : List String, v.sequenceItems? = some (names.map .str)

/-- Going through a value yields a string. -/
def Value.Yields (v : Value) (s : String) : Prop :=
  ∃ items, v.elements? = some items ∧ .str s ∈ items

/-- What yields strings and nothing else yields these strings. -/
theorem Value.strings?_of_elements? {v : Value} {names : List String}
    (h : v.elements? = some (names.map .str)) : v.strings? = some names := by
  rw [strings?, h, Option.bind_some]
  induction names generalizing v with
  | nil => rfl
  | cons name names ih =>
    rw [List.map_cons, List.mapM_cons, ih (v := .ofStrings names) rfl]
    rfl

/-- A list of strings yields its strings. -/
theorem Value.strings?_ofStrings (names : List String) :
    (Value.ofStrings names).strings? = some names :=
  strings?_of_elements? rfl

/-- Strings yield strings and nothing else: a string yields its characters. -/
theorem Value.IsStrings.exists_elements? {v : Value} (h : v.IsStrings) :
    ∃ names : List String, v.elements? = some (names.map .str) := by
  rcases h with ⟨s, rfl⟩ | ⟨names, hnames⟩
  · exact ⟨s.toList.map String.singleton, by rw [elements?, List.map_map]; rfl⟩
  · cases v with
    | list | tuple =>
      obtain rfl := Option.some.inj hnames
      exact ⟨names, rfl⟩
    | _ => exact nomatch hnames

/-- A list of strings holds its strings. -/
theorem Value.holds?_ofStrings (names : List String) (s : String) :
    (Value.ofStrings names).holds? s = some (names.contains s) := by
  rw [ofStrings, holds?, List.any_map, Option.some.injEq, Bool.eq_iff_iff]
  simp [same, sameLeaf, number?]

/-- Two values are the same, or are sequences of the same items. -/
def Value.SameSequence (v w : Value) : Prop :=
  v = w ∨ ∃ items, v.sequenceItems? = some items ∧ w.sequenceItems? = some items

namespace Value

/-- Sequences of the same items yield the same values. -/
theorem SameSequence.elements?_eq {v w : Value} (h : v.SameSequence w) :
    v.elements? = w.elements? := by
  rcases h with rfl | ⟨items, hv, hw⟩
  · rfl
  · cases v <;> simp only [sequenceItems?, reduceCtorEq, Option.some.injEq] at hv
    all_goals
      subst hv
      cases w <;> simp only [sequenceItems?, reduceCtorEq, Option.some.injEq] at hw
      all_goals
        subst hw
        rfl

/-- Sequences of the same items hold the same strings. -/
theorem SameSequence.holds?_eq {v w : Value} (h : v.SameSequence w) : v.holds? = w.holds? := by
  rcases h with rfl | ⟨items, hv, hw⟩
  · rfl
  · cases v <;> simp only [sequenceItems?, reduceCtorEq, Option.some.injEq] at hv
    all_goals
      subst hv
      cases w <;> simp only [sequenceItems?, reduceCtorEq, Option.some.injEq] at hw
      all_goals
        subst hw
        funext s
        rfl

/-- Only a string equals a string. -/
theorem eq_str_of_same {v : Value} {s : String} (h : same v (.str s) = true) : v = .str s := by
  cases v with
  | str t => simpa [same, sameLeaf, number?] using h
  | list | tuple | map | set | frozenSet => simp [same] at h
  | _ => simp [same, sameLeaf, number?] at h

/-- Only a string freezes to a string. -/
theorem Freezes.eq_str {v : Value} {s : String} (h : Freezes v (.str s)) : v = .str s := by
  have hv := h ""
  cases v with
  | list | tuple =>
    obtain ⟨ys, -, hys⟩ := (freeze_sequence_eq_ok_iff rfl).1 hv
    exact nomatch hys
  | map =>
    obtain ⟨frozen, -, hfrozen⟩ := freeze_map_eq_ok_iff.1 hv
    exact nomatch hfrozen
  | set =>
    obtain ⟨ys, -, hys⟩ := freeze_set_eq_ok_iff.1 hv
    exact nomatch hys
  | bytes changeable =>
    cases changeable <;> simp [freeze] at hv
  | str => simpa [freeze] using hv
  | _ => simp [freeze] at hv

/-- Only a sequence freezes to a tuple, and its items freeze to those of the tuple. -/
theorem Freezes.of_tuple {v : Value} {ys : List Value} (h : Freezes v (.tuple ys)) :
    ∃ xs, v.sequenceItems? = some xs ∧ List.Forall₂ Freezes xs ys := by
  have hv := h ""
  cases v with
  | list xs | tuple xs =>
    obtain ⟨zs, hzs, heq⟩ := (freeze_sequence_eq_ok_iff rfl).1 hv
    obtain rfl := Value.tuple.inj heq
    exact ⟨xs, rfl, hzs.imp fun _ _ => freezes_iff.2⟩
  | map =>
    obtain ⟨frozen, -, hfrozen⟩ := freeze_map_eq_ok_iff.1 hv
    exact nomatch hfrozen
  | set =>
    obtain ⟨zs, -, hzs⟩ := freeze_set_eq_ok_iff.1 hv
    exact nomatch hzs
  | bytes changeable =>
    cases changeable <;> simp [freeze] at hv
  | _ => simp [freeze] at hv

/-- Items that are each related to a string only if they are that string are the strings. -/
theorem eq_map_str_of_forall₂ {r : Value → Value → Prop} {xs : List Value} {names : List String}
    (hr : ∀ {x s}, r x (.str s) → x = .str s) (h : List.Forall₂ r xs (names.map .str)) :
    xs = names.map .str := by
  induction names generalizing xs with
  | nil => exact List.forall₂_nil_right_iff.1 h
  | cons name names ih =>
    obtain ⟨x, rest, hx, hrest, rfl⟩ := List.forall₂_cons_right_iff.1 h
    rw [hr hx, ih hrest, List.map_cons]

/-- Strings freeze. -/
theorem IsStrings.exists_freezes {v : Value} (hv : v.IsStrings) :
    (∃ s, v = .str s ∧ Freezes v (.str s)) ∨
      ∃ names : List String, v.sequenceItems? = some (names.map .str) ∧
        Freezes v (.tuple (names.map .str)) := by
  rcases hv with ⟨s, rfl⟩ | ⟨names, hnames⟩
  · exact .inl ⟨s, rfl, fun _ => rfl⟩
  · refine .inr ⟨names, hnames, fun label => ?_⟩
    refine (freeze_sequence_eq_ok_iff hnames).2 ⟨_, List.forall₂_same.2 fun x hx => ?_, rfl⟩
    obtain ⟨s, -, rfl⟩ := List.mem_map.1 hx
    rfl

/-- A value that freezes to what equals the frozen form of strings is the same sequence. -/
theorem IsStrings.sameSequence {v w a b : Value} (hv : v.IsStrings) (ha : Freezes v a)
    (hb : Freezes w b) (h : same b a = true) : w.SameSequence v := by
  have hunique {w : Value} (hw : Freezes v w) : a = w := Except.ok.inj ((ha "").symm.trans (hw ""))
  rcases hv.exists_freezes with ⟨s, rfl, hs⟩ | ⟨names, hnames, htuple⟩
  · rw [hunique hs] at h
    rw [eq_str_of_same h] at hb
    exact .inl hb.eq_str
  · rw [hunique htuple] at h
    cases b with
    | tuple bs =>
      rw [same, sameItems_iff] at h
      rw [eq_map_str_of_forall₂ eq_str_of_same h] at hb
      obtain ⟨xs, hxs, hfreezes⟩ := hb.of_tuple
      rw [eq_map_str_of_forall₂ Freezes.eq_str hfreezes] at hxs
      exact .inr ⟨_, hxs, hnames⟩
    | list | map | set | frozenSet => simp [same] at h
    | _ => simp [same, sameLeaf, number?] at h

end Value

namespace Arguments

open Value (Freezes)

/-- The key of a call with two arguments is the pair of what they freeze to. -/
theorem key_pair_eq_ok_iff {v w key : Value} :
    Arguments.key { positional := [v, w] } = .ok key ↔
      ∃ a b, Freezes v a ∧ Freezes w b ∧ key = .tuple [a, b] := by
  rw [key_eq_ok_iff]
  constructor
  · intro h
    obtain ⟨positional, keywords, hpositional, hkeywords, rfl⟩ := h
    obtain rfl := List.forall₂_nil_left_iff.1 hkeywords
    obtain ⟨a, rest, ha, hrest, rfl⟩ := List.forall₂_cons_left_iff.1 hpositional
    obtain ⟨b, last, hb, hlast, rfl⟩ := List.forall₂_cons_left_iff.1 hrest
    obtain rfl := List.forall₂_nil_left_iff.1 hlast
    exact ⟨a, b, ha, hb, rfl⟩
  · intro h
    obtain ⟨a, b, ha, hb, rfl⟩ := h
    exact ⟨[a, b], [], .cons ha (.cons hb .nil), .nil, rfl⟩

/-- A call with two arguments that are strings has a key. -/
theorem exists_key_of_isStrings {v w : Value} (hv : v.IsStrings) (hw : w.IsStrings) :
    ∃ key, Arguments.key { positional := [v, w] } = .ok key := by
  have hfreezes {v : Value} (hv : v.IsStrings) : ∃ a, Freezes v a := by
    rcases hv.exists_freezes with ⟨s, -, h⟩ | ⟨names, -, h⟩
    · exact ⟨_, h⟩
    · exact ⟨_, h⟩
  obtain ⟨a, ha⟩ := hfreezes hv
  obtain ⟨b, hb⟩ := hfreezes hw
  exact ⟨_, key_pair_eq_ok_iff.2 ⟨a, b, ha, hb, rfl⟩⟩

/-- A call shares its key with a call on strings only if its arguments are the same sequences. -/
theorem sameSequence_of_key {v w v' w' key key' : Value} (hv : v.IsStrings) (hw : w.IsStrings)
    (hkey : Arguments.key { positional := [v, w] } = .ok key)
    (hkey' : Arguments.key { positional := [v', w'] } = .ok key') (h : (key' == key) = true) :
    v'.SameSequence v ∧ w'.SameSequence w := by
  obtain ⟨a, b, ha, hb, rfl⟩ := key_pair_eq_ok_iff.1 hkey
  obtain ⟨a', b', ha', hb', rfl⟩ := key_pair_eq_ok_iff.1 hkey'
  have hparts : Value.same a' a = true ∧ Value.same b' b = true := by
    simpa [BEq.beq, Value.same, Value.sameItems] using h
  exact ⟨hv.sameSequence ha ha' hparts.1, hw.sameSequence hb hb' hparts.2⟩

end Arguments

end TranslationKeys
