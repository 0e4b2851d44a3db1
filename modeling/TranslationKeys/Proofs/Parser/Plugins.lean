import TranslationKeys.Parser.Catalogue

/-!
# Reading plugins

A catalogue reads its plugins when it first needs them. Which parser a name resolves to is the same
before and after, and resolving changes a catalogue in no other way.
-/

namespace TranslationKeys.Catalogue

/-- A name that stands for something keeps standing for it when candidates are added. -/
theorem lookup_foldl_putIfAbsent {name : String} {c : Candidate}
    {found candidates : List (String × Candidate)} (h : candidates.lookup name = some c) :
    (found.foldl (fun cs entry => putIfAbsent cs entry.1 entry.2) candidates).lookup name =
      some c := by
  induction found generalizing candidates with
  | nil => exact h
  | cons entry found ih =>
    apply ih
    simp only [putIfAbsent]
    split
    · exact h
    · rw [List.lookup_append, h]
      rfl

/-- What a name stands for is not changed by reading the plugins. -/
theorem find?_readPlugins {r : Catalogue} {name : String} {c : Candidate}
    (h : r.find? name = some c) : r.readPlugins.find? name = some c := by
  unfold readPlugins
  split
  · exact h
  · obtain ⟨hlookup, hc⟩ := Option.filter_eq_some_iff.1 h
    exact Option.filter_eq_some_iff.2 ⟨lookup_foldl_putIfAbsent hlookup, hc⟩

/-- Plugins are read only once. -/
theorem readPlugins_readPlugins (r : Catalogue) : r.readPlugins.readPlugins = r.readPlugins := by
  by_cases h : (!r.usesPlugins || r.pluginsRead) = true
  · simp only [readPlugins, h, if_true]
  · simp [readPlugins, h]

/-- Reading the plugins keeps the name of the default parser and the grammars. -/
theorem readPlugins_default (r : Catalogue) :
    r.readPlugins.default = r.default ∧ r.readPlugins.grammars = r.grammars := by
  unfold readPlugins
  split <;> exact ⟨rfl, rfl⟩

/-- Looking up a name reads the plugins or changes nothing. -/
theorem lookup_fst (r : Catalogue) (name : String) :
    (r.lookup name).1 = r ∨ (r.lookup name).1 = r.readPlugins := by
  unfold lookup
  split
  · exact .inr rfl
  · exact .inl rfl

/-- A name finds the same parser before and after the plugins are read. -/
theorem lookup_readPlugins (r : Catalogue) (name : String) :
    (r.readPlugins.lookup name).2 = (r.lookup name).2 := by
  cases hfind : r.find? name with
  | some c =>
    have hfind' := find?_readPlugins hfind
    simp [lookup, hfind, hfind']
  | none =>
    have hread : (r.lookup name).2 =
        (r.readPlugins.find? name).bind (UsableParser.ofCandidate? name) := by simp [lookup, hfind]
    rw [hread, lookup]
    split <;> simp only [readPlugins_readPlugins]

/-- The default parser is the same before and after the plugins are read. -/
theorem resolveDefault_readPlugins (r : Catalogue) :
    r.readPlugins.resolveDefault.2 = r.resolveDefault.2 := by
  have hgrammars {r' : Catalogue} (h : r' = r ∨ r' = r.readPlugins) : r'.grammars = r.grammars := by
    rcases h with rfl | rfl
    · rfl
    · exact r.readPlugins_default.2
  have hread := r.readPlugins.lookup_fst r.default
  rw [readPlugins_readPlugins, or_self] at hread
  simp only [resolveDefault, r.readPlugins_default.1, lookup_readPlugins,
    hgrammars (r.lookup_fst r.default), hgrammars (.inr hread)]

/-- Resolving the default parser reads the plugins or changes nothing. -/
theorem resolveDefault_fst (r : Catalogue) :
    r.resolveDefault.1 = r ∨ r.resolveDefault.1 = r.readPlugins :=
  r.lookup_fst r.default

/-- A name resolves to the parser it finds, and to the default parser if it finds none. -/
theorem resolve_eq (r : Catalogue) (name : Option String) :
    r.resolve name = match name.filter (· != "") with
      | none => r.resolveDefault
      | some name => match (r.lookup name).2 with
        | some parser => ((r.lookup name).1, parser)
        | none => (r.lookup name).1.resolveDefault := by
  unfold resolve
  cases name.filter (· != "") with
  | none => rfl
  | some name =>
    simp only
    rcases r.lookup name with ⟨r', _ | parser⟩ <;> rfl

/-- A name resolves to the same parser before and after the plugins are read. -/
theorem resolve_readPlugins (r : Catalogue) (name : Option String) :
    (r.readPlugins.resolve name).2 = (r.resolve name).2 := by
  rw [resolve_eq, resolve_eq]
  cases name.filter (· != "") with
  | none => exact r.resolveDefault_readPlugins
  | some name =>
    have hread := r.readPlugins.lookup_fst name
    rw [readPlugins_readPlugins, or_self] at hread
    simp only [lookup_readPlugins, hread]
    cases (r.lookup name).2 with
    | some parser => rfl
    | none =>
      rcases r.lookup_fst name with h | h
      · rw [h]
        exact r.resolveDefault_readPlugins
      · rw [h]

/-- Resolving a name reads the plugins or changes nothing. -/
theorem resolve_fst (r : Catalogue) (name : Option String) :
    (r.resolve name).1 = r ∨ (r.resolve name).1 = r.readPlugins := by
  rw [resolve_eq]
  cases name.filter (· != "") with
  | none => exact r.resolveDefault_fst
  | some name =>
    have hlookup := r.lookup_fst name
    cases hfound : (r.lookup name).2 with
    | some parser => simpa only [hfound] using hlookup
    | none =>
      simp only [hfound]
      rcases hlookup with h | h
      · rw [h]
        exact r.resolveDefault_fst
      · rw [h]
        have hread := r.readPlugins.resolveDefault_fst
        rw [readPlugins_readPlugins, or_self] at hread
        exact .inr hread

end TranslationKeys.Catalogue
