import TranslationKeys.Proofs.Parser.Registrations

/-!
# What parsers make of the path of a file

A parser is handed the path of the file among its options. The bundled parsers look at nothing but
its suffix, which selects a grammar; a catalogue without other parsers resolves every name to a
parser that does so.
-/

namespace TranslationKeys

namespace Value

/-- A value equals a string only if it is that string. -/
theorem same_str_iff {s : String} {v : Value} : same (.str s) v = true ↔ v = .str s := by
  cases v with
  | str t =>
    simp only [same, sameLeaf, number?, beq_iff_eq, str.injEq]
    exact eq_comm
  | _ => simp [same, sameLeaf, number?]

/-- A string key is looked up by equality. -/
theorem lookup?_eq_find? (key : String) (entries : List (Value × Value)) :
    lookup? key entries = (entries.find? fun e => same (.str key) e.1).map Prod.snd := by
  refine congrArg (Option.map Prod.snd) (congrArg (List.find? · entries) (funext fun e => ?_))
  rw [Bool.eq_iff_iff, same_str_iff]
  cases e.1 <;> simp

/-- A key that is entered is found, and every other one is found as before. -/
theorem lookup?_insertEntry (entries : List (Value × Value)) (key other : String) (value : Value) :
    lookup? other (insertEntry entries (.str key) value) =
      if key = other then some value else lookup? other entries := by
  rw [lookup?_eq_find?, lookup?_eq_find?, insertEntry]
  split
  · rename_i hany
    -- Every entry keeps its key, so the same entry is found, with its value replaced or not.
    have hkey : ((fun e : Value × Value => same (.str other) e.1) ∘
        fun e => if same (.str key) e.1 = true then (e.1, value) else e) =
          fun e => same (.str other) e.1 := by
      funext e
      simp only [Function.comp]
      split <;> rfl
    rw [List.find?_map, hkey]
    cases hfound : entries.find? fun e => same (.str other) e.1 with
    | none =>
      have hne : key ≠ other := by
        rintro rfl
        obtain ⟨e, he, hsame⟩ := List.any_eq_true.1 hany
        exact List.find?_eq_none.1 hfound e he hsame
      simp [hne]
    | some e =>
      have hsame : same (.str other) e.1 = true := by simpa using List.find?_some hfound
      simp only [Option.map_some, same_str_iff.1 hsame, same_str_iff, str.injEq]
      by_cases hne : key = other <;> simp [hne, eq_comm]
  · rename_i hany
    have hfresh : entries.find? (fun e => same (.str key) e.1) = none :=
      List.find?_eq_none.2 fun e he hsame => hany (List.any_eq_true.2 ⟨e, he, hsame⟩)
    rw [List.find?_append]
    by_cases hne : key = other
    · subst hne
      simp [hfresh, same_str_iff]
    · have hother : same (.str other) (.str key) = false :=
        Bool.eq_false_iff.2 fun hsame => hne (str.inj (same_str_iff.1 hsame))
      simp [hne, hother]

end Value

namespace ParserOptions

/-- An option that is set has its value. -/
theorem get_set_self (options : ParserOptions) (key : String) (value : Value) :
    (options.set key value).get key = value := by
  simp [get, set, Value.lookup?_insertEntry]

/-- Setting one option leaves the others. -/
theorem get_set_of_ne {key other : String} (h : key ≠ other) (options : ParserOptions)
    (value : Value) : (options.set key value).get other = options.get other := by
  simp [get, set, Value.lookup?_insertEntry, h]

/-- The path that a file is parsed with, none if it has no name. -/
theorem path_forExtraction (options : ParserOptions) (name : String) :
    (options.forExtraction name).path = .ok (if name.isEmpty then none else some name) := by
  unfold path forExtraction
  rw [get_set_self]
  by_cases hempty : name.isEmpty = true <;>
    simp [Value.isTrue, Value.text, hempty, pure, Except.pure, bind, Except.bind]

/-- Apart from its path, a file is parsed with the same options under every name. -/
theorem get_parserKey_forExtraction (options : ParserOptions) (name name' : String) :
    (options.forExtraction name).get parserKey = (options.forExtraction name').get parserKey := by
  have hne : pathKey ≠ parserKey := by decide
  rw [forExtraction, forExtraction, get_set_of_ne hne, get_set_of_ne hne]

/-- The suffix of the path that a file is parsed with. -/
theorem elim_path_forExtraction (options : ParserOptions) (name : String) :
    ∃ path, (options.forExtraction name).path = .ok path ∧
      path.elim "" suffixOf = suffixOf name := by
  refine ⟨_, path_forExtraction options name, ?_⟩
  split
  · rename_i hempty
    rw [String.isEmpty_iff.1 hempty]
    decide +kernel
  · rfl

end ParserOptions

/-- The grammar of a script is chosen by the suffix of the file. -/
theorem GrammarChoice.forFile_forExtraction (p : GrammarChoice) (options : ParserOptions)
    (name : String) :
    p.forFile (options.forExtraction name) =
      .ok (if p.grammar == some Grammar.typescript && suffixOf name == ".tsx" then Grammar.tsx
        else (p.grammar.filter (· != "")).getD (Grammar.ofSuffix (suffixOf name))) := by
  obtain ⟨path, hpath, hsuffix⟩ := options.elim_path_forExtraction name
  have htsx : path.any (suffixOf · == ".tsx") = (suffixOf name == ".tsx") := by
    rw [← hsuffix]
    cases path <;> simp
  have hgrammar : Grammar.ofPath path = Grammar.ofSuffix (suffixOf name) := by
    rw [← hsuffix]
    cases path <;> simp [Grammar.ofPath, Grammar.ofSuffix, Grammar.typedSuffixes]
  unfold forFile
  rw [hpath]
  simp only [bind, Except.bind, htsx, hgrammar]
  split <;> rfl

/-- A parser that looks at nothing of the path of a file but its suffix. -/
def UsableParser.ReadsSuffixOnly (p : UsableParser) : Prop :=
  ∀ (text : String) (options : ParserOptions) {name name' : String},
    suffixOf name = suffixOf name' →
      p.run text (options.forExtraction name) = p.run text (options.forExtraction name')

section Bundled

variable {options : ParserOptions} {name name' : String}

/-- The bundled parsers look at nothing of the path of a file but its suffix. -/
theorem BundledParser.parse_forExtraction (g : Grammars) (p : BundledParser) (text : String)
    (h : suffixOf name = suffixOf name') :
    p.parse g text (options.forExtraction name) = p.parse g text (options.forExtraction name') := by
  have hfile (choice : GrammarChoice) : choice.forFile (options.forExtraction name) =
      choice.forFile (options.forExtraction name') := by
    rw [choice.forFile_forExtraction, choice.forFile_forExtraction, h]
  have hparser := options.get_parserKey_forExtraction name name'
  cases p with
  | script choice => simp only [BundledParser.parse, GrammarChoice.parse, hfile]
  | component =>
    obtain ⟨path, hpath, hsuffix⟩ := options.elim_path_forExtraction name
    obtain ⟨path', hpath', hsuffix'⟩ := options.elim_path_forExtraction name'
    simp only [BundledParser.parse, ComponentParser.parse, hpath, hpath', bind, Except.bind,
      hsuffix, hsuffix', h, ComponentParser.scriptGrammar, ComponentParser.scriptChoice,
      scriptParserOption?, GrammarChoice.parse, hparser, hfile]

/-- Every bundled parser reads suffixes only. -/
theorem UsableParser.readsSuffixOnly_of_bundled {g : Grammars} {b : BundledParser} {label : String}
    {p : UsableParser} (h : ofCandidate? label (Candidate.bundled g b) = some p) :
    p.ReadsSuffixOnly := by
  obtain rfl := Option.some.inj h
  intro text options name name' hsuffix
  simp only [run, BundledParser.parseWithKeys, b.parse_forExtraction g text hsuffix]

end Bundled

namespace Catalogue

/-- Every name resolves to a parser that some name finds, or to the component parser. -/
theorem Setup.forall_resolve {s : Setup} {P : UsableParser → Prop}
    (h : ∀ name p, s.usable? [] name = some p → P p)
    (hcomponent : P (UsableParser.component s.grammars)) (name : Option String) :
    P (s.start.resolve name).2 := by
  rw [(reflects_start s).resolve_eq name]
  cases hfound : ((name.filter (· != "")).bind (s.usable? [])).or (s.usable? [] s.default) with
  | none => exact hcomponent
  | some p =>
    rcases Option.or_eq_some_iff.1 hfound with hp | ⟨-, hp⟩
    · obtain ⟨name, -, hp⟩ := Option.bind_eq_some_iff.1 hp
      exact h name p hp
    · exact h s.default p hp

/-- A catalogue with the bundled parsers alone resolves every name to a parser that reads suffixes
only. -/
theorem readsSuffixOnly_resolve_new (g : Grammars) (default : String) (usesPlugins : Bool)
    (name : Option String) :
    ((new g [] (.grouped []) default usesPlugins).resolve name).2.ReadsSuffixOnly := by
  let s : Setup := ⟨g, [], .grouped [], default, usesPlugins⟩
  refine s.forall_resolve (P := UsableParser.ReadsSuffixOnly) (fun name p hp => ?_) ?_ name
  · obtain ⟨c, hc, hp⟩ := Option.bind_eq_some_iff.1 hp
    have hfound : s.found = [] := by
      unfold Setup.found
      split <;> rfl
    have hbundled : (bundledParsers.lookup name).map (Candidate.bundled g) = some c := by
      simpa [Setup.candidate?, Setup.explicit?, hfound, s] using hc
    obtain ⟨b, -, rfl⟩ := Option.map_eq_some_iff.1 hbundled
    exact UsableParser.readsSuffixOnly_of_bundled hp
  · exact UsableParser.readsSuffixOnly_of_bundled (b := .component) rfl

end Catalogue

end TranslationKeys
