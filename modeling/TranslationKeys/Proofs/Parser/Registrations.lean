import TranslationKeys.Proofs.Lookups
import TranslationKeys.Proofs.Parser.Plugins
import TranslationKeys.Proofs.Text.Order
import Mathlib.Data.List.Dedup

/-!
# Plugins are read without a trace

A catalogue reads its plugins late, when a request first needs them, and what they add depends on
the names that are taken by then. Still no request can tell when they were read: what a name stands
for follows from how the catalogue was set up and from the registrations made so far. The last
registration of the name comes first, then the entry it was set up with, the bundled parser, and the
first plugin of that name that loads.
-/

namespace TranslationKeys

/-- Names have one ascending order, whatever order they come in. -/
theorem sortedStrings_eq_of_perm {ss ts : List String} (h : ss.Perm ts) :
    sortedStrings ss = sortedStrings ts := by
  have hordered (names : List String) : (sortedStrings names).Pairwise fun a b =>
      Text.le (Text.ofString a) (Text.ofString b) = true := Text.pairwise_mergeSort id names
  have hperm : (sortedStrings ss).Perm (sortedStrings ts) :=
    (List.mergeSort_perm _ _).trans (h.trans (List.mergeSort_perm _ _).symm)
  refine hperm.eq_of_pairwise (fun a b _ _ hab hba => ?_) (hordered ss) (hordered ts)
  exact Text.ofString_injective (Text.le_antisymm hab hba)

namespace Catalogue

/-- How a catalogue is set up. -/
structure Setup where
  /-- The grammars of the bundled parsers. -/
  grammars : Grammars
  /-- The parsers put over the bundled ones. -/
  parsers : List (String × Candidate)
  /-- Where plugins come from. -/
  plugins : PluginSource
  /-- The name of the parser to fall back to. -/
  default : String
  /-- Whether plugins are used. -/
  usesPlugins : Bool

/-- The catalogue as it is set up. -/
def Setup.start (s : Setup) : Catalogue :=
  new s.grammars s.parsers s.plugins s.default s.usesPlugins

/-- What a catalogue is asked to do. -/
inductive Request where
  /-- To register a parser. -/
  | register (name : String) (candidate : Candidate)
  /-- To look a name up. -/
  | lookup (name : String)
  /-- To resolve a name, if one is given. -/
  | resolve (name : Option String)
  /-- To list the names. -/
  | names

/-- What a catalogue answers. -/
inductive Answer where
  /-- Nothing: a parser was registered. -/
  | registered
  /-- The parser that a name finds, if it finds one. -/
  | found (parser : Option UsableParser)
  /-- The parser that a name resolves to. -/
  | resolved (parser : UsableParser)
  /-- The names in order. -/
  | listed (names : List String)

/-- The catalogue after a request, and its answer. -/
def perform (r : Catalogue) : Request → Catalogue × Answer
  | .register name candidate => (r.register name candidate, .registered)
  | .lookup name => ((r.lookup name).1, .found (r.lookup name).2)
  | .resolve name => ((r.resolve name).1, .resolved (r.resolve name).2)
  | .names => (r.names.1, .listed r.names.2)

/-- The catalogue after a list of requests. -/
def after (r : Catalogue) (requests : List Request) : Catalogue :=
  requests.foldl (fun r request => (r.perform request).1) r

/-- The registrations among a list of requests, in order. -/
def registrations (requests : List Request) : List (String × Candidate) :=
  requests.filterMap fun
    | .register name candidate => some (name, candidate)
    | _ => none

/-- The registrations of two lists of requests, one after the other. -/
theorem registrations_append (first second : List Request) :
    registrations (first ++ second) = registrations first ++ registrations second :=
  List.filterMap_append

namespace Setup

variable (s : Setup) (registered : List (String × Candidate))

/-- What a name stands for without plugins: what it was last registered as, what it was set up with,
or the bundled parser of that name. -/
def explicit? (name : String) : Option Candidate :=
  (registered.reverse.lookup name).or <| (s.parsers.reverse.lookup name).or <|
    (bundledParsers.lookup name).map (Candidate.bundled s.grammars)

/-- The plugins that load, in order; none if plugins are not used. -/
def found : List (String × Candidate) :=
  if s.usesPlugins then s.plugins.loaded parserGroup else []

/-- What a name stands for: what it stands for without plugins, or else the first plugin of that
name that loads. -/
def candidate? (name : String) : Option Candidate :=
  (s.explicit? registered name).or (s.found.lookup name)

/-- The parser of a name, if what it stands for can be used. -/
def usable? (name : String) : Option UsableParser :=
  (s.candidate? registered name).bind (UsableParser.ofCandidate? name)

/-- The names that stand for something, each once. -/
def knownNames : List String :=
  ((registered ++ s.parsers).map Prod.fst ++ bundledParsers.map Prod.fst ++
    s.found.map Prod.fst).dedup

/-- The answer to a request, given the registrations before it. A name that is empty counts as
none. -/
def answer : Request → Answer
  | .register _ _ => .registered
  | .lookup name => .found (s.usable? registered name)
  | .resolve name => .resolved <|
    (((name.filter (· != "")).bind (s.usable? registered)).or
      (s.usable? registered s.default)).getD (UsableParser.component s.grammars)
  | .names => .listed (sortedStrings (s.knownNames registered))

end Setup

section Candidates

/-- A candidate that is put is found under its name, and all others as before. -/
theorem lookup_put (candidates : List (String × Candidate)) (name other : String) (c : Candidate) :
    (put candidates name c).lookup other =
      if other = name then some c else candidates.lookup other := by
  have hfilter : (candidates.filter (·.1 != name)).lookup other =
      if other = name then none else candidates.lookup other := by
    induction candidates with
    | nil => simp
    | cons entry candidates ih =>
      rw [List.filter_cons]
      split
      · rename_i hne
        have hne : entry.1 ≠ name := by simpa using hne
        rw [lookup_cons_eq, lookup_cons_eq, ih]
        grind
      · rename_i heq
        have heq : entry.1 = name := by simpa using heq
        rw [lookup_cons_eq, ih]
        grind
  rw [put, List.lookup_append, hfilter, lookup_cons_eq]
  split <;> simp

/-- Candidates put one after the other are found by the last of their name. -/
theorem lookup_foldl_put (candidates entries : List (String × Candidate)) (name : String) :
    (entries.foldl (fun cs entry => put cs entry.1 entry.2) candidates).lookup name =
      (entries.reverse.lookup name).or (candidates.lookup name) :=
  lookup_foldl_of_lookup_put (fun cs entry name => lookup_put cs entry.1 name entry.2) candidates
    entries name

/-- A candidate that is put if its name is not taken is found after all others. -/
theorem lookup_putIfAbsent (candidates : List (String × Candidate)) (name other : String)
    (c : Candidate) :
    (putIfAbsent candidates name c).lookup other =
      (candidates.lookup other).or (if other = name then some c else none) := by
  unfold putIfAbsent
  split
  · rename_i htaken
    split
    · rename_i heq
      obtain ⟨entry, hentry, hname⟩ := List.any_eq_true.1 htaken
      have htaken : (candidates.lookup other).isSome = true :=
        isSome_lookup_iff.2 (List.mem_map.2 ⟨entry, hentry, (eq_of_beq hname).trans heq.symm⟩)
      obtain ⟨found, hfound⟩ := Option.isSome_iff_exists.1 htaken
      simp [hfound]
    · simp
  · rw [List.lookup_append, lookup_cons_eq]
    simp

/-- Candidates put one after the other where their names are not taken are found after those
before, by the first of their name. -/
theorem lookup_foldl_putIfAbsent_eq (candidates found : List (String × Candidate)) (name : String) :
    (found.foldl (fun cs entry => putIfAbsent cs entry.1 entry.2) candidates).lookup name =
      (candidates.lookup name).or (found.lookup name) := by
  induction found generalizing candidates with
  | nil => simp
  | cons entry found ih =>
    rw [List.foldl_cons, ih, lookup_putIfAbsent, Option.or_assoc, lookup_cons_eq]
    split <;> simp

/-- Candidates whose names are all different, with one more whose name is not taken. -/
theorem nodup_append_singleton {candidates : List (String × Candidate)} {name : String}
    {c : Candidate} (h : (candidates.map Prod.fst).Nodup) (hfree : name ∉ candidates.map Prod.fst) :
    ((candidates ++ [(name, c)]).map Prod.fst).Nodup := by
  rw [List.map_append, List.nodup_append']
  exact ⟨h, by simp, by simpa using hfree⟩

/-- Putting a candidate keeps the names apart. -/
theorem nodup_put {candidates : List (String × Candidate)} (name : String) (c : Candidate)
    (h : (candidates.map Prod.fst).Nodup) : ((put candidates name c).map Prod.fst).Nodup :=
  nodup_append_singleton (h.sublist (List.filter_sublist.map _)) (by simp)

/-- Putting candidates one after the other keeps the names apart. -/
theorem nodup_foldl_put {candidates : List (String × Candidate)}
    (entries : List (String × Candidate)) (h : (candidates.map Prod.fst).Nodup) :
    ((entries.foldl (fun cs entry => put cs entry.1 entry.2) candidates).map Prod.fst).Nodup := by
  induction entries generalizing candidates with
  | nil => exact h
  | cons entry entries ih => exact ih (nodup_put entry.1 entry.2 h)

/-- Putting candidates whose names are not taken keeps the names apart. -/
theorem nodup_foldl_putIfAbsent {candidates : List (String × Candidate)}
    (found : List (String × Candidate)) (h : (candidates.map Prod.fst).Nodup) :
    ((found.foldl (fun cs entry => putIfAbsent cs entry.1 entry.2) candidates).map
      Prod.fst).Nodup := by
  induction found generalizing candidates with
  | nil => exact h
  | cons entry found ih =>
    apply ih
    simp only [putIfAbsent]
    split
    · exact h
    · exact nodup_append_singleton h (by simp_all)

end Candidates

/-- A catalogue after some registrations: it is set up as before, its names are all different, and
what a name stands for follows from the registrations, from the plugins only if they were read. -/
structure Reflects (s : Setup) (registered : List (String × Candidate)) (r : Catalogue) : Prop where
  /-- The grammars are those of the setup. -/
  grammars : r.grammars = s.grammars
  /-- The default name is that of the setup. -/
  default : r.default = s.default
  /-- Plugins are used as in the setup. -/
  usesPlugins : r.usesPlugins = s.usesPlugins
  /-- Plugins come from where the setup says. -/
  plugins : r.plugins = s.plugins
  /-- Plugins are read only if they are used. -/
  used : r.pluginsRead = true → s.usesPlugins = true
  /-- The source of plugins was asked once if they were read. -/
  discoveries : r.discoveries = if r.pluginsRead then 1 else 0
  /-- The names are all different. -/
  nodup : (r.candidates.map Prod.fst).Nodup
  /-- What a name stands for at present. -/
  lookup : ∀ name, r.candidates.lookup name =
    (s.explicit? registered name).or (if r.pluginsRead then s.found.lookup name else none)

/-- A catalogue starts without registrations. -/
theorem reflects_start (s : Setup) : Reflects s [] s.start where
  grammars := rfl
  default := rfl
  usesPlugins := rfl
  plugins := rfl
  used h := nomatch h
  discoveries := rfl
  nodup := by
    have hbundled : (bundledParsers.map Prod.fst).Nodup := by decide
    refine nodup_foldl_put s.parsers ?_
    rw [List.map_map]
    exact hbundled
  lookup name := by
    change (s.parsers.foldl (fun cs entry => put cs entry.1 entry.2) _).lookup name =
      (s.explicit? [] name).or none
    rw [lookup_foldl_put, lookup_map_snd, Setup.explicit?]
    simp

section Steps

variable {s : Setup} {registered : List (String × Candidate)} {r : Catalogue}

/-- A registration is added to those before it. -/
theorem Reflects.register (h : Reflects s registered r) (name : String) (c : Candidate) :
    Reflects s (registered ++ [(name, c)]) (r.register name c) where
  grammars := h.grammars
  default := h.default
  usesPlugins := h.usesPlugins
  plugins := h.plugins
  used := h.used
  discoveries := h.discoveries
  nodup := nodup_put name c h.nodup
  lookup other := by
    change (put r.candidates name c).lookup other =
      (s.explicit? (registered ++ [(name, c)]) other).or
        (if r.pluginsRead then s.found.lookup other else none)
    rw [lookup_put, h.lookup, Setup.explicit?, Setup.explicit?, List.reverse_append,
      List.reverse_singleton, List.singleton_append, lookup_cons_eq]
    split <;> simp

/-- Reading the plugins keeps what a catalogue reflects. -/
theorem Reflects.readPlugins (h : Reflects s registered r) :
    Reflects s registered r.readPlugins := by
  unfold Catalogue.readPlugins
  split
  · exact h
  · rename_i hneeded
    obtain ⟨huses, hread⟩ : r.usesPlugins = true ∧ r.pluginsRead = false := by simpa using hneeded
    have hfound : s.found = r.plugins.loaded parserGroup := by
      rw [Setup.found, ← h.usesPlugins, if_pos huses, h.plugins]
    refine ⟨h.grammars, h.default, h.usesPlugins, h.plugins, fun _ => h.usesPlugins ▸ huses, ?_,
      nodup_foldl_putIfAbsent _ h.nodup, fun name => ?_⟩
    · simp [discover, h.discoveries, hread]
    · simp only [discover, lookup_foldl_putIfAbsent_eq, h.lookup, hread, hfound]
      simp

/-- Once the plugins are read where they are used, a name stands for what the setup and the
registrations say. -/
theorem Reflects.lookup_readPlugins (h : Reflects s registered r) (name : String) :
    r.readPlugins.candidates.lookup name = s.candidate? registered name := by
  have hread : r.readPlugins.pluginsRead = s.usesPlugins := by
    have hused := h.used
    have huses := h.usesPlugins
    unfold Catalogue.readPlugins
    split <;> grind
  rw [h.readPlugins.lookup, hread, Setup.candidate?]
  unfold Setup.found
  split <;> simp

/-- A catalogue that a request leaves as it is, or after reading the plugins, reflects the same
registrations. -/
theorem Reflects.of_read (h : Reflects s registered r) {r' : Catalogue}
    (hr' : r' = r ∨ r' = r.readPlugins) : Reflects s registered r' := by
  rcases hr' with rfl | rfl
  · exact h
  · exact h.readPlugins

/-- A name finds the parser that the setup and the registrations say. -/
theorem Reflects.lookup_eq (h : Reflects s registered r) (name : String) :
    (r.lookup name).2 = s.usable? registered name := by
  have hfind : (r.readPlugins.find? name).bind (UsableParser.ofCandidate? name) =
      s.usable? registered name := by
    rw [find?, h.lookup_readPlugins, Setup.usable?]
    cases s.candidate? registered name with
    | none => rfl
    | some c => cases c <;> rfl
  rw [← Catalogue.lookup_readPlugins, ← hfind, Catalogue.lookup]
  split <;> simp only [readPlugins_readPlugins]

/-- The default name resolves to the parser that the setup and the registrations say. -/
theorem Reflects.resolveDefault_eq (h : Reflects s registered r) :
    r.resolveDefault.2 =
      (s.usable? registered s.default).getD (UsableParser.component s.grammars) := by
  have hgrammars := (h.of_read (r.lookup_fst s.default)).grammars
  simp only [resolveDefault, h.default, h.lookup_eq, hgrammars]

/-- A name resolves to its parser, to that of the default name, or to the component parser. -/
theorem Reflects.resolve_eq (h : Reflects s registered r) (name : Option String) :
    (r.resolve name).2 = (((name.filter (· != "")).bind (s.usable? registered)).or
      (s.usable? registered s.default)).getD (UsableParser.component s.grammars) := by
  rw [Catalogue.resolve_eq]
  cases name.filter (· != "") with
  | none => simpa using h.resolveDefault_eq
  | some name =>
    have hdefault := (h.of_read (r.lookup_fst name)).resolveDefault_eq
    rw [Option.bind_some]
    simp only [h.lookup_eq]
    cases s.usable? registered name with
    | some parser => rfl
    | none => simpa using hdefault

/-- The names are those that stand for something, in order. -/
theorem Reflects.names_eq (h : Reflects s registered r) :
    r.names.2 = sortedStrings (s.knownNames registered) := by
  refine sortedStrings_eq_of_perm ?_
  unfold Setup.knownNames
  rw [List.perm_ext_iff_of_nodup h.readPlugins.nodup (List.nodup_dedup _)]
  intro name
  rw [← isSome_lookup_iff, h.lookup_readPlugins, List.mem_dedup]
  simp only [Setup.candidate?, Setup.explicit?, Option.isSome_or, Bool.or_eq_true,
    isSome_lookup_iff, Option.isSome_map, List.map_append, List.mem_append, List.map_reverse,
    List.mem_reverse, or_assoc]

/-- Every request is answered as the setup and the registrations before it say. -/
theorem Reflects.answer_eq (h : Reflects s registered r) (request : Request) :
    (r.perform request).2 = s.answer registered request := by
  cases request with
  | register name c => rfl
  | lookup name => exact congrArg Answer.found (h.lookup_eq name)
  | resolve name => exact congrArg Answer.resolved (h.resolve_eq name)
  | names => exact congrArg Answer.listed h.names_eq

/-- After a request a catalogue reflects the registrations with that of the request, if it is
one. -/
theorem Reflects.perform (h : Reflects s registered r) (request : Request) :
    Reflects s (registered ++ registrations [request]) (r.perform request).1 := by
  cases request with
  | register name c => exact h.register name c
  | lookup name => exact (List.append_nil registered).symm ▸ h.of_read (r.lookup_fst name)
  | resolve name => exact (List.append_nil registered).symm ▸ h.of_read (r.resolve_fst name)
  | names => exact (List.append_nil registered).symm ▸ h.readPlugins

/-- After a list of requests a catalogue reflects the registrations among them. -/
theorem Reflects.after (h : Reflects s registered r) (requests : List Request) :
    Reflects s (registered ++ registrations requests) (r.after requests) := by
  induction requests generalizing registered r with
  | nil => exact (List.append_nil registered).symm ▸ h
  | cons request requests ih =>
    have hrest := ih (h.perform request)
    rwa [List.append_assoc, ← registrations_append] at hrest

end Steps

/-- Reading plugins cannot be observed. Whatever a catalogue is asked to do one request after the
other, the source of plugins is asked at most once, and every request is answered by the setup and
the registrations made so far alone: a name finds what it was last registered as, else what it was
set up with, else the bundled parser, else the first plugin of the name that loads, if that can be
used; it resolves to the parser it finds, else to the one that the default name finds, else to the
component parser, where an empty name counts as none; and the names are all those that stand for
something. -/
theorem answer_eq_of_registrations (s : Setup) (requests : List Request) (request : Request) :
    ((s.start.after requests).perform request).2 = s.answer (registrations requests) request ∧
      (s.start.after requests).discoveries ≤ 1 := by
  have h := (reflects_start s).after requests
  rw [List.nil_append] at h
  refine ⟨h.answer_eq request, ?_⟩
  rw [h.discoveries]
  split <;> decide

/-- A catalogue in which the empty name stands for a parser. -/
def sampleSetup : Setup where
  grammars := { installed := fun _ => false, tree? := fun _ _ => none }
  parsers := [("", .object none (some { run := fun _ _ => .error .notIterable }) none)]
  plugins := .grouped []
  default := componentParserName
  usesPlugins := true

/-- The empty name finds a parser and still does not resolve to it. -/
theorem resolve_empty_ne_lookup_empty :
    ∃ parser, (sampleSetup.start.perform (.lookup "")).2 = .found (some parser) ∧
      (sampleSetup.start.perform (.resolve (some ""))).2 ≠ .resolved parser := by
  refine ⟨_, rfl, fun h => ?_⟩
  have hname := congrArg UsableParser.name (Answer.resolved.inj h)
  exact absurd hname (by decide)

end Catalogue

end TranslationKeys
