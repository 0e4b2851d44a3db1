import TranslationKeys.Project
import TranslationKeys.Proofs.Memo.Call
import TranslationKeys.Proofs.Memo.StringArguments
import TranslationKeys.Proofs.Node.FirstSeen
import TranslationKeys.Proofs.Parser.Plugins

/-!
# Collecting keys is the same with and without memos

What earlier calls leave behind are the targets of selections, groups of key files, and key files
that may be loaded or not. All of it is what a fresh run would find again, as long as the outside
stays the same. So the result of a collection does not depend on what was called before.
-/

namespace TranslationKeys

/-- The listing of files does not tell lists from tuples. -/
def Sources.ListsByItems (sources : Sources) : Prop :=
  ∀ {patterns patterns' extensions extensions' : Value}, patterns.SameSequence patterns' →
    extensions.SameSequence extensions' →
      sources.list patterns extensions = sources.list patterns' extensions'

/-- The files of a project are listed by the items of patterns and extensions. -/
theorem Project.listsByItems_sources (tree : FileTree) (root : Path)
    (ignorePatterns : List String) :
    (Project.sources tree root ignorePatterns).ListsByItems := by
  intro patterns patterns' extensions extensions' hpatterns hextensions
  have hwalk : Listing.walkFor extensions = Listing.walkFor extensions' := by
    funext t
    unfold Listing.walkFor Listing.canAsk
    rw [hextensions.holds?_eq]
  have hexpand : Listing.expandValue tree root extensions =
      Listing.expandValue tree root extensions' := by
    funext pattern
    unfold Listing.expandValue Listing.expand
    rw [hwalk]
  simp only [Project.sources, Listing.files, hpatterns.elements?_eq, hexpand]

/-- Strings are accepted as patterns and extensions; the suffixes are those that the extensions
yield. -/
theorem Targets.exists_accepted {patterns extensions : Value} (hpatterns : patterns.IsStrings)
    (hextensions : extensions.IsStrings) :
    ∃ suffixes, accepted patterns extensions = .ok suffixes ∧
      ∀ s, s ∈ suffixes ↔ extensions.Yields s := by
  obtain ⟨names, hnames⟩ := hpatterns.exists_elements?
  obtain ⟨suffixes, hsuffixes⟩ := hextensions.exists_elements?
  refine ⟨suffixes, by rw [accepted, hnames, Value.strings?_of_elements? hsuffixes], fun s => ?_⟩
  simp [Value.Yields, hsuffixes]

/-- The targets among listed files are those that are not to be ignored and whose suffix is
accepted. -/
theorem Targets.select_eq (current : Path) (suffixes : List String) (listed : List FoundFile) :
    select current suffixes listed =
      (listed.filter fun f => f.ignored = false ∧ f.path.suffix ∈ suffixes).map fun f =>
        current.absolute f.path := by
  have htargets : (fun f : FoundFile => !f.ignored && suffixes.contains f.path.suffix) =
      fun f => decide (f.ignored = false ∧ f.path.suffix ∈ suffixes) := by
    funext f
    rw [Bool.decide_and, Bool.decide_eq_false, List.contains_eq_mem]
  rw [select, htargets]

/-- A listed file is a target of a selection: it is not to be ignored, and its suffix is one of the
extensions. -/
def FoundFile.IsTarget (extensions : Value) (f : FoundFile) : Prop :=
  f.ignored = false ∧ extensions.Yields f.path.suffix

/-- What stays the same while keys are collected. -/
structure Setting where
  /-- The outside. -/
  sources : Sources
  /-- The current directory. -/
  current : Path
  /-- Which parser to use for a file. -/
  policy : ParserPolicy
  /-- The parsers. -/
  catalogue : Catalogue

namespace Setting

/-- The keys of a file, read and parsed afresh. -/
def fileKeys (c : Setting) (path : Path) : Except Failure (List Text) := do
  let text ← c.sources.read path
  (collectKeys c.catalogue c.policy text (some path.text)).keys

/-- The targets of a selection, listed afresh: the files that are not to be ignored and whose suffix
is accepted, as absolute paths and in the order of the listing. -/
def selected (c : Setting) (patterns extensions : Value) : Except Failure (List Path) := do
  let suffixes ← Targets.accepted patterns extensions
  let listed ← c.sources.list patterns extensions
  let targets := listed.filter fun f => f.ignored = false ∧ f.path.suffix ∈ suffixes
  return targets.map fun f => c.current.absolute f.path

/-- The keys of all files of a selection, without any memo. -/
def uncached (c : Setting) (patterns extensions : Value) : Except Failure (List Text) := do
  let paths ← c.selected patterns extensions
  let found ← paths.mapM c.fileKeys
  return firstSeen found.flatten

/-- Key collection before the first call. -/
def start (c : Setting) (arena : Arena) : UsedKeys where
  policy := c.policy
  catalogue := c.catalogue
  arena := arena

/-- A request to key collection. -/
inductive Request where
  /-- The keys of a selection. -/
  | collect (patterns extensions : Value)
  /-- The key files of a selection. -/
  | group (patterns extensions : Value)
  /-- The keys of one key file. -/
  | load (place : Nat)
  /-- Dropping both memos. -/
  | reset

/-- Key collection after a request. -/
def step (c : Setting) (u : UsedKeys) : Request → UsedKeys
  | .collect patterns extensions => (u.collect c.sources c.current patterns extensions).state
  | .group patterns extensions => (u.group c.sources c.current patterns extensions).state
  | .load place => (u.load c.sources place).state
  | .reset => u.reset

/-- Key collection after a history of requests. -/
def after (c : Setting) (u : UsedKeys) (history : List Request) : UsedKeys :=
  history.foldl c.step u

/-- A catalogue that is the one of the setting, with its plugins read or not. -/
def KnowsParsers (c : Setting) (r : Catalogue) : Prop :=
  r = c.catalogue ∨ r = c.catalogue.readPlugins

/-- The place of an arena has a key file for a path, which holds the keys of the file if it is
loaded. -/
def Holds (c : Setting) (arena : Arena) (place : Nat) (path : Path) : Prop :=
  ∃ cell, arena.cells[place]? = some cell ∧ cell.file.path = path ∧ cell.policy = c.policy ∧
    ∀ keys, cell.file.value = some keys → c.fileKeys path = .ok keys

/-- What is remembered is what a fresh run would find. -/
structure Agrees (c : Setting) (u : UsedKeys) : Prop where
  /-- The parsers are chosen as in the setting. -/
  policy : u.policy = c.policy
  /-- The parsers are those of the setting. -/
  catalogue : c.KnowsParsers u.catalogue
  /-- Remembered targets are those of a selection with that key. -/
  targets : ∀ e ∈ u.targets.entries, ∃ patterns extensions,
    Arguments.key { positional := [patterns, extensions] } = .ok e.1 ∧
      c.selected patterns extensions = .ok e.2
  /-- The key files of a group are those of its paths. -/
  groups : ∀ e ∈ u.groups.entries, List.Forall₂ (c.Holds u.arena) e.2.members e.1

variable {c : Setting} {u : UsedKeys}

/-- Nothing is remembered before the first call. -/
theorem agrees_start (c : Setting) (arena : Arena) : c.Agrees (c.start arena) :=
  ⟨rfl, .inl rfl, fun _ he => absurd he List.not_mem_nil, fun _ he => absurd he List.not_mem_nil⟩

/-- Resolving a name gives the parser of the setting, and leaves its parsers known. -/
theorem KnowsParsers.resolve {r : Catalogue} (h : c.KnowsParsers r) (name : Option String) :
    (r.resolve name).2 = (c.catalogue.resolve name).2 ∧ c.KnowsParsers (r.resolve name).1 := by
  rcases h with rfl | rfl
  · exact ⟨rfl, c.catalogue.resolve_fst name⟩
  · refine ⟨c.catalogue.resolve_readPlugins name, .inr ?_⟩
    have hread := c.catalogue.readPlugins.resolve_fst name
    rwa [Catalogue.readPlugins_readPlugins, or_self] at hread

/-- The keys of a text are those of the setting, and its parsers stay known. -/
theorem KnowsParsers.collectKeys {r : Catalogue} (h : c.KnowsParsers r) (policy : ParserPolicy)
    (text : String) (filename : Option String) :
    (TranslationKeys.collectKeys r policy text filename).keys =
        (TranslationKeys.collectKeys c.catalogue policy text filename).keys ∧
      c.KnowsParsers (TranslationKeys.collectKeys r policy text filename).catalogue := by
  unfold TranslationKeys.collectKeys
  simp only
  cases policy (Path.ofString ((filename.filter (· != "")).getD unnamedText)) with
  | error f => exact ⟨rfl, h⟩
  | ok config =>
    obtain ⟨hparser, hknown⟩ := h.resolve config.parser
    exact ⟨by simp only [hparser], hknown⟩

/-- Loading a key file gives the keys of the setting, and its parsers stay known. -/
theorem KnowsParsers.load {s : Loading} (h : c.KnowsParsers s.catalogue) (cell : KeyFile) :
    c.KnowsParsers (cell.load c.sources s).1.catalogue ∧
      (cell.policy = c.policy → (cell.load c.sources s).2 = c.fileKeys cell.file.path) := by
  unfold KeyFile.load fileKeys
  simp only
  cases c.sources.read cell.file.path with
  | error f => exact ⟨h, fun _ => rfl⟩
  | ok text =>
    obtain ⟨hkeys, hknown⟩ := h.collectKeys cell.policy text (some cell.file.path.text)
    exact ⟨hknown, fun hpolicy => hkeys.trans (by rw [hpolicy]; rfl)⟩

/-- A key file keeps standing for its path when one at any place is replaced by one for the same
path that is loaded with the keys of the file. -/
theorem Holds.set {arena : Arena} {place place' : Nat} {path : Path} {cell cell' : KeyFile}
    (h : c.Holds arena place' path) (hcell : arena.cells[place]? = some cell)
    (hpath : cell'.file.path = cell.file.path) (hpolicy : cell'.policy = cell.policy)
    (hvalue : cell.policy = c.policy → ∀ keys, cell'.file.value = some keys →
      cell.file.value = some keys ∨ c.fileKeys cell.file.path = .ok keys) :
    c.Holds { arena with cells := arena.cells.set place cell' } place' path := by
  obtain ⟨held, hheld, rfl, hheldPolicy, hheldValue⟩ := h
  by_cases hplace : place = place'
  · subst hplace
    obtain rfl : cell = held := Option.some.inj (hcell.symm.trans hheld)
    have hlt : place < arena.cells.length := (List.getElem?_eq_some_iff.1 hcell).1
    refine ⟨cell', by simp [hlt], hpath, hpolicy.trans hheldPolicy, fun keys hkeys => ?_⟩
    rcases hvalue hheldPolicy keys hkeys with hold | hnew
    · exact hheldValue keys hold
    · exact hnew
  · exact ⟨held, by simp [hplace, hheld], rfl, hheldPolicy, hheldValue⟩

/-- What came of loading the key file at a place. -/
structure Loaded (c : Setting) (u : UsedKeys) (place : Nat) (o : Outcome (List Text)) : Prop where
  /-- What is remembered is still right. -/
  agrees : c.Agrees o.state
  /-- Key files keep standing for their paths. -/
  holds : ∀ place' path, c.Holds u.arena place' path → c.Holds o.state.arena place' path
  /-- The result is that of a fresh run. -/
  result : ∀ path, c.Holds u.arena place path → o.result = c.fileKeys path

/-- What is remembered stays right if the parsers stay known and key files keep standing for their
paths. -/
theorem Agrees.replace (h : c.Agrees u) {r : Catalogue} {arena : Arena} (hr : c.KnowsParsers r)
    (hholds : ∀ place path, c.Holds u.arena place path → c.Holds arena place path) :
    c.Agrees { u with catalogue := r, arena := arena } :=
  ⟨h.policy, hr, h.targets, fun e he => (h.groups e he).imp hholds⟩

/-- A state in which one key file was replaced by one for the same path, which may be loaded now. -/
theorem Agrees.loaded (h : c.Agrees u) {place : Nat} {cell cell' : KeyFile} {r : Catalogue}
    {events : List Event} {result : Except Failure (List Text)}
    (hcell : u.arena.cells[place]? = some cell) (hr : c.KnowsParsers r)
    (hpath : cell'.file.path = cell.file.path) (hpolicy : cell'.policy = cell.policy)
    (hvalue : cell.policy = c.policy → ∀ keys, cell'.file.value = some keys →
      cell.file.value = some keys ∨ c.fileKeys cell.file.path = .ok keys)
    (hresult : c.Holds u.arena place cell.file.path → result = c.fileKeys cell.file.path) :
    c.Loaded u place ⟨{ u with catalogue := r, arena := { u.arena with
      cells := u.arena.cells.set place cell' } }, events, result⟩ := by
  have hholds (place' : Nat) (path : Path) (hheld : c.Holds u.arena place' path) :=
    hheld.set hcell hpath hpolicy hvalue
  refine ⟨h.replace hr hholds, hholds, fun path hheld => ?_⟩
  obtain ⟨held, hplace, rfl, -⟩ := id hheld
  obtain rfl : cell = held := Option.some.inj (hcell.symm.trans hplace)
  exact hresult hheld

/-- Loading a key file gives what a fresh run gives, and what is remembered stays right. -/
theorem Agrees.load (h : c.Agrees u) (place : Nat) : c.Loaded u place (u.load c.sources place) := by
  cases hcell : u.arena.cells[place]? with
  | none =>
    have hload : u.load c.sources place = ⟨u, [], .error .noSuchIndex⟩ := by
      simp only [UsedKeys.load, hcell]
    rw [hload]
    refine ⟨h, fun _ _ => id, fun path hheld => ?_⟩
    obtain ⟨cell, hcell', -⟩ := hheld
    exact nomatch hcell.symm.trans hcell'
  | some cell =>
    have hsame {path : Path} (hheld : c.Holds u.arena place path) :
        cell.policy = c.policy ∧
          ∀ keys, cell.file.value = some keys → c.fileKeys path = .ok keys := by
      obtain ⟨held, hplace, -, hpolicy, hvalue⟩ := hheld
      obtain rfl : cell = held := Option.some.inj (hcell.symm.trans hplace)
      exact ⟨hpolicy, hvalue⟩
    unfold UsedKeys.load LazyFile.get
    simp only [hcell]
    cases hvalue : cell.file.value with
    | some keys =>
      exact h.loaded hcell h.catalogue rfl rfl (fun _ keys hkeys => .inl hkeys)
        fun hheld => ((hsame hheld).2 keys hvalue).symm
    | none =>
      have hload := KnowsParsers.load (s := { catalogue := u.catalogue }) h.catalogue cell
      revert hload
      rcases cell.load c.sources { catalogue := u.catalogue } with ⟨loading, result⟩
      intro h'
      obtain ⟨hknown, hkeys⟩ := h'
      cases result with
      | ok keys =>
        refine h.loaded hcell hknown rfl rfl (fun hpolicy keys' hkeys' => .inr ?_)
          fun hheld => hkeys (hsame hheld).1
        obtain rfl : keys = keys' := Option.some.inj hkeys'
        exact (hkeys hpolicy).symm
      | error f =>
        exact h.loaded hcell hknown rfl rfl (fun _ keys hkeys => .inl hkeys)
          fun hheld => hkeys (hsame hheld).1

/-- Loading several key files gives what fresh runs give, one after the other up to the first that
fails, and what is remembered stays right. -/
theorem Agrees.loadAll (h : c.Agrees u) (places : List Nat) :
    c.Agrees (u.loadAll c.sources places).state ∧
      ∀ paths, List.Forall₂ (c.Holds u.arena) places paths →
        (u.loadAll c.sources places).result = (paths.mapM c.fileKeys).map List.flatten := by
  induction places generalizing u with
  | nil =>
    refine ⟨h, fun paths hpaths => ?_⟩
    rw [List.forall₂_nil_left_iff.1 hpaths]
    rfl
  | cons place places ih =>
    have hload := h.load place
    unfold UsedKeys.loadAll
    revert hload
    rcases u.load c.sources place with ⟨u', events, result⟩
    intro h'
    obtain ⟨hagrees, hholds, hresult⟩ := h'
    cases result with
    | error f =>
      refine ⟨hagrees, fun paths hpaths => ?_⟩
      obtain ⟨path, rest, hplace, -, rfl⟩ := List.forall₂_cons_left_iff.1 hpaths
      rw [List.mapM_cons, ← hresult path hplace]
      rfl
    | ok keys =>
      obtain ⟨hrestAgrees, hrest⟩ := ih hagrees
      refine ⟨hrestAgrees, fun paths hpaths => ?_⟩
      obtain ⟨path, rest, hplace, hplaces, rfl⟩ := List.forall₂_cons_left_iff.1 hpaths
      have hfresh := hrest rest (hplaces.imp hholds)
      simp only at hfresh ⊢
      rw [hfresh, List.mapM_cons, ← hresult path hplace]
      cases rest.mapM c.fileKeys <;> rfl

/-- A new group leaves the key files that are there. -/
theorem Holds.makeGroup {arena : Arena} {place : Nat} {path : Path} (h : c.Holds arena place path)
    (policy : ParserPolicy) (paths : List Path) :
    c.Holds (arena.makeGroup policy paths).1 place path := by
  obtain ⟨cell, hcell, hrest⟩ := h
  refine ⟨cell, ?_, hrest⟩
  unfold Arena.makeGroup
  split
  · exact hcell
  · have hlt := (List.getElem?_eq_some_iff.1 hcell).1
    simp only [List.getElem?_append_left hlt, hcell]

/-- The key files of a new group stand for its paths. -/
theorem holds_makeGroup (c : Setting) (arena : Arena) (paths : List Path) :
    List.Forall₂ (c.Holds (arena.makeGroup c.policy paths).1)
      (arena.makeGroup c.policy paths).2.members paths := by
  unfold Arena.makeGroup
  split
  · rename_i hempty
    rw [List.isEmpty_iff.1 hempty]
    exact .nil
  · refine List.forall₂_iff_get.2 ⟨by simp, fun i hi hi' => ?_⟩
    refine ⟨⟨{ path := paths.get ⟨i, hi'⟩ }, c.policy⟩, ?_, rfl, rfl,
      fun keys hkeys => nomatch hkeys⟩
    simp [hi']

/-- The group of a list of paths is asked of the memo, which makes one if there is none. -/
theorem resolveGroup_ends (u : UsedKeys) (paths : List Path) :
    ∃ ending, Memo.Ends u.groups paths
        (fun arena => ((arena.makeGroup u.policy paths).1, .ok (arena.makeGroup u.policy paths).2))
        u.arena ending ∧
      u.resolveGroup paths =
        ⟨{ u with groups := ending.1, arena := ending.2.1 }, [], ending.2.2⟩ :=
  ⟨_, Memo.ends_call _ _ _ _, rfl⟩

/-- The group of a list of paths has a key file for each of them, and what is remembered stays
right. -/
theorem Agrees.resolveGroup (h : c.Agrees u) (paths : List Path) :
    c.Agrees (u.resolveGroup paths).state ∧
      ∃ group, (u.resolveGroup paths).result = .ok group ∧
        List.Forall₂ (c.Holds (u.resolveGroup paths).state.arena) group.members paths := by
  obtain ⟨ending, hends, hresolve⟩ := resolveGroup_ends u paths
  rw [hresolve]
  cases hends with
  | found hfound =>
    obtain ⟨e, he, hek, rfl⟩ := Memo.exists_mem_of_find?_eq_some hfound
    obtain rfl : e.1 = paths := by simpa using hek
    refine ⟨⟨h.policy, h.catalogue, h.targets, fun f hf => ?_⟩, e.2, rfl, h.groups e he⟩
    exact h.groups f (Memo.mem_of_mem_refresh hf)
  | computed hnone hrun =>
    obtain ⟨rfl, hgroup⟩ := Prod.mk.inj hrun
    obtain rfl := Except.ok.inj hgroup
    have hnew := c.holds_makeGroup u.arena paths
    rw [← h.policy] at hnew
    refine ⟨⟨h.policy, h.catalogue, h.targets, fun e he => ?_⟩, _, rfl, hnew⟩
    rcases List.mem_append.1 (Memo.mem_of_mem_trim he) with he | he
    · exact (h.groups e he).imp fun _ _ hheld => hheld.makeGroup u.policy paths
    · rw [List.mem_singleton.1 he]
      exact hnew
  | failed _ hrun => exact nomatch (Prod.mk.inj hrun).2

/-- The same sequences select the same targets. -/
theorem selected_sameSequence (hlist : c.sources.ListsByItems)
    {patterns patterns' extensions extensions' : Value} (hp : patterns.SameSequence patterns')
    (he : extensions.SameSequence extensions') :
    c.selected patterns extensions = c.selected patterns' extensions' := by
  have haccepted : Targets.accepted patterns extensions =
      Targets.accepted patterns' extensions' := by
    simp only [Targets.accepted, Value.strings?, hp.elements?_eq, he.elements?_eq]
  simp only [selected, haccepted, hlist hp he]

/-- The targets of a selection are asked of the memo, which lists files if it does not know them; a
selection without a key is refused. -/
theorem resolveTargets_ends (c : Setting) (u : UsedKeys) (patterns extensions : Value) :
    ∃ ending : TargetMemo × List Event × Except Failure (List Path),
      u.resolveTargets c.sources c.current patterns extensions =
          ⟨{ u with targets := ending.1 }, ending.2.1, ending.2.2⟩ ∧
        ((ending.1 = u.targets ∧
            ∃ f, Arguments.key { positional := [patterns, extensions] } = .error f) ∨
          ∃ key compute, Arguments.key { positional := [patterns, extensions] } = .ok key ∧
            (∀ events, (compute events).2 = c.selected patterns extensions) ∧
            Memo.Ends u.targets key compute [] ending) := by
  refine ⟨_, rfl, ?_⟩
  cases hkey : Arguments.key { positional := [patterns, extensions] } with
  | error f => exact .inl ⟨rfl, f, rfl⟩
  | ok key =>
    refine .inr ⟨key, _, rfl, fun events => ?_, Memo.ends_call _ _ _ _⟩
    unfold selected
    cases Targets.accepted patterns extensions with
    | error f => rfl
    | ok suffixes =>
      cases c.sources.list patterns extensions with
      | error f => rfl
      | ok listed => exact congrArg Except.ok (Targets.select_eq c.current suffixes listed)

/-- The targets of a selection are those of a fresh run if it is given by strings, and what is
remembered stays right. -/
theorem Agrees.resolveTargets (h : c.Agrees u) (hlist : c.sources.ListsByItems)
    (patterns extensions : Value) :
    c.Agrees (u.resolveTargets c.sources c.current patterns extensions).state ∧
      (patterns.IsStrings → extensions.IsStrings →
        (u.resolveTargets c.sources c.current patterns extensions).result =
          c.selected patterns extensions) := by
  obtain ⟨ending, hresolve, ⟨htargets, f, hkey⟩ | ⟨key, compute, hkey, hcompute, hends⟩⟩ :=
    c.resolveTargets_ends u patterns extensions
  · rw [hresolve, htargets]
    refine ⟨h, fun hp he => ?_⟩
    obtain ⟨key, hkey'⟩ := Arguments.exists_key_of_isStrings hp he
    exact nomatch hkey.symm.trans hkey'
  · rw [hresolve]
    constructor
    · refine ⟨h.policy, h.catalogue, fun e he => ?_, h.groups⟩
      rcases hends.origin he with he | ⟨rfl, t, hrun⟩
      · exact h.targets e he
      · refine ⟨patterns, extensions, hkey, ?_⟩
        rw [← hcompute [], hrun]
    · intro hp he
      cases hends with
      | found hfound =>
        -- The entry was made for the same sequences, if not by the same values.
        obtain ⟨e, hmem, hek, rfl⟩ := Memo.exists_mem_of_find?_eq_some hfound
        obtain ⟨patterns', extensions', hkey', hselected⟩ := h.targets e hmem
        obtain ⟨hp', he'⟩ := Arguments.sameSequence_of_key hp he hkey hkey' hek
        exact hselected.symm.trans (selected_sameSequence hlist hp' he')
      | computed _ hrun | failed _ hrun => rw [← hcompute [], hrun]

/-- A group of key files for the targets of a selection, or the failure of the selection. -/
theorem Agrees.group (h : c.Agrees u) (hlist : c.sources.ListsByItems)
    (patterns extensions : Value) :
    c.Agrees (u.group c.sources c.current patterns extensions).state ∧
      (patterns.IsStrings → extensions.IsStrings →
        (∃ f, c.selected patterns extensions = .error f ∧
            (u.group c.sources c.current patterns extensions).result = .error f) ∨
          ∃ paths group, c.selected patterns extensions = .ok paths ∧
            (u.group c.sources c.current patterns extensions).result = .ok group ∧
            List.Forall₂ (c.Holds (u.group c.sources c.current patterns extensions).state.arena)
              group.members paths) := by
  have htargets := h.resolveTargets hlist patterns extensions
  unfold UsedKeys.group
  revert htargets
  rcases u.resolveTargets c.sources c.current patterns extensions with ⟨u', events, result⟩
  intro h'
  obtain ⟨hagrees, hresult⟩ := h'
  cases result with
  | error f => exact ⟨hagrees, fun hp he => .inl ⟨f, (hresult hp he).symm, rfl⟩⟩
  | ok paths =>
    obtain ⟨hgroup, group, hok, hmembers⟩ := hagrees.resolveGroup paths
    exact ⟨hgroup, fun hp he => .inr ⟨paths, group, (hresult hp he).symm, hok, hmembers⟩⟩

/-- A collection gives what a run without memos gives, and what is remembered stays right. -/
theorem Agrees.collect (h : c.Agrees u) (hlist : c.sources.ListsByItems)
    (patterns extensions : Value) :
    c.Agrees (u.collect c.sources c.current patterns extensions).state ∧
      (patterns.IsStrings → extensions.IsStrings →
        (u.collect c.sources c.current patterns extensions).result =
          c.uncached patterns extensions) := by
  have hgroup := h.group hlist patterns extensions
  unfold UsedKeys.collect uncached
  revert hgroup
  rcases u.group c.sources c.current patterns extensions with ⟨u', events, result⟩
  intro h'
  obtain ⟨hagrees, hresult⟩ := h'
  cases result with
  | error f =>
    refine ⟨hagrees, fun hp he => ?_⟩
    rcases hresult hp he with ⟨g, hselected, hg⟩ | ⟨paths, group, -, hok, -⟩
    · obtain rfl : f = g := Except.error.inj hg
      rw [hselected]
      rfl
    · exact nomatch hok
  | ok group =>
    obtain ⟨hloaded, hkeys⟩ := hagrees.loadAll group.members
    refine ⟨hloaded, fun hp he => ?_⟩
    rcases hresult hp he with ⟨g, -, hg⟩ | ⟨paths, group', hselected, hok, hmembers⟩
    · exact nomatch hg
    · obtain rfl := Except.ok.inj hok
      simp only [hselected, hkeys paths hmembers]
      cases hfound : paths.mapM c.fileKeys <;>
        simp [hfound, Except.map, bind, Except.bind, pure, Except.pure]

/-- A request leaves what is remembered right. -/
theorem Agrees.step (h : c.Agrees u) (hlist : c.sources.ListsByItems) (request : Request) :
    c.Agrees (c.step u request) := by
  cases request with
  | collect patterns extensions => exact (h.collect hlist patterns extensions).1
  | group patterns extensions => exact (h.group hlist patterns extensions).1
  | load place => exact (h.load place).agrees
  | reset =>
    exact ⟨h.policy, h.catalogue, fun _ he => absurd he List.not_mem_nil,
      fun _ he => absurd he List.not_mem_nil⟩

/-- Whatever is requested, what is remembered stays right. -/
theorem Agrees.after (h : c.Agrees u) (hlist : c.sources.ListsByItems) (history : List Request) :
    c.Agrees (c.after u history) := by
  induction history generalizing u with
  | nil => exact h
  | cons request history ih => exact ih (h.step hlist request)

/-- The name that the keys of a file are collected under. -/
def nameOf (path : Path) : String := ((some path.text).filter (· != "")).getD unnamedText

/-- The keys of a file are what the parser of its configuration finds in its text. -/
theorem fileKeys_eq (c : Setting) (path : Path) :
    c.fileKeys path = do
      let text ← c.sources.read path
      let config ← c.policy (Path.ofString (nameOf path))
      return keysOfRun (c.catalogue.resolve config.parser).2 text
        (config.parserOptions.forExtraction (nameOf path)) := by
  unfold fileKeys TranslationKeys.collectKeys nameOf
  cases c.sources.read path with
  | error f => rfl
  | ok text =>
    simp only [bind, Except.bind]
    cases c.policy (Path.ofString (((some path.text).filter (· != "")).getD unnamedText)) <;> rfl

/-- A file fails exactly if it cannot be read or its configuration cannot be found. -/
theorem fileKeys_eq_error_iff {path : Path} {f : Failure} :
    c.fileKeys path = .error f ↔
      c.sources.read path = .error f ∨ ∃ text, c.sources.read path = .ok text ∧
        c.policy (Path.ofString (nameOf path)) = .error f := by
  rw [fileKeys_eq]
  cases c.sources.read path with
  | error g => simp [bind, Except.bind]
  | ok text =>
    cases c.policy (Path.ofString (nameOf path)) <;> simp [bind, Except.bind, pure, Except.pure]

/-- A file has the keys that its parser finds. -/
theorem fileKeys_of_run_eq_ok {path : Path} {text : String} {config : ParserChoice}
    {found : List Text} (hread : c.sources.read path = .ok text)
    (hconfig : c.policy (Path.ofString (nameOf path)) = .ok config)
    (hrun : (do (← (c.catalogue.resolve config.parser).2.run text
      (config.parserOptions.forExtraction (nameOf path))).keys) = .ok found) :
    c.fileKeys path = .ok found := by
  rw [fileKeys_eq, hread, hconfig]
  simp only [bind, Except.bind, pure, Except.pure, keysOfRun] at hrun ⊢
  rw [hrun]

/-- A file whose parser or extraction fails has no keys. -/
theorem fileKeys_of_run_eq_error {path : Path} {text : String} {config : ParserChoice} {f : Failure}
    (hread : c.sources.read path = .ok text)
    (hconfig : c.policy (Path.ofString (nameOf path)) = .ok config)
    (hrun : (do (← (c.catalogue.resolve config.parser).2.run text
      (config.parserOptions.forExtraction (nameOf path))).keys) = .error f) :
    c.fileKeys path = .ok [] := by
  rw [fileKeys_eq, hread, hconfig]
  simp only [bind, Except.bind, pure, Except.pure, keysOfRun] at hrun ⊢
  rw [hrun]

/-- A run without memos that succeeds gives each key of a target once. -/
theorem uncached_eq_ok {patterns extensions : Value} {keys : List Text}
    (h : c.uncached patterns extensions = .ok keys) :
    keys.Nodup ∧ ∃ paths, c.selected patterns extensions = .ok paths ∧
      ∀ key, key ∈ keys ↔ ∃ path ∈ paths, ∃ found, c.fileKeys path = .ok found ∧ key ∈ found := by
  obtain ⟨paths, hpaths, h⟩ := bind_eq_ok_iff.1 h
  obtain ⟨found, hfound, h⟩ := bind_eq_ok_iff.1 h
  obtain rfl : firstSeen found.flatten = keys := Except.ok.inj h
  rw [mapM_eq_ok_iff] at hfound
  refine ⟨nodup_firstSeen _, paths, hpaths, fun key => ?_⟩
  rw [mem_firstSeen, List.mem_flatten]
  constructor
  · intro h'
    obtain ⟨ks, hks, hkey⟩ := h'
    obtain ⟨path, hpath, hfile⟩ := exists_mem_left_of_forall₂ hfound hks
    exact ⟨path, hpath, ks, hfile, hkey⟩
  · intro h'
    obtain ⟨path, hpath, ks, hfile, hkey⟩ := h'
    obtain ⟨ks', hks', hfile'⟩ := exists_mem_right_of_forall₂ hfound hpath
    obtain rfl : ks = ks' := Except.ok.inj (hfile.symm.trans hfile')
    exact ⟨ks, hks', hkey⟩

/-- A run without memos over given targets fails exactly as the first target that fails. -/
theorem uncached_eq_error_iff {patterns extensions : Value} {paths : List Path} {f : Failure}
    (hpaths : c.selected patterns extensions = .ok paths) :
    c.uncached patterns extensions = .error f ↔ ∃ before path after,
      paths = before ++ path :: after ∧ (∀ q ∈ before, ∃ found, c.fileKeys q = .ok found) ∧
        c.fileKeys path = .error f := by
  rw [← mapM_eq_error_iff, uncached, hpaths]
  cases hfound : paths.mapM c.fileKeys <;> simp [hfound, bind, Except.bind, pure, Except.pure]

/-- The targets among the files that are listed for strings are those that are not to be ignored and
whose suffix is one of the extensions. -/
theorem exists_selected_of_list {patterns extensions : Value} (hpatterns : patterns.IsStrings)
    (hextensions : extensions.IsStrings) {listed : List FoundFile}
    (hlisted : c.sources.list patterns extensions = .ok listed) :
    ∃ suffixes : List String, (∀ s, s ∈ suffixes ↔ extensions.Yields s) ∧
      c.selected patterns extensions =
        .ok ((listed.filter fun f => f.ignored = false ∧ f.path.suffix ∈ suffixes).map fun f =>
          c.current.absolute f.path) := by
  obtain ⟨suffixes, haccepted, hsuffixes⟩ := Targets.exists_accepted hpatterns hextensions
  refine ⟨suffixes, hsuffixes, ?_⟩
  rw [selected, haccepted, hlisted]
  rfl

/-- If no files can be listed for strings, a run without memos fails as the listing does. -/
theorem uncached_of_list_eq_error {patterns extensions : Value} (hpatterns : patterns.IsStrings)
    (hextensions : extensions.IsStrings) {e : Failure}
    (hlisted : c.sources.list patterns extensions = .error e) :
    c.uncached patterns extensions = .error e := by
  obtain ⟨suffixes, haccepted, -⟩ := Targets.exists_accepted hpatterns hextensions
  rw [uncached, selected, haccepted, hlisted]
  rfl

/-- No earlier request can change what a collection gives. After any history, it gives what a run
without memos gives. If no files can be listed, that is the failure of the listing. Otherwise, the
targets are the listed files that are not to be ignored and whose suffix is one of the extensions,
and the result is each key once that some target has; or, if a target cannot be read or its
configuration cannot be found, the failure of the first such target. The keys of a target are those
that its parser finds; a target whose parser or extraction fails has none. -/
theorem collect_eq_uncached (c : Setting) (hlist : c.sources.ListsByItems) (arena : Arena)
    (history : List Request) {patterns extensions : Value} (hpatterns : patterns.IsStrings)
    (hextensions : extensions.IsStrings) :
    let result :=
      ((c.after (c.start arena) history).collect c.sources c.current patterns extensions).result
    result = c.uncached patterns extensions ∧
      (∀ e, c.sources.list patterns extensions = .error e → result = .error e) ∧
      (∀ listed, c.sources.list patterns extensions = .ok listed →
        (∀ keys, result = .ok keys → keys.Nodup ∧
          ∀ key, key ∈ keys ↔ ∃ f ∈ listed, f.IsTarget extensions ∧
            ∃ found, c.fileKeys (c.current.absolute f.path) = .ok found ∧ key ∈ found) ∧
        ∀ e, result = .error e ↔ ∃ before f after, listed = before ++ f :: after ∧
          f.IsTarget extensions ∧
          (∀ g ∈ before, g.IsTarget extensions →
            ∃ found, c.fileKeys (c.current.absolute g.path) = .ok found) ∧
          let path := c.current.absolute f.path
          c.sources.read path = .error e ∨ ∃ text, c.sources.read path = .ok text ∧
            c.policy (Path.ofString (nameOf path)) = .error e) ∧
      ∀ path text config, c.sources.read path = .ok text →
        c.policy (Path.ofString (nameOf path)) = .ok config →
          let run := do (← (c.catalogue.resolve config.parser).2.run text
            (config.parserOptions.forExtraction (nameOf path))).keys
          (∀ found, run = .ok found → c.fileKeys path = .ok found) ∧
            ∀ e, run = .error e → c.fileKeys path = .ok [] := by
  intro result
  have hagrees := (c.agrees_start arena).after hlist history
  have hresult : result = c.uncached patterns extensions :=
    (hagrees.collect hlist patterns extensions).2 hpatterns hextensions
  refine ⟨hresult, fun e he => ?_, fun listed hlisted => ?_, fun path text config hread hconfig =>
    ⟨fun found => fileKeys_of_run_eq_ok hread hconfig,
      fun e => fileKeys_of_run_eq_error hread hconfig⟩⟩
  · rw [hresult, uncached_of_list_eq_error hpatterns hextensions he]
  obtain ⟨suffixes, hsuffixes, hselected⟩ :=
    c.exists_selected_of_list hpatterns hextensions hlisted
  constructor
  · intro keys hkeys
    obtain ⟨hnodup, paths, hpaths, hmem⟩ := uncached_eq_ok (hresult.symm.trans hkeys)
    obtain rfl := Except.ok.inj (hselected.symm.trans hpaths)
    refine ⟨hnodup, fun key => (hmem key).trans ?_⟩
    simp only [List.mem_map, List.mem_filter, decide_eq_true_iff, hsuffixes]
    constructor
    · intro h
      obtain ⟨_, ⟨f, ⟨hf, htarget⟩, rfl⟩, hfound⟩ := h
      exact ⟨f, hf, htarget, hfound⟩
    · intro h
      obtain ⟨f, hf, htarget, hfound⟩ := h
      exact ⟨_, ⟨f, ⟨hf, htarget⟩, rfl⟩, hfound⟩
  · intro e
    rw [hresult, uncached_eq_error_iff hselected, exists_split_map_filter_iff]
    simp only [hsuffixes, FoundFile.IsTarget, fileKeys_eq_error_iff]

/-- A parser that takes a whole text for the argument of a translator call. -/
def wholeTextParser : EntryPoint RawResult where
  run text _ :=
    let call : Node := .call {} (.identifier {} "t") [.literal {} (.ofString text) text] false
    .ok (.result ⟨.tree (.program {} [call] none), .null⟩)

/-- A project whose files are single keys: two files with the same key, one with another, one to be
ignored, one that is no text, and one without a key. -/
def sampleWords : Setting where
  sources := Project.sources
    (.directory [("app", .directory [("a.js", .file [104, 105]), ("b.js", .file [98, 121, 101]),
      ("c.js", .file [104, 105]), ("old.js", .file [111, 108, 100]), ("bytes.js", .file [255]),
      ("notes.txt", .file [])])])
    ⟨.slash, ["app"]⟩ ["old.js"]
  current := ⟨.slash, ["app"]⟩
  policy := ParserPolicy.project { parser := some "whole" } ⟨.slash, ["app"]⟩ ⟨.slash, ["app"]⟩
  catalogue := Catalogue.new { installed := fun _ => false, tree? := fun _ _ => none }
    [("whole", .object (some wholeTextParser) none none)] (.grouped [])

/-- A file of the sample project, as it is listed. -/
def sampleFound (name : String) (ignored : Bool := false) : FoundFile :=
  ⟨⟨.slash, ["app", name]⟩, ignored⟩

/-- A collection, a reset, a collection that fails, a selection that is refused, and a load. -/
def sampleHistory : List Request :=
  [.collect (.list [.str "a.js"]) (.list [.str ".js"]), .reset,
    .collect (.list [.str "a.js", .str "bytes.js", .str "b.js"]) (.list [.str ".js"]),
    .group (.int 1) .null, .load 0]

/-- In the sample project with a history, a collection gives the two keys of the three scripts that
are listed and not to be ignored, and one that comes to a file that is no text fails. -/
theorem collect_eq_uncached_sampleWords :
    let collected names :=
      ((sampleWords.after (sampleWords.start {}) sampleHistory).collect sampleWords.sources
        sampleWords.current (.tuple (names.map .str)) (.tuple [.str ".js"])).result
    let listed := [sampleFound "a.js", sampleFound "old.js" true, sampleFound "notes.txt",
      sampleFound "b.js", sampleFound "c.js"]
    let keys := [Text.ofString "hi", Text.ofString "bye"]
    sampleWords.sources.ListsByItems ∧
      collected ["a.js", "old.js", "notes.txt", "b.js", "c.js"] = .ok keys ∧
      (∀ key, key ∈ keys ↔ ∃ f ∈ listed, f.IsTarget (.tuple [.str ".js"]) ∧
        ∃ found, sampleWords.fileKeys (sampleWords.current.absolute f.path) = .ok found ∧
          key ∈ found) ∧
      collected ["a.js", "bytes.js", "b.js"] = .error .notUtf8 := by
  intro collected listed keys
  have hlist : sampleWords.sources.ListsByItems := Project.listsByItems_sources _ _ _
  have hpatterns (names : List String) : (Value.tuple (names.map .str)).IsStrings :=
    .inr ⟨names, rfl⟩
  have hextensions : (Value.tuple [.str ".js"]).IsStrings := .inr ⟨[".js"], rfl⟩
  obtain ⟨hresult, -, hfound, -⟩ := collect_eq_uncached sampleWords hlist {} sampleHistory
    (hpatterns ["a.js", "old.js", "notes.txt", "b.js", "c.js"]) hextensions
  have hkeys : collected ["a.js", "old.js", "notes.txt", "b.js", "c.js"] = .ok keys := by
    refine hresult.trans ?_
    decide +kernel
  refine ⟨hlist, hkeys, ((hfound listed rfl).1 keys hkeys).2, ?_⟩
  obtain ⟨-, -, hfailed, -⟩ := collect_eq_uncached sampleWords hlist {} sampleHistory
    (hpatterns ["a.js", "bytes.js", "b.js"]) hextensions
  refine ((hfailed [sampleFound "a.js", sampleFound "bytes.js", sampleFound "b.js"] rfl).2 _).2
    ⟨[sampleFound "a.js"], sampleFound "bytes.js", [sampleFound "b.js"], rfl,
      ⟨rfl, [.str ".js"], rfl, List.mem_singleton.2 rfl⟩, fun g hg _ => ?_, .inl rfl⟩
  rw [List.mem_singleton.1 hg]
  exact ⟨[Text.ofString "hi"], by decide +kernel⟩

end Setting

end TranslationKeys
