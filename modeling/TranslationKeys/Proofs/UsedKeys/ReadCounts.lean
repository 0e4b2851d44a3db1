import TranslationKeys.Proofs.UsedKeys.Runs

/-!
# How often a file is read and parsed

Targets are kept as they are listed, so a file that several patterns select is a target several
times and has as many key files. As long as nothing but one selection is collected, each of these
key files is loaded once. What bounds the work along a run is the number of key files of a path that
are still to be loaded: no request adds to it, and each parse takes one away.
-/

namespace TranslationKeys

namespace Event

/-- Whether a file is handed to a parser. -/
def isParseOf (path : Path) : Event → Bool
  | parsed p _ => p == path
  | _ => false

/-- Whether a file is read. -/
def isReadOf (path : Path) : Event → Bool
  | read p => p == path
  | _ => false

end Event

namespace Arena

/-- Whether the key file at a place is one of a path and still to be loaded. -/
def isPending (a : Arena) (path : Path) (place : Nat) : Bool :=
  (a.cells[place]?).any fun cell => cell.file.path == path && cell.file.value.isNone

/-- The number of key files of a path that are still to be loaded. -/
def pending (a : Arena) (path : Path) (places : List Nat) : Nat :=
  places.countP (a.isPending path)

variable {a b : Arena} {path : Path} {place : Nat} {places : List Nat}

/-- What is still to be loaded later is still to be loaded before. -/
theorem Extends.isPending (h : a.Extends b) {cell : KeyFile} (hcell : a.cells[place]? = some cell)
    (hpending : b.isPending path place = true) : a.isPending path place = true := by
  obtain ⟨cell', hcell', hpath, -, hvalue⟩ := h place cell hcell
  simp only [Arena.isPending, hcell', hcell, Option.any_some, Bool.and_eq_true,
    Option.isNone_iff_eq_none, hpath] at hpending ⊢
  refine ⟨hpending.1, ?_⟩
  cases hkeys : cell.file.value with
  | none => rfl
  | some keys => exact nomatch hpending.2.symm.trans (hvalue keys hkeys)

/-- Key files stay. -/
theorem Extends.cells_ne_none (h : a.Extends b) (hcell : a.cells[place]? ≠ none) :
    b.cells[place]? ≠ none := by
  obtain ⟨cell, hcell⟩ := Option.ne_none_iff_exists'.1 hcell
  obtain ⟨cell', hcell', -⟩ := h place cell hcell
  rw [hcell']
  exact Option.some_ne_none cell'

/-- The number of key files that are still to be loaded never grows. -/
theorem Extends.pending_le (h : a.Extends b) (hcells : ∀ place ∈ places, a.cells[place]? ≠ none)
    (path : Path) : b.pending path places ≤ a.pending path places := by
  refine List.countP_mono_left fun place hplace hpending => ?_
  obtain ⟨cell, hcell⟩ := Option.ne_none_iff_exists'.1 (hcells place hplace)
  exact h.isPending hcell hpending

/-- The number of key files that are still to be loaded decreases when one of them is. -/
theorem Extends.pending_lt (h : a.Extends b) (hcells : ∀ place ∈ places, a.cells[place]? ≠ none)
    (hplace : place ∈ places) (path : Path) (hbefore : a.isPending path place = true)
    (hafter : b.isPending path place = false) :
    b.pending path places < a.pending path places := by
  obtain ⟨before, after, rfl⟩ := List.append_of_mem hplace
  have hleft := h.pending_le (fun p hp => hcells p (List.mem_append_left _ hp)) path
  have hright := h.pending_le
    (fun p hp => hcells p (List.mem_append_right _ (List.mem_cons_of_mem _ hp))) path
  simp only [pending, List.countP_append, List.countP_cons, hbefore, hafter] at hleft hright ⊢
  simp only [if_true, Bool.false_eq_true, if_false]
  omega

/-- Of new key files, those of a path are all still to be loaded. -/
theorem pending_of_new {policy : ParserPolicy} {paths : List Path}
    (h : List.Forall₂ (fun place path =>
      a.cells[place]? = some ⟨{ path := path }, policy⟩) places paths) (path : Path) :
    a.pending path places = paths.count path := by
  induction h with
  | nil => rfl
  | cons hplace _ ih =>
    rw [pending, List.countP_cons, List.count_cons, ← ih, pending]
    simp [isPending, hplace]

end Arena

namespace UsedKeys

variable {sources : Sources} {current : Path} {u : UsedKeys} {place : Nat}
  {places members : List Nat}

/-- Each parse of a file takes away one key file that is still to be loaded. -/
theorem count_parsed_load (sources : Sources) (h : u.IsSound)
    (hcells : ∀ p ∈ members, u.arena.cells[p]? ≠ none) (hplace : place ∈ members) (path : Path) :
    (u.load sources place).events.countP (Event.isParseOf path) +
        (u.load sources place).state.arena.pending path members ≤
      u.arena.pending path members := by
  have hgrows := (h.load sources place).arena
  have hends := load_ends sources u place
  generalize u.load sources place = o at hends hgrows
  cases hends with
  | absent | known | unreadable | unconfigured => simp [Event.isParseOf]
  | @loaded cell _ _ _ _ _ hcell hvalue =>
    have hlt := (List.getElem?_eq_some_iff.1 hcell).1
    have hle := hgrows.pending_le hcells path
    by_cases hpath : cell.file.path = path
    · have hless := hgrows.pending_lt hcells hplace path
        (by simp [Arena.isPending, hcell, hvalue, hpath]) (by simp [Arena.isPending, hlt])
      simp only [Event.isParseOf, List.countP_cons, List.countP_nil, hpath,
        beq_self_eq_true] at hless ⊢
      simp only [Bool.false_eq_true, if_true, if_false]
      omega
    · simpa [Event.isParseOf, hpath] using hle

/-- A file that can be read and configured. -/
def CanLoad (sources : Sources) (policy : ParserPolicy) (path : Path) : Prop :=
  (∃ text, sources.read path = .ok text) ∧
    ∃ config, policy (Path.ofString (Setting.nameOf path)) = .ok config

/-- The key file of a file that can be read and configured gives keys, and its file is read as often
as it is parsed. -/
theorem count_read_load {policy : ParserPolicy} {path : Path}
    (hfile : u.arena.HasFile policy place path) (hcan : CanLoad sources policy path) :
    (∃ keys, (u.load sources place).result = .ok keys) ∧
      ∀ p, (u.load sources place).events.countP (Event.isReadOf p) =
        (u.load sources place).events.countP (Event.isParseOf p) := by
  obtain ⟨cell, hcell, rfl, rfl⟩ := hfile
  obtain ⟨⟨text, hread⟩, config, hconfig⟩ := hcan
  have hends := load_ends sources u place
  generalize u.load sources place = o at hends
  cases hends with
  | absent hcell' => cases hcell.symm.trans hcell'
  | known => exact ⟨⟨_, rfl⟩, fun _ => rfl⟩
  | loaded =>
    refine ⟨⟨_, rfl⟩, fun p => ?_⟩
    simp [List.countP_cons, Event.isReadOf, Event.isParseOf]
  | unreadable hcell' _ hread' =>
    obtain rfl := Option.some.inj (hcell.symm.trans hcell')
    cases hread.symm.trans hread'
  | unconfigured hcell' _ _ hconfig' =>
    obtain rfl := Option.some.inj (hcell.symm.trans hcell')
    cases hconfig.symm.trans hconfig'

/-- The parses of a file take away as many key files that are still to be loaded. -/
theorem count_parsed_loadAll (sources : Sources) (h : u.IsSound)
    (hcells : ∀ p ∈ members, u.arena.cells[p]? ≠ none) (hplaces : places ⊆ members) (path : Path) :
    (u.loadAll sources places).events.countP (Event.isParseOf path) +
        (u.loadAll sources places).state.arena.pending path members ≤
      u.arena.pending path members := by
  induction places generalizing u with
  | nil => simp [loadAll]
  | cons place places ih =>
    obtain ⟨hplace, hplaces⟩ := List.cons_subset.1 hplaces
    have hload := h.load sources place
    have hcount := count_parsed_load sources h hcells hplace path
    cases hresult : (u.load sources place).result with
    | error f =>
      rw [loadAll_cons_of_error hresult]
      exact hcount
    | ok keys =>
      have hrest := ih hload.sound (fun p hp => hload.arena.cells_ne_none (hcells p hp)) hplaces
      rw [loadAll_cons_of_ok hresult]
      simp only [List.countP_append]
      omega

/-- Files that can be read and configured are read as often as they are parsed. -/
theorem count_read_loadAll (h : u.IsSound) {policy : ParserPolicy} {paths : List Path}
    (hfiles : List.Forall₂ (u.arena.HasFile policy) places paths)
    (hcan : ∀ path ∈ paths, CanLoad sources policy path) (p : Path) :
    (u.loadAll sources places).events.countP (Event.isReadOf p) =
      (u.loadAll sources places).events.countP (Event.isParseOf p) := by
  induction places generalizing u paths with
  | nil => rfl
  | cons place places ih =>
    obtain ⟨path, paths, hfile, hothers, rfl⟩ := List.forall₂_cons_left_iff.1 hfiles
    obtain ⟨hpath, hpaths⟩ := List.forall_mem_cons.1 hcan
    have hload := h.load sources place
    obtain ⟨⟨keys, hresult⟩, hcount⟩ := count_read_load hfile hpath
    have hrest := ih hload.sound (hothers.imp fun _ _ => hload.arena.hasFile) hpaths
    rw [loadAll_cons_of_ok hresult]
    simp only [List.countP_append, hcount, hrest]

/-- Asking for targets reads and parses nothing. -/
theorem count_resolveTargets (sources : Sources) (current : Path) (u : UsedKeys)
    (patterns extensions : Value) (p : Path) :
    (u.resolveTargets sources current patterns extensions).events.countP (Event.isReadOf p) = 0 ∧
      (u.resolveTargets sources current patterns extensions).events.countP
        (Event.isParseOf p) = 0 := by
  have hends := resolveTargets_ends sources current u patterns extensions
  generalize u.resolveTargets sources current patterns extensions = o at hends
  cases hends <;> exact ⟨rfl, rfl⟩

/-- Asking for targets in vain changes nothing. -/
theorem state_resolveTargets_of_error {patterns extensions : Value} {f : Failure}
    (h : (u.resolveTargets sources current patterns extensions).result = .error f) :
    (u.resolveTargets sources current patterns extensions).state = u := by
  have hends := resolveTargets_ends sources current u patterns extensions
  generalize u.resolveTargets sources current patterns extensions = o at hends h
  cases hends with
  | refused | unaccepted | unlisted => rfl
  | known | listed => cases h

/-- The files of targets that can all be read and configured are read as often as they are parsed,
and each parse takes away a key file that is still to be loaded. -/
theorem count_collect (h : u.IsSound) {patterns extensions key : Value} {targets : List Path}
    {group : KeyGroup}
    (hgroup : (u.group sources current patterns extensions).result = .ok group)
    (hremembers : (u.group sources current patterns extensions).state.Remembers key targets group)
    (path : Path) :
    let collected := u.collect sources current patterns extensions
    collected.events.countP (Event.isParseOf path) +
        collected.state.arena.pending path group.members ≤
          (u.group sources current patterns extensions).state.arena.pending path group.members ∧
      ((∀ p ∈ targets, CanLoad sources u.policy p) →
        collected.events.countP (Event.isReadOf path) =
          collected.events.countP (Event.isParseOf path)) := by
  have hgrows := h.group sources current patterns extensions
  have hmembers := hremembers.members hgrows.sound
  rw [hgrows.policy] at hmembers
  have hevents : (u.group sources current patterns extensions).events =
      (u.resolveTargets sources current patterns extensions).events := by
    cases hresult : (u.resolveTargets sources current patterns extensions).result with
    | error f => rw [group_of_error hresult]
    | ok paths => rw [group_of_ok hresult]
  obtain ⟨hreads, hparses⟩ := count_resolveTargets sources current u patterns extensions path
  have hcells : ∀ p ∈ group.members,
      (u.group sources current patterns extensions).state.arena.cells[p]? ≠ none := by
    intro p hp
    obtain ⟨_, -, cell, hcell, -⟩ := exists_mem_right_of_forall₂ hmembers hp
    rw [hcell]
    exact Option.some_ne_none cell
  have hloaded := count_parsed_loadAll sources hgrows.sound hcells (List.Subset.refl _) path
  rw [collect_of_ok hgroup]
  simp only [List.countP_append, hevents, hreads, hparses, Nat.zero_add]
  exact ⟨hloaded, fun hcan => count_read_loadAll hgrows.sound hmembers hcan path⟩

/-- What is asked of the outside along a run. -/
def eventsAlong (u : UsedKeys) : List Occasion → List Event
  | [] => []
  | o :: run => (u.perform o).2 ++ eventsAlong (u.perform o).1 run

end UsedKeys

namespace Setting

open UsedKeys (CanLoad)

variable {c : Setting} {u : UsedKeys} {key : Value} {calls : List (Value × Value)}

/-- A run that collects one selection after the other. -/
def collections (c : Setting) (calls : List (Value × Value)) : List Occasion :=
  calls.map fun call => ⟨c.sources, c.current, .collect call.1 call.2⟩

/-- The calls of a run all have a given key. -/
def HaveKey (key : Value) (calls : List (Value × Value)) : Prop :=
  ∀ call ∈ calls, Arguments.key { positional := [call.1, call.2] } = .ok key

/-- Once the targets of a key are known, a run that collects them parses no more files than are
still to be loaded. -/
theorem count_of_remembers {targets : List Path} {group : KeyGroup} (h : u.IsSound)
    (hexact : Memo.IsExact key) (hremembers : u.Remembers key targets group)
    (hcalls : HaveKey key calls) (path : Path) :
    (u.eventsAlong (c.collections calls)).countP (Event.isParseOf path) ≤
        u.arena.pending path group.members ∧
      ((∀ p ∈ targets, CanLoad c.sources u.policy p) →
        (u.eventsAlong (c.collections calls)).countP (Event.isReadOf path) =
          (u.eventsAlong (c.collections calls)).countP (Event.isParseOf path)) := by
  induction calls generalizing u with
  | nil => exact ⟨Nat.zero_le _, fun _ => rfl⟩
  | cons call calls ih =>
    obtain ⟨hkey, hcalls⟩ := List.forall_mem_cons.1 hcalls
    have hgrows := h.collect c.sources c.current call.1 call.2
    obtain ⟨hgroup, -, harena⟩ := hremembers.group_eq c.sources c.current hkey
    obtain ⟨hparses, hreads⟩ := UsedKeys.count_collect h hgroup
      (hremembers.grows hexact (h.group c.sources c.current call.1 call.2)) path
    -- The first call leaves as many key files fewer to load as it parses, and the rest of the run
    -- parses at most those.
    obtain ⟨hrest, hrestReads⟩ :=
      ih hgrows.sound (hremembers.grows hexact hgrows) hcalls
    simp only [collections, List.map_cons, UsedKeys.eventsAlong, UsedKeys.perform,
      List.countP_append] at hrest hrestReads ⊢
    rw [harena] at hparses
    refine ⟨by omega, fun hcan => ?_⟩
    rw [hreads hcan, hrestReads (hgrows.policy ▸ hcan)]

/-- Targets that are not known are those that are listed. -/
theorem selected_of_resolveTargets {patterns extensions : Value} {targets : List Path}
    (hempty : u.targets.entries = [])
    (h : (u.resolveTargets c.sources c.current patterns extensions).result = .ok targets) :
    c.selected patterns extensions = .ok targets := by
  have hends := UsedKeys.resolveTargets_ends c.sources c.current u patterns extensions
  generalize u.resolveTargets c.sources c.current patterns extensions = o at hends h
  cases hends with
  | refused | unaccepted | unlisted => cases h
  | known _ hfound => simp [Memo.find?, hempty] at hfound
  | listed _ _ haccepted hlist =>
    obtain rfl := Except.ok.inj h
    rw [selected, haccepted, hlist, Targets.select_eq]
    rfl

/-- A run that collects one selection from the beginning parses a file at most as often as it is a
target, and so often it is read at most if all targets can be read and configured. -/
theorem count_of_empty (h : u.IsSound) (htargets : u.targets.entries = [])
    (hgroups : u.groups.entries = []) (hexact : Memo.IsExact key) (hcalls : HaveKey key calls) :
    ∃ targets, (targets = [] ∨ ∃ call ∈ calls, c.selected call.1 call.2 = .ok targets) ∧
      ∀ path, (u.eventsAlong (c.collections calls)).countP (Event.isParseOf path) ≤
          targets.count path ∧
        ((∀ p ∈ targets, CanLoad c.sources u.policy p) →
          (u.eventsAlong (c.collections calls)).countP (Event.isReadOf path) =
            (u.eventsAlong (c.collections calls)).countP (Event.isParseOf path)) := by
  induction calls with
  | nil => exact ⟨[], .inl rfl, fun path => ⟨Nat.zero_le _, fun _ => rfl⟩⟩
  | cons call calls ih =>
    obtain ⟨hkey, hcalls⟩ := List.forall_mem_cons.1 hcalls
    cases hresult : (u.resolveTargets c.sources c.current call.1 call.2).result with
    | error f =>
      -- Nothing is remembered, and the next call starts from the beginning again.
      have hcollect : u.perform ⟨c.sources, c.current, .collect call.1 call.2⟩ =
          (u, (u.resolveTargets c.sources c.current call.1 call.2).events) := by
        have hgroup := UsedKeys.group_of_error hresult
        simp only [UsedKeys.perform, UsedKeys.collect_of_error (congrArg Outcome.result hgroup),
          hgroup, UsedKeys.state_resolveTargets_of_error hresult]
      obtain ⟨targets, hselected, hcount⟩ := ih hcalls
      refine ⟨targets, hselected.imp_right ?_, fun path => ?_⟩
      · rintro ⟨call', hcall', hselected⟩
        exact ⟨call', List.mem_cons_of_mem _ hcall', hselected⟩
      · obtain ⟨hreads, hparses⟩ :=
          UsedKeys.count_resolveTargets c.sources c.current u call.1 call.2 path
        simpa only [collections, List.map_cons, UsedKeys.eventsAlong, hcollect, List.countP_append,
          hreads, hparses, Nat.zero_add] using hcount path
    | ok targets =>
      refine ⟨targets, .inr ⟨call, List.mem_cons_self,
        selected_of_resolveTargets htargets hresult⟩, fun path => ?_⟩
      have hgrows := h.collect c.sources c.current call.1 call.2
      obtain ⟨group, hgroup, -, hnew⟩ := UsedKeys.group_of_find?_eq_none hresult
        (by simp [Memo.find?, hgroups])
      obtain ⟨paths, hpaths, hremembers⟩ := h.remembers_group hkey hexact hgroup
      obtain rfl := Except.ok.inj (hresult.symm.trans hpaths)
      obtain ⟨hparses, hreads⟩ := UsedKeys.count_collect h hgroup hremembers path
      have hkept :
          (u.collect c.sources c.current call.1 call.2).state.Remembers key targets group := by
        rw [UsedKeys.collect_of_ok hgroup]
        exact hremembers.grows hexact
          ((h.group c.sources c.current call.1 call.2).sound.loadAll c.sources group.members)
      obtain ⟨hrest, hrestReads⟩ :=
        count_of_remembers (c := c) hgrows.sound hexact hkept hcalls path
      rw [Arena.pending_of_new hnew] at hparses
      simp only [collections, List.map_cons, UsedKeys.eventsAlong, UsedKeys.perform,
        List.countP_append] at hrest hrestReads ⊢
      refine ⟨by omega, fun hcan => ?_⟩
      rw [hreads hcan, hrestReads (hgrows.policy ▸ hcan)]

/-- A file is parsed at most as often as it is a target. In a run that only collects one selection,
given by lists or tuples, each file is handed to a parser at most as often as the targets that were
listed hold it; and if the targets can all be read and configured, it is also read at most so
often. -/
theorem count_parsed_le_count_targets (c : Setting) (arena : Arena) {patterns extensions : Value}
    (hpatterns : patterns.IsStrings) (hextensions : extensions.IsStrings)
    (calls : List (Value × Value))
    (hcalls : ∀ call ∈ calls, call.1.SameSequence patterns ∧ call.2.SameSequence extensions) :
    let events := (c.start arena).eventsAlong (c.collections calls)
    ∃ targets, (targets = [] ∨ ∃ call ∈ calls, c.selected call.1 call.2 = .ok targets) ∧
      ∀ path, events.countP (Event.isParseOf path) ≤ targets.count path ∧
        ((∀ p ∈ targets, CanLoad c.sources c.policy p) →
          events.countP (Event.isReadOf path) ≤ targets.count path) := by
  intro events
  obtain ⟨key, hkey⟩ := Arguments.exists_key_of_isStrings hpatterns hextensions
  have hkeys : HaveKey key calls := fun call hcall =>
    Arguments.key_eq_ok_of_sameSequence (hcalls call hcall).1 (hcalls call hcall).2 hkey
  obtain ⟨targets, hselected, hcount⟩ := count_of_empty (c := c) (u := c.start arena)
    (.fresh c.policy c.catalogue arena) rfl rfl (Arguments.isExact_key hpatterns hextensions hkey)
    hkeys
  refine ⟨targets, hselected, fun path => ⟨(hcount path).1, fun hcan => ?_⟩⟩
  rw [(hcount path).2 hcan]
  exact (hcount path).1

/-- A project with one component that no parser can read, in which keys are collected. -/
def sampleProject : Setting where
  sources := Project.sources
    (.directory [("app", .directory [("page.vue", .file [60, 112, 62]), ("notes.txt", .file [])])])
    ⟨.slash, ["app"]⟩ []
  current := ⟨.slash, ["app"]⟩
  policy := ParserPolicy.project {} ⟨.slash, ["app"]⟩ ⟨.slash, ["app"]⟩
  catalogue := Catalogue.new { installed := fun _ => false, tree? := fun _ _ => none } []
    (.grouped [])

/-- The page of the sample project. -/
def samplePage : Path := ⟨.slash, ["app", "page.vue"]⟩

/-- A collection by two patterns that both select the page, once by lists and once by tuples. -/
def repeatedCalls : List (Value × Value) :=
  [(.list [.str "page.vue", .str "page.vue"], .list [.str ".vue"]),
    (.tuple [.str "page.vue", .str "page.vue"], .tuple [.str ".vue"])]

/-- What the run of the two collections asks of the outside. -/
def repeatedEvents : List Event :=
  (sampleProject.start {}).eventsAlong (sampleProject.collections repeatedCalls)

/-- A page that two patterns select is a target twice, and is read and parsed twice: the bound is
met. -/
theorem count_parsed_of_repeated_pattern :
    (∀ call ∈ repeatedCalls, call.1.SameSequence (.list [.str "page.vue", .str "page.vue"]) ∧
        call.2.SameSequence (.list [.str ".vue"])) ∧
      sampleProject.selected (.list [.str "page.vue", .str "page.vue"]) (.list [.str ".vue"]) =
        .ok [samplePage, samplePage] ∧
      CanLoad sampleProject.sources sampleProject.policy samplePage ∧
      repeatedEvents.countP (Event.isParseOf samplePage) = 2 ∧
      repeatedEvents.countP (Event.isReadOf samplePage) = 2 ∧
      ∃ targets, (targets = [] ∨
          ∃ call ∈ repeatedCalls, sampleProject.selected call.1 call.2 = .ok targets) ∧
        ∀ path, repeatedEvents.countP (Event.isParseOf path) ≤ targets.count path ∧
          ((∀ p ∈ targets, CanLoad sampleProject.sources sampleProject.policy p) →
            repeatedEvents.countP (Event.isReadOf path) ≤ targets.count path) := by
  have hcalls : ∀ call ∈ repeatedCalls,
      call.1.SameSequence (.list [.str "page.vue", .str "page.vue"]) ∧
        call.2.SameSequence (.list [.str ".vue"]) := by
    simp only [repeatedCalls, List.forall_mem_cons]
    exact ⟨⟨.inl rfl, .inl rfl⟩, ⟨.inr ⟨_, rfl, rfl⟩, .inr ⟨_, rfl, rfl⟩⟩, by simp⟩
  exact ⟨hcalls, rfl, ⟨⟨"<p>", rfl⟩, _, rfl⟩, by decide +kernel, by decide +kernel,
    count_parsed_le_count_targets sampleProject {} (.inr ⟨["page.vue", "page.vue"], rfl⟩)
      (.inr ⟨[".vue"], rfl⟩) repeatedCalls hcalls⟩

end Setting

end TranslationKeys
