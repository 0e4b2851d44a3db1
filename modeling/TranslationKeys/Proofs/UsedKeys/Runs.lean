import TranslationKeys.Proofs.Memo.Lasting
import TranslationKeys.Proofs.UsedKeys.Transparency

/-!
# Runs over an outside that changes

Between two requests files may come, go and change. What was remembered stays nevertheless: no
request but a reset forgets targets or groups, and a key file that is loaded keeps its keys. This is
said of each request and then of a whole run.
-/

namespace TranslationKeys

/-- A request, with the outside at the time. -/
structure Occasion where
  /-- The outside. -/
  sources : Sources
  /-- The current directory. -/
  current : Path
  /-- The request. -/
  request : Setting.Request

namespace Arena

/-- The keys at a place, if they are loaded. -/
def keysAt? (a : Arena) (place : Nat) : Option (List Text) :=
  (a.cells[place]?).bind fun cell => cell.file.value

/-- A place has a key file for a path under a policy. -/
def HasFile (a : Arena) (policy : ParserPolicy) (place : Nat) (path : Path) : Prop :=
  ∃ cell : KeyFile, a.cells[place]? = some cell ∧ cell.file.path = path ∧ cell.policy = policy

/-- An arena has all key files of another one, and those that are loaded there with the same
keys. -/
def Extends (a b : Arena) : Prop :=
  ∀ (place : Nat) (cell : KeyFile), a.cells[place]? = some cell →
    ∃ cell' : KeyFile, b.cells[place]? = some cell' ∧ cell'.file.path = cell.file.path ∧
      cell'.policy = cell.policy ∧
      ∀ keys, cell.file.value = some keys → cell'.file.value = some keys

namespace Extends

variable {a b c : Arena} {place : Nat}

/-- An arena extends itself. -/
theorem refl (a : Arena) : a.Extends a :=
  fun _ cell hcell => ⟨cell, hcell, rfl, rfl, fun _ => id⟩

/-- Extensions compose. -/
theorem trans (h : a.Extends b) (h' : b.Extends c) : a.Extends c := by
  intro place cell hcell
  obtain ⟨cell', hcell', hpath, hpolicy, hvalue⟩ := h place cell hcell
  obtain ⟨cell'', hcell'', hpath', hpolicy', hvalue'⟩ := h' place cell' hcell'
  exact ⟨cell'', hcell'', hpath'.trans hpath, hpolicy'.trans hpolicy,
    fun keys hkeys => hvalue' keys (hvalue keys hkeys)⟩

/-- Keys that are loaded stay loaded. -/
theorem keysAt? (h : a.Extends b) {keys : List Text} (hkeys : a.keysAt? place = some keys) :
    b.keysAt? place = some keys := by
  obtain ⟨cell, hcell, hvalue⟩ := Option.bind_eq_some_iff.1 hkeys
  obtain ⟨cell', hcell', -, -, hkept⟩ := h place cell hcell
  exact Option.bind_eq_some_iff.2 ⟨cell', hcell', hkept keys hvalue⟩

/-- A key file keeps standing for its path. -/
theorem hasFile (h : a.Extends b) {policy : ParserPolicy} {path : Path}
    (hfile : a.HasFile policy place path) : b.HasFile policy place path := by
  obtain ⟨cell, hcell, rfl, rfl⟩ := hfile
  obtain ⟨cell', hcell', hpath, hpolicy, -⟩ := h place cell hcell
  exact ⟨cell', hcell', hpath, hpolicy⟩

/-- A key file that is not loaded can be replaced by one for the same path. -/
theorem set {cell cell' : KeyFile} (hcell : a.cells[place]? = some cell)
    (hpath : cell'.file.path = cell.file.path) (hpolicy : cell'.policy = cell.policy)
    (hvalue : cell.file.value = none) :
    a.Extends { a with cells := a.cells.set place cell' } := by
  intro place' held hheld
  by_cases hplace : place = place'
  · subst hplace
    obtain rfl : cell = held := Option.some.inj (hcell.symm.trans hheld)
    have hlt := (List.getElem?_eq_some_iff.1 hcell).1
    refine ⟨cell', by simp [hlt], hpath, hpolicy, fun keys hkeys => ?_⟩
    exact nomatch hvalue.symm.trans hkeys
  · exact ⟨held, by simp [hplace, hheld], rfl, rfl, fun _ => id⟩

/-- A new group leaves the key files that are there. -/
theorem makeGroup (a : Arena) (policy : ParserPolicy) (paths : List Path) :
    a.Extends (a.makeGroup policy paths).1 := by
  intro place cell hcell
  refine ⟨cell, ?_, rfl, rfl, fun _ => id⟩
  unfold Arena.makeGroup
  split
  · exact hcell
  · have hlt := (List.getElem?_eq_some_iff.1 hcell).1
    simp only [List.getElem?_append_left hlt, hcell]

end Extends

/-- The key files of a new group stand for its paths, and none of them is loaded. -/
theorem forall₂_makeGroup (a : Arena) (policy : ParserPolicy) (paths : List Path) :
    List.Forall₂ (fun place path =>
        (a.makeGroup policy paths).1.cells[place]? = some ⟨{ path := path }, policy⟩)
      (a.makeGroup policy paths).2.members paths := by
  unfold makeGroup
  split
  · rename_i hempty
    rw [List.isEmpty_iff.1 hempty]
    exact .nil
  · refine List.forall₂_iff_get.2 ⟨by simp, fun i hi hi' => ?_⟩
    simp [hi']

/-- The places of a new group are different. -/
theorem nodup_makeGroup (a : Arena) (policy : ParserPolicy) (paths : List Path) :
    (a.makeGroup policy paths).2.members.Nodup := by
  unfold makeGroup
  split
  · exact List.nodup_nil
  · exact List.nodup_range.map fun _ _ => Nat.add_left_cancel

end Arena

namespace KeyFile

variable {sources : Sources} {text : String} {f : Failure}

/-- A file that cannot be read is asked for and nothing else. -/
theorem load_of_unreadable (r : KeyFile) (hread : sources.read r.file.path = .error f)
    (s : Loading) :
    r.load sources s = ({ s with events := s.events ++ [.read r.file.path] }, .error f) := by
  simp only [load, hread]

/-- A file whose configuration cannot be found is read, but not parsed. -/
theorem load_of_unconfigured (r : KeyFile) (hread : sources.read r.file.path = .ok text)
    (hconfig : r.policy (Path.ofString (Setting.nameOf r.file.path)) = .error f) (s : Loading) :
    r.load sources s =
      ({ s with events := s.events ++ [.read r.file.path, .configured r.file.path] },
        .error f) := by
  unfold Setting.nameOf at hconfig
  simp only [load, hread, collectKeys, hconfig, List.append_nil]

/-- A file that can be read and configured is parsed. -/
theorem exists_load_eq_ok (r : KeyFile) {config : ParserChoice}
    (hread : sources.read r.file.path = .ok text)
    (hconfig : r.policy (Path.ofString (Setting.nameOf r.file.path)) = .ok config) (s : Loading) :
    ∃ catalogue calls keys, r.load sources s =
      (⟨catalogue, s.events ++
        [.read r.file.path, .configured r.file.path, .parsed r.file.path calls]⟩, .ok keys) := by
  unfold Setting.nameOf at hconfig
  simp only [load, hread, collectKeys, hconfig, List.append_assoc, List.cons_append,
    List.nil_append]
  exact ⟨_, _, _, rfl⟩

end KeyFile

namespace UsedKeys

variable {sources : Sources} {current : Path} {u v w : UsedKeys} {place : Nat}

/-- The ways in which asking for the keys of a key file can end. -/
inductive LoadEnds (sources : Sources) (u : UsedKeys) (place : Nat) :
    Outcome (List Text) → Prop where
  /-- There is no key file at the place. -/
  | absent (hcell : u.arena.cells[place]? = none) :
      LoadEnds sources u place ⟨u, [], .error .noSuchIndex⟩
  /-- The keys are loaded already. -/
  | known {cell : KeyFile} {keys : List Text} (hcell : u.arena.cells[place]? = some cell)
      (hvalue : cell.file.value = some keys) :
      LoadEnds sources u place ⟨u, [], .ok keys⟩
  /-- The keys are loaded now. -/
  | loaded {cell : KeyFile} {catalogue : Catalogue} {text : String} {config : ParserChoice}
      {calls : List ParserCall} {keys : List Text} (hcell : u.arena.cells[place]? = some cell)
      (hvalue : cell.file.value = none) (hread : sources.read cell.file.path = .ok text)
      (hconfig : cell.policy (Path.ofString (Setting.nameOf cell.file.path)) = .ok config) :
      LoadEnds sources u place
        ⟨{ u with
            catalogue := catalogue
            arena := { u.arena with
              cells := u.arena.cells.set place
                { cell with file := { cell.file with value := some keys } } } },
          [.read cell.file.path, .configured cell.file.path, .parsed cell.file.path calls],
          .ok keys⟩
  /-- The file cannot be read. -/
  | unreadable {cell : KeyFile} {f : Failure} (hcell : u.arena.cells[place]? = some cell)
      (hvalue : cell.file.value = none) (hread : sources.read cell.file.path = .error f) :
      LoadEnds sources u place ⟨u, [.read cell.file.path], .error f⟩
  /-- The configuration of the file cannot be found. -/
  | unconfigured {cell : KeyFile} {f : Failure} {text : String}
      (hcell : u.arena.cells[place]? = some cell) (hvalue : cell.file.value = none)
      (hread : sources.read cell.file.path = .ok text)
      (hconfig : cell.policy (Path.ofString (Setting.nameOf cell.file.path)) = .error f) :
      LoadEnds sources u place ⟨u, [.read cell.file.path, .configured cell.file.path], .error f⟩

/-- Asking for the keys of a key file ends in one of these ways. -/
theorem load_ends (sources : Sources) (u : UsedKeys) (place : Nat) :
    LoadEnds sources u place (u.load sources place) := by
  unfold load LazyFile.get
  cases hcell : u.arena.cells[place]? with
  | none => exact .absent hcell
  | some cell =>
    have hset : u.arena.cells.set place cell = u.arena.cells := by
      obtain ⟨hlt, rfl⟩ := List.getElem?_eq_some_iff.1 hcell
      exact List.set_getElem_self hlt
    cases hvalue : cell.file.value with
    | some keys =>
      simp only [hset, hvalue]
      exact .known hcell hvalue
    | none =>
      simp only [hvalue]
      cases hread : sources.read cell.file.path with
      | error f =>
        simp only [cell.load_of_unreadable hread, hset]
        exact .unreadable hcell hvalue hread
      | ok text =>
        cases hconfig : cell.policy (Path.ofString (Setting.nameOf cell.file.path)) with
        | error f =>
          simp only [cell.load_of_unconfigured hread hconfig, hset]
          exact .unconfigured hcell hvalue hread hconfig
        | ok config =>
          obtain ⟨catalogue, calls, keys, hload⟩ :=
            cell.exists_load_eq_ok hread hconfig { catalogue := u.catalogue }
          simp only [hload]
          exact .loaded hcell hvalue hread hconfig

/-- Asking goes on after a key file that is asked with success. -/
theorem loadAll_cons_of_ok {keys : List Text} (h : (u.load sources place).result = .ok keys)
    (places : List Nat) :
    u.loadAll sources (place :: places) =
      let rest := (u.load sources place).state.loadAll sources places
      ⟨rest.state, (u.load sources place).events ++ rest.events, rest.result.map (keys ++ ·)⟩ := by
  rw [loadAll]
  revert h
  rcases u.load sources place with ⟨u', events, result⟩
  rintro rfl
  rfl

/-- Asking stops at a key file that fails. -/
theorem loadAll_cons_of_error {f : Failure} (h : (u.load sources place).result = .error f)
    (places : List Nat) :
    u.loadAll sources (place :: places) =
      ⟨(u.load sources place).state, (u.load sources place).events, .error f⟩ := by
  rw [loadAll]
  revert h
  rcases u.load sources place with ⟨u', events, result⟩
  rintro rfl
  rfl

/-- The ways in which asking for the targets of a selection can end. -/
inductive TargetsEnd (sources : Sources) (current : Path) (u : UsedKeys)
    (patterns extensions : Value) : Outcome (List Path) → Prop where
  /-- The selection has no key. -/
  | refused {f : Failure}
      (hkey : Arguments.key { positional := [patterns, extensions] } = .error f) :
      TargetsEnd sources current u patterns extensions ⟨u, [], .error f⟩
  /-- The targets are known. -/
  | known {key : Value} {paths : List Path}
      (hkey : Arguments.key { positional := [patterns, extensions] } = .ok key)
      (hfound : u.targets.find? key = some paths) :
      TargetsEnd sources current u patterns extensions
        ⟨{ u with targets := u.targets.refresh key }, [], .ok paths⟩
  /-- The patterns or the extensions are not accepted. -/
  | unaccepted {f : Failure} (haccepted : Targets.accepted patterns extensions = .error f) :
      TargetsEnd sources current u patterns extensions ⟨u, [], .error f⟩
  /-- Files are listed. -/
  | listed {key : Value} {suffixes : List String} {files : List FoundFile}
      (hkey : Arguments.key { positional := [patterns, extensions] } = .ok key)
      (hnone : u.targets.find? key = none)
      (haccepted : Targets.accepted patterns extensions = .ok suffixes)
      (hlist : sources.list patterns extensions = .ok files) :
      TargetsEnd sources current u patterns extensions
        ⟨{ u with targets := u.targets.store key (Targets.select current suffixes files) },
          [.listed patterns extensions], .ok (Targets.select current suffixes files)⟩
  /-- Files cannot be listed. -/
  | unlisted {f : Failure} (hlist : sources.list patterns extensions = .error f) :
      TargetsEnd sources current u patterns extensions
        ⟨u, [.listed patterns extensions], .error f⟩

/-- Asking for the targets of a selection ends in one of these ways. -/
theorem resolveTargets_ends (sources : Sources) (current : Path) (u : UsedKeys)
    (patterns extensions : Value) :
    TargetsEnd sources current u patterns extensions
      (u.resolveTargets sources current patterns extensions) := by
  unfold resolveTargets Targets.resolve Memo.callWith
  simp only [List.any_nil, Bool.false_eq_true, if_false]
  cases hkey : Arguments.key { positional := [patterns, extensions] } with
  | error f => exact .refused hkey
  | ok key =>
    dsimp only [Memo.call]
    cases hfound : u.targets.find? key with
    | some paths => exact .known hkey hfound
    | none =>
      cases haccepted : Targets.accepted patterns extensions with
      | error f => exact .unaccepted haccepted
      | ok suffixes =>
        cases hlist : sources.list patterns extensions with
        | error f => exact .unlisted hlist
        | ok files => exact .listed hkey hfound haccepted hlist

/-- The group of a selection is that of its targets. -/
theorem group_of_ok {patterns extensions : Value} {paths : List Path}
    (h : (u.resolveTargets sources current patterns extensions).result = .ok paths) :
    u.group sources current patterns extensions =
      let targets := u.resolveTargets sources current patterns extensions
      ⟨(targets.state.resolveGroup paths).state, targets.events,
        (targets.state.resolveGroup paths).result⟩ := by
  rw [group]
  revert h
  rcases u.resolveTargets sources current patterns extensions with ⟨u', events, result⟩
  rintro rfl
  simp [resolveGroup]

/-- A selection without targets has no group. -/
theorem group_of_error {patterns extensions : Value} {f : Failure}
    (h : (u.resolveTargets sources current patterns extensions).result = .error f) :
    u.group sources current patterns extensions =
      let targets := u.resolveTargets sources current patterns extensions
      ⟨targets.state, targets.events, .error f⟩ := by
  rw [group]
  revert h
  rcases u.resolveTargets sources current patterns extensions with ⟨u', events, result⟩
  rintro rfl
  rfl

/-- Collecting asks the key files of a group. -/
theorem collect_of_ok {patterns extensions : Value} {group : KeyGroup}
    (h : (u.group sources current patterns extensions).result = .ok group) :
    u.collect sources current patterns extensions =
      let grouped := u.group sources current patterns extensions
      let loaded := grouped.state.loadAll sources group.members
      ⟨loaded.state, grouped.events ++ loaded.events, loaded.result.map firstSeen⟩ := by
  rw [collect]
  revert h
  rcases u.group sources current patterns extensions with ⟨u', events, result⟩
  rintro rfl
  rfl

/-- Without a group nothing is collected. -/
theorem collect_of_error {patterns extensions : Value} {f : Failure}
    (h : (u.group sources current patterns extensions).result = .error f) :
    u.collect sources current patterns extensions =
      let grouped := u.group sources current patterns extensions
      ⟨grouped.state, grouped.events, .error f⟩ := by
  rw [collect]
  revert h
  rcases u.group sources current patterns extensions with ⟨u', events, result⟩
  rintro rfl
  rfl

/-- The memos have no bound, and the key files of a group stand for its paths. -/
structure IsSound (u : UsedKeys) : Prop where
  /-- No targets are dropped. -/
  targets : u.targets.capacity = none
  /-- No groups are dropped. -/
  groups : u.groups.capacity = none
  /-- The key files of a group are those of its paths. -/
  members : ∀ e ∈ u.groups.entries, List.Forall₂ (u.arena.HasFile u.policy) e.2.members e.1

/-- A later state in which nothing is forgotten. -/
structure Grows (u v : UsedKeys) : Prop where
  /-- The later state is sound. -/
  sound : v.IsSound
  /-- The policy stays. -/
  policy : v.policy = u.policy
  /-- Key files stay, and keep their keys once they are loaded. -/
  arena : u.arena.Extends v.arena
  /-- Targets of exact keys stay known. -/
  targets : ∀ {key paths}, Memo.IsExact key → u.targets.find? key = some paths →
    v.targets.find? key = some paths
  /-- Groups stay known. -/
  groups : ∀ {paths group}, u.groups.find? paths = some group → v.groups.find? paths = some group

namespace Grows

/-- A sound state forgets nothing by staying as it is. -/
theorem refl (h : u.IsSound) : u.Grows u :=
  ⟨h, rfl, .refl _, fun _ => id, id⟩

/-- Nothing is forgotten in two steps that forget nothing. -/
theorem trans (h : u.Grows v) (h' : v.Grows w) : u.Grows w :=
  ⟨h'.sound, h'.policy.trans h.policy, h.arena.trans h'.arena,
    fun hkey hpaths => h'.targets hkey (h.targets hkey hpaths),
    fun hgroup => h'.groups (h.groups hgroup)⟩

end Grows

namespace IsSound

/-- Before the first request the state is sound. -/
theorem fresh (policy : ParserPolicy) (catalogue : Catalogue) (arena : Arena) :
    IsSound { policy, catalogue, arena } :=
  ⟨rfl, rfl, fun _ he => absurd he List.not_mem_nil⟩

/-- Dropping both memos keeps the state sound. -/
theorem reset (h : u.IsSound) : u.reset.IsSound :=
  ⟨h.targets, h.groups, fun _ he => absurd he List.not_mem_nil⟩

/-- A state with an arena that extends the one before forgets nothing. -/
theorem grows_withArena (h : u.IsSound) (catalogue : Catalogue) {arena : Arena}
    (harena : u.arena.Extends arena) :
    u.Grows { u with catalogue := catalogue, arena := arena } :=
  ⟨⟨h.targets, h.groups, fun e he => (h.members e he).imp fun _ _ => harena.hasFile⟩, rfl, harena,
    fun _ => id, id⟩

/-- Asking for the keys of a key file forgets nothing. -/
theorem load (h : u.IsSound) (sources : Sources) (place : Nat) :
    u.Grows (u.load sources place).state := by
  have hends := load_ends sources u place
  generalize u.load sources place = o at hends
  cases hends with
  | absent | known | unreadable | unconfigured => exact .refl h
  | loaded hcell hvalue => exact h.grows_withArena _ (.set hcell rfl rfl hvalue)

/-- Asking for the keys of several key files forgets nothing. -/
theorem loadAll (h : u.IsSound) (sources : Sources) (places : List Nat) :
    u.Grows (u.loadAll sources places).state := by
  induction places generalizing u with
  | nil => exact .refl h
  | cons place places ih =>
    have hload := h.load sources place
    cases hresult : (u.load sources place).result with
    | error f =>
      rw [loadAll_cons_of_error hresult]
      exact hload
    | ok keys =>
      rw [loadAll_cons_of_ok hresult]
      exact hload.trans (ih hload.sound)

/-- Asking for targets forgets nothing. -/
theorem resolveTargets (h : u.IsSound) (sources : Sources) (current : Path)
    (patterns extensions : Value) :
    u.Grows (u.resolveTargets sources current patterns extensions).state := by
  have hmemo {targets : TargetMemo} (hcapacity : targets.capacity = u.targets.capacity)
      (hkept : ∀ {key paths}, Memo.IsExact key → u.targets.find? key = some paths →
        targets.find? key = some paths) : u.Grows { u with targets := targets } :=
    ⟨⟨hcapacity.trans h.targets, h.groups, h.members⟩, rfl, .refl _, hkept, id⟩
  have hends := resolveTargets_ends sources current u patterns extensions
  generalize u.resolveTargets sources current patterns extensions = o at hends
  cases hends with
  | refused | unaccepted | unlisted => exact .refl h
  | known => exact hmemo rfl fun hkey hpaths => (Memo.find?_refresh hkey).trans hpaths
  | listed => exact hmemo rfl fun _ hpaths => Memo.find?_store_of_some h.targets hpaths _

/-- Asking for a group forgets nothing. -/
theorem resolveGroup (h : u.IsSound) (paths : List Path) :
    u.Grows (u.resolveGroup paths).state := by
  obtain ⟨ending, hends, hresolve⟩ := Setting.resolveGroup_ends u paths
  have hgroups {paths' : List Path} {group : KeyGroup}
      (hgroup : u.groups.find? paths' = some group) : ending.1.find? paths' = some group :=
    hends.find?_eq_some h.groups (Memo.isExact_of_lawful paths') hgroup
  have hcapacity := hends.capacity_eq.trans h.groups
  rw [hresolve]
  cases hends with
  | found =>
    exact ⟨⟨h.targets, hcapacity, fun e he => h.members e (Memo.mem_of_mem_refresh he)⟩, rfl,
      .refl _, fun _ => id, hgroups⟩
  | computed _ hrun =>
    -- The new group has key files of its own, and all others are still there.
    obtain ⟨rfl, hgroup⟩ := Prod.mk.inj hrun
    obtain rfl := Except.ok.inj hgroup
    have harena := Arena.Extends.makeGroup u.arena u.policy paths
    refine ⟨⟨h.targets, hcapacity, fun e he => ?_⟩, rfl, harena, fun _ => id, hgroups⟩
    rcases List.mem_append.1 (Memo.mem_of_mem_trim he) with he | he
    · exact (h.members e he).imp fun _ _ => harena.hasFile
    · rw [List.mem_singleton.1 he]
      exact (u.arena.forall₂_makeGroup u.policy paths).imp fun _ _ hcell => ⟨_, hcell, rfl, rfl⟩
  | failed _ hrun => exact nomatch (Prod.mk.inj hrun).2

/-- Asking for the key files of a selection forgets nothing. -/
theorem group (h : u.IsSound) (sources : Sources) (current : Path) (patterns extensions : Value) :
    u.Grows (u.group sources current patterns extensions).state := by
  have htargets := h.resolveTargets sources current patterns extensions
  cases hresult : (u.resolveTargets sources current patterns extensions).result with
  | error f =>
    rw [group_of_error hresult]
    exact htargets
  | ok paths =>
    rw [group_of_ok hresult]
    exact htargets.trans (htargets.sound.resolveGroup paths)

/-- Collecting keys forgets nothing. -/
theorem collect (h : u.IsSound) (sources : Sources) (current : Path)
    (patterns extensions : Value) :
    u.Grows (u.collect sources current patterns extensions).state := by
  have hgroup := h.group sources current patterns extensions
  cases hresult : (u.group sources current patterns extensions).result with
  | error f =>
    rw [collect_of_error hresult]
    exact hgroup
  | ok group =>
    rw [collect_of_ok hresult]
    exact hgroup.trans (hgroup.sound.loadAll sources group.members)

end IsSound

/-- The targets of a key and their group are known. -/
structure Remembers (u : UsedKeys) (key : Value) (paths : List Path) (group : KeyGroup) : Prop where
  /-- The targets are known. -/
  targets : u.targets.find? key = some paths
  /-- Their group is known. -/
  groups : u.groups.find? paths = some group

namespace Remembers

variable {key : Value} {paths : List Path} {group : KeyGroup} {patterns extensions : Value}

/-- What is remembered stays so while nothing is forgotten. -/
theorem grows (h : u.Remembers key paths group) (hkey : Memo.IsExact key) (hgrows : u.Grows v) :
    v.Remembers key paths group :=
  ⟨hgrows.targets hkey h.targets, hgrows.groups h.groups⟩

/-- The key files of a group that is remembered stand for the targets. -/
theorem members (h : u.Remembers key paths group) (hsound : u.IsSound) :
    List.Forall₂ (u.arena.HasFile u.policy) group.members paths := by
  obtain ⟨e, he, hek, rfl⟩ := Memo.exists_mem_of_find?_eq_some h.groups
  obtain rfl : e.1 = paths := eq_of_beq hek
  exact hsound.members e he

/-- Targets that are remembered are found without any work. -/
theorem resolveTargets_eq (h : u.Remembers key paths group) (sources : Sources) (current : Path)
    (hkey : Arguments.key { positional := [patterns, extensions] } = .ok key) :
    u.resolveTargets sources current patterns extensions =
      ⟨{ u with targets := u.targets.refresh key }, [], .ok paths⟩ := by
  simp only [resolveTargets, Targets.resolve, Memo.callWith, List.any_nil, Bool.false_eq_true,
    if_false, hkey, Memo.call, h.targets]

/-- A group that is remembered is found without any work, and all key files stay. -/
theorem group_eq (h : u.Remembers key paths group) (sources : Sources) (current : Path)
    (hkey : Arguments.key { positional := [patterns, extensions] } = .ok key) :
    let grouped := u.group sources current patterns extensions
    grouped.result = .ok group ∧ grouped.events = [] ∧ grouped.state.arena = u.arena := by
  have hresolve := h.resolveTargets_eq sources current hkey
  simp only [group_of_ok (congrArg Outcome.result hresolve), hresolve, resolveGroup, Memo.call,
    h.groups, and_self]

end Remembers

/-- What a selection was found to be is remembered. -/
theorem IsSound.remembers_group (h : u.IsSound) {patterns extensions key : Value}
    {group : KeyGroup} (hkey : Arguments.key { positional := [patterns, extensions] } = .ok key)
    (hexact : Memo.IsExact key)
    (hgroup : (u.group sources current patterns extensions).result = .ok group) :
    ∃ paths, (u.resolveTargets sources current patterns extensions).result = .ok paths ∧
      (u.group sources current patterns extensions).state.Remembers key paths group := by
  have hgrows := h.resolveTargets sources current patterns extensions
  cases hresult : (u.resolveTargets sources current patterns extensions).result with
  | error f =>
    rw [group_of_error hresult] at hgroup
    exact nomatch hgroup
  | ok paths =>
    have hknown : (u.resolveTargets sources current patterns extensions).state.targets.find? key =
        some paths := by
      have hends := resolveTargets_ends sources current u patterns extensions
      generalize u.resolveTargets sources current patterns extensions = o at hends hresult
      cases hends with
      | refused | unaccepted | unlisted => cases hresult
      | known hkey' hfound =>
        obtain rfl := Except.ok.inj (hkey.symm.trans hkey')
        obtain rfl := Except.ok.inj hresult
        exact (Memo.find?_refresh hexact).trans hfound
      | listed hkey' hnone =>
        obtain rfl := Except.ok.inj (hkey.symm.trans hkey')
        obtain rfl := Except.ok.inj hresult
        exact Memo.find?_store_self h.targets hexact hnone _
    rw [group_of_ok hresult] at hgroup ⊢
    refine ⟨paths, rfl, (hgrows.sound.resolveGroup paths).targets hexact hknown, ?_⟩
    obtain ⟨ending, hends, hresolve⟩ :=
      Setting.resolveGroup_ends (u.resolveTargets sources current patterns extensions).state paths
    simp only [hresolve] at hgroup ⊢
    exact hends.find?_self hgrows.sound.groups (Memo.isExact_of_lawful paths) hgroup

/-- A selection whose targets have no group yet gets new key files, one for each target. -/
theorem group_of_find?_eq_none {patterns extensions : Value} {paths : List Path}
    (h : (u.resolveTargets sources current patterns extensions).result = .ok paths)
    (hnone : u.groups.find? paths = none) :
    ∃ group, (u.group sources current patterns extensions).result = .ok group ∧
      group.members.Nodup ∧ List.Forall₂ (fun place path =>
        (u.group sources current patterns extensions).state.arena.cells[place]? =
          some ⟨{ path := path }, u.policy⟩) group.members paths := by
  have hgroups : (u.resolveTargets sources current patterns extensions).state.groups.find? paths =
      none := hnone
  rw [group_of_ok h]
  simp only [resolveGroup, Memo.call, hgroups]
  exact ⟨_, rfl, Arena.nodup_makeGroup _ _ _, Arena.forall₂_makeGroup _ _ _⟩

/-- The state after a request, and what was asked of the outside. -/
def perform (u : UsedKeys) (o : Occasion) : UsedKeys × List Event :=
  match o.request with
  | .collect patterns extensions =>
    let collected := u.collect o.sources o.current patterns extensions
    (collected.state, collected.events)
  | .group patterns extensions =>
    let grouped := u.group o.sources o.current patterns extensions
    (grouped.state, grouped.events)
  | .load place =>
    let loaded := u.load o.sources place
    (loaded.state, loaded.events)
  | .reset => (u.reset, [])

/-- The state after a run. -/
def after (u : UsedKeys) (run : List Occasion) : UsedKeys :=
  run.foldl (fun u o => (u.perform o).1) u

/-- No request but a reset forgets anything. -/
theorem IsSound.perform (h : u.IsSound) {o : Occasion} (ho : o.request ≠ .reset) :
    u.Grows (u.perform o).1 := by
  unfold UsedKeys.perform
  cases hrequest : o.request with
  | collect patterns extensions => exact h.collect _ _ _ _
  | group patterns extensions => exact h.group _ _ _ _
  | load place => exact h.load _ _
  | reset => exact absurd hrequest ho

/-- A run without a reset forgets nothing. -/
theorem IsSound.grows_after (h : u.IsSound) {run : List Occasion}
    (hrun : ∀ o ∈ run, o.request ≠ .reset) : u.Grows (u.after run) := by
  induction run generalizing u with
  | nil => exact .refl h
  | cons o run ih =>
    have hstep := h.perform (hrun o List.mem_cons_self)
    exact hstep.trans (ih hstep.sound fun o ho => hrun o (List.mem_cons_of_mem _ ho))

/-- Every run leads to a sound state. -/
theorem IsSound.after (h : u.IsSound) (run : List Occasion) : (u.after run).IsSound := by
  induction run generalizing u with
  | nil => exact h
  | cons o run ih =>
    refine ih ?_
    by_cases ho : o.request = .reset
    · simp only [UsedKeys.perform, ho]
      exact h.reset
    · exact (h.perform ho).sound

end UsedKeys

end TranslationKeys
