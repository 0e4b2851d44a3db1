import TranslationKeys.Proofs.Causes
import TranslationKeys.Proofs.UsedKeys.Runs

/-!
# Work that is not done again

A collection asks the key files of its targets one after the other, up to the first that fails. What
it asks of the outside is said here position by position. After a collection that succeeded, the
same one asks nothing of the outside; after one that failed, it goes on where that one stopped;
after a reset, it starts anew.
-/

namespace TranslationKeys

namespace UsedKeys

variable {sources sources' : Sources} {current current' : Path} {u v : UsedKeys} {place : Nat}
  {places : List Nat} {patterns extensions : Value}

/-- What came of asking several key files one after the other, up to the first that fails. -/
def loadEach (sources : Sources) (u : UsedKeys) : List Nat → List (Outcome (List Text))
  | [] => []
  | place :: places =>
    let asked := u.load sources place
    match asked.result with
    | .error _ => [asked]
    | .ok _ => asked :: loadEach sources asked.state places

/-- What came of the positions of a selection's targets that a collection gets to, in order. -/
def positions (sources : Sources) (current : Path) (u : UsedKeys) (patterns extensions : Value) :
    List (Outcome (List Text)) :=
  let grouped := u.group sources current patterns extensions
  match grouped.result with
  | .error _ => []
  | .ok group => grouped.state.loadEach sources group.members

/-- Every position begins with reading the file of the path there, up to the first that fails. -/
def ReadsEach (positions : List (Outcome (List Text))) (paths : List Path) : Prop :=
  ∀ (j : Nat) (path : Path), paths[j]? = some path →
    (∀ k < j, ∀ o, positions[k]? = some o → ∃ keys, o.result = .ok keys) →
      ∃ o, positions[j]? = some o ∧ o.events.head? = some (.read path)

/-- The outcomes go on after a key file that is asked with success. -/
theorem loadEach_cons_of_ok {keys : List Text} (h : (u.load sources place).result = .ok keys)
    (places : List Nat) :
    u.loadEach sources (place :: places) =
      u.load sources place :: (u.load sources place).state.loadEach sources places := by
  rw [loadEach]
  simp only [h]

/-- The outcomes stop at a key file that fails. -/
theorem loadEach_cons_of_error {f : Failure} (h : (u.load sources place).result = .error f)
    (places : List Nat) : u.loadEach sources (place :: places) = [u.load sources place] := by
  rw [loadEach]
  simp only [h]

/-- The first key file is asked in any case. -/
theorem exists_loadEach_eq_cons (sources : Sources) (u : UsedKeys) (place : Nat)
    (places : List Nat) :
    ∃ rest, u.loadEach sources (place :: places) = u.load sources place :: rest := by
  cases hresult : (u.load sources place).result with
  | error f => exact ⟨_, loadEach_cons_of_error hresult places⟩
  | ok keys => exact ⟨_, loadEach_cons_of_ok hresult places⟩

/-- Key files that are asked one after the other cause the events of each. -/
theorem events_loadAll (sources : Sources) (u : UsedKeys) (places : List Nat) :
    (u.loadAll sources places).events = (u.loadEach sources places).flatMap Outcome.events := by
  induction places generalizing u with
  | nil => rfl
  | cons place places ih =>
    cases hresult : (u.load sources place).result with
    | error f => rw [loadAll_cons_of_error hresult, loadEach_cons_of_error hresult]; simp
    | ok keys =>
      rw [loadAll_cons_of_ok hresult, loadEach_cons_of_ok hresult, List.flatMap_cons, ← ih]

/-- The positions of a selection are those of its group. -/
theorem positions_of_ok {group : KeyGroup}
    (h : (u.group sources current patterns extensions).result = .ok group) :
    u.positions sources current patterns extensions =
      (u.group sources current patterns extensions).state.loadEach sources group.members := by
  simp only [positions, h]

/-- A collection causes the events of finding its key files and those of its positions. -/
theorem events_collect (sources : Sources) (current : Path) (u : UsedKeys)
    (patterns extensions : Value) :
    (u.collect sources current patterns extensions).events =
      (u.group sources current patterns extensions).events ++
        (u.positions sources current patterns extensions).flatMap Outcome.events := by
  cases hresult : (u.group sources current patterns extensions).result with
  | error f => simp [collect_of_error hresult, positions, hresult]
  | ok group => simp only [collect_of_ok hresult, positions_of_ok hresult, events_loadAll]

/-! ### Key files that are loaded, and key files that are not -/

/-- A key file that is loaded is asked without any work. -/
theorem load_of_keysAt? {keys : List Text} (h : u.arena.keysAt? place = some keys) :
    u.load sources place = ⟨u, [], .ok keys⟩ := by
  have hends := load_ends sources u place
  generalize u.load sources place = o at hends
  cases hends with
  | known hcell hvalue =>
    simp only [Arena.keysAt?, hcell, Option.bind_some, hvalue] at h
    rw [Option.some.inj h]
  | absent hcell => simp [Arena.keysAt?, hcell] at h
  | loaded hcell hvalue | unreadable hcell hvalue | unconfigured hcell hvalue =>
    simp [Arena.keysAt?, hcell, hvalue] at h

/-- A key file that was asked with success is loaded. -/
theorem keysAt?_of_load {keys : List Text} (h : (u.load sources place).result = .ok keys) :
    (u.load sources place).state.arena.keysAt? place = some keys := by
  have hends := load_ends sources u place
  generalize u.load sources place = o at hends h
  cases hends with
  | known hcell hvalue =>
    obtain rfl := Except.ok.inj h
    simp [Arena.keysAt?, hcell, hvalue]
  | loaded hcell =>
    obtain rfl := Except.ok.inj h
    simp [Arena.keysAt?, (List.getElem?_eq_some_iff.1 hcell).1]
  | absent | unreadable | unconfigured => cases h

/-- A key file that failed is not loaded, and nothing has changed. -/
theorem load_of_result_eq_error {f : Failure} (h : (u.load sources place).result = .error f) :
    (u.load sources place).state = u ∧ u.arena.keysAt? place = none := by
  have hends := load_ends sources u place
  generalize u.load sources place = o at hends h
  cases hends with
  | known | loaded => cases h
  | absent hcell => exact ⟨rfl, by simp [Arena.keysAt?, hcell]⟩
  | unreadable hcell hvalue | unconfigured hcell hvalue =>
    exact ⟨rfl, by simp [Arena.keysAt?, hcell, hvalue]⟩

/-- A key file that is not loaded is read first of all. -/
theorem head?_events_load {policy : ParserPolicy} {path : Path}
    (hfile : u.arena.HasFile policy place path) (hkeys : u.arena.keysAt? place = none) :
    (u.load sources place).events.head? = some (.read path) := by
  obtain ⟨cell, hcell, rfl, -⟩ := hfile
  have hends := load_ends sources u place
  generalize u.load sources place = o at hends
  cases hends with
  | absent hcell' => cases hcell.symm.trans hcell'
  | known hcell' hvalue => simp [Arena.keysAt?, hcell', hvalue] at hkeys
  | loaded hcell' | unreadable hcell' | unconfigured hcell' =>
    obtain rfl := Option.some.inj (hcell.symm.trans hcell')
    rfl

/-- Asking a key file leaves all others as they are. -/
theorem getElem?_cells_load {place' : Nat} (hne : place ≠ place') :
    (u.load sources place).state.arena.cells[place']? = u.arena.cells[place']? := by
  have hends := load_ends sources u place
  generalize u.load sources place = o at hends
  cases hends with
  | absent | known | unreadable | unconfigured => rfl
  | loaded => exact List.getElem?_set_ne hne

/-- Asking a key file lists no files. -/
theorem listed_notMem_events_load (sources : Sources) (u : UsedKeys) (place : Nat)
    (patterns extensions : Value) :
    .listed patterns extensions ∉ (u.load sources place).events := by
  have hends := load_ends sources u place
  generalize u.load sources place = o at hends
  cases hends <;> simp

/-- Asking several key files lists no files. -/
theorem listed_notMem_events_loadEach (u : UsedKeys) (patterns extensions : Value) :
    .listed patterns extensions ∉ (u.loadEach sources places).flatMap Outcome.events := by
  induction places generalizing u with
  | nil => simp [loadEach]
  | cons place places ih =>
    have hload := listed_notMem_events_load sources u place patterns extensions
    cases hresult : (u.load sources place).result with
    | error f => simpa [loadEach_cons_of_error hresult] using hload
    | ok keys =>
      rw [loadEach_cons_of_ok hresult, List.flatMap_cons, List.mem_append, not_or]
      exact ⟨hload, ih _⟩

/-- Loaded key files are asked without any work. -/
theorem loadAll_of_keysAt? {found : List (List Text)}
    (h : List.Forall₂ (fun place keys => u.arena.keysAt? place = some keys) places found) :
    u.loadAll sources places = ⟨u, [], .ok found.flatten⟩ := by
  induction h with
  | nil => rfl
  | cons hplace _ ih =>
    rw [loadAll, load_of_keysAt? hplace]
    simp only [ih]
    rfl

/-- Key files that were asked with success are loaded, and give the keys that they hold. -/
theorem keysAt?_of_loadAll (h : u.IsSound) {keys : List Text}
    (hok : (u.loadAll sources places).result = .ok keys) :
    ∃ found : List (List Text), keys = found.flatten ∧
      List.Forall₂ (fun place ks =>
        (u.loadAll sources places).state.arena.keysAt? place = some ks) places found := by
  induction places generalizing u keys with
  | nil => exact ⟨[], (Except.ok.inj hok).symm, .nil⟩
  | cons place places ih =>
    have hload := h.load sources place
    cases hresult : (u.load sources place).result with
    | error f =>
      rw [loadAll_cons_of_error hresult] at hok
      exact nomatch hok
    | ok ks =>
      rw [loadAll_cons_of_ok hresult] at hok ⊢
      obtain ⟨rest, hrest, hkeys⟩ := map_eq_ok_iff.1 hok
      obtain ⟨found, rfl, hfound⟩ := ih hload.sound hrest
      refine ⟨ks :: found, hkeys.symm, .cons ?_ hfound⟩
      exact (hload.sound.loadAll sources places).arena.keysAt? (keysAt?_of_load hresult)

/-- Loaded key files are passed over without any work. -/
theorem loadEach_append (sources : Sources) {before : List Nat}
    (h : ∀ place ∈ before, u.arena.keysAt? place ≠ none)
    (rest : List Nat) :
    ∃ passed : List (Outcome (List Text)), passed.length = before.length ∧
      (∀ o ∈ passed, o.events = []) ∧
        u.loadEach sources (before ++ rest) = passed ++ u.loadEach sources rest := by
  induction before with
  | nil => exact ⟨[], rfl, by simp, rfl⟩
  | cons place before ih =>
    obtain ⟨hplace, hbefore⟩ := List.forall_mem_cons.1 h
    obtain ⟨keys, hkeys⟩ := Option.ne_none_iff_exists'.1 hplace
    obtain ⟨passed, hlength, hpassed, hrest⟩ := ih hbefore
    refine ⟨⟨u, [], .ok keys⟩ :: passed, by simp [hlength], by simpa using hpassed, ?_⟩
    rw [List.cons_append, loadEach, load_of_keysAt? hkeys]
    simp only [hrest, List.cons_append]

/-- Key files that were asked up to one that failed are loaded, and that one is not. -/
theorem exists_split_of_failed (h : u.IsSound) {i : Nat} {o : Outcome (List Text)} {f : Failure}
    (ho : (u.loadEach sources places)[i]? = some o) (hf : o.result = .error f) :
    ∃ before place after, places = before ++ place :: after ∧ before.length = i ∧
      (∀ p ∈ before, (u.loadAll sources places).state.arena.keysAt? p ≠ none) ∧
        (u.loadAll sources places).state.arena.keysAt? place = none := by
  induction places generalizing u i with
  | nil => exact nomatch ho
  | cons place places ih =>
    have hload := h.load sources place
    cases hresult : (u.load sources place).result with
    | error g =>
      obtain ⟨hstate, hnone⟩ := load_of_result_eq_error hresult
      rw [loadEach_cons_of_error hresult] at ho
      rw [loadAll_cons_of_error hresult, hstate]
      cases i with
      | zero => exact ⟨[], place, places, rfl, rfl, by simp, hnone⟩
      | succ i => exact nomatch ho
    | ok keys =>
      rw [loadEach_cons_of_ok hresult] at ho
      rw [loadAll_cons_of_ok hresult]
      cases i with
      | zero =>
        obtain rfl := Option.some.inj ho
        exact nomatch hf.symm.trans hresult
      | succ i =>
        obtain ⟨before, p, after, rfl, hlength, hbefore, hp⟩ := ih hload.sound ho
        refine ⟨place :: before, p, after, rfl, by simp [hlength],
          List.forall_mem_cons.2 ⟨?_, hbefore⟩, hp⟩
        have hkept := (hload.sound.loadAll sources (before ++ p :: after)).arena.keysAt?
          (keysAt?_of_load hresult)
        exact fun hnone => nomatch hnone.symm.trans hkept

/-- Key files that are not loaded are read in turn, up to the first that fails. -/
theorem readsEach_of_unloaded {policy : ParserPolicy} {paths : List Path} (hnodup : places.Nodup)
    (h : List.Forall₂ (fun place path =>
      u.arena.cells[place]? = some ⟨{ path := path }, policy⟩) places paths) :
    ReadsEach (u.loadEach sources places) paths := by
  intro j path hpath hearlier
  -- Asking the first key file leaves the others unloaded, as they stand at other places.
  induction places generalizing u paths j with
  | nil =>
    rw [List.forall₂_nil_left_iff.1 h] at hpath
    exact nomatch hpath
  | cons place places ih =>
    obtain ⟨first, rest, hplace, hplaces, rfl⟩ := List.forall₂_cons_left_iff.1 h
    obtain ⟨hnotMem, hnodup⟩ := List.nodup_cons.1 hnodup
    have hasked : (u.loadEach sources (place :: places))[0]? = some (u.load sources place) := by
      obtain ⟨others, hothers⟩ := exists_loadEach_eq_cons sources u place places
      rw [hothers]
      rfl
    cases j with
    | zero =>
      obtain rfl := Option.some.inj hpath
      refine ⟨u.load sources place, hasked, head?_events_load ⟨_, hplace, rfl, rfl⟩ ?_⟩
      simp [Arena.keysAt?, hplace]
    | succ j =>
      obtain ⟨keys, hresult⟩ := hearlier 0 (Nat.succ_pos j) _ hasked
      rw [loadEach_cons_of_ok hresult] at hearlier ⊢
      refine ih hnodup (forall₂_imp_of_mem (fun p hp _ _ hcell => ?_) hplaces) _ hpath
        fun k hk => hearlier (k + 1) (Nat.succ_lt_succ hk)
      have hne : place ≠ p := fun heq => hnotMem (heq ▸ hp)
      rwa [getElem?_cells_load hne]

/-! ### Collections -/

/-- After a collection that succeeded, the same one gives the same keys and asks nothing of the
outside. -/
theorem IsSound.collect_again (h : u.IsSound) {key : Value} {keys : List Text}
    {patterns' extensions' : Value} (hexact : Memo.IsExact key)
    (hkey : Arguments.key { positional := [patterns, extensions] } = .ok key)
    (hkey' : Arguments.key { positional := [patterns', extensions'] } = .ok key)
    (hgrows : (u.collect sources current patterns extensions).state.Grows v)
    (hok : (u.collect sources current patterns extensions).result = .ok keys) :
    (v.collect sources' current' patterns' extensions').result = .ok keys ∧
      (v.collect sources' current' patterns' extensions').events = [] := by
  have hsound := (h.group sources current patterns extensions).sound
  cases hresult : (u.group sources current patterns extensions).result with
  | error f =>
    rw [collect_of_error hresult] at hok
    exact nomatch hok
  | ok group =>
    obtain ⟨paths, -, hremembers⟩ := h.remembers_group hkey hexact hresult
    rw [collect_of_ok hresult] at hok hgrows
    obtain ⟨loaded, hloaded, rfl⟩ := map_eq_ok_iff.1 hok
    obtain ⟨found, rfl, hfound⟩ := keysAt?_of_loadAll hsound hloaded
    have hknown := hremembers.grows hexact ((hsound.loadAll sources group.members).trans hgrows)
    obtain ⟨hgroup, hevents, harena⟩ :=
      hknown.group_eq sources' current' hkey'
    -- All key files of the group are loaded, and stay so whatever is requested in between.
    have hloadedAgain : List.Forall₂ (fun place keys =>
        (v.group sources' current' patterns' extensions').state.arena.keysAt? place = some keys)
        group.members found := by
      rw [harena]
      exact hfound.imp fun _ _ hkeys => hgrows.arena.keysAt? hkeys
    simp only [collect_of_ok hgroup, loadAll_of_keysAt? hloadedAgain, hevents, Except.map,
      List.append_nil, and_self]

/-- A collection that failed at some position remembers its group. The key files before the position
are loaded, and that of the position is not. -/
theorem IsSound.exists_split_positions (h : u.IsSound) {key : Value} {i : Nat}
    {o : Outcome (List Text)} {f : Failure} (hexact : Memo.IsExact key)
    (hkey : Arguments.key { positional := [patterns, extensions] } = .ok key)
    (ho : (u.positions sources current patterns extensions)[i]? = some o)
    (hf : o.result = .error f) :
    ∃ paths group before place after,
      (u.resolveTargets sources current patterns extensions).result = .ok paths ∧
      (u.collect sources current patterns extensions).state.Remembers key paths group ∧
      group.members = before ++ place :: after ∧ before.length = i ∧
      (∀ p ∈ before,
        (u.collect sources current patterns extensions).state.arena.keysAt? p ≠ none) ∧
      (u.collect sources current patterns extensions).state.arena.keysAt? place = none := by
  have hsound := (h.group sources current patterns extensions).sound
  cases hresult : (u.group sources current patterns extensions).result with
  | error f =>
    simp only [positions, hresult] at ho
    exact nomatch ho
  | ok group =>
    obtain ⟨paths, hpaths, hremembers⟩ := h.remembers_group hkey hexact hresult
    rw [positions_of_ok hresult] at ho
    obtain ⟨before, place, after, hmembers, hlength, hbefore, hplace⟩ :=
      exists_split_of_failed hsound ho hf
    rw [collect_of_ok hresult]
    exact ⟨paths, group, before, place, after, hpaths,
      hremembers.grows hexact (hsound.loadAll sources group.members), hmembers, hlength, hbefore,
      hplace⟩

/-- A selection of which the group is remembered is collected by asking its key files, and the ones
that are loaded are passed over. -/
theorem Remembers.exists_positions_eq {key : Value} {paths : List Path} {group : KeyGroup}
    {before rest : List Nat} (h : u.Remembers key paths group) (sources : Sources)
    (current : Path) (hkey : Arguments.key { positional := [patterns, extensions] } = .ok key)
    (hmembers : group.members = before ++ rest)
    (hbefore : ∀ place ∈ before, u.arena.keysAt? place ≠ none) :
    ∃ (v : UsedKeys) (passed : List (Outcome (List Text))), v.arena = u.arena ∧
      passed.length = before.length ∧ (∀ o ∈ passed, o.events = []) ∧
      u.positions sources current patterns extensions = passed ++ v.loadEach sources rest ∧
      (u.collect sources current patterns extensions).events =
        (v.loadEach sources rest).flatMap Outcome.events := by
  obtain ⟨hgroup, hevents, harena⟩ := h.group_eq sources current hkey
  rw [← harena] at hbefore
  obtain ⟨passed, hlength, hpassed, hsplit⟩ := loadEach_append sources hbefore rest
  have hpositions : u.positions sources current patterns extensions =
      passed ++ (u.group sources current patterns extensions).state.loadEach sources rest := by
    rw [positions_of_ok hgroup, hmembers, hsplit]
  refine ⟨_, passed, harena, hlength, hpassed, hpositions, ?_⟩
  rw [events_collect, hevents, hpositions, List.nil_append, List.flatMap_append,
    List.flatMap_eq_nil_iff.2 hpassed, List.nil_append]

/-- After a collection that failed at some position, the same one lists no files and does no work at
the positions before. -/
theorem IsSound.resumes (h : u.IsSound) (sources' : Sources) (current' : Path)
    {key patterns' extensions' : Value} {i : Nat} {o : Outcome (List Text)} {f : Failure}
    (hexact : Memo.IsExact key)
    (hkey : Arguments.key { positional := [patterns, extensions] } = .ok key)
    (hkey' : Arguments.key { positional := [patterns', extensions'] } = .ok key)
    (hgrows : (u.collect sources current patterns extensions).state.Grows v)
    (ho : (u.positions sources current patterns extensions)[i]? = some o)
    (hf : o.result = .error f) :
    (∀ p e, .listed p e ∉ (v.collect sources' current' patterns' extensions').events) ∧
      ∀ j < i, ∃ o', (v.positions sources' current' patterns' extensions')[j]? = some o' ∧
        o'.events = [] := by
  obtain ⟨paths, group, before, place, after, -, hremembers, hmembers, rfl, hbefore, -⟩ :=
    h.exists_split_positions hexact hkey ho hf
  have hkept : ∀ p ∈ before, v.arena.keysAt? p ≠ none := fun p hp => by
    obtain ⟨keys, hkeys⟩ := Option.ne_none_iff_exists'.1 (hbefore p hp)
    rw [hgrows.arena.keysAt? hkeys]
    exact Option.some_ne_none keys
  obtain ⟨w, passed, -, hlength, hpassed, hpositions, hevents⟩ :=
    (hremembers.grows hexact hgrows).exists_positions_eq sources' current' hkey' hmembers hkept
  refine ⟨fun p e => ?_, fun j hj => ?_⟩
  · rw [hevents]
    exact w.listed_notMem_events_loadEach p e
  · rw [← hlength] at hj
    refine ⟨passed.get ⟨j, hj⟩, ?_, hpassed _ (List.get_mem _ _)⟩
    rw [hpositions, List.getElem?_append_left hj]
    exact List.getElem?_eq_getElem hj

/-- Right after a collection that failed at some position, the same one begins with reading the file
of that position. -/
theorem IsSound.reads_failed_position (h : u.IsSound) {key : Value} {patterns' extensions' : Value}
    {i : Nat} {o : Outcome (List Text)} {f : Failure} (hexact : Memo.IsExact key)
    (hkey : Arguments.key { positional := [patterns, extensions] } = .ok key)
    (hkey' : Arguments.key { positional := [patterns', extensions'] } = .ok key)
    (ho : (u.positions sources current patterns extensions)[i]? = some o)
    (hf : o.result = .error f) :
    ∃ paths path, (u.resolveTargets sources current patterns extensions).result = .ok paths ∧
      paths[i]? = some path ∧
      ((u.collect sources current patterns extensions).state.collect sources' current' patterns'
        extensions').events.head? = some (.read path) := by
  have hsound := (h.collect sources current patterns extensions).sound
  obtain ⟨paths, group, before, place, after, hpaths, hremembers, hmembers, rfl, hbefore, hplace⟩ :=
    h.exists_split_positions hexact hkey ho hf
  obtain ⟨w, passed, harena, -, -, -, hevents⟩ := hremembers.exists_positions_eq sources' current'
    hkey' hmembers hbefore
  have hindex : group.members[before.length]? = some place := by simp [hmembers]
  obtain ⟨path, hpath, hfile⟩ :=
    exists_getElem?_of_forall₂ (hremembers.members hsound) hindex
  rw [← harena] at hfile hplace
  obtain ⟨rest, hrest⟩ := exists_loadEach_eq_cons sources' w place after
  refine ⟨paths, path, hpaths, hpath, ?_⟩
  rw [hevents, hrest, List.flatMap_cons, List.head?_append, head?_events_load hfile hplace,
    Option.some_or]

/-- After a reset, a selection by strings is listed first of all. -/
theorem resolveTargets_reset (sources : Sources) (current : Path) (u : UsedKeys)
    (hpatterns : patterns.IsStrings) (hextensions : extensions.IsStrings) :
    (u.reset.resolveTargets sources current patterns extensions).events =
      [.listed patterns extensions] := by
  have hends := resolveTargets_ends sources current u.reset patterns extensions
  generalize u.reset.resolveTargets sources current patterns extensions = o at hends
  cases hends with
  | refused hkey =>
    obtain ⟨key, hkey'⟩ := Arguments.exists_key_of_isStrings hpatterns hextensions
    exact nomatch hkey.symm.trans hkey'
  | known _ hfound => exact nomatch hfound
  | unaccepted haccepted =>
    obtain ⟨suffixes, hsuffixes, -⟩ := Targets.exists_accepted hpatterns hextensions
    exact nomatch haccepted.symm.trans hsuffixes
  | listed | unlisted => rfl

/-- After a reset, a collection lists files first of all, and then reads the file of every position
up to the first that fails. -/
theorem collect_reset (hpatterns : patterns.IsStrings) (hextensions : extensions.IsStrings) :
    (u.reset.collect sources current patterns extensions).events.head? =
        some (.listed patterns extensions) ∧
      ∀ paths, (u.reset.resolveTargets sources current patterns extensions).result = .ok paths →
        ReadsEach (u.reset.positions sources current patterns extensions) paths := by
  have hlisted := resolveTargets_reset sources current u hpatterns hextensions
  constructor
  · rw [events_collect]
    cases hresult : (u.reset.resolveTargets sources current patterns extensions).result with
    | error f => rw [group_of_error hresult, hlisted]; rfl
    | ok paths => rw [group_of_ok hresult, hlisted]; rfl
  · intro paths hpaths
    obtain ⟨group, hgroup, hnodup, hcells⟩ := group_of_find?_eq_none hpaths rfl
    rw [positions_of_ok hgroup]
    exact readsEach_of_unloaded hnodup hcells

/-- Work is avoided and resumed. In a run over an outside that may change, after a collection that
succeeded the same one gives the same keys and asks nothing of the outside, whatever was requested
in between. After a collection that failed at some position of its targets, the same one lists no
files and does no work at the positions before; if nothing was requested in between, it begins with
reading the file of that position. After a reset, the next collection lists files first and then
begins at every position anew with reading its file, up to the first position that fails. -/
theorem collect_resumes (policy : ParserPolicy) (catalogue : Catalogue) (arena : Arena)
    (earlier between : List Occasion) (hbetween : ∀ o ∈ between, o.request ≠ .reset)
    (sources sources' : Sources) (current current' : Path)
    {patterns extensions patterns' extensions' : Value} (hpatterns : patterns.IsStrings)
    (hextensions : extensions.IsStrings) (hsamePatterns : patterns'.SameSequence patterns)
    (hsameExtensions : extensions'.SameSequence extensions) :
    let u := after { policy, catalogue, arena } earlier
    let v := (u.collect sources current patterns extensions).state.after between
    let again := v.collect sources' current' patterns' extensions'
    (∀ keys, (u.collect sources current patterns extensions).result = .ok keys →
        again.result = .ok keys ∧ again.events = []) ∧
      (∀ (i : Nat) (o : Outcome (List Text)) (f : Failure),
        (u.positions sources current patterns extensions)[i]? = some o → o.result = .error f →
          (∀ p e, .listed p e ∉ again.events) ∧
          (∀ j < i, ∃ o' : Outcome (List Text),
            (v.positions sources' current' patterns' extensions')[j]? = some o' ∧
              o'.events = []) ∧
          (between = [] → ∃ paths path,
            (u.resolveTargets sources current patterns extensions).result = .ok paths ∧
            paths[i]? = some path ∧ again.events.head? = some (.read path))) ∧
      (u.reset.collect sources current patterns extensions).events.head? =
        some (.listed patterns extensions) ∧
      ∀ paths, (u.reset.resolveTargets sources current patterns extensions).result = .ok paths →
        ReadsEach (u.reset.positions sources current patterns extensions) paths := by
  intro u v again
  have hsound : u.IsSound := (IsSound.fresh policy catalogue arena).after earlier
  have hgrows : (u.collect sources current patterns extensions).state.Grows v :=
    (hsound.collect sources current patterns extensions).sound.grows_after hbetween
  obtain ⟨key, hkey⟩ := Arguments.exists_key_of_isStrings hpatterns hextensions
  have hkey' := Arguments.key_eq_ok_of_sameSequence hsamePatterns hsameExtensions hkey
  have hexact := Arguments.isExact_key hpatterns hextensions hkey
  refine ⟨fun keys hok => hsound.collect_again hexact hkey hkey' hgrows hok,
    fun i o f ho hf => ?_, collect_reset hpatterns hextensions⟩
  obtain ⟨hlisted, hpassed⟩ := hsound.resumes sources' current' hexact hkey hkey' hgrows ho hf
  refine ⟨hlisted, hpassed, fun hnone => ?_⟩
  have hv : v = (u.collect sources current patterns extensions).state := by
    simp only [v, hnone]
    rfl
  simp only [again, hv]
  exact hsound.reads_failed_position hexact hkey hkey' ho hf

/-- The directory of the sample files. -/
def sampleRoot : Path := ⟨.slash, ["app"]⟩

/-- Two components, of which the first has the given content. -/
def sampleFiles (content : List UInt8) : Sources :=
  Project.sources
    (.directory [("app", .directory [("a.vue", .file content), ("b.vue", .file [])])]) sampleRoot []

/-- Key collection for the sample files before the first request. -/
def sampleStart : UsedKeys :=
  Project.usedKeys {} sampleRoot sampleRoot
    (Catalogue.new { installed := fun _ => false, tree? := fun _ _ => none } [] (.grouped []))

/-- A collection that fails at its second position is resumed there once the file is repaired, by
tuples for lists and after the first file was asked for on its own. -/
theorem collect_resumes_sampleFiles :
    let patterns := Value.list [.str "b.vue", .str "a.vue"]
    let patterns' := Value.tuple [.str "b.vue", .str "a.vue"]
    let extensions := Value.list [.str ".vue"]
    let between := [⟨sampleFiles [255], sampleRoot, .collect (.list [.str "b.vue"]) extensions⟩]
    let v := (sampleStart.collect (sampleFiles [255]) sampleRoot patterns extensions).state.after
      between
    (∀ o ∈ between, o.request ≠ .reset) ∧ patterns.IsStrings ∧ extensions.IsStrings ∧
      patterns'.SameSequence patterns ∧
      (∃ o : Outcome (List Text),
        (sampleStart.positions (sampleFiles [255]) sampleRoot patterns extensions)[1]? = some o ∧
          o.result = .error .notUtf8) ∧
      (∀ p e, .listed p e ∉
        (v.collect (sampleFiles []) sampleRoot patterns' extensions).events) ∧
      ∃ o : Outcome (List Text),
        (v.positions (sampleFiles []) sampleRoot patterns' extensions)[0]? = some o ∧
          o.events = [] := by
  intro patterns patterns' extensions between v
  have hbetween : ∀ o ∈ between, o.request ≠ .reset := by simp [between]
  have hpatterns : patterns.IsStrings := .inr ⟨["b.vue", "a.vue"], rfl⟩
  have hextensions : extensions.IsStrings := .inr ⟨[".vue"], rfl⟩
  have hsame : patterns'.SameSequence patterns := .inr ⟨_, rfl, rfl⟩
  have hfailed : ∃ o : Outcome (List Text),
      (sampleStart.positions (sampleFiles [255]) sampleRoot patterns extensions)[1]? = some o ∧
        o.result = .error .notUtf8 := ⟨_, rfl, rfl⟩
  obtain ⟨o, ho, hf⟩ := hfailed
  obtain ⟨-, hresumes, -⟩ := collect_resumes (ParserPolicy.project {} sampleRoot sampleRoot)
    sampleStart.catalogue {} [] between hbetween (sampleFiles [255]) (sampleFiles []) sampleRoot
    sampleRoot hpatterns hextensions hsame (.inl rfl)
  obtain ⟨hlisted, hpassed, -⟩ := hresumes 1 o .notUtf8 ho hf
  exact ⟨hbetween, hpatterns, hextensions, hsame, ⟨o, ho, hf⟩, hlisted, hpassed 0 Nat.one_pos⟩

/-- After a reset, a collection whose first file is broken never asks for its second file. -/
theorem reset_not_all_positions_read :
    let patterns := Value.list [.str "a.vue", .str "b.vue"]
    let extensions := Value.list [.str ".vue"]
    (sampleStart.reset.resolveTargets (sampleFiles [255]) sampleRoot patterns extensions).result =
        .ok [⟨.slash, ["app", "a.vue"]⟩, ⟨.slash, ["app", "b.vue"]⟩] ∧
      (sampleStart.reset.collect (sampleFiles [255]) sampleRoot patterns extensions).events =
        [.listed patterns extensions, .read ⟨.slash, ["app", "a.vue"]⟩] ∧
      ¬ ∃ o : Outcome (List Text),
        (sampleStart.reset.positions (sampleFiles [255]) sampleRoot patterns extensions)[1]? =
          some o := by
  intro patterns extensions
  refine ⟨rfl, rfl, fun h => ?_⟩
  obtain ⟨o, ho⟩ := h
  exact nomatch ho

end UsedKeys

end TranslationKeys
