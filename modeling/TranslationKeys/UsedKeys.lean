import TranslationKeys.TextKeys
import TranslationKeys.Files.Listing
import TranslationKeys.Memo.LazyFile

/-!
# Used keys of a project

Keys are collected across all files that a selection targets. Two memos avoid repeated work: the
targets of a selection are kept by its patterns and extensions, and the key files of a list of
targets are kept by the list. A key file is read and parsed when its keys are first asked for and
keeps them. Dropping the memos leaves key files that were handed out alone: they live in an arena
and are known by their place in it.

Everything outside is reached through `Sources`: the listing of files, their texts and their
configurations, as they are at the time of a call. Each operation reports the events it caused
there.
-/

namespace TranslationKeys

/-- The outside as it is at the time of a call. -/
structure Sources where
  /-- Which files patterns and extensions select. -/
  list : FileSelector
  /-- The text of a file. -/
  read : Path → Except Failure String

/-- Something that was asked of the outside. -/
inductive Event where
  /-- Files were listed. -/
  | listed (patterns extensions : Value)
  /-- A file was read. -/
  | read (path : Path)
  /-- The configuration of a file was asked for. -/
  | configured (path : Path)
  /-- A text was handed to a parser, with the recorded calls. -/
  | parsed (path : Path) (calls : List ParserCall)
  deriving Repr

/-- The recorded parser calls among events. -/
def Event.calls : List Event → List ParserCall :=
  List.flatMap fun
    | parsed _ calls => calls
    | _ => []

/-- The keys of one file, with the configurations that are in force for it. -/
structure KeyFile where
  /-- The file and its keys, once they are loaded. -/
  file : LazyFile (List Text)
  /-- Which parser to use for a file. -/
  policy : ParserPolicy

/-- The key files of a list of paths. All groups without members count as the same one. -/
structure KeyGroup where
  /-- The number of the group, zero if it has no members. -/
  serial : Nat
  /-- The places of the key files in the arena. -/
  members : List Nat
  deriving DecidableEq, Repr

/-- All key files that were ever made. -/
structure Arena where
  /-- The key files by place. -/
  cells : List KeyFile := []
  /-- The number of groups with members that were made. -/
  groups : Nat := 0

namespace Arena

/-- A new group with a fresh key file for each path of a list. -/
def makeGroup (a : Arena) (policy : ParserPolicy) (paths : List Path) : Arena × KeyGroup :=
  if paths.isEmpty then (a, ⟨0, []⟩)
  else
    (⟨a.cells ++ paths.map fun p => ⟨{ path := p }, policy⟩, a.groups + 1⟩,
      ⟨a.groups + 1, (List.range paths.length).map (a.cells.length + ·)⟩)

end Arena

/-- What changes while key files are loaded: the catalogue, which may read its plugins, and the
events so far. -/
structure Loading where
  /-- The catalogue. -/
  catalogue : Catalogue
  /-- The events so far. -/
  events : List Event := []

namespace KeyFile

/-- Reads and parses a file. -/
def load (sources : Sources) (r : KeyFile) (s : Loading) :
    Loading × Except Failure (List Text) :=
  let path := r.file.path
  match sources.read path with
  | .error f => ({ s with events := s.events ++ [.read path] }, .error f)
  | .ok text =>
    let collected := collectKeys s.catalogue r.policy text (some path.text)
    let parsed := match collected.keys with
      | .ok _ => [Event.parsed path collected.calls]
      | .error _ => []
    (⟨collected.catalogue, s.events ++ [.read path, .configured path] ++ parsed⟩, collected.keys)

end KeyFile

/-- The state of key collection. -/
structure UsedKeys where
  /-- Which parser to use for a file. -/
  policy : ParserPolicy
  /-- The parsers. -/
  catalogue : Catalogue
  /-- The targets of earlier selections. -/
  targets : TargetMemo := {}
  /-- The groups of earlier lists of targets. -/
  groups : Memo (List Path) KeyGroup := {}
  /-- All key files. -/
  arena : Arena := {}

/-- What came of an operation on used keys. -/
structure Outcome (α : Type) where
  /-- The state afterwards. -/
  state : UsedKeys
  /-- What was asked of the outside. -/
  events : List Event
  /-- The result. -/
  result : Except Failure α

namespace UsedKeys

/-- The targets of a selection. -/
def resolveTargets (sources : Sources) (current : Path) (u : UsedKeys)
    (patterns extensions : Value) : Outcome (List Path) :=
  let (targets, events, result) := Targets.resolve u.targets current
    (fun events => (events ++ [.listed patterns extensions], sources.list patterns extensions))
    patterns extensions []
  ⟨{ u with targets := targets }, events, result⟩

/-- The group of a list of targets. -/
def resolveGroup (u : UsedKeys) (paths : List Path) : Outcome KeyGroup :=
  let (groups, arena, result) := u.groups.call paths
    (fun arena => let (arena, group) := arena.makeGroup u.policy paths; (arena, .ok group))
    u.arena
  ⟨{ u with groups := groups, arena := arena }, [], result⟩

/-- The group of key files of a selection. -/
def group (sources : Sources) (current : Path) (u : UsedKeys)
    (patterns extensions : Value) : Outcome KeyGroup :=
  match u.resolveTargets sources current patterns extensions with
  | ⟨u, events, .error f⟩ => ⟨u, events, .error f⟩
  | ⟨u, events, .ok paths⟩ =>
    let grouped := u.resolveGroup paths
    ⟨grouped.state, events ++ grouped.events, grouped.result⟩

/-- The keys of the file at a place of the arena, loaded if need be. -/
def load (sources : Sources) (u : UsedKeys) (place : Nat) : Outcome (List Text) :=
  match u.arena.cells[place]? with
  | none => ⟨u, [], .error .noSuchIndex⟩
  | some cell =>
    let (file, loading, result) :=
      cell.file.get (cell.load sources) { catalogue := u.catalogue }
    let cells := u.arena.cells.set place { cell with file := file }
    ⟨{ u with catalogue := loading.catalogue, arena := { u.arena with cells := cells } },
      loading.events, result⟩

/-- The keys of the files at several places, up to the first that fails. -/
def loadAll (sources : Sources) (u : UsedKeys) : List Nat → Outcome (List Text)
  | [] => ⟨u, [], .ok []⟩
  | place :: places =>
    match u.load sources place with
    | ⟨u, events, .error f⟩ => ⟨u, events, .error f⟩
    | ⟨u, events, .ok keys⟩ =>
      let rest := loadAll sources u places
      ⟨rest.state, events ++ rest.events, rest.result.map (keys ++ ·)⟩

/-- The distinct keys of all files of a selection. -/
def collect (sources : Sources) (current : Path) (u : UsedKeys)
    (patterns extensions : Value) : Outcome (List Text) :=
  match u.group sources current patterns extensions with
  | ⟨u, events, .error f⟩ => ⟨u, events, .error f⟩
  | ⟨u, events, .ok group⟩ =>
    let loaded := u.loadAll sources group.members
    ⟨loaded.state, events ++ loaded.events, loaded.result.map firstSeen⟩

/-- Drops both memos. -/
def reset (u : UsedKeys) : UsedKeys :=
  { u with targets := u.targets.clear, groups := u.groups.clear }

end UsedKeys

end TranslationKeys
