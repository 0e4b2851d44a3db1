import TranslationKeys.Command.Run
import TranslationKeys.Proofs.Causes
import TranslationKeys.Proofs.Toml.Faults

/-!
# Loading configurations

Loading yields a configuration that was checked, or it fails. It fails for a fault of the
configuration, which the command reports as such, unless a file cannot be asked for, is not UTF-8 or
holds an integer with too many digits: these three end the command unexpectedly.
-/

namespace TranslationKeys

namespace Configuration

/-- The files that can hold the configuration of a project. -/
def configFiles : List String := [sharedFile, ownFile]

/-- A file of a project has this content. -/
def HasFile (tree : FileTree) (root : Path) (name : String) (content : List UInt8) : Prop :=
  tree.probe (root.child name) = .ok (some (.file content))

/-- What loading fails for besides a fault of the configuration. -/
inductive Escapes (tree : FileTree) (root : Path) : Failure → Prop where
  /-- A file has a path that is too long to be asked for. -/
  | nameTooLong {name : String} (hname : name ∈ configFiles)
      (h : tree.probe (root.child name) = .error .nameTooLong) : Escapes tree root .nameTooLong
  /-- A file is not UTF-8. -/
  | notUtf8 {name : String} {content : List UInt8} (hname : name ∈ configFiles)
      (hfile : HasFile tree root name content) (h : Utf8.decode? content = none) :
      Escapes tree root .notUtf8
  /-- A file holds an integer with too many digits. -/
  | numeralTooLong {name : String} {content : List UInt8} {text : List Char}
      (hname : name ∈ configFiles) (hfile : HasFile tree root name content)
      (htext : Utf8.decode? content = some text) (h : Toml.HoldsLongNumeral text) :
      Escapes tree root .numeralTooLong

section Loading

variable {tree : FileTree} {root : Path} {name : String} {content : List UInt8}

/-- A path is probed unless it is too long. -/
theorem eq_nameTooLong_of_probe {p : Path} {e : Failure} (h : tree.probe p = .error e) :
    e = .nameTooLong := by
  unfold FileTree.probe at h
  split at h
  · exact nomatch h
  · exact (Except.error.inj h).symm
  · exact nomatch h

variable (tree root) in
/-- A failure is a fault of the configuration or one of the others. -/
def IsExpected (e : Failure) : Prop :=
  Command.isConfigFault e = true ∨ Escapes tree root e

/-- Probing a configuration file fails only in an expected way. -/
theorem failsOnlyBy_probe (hname : name ∈ configFiles) :
    FailsOnlyBy (IsExpected tree root) (tree.probe (root.child name)) := by
  intro e he
  obtain rfl := eq_nameTooLong_of_probe he
  exact .inr (.nameTooLong hname he)

/-- Reading the table of a configuration file fails only in an expected way. -/
theorem failsOnlyBy_readTable (hname : name ∈ configFiles)
    (hfile : HasFile tree root name content) (file : Path) :
    FailsOnlyBy (IsExpected tree root) (readTable file content) := by
  intro e he
  unfold readTable at he
  split at he
  · rename_i hdecode
    obtain rfl := Except.error.inj he
    exact .inr (.notUtf8 hname hfile hdecode)
  · rename_i text hdecode
    split at he
    · exact nomatch he
    · obtain rfl := Except.error.inj he
      exact .inl rfl
    · rename_i hlong
      obtain rfl := Except.error.inj he
      exact .inr (.numeralTooLong hname hfile hdecode (Toml.holdsLongNumeral_of_read hlong))

/-- Finding what configures a project fails only in an expected way. -/
theorem failsOnlyBy_section? : FailsOnlyBy (IsExpected tree root) (section? tree root) := by
  have hshared : FailsOnlyBy (IsExpected tree root) (sharedSection tree root) := by
    have hname : sharedFile ∈ configFiles := List.mem_cons_self
    refine .bind (failsOnlyBy_probe hname) fun found hfound => ?_
    split
    · exact .bind (failsOnlyBy_readTable hname hfound _) fun _ _ => .pure _
    · exact .pure _
  have hown : FailsOnlyBy (IsExpected tree root) (ownSection tree root) := by
    have hname : ownFile ∈ configFiles := List.mem_cons_of_mem _ List.mem_cons_self
    refine .bind (failsOnlyBy_probe hname) fun found hfound => ?_
    split
    · exact .bind (failsOnlyBy_readTable hname hfound _) fun _ _ => .pure _
    · exact .pure _
  refine .bind hshared fun found _ => ?_
  split
  · exact .pure _
  · exact hown

/-- Loading a configuration fails only in an expected way. -/
theorem failsOnlyBy_load : FailsOnlyBy (IsExpected tree root) (load tree root) := by
  refine .bind failsOnlyBy_section? fun found _ => ?_
  split
  · exact .pure _
  · rename_i file entries _
    intro e he
    cases hcheck : check (.map (normalised entries)) with
    | ok c =>
      rw [hcheck] at he
      exact nomatch he
    | error errors =>
      rw [hcheck] at he
      obtain rfl := Except.error.inj he
      exact .inl rfl
  · intro e he
    obtain rfl := Except.error.inj he
    exact .inl rfl

/-- A configuration that is loaded was checked; the one by default states nothing. -/
theorem exists_check_of_load {c : Configuration} (h : load tree root = .ok c) :
    ∃ v, check v = .ok c := by
  obtain ⟨found, -, h⟩ := bind_eq_ok_iff.1 h
  split at h
  · obtain rfl := Except.ok.inj h
    exact ⟨.map [], rfl⟩
  · rename_i file entries
    cases hcheck : check (.map (normalised entries)) with
    | ok c' =>
      rw [hcheck] at h
      exact ⟨_, hcheck.trans (congrArg Except.ok (Except.ok.inj h))⟩
    | error errors =>
      rw [hcheck] at h
      exact nomatch h
  · exact nomatch h

/-- Bytes that are not UTF-8 hold no table. -/
theorem readTable_of_not_utf8 (h : Utf8.decode? content = none) (file : Path) :
    readTable file content = .error .notUtf8 := by
  unfold readTable
  rw [h]
  rfl

/-- A project file that is not UTF-8 keeps any configuration from being loaded. -/
theorem load_of_not_utf8 (hfile : HasFile tree root sharedFile content)
    (h : Utf8.decode? content = none) : load tree root = .error .notUtf8 := by
  have hprobe : tree.probe (root.child sharedFile) = .ok (some (.file content)) := hfile
  have hshared : sharedSection tree root = .error .notUtf8 := by
    simp only [sharedSection, hprobe]
    change readTable (root.child sharedFile) content >>= _ = _
    rw [readTable_of_not_utf8 h]
    rfl
  unfold load section?
  rw [hshared]
  rfl

/-- Where the project file has no section for the configuration, a file of its own that is not UTF-8
keeps it from being loaded. -/
theorem load_of_own_not_utf8 (hshared : sharedSection tree root = .ok none)
    (hfile : HasFile tree root ownFile content) (h : Utf8.decode? content = none) :
    load tree root = .error .notUtf8 := by
  have hprobe : tree.probe (root.child ownFile) = .ok (some (.file content)) := hfile
  have hown : ownSection tree root = .error .notUtf8 := by
    simp only [ownSection, hprobe]
    change readTable (root.child ownFile) content >>= _ = _
    rw [readTable_of_not_utf8 h]
    rfl
  unfold load section?
  rw [hshared]
  change ownSection tree root >>= _ = _
  rw [hown]
  rfl

end Loading

/-- Loading yields a configuration that was checked, or it fails for a fault of the configuration,
or a file cannot be asked for, is not UTF-8 or holds an integer with too many digits. A project file
that is not UTF-8 does make it fail so, and so does the configuration's own file where the project
file has no section for it. The command reports a fault of the configuration with its message and
status two; any other failure ends it with status one. -/
theorem load_outcome (tree : FileTree) (root : Path) :
    ((∃ c v, load tree root = .ok c ∧ check v = .ok c) ∨
        ∃ e, load tree root = .error e ∧
          (Command.isConfigFault e = true ∨ Escapes tree root e)) ∧
      (∀ content, HasFile tree root sharedFile content → Utf8.decode? content = none →
        load tree root = .error .notUtf8) ∧
      (∀ content, sharedSection tree root = .ok none → HasFile tree root ownFile content →
        Utf8.decode? content = none → load tree root = .error .notUtf8) ∧
      ∀ (env : Command.Environment) (s : Command.Settings) (e : Failure), env.tree = tree →
        env.root s.root = .ok root → load tree root = .error e →
        Command.runKeys env s =
          if Command.isConfigFault e = true then
            { exit := 2
              stderr := some (Command.plain (Command.errorMark ++ e.message?.getD "")) }
          else { exit := 1, failure := some e } := by
  refine ⟨?_, fun content hfile h => load_of_not_utf8 hfile h,
    fun content hshared hfile h => load_of_own_not_utf8 hshared hfile h, ?_⟩
  · cases hload : load tree root with
    | ok c =>
      obtain ⟨v, hv⟩ := exists_check_of_load hload
      exact .inl ⟨c, v, rfl, hv⟩
    | error e => exact .inr ⟨e, rfl, failsOnlyBy_load e hload⟩
  · rintro env s e rfl hroot hload
    have hconfiguration : env.configuration s.root = .error e := by
      unfold Command.Environment.configuration
      rw [hroot]
      change (load env.tree root >>= _) = _
      rw [hload]
      rfl
    simp only [Command.runKeys, hconfiguration, Command.configReport]

/-- A project whose only file, which has the given name, is a single byte that is no character. -/
def sampleEnvironment (name : String) : Command.Environment where
  tree := .directory [("p", .directory [(name, .file [0xFF])])]
  current := ⟨.slash, ["p"]⟩
  grammars := { installed := fun _ => false, tree? := fun _ _ => none }
  plugins := .grouped []

/-- In both samples nothing is loaded, and the command ends unexpectedly. -/
theorem load_outcome_sampleEnvironment :
    (∀ name ∈ configFiles,
      load (sampleEnvironment name).tree ⟨.slash, ["p"]⟩ = .error .notUtf8) ∧
      ∀ name ∈ configFiles,
        Command.runKeys (sampleEnvironment name) {} = { exit := 1, failure := some .notUtf8 } := by
  have hdecode : Utf8.decode? [0xFF] = none := by decide
  have hload : ∀ name ∈ configFiles,
      load (sampleEnvironment name).tree ⟨.slash, ["p"]⟩ = .error .notUtf8 := by
    intro name hname
    obtain ⟨-, hshared, hown, -⟩ := load_outcome (sampleEnvironment name).tree ⟨.slash, ["p"]⟩
    rcases List.mem_pair.1 hname with rfl | rfl
    · exact hshared [0xFF] rfl hdecode
    · exact hown [0xFF] rfl rfl hdecode
  refine ⟨hload, fun name hname => ?_⟩
  obtain ⟨-, -, -, hreport⟩ := load_outcome (sampleEnvironment name).tree ⟨.slash, ["p"]⟩
  exact hreport (sampleEnvironment name) {} _ rfl rfl (hload name hname)

end Configuration

end TranslationKeys
