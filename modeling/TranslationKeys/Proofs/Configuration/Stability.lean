import TranslationKeys.Proofs.Configuration.Overrides

/-!
# Configurations stay normal

A configuration that was checked, and then had fields set to checked values, is in normal form: its
extensions have their leading point and its options are tables. Such a configuration can be written
out as a value, and checking that value gives the same configuration again. Assignments that fail
leave no trace.

Extensions are given a point where they come as a string, a list or a tuple. A set of strings would
be taken as it is, and is not considered here.
-/

namespace TranslationKeys

namespace ParserOptions

variable {options changes : ParserOptions}

/-- An option that is not there is set at the end. -/
theorem set_of_notMem {name : String} (hfresh : .str name ∉ options.map Prod.fst) (value : Value) :
    options.set name value = options ++ [(.str name, value)] := by
  unfold set Value.insertEntry
  rw [if_neg]
  intro hany
  obtain ⟨e, he, hsame⟩ := List.any_eq_true.1 hany
  exact hfresh (List.mem_map.2 ⟨e, he, Value.same_str_iff.1 hsame⟩)

/-- A table of options that are not there is put at the end. -/
theorem IsTable.update_eq_append (h : changes.IsTable)
    (hfresh : ∀ key ∈ changes.map Prod.fst, key ∉ options.map Prod.fst) :
    options.update changes = options ++ changes := by
  induction h generalizing options with
  | nil => exact (List.append_nil options).symm
  | @cons name value changes hname _ ih =>
    have hset := set_of_notMem (hfresh _ List.mem_cons_self) value
    rw [update_cons, hset, ih, List.append_assoc, List.singleton_append]
    intro key hkey hmem
    rw [List.map_append, List.mem_append] at hmem
    rcases hmem with hold | hnew
    · exact hfresh key (List.mem_cons_of_mem _ hkey) hold
    · obtain rfl : key = .str name := List.mem_singleton.1 hnew
      exact hname hkey

end ParserOptions

/-- Checks that all succeed yield their values. -/
theorem Checked.all_map_ok {α : Type} (xs : List α) :
    Checked.all (xs.map .ok) = .ok xs := by
  induction xs with
  | nil => rfl
  | cons x xs ih => simp only [List.map_cons, all, ih]

namespace Shape

variable {α : Type} {check : Value → Checked α} {write : α → Value} {xs : List α}

/-- A list of what passes its check when it is written out passes the check of lists. -/
theorem listOf_map (fault : ShapeFault) (h : ∀ x ∈ xs, check (write x) = .ok x) :
    listOf fault check (.list (xs.map write)) = .ok xs := by
  have heach (i : Nat) : each check i (xs.map write) = xs.map .ok := by
    induction xs generalizing i with
    | nil => rfl
    | cons x xs ih =>
      obtain ⟨hx, hxs⟩ := List.forall_mem_cons.1 h
      rw [List.map_cons, each, hx, ih hxs]
      rfl
  change Checked.all (each check 0 (xs.map write)) = .ok xs
  rw [heach, Checked.all_map_ok]

/-- A list of strings passes the check of lists of strings. -/
theorem listOf_string_ofStrings (fault : ShapeFault) (names : List String) :
    listOf fault string (.ofStrings names) = .ok names :=
  listOf_map fault fun _ _ => rfl

/-- A table passes its check as it is. -/
theorem table_map {options : ParserOptions} (h : options.IsTable) :
    table (.map options) = .ok options := by
  have hentries : options.map entry = options.map .ok := by
    apply List.map_congr_left
    intro e he
    obtain ⟨name, hname⟩ := h.named e he
    obtain ⟨key, value⟩ := e
    obtain rfl : key = .str name := hname
    rfl
  have hupdate : ParserOptions.update [] options = options :=
    h.update_eq_append fun _ _ hmem => absurd hmem List.not_mem_nil
  rw [table, hentries, Checked.all_map_ok]
  exact congrArg _ hupdate

/-- A field whose value passes its check is not its default. -/
theorem field_of_lookup? {entries : List (Value × Value)} {name : String} {missing : Checked α}
    {v : Value} {x : α} (hlookup : Value.lookup? name entries = some v) (h : check v = .ok x) :
    field entries name missing check = .ok x := by
  unfold field
  rw [hlookup]
  exact Checked.under_eq_ok_iff.2 h

end Shape

/-- A string or nothing as a value. -/
def Value.ofOptionalString : Option String → Value
  | none => .null
  | some s => .str s

/-- A string or nothing passes its check when it is written out. -/
theorem Shape.optionalString_ofOptionalString (s : Option String) :
    Shape.optionalString (.ofOptionalString s) = .ok s := by
  cases s <;> rfl

namespace PatternOverride

/-- An override as a value. -/
def dump (o : PatternOverride) : Value :=
  .map [(.str "files", .ofStrings o.files), (.str "parser", .ofOptionalString o.parser),
    (.str "parser_options", .map o.parserOptions)]

/-- Sets one field of an override to a checked value. -/
def assign (o : PatternOverride) (field : String) (v : Value) : Except Failure PatternOverride :=
  let place {α : Type} (x : Checked α) : Except Failure α :=
    (x.under (.name field)).mapError .invalid
  match field with
  | "files" => do return { o with files := ← place (checkFiles v) }
  | "parser" => do return { o with parser := ← place (Shape.optionalString v) }
  | "parser_options" => do return { o with parserOptions := ← place (Shape.table v) }
  | _ => if Configuration.isPrivateName field then .ok o else place (Checked.fail .noSuchField)

/-- A list of files passes its check as it is. -/
theorem checkFiles_ofStrings (files : List String) : checkFiles (.ofStrings files) = .ok files :=
  Shape.listOf_string_ofStrings .notList files

/-- An override whose options are a table passes its check when it is written out. -/
theorem check_dump {o : PatternOverride} (h : o.parserOptions.IsTable) : check o.dump = .ok o := by
  unfold check dump
  dsimp only
  rw [Shape.field_of_lookup? rfl (checkFiles_ofStrings o.files),
    Shape.field_of_lookup? rfl (Shape.optionalString_ofOptionalString o.parser),
    Shape.field_of_lookup? rfl (Shape.table_map h)]

/-- An override keeps its options a table when a field is set. -/
theorem isTable_of_assign {o o' : PatternOverride} (h : o.parserOptions.IsTable) {field : String}
    {v : Value} (hassign : o.assign field v = .ok o') : o'.parserOptions.IsTable := by
  unfold assign at hassign
  split at hassign
  · obtain ⟨files, -, hset⟩ := bind_eq_ok_iff.1 hassign
    obtain rfl := Except.ok.inj hset
    exact h
  · obtain ⟨parser, -, hset⟩ := bind_eq_ok_iff.1 hassign
    obtain rfl := Except.ok.inj hset
    exact h
  · obtain ⟨options, hoptions, hset⟩ := bind_eq_ok_iff.1 hassign
    obtain rfl := Except.ok.inj hset
    exact Shape.isTable_of_table (Checked.placed_eq_ok_iff.1 hoptions)
  · split at hassign
    · obtain rfl := Except.ok.inj hassign
      exact h
    · cases hassign

end PatternOverride

/-- A value is a set. -/
def Value.isSet : Value → Bool
  | .set _ | .frozenSet _ => true
  | _ => false

namespace Configuration

variable {c c' : Configuration}

/-- A configuration as a value. -/
def dump (c : Configuration) : Value :=
  .map [(.str "parser", .ofOptionalString c.parser), (.str "parser_options", .map c.parserOptions),
    (.str "extensions", .tuple (c.extensions.map .str)),
    (.str "ignore_patterns", .ofStrings c.ignorePatterns),
    (.str "overrides", .list (c.overrides.map PatternOverride.dump))]

/-- An extension has its leading point. -/
def HasPoint (extension : String) : Prop :=
  extension.toList.head? = some '.'

/-- A point is put before an extension that has none. -/
theorem hasPoint_dotted (text : String) : HasPoint (dotted text) := by
  unfold HasPoint dotted
  split
  · rename_i h
    exact eq_of_beq h
  · simp

/-- No point is put before an extension that has one. -/
theorem dotted_eq_self {extension : String} (h : HasPoint extension) :
    dotted extension = extension :=
  if_pos (beq_iff_eq.2 h)

/-- Extensions that are not given as a set have their leading point. -/
theorem hasPoint_of_checkExtensions {v : Value} {extensions : List String} (hset : v.isSet = false)
    (h : checkExtensions v = .ok extensions) : ∀ e ∈ extensions, HasPoint e := by
  have hdotted (texts : List String) : ∀ e ∈ texts.map dotted, HasPoint e := by
    rw [List.forall_mem_map]
    exact fun text _ => hasPoint_dotted text
  cases v with
  | str s =>
    obtain rfl := Except.ok.inj h
    exact hdotted [s]
  | list items | tuple items =>
    unfold checkExtensions at h
    simp only at h
    split at h
    · obtain rfl := Except.ok.inj h
      exact hdotted _
    · cases h
  | set | frozenSet => cases hset
  | _ => cases h

/-- A sequence of strings passes the check of extensions, each with its leading point. -/
theorem checkExtensions_tuple (extensions : List String) :
    checkExtensions (.tuple (extensions.map .str)) = .ok (extensions.map dotted) := by
  have htexts : (extensions.map Value.str).mapM Value.text = .ok extensions :=
    mapM_eq_ok_iff.2 (List.forall₂_map_left_iff.2 (List.forall₂_same.2 fun _ _ => rfl))
  unfold checkExtensions
  simp only [htexts]

/-- A configuration with tables passes its check when it is written out, and every extension then
has its leading point. -/
theorem HasTables.check_dump (h : c.HasTables) :
    check c.dump = .ok { c with extensions := c.extensions.map dotted } := by
  have hoverrides : checkOverrides (.list (c.overrides.map PatternOverride.dump)) =
      .ok c.overrides :=
    Shape.listOf_map _ fun o ho => PatternOverride.check_dump (h.overrides o ho)
  have hignored : checkIgnorePatterns (.ofStrings c.ignorePatterns) = .ok c.ignorePatterns :=
    Shape.listOf_string_ofStrings _ c.ignorePatterns
  unfold check dump
  dsimp only
  rw [Shape.field_of_lookup? rfl (Shape.optionalString_ofOptionalString c.parser),
    Shape.field_of_lookup? rfl (Shape.table_map h.parserOptions),
    Shape.field_of_lookup? rfl (checkExtensions_tuple c.extensions),
    Shape.field_of_lookup? rfl hignored, Shape.field_of_lookup? rfl hoverrides]

/-- A configuration in normal form. -/
structure IsNormal (c : Configuration) : Prop where
  /-- The options of the project and of its overrides are tables. -/
  tables : c.HasTables
  /-- The extensions have their leading point. -/
  points : ∀ e ∈ c.extensions, HasPoint e

/-- A configuration in normal form passes its check when it is written out, and stays as it is. -/
theorem IsNormal.check_dump (h : c.IsNormal) : check c.dump = .ok c := by
  have hpoints : c.extensions.map dotted = c.extensions :=
    (List.map_congr_left fun e he => dotted_eq_self (h.points e he)).trans (List.map_id' _)
  rw [h.tables.check_dump, hpoints]

/-- A value does not give the extensions as a set. -/
def GivesNoSet : Value → Prop
  | .map entries => ∀ v ∈ Value.lookup? "extensions" entries, v.isSet = false
  | _ => True

/-- A configuration that passes its check is in normal form. -/
theorem isNormal_of_check {v : Value} (hset : GivesNoSet v) (h : check v = .ok c) : c.IsNormal := by
  refine ⟨hasTables_of_check h, ?_⟩
  obtain ⟨entries, rfl, -, -, hextensions, -⟩ := fields_of_check h
  rcases Shape.of_field hextensions with hmissing | ⟨v, hlookup, hv⟩
  · rw [← Except.ok.inj hmissing]
    unfold HasPoint
    decide
  · exact hasPoint_of_checkExtensions (hset v hlookup) hv

/-- A validated assignment. -/
inductive Assignment where
  /-- To a field of the configuration. -/
  | toField (field : String) (v : Value)
  /-- To a field of the override at a position. -/
  | toOverride (position : Nat) (field : String) (v : Value)

namespace Assignment

/-- The configuration after an assignment. Where there is no override, nothing is set. -/
def apply (c : Configuration) : Assignment → Except Failure Configuration
  | toField field v => c.assign field v
  | toOverride position field v =>
    match c.overrides[position]? with
    | none => .ok c
    | some o => do return { c with overrides := c.overrides.set position (← o.assign field v) }

/-- An assignment does not give the extensions as a set. -/
def GivesNoSet : Assignment → Prop
  | toField field v => field = "extensions" → v.isSet = false
  | toOverride .. => True

end Assignment

/-- Assignment keeps the normal form. -/
theorem IsNormal.apply (h : c.IsNormal) {a : Assignment} (hset : a.GivesNoSet)
    (happly : a.apply c = .ok c') : c'.IsNormal := by
  cases a with
  | toField field v =>
    refine ⟨h.tables.assign happly, ?_⟩
    rcases assign_cases happly with ⟨-, _, -, rfl⟩ | ⟨-, _, -, rfl⟩ |
      ⟨hfield, _, hextensions, rfl⟩ | ⟨-, _, -, rfl⟩ | ⟨-, _, -, rfl⟩ | ⟨-, rfl⟩
    · exact h.points
    · exact h.points
    · exact hasPoint_of_checkExtensions (hset hfield) hextensions
    · exact h.points
    · exact h.points
    · exact h.points
  | toOverride position field v =>
    unfold Assignment.apply at happly
    simp only at happly
    split at happly
    · obtain rfl := Except.ok.inj happly
      exact h
    · rename_i o ho
      obtain ⟨o', ho', hset⟩ := bind_eq_ok_iff.1 happly
      obtain rfl := Except.ok.inj hset
      refine ⟨⟨h.tables.parserOptions, fun other hother => ?_⟩, h.points⟩
      rcases List.mem_or_eq_of_mem_set hother with hold | rfl
      · exact h.tables.overrides other hold
      · have hmem : o ∈ c.overrides := List.mem_of_getElem? ho
        exact PatternOverride.isTable_of_assign (h.tables.overrides o hmem) ho'

/-- Tries an assignment on a configuration that is kept: the failure, if there is one, and the
configuration that is there afterwards. -/
def attempt (c : Configuration) (a : Assignment) : Option Failure × Configuration :=
  match a.apply c with
  | .ok c => (none, c)
  | .error e => (some e, c)

/-- Tries assignments one after the other. -/
def attempts (c : Configuration) : List Assignment → List (Option Failure) × Configuration
  | [] => ([], c)
  | a :: rest =>
    let tried := c.attempt a
    let others := tried.2.attempts rest
    (tried.1 :: others.1, others.2)

/-- The assignments that do not fail when all are tried one after the other. -/
def successes (c : Configuration) (assignments : List Assignment) : List Assignment :=
  ((assignments.zip (c.attempts assignments).1).filter (·.2.isNone)).map Prod.fst

/-- An attempt keeps the normal form. -/
theorem IsNormal.attempt (h : c.IsNormal) {a : Assignment} (hset : a.GivesNoSet) :
    (c.attempt a).2.IsNormal := by
  unfold Configuration.attempt
  split
  · rename_i happly
    exact h.apply hset happly
  · exact h

/-- Attempts one after the other keep the normal form. -/
theorem IsNormal.attempts {assignments : List Assignment} (h : c.IsNormal)
    (hset : ∀ a ∈ assignments, a.GivesNoSet) : (c.attempts assignments).2.IsNormal := by
  induction assignments generalizing c with
  | nil => exact h
  | cons a rest ih =>
    obtain ⟨ha, hrest⟩ := List.forall_mem_cons.1 hset
    exact ih (h.attempt ha) hrest

/-- An attempt that fails leaves the configuration as it was. -/
theorem eq_of_attempt_fails {a : Assignment} {e : Failure} (h : c.attempt a = (some e, c')) :
    c' = c := by
  unfold attempt at h
  split at h
  · cases h
  · exact (Prod.mk.inj h).2.symm

/-- The assignments that do not fail succeed on their own as well, and lead to the configuration
that all of them lead to. -/
theorem attempts_successes (c : Configuration) (assignments : List Assignment) :
    c.attempts (c.successes assignments) =
      ((c.successes assignments).map fun _ => none, (c.attempts assignments).2) := by
  induction assignments generalizing c with
  | nil => rfl
  | cons a rest ih =>
    cases happly : a.apply c with
    | ok c' =>
      have hattempt : c.attempt a = (none, c') := by rw [attempt, happly]
      have hsuccesses : c.successes (a :: rest) = a :: c'.successes rest := by
        simp [successes, attempts, hattempt]
      rw [hsuccesses, attempts, attempts, hattempt, ih]
      rfl
    | error e =>
      have hattempt : c.attempt a = (some e, c) := by rw [attempt, happly]
      have hsuccesses : c.successes (a :: rest) = c.successes rest := by
        simp [successes, attempts, hattempt]
      rw [hsuccesses, attempts, hattempt, ih]

/-- Whatever value a configuration is read from, and whatever assignments are tried on it
afterwards, its extensions have their leading point, the files of its overrides are lists of strings
that pass their check, and the configuration passes its check when it is written out and is the same
again. What was assigned without success leaves no trace: the configuration is the one that the
successful assignments lead to, and any further one that fails leaves it as it is. -/
theorem attempts_stable {v : Value} {start : Configuration} {assignments : List Assignment}
    (hstart : ofValue v = .ok start) (hset : GivesNoSet v)
    (hsets : ∀ a ∈ assignments, a.GivesNoSet) :
    let c := (start.attempts assignments).2
    (∀ e ∈ c.extensions, e.toList.head? = some '.') ∧
      (∀ o ∈ c.overrides, PatternOverride.checkFiles (.ofStrings o.files) = .ok o.files) ∧
      ofValue c.dump = .ok c ∧
      start.attempts (start.successes assignments) =
        ((start.successes assignments).map fun _ => none, c) ∧
      ∀ a e c', c.attempt a = (some e, c') → c' = c := by
  intro c
  have hcheck : check v = .ok start := by
    unfold ofValue at hstart
    cases hv : check v with
    | ok c =>
      rw [hv] at hstart
      exact congrArg _ (Except.ok.inj hstart)
    | error errors =>
      rw [hv] at hstart
      cases hstart
  have hnormal : c.IsNormal := (isNormal_of_check hset hcheck).attempts hsets
  refine ⟨hnormal.points, fun o _ => PatternOverride.checkFiles_ofStrings o.files, ?_,
    attempts_successes start assignments, fun _ _ _ => eq_of_attempt_fails⟩
  rw [ofValue, hnormal.check_dump]
  rfl

/-- A value with extensions that lack their point, and with an override for a single pattern. -/
def sampleStated : Value :=
  .map [(.str "extensions", .list [.str "js", .bool true, .str ".vue"]),
    (.str "overrides", .list [.map [(.str "files", .str "src/")]])]

/-- The configuration that the sample states. -/
def sampleStart : Configuration where
  extensions := [".js", ".True", ".vue"]
  overrides := [{ files := ["src/"] }]

/-- Assignments of which the second, third and last one fail. -/
def sampleAssignments : List Assignment :=
  [.toField "extensions" (.str "ts"), .toField "parser" (.int 3),
    .toOverride 0 "files" (.list [.int 1]), .toOverride 0 "files" (.tuple [.str "lib/"]),
    .toField "colour" .null]

/-- The configuration after the sample assignments. -/
def sampleEnd : Configuration where
  extensions := [".ts"]
  overrides := [{ files := ["lib/"] }]

/-- The sample assignments lead to a configuration that is stable, and so do the two of them that
succeed. -/
theorem attempts_stable_sampleAssignments :
    ofValue sampleStated = .ok sampleStart ∧
      (sampleStart.attempts sampleAssignments).2 = sampleEnd ∧
      ofValue sampleEnd.dump = .ok sampleEnd ∧
      sampleStart.attempts [.toField "extensions" (.str "ts"),
        .toOverride 0 "files" (.tuple [.str "lib/"])] = ([none, none], sampleEnd) := by
  have hstart : ofValue sampleStated = .ok sampleStart := rfl
  have hset : GivesNoSet sampleStated := fun v hv => by
    obtain rfl := Option.some.inj hv
    rfl
  have hsets : ∀ a ∈ sampleAssignments, a.GivesNoSet := by
    simp [sampleAssignments, Assignment.GivesNoSet, Value.isSet]
  obtain ⟨-, -, hdump, hsuccesses, -⟩ := attempts_stable hstart hset hsets
  exact ⟨hstart, rfl, hdump, hsuccesses⟩

end Configuration

end TranslationKeys
