import TranslationKeys.Proofs.Causes
import TranslationKeys.Proofs.Configuration.Sharing
import TranslationKeys.Proofs.Lookups
import TranslationKeys.Proofs.Parser.Suffixes

/-!
# Overrides

The overrides that apply to a file are put over the settings of the project one after the other. So
the last one that names a parser says which parser it is, and the last one that has an option says
what its value is. Overrides that do not apply leave no trace, and two in a row are as good as one.

Options are tables: their keys are strings, and no key occurs twice. Every configuration that passes
its check has such options, and keeps them when a field is set.
-/

namespace TranslationKeys

namespace ParserOptions

/-- The keys of options are strings, and no key occurs twice. -/
inductive IsTable : ParserOptions → Prop where
  | nil : IsTable []
  | cons {name : String} {value : Value} {options : ParserOptions}
      (hfresh : .str name ∉ options.map Prod.fst) (h : IsTable options) :
      IsTable ((.str name, value) :: options)

variable {options changes first second : ParserOptions} {name other : String}

section Set

/-- An option is set in the place where it was. -/
theorem set_cons_self (hfresh : .str name ∉ options.map Prod.fst) (value value' : Value) :
    ParserOptions.set ((.str name, value) :: options) name value' =
      (.str name, value') :: options := by
  have hsame : Value.same (.str name) (.str name) = true := Value.same_str_iff.2 rfl
  have hrest : ∀ e ∈ options, Value.same (.str name) e.1 = false := fun e he =>
    Bool.eq_false_iff.2 fun h => hfresh (List.mem_map.2 ⟨e, he, Value.same_str_iff.1 h⟩)
  rw [set, Value.insertEntry, if_pos (by simp [hsame]), List.map_cons, if_pos hsame]
  refine congrArg _ ((List.map_congr_left fun e he => ?_).trans (List.map_id' options))
  rw [if_neg (by simp [hrest e he])]

/-- Setting one option leaves an entry for another where it is. -/
theorem set_cons_of_ne (hne : other ≠ name) (options : ParserOptions) (value value' : Value) :
    ParserOptions.set ((.str other, value) :: options) name value' =
      (.str other, value) :: options.set name value' := by
  have hsame : Value.same (.str name) (.str other) = false :=
    Bool.eq_false_iff.2 fun h => hne (Value.str.inj (Value.same_str_iff.1 h))
  unfold set Value.insertEntry
  rw [List.any_cons, hsame, Bool.false_or]
  split <;> simp [hsame]

/-- An option that is set is there, and so are those that were. -/
theorem IsTable.mem_keys_set (h : options.IsTable) {key value : Value} :
    key ∈ (options.set name value).map Prod.fst ↔
      key = .str name ∨ key ∈ options.map Prod.fst := by
  induction h with
  | nil => simp [ParserOptions.set, Value.insertEntry]
  | @cons other value' options hfresh _ ih =>
    by_cases hne : other = name
    · subst hne
      rw [set_cons_self hfresh]
      simp
    · rw [set_cons_of_ne hne, List.map_cons, List.mem_cons, ih, List.map_cons, List.mem_cons]
      exact or_left_comm

/-- Setting an option keeps a table. -/
theorem IsTable.set (h : options.IsTable) (name : String) (value : Value) :
    (options.set name value).IsTable := by
  induction h with
  | nil => exact .cons List.not_mem_nil .nil
  | @cons other value' options hfresh h ih =>
    by_cases hne : other = name
    · subst hne
      rw [set_cons_self hfresh]
      exact .cons hfresh h
    · rw [set_cons_of_ne hne]
      refine .cons (fun hmem => ?_) ih
      rcases h.mem_keys_set.1 hmem with heq | hmem
      · exact hne (Value.str.inj heq)
      · exact hfresh hmem

/-- An option that is set twice has the second value. -/
theorem IsTable.set_set_self (h : options.IsTable) (name : String) (value value' : Value) :
    (options.set name value).set name value' = options.set name value' := by
  induction h with
  | nil => exact set_cons_self List.not_mem_nil _ _
  | @cons other _ options hfresh _ ih =>
    by_cases hne : other = name
    · subst hne
      rw [set_cons_self hfresh, set_cons_self hfresh, set_cons_self hfresh]
    · rw [set_cons_of_ne hne, set_cons_of_ne hne, set_cons_of_ne hne, ih]

/-- An option that is there can be replaced before or after another one is set. -/
theorem IsTable.set_comm (h : options.IsTable) (hmem : .str name ∈ options.map Prod.fst)
    (hne : other ≠ name) (value value' : Value) :
    (options.set other value').set name value = (options.set name value).set other value' := by
  have hfreshSet {options : ParserOptions} (h : options.IsTable) {name other : String}
      (hne : name ≠ other) (hfresh : .str name ∉ options.map Prod.fst) (value : Value) :
      .str name ∉ (options.set other value).map Prod.fst := fun hmem =>
    (h.mem_keys_set.1 hmem).elim (fun heq => hne (Value.str.inj heq)) hfresh
  induction h with
  | nil => exact absurd hmem List.not_mem_nil
  | @cons key _ options hfresh h ih =>
    by_cases hname : key = name
    · subst hname
      rw [set_cons_of_ne hne.symm, set_cons_self (hfreshSet h hne.symm hfresh _),
        set_cons_self hfresh, set_cons_of_ne hne.symm]
    · by_cases hother : key = other
      · subst hother
        rw [set_cons_self hfresh, set_cons_of_ne hname, set_cons_of_ne hname,
          set_cons_self (hfreshSet h hne hfresh _)]
      · have hrest : .str name ∈ options.map Prod.fst := by
          rcases List.mem_cons.1 hmem with heq | hmem
          · exact absurd (Value.str.inj heq).symm hname
          · exact hmem
        rw [set_cons_of_ne hother, set_cons_of_ne hname, set_cons_of_ne hname,
          set_cons_of_ne hother, ih hrest]

end Set

section Update

/-- Options are put over others one by one. -/
theorem update_cons (options : ParserOptions) (name : String) (value : Value)
    (changes : ParserOptions) :
    options.update ((.str name, value) :: changes) = (options.set name value).update changes :=
  rfl

/-- Putting named options over a table keeps it one. -/
theorem IsTable.update (h : options.IsTable) (hnamed : ∀ e ∈ changes, ∃ name, e.1 = .str name) :
    (options.update changes).IsTable := by
  induction changes generalizing options with
  | nil => exact h
  | cons e changes ih =>
    obtain ⟨⟨name, hname⟩, hrest⟩ := List.forall_mem_cons.1 hnamed
    obtain ⟨key, value⟩ := e
    obtain rfl : key = .str name := hname
    exact ih (h.set name value) hrest

/-- The entries of a table are named. -/
theorem IsTable.named (h : options.IsTable) : ∀ e ∈ options, ∃ name, e.1 = .str name := by
  induction h with
  | nil => exact fun _ he => absurd he List.not_mem_nil
  | cons _ _ ih => exact List.forall_mem_cons.2 ⟨⟨_, rfl⟩, ih⟩

/-- A table that is put over options is asked first. -/
theorem lookup?_update (h : changes.IsTable) (options : ParserOptions) (name : String) :
    Value.lookup? name (options.update changes) =
      (Value.lookup? name changes).or (Value.lookup? name options) := by
  induction h generalizing options with
  | nil => rfl
  | @cons other value changes hfresh _ ih =>
    have hcons : Value.lookup? name ((.str other, value) :: changes) =
        if other = name then some value else Value.lookup? name changes := by
      by_cases hne : other = name <;> simp [Value.lookup?, hne]
    rw [update_cons, ih, set, Value.lookup?_insertEntry, hcons]
    by_cases hne : other = name
    · subst hne
      have hnone : Value.lookup? other changes = none := by
        rw [Value.lookup?_eq_find?, Option.map_eq_none_iff, List.find?_eq_none]
        exact fun e he hsame => hfresh (List.mem_map.2 ⟨e, he, Value.same_str_iff.1 hsame⟩)
      simp [hnone]
    · rw [if_neg hne, if_neg hne]

/-- An option that is there, and is not among those that are put over it, can be set before or
after. -/
theorem set_update_of_notMem (hoptions : options.IsTable) (hchanges : changes.IsTable)
    (hmem : .str name ∈ options.map Prod.fst) (hfresh : .str name ∉ changes.map Prod.fst)
    (value : Value) :
    (options.update changes).set name value = (options.set name value).update changes := by
  induction hchanges generalizing options with
  | nil => rfl
  | @cons other value' changes _ _ ih =>
    have hne : other ≠ name := fun heq => hfresh (heq ▸ List.mem_cons_self)
    rw [update_cons, ih (hoptions.set _ _) (hoptions.mem_keys_set.2 (.inr hmem))
      (fun hmem => hfresh (List.mem_cons_of_mem _ hmem)), hoptions.set_comm hmem hne, update_cons]

/-- Options with one of them set are put over others as they were, and the one is set then. -/
theorem update_set (hoptions : options.IsTable) (hfirst : first.IsTable) (name : String)
    (value : Value) :
    options.update (first.set name value) = (options.update first).set name value := by
  induction hfirst generalizing options with
  | nil => rfl
  | @cons other value' first hfresh hfirst ih =>
    by_cases hne : other = name
    · subst hne
      have hmem : .str other ∈ (options.set other value').map Prod.fst :=
        hoptions.mem_keys_set.2 (.inl rfl)
      calc options.update (ParserOptions.set ((.str other, value') :: first) other value)
          = (options.set other value).update first := by rw [set_cons_self hfresh, update_cons]
        _ = ((options.set other value').set other value).update first := by
            rw [hoptions.set_set_self]
        _ = (options.update ((.str other, value') :: first)).set other value :=
            (set_update_of_notMem (hoptions.set _ _) hfirst hmem hfresh value).symm
    · rw [set_cons_of_ne hne, update_cons, ih (hoptions.set _ _), update_cons]

/-- Two tables are put over options one after the other as the second over the first is. -/
theorem update_update (hoptions : options.IsTable) (hfirst : first.IsTable)
    (hsecond : second.IsTable) :
    (options.update first).update second = options.update (first.update second) := by
  induction hsecond generalizing first with
  | nil => rfl
  | @cons name value second _ _ ih =>
    rw [update_cons, update_cons, ← ih (hfirst.set _ _), update_set hoptions hfirst]

end Update

end ParserOptions

section Checks

/-- A value that passes a check one step below another passes the check. -/
theorem Checked.under_eq_ok_iff {α : Type} {c : Checked α} {step : LocationStep} {x : α} :
    c.under step = .ok x ↔ c = .ok x := by
  cases c <;> simp [under, Except.mapError]

/-- A value that is put into a field passes the check of that field. -/
theorem Checked.placed_eq_ok_iff {α : Type} {c : Checked α} {step : LocationStep} {x : α} :
    (c.under step).mapError Failure.invalid = .ok x ↔ c = .ok x := by
  cases c <;> simp [under, Except.mapError]

/-- Each of the values of a list of checks passes one of them. -/
theorem Checked.mem_of_all {α : Type} {cs : List (Checked α)} {xs : List α} (h : all cs = .ok xs) :
    ∀ x ∈ xs, .ok x ∈ cs := by
  induction cs generalizing xs with
  | nil =>
    obtain rfl := Except.ok.inj h
    exact fun _ hx => absurd hx List.not_mem_nil
  | cons c cs ih =>
    unfold all at h
    split at h
    · rename_i x xs' hrest
      obtain rfl := Except.ok.inj h
      refine List.forall_mem_cons.2 ⟨List.mem_cons_self, fun y hy => ?_⟩
      exact List.mem_cons_of_mem _ (ih hrest y hy)
    · cases h

namespace Shape

variable {α : Type} {check : Value → Checked α}

/-- Each item of a list is checked. -/
theorem exists_of_mem_each {c : Checked α} {i : Nat} {vs : List Value} (h : c ∈ each check i vs) :
    ∃ v step, c = (check v).under step := by
  induction vs generalizing i with
  | nil => exact absurd h List.not_mem_nil
  | cons v vs ih =>
    rcases List.mem_cons.1 h with rfl | h
    · exact ⟨v, _, rfl⟩
    · exact ih h

/-- The items of a list that passes its check pass theirs. -/
theorem exists_check_of_listOf {fault : ShapeFault} {v : Value} {xs : List α}
    (h : listOf fault check v = .ok xs) : ∀ x ∈ xs, ∃ item, check item = .ok x := by
  obtain ⟨vs, -, h⟩ := bind_eq_ok_iff.1 h
  intro x hx
  obtain ⟨item, step, hitem⟩ := exists_of_mem_each (Checked.mem_of_all h x hx)
  exact ⟨item, Checked.under_eq_ok_iff.1 hitem.symm⟩

/-- A field that passes its check is the default or passes the check of its value. -/
theorem of_field {entries : List (Value × Value)} {name : String} {missing : Checked α} {x : α}
    (h : field entries name missing check = .ok x) :
    missing = .ok x ∨ ∃ v, Value.lookup? name entries = some v ∧ check v = .ok x := by
  unfold field at h
  split at h
  · rename_i v hv
    exact .inr ⟨v, hv, Checked.under_eq_ok_iff.1 h⟩
  · exact .inl (Checked.under_eq_ok_iff.1 h)

/-- An entry that passes its check is named. -/
theorem exists_name_of_entry {e e' : Value × Value} (h : entry e' = .ok e) :
    ∃ name, e.1 = .str name := by
  unfold entry at h
  cases hkey : ((string e'.1).under (.name "[key]")).under (keyStep e'.1) with
  | error errors => simp [hkey, Except.map] at h
  | ok name =>
    rw [hkey] at h
    exact ⟨name, congrArg Prod.fst (Except.ok.inj h).symm⟩

/-- What passes the check of a table is one. -/
theorem isTable_of_table {v : Value} {options : ParserOptions} (h : table v = .ok options) :
    options.IsTable := by
  unfold table at h
  split at h
  · rename_i entries
    cases hall : Checked.all (entries.map entry) with
    | error errors => simp [hall, Except.map] at h
    | ok named =>
      rw [hall] at h
      obtain rfl := Except.ok.inj h
      refine ParserOptions.IsTable.nil.update fun e he => ?_
      obtain ⟨e', -, hentry⟩ := List.mem_map.1 (Checked.mem_of_all hall e he)
      exact exists_name_of_entry hentry
  · cases h

/-- A field for a table that is empty by default is a table. -/
theorem isTable_of_field {entries : List (Value × Value)} {name : String} {options : ParserOptions}
    (h : field entries name (.ok []) table = .ok options) : options.IsTable := by
  rcases of_field h with hmissing | ⟨v, -, hv⟩
  · obtain rfl := Except.ok.inj hmissing
    exact .nil
  · exact isTable_of_table hv

end Shape

/-- The options of an override that passes its check are a table. -/
theorem PatternOverride.isTable_of_check {v : Value} {o : PatternOverride}
    (h : check v = .ok o) : o.parserOptions.IsTable := by
  unfold check at h
  split at h
  · split at h
    · rename_i hoptions
      obtain rfl := Except.ok.inj h
      exact Shape.isTable_of_field hoptions
    · cases h
  · cases h

end Checks

namespace Configuration

variable {c : Configuration}

/-- The options of a configuration and of its overrides are tables. -/
structure HasTables (c : Configuration) : Prop where
  /-- The options of the project are a table. -/
  parserOptions : c.parserOptions.IsTable
  /-- The options of each override are a table. -/
  overrides : ∀ o ∈ c.overrides, o.parserOptions.IsTable

/-- The overrides that pass their check have tables. -/
theorem isTable_of_checkOverrides {v : Value} {overrides : List PatternOverride}
    (h : checkOverrides v = .ok overrides) : ∀ o ∈ overrides, o.parserOptions.IsTable := by
  intro o ho
  obtain ⟨item, hitem⟩ := Shape.exists_check_of_listOf h o ho
  exact PatternOverride.isTable_of_check hitem

/-- The fields of a configuration that passes its check pass theirs. -/
theorem fields_of_check {v : Value} (h : check v = .ok c) :
    ∃ entries, v = .map entries ∧
      Shape.field entries "parser" (.ok none) Shape.optionalString = .ok c.parser ∧
      Shape.field entries "parser_options" (.ok []) Shape.table = .ok c.parserOptions ∧
      Shape.field entries "extensions" (.ok standardExtensions) checkExtensions =
        .ok c.extensions ∧
      Shape.field entries "ignore_patterns" (.ok []) checkIgnorePatterns = .ok c.ignorePatterns ∧
      Shape.field entries "overrides" (.ok []) checkOverrides = .ok c.overrides := by
  unfold check at h
  split at h
  · split at h
    · rename_i hparser hoptions hextensions hignored hoverrides
      obtain rfl := Except.ok.inj h
      exact ⟨_, rfl, hparser, hoptions, hextensions, hignored, hoverrides⟩
    · cases h
  · cases h

/-- A configuration that passes its check has tables. -/
theorem hasTables_of_check {v : Value} (h : check v = .ok c) : c.HasTables := by
  obtain ⟨entries, -, -, hoptions, -, -, hoverrides⟩ := fields_of_check h
  refine ⟨Shape.isTable_of_field hoptions, ?_⟩
  rcases Shape.of_field hoverrides with hmissing | ⟨v, -, hv⟩
  · rw [← Except.ok.inj hmissing]
    exact fun _ ho => absurd ho List.not_mem_nil
  · exact isTable_of_checkOverrides hv

/-- Setting a field puts a value there that passes the check of the field, and leaves all others. A
private name sets nothing. -/
theorem assign_cases {field : String} {v : Value} {c' : Configuration}
    (h : c.assign field v = .ok c') :
    (field = "parser" ∧
        ∃ parser, Shape.optionalString v = .ok parser ∧ c' = { c with parser }) ∨
      (field = "parser_options" ∧
        ∃ options, Shape.table v = .ok options ∧ c' = { c with parserOptions := options }) ∨
      (field = "extensions" ∧
        ∃ extensions, checkExtensions v = .ok extensions ∧ c' = { c with extensions }) ∨
      (field = "ignore_patterns" ∧
        ∃ ignored, checkIgnorePatterns v = .ok ignored ∧
          c' = { c with ignorePatterns := ignored }) ∨
      (field = "overrides" ∧
        ∃ overrides, checkOverrides v = .ok overrides ∧ c' = { c with overrides }) ∨
      isPrivateName field = true ∧ c' = c := by
  have hplaced {α : Type} {x : Checked α} {f : α → Configuration}
      (hx : ((x.under (.name field)).mapError Failure.invalid >>= fun a => .ok (f a)) = .ok c') :
      ∃ a, x = .ok a ∧ c' = f a := by
    obtain ⟨a, ha, hset⟩ := bind_eq_ok_iff.1 hx
    exact ⟨a, Checked.placed_eq_ok_iff.1 ha, (Except.ok.inj hset).symm⟩
  unfold assign at h
  split at h
  · exact .inl ⟨rfl, hplaced h⟩
  · exact .inr (.inl ⟨rfl, hplaced h⟩)
  · exact .inr (.inr (.inl ⟨rfl, hplaced h⟩))
  · exact .inr (.inr (.inr (.inl ⟨rfl, hplaced h⟩)))
  · exact .inr (.inr (.inr (.inr (.inl ⟨rfl, hplaced h⟩))))
  · split at h
    · rename_i hprivate
      exact .inr (.inr (.inr (.inr (.inr ⟨hprivate, (Except.ok.inj h).symm⟩))))
    · cases h

/-- A configuration keeps having tables when a field is set. -/
theorem HasTables.assign (h : c.HasTables) {field : String} {v : Value} {c' : Configuration}
    (hassign : c.assign field v = .ok c') : c'.HasTables := by
  rcases assign_cases hassign with ⟨-, _, -, rfl⟩ | ⟨-, _, hoptions, rfl⟩ | ⟨-, _, -, rfl⟩ |
    ⟨-, _, -, rfl⟩ | ⟨-, _, hoverrides, rfl⟩ | ⟨-, rfl⟩
  · exact ⟨h.parserOptions, h.overrides⟩
  · exact ⟨Shape.isTable_of_table hoptions, h.overrides⟩
  · exact ⟨h.parserOptions, h.overrides⟩
  · exact ⟨h.parserOptions, h.overrides⟩
  · exact ⟨h.parserOptions, isTable_of_checkOverrides hoverrides⟩
  · exact h

end Configuration

namespace PatternOverride

/-- Two overrides in one, the second put over the first, for files of its own. -/
def merge (first second : PatternOverride) (files : List String) : PatternOverride where
  files := files
  parser := second.parser.orElse fun _ => first.parser
  parserOptions := first.parserOptions.update second.parserOptions

/-- Two overrides in one do what they do one after the other. -/
theorem applyTo_merge {first second : PatternOverride} {choice : ParserChoice}
    (hchoice : choice.parserOptions.IsTable) (hfirst : first.parserOptions.IsTable)
    (hsecond : second.parserOptions.IsTable) (files : List String) :
    (first.merge second files).applyTo choice = second.applyTo (first.applyTo choice) := by
  have hoptions := ParserOptions.update_update hchoice hfirst hsecond
  unfold applyTo merge
  rw [hoptions]
  cases second.parser <;> rfl

section Runs

variable {applying : List PatternOverride} {choice : ParserChoice}

/-- Overrides keep the options a table. -/
theorem isTable_foldl_applyTo (hchoice : choice.parserOptions.IsTable)
    (happlying : ∀ o ∈ applying, o.parserOptions.IsTable) :
    (applying.foldl (fun config o => o.applyTo config) choice).parserOptions.IsTable := by
  induction applying generalizing choice with
  | nil => exact hchoice
  | cons o applying ih =>
    obtain ⟨ho, happlying⟩ := List.forall_mem_cons.1 happlying
    exact ih (hchoice.update ho.named) happlying

/-- The last override that names a parser names the one that is taken. -/
theorem parser_foldl_applyTo (applying : List PatternOverride) (choice : ParserChoice) :
    (applying.foldl (fun config o => o.applyTo config) choice).parser =
      (applying.filterMap (·.parser)).getLast?.or choice.parser := by
  refine read_foldl_eq_getLast? ParserChoice.parser (fun o _ config => ?_) choice
  cases hparser : o.parser <;> simp [applyTo, hparser]

/-- The last override that has an option says what its value is. -/
theorem lookup?_foldl_applyTo (happlying : ∀ o ∈ applying, o.parserOptions.IsTable)
    (choice : ParserChoice) (name : String) :
    Value.lookup? name
        (applying.foldl (fun config o => o.applyTo config) choice).parserOptions =
      (applying.filterMap fun o => Value.lookup? name o.parserOptions).getLast?.or
        (Value.lookup? name choice.parserOptions) :=
  read_foldl_eq_getLast? (fun config => Value.lookup? name config.parserOptions)
    (fun o ho config => ParserOptions.lookup?_update (happlying o ho) config.parserOptions name)
    choice

end Runs

end PatternOverride

namespace Configuration

variable {c : Configuration}

/-- Only the overrides that apply to a path count. -/
theorem forRelative_congr {relative : String} {overrides : List PatternOverride}
    (h : overrides.filter (·.covers relative) = c.overrides.filter (·.covers relative)) :
    { c with overrides }.forRelative relative = c.forRelative relative := by
  unfold forRelative
  rw [h]

/-- Two overrides in a row that apply to a path can be merged. -/
theorem forRelative_merge (hc : c.HasTables) {relative : String}
    {before after : List PatternOverride} {first second : PatternOverride} {files : List String}
    (hoverrides : c.overrides = before ++ first :: second :: after)
    (hfirst : first.covers relative = true) (hsecond : second.covers relative = true)
    (hmerged : (first.merge second files).covers relative = true) :
    { c with overrides := before ++ first.merge second files :: after }.forRelative relative =
      c.forRelative relative := by
  have htable : ∀ o ∈ before ++ first :: second :: after, o.parserOptions.IsTable :=
    hoverrides ▸ hc.overrides
  have hbefore : ∀ o ∈ before.filter (·.covers relative), o.parserOptions.IsTable := fun o ho =>
    htable o (List.mem_append_left _ (List.mem_filter.1 ho).1)
  have hcons {o : PatternOverride} (ho : o.covers relative = true) (os : List PatternOverride) :
      (o :: os).filter (·.covers relative) = o :: os.filter (·.covers relative) :=
    List.filter_cons_of_pos ho
  unfold forRelative
  simp only [hoverrides, List.filter_append, hcons hmerged, hcons hfirst, hcons hsecond,
    List.foldl_append, List.foldl_cons]
  rw [PatternOverride.applyTo_merge
    (PatternOverride.isTable_foldl_applyTo hc.parserOptions hbefore)
    (htable first (by simp)) (htable second (by simp))]

/-- The last writer wins. Among the overrides that apply to a file, the last one that names a parser
says which parser it is, and the last one that has an option says what its value is; without such an
override the project says so. The options are a table again. Any other overrides give the same
result if the ones that apply are the same, in the same order. Two in a row that apply give the
same result as one with the second put over the first, whatever files it is for as long as it
applies. Where option tables are shared, any series of calls leaves the tables of the configuration
as they are, even if answers are changed in between, and each answer is as it would be alone. -/
theorem forPath_lastWins (hc : c.HasTables) (current root path : Path) :
    let relative := (current.absolute path).relativeText (current.absolute root)
    let applying := c.overrides.filter (·.covers relative)
    let choice := c.forPath current root path
    choice.parser = (applying.filterMap (·.parser)).getLast?.or c.parser ∧
      (∀ name, Value.lookup? name choice.parserOptions =
        (applying.filterMap fun o => Value.lookup? name o.parserOptions).getLast?.or
          (Value.lookup? name c.parserOptions)) ∧
      choice.parserOptions.IsTable ∧
      (∀ overrides, overrides.filter (·.covers relative) = applying →
        { c with overrides }.forPath current root path = choice) ∧
      (∀ before first second after files, c.overrides = before ++ first :: second :: after →
        first.covers relative = true → second.covers relative = true →
        (first.merge second files).covers relative = true →
        { c with overrides := before ++ first.merge second files :: after }.forPath current root
          path = choice) ∧
      ∀ (placed : PlacedConfiguration) (before : OptionTables) (uses : List TableUse),
        placed.StandsFor before c →
        let tables := (placed.run current uses ⟨before, []⟩).tables
        let asked := placed.ask relative tables
        before <+: tables ∧ placed.StandsFor tables c ∧ asked.2.parser = choice.parser ∧
          asked.1[asked.2.table]? = some choice.parserOptions := by
  intro relative applying choice
  have happlying : ∀ o ∈ applying, o.parserOptions.IsTable := fun o ho =>
    hc.overrides o (List.mem_filter.1 ho).1
  refine ⟨PatternOverride.parser_foldl_applyTo applying _,
    PatternOverride.lookup?_foldl_applyTo happlying _,
    PatternOverride.isTable_foldl_applyTo hc.parserOptions happlying,
    fun _ hsame => forRelative_congr hsame,
    fun _ _ _ _ _ hoverrides hfirst hsecond hmerged =>
      forRelative_merge hc hoverrides hfirst hsecond hmerged,
    fun placed before uses hplaced => ?_⟩
  obtain ⟨hkept, hstands, hanswer⟩ := hplaced.run current uses
  exact ⟨hkept, hstands, hanswer root path⟩

/-- Settings for sources. -/
def sampleSourceOverride : PatternOverride :=
  ⟨["src/"], some "component", [(.str "depth", .int 2)]⟩

/-- Settings for other files. -/
def sampleLibraryOverride : PatternOverride :=
  ⟨["lib/"], some "markup", []⟩

/-- Settings for scripts. -/
def sampleScriptOverride : PatternOverride :=
  ⟨["*.js"], none, [(.str "depth", .int 3), (.str "pure", .bool true)]⟩

/-- A project with these overrides. -/
def sampleOverridden : Configuration where
  parser := some "script"
  parserOptions := [(.str "depth", .int 1), (.str "strict", .bool true)]
  overrides := [sampleLibraryOverride, sampleSourceOverride, sampleScriptOverride]

/-- The same project with its options in tables. -/
def samplePlaced : PlacedConfiguration where
  parser := some "script"
  table := 0
  overrides := [⟨["lib/"], some "markup", 1⟩, ⟨["src/"], some "component", 2⟩, ⟨["*.js"], none, 3⟩]

/-- The tables of the project. -/
def sampleTables : OptionTables :=
  [sampleOverridden.parserOptions, [], sampleSourceOverride.parserOptions,
    sampleScriptOverride.parserOptions]

/-- For a script among the sources, the second override names the parser and the last one says what
the depth is. The first one could as well be missing, the other two can be merged, and emptying the
options of an answer leaves the next one and the tables of the project as they are. -/
theorem forPath_lastWins_sampleOverridden :
    let root : Path := ⟨.slash, ["p"]⟩
    let path : Path := ⟨.relative, ["src", "a.js"]⟩
    let choice := sampleOverridden.forPath root root path
    let tables := (samplePlaced.run root [.ask root path, .change 0 fun _ => []]
      ⟨sampleTables, []⟩).tables
    let asked := samplePlaced.ask "src/a.js" tables
    sampleOverridden.HasTables ∧ choice.parser = some "component" ∧
      Value.lookup? "depth" choice.parserOptions = some (.int 3) ∧
      Value.lookup? "strict" choice.parserOptions = some (.bool true) ∧
      { sampleOverridden with
        overrides := [sampleSourceOverride, sampleScriptOverride] }.forPath root root path =
          choice ∧
      { sampleOverridden with
        overrides := [sampleLibraryOverride,
          sampleSourceOverride.merge sampleScriptOverride ["*.js"]] }.forPath root root path =
            choice ∧
      sampleTables <+: tables ∧ asked.2.parser = choice.parser ∧
      asked.1[asked.2.table]? = some choice.parserOptions := by
  intro root path choice tables asked
  have htables : sampleOverridden.HasTables := by
    refine ⟨.cons (by simp) (.cons (by simp) .nil), ?_⟩
    simp only [sampleOverridden, List.forall_mem_cons]
    exact ⟨.nil, .cons (by simp) .nil, .cons (by simp) (.cons (by simp) .nil), by simp⟩
  obtain ⟨hparser, hoptions, -, hothers, hmerge, hshared⟩ :=
    forPath_lastWins htables root root path
  have hrelative : (root.absolute path).relativeText (root.absolute root) = "src/a.js" := by
    decide +kernel
  have hlibrary : sampleLibraryOverride.covers "src/a.js" = false := by decide +kernel
  have hsource : sampleSourceOverride.covers "src/a.js" = true := by decide +kernel
  have hscript : sampleScriptOverride.covers "src/a.js" = true := by decide +kernel
  have happlying : sampleOverridden.overrides.filter (·.covers "src/a.js") =
      [sampleSourceOverride, sampleScriptOverride] := by
    simp [sampleOverridden, hsource, hlibrary, hscript]
  rw [hrelative] at hmerge hshared
  rw [hrelative, happlying] at hparser hoptions hothers
  have hplaced : samplePlaced.StandsFor sampleTables sampleOverridden :=
    ⟨rfl, rfl, .cons ⟨rfl, rfl, rfl⟩ (.cons ⟨rfl, rfl, rfl⟩ (.cons ⟨rfl, rfl, rfl⟩ .nil))⟩
  obtain ⟨hkept, -, hanswer⟩ :=
    hshared samplePlaced sampleTables [.ask root path, .change 0 fun _ => []] hplaced
  refine ⟨htables, hparser, hoptions "depth", hoptions "strict", hothers _ ?_, ?_, hkept, hanswer⟩
  · simp [hsource, hscript]
  · exact hmerge [sampleLibraryOverride] _ _ [] ["*.js"] rfl hsource hscript hscript

end Configuration

end TranslationKeys
