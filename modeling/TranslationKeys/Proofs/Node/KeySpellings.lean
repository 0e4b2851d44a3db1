import TranslationKeys.Parser.Result
import TranslationKeys.Proofs.Memo.StringArguments
import TranslationKeys.Proofs.Node.Extraction
import TranslationKeys.Proofs.Text.Lowercase

/-!
# Spellings of visitor keys

Parsers give visitor keys in camel case or in snake case, and a walk puts them in snake case before
it puts them over the default keys. Both are steps that change nothing when they are made again: a
name in snake case has no capitals left, and keys put over the default keys keep the kinds of these
in front, so that putting them over the default keys once more replaces every kind by itself.
-/

namespace TranslationKeys

namespace VisitorKeys

/-- The fields are named in ASCII. -/
def HasAsciiNames (keys : VisitorKeys) : Prop :=
  ∀ entry ∈ keys, ∀ name ∈ entry.2, ∀ c ∈ name.toList, c.toNat < 128

-- Only the letters that stand in a name are looked at, not all characters.
instance (keys : VisitorKeys) : Decidable keys.HasAsciiNames :=
  decidable_of_iff
    (keys.all fun entry => entry.2.all fun name => name.toList.all fun c => c.toNat < 128)
    (by simp only [HasAsciiNames, List.all_eq_true, decide_eq_true_eq])

section Names

/-- Where no word starts, nothing is separated. -/
theorem separateWords_eq_self {cs : List Char} (h : ∀ c ∈ cs, startsWord c = false) :
    separateWords cs = cs := by
  cases cs with
  | nil => rfl
  | cons c cs =>
    have htail : (cs.flatMap fun d => if startsWord d then ['_', d] else [d]) =
        cs.flatMap fun d => [d] :=
      List.flatMap_congr fun d hd => by simp [h d (List.mem_cons_of_mem c hd)]
    rw [separateWords, htail, List.flatMap_singleton']

/-- Separating words only adds underscores. -/
theorem mem_or_eq_of_mem_separateWords {cs : List Char} {c : Char} (h : c ∈ separateWords cs) :
    c ∈ cs ∨ c = '_' := by
  cases cs with
  | nil => exact .inl h
  | cons d cs =>
    rcases List.mem_cons.1 h with rfl | hc
    · exact .inl List.mem_cons_self
    · obtain ⟨e, he, hce⟩ := List.mem_flatMap.1 hc
      have hword : c = '_' ∨ c = e := by split at hce <;> simp_all
      rcases hword with rfl | rfl
      · exact .inr rfl
      · exact .inl (List.mem_cons_of_mem d he)

/-- A lower-case letter starts no word. -/
theorem startsWord_toLower {c : Char} (h : c.toNat < 128) : startsWord c.toLower = false :=
  forall_of_ascii (P := fun c => startsWord c.toLower = false) (by decide) h

variable {name : String}

/-- The characters of an ASCII name in snake case are those of its separated words, in lower
case. -/
theorem toList_snakeCased (h : ∀ c ∈ name.toList, c.toNat < 128) :
    (snakeCased name).toList = (separateWords name.toList).map Char.toLower := by
  have hwords : ∀ c ∈ separateWords name.toList, c.toNat < 128 := fun c hc =>
    (mem_or_eq_of_mem_separateWords hc).elim (h c) fun hc => hc ▸ by decide
  rw [snakeCased, String.toList_ofList, lowercase_of_ascii hwords]

/-- An ASCII name in snake case is the lower-case form of an ASCII character at every place. -/
theorem exists_of_mem_snakeCased (h : ∀ c ∈ name.toList, c.toNat < 128) {c : Char}
    (hc : c ∈ (snakeCased name).toList) : ∃ d : Char, d.toNat < 128 ∧ d.toLower = c := by
  rw [toList_snakeCased h] at hc
  obtain ⟨d, hd, rfl⟩ := List.mem_map.1 hc
  exact ⟨d, (mem_or_eq_of_mem_separateWords hd).elim (h d) fun hd => hd ▸ by decide, rfl⟩

/-- An ASCII name stays in ASCII when it is put in snake case. -/
theorem ascii_snakeCased (h : ∀ c ∈ name.toList, c.toNat < 128) :
    ∀ c ∈ (snakeCased name).toList, c.toNat < 128 := by
  intro c hc
  obtain ⟨d, hd, rfl⟩ := exists_of_mem_snakeCased h hc
  exact forall_of_ascii (P := fun d => d.toLower.toNat < 128) (by decide) hd

/-- An ASCII name without capitals is in snake case. -/
theorem snakeCased_eq_self (h : ∀ c ∈ name.toList, c.toNat < 128)
    (hlower : ∀ c ∈ name.toList, startsWord c = false) : snakeCased name = name := by
  have hletters : name.toList.map Char.toLower = name.toList := by
    refine (List.map_congr_left fun c hc => ?_).trans (List.map_id _)
    exact forall_of_ascii (P := fun c => startsWord c = false → c.toLower = c) (by decide)
      (h c hc) (hlower c hc)
  apply String.toList_injective
  rw [toList_snakeCased h, separateWords_eq_self hlower, hletters]

/-- An ASCII name in snake case is not changed by putting it in snake case again. -/
theorem snakeCased_snakeCased (h : ∀ c ∈ name.toList, c.toNat < 128) :
    snakeCased (snakeCased name) = snakeCased name := by
  refine snakeCased_eq_self (ascii_snakeCased h) fun c hc => ?_
  obtain ⟨d, hd, rfl⟩ := exists_of_mem_snakeCased h hc
  exact startsWord_toLower hd

end Names

section Normalised

variable {keys : VisitorKeys}

/-- Keys whose names are in snake case are not changed by putting these in snake case. -/
theorem normalised_eq_self (h : ∀ entry ∈ keys, ∀ name ∈ entry.2, snakeCased name = name) :
    keys.normalised = keys := by
  have hnames : ∀ entry ∈ keys, (entry.1, entry.2.map snakeCased) = entry := fun entry hentry =>
    Prod.ext rfl ((List.map_congr_left (h entry hentry)).trans (List.map_id' _))
  exact (List.map_congr_left hnames).trans (List.map_id' keys)

/-- Keys with ASCII names are not changed by putting their names in snake case again. -/
theorem normalised_normalised (h : keys.HasAsciiNames) :
    keys.normalised.normalised = keys.normalised := by
  refine normalised_eq_self fun entry hentry name hname => ?_
  obtain ⟨given, hgiven, rfl⟩ := List.mem_map.1 hentry
  obtain ⟨camel, hcamel, rfl⟩ := List.mem_map.1 hname
  exact snakeCased_snakeCased (h given hgiven camel hcamel)

/-- The default keys are named in snake case. -/
theorem normalised_default : default.normalised = default := by
  have hascii : default.HasAsciiNames := by decide +kernel
  have hlower : default.all fun entry => entry.2.all fun name => name.toList.all fun c =>
      startsWord c = false := by
    decide +kernel
  simp only [List.all_eq_true, decide_eq_true_eq] at hlower
  exact normalised_eq_self fun entry hentry name hname =>
    snakeCased_eq_self (hascii entry hentry name hname) (hlower entry hentry name hname)

/-- Names are put in snake case kind by kind. -/
theorem normalised_put (keys : VisitorKeys) (kind : String) (fields : List String) :
    (keys.put kind fields).normalised = keys.normalised.put kind (fields.map snakeCased) := by
  have hany : keys.normalised.any (·.1 == kind) = keys.any (·.1 == kind) := List.any_map
  unfold put
  rw [hany]
  split
  · unfold normalised
    rw [List.map_map, List.map_map]
    refine List.map_congr_left fun entry _ => ?_
    rw [Function.comp_apply, Function.comp_apply]
    split <;> rfl
  · exact List.map_append

/-- Keys put over others are put in snake case together with these. -/
theorem normalised_foldl_put (overrides : VisitorKeys) (keys : VisitorKeys) :
    normalised (overrides.foldl (fun keys entry => keys.put entry.1 entry.2) keys) =
      overrides.normalised.foldl (fun keys entry => keys.put entry.1 entry.2) keys.normalised := by
  induction overrides generalizing keys with
  | nil => rfl
  | cons entry overrides ih =>
    rw [List.foldl_cons, ih, normalised_put]
    rfl

/-- Keys in snake case are in snake case when they are put over the default keys. -/
theorem normalised_merged (h : keys.normalised = keys) :
    (merged (some keys)).normalised = merged (some keys) := by
  unfold merged
  rw [normalised_foldl_put, normalised_default, Option.getD_some, h]

end Normalised

section Merged

/-- The kinds of keys with the fields of one kind replaced are the old ones, and the kind itself at
their end if it is new. -/
theorem map_fst_put (keys : VisitorKeys) (kind : String) (fields : List String) :
    (keys.put kind fields).map Prod.fst =
      if kind ∈ keys.map Prod.fst then keys.map Prod.fst else keys.map Prod.fst ++ [kind] := by
  have hany : keys.any (·.1 == kind) = true ↔ kind ∈ keys.map Prod.fst := by simp
  unfold put
  by_cases h : kind ∈ keys.map Prod.fst
  · rw [if_pos (hany.2 h), if_pos h, List.map_map]
    refine List.map_congr_left fun entry _ => ?_
    by_cases hkind : entry.1 = kind <;> simp [hkind]
  · rw [if_neg (mt hany.1 h), if_neg h, List.map_append]
    rfl

/-- Keys put over others keep the kinds of these in front, and name no kind twice if these do
not. -/
theorem kinds_foldl_put (overrides : VisitorKeys) {keys : VisitorKeys}
    (h : (keys.map Prod.fst).Nodup) :
    let result := overrides.foldl (fun keys entry => keys.put entry.1 entry.2) keys
    keys.map Prod.fst <+: result.map Prod.fst ∧ (result.map Prod.fst).Nodup := by
  induction overrides generalizing keys with
  | nil => exact ⟨List.prefix_rfl, h⟩
  | cons entry overrides ih =>
    have hput : keys.map Prod.fst <+: (keys.put entry.1 entry.2).map Prod.fst ∧
        ((keys.put entry.1 entry.2).map Prod.fst).Nodup := by
      rw [map_fst_put]
      split
      case isTrue => exact ⟨List.prefix_rfl, h⟩
      case isFalse hnew =>
        exact ⟨List.prefix_append _ _, List.concat_eq_append ▸ h.concat hnew⟩
    obtain ⟨hfront, hnodup⟩ := ih hput.2
    exact ⟨hput.1.trans hfront, hnodup⟩

/-- Where the fields of a kind are next in a list of keys, or the list is at its end, they are
replaced there, or added. -/
theorem put_append {before rest : VisitorKeys} {kind : String} {kinds : List String}
    (fields : List String) (hbefore : kind ∉ before.map Prod.fst) (hkinds : kind ∉ kinds)
    (hrest : rest.map Prod.fst <+: kind :: kinds) :
    (before ++ rest).put kind fields = before ++ (kind, fields) :: rest.tail := by
  have hkeep {keys : VisitorKeys} (h : kind ∉ keys.map Prod.fst) :
      (keys.map fun entry => if entry.1 == kind then (kind, fields) else entry) = keys := by
    refine (List.map_congr_left fun entry hentry => ?_).trans (List.map_id _)
    have hother : entry.1 ≠ kind := fun heq => h (heq ▸ List.mem_map_of_mem hentry)
    simp [hother]
  cases rest with
  | nil =>
    have hnone : ¬ ((before ++ []).any (·.1 == kind)) = true := by simpa using hbefore
    rw [put, if_neg hnone, List.append_nil]
    rfl
  | cons next rest =>
    obtain ⟨hnext, hrest⟩ := List.cons_prefix_cons.1 hrest
    have hother : kind ∉ rest.map Prod.fst := fun hkind => hkinds (hrest.subset hkind)
    have hany : ((before ++ next :: rest).any (·.1 == kind)) = true := by simp [hnext]
    rw [put, if_pos hany, List.map_append, List.map_cons, hkeep hbefore, hkeep hother]
    simp [hnext]

/-- Keys that name no kind twice replace all keys whose kinds are theirs, in the same order. -/
theorem foldl_put_eq {before rest overrides : VisitorKeys}
    (hnodup : ((before ++ overrides).map Prod.fst).Nodup)
    (hrest : rest.map Prod.fst <+: overrides.map Prod.fst) :
    overrides.foldl (fun keys entry => keys.put entry.1 entry.2) (before ++ rest) =
      before ++ overrides := by
  -- By induction on what is put; what was put already stands before the rest.
  induction overrides generalizing before rest with
  | nil =>
    have hempty : rest = [] := List.map_eq_nil_iff.1 (List.prefix_nil.1 hrest)
    rw [hempty, List.foldl_nil]
  | cons entry overrides ih =>
    have hbefore : entry.1 ∉ before.map Prod.fst := by
      rw [List.map_append, List.map_cons] at hnodup
      exact fun h => List.disjoint_of_nodup_append hnodup h List.mem_cons_self
    have hlater : entry.1 ∉ overrides.map Prod.fst := by
      rw [List.map_append, List.map_cons] at hnodup
      exact (List.nodup_cons.1 hnodup.of_append_right).1
    have htail : rest.tail.map Prod.fst <+: overrides.map Prod.fst := by
      cases rest with
      | nil => exact List.nil_prefix
      | cons next rest => exact (List.cons_prefix_cons.1 hrest).2
    rw [List.append_cons] at hnodup ⊢
    rw [List.foldl_cons, put_append entry.2 hbefore hlater hrest, List.append_cons]
    exact ih hnodup htail

/-- Keys put over the default keys are not changed by putting them over these again. -/
theorem merged_merged (overrides : Option VisitorKeys) :
    merged (some (merged overrides)) = merged overrides := by
  have hdefault : (default.map Prod.fst).Nodup := by decide +kernel
  obtain ⟨hfront, hnodup⟩ := kinds_foldl_put (overrides.getD []) hdefault
  exact @foldl_put_eq [] default (merged overrides) hnodup hfront

end Merged

/-- The keys of a value that states keys are those keys. -/
theorem ofValue_toValue (keys : VisitorKeys) : ofValue keys.toValue = .ok (some keys) := by
  have hnames : (keys.map fun entry => (Value.str entry.1, Value.list (entry.2.map .str))).mapM
      (fun entry => do return (entry.1, ← namesOf entry.2)) =
        (.ok (keys.map fun entry => (Value.str entry.1, entry.2)) : Except Failure _) := by
    rw [mapM_eq_ok_iff, List.forall₂_map_left_iff, List.forall₂_map_right_iff, List.forall₂_same]
    intro entry _
    have hfields : namesOf (.list (entry.2.map .str)) = .ok entry.2 := by
      rw [namesOf, ← Value.ofStrings, Value.strings?_ofStrings]
    rw [hfields]
    rfl
  rw [toValue, ofValue, hnames]
  refine congrArg (Except.ok ∘ some) ?_
  rw [List.filterMap_map]
  exact List.filterMap_some

end VisitorKeys

namespace Node

open VisitorKeys

/-- Under a value that states visitor keys, the keys of a tree are those under these. -/
theorem keysUnder_eq_keys (n : Node) {given : Value} {supplied : Option VisitorKeys}
    (h : VisitorKeys.ofValue given = .ok supplied) : n.keysUnder given = n.keys supplied := by
  unfold keysUnder keys
  rw [h]
  rfl

/-- The spelling of visitor keys does not matter. Keys with ASCII names are not changed by putting
their names in snake case twice, and a tree has the same keys, or fails the same way, under visitor
keys as they are given, under these in snake case, and under these in snake case and put over the
default keys. -/
theorem keysUnder_eq_of_hasAsciiNames {keys : VisitorKeys} (h : keys.HasAsciiNames) :
    keys.normalised.normalised = keys.normalised ∧
      ∀ (n : Node) (given : Value), VisitorKeys.ofValue given = .ok (some keys) →
        n.keysUnder keys.normalised.toValue = n.keysUnder given ∧
          n.keysUnder (merged (some keys.normalised)).toValue = n.keysUnder given := by
  have htwice := normalised_normalised h
  have hsame {other : VisitorKeys} (hother : effective (some other) = effective (some keys))
      (n : Node) : n.keys (some other) = n.keys (some keys) := by
    unfold Node.keys
    rw [hother]
  refine ⟨htwice, fun n given hgiven => ?_⟩
  rw [keysUnder_eq_keys n hgiven, keysUnder_eq_keys n (ofValue_toValue _),
    keysUnder_eq_keys n (ofValue_toValue _)]
  refine ⟨hsame ?_ n, hsame ?_ n⟩
  · exact congrArg (fun other => merged (some other)) htwice
  · change merged (some (merged (some keys.normalised)).normalised) = merged (some keys.normalised)
    rw [normalised_merged htwice, merged_merged]

/-- The body and the template of a component are entered whichever way the template is spelt. -/
theorem keysUnder_eq_of_hasAsciiNames_sampleComponent :
    let keys : VisitorKeys := [("Program", ["templateBody", "body"])]
    keys.HasAsciiNames ∧ VisitorKeys.ofValue keys.toValue = .ok (some keys) ∧
      keys.normalised = [("Program", ["template_body", "body"])] ∧
      sampleComponent.keysUnder keys.normalised.toValue =
        sampleComponent.keysUnder keys.toValue ∧
      sampleComponent.keysUnder (merged (some keys.normalised)).toValue =
        sampleComponent.keysUnder keys.toValue := by
  intro keys
  have hascii : keys.HasAsciiNames := by decide +kernel
  have hgiven := ofValue_toValue keys
  exact ⟨hascii, hgiven, by decide +kernel,
    (keysUnder_eq_of_hasAsciiNames hascii).2 sampleComponent keys.toValue hgiven⟩

end Node

end TranslationKeys
