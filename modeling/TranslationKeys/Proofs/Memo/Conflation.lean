import TranslationKeys.Proofs.Memo.History
import TranslationKeys.Proofs.Text.Order
import Mathlib.Data.List.Perm.Subperm

/-!
# Calls that share a key

Calls are meant to share a key exactly if their arguments are equal, where lists equal tuples and
one object is equal to itself. They do so, but for two cases in which different calls share a key as
well: a mapping stands where the other call has a set, or one call has keyword arguments and the
other has none. Apart from these, a memoised function of the values of its arguments answers what
the function would answer.
-/

namespace TranslationKeys

namespace Value

mutual

/-- A value with every list in it turned into a tuple. What can be a key holds no list. -/
def asTuples : Value → Value
  | list items => tuple (itemsAsTuples items)
  | tuple items => tuple (itemsAsTuples items)
  | map entries => map (entriesAsTuples entries)
  | v => v

/-- The items of a collection with every list in them turned into a tuple. -/
def itemsAsTuples : List Value → List Value
  | [] => []
  | v :: vs => asTuples v :: itemsAsTuples vs

/-- The entries of a mapping with every list in their values turned into a tuple. -/
def entriesAsTuples : List (Value × Value) → List (Value × Value)
  | [] => []
  | (k, v) :: entries => (k, asTuples v) :: entriesAsTuples entries

end

/-- Whether two values are the same item if lists are not told from tuples. -/
def alike (a b : Value) : Bool := same a.asTuples b.asTuples

mutual

/-- Whether a mapping and a set stand in corresponding places of two values. -/
def mappingMeetsSet : Value → Value → Bool
  | list xs, b => match b with
    | list ys | tuple ys => itemsMeet xs ys
    | _ => false
  | tuple xs, b => match b with
    | list ys | tuple ys => itemsMeet xs ys
    | _ => false
  | map xs, b => match b with
    | map ys => entriesMeet xs ys
    | set _ | frozenSet _ => true
    | _ => false
  | set _, b | frozenSet _, b => match b with
    | map _ => true
    | _ => false
  | _, _ => false

/-- Whether a mapping and a set stand in corresponding places of two sequences. -/
def itemsMeet : List Value → List Value → Bool
  | x :: xs, y :: ys => mappingMeetsSet x y || itemsMeet xs ys
  | _, _ => false

/-- Whether a mapping and a set stand in corresponding places of the values of equal keys. -/
def entriesMeet : List (Value × Value) → List (Value × Value) → Bool
  | [], _ => false
  | (k, v) :: xs, ys => ys.any (fun f => same k f.1 && mappingMeetsSet v f.2) || entriesMeet xs ys

end

/-- Turning the lists in items into tuples goes item by item. -/
theorem itemsAsTuples_eq_map (items : List Value) : itemsAsTuples items = items.map asTuples :=
  eq_map_of_cons rfl (fun _ _ => rfl) items

/-- Turning the lists in entries into tuples goes value by value. -/
theorem entriesAsTuples_eq_map (entries : List (Value × Value)) :
    entriesAsTuples entries = entries.map fun e => (e.1, e.2.asTuples) :=
  eq_map_of_cons rfl (fun _ _ => rfl) entries

/-- Turning lists into tuples keeps a value one that can be made. -/
theorem isWellFormed_asTuples {v : Value} (hv : v.isWellFormed = true) :
    v.asTuples.isWellFormed = true := by
  induction v using induction_parts with
  | step v ih =>
    cases v with
    | list items | tuple items =>
      rw [asTuples, isWellFormed_tuple, itemsAsTuples_eq_map]
      intro y hy
      obtain ⟨x, hx, rfl⟩ := List.mem_map.1 hy
      exact ih x hx (isWellFormed_of_mem_parts hv hx)
    | map entries =>
      obtain ⟨hparts, hkeys, hdistinct⟩ := isWellFormed_map.1 hv
      rw [asTuples, isWellFormed_map, entriesAsTuples_eq_map, List.forall_mem_map,
        List.forall_mem_map, List.pairwise_map]
      refine ⟨fun e he => ⟨(hparts e he).1, ?_⟩, hkeys, hdistinct⟩
      exact ih _ (mem_parts_of_mem_entries he).2 (hparts e he).2
    | _ => exact hv

/-- What kind of thing a value is compared as. -/
inductive Shape where
  /-- Item by item. -/
  | sequence
  /-- Without regard to order. -/
  | collection
  /-- As a whole. -/
  | plain

/-- The shape of a value. -/
def shape : Value → Shape
  | list _ | tuple _ => .sequence
  | map _ | set _ | frozenSet _ => .collection
  | _ => .plain

/-- The same items have one shape. -/
theorem shape_eq_of_same {a b : Value} (ha : a.isWellFormed = true) (hb : b.isWellFormed = true)
    (h : same a b = true) : a.shape = b.shape := by
  have hset {v : Value} {xs : List Value} (hv : v.setItems? = some xs) : v.shape = .collection := by
    cases v <;> simp [setItems?, shape] at hv ⊢
  have hleaf {v : Value} {form : LeafForm} (hv : v.leafForm? = some form) : v.shape = .plain := by
    cases v <;> simp [leafForm?, shape] at hv ⊢
  cases (same_iff ha hb).1 h with
  | list | tuple | map => rfl
  | set hxs hys => rw [hset hxs, hset hys]
  | leaf hfa hfb => rw [hleaf hfa, hleaf hfb]

/-- Turning lists into tuples keeps the shape. -/
theorem shape_asTuples (v : Value) : v.asTuples.shape = v.shape := by
  cases v <;> rfl

/-- A value that is compared as a whole is left alone by freezing and by turning lists into tuples,
and a mapping or a set is not in it. -/
theorem eq_of_shape_eq_plain {v w : Value} (hv : v.shape = .plain) (h : Freezes v w) :
    w = v ∧ v.asTuples = v ∧ ∀ b, mappingMeetsSet v b = false := by
  have hw := h ""
  cases v <;> simp only [shape, reduceCtorEq] at hv
  case bytes changeable content =>
    cases changeable with
    | true => simp [freeze] at hw
    | false =>
      have heq : bytes false content = w := by simpa [freeze] using hw
      exact ⟨heq.symm, rfl, fun b => by rw [mappingMeetsSet] <;> simp⟩
  all_goals
    simp only [freeze, Except.ok.injEq] at hw
    exact ⟨hw.symm, rfl, fun b => by rw [mappingMeetsSet] <;> simp⟩

/-- A sequence freezes to a tuple, item by item. -/
theorem Freezes.sequence {v w : Value} {xs : List Value} (hv : v.sequenceItems? = some xs)
    (h : Freezes v w) : ∃ ys, List.Forall₂ Freezes xs ys ∧ w = tuple ys := by
  obtain ⟨ys, hys, rfl⟩ := (freeze_sequence_eq_ok_iff hv).1 (h "")
  exact ⟨ys, hys.imp fun _ _ => freezes_iff.2, rfl⟩

/-- A mapping freezes to the frozen set of its keys paired with their frozen values. -/
theorem Freezes.map {w : Value} {entries : List (Value × Value)}
    (hwf : (map entries).isWellFormed = true) (h : Freezes (map entries) w) :
    ∃ frozen : List (Value × Value),
      List.Forall₂ (fun e f => f.1 = e.1 ∧ Freezes e.2 f.2) entries frozen ∧
        w = frozenSet (frozen.map fun f => tuple [f.1, f.2]) := by
  obtain ⟨frozen, hfrozen, rfl⟩ := (freeze_map_of_isWellFormed hwf).1 (h "")
  exact ⟨frozen, hfrozen.imp fun _ _ hef => ⟨hef.1, freezes_iff.2 hef.2⟩, rfl⟩

/-- A set freezes to the frozen set of its items. -/
theorem Freezes.set {v w : Value} {xs : List Value} (hwf : v.isWellFormed = true)
    (hv : v.setItems? = some xs) (h : Freezes v w) : w = frozenSet xs := by
  cases v <;> simp only [setItems?, reduceCtorEq, Option.some.injEq] at hv
  all_goals subst hv
  · have hw := (freeze_set_of_isWellFormed hwf).symm.trans (h "")
    exact (Except.ok.inj hw).symm
  · have hw := (freeze_of_isHashable rfl).symm.trans (h "")
    exact (Except.ok.inj hw).symm

/-- What is compared item by item has items. -/
theorem exists_of_shape_eq_sequence {v : Value} (h : v.shape = .sequence) :
    ∃ xs, v.sequenceItems? = some xs := by
  cases v <;> simp [shape, sequenceItems?] at h ⊢

/-- What is compared without regard to order is a mapping or a set. -/
theorem exists_of_shape_eq_collection {v : Value} (h : v.shape = .collection) :
    (∃ entries, v = map entries) ∨ ∃ xs, v.setItems? = some xs := by
  cases v <;> simp [shape, setItems?] at h ⊢

/-- The items of a sequence that can be made can be made. -/
theorem isWellFormed_sequenceItems {v : Value} {xs : List Value} (hv : v.isWellFormed = true)
    (hxs : v.sequenceItems? = some xs) : ∀ x ∈ xs, x.isWellFormed = true := by
  cases v <;> simp only [sequenceItems?, reduceCtorEq, Option.some.injEq] at hxs
  all_goals
    subst hxs
    simpa only [isWellFormed, areWellFormed_iff] using hv

/-- The items of a sequence are its parts. -/
theorem parts_of_sequenceItems? {v : Value} {items : List Value}
    (hitems : v.sequenceItems? = some items) : v.parts = items := by
  cases v <;> simp only [sequenceItems?, reduceCtorEq, Option.some.injEq] at hitems <;> exact hitems

/-- Freezing keeps the shape. -/
theorem Freezes.shape_eq {v w : Value} (hwf : v.isWellFormed = true) (h : Freezes v w) :
    w.shape = v.shape := by
  cases hv : v.shape with
  | plain => rw [(eq_of_shape_eq_plain hv h).1, hv]
  | sequence =>
    cases v <;> simp only [shape, reduceCtorEq] at hv
    all_goals
      obtain ⟨ys, -, rfl⟩ := h.sequence rfl
      rfl
  | collection =>
    cases v <;> simp only [shape, reduceCtorEq] at hv
    case map entries =>
      obtain ⟨frozen, -, rfl⟩ := h.map hwf
      rfl
    all_goals
      rw [h.set hwf rfl]
      rfl

/-- Sequences are alike exactly if their items are, one by one. -/
theorem alike_sequence_iff {a b : Value} {xs ys : List Value} (ha : a.sequenceItems? = some xs)
    (hb : b.sequenceItems? = some ys) :
    alike a b = true ↔ List.Forall₂ (fun x y => alike x y = true) xs ys := by
  have htuple {v : Value} {items : List Value} (hv : v.sequenceItems? = some items) :
      v.asTuples = tuple (items.map asTuples) := by
    cases v <;> simp only [sequenceItems?, reduceCtorEq, Option.some.injEq] at hv
    all_goals rw [asTuples, itemsAsTuples_eq_map, hv]
  rw [alike, htuple ha, htuple hb]
  simp only [same, sameItems_iff, List.forall₂_map_left_iff, List.forall₂_map_right_iff, alike]

/-- A mapping and a set meet in two sequences exactly if they meet in their items. -/
theorem mappingMeetsSet_sequence {a b : Value} {xs ys : List Value}
    (ha : a.sequenceItems? = some xs) (hb : b.sequenceItems? = some ys) :
    mappingMeetsSet a b = itemsMeet xs ys := by
  cases a <;> simp only [sequenceItems?, reduceCtorEq, Option.some.injEq] at ha
  all_goals
    subst ha
    cases b <;> simp only [sequenceItems?, reduceCtorEq, Option.some.injEq] at hb
    all_goals
      subst hb
      simp only [mappingMeetsSet]

/-- Mappings are alike exactly if they have one size, and each entry of the first one has an entry
of the second with an equal key and a value that is alike. -/
theorem alike_map_iff {es fs : List (Value × Value)} :
    alike (map es) (map fs) = true ↔
      es.length = fs.length ∧ ∀ e ∈ es, ∃ f ∈ fs, same e.1 f.1 = true ∧ alike e.2 f.2 = true := by
  rw [alike, asTuples, asTuples, entriesAsTuples_eq_map, entriesAsTuples_eq_map]
  simp only [same, Bool.and_eq_true, beq_iff_eq, List.length_map, entriesAmong_iff,
    List.forall_mem_map, alike]
  simp only [List.mem_map, exists_exists_and_eq_and]

/-- No mapping meets a set in two mappings exactly if none does in the values of equal keys. -/
theorem entriesMeet_eq_false_iff {es fs : List (Value × Value)} :
    entriesMeet es fs = false ↔
      ∀ e ∈ es, ∀ f ∈ fs, same e.1 f.1 = true → mappingMeetsSet e.2 f.2 = false := by
  induction es with
  | nil => simp [entriesMeet]
  | cons e es ih =>
    obtain ⟨k, v⟩ := e
    simp [entriesMeet, ih]

/-- Two sequences are alike exactly if what they freeze to is equal and no mapping meets a set, if
this holds of their items. -/
theorem alikeItems_iff {xs ys vs ws : List Value}
    (hitems : ∀ x ∈ xs, ∀ y ∈ ys, ∀ v w, Freezes x v → Freezes y w →
      (alike x y = true ↔ same v w = true ∧ mappingMeetsSet x y = false))
    (hvs : List.Forall₂ Freezes xs vs) (hws : List.Forall₂ Freezes ys ws) :
    List.Forall₂ (fun x y => alike x y = true) xs ys ↔
      List.Forall₂ (fun v w => same v w = true) vs ws ∧ itemsMeet xs ys = false := by
  induction hvs generalizing ys ws with
  | nil => cases hws <;> simp [itemsMeet]
  | @cons x v xs vs hv _ ih =>
    cases hws with
    | nil => simp
    | @cons y w ys ws hw hws =>
      have hhead := hitems x List.mem_cons_self y List.mem_cons_self v w hv hw
      have htail := ih (fun x hx y hy => hitems x (List.mem_cons_of_mem _ hx) y
        (List.mem_cons_of_mem _ hy)) hws
      simp only [List.forall₂_cons, hhead, htail, itemsMeet, Bool.or_eq_false_iff]
      tauto

/-- Two mappings are alike exactly if what they freeze to is equal and no mapping meets a set in
them, if this holds of their values. -/
theorem alikeEntries_iff {es fs es' fs' : List (Value × Value)}
    (hes : (map es).isWellFormed = true) (hfs : (map fs).isWellFormed = true)
    (hvalues : ∀ e ∈ es, ∀ f ∈ fs, ∀ v w, Freezes e.2 v → Freezes f.2 w →
      (alike e.2 f.2 = true ↔ same v w = true ∧ mappingMeetsSet e.2 f.2 = false))
    (hes' : List.Forall₂ (fun e f => f.1 = e.1 ∧ Freezes e.2 f.2) es es')
    (hfs' : List.Forall₂ (fun e f => f.1 = e.1 ∧ Freezes e.2 f.2) fs fs') :
    alike (map es) (map fs) = true ↔
      same (frozenSet (es'.map fun f => tuple [f.1, f.2]))
        (frozenSet (fs'.map fun f => tuple [f.1, f.2])) = true ∧
      mappingMeetsSet (map es) (map fs) = false := by
  obtain ⟨hparts, -, -⟩ := isWellFormed_map.1 hes
  obtain ⟨hparts', -, hdistinct⟩ := isWellFormed_map.1 hfs
  rw [alike_map_iff]
  simp only [mappingMeetsSet, entriesMeet_eq_false_iff, same, Bool.and_eq_true, beq_iff_eq,
    List.length_map, itemsAmong_iff, List.forall_mem_map, ← hes'.length_eq, ← hfs'.length_eq]
  simp only [List.mem_map, exists_exists_and_eq_and, same, sameItems, Bool.and_eq_true, and_true]
  constructor
  · intro h
    obtain ⟨hlength, halike⟩ := h
    refine ⟨⟨hlength, fun e' he' => ?_⟩, fun e he f hf hkey => ?_⟩
    · obtain ⟨e, he, hekey, hev⟩ := exists_mem_left_of_forall₂ hes' he'
      obtain ⟨f, hf, hkey, hvalue⟩ := halike e he
      obtain ⟨f', hf', hfkey, hfw⟩ := exists_mem_right_of_forall₂ hfs' hf
      refine ⟨f', hf', by rw [hekey, hfkey, hkey], ?_⟩
      exact ((hvalues e he f hf _ _ hev hfw).1 hvalue).1
    · -- The entry that is alike is the only one with an equal key.
      obtain ⟨g, hg, hkey', hvalue⟩ := halike e he
      have hfg : f = g := by
        have hef := same_symm (hparts e he).1 (hparts' f hf).1 hkey
        have heg := same_symm (hparts e he).1 (hparts' g hg).1 hkey'
        have hone := same_trans (hparts' f hf).1 (hparts e he).1 (hparts' g hg).1 hef hkey'
        have htwo := same_trans (hparts' g hg).1 (hparts e he).1 (hparts' f hf).1 heg hkey
        rcases eq_or_rel_of_pairwise hdistinct hf hg with heq | hne | hne
        · exact heq
        · exact absurd (hne.symm.trans htwo) Bool.false_ne_true
        · exact absurd (hne.symm.trans hone) Bool.false_ne_true
      subst hfg
      obtain ⟨_, -, -, hev⟩ := exists_mem_right_of_forall₂ hes' he
      obtain ⟨_, -, -, hfw⟩ := exists_mem_right_of_forall₂ hfs' hf
      exact ((hvalues e he f hf _ _ hev hfw).1 hvalue).2
  · intro h
    obtain ⟨⟨hlength, hsame⟩, hmeet⟩ := h
    refine ⟨hlength, fun e he => ?_⟩
    obtain ⟨e', he', hekey, hev⟩ := exists_mem_right_of_forall₂ hes' he
    obtain ⟨f', hf', hkey, hvalue⟩ := hsame e' he'
    obtain ⟨f, hf, hfkey, hfw⟩ := exists_mem_left_of_forall₂ hfs' hf'
    rw [hekey, hfkey] at hkey
    exact ⟨f, hf, hkey, (hvalues e he f hf _ _ hev hfw).2 ⟨hvalue, hmeet e he f hf hkey⟩⟩

/-- A mapping where the other value is a set is never alike. -/
theorem alike_map_set (es : List (Value × Value)) {b : Value} {ys : List Value}
    (hb : b.setItems? = some ys) :
    alike (map es) b = false ∧ alike b (map es) = false ∧ mappingMeetsSet (map es) b = true ∧
      mappingMeetsSet b (map es) = true := by
  cases b <;> simp only [setItems?, reduceCtorEq] at hb
  all_goals simp [alike, asTuples, same, mappingMeetsSet]

/-- Sets are alike exactly if what they freeze to is equal, and no mapping is in them. -/
theorem alike_set_set {a b : Value} {xs ys : List Value} (ha : a.setItems? = some xs)
    (hb : b.setItems? = some ys) :
    alike a b = same (frozenSet xs) (frozenSet ys) ∧ mappingMeetsSet a b = false := by
  cases a <;> simp only [setItems?, reduceCtorEq, Option.some.injEq] at ha
  all_goals
    subst ha
    cases b <;> simp only [setItems?, reduceCtorEq, Option.some.injEq] at hb
    all_goals
      subst hb
      simp only [alike, asTuples, same, mappingMeetsSet, and_self]

/-- Values are alike exactly if what they freeze to is equal and no mapping meets a set. -/
theorem alike_iff {a b v w : Value} (ha : a.isWellFormed = true) (hb : b.isWellFormed = true)
    (hv : Freezes a v) (hw : Freezes b w) :
    alike a b = true ↔ same v w = true ∧ mappingMeetsSet a b = false := by
  induction a using induction_parts generalizing b v w with
  | step a ih =>
    have hvwf := (isWellFormed_and_isHashable_of_freeze ha (hv "")).1
    have hwwf := (isWellFormed_and_isHashable_of_freeze hb (hw "")).1
    -- Freezing and turning lists into tuples keep the shape, so that both sides need one shape.
    by_cases hshape : a.shape = b.shape
    swap
    · refine iff_of_false (fun h => hshape ?_) fun h => hshape ?_
      · rw [← shape_asTuples a, ← shape_asTuples b]
        exact shape_eq_of_same (isWellFormed_asTuples ha) (isWellFormed_asTuples hb) h
      · rw [← hv.shape_eq ha, ← hw.shape_eq hb]
        exact shape_eq_of_same hvwf hwwf h.1
    cases hsa : a.shape with
    | plain =>
      obtain ⟨rfl, hta, hmeet⟩ := eq_of_shape_eq_plain hsa hv
      obtain ⟨rfl, htb, -⟩ := eq_of_shape_eq_plain (hshape.symm.trans hsa) hw
      rw [alike, hta, htb, hmeet, and_iff_left rfl]
    | sequence =>
      obtain ⟨xs, hxs⟩ := exists_of_shape_eq_sequence hsa
      obtain ⟨ys, hys⟩ := exists_of_shape_eq_sequence (hshape.symm.trans hsa)
      obtain ⟨vs, hvs, rfl⟩ := hv.sequence hxs
      obtain ⟨ws, hws, rfl⟩ := hw.sequence hys
      have hitems : ∀ x ∈ xs, ∀ y ∈ ys, ∀ v w, Freezes x v → Freezes y w →
          (alike x y = true ↔ same v w = true ∧ mappingMeetsSet x y = false) :=
        fun x hx y hy v w hv hw => ih x (parts_of_sequenceItems? hxs ▸ hx)
          (isWellFormed_sequenceItems ha hxs x hx) (isWellFormed_sequenceItems hb hys y hy) hv hw
      rw [alike_sequence_iff hxs hys, mappingMeetsSet_sequence hxs hys,
        alikeItems_iff hitems hvs hws, same, sameItems_iff]
    | collection =>
      rcases exists_of_shape_eq_collection hsa with ⟨es, rfl⟩ | ⟨xs, hxs⟩ <;>
        rcases exists_of_shape_eq_collection (hshape.symm.trans hsa) with ⟨fs, rfl⟩ | ⟨ys, hys⟩
      · obtain ⟨es', hes', rfl⟩ := hv.map ha
        obtain ⟨fs', hfs', rfl⟩ := hw.map hb
        refine alikeEntries_iff ha hb (fun e he f hf v w hv hw => ?_) hes' hfs'
        exact ih _ (mem_parts_of_mem_entries he).2 ((isWellFormed_map.1 ha).1 e he).2
          ((isWellFormed_map.1 hb).1 f hf).2 hv hw
      · obtain ⟨halike, -, hmeet, -⟩ := alike_map_set es hys
        simp [halike, hmeet]
      · obtain ⟨-, halike, -, hmeet⟩ := alike_map_set fs hxs
        simp [halike, hmeet]
      · obtain ⟨halike, hmeet⟩ := alike_set_set hxs hys
        rw [halike, hmeet, hv.set ha hxs, hw.set hb hys, and_iff_left rfl]

end Value

namespace Arguments

open Value (Freezes freezes_iff)

/-- The arguments of a call as one value: the positional ones and the mapping of the named ones. -/
def asValue (args : Arguments) : Value :=
  .tuple [.tuple args.positional, .map (args.keywords.map fun k => (.str k.1, k.2))]

/-- Two calls have equal arguments: the positional ones are alike, one by one, and so are those
under each name, the names being the same. -/
structure Alike (a b : Arguments) : Prop where
  /-- The positional arguments are alike. -/
  positional : List.Forall₂ (fun v w => Value.alike v w = true) a.positional b.positional
  /-- There are as many named arguments. -/
  length : a.keywords.length = b.keywords.length
  /-- Each named argument is alike to the one with the same name. -/
  keywords : ∀ k ∈ a.keywords, ∃ l ∈ b.keywords, k.1 = l.1 ∧ Value.alike k.2 l.2 = true

/-- Whether two calls differ in a way that a key does not show: a mapping stands where a set does,
or only one of them has named arguments. -/
def isBlurred (a b : Arguments) : Bool :=
  a.asValue.mappingMeetsSet b.asValue || a.keywords.isEmpty != b.keywords.isEmpty

/-- Names are the same exactly if they are equal as values. -/
theorem same_str_iff {s t : String} : Value.same (.str s) (.str t) = true ↔ s = t := by
  simp [Value.same, Value.sameLeaf, Value.number?]

/-- Calls have equal arguments exactly if their arguments are alike as one value. -/
theorem alike_iff_asValue {a b : Arguments} :
    a.Alike b ↔ Value.alike a.asValue b.asValue = true := by
  rw [asValue, asValue, Value.alike_sequence_iff rfl rfl, List.forall₂_cons, List.forall₂_cons,
    Value.alike_sequence_iff rfl rfl, Value.alike_map_iff]
  simp only [List.length_map, List.forall_mem_map, List.forall₂_nil_left_iff, and_true]
  simp only [List.mem_map, exists_exists_and_eq_and, same_str_iff]
  exact ⟨fun h => ⟨h.positional, h.length, h.keywords⟩, fun h => ⟨h.1, h.2.1, h.2.2⟩⟩

/-- The arguments of a call that can be made can be made as one value. -/
theorem WellFormed.asValue {args : Arguments} (h : args.WellFormed) :
    args.asValue.isWellFormed = true := by
  have hnames : args.keywords.Pairwise fun k l => Value.same (.str l.1) (.str k.1) = false := by
    refine (List.pairwise_map.1 h.names).imp fun {k l} hne => ?_
    rw [Bool.eq_false_iff, Ne, same_str_iff]
    exact fun heq => hne heq.symm
  have hkeywords :
      (Value.map (args.keywords.map fun k => (.str k.1, k.2))).isWellFormed = true := by
    rw [Value.isWellFormed_map, List.forall_mem_map, List.forall_mem_map, List.pairwise_map]
    exact ⟨fun k hk => ⟨rfl, h.keywords k hk⟩, fun k hk => rfl, hnames⟩
  rw [Arguments.asValue, Value.isWellFormed_tuple]
  simp only [List.forall_mem_cons, List.not_mem_nil, false_implies, implies_true, and_true]
  exact ⟨Value.isWellFormed_tuple.2 h.positional, hkeywords⟩

/-- The arguments as one value freeze to the frozen positional arguments and the frozen set of the
names with their values. -/
theorem WellFormed.freezes_asValue {args : Arguments} {positional : List Value}
    {keywords : List (String × Value)} (h : args.WellFormed)
    (hpositional : List.Forall₂ Freezes args.positional positional)
    (hkeywords : List.Forall₂ (fun k l => l.1 = k.1 ∧ Freezes k.2 l.2) args.keywords keywords) :
    Freezes args.asValue (.tuple [.tuple positional,
      .frozenSet (keywords.map fun k => .tuple [.str k.1, k.2])]) := by
  intro label
  have hmap : (Value.map (args.keywords.map fun k => (.str k.1, k.2))).isWellFormed = true :=
    Value.isWellFormed_tuple.1 h.asValue _ (by simp)
  have hfirst : Value.freeze label (.tuple args.positional) = .ok (.tuple positional) :=
    (Value.freeze_sequence_eq_ok_iff rfl).2 ⟨_, hpositional.imp fun _ _ hvw => hvw label, rfl⟩
  have hsecond : Value.freeze label (.map (args.keywords.map fun k => (.str k.1, k.2))) =
      .ok (.frozenSet (keywords.map fun k => .tuple [.str k.1, k.2])) := by
    refine (Value.freeze_map_of_isWellFormed hmap).2 ⟨keywords.map fun k => (.str k.1, k.2), ?_, ?_⟩
    · rw [List.forall₂_map_left_iff, List.forall₂_map_right_iff]
      exact hkeywords.imp fun k l hkl => ⟨by rw [hkl.1], hkl.2 label⟩
    · rw [List.map_map]
      rfl
  exact (Value.freeze_sequence_eq_ok_iff rfl).2 ⟨_, .cons hfirst (.cons hsecond .nil), rfl⟩

/-- The names of sorted keyword arguments are in ascending order. -/
theorem pairwise_names_mergeSort (keywords : List (String × Value)) :
    ((keywords.mergeSort byName).map Prod.fst).Pairwise fun s t =>
      Text.le (Text.ofString s) (Text.ofString t) = true := by
  rw [List.pairwise_map]
  have htrans : ∀ k l m, byName k l = true → byName l m = true → byName k m = true :=
    fun _ _ _ => Text.le_trans
  have htotal : ∀ k l, (byName k l || byName l k) = true := fun _ _ => Text.le_total _ _
  exact List.pairwise_mergeSort htrans htotal keywords

/-- Lists with the same names in the same order, none twice, are related item by item if each item
of the first is related to one with its name. -/
theorem forall₂_of_names_eq {r : Value → Value → Prop} {ks ls : List (String × Value)}
    (hnames : ks.map Prod.fst = ls.map Prod.fst) (hnodup : (ks.map Prod.fst).Nodup)
    (h : ∀ k ∈ ks, ∃ l ∈ ls, k.1 = l.1 ∧ r k.2 l.2) :
    List.Forall₂ (fun k l => k.1 = l.1 ∧ r k.2 l.2) ks ls := by
  induction ks generalizing ls with
  | nil =>
    cases ls with
    | nil => exact .nil
    | cons l ls => exact nomatch hnames
  | cons k ks ih =>
    cases ls with
    | nil => exact nomatch hnames
    | cons l ls =>
      simp only [List.map_cons, List.cons.injEq, List.nodup_cons] at hnames hnodup
      obtain ⟨hname, hrest⟩ := hnames
      refine .cons ?_ (ih hrest hnodup.2 fun k' hk' => ?_)
      · obtain ⟨l', hl', hname', hr⟩ := h k List.mem_cons_self
        rcases List.mem_cons.1 hl' with rfl | hl'
        · exact ⟨hname', hr⟩
        · apply hnodup.1.elim
          rw [hrest, hname']
          exact List.mem_map_of_mem hl'
      · obtain ⟨l', hl', hname', hr⟩ := h k' (List.mem_cons_of_mem _ hk')
        rcases List.mem_cons.1 hl' with rfl | hl'
        · apply hnodup.1.elim
          rw [hname, ← hname']
          exact List.mem_map_of_mem hk'
        · exact ⟨l', hl', hname', hr⟩

/-- Sorted keyword arguments are related item by item exactly if there are as many, and each is
related to one with its name. -/
theorem forall₂_mergeSort_iff {r : Value → Value → Prop} {ks ls : List (String × Value)}
    (hks : (ks.map Prod.fst).Nodup) :
    List.Forall₂ (fun k l => k.1 = l.1 ∧ r k.2 l.2) (ks.mergeSort byName) (ls.mergeSort byName) ↔
      ks.length = ls.length ∧ ∀ k ∈ ks, ∃ l ∈ ls, k.1 = l.1 ∧ r k.2 l.2 := by
  constructor
  · intro h
    refine ⟨by simpa using h.length_eq, fun k hk => ?_⟩
    obtain ⟨l, hl, hkl⟩ := exists_mem_right_of_forall₂ h (List.mem_mergeSort.2 hk)
    exact ⟨l, List.mem_mergeSort.1 hl, hkl⟩
  · intro h'
    obtain ⟨hlength, h⟩ := h'
    have hsubset : ks.map Prod.fst ⊆ ls.map Prod.fst := by
      intro name hname
      obtain ⟨k, hk, rfl⟩ := List.mem_map.1 hname
      obtain ⟨l, hl, hkl, -⟩ := h k hk
      exact hkl ▸ List.mem_map_of_mem hl
    have hperm : (ks.map Prod.fst).Perm (ls.map Prod.fst) :=
      (List.subperm_of_subset hks hsubset).perm_of_length_le (by simp [hlength])
    have hsorted (ks : List (String × Value)) :
        ((ks.mergeSort byName).map Prod.fst).Perm (ks.map Prod.fst) :=
      (List.mergeSort_perm ks byName).map Prod.fst
    -- Names have only one ascending order.
    have hnames : (ks.mergeSort byName).map Prod.fst = (ls.mergeSort byName).map Prod.fst :=
      List.Perm.eq_of_pairwise
        (fun _ _ _ _ hst hts => Text.ofString_injective (Text.le_antisymm hst hts))
        (pairwise_names_mergeSort ks) (pairwise_names_mergeSort ls)
        ((hsorted ks).trans (hperm.trans (hsorted ls).symm))
    refine forall₂_of_names_eq hnames ((hsorted ks).nodup_iff.2 hks) fun k hk => ?_
    obtain ⟨l, hl, hkl⟩ := h k (List.mem_mergeSort.1 hk)
    exact ⟨l, List.mem_mergeSort.2 hl, hkl⟩

/-- A name and a value equal another name and value exactly if both parts are equal. -/
theorem same_pair_iff {k l : String × Value} :
    Value.same (.tuple [.str k.1, k.2]) (.tuple [.str l.1, l.2]) = true ↔
      k.1 = l.1 ∧ Value.same k.2 l.2 = true := by
  rw [Value.same, Value.sameItems_iff, List.forall₂_cons, List.forall₂_cons, same_str_iff]
  simp

/-- If both or none of two calls have named arguments, their keys are equal exactly if their frozen
arguments are equal as one value. -/
theorem same_key_iff {positional positional' : List Value}
    {keywords keywords' : List (String × Value)}
    (hnames : (keywords.map Prod.fst).Nodup) (hempty : keywords.isEmpty = keywords'.isEmpty) :
    Value.same (.tuple (positional ++ keywordPart keywords))
        (.tuple (positional' ++ keywordPart keywords')) = true ↔
      Value.same
        (.tuple [.tuple positional, .frozenSet (keywords.map fun k => .tuple [.str k.1, k.2])])
        (.tuple [.tuple positional', .frozenSet (keywords'.map fun k => .tuple [.str k.1, k.2])]) =
          true := by
  have hsets : Value.same (.frozenSet (keywords.map fun k => .tuple [.str k.1, k.2]))
      (.frozenSet (keywords'.map fun k => .tuple [.str k.1, k.2])) = true ↔
        keywords.length = keywords'.length ∧
          ∀ k ∈ keywords, ∃ l ∈ keywords', k.1 = l.1 ∧ Value.same k.2 l.2 = true := by
    rw [Value.same, Bool.and_eq_true, beq_iff_eq, List.length_map, List.length_map,
      Value.itemsAmong_iff, List.forall_mem_map]
    simp only [List.mem_map, exists_exists_and_eq_and, same_pair_iff]
  have hright : Value.same
        (.tuple [.tuple positional, .frozenSet (keywords.map fun k => .tuple [.str k.1, k.2])])
        (.tuple [.tuple positional', .frozenSet (keywords'.map fun k => .tuple [.str k.1, k.2])]) =
          true ↔
      List.Forall₂ (fun v w => Value.same v w = true) positional positional' ∧
        keywords.length = keywords'.length ∧
          ∀ k ∈ keywords, ∃ l ∈ keywords', k.1 = l.1 ∧ Value.same k.2 l.2 = true := by
    rw [Value.same, Value.sameItems_iff, List.forall₂_cons, List.forall₂_cons, hsets, Value.same,
      Value.sameItems_iff]
    simp
  rw [hright, Value.same, Value.sameItems_iff]
  cases hkeywords : keywords.isEmpty with
  | true =>
    have hnil : keywords = [] := List.isEmpty_iff.1 hkeywords
    have hnil' : keywords' = [] := List.isEmpty_iff.1 (hempty ▸ hkeywords)
    simp [hnil, hnil', keywordPart]
  | false =>
    have hkeywords' : keywords'.isEmpty = false := hempty ▸ hkeywords
    simp only [keywordPart, hkeywords, hkeywords', Bool.false_eq_true, if_false]
    rw [forall₂_append_singleton_iff, Value.same, Value.sameItems_iff, List.forall₂_map_left_iff,
      List.forall₂_map_right_iff]
    simp only [same_pair_iff]
    exact and_congr_right fun _ =>
      forall₂_mergeSort_iff (r := fun v w => Value.same v w = true) hnames

/-- Calls have equal arguments exactly if they have equal keys and differ in no way that a key does
not show. -/
theorem alike_iff_key {a b : Arguments} {key key' : Value} (ha : a.WellFormed) (hb : b.WellFormed)
    (hkey : a.key = .ok key) (hkey' : b.key = .ok key') :
    a.Alike b ↔ (key == key') = true ∧ a.isBlurred b = false := by
  obtain ⟨positional, keywords, hpositional, hkeywords, rfl⟩ := key_eq_ok_iff.1 hkey
  obtain ⟨positional', keywords', hpositional', hkeywords', rfl⟩ := key_eq_ok_iff.1 hkey'
  have hnames : List.Forall₂ (· = ·) (a.keywords.map Prod.fst) (keywords.map Prod.fst) := by
    rw [List.forall₂_map_left_iff, List.forall₂_map_right_iff]
    exact hkeywords.imp fun _ _ hkl => hkl.1.symm
  rw [List.forall₂_eq_eq_eq] at hnames
  have hempty := isEmpty_eq_of_forall₂ hkeywords
  have hempty' := isEmpty_eq_of_forall₂ hkeywords'
  have hvalue := Value.alike_iff ha.asValue hb.asValue
    (ha.freezes_asValue hpositional hkeywords) (hb.freezes_asValue hpositional' hkeywords')
  rw [← alike_iff_asValue] at hvalue
  simp only [isBlurred, Bool.or_eq_false_iff, bne_eq_false_iff_eq]
  constructor
  · intro halike
    obtain ⟨hsame, hmeet⟩ := hvalue.1 halike
    have hboth : a.keywords.isEmpty = b.keywords.isEmpty := by
      rw [Bool.eq_iff_iff, List.isEmpty_iff_length_eq_zero, List.isEmpty_iff_length_eq_zero,
        halike.length]
    exact ⟨(same_key_iff (hnames ▸ ha.names) (hempty ▸ hempty' ▸ hboth)).2 hsame, hmeet, hboth⟩
  · intro h
    obtain ⟨hsame, hmeet, hboth⟩ := h
    rw [hempty, hempty'] at hboth
    exact hvalue.2 ⟨(same_key_iff (hnames ▸ ha.names) hboth).1 hsame, hmeet⟩

/-- Every call with named arguments shares its key with a call without any: the one that is given
what the named arguments freeze to as one more positional argument. -/
theorem WellFormed.exists_key_eq {args : Arguments} {key : Value} (hargs : args.WellFormed)
    (hkey : args.key = .ok key) (hne : args.keywords ≠ []) :
    ∃ v, Arguments.key { positional := args.positional ++ [v] } = .ok key := by
  obtain ⟨positional, keywords, hpositional, hkeywords, rfl⟩ := key_eq_ok_iff.1 hkey
  have hempty : keywords.isEmpty = false := by
    rw [← isEmpty_eq_of_forall₂ hkeywords]
    simpa using hne
  have hhashable : ∀ l ∈ keywords, l.2.isHashable = true := fun l hl => by
    obtain ⟨k, hk, -, hkl⟩ := exists_mem_left_of_forall₂ hkeywords hl
    exact (Value.isWellFormed_and_isHashable_of_freeze (hargs.keywords k hk) (hkl "")).2
  refine ⟨.tuple ((keywords.mergeSort byName).map fun k => .tuple [.str k.1, k.2]),
    key_eq_ok_iff.2 ⟨positional ++ keywordPart keywords, [], ?_, .nil, ?_⟩⟩
  · simp only [keywordPart, hempty, Bool.false_eq_true, if_false]
    refine forall₂_append_singleton_iff.2 ⟨hpositional, fun label => ?_⟩
    apply Value.freeze_of_isHashable
    rw [Value.isHashable, Value.areHashable_iff, List.forall_mem_map]
    intro k hk
    rw [Value.isHashable, Value.areHashable_iff]
    simp [Value.isHashable, hhashable k (List.mem_mergeSort.1 hk)]
  · simp [keywordPart]

end Arguments

namespace Memo

open Observed

/-- A memoised function of the values of its arguments answers what the function answers, if no
earlier call differs from this one in a way that a key does not show. -/
theorem Observed.answer_eq_of_not_isBlurred {ν : Type} {f : Arguments → Except Failure ν}
    (hf : ∀ a b, a.WellFormed → b.WellFormed → a.Alike b → f a = f b) (capacity : Option Int)
    {history : List Request} {args : Arguments} {key : Value}
    (hhistory : ∀ a, .call a ∈ history → a.WellFormed ∧ a.isBlurred args = false)
    (hargs : args.WellFormed) (hreceiver : args.keywords.any (·.1 == receiverName) = false)
    (hkey : args.key = .ok key) :
    (((fresh capacity ()).after (fun a s => (s, f a)) history).answer
      (fun a s => (s, f a)) args).2.2 = f args := by
  -- Every entry holds what the function answers for a call that was made.
  have horigin : ∀ e ∈ ((fresh capacity ()).after (fun a s => (s, f a)) history).memo.entries,
      ∃ a, .call a ∈ history ∧ a.key = .ok e.1 ∧ f a = .ok e.2 :=
    forall_mem_entries_after (p := fun key value =>
        ∃ a, .call a ∈ history ∧ a.key = .ok key ∧ f a = .ok value)
      (fun e he => absurd he List.not_mem_nil)
      fun a key value s ha hkey hvalue => ⟨a, ha, hkey, hvalue⟩
  generalize (fresh capacity ()).after (fun a s => (s, f a)) history = o at horigin ⊢
  have hends := o.ends (fun a s => (s, f a)) args
  generalize o.answer (fun a s => (s, f a)) args = ending at hends ⊢
  cases hends with
  | refused g h =>
    rcases h with h | ⟨_, h⟩
    · exact nomatch hreceiver.symm.trans h
    · exact nomatch hkey.symm.trans h
  | called hkey' hcall =>
    obtain rfl := Except.ok.inj (hkey.symm.trans hkey')
    cases hcall with
    | found hfound =>
      obtain ⟨e, he, hek, rfl⟩ := exists_mem_of_find?_eq_some hfound
      obtain ⟨a, ha, hakey, hvalue⟩ := horigin e he
      obtain ⟨hawf, hblurred⟩ := hhistory a ha
      have halike := (Arguments.alike_iff_key hawf hargs hakey hkey).2 ⟨hek, hblurred⟩
      exact hvalue.symm.trans (hf a args hawf hargs halike)
    | computed _ hrun | failed _ hrun => exact (congrArg Prod.snd hrun).symm

/-- Two calls have equal arguments exactly if they have equal keys and differ in no way that a key
does not show. A memoised function of the values of its arguments answers what the function answers,
if no earlier call differs from this one in such a way. Calls with named arguments always share
their key with a call that does. -/
theorem key_exact_unless_blurred {a b : Arguments} {key key' : Value} (ha : a.WellFormed)
    (hb : b.WellFormed) (hkey : a.key = .ok key) (hkey' : b.key = .ok key') :
    (a.Alike b ↔ (key == key') = true ∧ a.isBlurred b = false) ∧
      (∀ (ν : Type) (f : Arguments → Except Failure ν),
        (∀ c d, c.WellFormed → d.WellFormed → c.Alike d → f c = f d) →
          ∀ capacity history, (∀ c, .call c ∈ history → c.WellFormed ∧ c.isBlurred a = false) →
            a.keywords.any (·.1 == receiverName) = false →
              (((fresh capacity ()).after (fun c s => (s, f c)) history).answer
                (fun c s => (s, f c)) a).2.2 = f a) ∧
      (a.keywords ≠ [] → ∃ v,
        Arguments.key { positional := a.positional ++ [v] } = .ok key ∧
          a.isBlurred { positional := a.positional ++ [v] } = true) := by
  refine ⟨Arguments.alike_iff_key ha hb hkey hkey', ?_, fun hne => ?_⟩
  · intro ν f hf capacity history hhistory hreceiver
    exact answer_eq_of_not_isBlurred hf capacity hhistory ha hreceiver hkey
  · obtain ⟨v, hv⟩ := ha.exists_key_eq hkey hne
    exact ⟨v, hv, by simp [Arguments.isBlurred, hne]⟩

/-- A call with one and a named two, and a call with one and a pair of the name and two, share a
key, though their arguments are not equal. -/
theorem key_exact_unless_blurred_named_or_pair :
    let named : Arguments := { positional := [.int 1], keywords := [("a", .int 2)] }
    let pair : Arguments := { positional := [.int 1, .tuple [.tuple [.str "a", .int 2]]] }
    ∃ key, named.key = .ok key ∧ pair.key = .ok key ∧ ¬ named.Alike pair := by
  intro named pair
  have hnamed : named.WellFormed :=
    ⟨by simp [named, Value.isWellFormed], by simp [named, Value.isWellFormed], by simp [named]⟩
  have hpair : pair.WellFormed :=
    ⟨by simp [pair, Value.isWellFormed, Value.areWellFormed], by simp [pair], by simp [pair]⟩
  have hkey : named.key = .ok (.tuple [.int 1, .tuple [.tuple [.str "a", .int 2]]]) :=
    Arguments.key_eq_ok_iff.2 ⟨[.int 1], [("a", .int 2)], .cons (fun _ => rfl) .nil,
      .cons ⟨rfl, fun _ => rfl⟩ .nil, by simp [Arguments.keywordPart]⟩
  have hkey' : pair.key = .ok (.tuple [.int 1, .tuple [.tuple [.str "a", .int 2]]]) := rfl
  have hexact := (key_exact_unless_blurred hnamed hpair hkey hkey').1
  refine ⟨_, hkey, hkey', fun halike => ?_⟩
  have hblurred : named.isBlurred pair = false := (hexact.1 halike).2
  exact absurd (hblurred.symm.trans (by decide +kernel : named.isBlurred pair = true))
    Bool.false_ne_true

end Memo

end TranslationKeys
