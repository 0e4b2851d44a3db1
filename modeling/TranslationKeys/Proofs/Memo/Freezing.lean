import TranslationKeys.Memo.Arguments
import TranslationKeys.Proofs.Value.Equality

/-!
# Freezing values

What freezing makes of each kind of value, as one equivalence per kind. What can be a key already is
left alone, and what comes out can be made and can be a key whenever the value could be made.
-/

namespace TranslationKeys

namespace Value

/-- Freezing the items of a collection succeeds exactly if freezing each of them does. -/
theorem freezeItems_eq_ok_iff {label : String} {xs ys : List Value} :
    freezeItems label xs = .ok ys ↔ List.Forall₂ (fun x y => freeze label x = .ok y) xs ys := by
  induction xs generalizing ys with
  | nil => cases ys <;> simp [freezeItems]
  | cons x xs ih =>
    rw [freezeItems, bind_eq_ok_iff]
    simp only [bind_eq_ok_iff, ih, pure, Except.pure, Except.ok.injEq]
    constructor
    · intro h
      obtain ⟨y, hy, ys, hys, rfl⟩ := h
      exact .cons hy hys
    · intro h
      rcases h with _ | ⟨hy, hys⟩
      exact ⟨_, hy, _, hys, rfl⟩

/-- Freezing the entries of a mapping succeeds exactly if freezing each value does; keys stay. -/
theorem freezeEntries_eq_ok_iff {label : String} {entries : List (Value × Value)}
    {items : List Value} :
    freezeEntries label entries = .ok items ↔
      ∃ frozen : List (Value × Value),
        List.Forall₂ (fun e f => f.1 = e.1 ∧ freeze label e.2 = .ok f.2) entries frozen ∧
          items = frozen.map fun f => tuple [f.1, f.2] := by
  induction entries generalizing items with
  | nil => simp [freezeEntries, eq_comm]
  | cons e entries ih =>
    obtain ⟨k, v⟩ := e
    rw [freezeEntries, bind_eq_ok_iff]
    simp only [bind_eq_ok_iff, ih, pure, Except.pure, Except.ok.injEq]
    constructor
    · intro h
      obtain ⟨w, hw, items, ⟨frozen, hfrozen, rfl⟩, rfl⟩ := h
      exact ⟨(k, w) :: frozen, .cons ⟨rfl, hw⟩ hfrozen, rfl⟩
    · intro h
      obtain ⟨_, _ | ⟨⟨hkey, hw⟩, hfrozen⟩, rfl⟩ := h
      exact ⟨_, hw, _, ⟨_, hfrozen, rfl⟩, by rw [List.map_cons, hkey]⟩

/-- The items of a sequence, whether it can still change or not. -/
def sequenceItems? : Value → Option (List Value)
  | list items => some items
  | tuple items => some items
  | _ => none

/-- A sequence freezes to the tuple of its frozen items. -/
theorem freeze_sequence_eq_ok_iff {label : String} {v w : Value} {xs : List Value}
    (hv : v.sequenceItems? = some xs) :
    freeze label v = .ok w ↔
      ∃ ys, List.Forall₂ (fun x y => freeze label x = .ok y) xs ys ∧ w = tuple ys := by
  cases v <;> simp only [sequenceItems?, reduceCtorEq, Option.some.injEq] at hv
  all_goals
    subst hv
    simp only [freeze, bind_eq_ok_iff, freezeItems_eq_ok_iff, pure, Except.pure, Except.ok.injEq]
    simp only [eq_comm]

/-- A mapping freezes to the frozen set of its keys paired with their frozen values. -/
theorem freeze_map_eq_ok_iff {label : String} {entries : List (Value × Value)} {w : Value} :
    freeze label (map entries) = .ok w ↔
      ∃ frozen : List (Value × Value),
        List.Forall₂ (fun e f => f.1 = e.1 ∧ freeze label e.2 = .ok f.2) entries frozen ∧
          w = frozenSetOf (frozen.map fun f => tuple [f.1, f.2]) := by
  simp only [freeze, bind_eq_ok_iff, freezeEntries_eq_ok_iff, pure, Except.pure, Except.ok.injEq]
  constructor
  · intro h
    obtain ⟨_, ⟨frozen, hfrozen, rfl⟩, rfl⟩ := h
    exact ⟨frozen, hfrozen, rfl⟩
  · intro h
    obtain ⟨frozen, hfrozen, rfl⟩ := h
    exact ⟨_, ⟨frozen, hfrozen, rfl⟩, rfl⟩

/-- A set freezes to the frozen set of its frozen items. -/
theorem freeze_set_eq_ok_iff {label : String} {xs : List Value} {w : Value} :
    freeze label (set xs) = .ok w ↔
      ∃ ys, List.Forall₂ (fun x y => freeze label x = .ok y) xs ys ∧ w = frozenSetOf ys := by
  simp only [freeze, bind_eq_ok_iff, freezeItems_eq_ok_iff, pure, Except.pure, Except.ok.injEq]
  simp only [eq_comm]

/-- What can be a key is frozen already. -/
theorem freeze_of_isHashable {label : String} {v : Value} (h : v.isHashable = true) :
    freeze label v = .ok v := by
  induction v using induction_parts with
  | step v ih =>
    cases v with
    | tuple items =>
      rw [isHashable, areHashable_iff] at h
      refine (freeze_sequence_eq_ok_iff rfl).2 ⟨items, List.forall₂_same.2 fun x hx => ?_, rfl⟩
      exact ih x hx (h x hx)
    | list | map | set => simp [isHashable] at h
    | bytes changeable content =>
      have hfixed : changeable = false := by simpa [isHashable] using h
      simp [freeze, hfixed]
    | _ => simp [freeze]

/-- Items that differ from all seen before them are added to what was seen, one after the other. -/
theorem foldl_unseen_eq_append {seen items : List Value}
    (h : (seen ++ items).Pairwise fun v w => same w v = false) :
    items.foldl (fun seen x => if seen.any (same x) then seen else seen ++ [x]) seen =
      seen ++ items := by
  induction items generalizing seen with
  | nil => simp
  | cons x items ih =>
    have hnew : seen.any (same x) = false := by
      rw [List.any_eq_false]
      intro v hv
      simp [(List.pairwise_append.1 h).2.2 v hv x List.mem_cons_self]
    have hrest : ((seen ++ [x]) ++ items).Pairwise fun v w => same w v = false := by
      simpa using h
    rw [List.foldl_cons, hnew]
    simpa using ih hrest

/-- Items that are pairwise different are all kept when a set is made of them. -/
theorem distinct_eq_self {items : List Value}
    (h : items.Pairwise fun v w => same w v = false) : distinct items = items :=
  foldl_unseen_eq_append h

/-- The pairs that a mapping is frozen to are pairwise different, as the keys of the mapping are. -/
theorem pairwise_pairs {entries frozen : List (Value × Value)}
    (hfrozen : List.Forall₂ (fun e f => f.1 = e.1) entries frozen)
    (h : entries.Pairwise fun e f => same f.1 e.1 = false) :
    (frozen.map fun f => tuple [f.1, f.2]).Pairwise fun v w => same w v = false := by
  induction hfrozen with
  | nil => exact .nil
  | @cons e f entries frozen hkey hrest ih =>
    obtain ⟨hhead, htail⟩ := List.pairwise_cons.1 h
    refine List.pairwise_cons.2 ⟨fun w hw => ?_, ih htail⟩
    obtain ⟨g, hg, rfl⟩ := List.mem_map.1 hw
    obtain ⟨d, hd, hkey'⟩ := exists_mem_left_of_forall₂ hrest hg
    simp [same, sameItems, hkey, hkey', hhead d hd]

/-- A set that can be made freezes to the frozen set of the same items. -/
theorem freeze_set_of_isWellFormed {label : String} {xs : List Value}
    (h : (set xs).isWellFormed = true) : freeze label (set xs) = .ok (frozenSet xs) := by
  obtain ⟨-, hhashable, hdistinct⟩ := isWellFormed_items h rfl
  refine freeze_set_eq_ok_iff.2 ⟨xs, List.forall₂_same.2 fun x hx => ?_, ?_⟩
  · exact freeze_of_isHashable (hhashable x hx)
  · rw [frozenSetOf, distinct_eq_self hdistinct]

/-- A mapping that can be made freezes to the frozen set of its keys paired with their frozen
values. -/
theorem freeze_map_of_isWellFormed {label : String} {entries : List (Value × Value)} {w : Value}
    (h : (map entries).isWellFormed = true) :
    freeze label (map entries) = .ok w ↔
      ∃ frozen : List (Value × Value),
        List.Forall₂ (fun e f => f.1 = e.1 ∧ freeze label e.2 = .ok f.2) entries frozen ∧
          w = frozenSet (frozen.map fun f => tuple [f.1, f.2]) := by
  rw [freeze_map_eq_ok_iff]
  refine exists_congr fun frozen => and_congr_right fun hfrozen => ?_
  rw [frozenSetOf, distinct_eq_self]
  exact pairwise_pairs (hfrozen.imp fun _ _ hef => hef.1) (isWellFormed_map.1 h).2.2

/-- What freezing makes of a value that can be made can be made and can be a key. -/
theorem isWellFormed_and_isHashable_of_freeze {label : String} {v w : Value}
    (hv : v.isWellFormed = true) (h : freeze label v = .ok w) :
    w.isWellFormed = true ∧ w.isHashable = true := by
  induction v using induction_parts generalizing w with
  | step v ih =>
    cases v with
    | list items | tuple items =>
      obtain ⟨ys, hys, rfl⟩ := (freeze_sequence_eq_ok_iff rfl).1 h
      have hparts : ∀ y ∈ ys, y.isWellFormed = true ∧ y.isHashable = true := fun y hy => by
        obtain ⟨x, hx, hxy⟩ := exists_mem_left_of_forall₂ hys hy
        exact ih x hx (isWellFormed_of_mem_parts hv hx) hxy
      rw [isWellFormed_tuple, isHashable, areHashable_iff]
      exact ⟨fun y hy => (hparts y hy).1, fun y hy => (hparts y hy).2⟩
    | map entries =>
      obtain ⟨frozen, hfrozen, rfl⟩ := (freeze_map_of_isWellFormed hv).1 h
      obtain ⟨hparts, hkeys, hdistinct⟩ := isWellFormed_map.1 hv
      have hpairs : ∀ y ∈ frozen.map fun f => tuple [f.1, f.2],
          y.isWellFormed = true ∧ y.isHashable = true := fun y hy => by
        obtain ⟨f, hf, rfl⟩ := List.mem_map.1 hy
        obtain ⟨e, he, hkey, hvalue⟩ := exists_mem_left_of_forall₂ hfrozen hf
        obtain ⟨hwf, hhash⟩ := ih _ (mem_parts_of_mem_entries he).2 (hparts e he).2 hvalue
        rw [isWellFormed_tuple, isHashable, areHashable_iff]
        simp [hkey, hwf, hhash, (hparts e he).1, hkeys e he]
      refine ⟨isWellFormed_frozenSet.2 ⟨fun y hy => (hpairs y hy).1, fun y hy => (hpairs y hy).2,
        pairwise_pairs (hfrozen.imp fun _ _ hef => hef.1) hdistinct⟩, rfl⟩
    | set items =>
      rw [freeze_set_of_isWellFormed hv, Except.ok.injEq] at h
      subst h
      exact ⟨isWellFormed_frozenSet.2 (isWellFormed_items hv rfl), rfl⟩
    | bytes changeable content =>
      cases changeable with
      | true => simp [freeze] at h
      | false =>
        obtain rfl : bytes false content = w := by simpa [freeze] using h
        exact ⟨hv, rfl⟩
    | _ =>
      simp only [freeze, Except.ok.injEq] at h
      subst h
      exact ⟨hv, rfl⟩

/-- What freezing makes of a value does not depend on the name of the argument. -/
theorem freeze_label {label label' : String} {v w : Value} (h : freeze label v = .ok w) :
    freeze label' v = .ok w := by
  induction v using induction_parts generalizing w with
  | step v ih =>
    have hitems {ys : List Value}
        (h : List.Forall₂ (fun x y => freeze label x = .ok y) v.parts ys) :
        List.Forall₂ (fun x y => freeze label' x = .ok y) v.parts ys :=
      forall₂_imp_of_mem (fun x hx y _ hxy => ih x hx hxy) h
    cases v with
    | list items | tuple items =>
      obtain ⟨ys, hys, rfl⟩ := (freeze_sequence_eq_ok_iff rfl).1 h
      exact (freeze_sequence_eq_ok_iff rfl).2 ⟨ys, hitems hys, rfl⟩
    | map entries =>
      obtain ⟨frozen, hfrozen, rfl⟩ := freeze_map_eq_ok_iff.1 h
      refine freeze_map_eq_ok_iff.2 ⟨frozen, ?_, rfl⟩
      refine forall₂_imp_of_mem (fun e he f _ hef => ⟨hef.1, ?_⟩) hfrozen
      exact ih _ (mem_parts_of_mem_entries he).2 hef.2
    | set items =>
      obtain ⟨ys, hys, rfl⟩ := freeze_set_eq_ok_iff.1 h
      exact freeze_set_eq_ok_iff.2 ⟨ys, hitems hys, rfl⟩
    | bytes changeable content =>
      cases changeable with
      | true => simp [freeze] at h
      | false => simpa [freeze] using h
    | _ => simpa only [freeze] using h

/-- A value freezes to another one, whatever the argument is called. -/
def Freezes (v w : Value) : Prop := ∀ label, v.freeze label = .ok w

/-- A value freezes to what one call of freezing makes of it. -/
theorem freezes_iff {label : String} {v w : Value} : Freezes v w ↔ v.freeze label = .ok w :=
  ⟨fun h => h label, fun h _ => freeze_label h⟩

end Value

namespace Arguments

open Value (Freezes freezes_iff)

/-- Freezing the positional arguments succeeds exactly if freezing each of them does. -/
theorem freezePositional_eq_ok_iff {i : Nat} {vs ws : List Value} :
    freezePositional i vs = .ok ws ↔ List.Forall₂ Freezes vs ws := by
  induction vs generalizing i ws with
  | nil => cases ws <;> simp [freezePositional]
  | cons v vs ih =>
    simp only [freezePositional, bind_eq_ok_iff, ih, ← freezes_iff, pure, Except.pure,
      Except.ok.injEq]
    constructor
    · intro h
      obtain ⟨w, hw, ws, hws, rfl⟩ := h
      exact .cons hw hws
    · intro h
      rcases h with _ | ⟨hw, hws⟩
      exact ⟨_, hw, _, hws, rfl⟩

/-- Freezing the keyword arguments succeeds exactly if freezing each of them does; names stay. -/
theorem freezeKeywords_eq_ok_iff {ks ls : List (String × Value)} :
    freezeKeywords ks = .ok ls ↔
      List.Forall₂ (fun k l => l.1 = k.1 ∧ Freezes k.2 l.2) ks ls := by
  rw [freezeKeywords, mapM_eq_ok_iff]
  refine ⟨List.Forall₂.imp fun k l hkl => ?_, List.Forall₂.imp fun k l hkl => ?_⟩
  · obtain ⟨w, hw, hl⟩ := bind_eq_ok_iff.1 hkl
    obtain rfl : (k.1, w) = l := Except.ok.inj hl
    exact ⟨rfl, freezes_iff.2 hw⟩
  · exact bind_eq_ok_iff.2 ⟨l.2, hkl.2 _, by rw [← hkl.1]; rfl⟩

/-- The part of a key that the keyword arguments are: nothing if there are none, and one tuple of
names with values, in the order of the names, otherwise. -/
def keywordPart (keywords : List (String × Value)) : List Value :=
  if keywords.isEmpty then []
  else [.tuple ((keywords.mergeSort byName).map fun k => .tuple [.str k.1, k.2])]

/-- A call has a key exactly if each of its arguments freezes, and the key is made of what they
freeze to. -/
theorem key_eq_ok_iff {args : Arguments} {key : Value} :
    args.key = .ok key ↔
      ∃ positional keywords,
        List.Forall₂ Freezes args.positional positional ∧
          List.Forall₂ (fun k l => l.1 = k.1 ∧ Freezes k.2 l.2) args.keywords keywords ∧
          key = .tuple (positional ++ keywordPart keywords) := by
  simp only [Arguments.key, bind_eq_ok_iff, freezePositional_eq_ok_iff, freezeKeywords_eq_ok_iff]
  apply exists_congr
  intro positional
  constructor
  · intro h
    obtain ⟨hpositional, keywords, hkeywords, hkey⟩ := h
    refine ⟨keywords, hpositional, hkeywords, ?_⟩
    unfold keywordPart
    split at hkey <;> simp_all [pure, Except.pure]
  · intro h
    obtain ⟨keywords, hpositional, hkeywords, rfl⟩ := h
    refine ⟨hpositional, keywords, hkeywords, ?_⟩
    unfold keywordPart
    split <;> simp [pure, Except.pure]

/-- Whether the arguments of a call can be given: each value can be made, and no name is given
twice. -/
structure WellFormed (args : Arguments) : Prop where
  /-- The positional arguments can be made. -/
  positional : ∀ v ∈ args.positional, v.isWellFormed = true
  /-- The keyword arguments can be made. -/
  keywords : ∀ k ∈ args.keywords, k.2.isWellFormed = true
  /-- The names are pairwise different. -/
  names : (args.keywords.map Prod.fst).Nodup

/-- The key of a call that can be made can be made. -/
theorem WellFormed.isWellFormed_key {args : Arguments} {key : Value} (hargs : args.WellFormed)
    (h : args.key = .ok key) : key.isWellFormed = true := by
  obtain ⟨positional, keywords, hpositional, hkeywords, rfl⟩ := key_eq_ok_iff.1 h
  have hfirst : ∀ v ∈ positional, v.isWellFormed = true := fun v hv => by
    obtain ⟨u, hu, huv⟩ := exists_mem_left_of_forall₂ hpositional hv
    exact (Value.isWellFormed_and_isHashable_of_freeze (hargs.positional u hu) (huv "")).1
  have hlast : ∀ l ∈ keywords, l.2.isWellFormed = true := fun l hl => by
    obtain ⟨k, hk, -, hkl⟩ := exists_mem_left_of_forall₂ hkeywords hl
    exact (Value.isWellFormed_and_isHashable_of_freeze (hargs.keywords k hk) (hkl "")).1
  have hpairs : ∀ l ∈ keywords, (Value.tuple [.str l.1, l.2]).isWellFormed = true := fun l hl => by
    rw [Value.isWellFormed_tuple]
    simp [Value.isWellFormed, hlast l hl]
  rw [Value.isWellFormed_tuple]
  intro v hv
  rcases List.mem_append.1 hv with hv | hv
  · exact hfirst v hv
  · unfold keywordPart at hv
    split at hv
    · exact absurd hv List.not_mem_nil
    · rw [List.mem_singleton.1 hv, Value.isWellFormed_tuple]
      intro w hw
      obtain ⟨l, hl, rfl⟩ := List.mem_map.1 hw
      exact hpairs l (List.mem_mergeSort.1 hl)

end Arguments

end TranslationKeys
