import TranslationKeys.Proofs.Causes
import TranslationKeys.Proofs.Memo.KeywordOrder

/-!
# What freezing keeps

Freezing a value fails exactly if a part of it can change and is no collection. What comes out can
be a key and is left alone by freezing it again, and what comes out of equal values is equal. The
one value that does not come out equal to itself is not-a-number, which equals nothing; a collection
that holds it does equal itself.
-/

namespace TranslationKeys

namespace Value

/-- A value occurs in another one: it is that value or occurs in a part of it. -/
inductive OccursIn (u : Value) : Value → Prop where
  /-- A value occurs in itself. -/
  | self : OccursIn u u
  /-- What occurs in a part of a value occurs in the value. -/
  | inPart {v x : Value} (hx : x ∈ v.parts) (h : OccursIn u x) : OccursIn u v

/-- A value that can change and is no collection. -/
def IsChangeableLeaf (v : Value) : Prop :=
  v.shape = .plain ∧ v.isHashable = false

/-- Something holds of all that occurs in a value exactly if it holds of the value and of all that
occurs in its parts. -/
theorem forall_occursIn_iff {p : Value → Prop} {v : Value} :
    (∀ u, OccursIn u v → p u) ↔ p v ∧ ∀ x ∈ v.parts, ∀ u, OccursIn u x → p u := by
  constructor
  · intro h
    exact ⟨h v .self, fun x hx u hu => h u (.inPart hx hu)⟩
  · intro h' u hu
    obtain ⟨h, hparts⟩ := h'
    cases hu with
    | self => exact h
    | inPart hx hu => exact hparts _ hx u hu

/-- Freezing fails for one cause only. -/
theorem freeze_failsOnlyBy (label : String) (v : Value) :
    FailsOnlyBy (· = .unhashable label) (v.freeze label) := by
  induction v using induction_parts with
  | step v ih =>
    have hitems {items : List Value} (hparts : items ⊆ v.parts) :
        FailsOnlyBy (· = .unhashable label) (freezeItems label items) := by
      induction items with
      | nil => exact .ok []
      | cons x items ihitems =>
        obtain ⟨hx, hrest⟩ := List.cons_subset.1 hparts
        exact (ih x hx).bind fun _ _ => (ihitems hrest).bind fun _ _ => .pure _
    have hentries {entries : List (Value × Value)} (hparts : entries.map Prod.snd ⊆ v.parts) :
        FailsOnlyBy (· = .unhashable label) (freezeEntries label entries) := by
      induction entries with
      | nil => exact .ok []
      | cons e entries ihentries =>
        obtain ⟨hx, hrest⟩ := List.cons_subset.1 hparts
        exact (ih e.2 hx).bind fun _ _ => (ihentries hrest).bind fun _ _ => .pure _
    cases v with
    | list items | tuple items | set items =>
      exact (hitems (List.Subset.refl _)).bind fun _ _ => .pure _
    | map entries =>
      refine (hentries fun x hx => ?_).bind fun _ _ => .pure _
      obtain ⟨e, he, rfl⟩ := List.mem_map.1 hx
      exact (mem_parts_of_mem_entries he).2
    | bytes changeable content =>
      cases changeable with
      | true => exact fun e he => (Except.error.inj he).symm
      | false => exact .ok _
    | _ => exact .ok _

/-- A value freezes exactly if it is no changeable leaf and its parts freeze. -/
theorem exists_freeze_iff {label : String} {v : Value} (hv : v.isWellFormed = true) :
    (∃ w, v.freeze label = .ok w) ↔
      ¬ v.IsChangeableLeaf ∧ ∀ x ∈ v.parts, ∃ w, x.freeze label = .ok w := by
  -- A collection is no leaf.
  have hcollection {q : Prop} (hshape : v.shape ≠ .plain) (h : (∃ w, v.freeze label = .ok w) ↔ q) :
      (∃ w, v.freeze label = .ok w) ↔ ¬ v.IsChangeableLeaf ∧ q := by
    rw [h, and_iff_right]
    exact fun hleaf => hshape hleaf.1
  have hsequence {xs : List Value} (hxs : v.sequenceItems? = some xs) :
      (∃ w, v.freeze label = .ok w) ↔ ∀ x ∈ xs, ∃ w, x.freeze label = .ok w := by
    simp only [freeze_sequence_eq_ok_iff hxs, ← exists_forall₂_iff]
    exact ⟨fun ⟨_, ys, hys, _⟩ => ⟨ys, hys⟩, fun ⟨ys, hys⟩ => ⟨_, ys, hys, rfl⟩⟩
  have hset {xs : List Value} (hxs : v.setItems? = some xs) :
      ∀ x ∈ xs, ∃ w, x.freeze label = .ok w :=
    fun x hx => ⟨x, freeze_of_isHashable ((isWellFormed_items hv hxs).2.1 x hx)⟩
  cases v with
  | list items | tuple items => exact hcollection nofun (hsequence rfl)
  | set items =>
    exact hcollection nofun (iff_of_true ⟨_, freeze_set_of_isWellFormed hv⟩ (hset rfl))
  | frozenSet items =>
    exact hcollection nofun (iff_of_true ⟨_, freeze_of_isHashable rfl⟩ (hset rfl))
  | map entries =>
    refine hcollection nofun ?_
    have hentries : (∃ w, (map entries).freeze label = .ok w) ↔
        ∀ e ∈ entries, ∃ f : Value × Value, f.1 = e.1 ∧ e.2.freeze label = .ok f.2 := by
      simp only [freeze_map_eq_ok_iff, ← exists_forall₂_iff]
      exact ⟨fun ⟨_, frozen, h, _⟩ => ⟨frozen, h⟩, fun ⟨frozen, h⟩ => ⟨_, frozen, h, rfl⟩⟩
    rw [hentries]
    constructor
    · intro h x hx
      obtain ⟨e, he, hxe⟩ := List.mem_flatMap.1 hx
      rcases List.mem_pair.1 hxe with rfl | rfl
      · exact ⟨e.1, freeze_of_isHashable ((isWellFormed_map.1 hv).2.1 e he)⟩
      · obtain ⟨f, -, hf⟩ := h e he
        exact ⟨f.2, hf⟩
    · intro h e he
      obtain ⟨w, hw⟩ := h e.2 (mem_parts_of_mem_entries he).2
      exact ⟨(e.1, w), rfl, hw⟩
  | bytes changeable content =>
    cases changeable <;> simp [freeze, IsChangeableLeaf, shape, isHashable, parts]
  | _ => simp [freeze, IsChangeableLeaf, shape, isHashable, parts]

/-- A value freezes exactly if no changeable leaf occurs in it. -/
theorem exists_freeze_iff_forall_occursIn {label : String} {v : Value}
    (hv : v.isWellFormed = true) :
    (∃ w, v.freeze label = .ok w) ↔ ∀ u, OccursIn u v → ¬ u.IsChangeableLeaf := by
  induction v using induction_parts with
  | step v ih =>
    rw [exists_freeze_iff hv, forall_occursIn_iff]
    exact and_congr_right fun _ => forall₂_congr fun x hx =>
      ih x hx (isWellFormed_of_mem_parts hv hx)

/-- Freezing fails, naming the argument, exactly if a changeable leaf occurs in the value. -/
theorem freeze_eq_error_iff {label : String} {v : Value} (hv : v.isWellFormed = true) :
    v.freeze label = .error (.unhashable label) ↔ ∃ u, OccursIn u v ∧ u.IsChangeableLeaf := by
  have hfreeze : (∃ w, v.freeze label = .ok w) ↔ ∀ u, OccursIn u v → ¬ u.IsChangeableLeaf :=
    exists_freeze_iff_forall_occursIn hv
  cases h : v.freeze label with
  | ok w =>
    have hnone := hfreeze.1 ⟨w, h⟩
    refine iff_of_false nofun fun hleaf => ?_
    obtain ⟨u, hu, hchanges⟩ := hleaf
    exact hnone u hu hchanges
  | error e =>
    obtain rfl := freeze_failsOnlyBy label v e h
    refine iff_of_true rfl (not_forall_not.1 fun hnone => ?_)
    obtain ⟨w, hw⟩ := hfreeze.2 fun u hu hchanges => hnone u ⟨hu, hchanges⟩
    exact nomatch h.symm.trans hw

/-- Freezing makes not-a-number of itself and of nothing else. -/
theorem isNaN_of_freeze {label : String} {v w : Value} (h : v.freeze label = .ok w) :
    w.isNaN = v.isNaN := by
  have hself (heq : v.freeze label = .ok v) : w.isNaN = v.isNaN := by
    rw [Except.ok.inj (h.symm.trans heq)]
  cases v with
  | list items | tuple items =>
    obtain ⟨ys, -, rfl⟩ := (freeze_sequence_eq_ok_iff rfl).1 h
    rfl
  | map entries =>
    obtain ⟨frozen, -, rfl⟩ := freeze_map_eq_ok_iff.1 h
    rfl
  | set items =>
    obtain ⟨ys, -, rfl⟩ := freeze_set_eq_ok_iff.1 h
    rfl
  | bytes changeable content =>
    cases changeable with
    | true => exact nomatch h
    | false => exact hself rfl
  | _ => exact hself rfl

/-- Turning lists into tuples keeps the same items the same. -/
theorem alike_of_same {a b : Value} (ha : a.isWellFormed = true) (hb : b.isWellFormed = true)
    (h : same a b = true) : alike a b = true := by
  induction a using induction_parts generalizing b with
  | step a ih =>
    cases (same_iff ha hb).1 h with
    | list hxy | tuple hxy =>
      rw [alike_sequence_iff rfl rfl]
      refine forall₂_imp_of_mem (fun x hx y hy hsame => ih x hx ?_ ?_ hsame) hxy
      · exact isWellFormed_of_mem_parts ha hx
      · exact isWellFormed_of_mem_parts hb hy
    | @map xs ys hlength hxy =>
      refine alike_map_iff.2 ⟨hlength, fun e he => ?_⟩
      obtain ⟨f, hf, hkey, hvalue⟩ := hxy e he
      have hpart := (mem_parts_of_mem_entries he).2
      have hpart' := (mem_parts_of_mem_entries hf).2
      exact ⟨f, hf, hkey, ih e.2 hpart (isWellFormed_of_mem_parts ha hpart)
        (isWellFormed_of_mem_parts hb hpart') hvalue⟩
    | set hxs hys hlength hxy =>
      rw [(alike_set_set hxs hys).1]
      simp [same, hlength, itemsAmong_iff.2 hxy]
    | leaf hfa hfb =>
      have hplain {v : Value} {form : LeafForm} (hv : v.leafForm? = some form) :
          v.asTuples = v := by
        cases v <;> simp [leafForm?, asTuples] at hv ⊢
      rw [alike, hplain hfa, hplain hfb, h]

end Value

namespace Memo

open Value

/-- Frozen arguments are faithful to equality by value. Freezing a value fails, naming the argument,
exactly if a changeable leaf occurs in it. Otherwise what comes out can be a key, and freezing it
again yields that same value, which equals itself unless the value is not-a-number. What comes out
of equal values is equal. The key of a call does not depend on the order of its keyword arguments,
and however these are sorted, comparing two of their values makes no difference to it, not even by
failing. -/
theorem freezing_faithful :
    (∀ (v : Value) (label : String), v.isWellFormed = true →
      (v.freeze label = .error (.unhashable label) ↔ ∃ u, OccursIn u v ∧ u.IsChangeableLeaf) ∧
        ((∀ u, OccursIn u v → ¬ u.IsChangeableLeaf) →
          ∃ w, v.freeze label = .ok w ∧ w.isHashable = true ∧ (∀ again, w.freeze again = .ok w) ∧
            (v.isNaN = false → equals w w = true))) ∧
      (∀ (v v' w w' : Value) (label label' : String), v.isWellFormed = true →
        v'.isWellFormed = true → v.freeze label = .ok w → v'.freeze label' = .ok w' →
          equals v v' = true → equals w w' = true) ∧
      (∀ a b : Arguments, a.positional = b.positional → a.keywords.Perm b.keywords →
        (a.keywords.map Prod.fst).Nodup → ∀ key, a.key = .ok key ↔ b.key = .ok key) ∧
      ∀ (args : Arguments) (plan : (n : Nat) → SortPlan n)
        (valueIsBefore : Value → Value → Except Failure Bool),
        (args.keywords.map Prod.fst).Nodup → (plan args.keywords.length).Sorts →
          args.keyBy plan valueIsBefore = args.key := by
  refine ⟨fun v label hv => ⟨freeze_eq_error_iff hv, fun hleaf => ?_⟩, ?_,
    fun a b => Arguments.key_eq_ok_iff_of_perm,
    fun args plan valueIsBefore hnames hplan => Arguments.keyBy_eq_key hnames hplan valueIsBefore⟩
  · obtain ⟨w, hw⟩ : ∃ w, v.freeze label = .ok w :=
      (exists_freeze_iff_forall_occursIn hv).2 hleaf
    obtain ⟨hwf, hhashable⟩ := isWellFormed_and_isHashable_of_freeze hv hw
    refine ⟨w, hw, hhashable, fun again => freeze_of_isHashable hhashable, fun hnumber => ?_⟩
    exact equals_iff.2 ⟨(isNaN_of_freeze hw).trans hnumber, same_refl hwf⟩
  · intro v v' w w' label label' hv hv' hw hw' hequal
    obtain ⟨hnumber, hsame⟩ := equals_iff.1 hequal
    have halike : alike v v' = true := alike_of_same hv hv' hsame
    exact equals_iff.2 ⟨(isNaN_of_freeze hw).trans hnumber,
      ((alike_iff hv hv' (freezes_iff.2 hw) (freezes_iff.2 hw')).1 halike).1⟩

/-- Not-a-number freezes to itself, so that freezing it again yields it again, which is not equal
to it. -/
theorem freezing_nan_again :
    Value.isWellFormed (.float (.nan 1)) = true ∧
      Value.freeze "argument" (.float (.nan 1)) = .ok (.float (.nan 1)) ∧
      Value.equals (.float (.nan 1)) (.float (.nan 1)) = false :=
  ⟨rfl, rfl, rfl⟩

/-- A plan that compares two items and puts the one that is before the other first. -/
def comparePair : (n : Nat) → SortPlan n
  | 2 => .compare 0 1 (by decide) fun before => .done (if before then [0, 1] else [1, 0])
  | n => .done (List.finRange n)

/-- Two items are sorted by comparing them once. -/
theorem comparePair_sorts : (comparePair 2).Sorts := by
  intro isBefore hascending
  have htotal := hascending.total 0 1 (by decide)
  refine ⟨if isBefore 0 1 then [0, 1] else [1, 0], rfl, ?_, ?_⟩
  · split <;> decide
  · cases hbefore : isBefore 0 1 <;> simp [hbefore, htotal]

/-- A list of not-a-number and a mapping whose value is a set of one, and a list of the same object
and a mapping whose value is a frozen set of a truth value, are equal and freeze to equal values; a
tuple that holds changeable bytes does not freeze; and two keyword arguments can be given and
compared in any way. -/
theorem freezing_faithful_sample :
    let v : Value := .list [.float (.nan 1), .map [(.str "k", .set [.int 1])]]
    let v' : Value := .list [.float (.nan 1), .map [(.str "k", .frozenSet [.bool true])]]
    let broken : Value := .tuple [.map [(.int 0, .bytes true [120])]]
    let a : Arguments := ⟨[], [("b", .int 1), ("a", .str "x")]⟩
    let b : Arguments := ⟨[], [("a", .str "x"), ("b", .int 1)]⟩
    broken.freeze "x" = .error (.unhashable "x") ∧
      (∃ w w', v.freeze "x" = .ok w ∧ v'.freeze "y" = .ok w' ∧ equals w w' = true ∧
        w.freeze "x" = .ok w ∧ equals w w = true) ∧
      (∃ key, a.key = .ok key ∧ b.key = .ok key) ∧
      a.keyBy comparePair (fun _ _ => .error .unhashableKey) = a.key := by
  intro v v' broken a b
  obtain ⟨hfreeze, hequal, horder, hsort⟩ := freezing_faithful
  have hv : v.isWellFormed = true := by decide +kernel
  have hv' : v'.isWellFormed = true := by decide +kernel
  have hleaf : OccursIn (.bytes true [120]) broken :=
    .inPart (x := .map [(.int 0, .bytes true [120])]) (by simp [broken, parts])
      (.inPart (x := .bytes true [120]) (by simp [parts]) .self)
  have hw : v.freeze "x" =
      .ok (.tuple [.float (.nan 1), .frozenSet [.tuple [.str "k", .frozenSet [.int 1]]]]) := rfl
  have hw' : v'.freeze "y" =
      .ok (.tuple [.float (.nan 1), .frozenSet [.tuple [.str "k", .frozenSet [.bool true]]]]) := rfl
  have hfrozen : ∀ u, OccursIn u v → ¬ u.IsChangeableLeaf := by
    intro u hu hchanges
    have hfails := (hfreeze v "x" hv).1.2 ⟨u, hu, hchanges⟩
    cases hw.symm.trans hfails
  obtain ⟨key, hkey⟩ : ∃ key, b.key = .ok key :=
    ⟨_, Arguments.key_eq_ok_iff.2 ⟨[], b.keywords, .nil,
      .cons ⟨rfl, fun _ => rfl⟩ (.cons ⟨rfl, fun _ => rfl⟩ .nil), rfl⟩⟩
  refine ⟨?_, ?_, ?_, ?_⟩
  · exact (hfreeze broken "x" (by decide +kernel)).1.2 ⟨_, hleaf, rfl, rfl⟩
  · obtain ⟨w, hvw, -, hagain, hself⟩ := (hfreeze v "x" hv).2 hfrozen
    have hsame := hequal v v' w _ "x" "y" hv hv' hvw hw' (by decide +kernel)
    exact ⟨w, _, hvw, hw', hsame, hagain "x", hself rfl⟩
  · exact ⟨key, (horder a b rfl (List.Perm.swap _ _ _) (by decide) key).2 hkey, hkey⟩
  · exact hsort a comparePair _ (by decide) comparePair_sorts

end Memo

end TranslationKeys
