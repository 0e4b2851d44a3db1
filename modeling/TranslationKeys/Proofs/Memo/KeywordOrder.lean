import TranslationKeys.Proofs.Memo.Conflation
import Mathlib.Data.List.Nodup

/-!
# The order of keyword arguments

The names of keyword arguments are distinct, so they have only one ascending order. It does not
matter in which order the arguments are given, nor how they are sorted: a sort that compares pairs
of a name and a value, never one with itself, is done before it would look at any value.
-/

namespace TranslationKeys

/-- A way to sort so many items by comparing two of them at a time, where what is done next may
depend on how the comparison turned out. No item is compared with itself. -/
inductive SortPlan (n : Nat) where
  /-- The places of the items, in the order that was found. -/
  | done (order : List (Fin n))
  /-- The items at two places are compared. -/
  | compare (i j : Fin n) (hne : i ≠ j) (next : Bool → SortPlan n)

namespace SortPlan

variable {n : Nat}

/-- Sorts by a comparison that may fail. -/
def run (isBefore : Fin n → Fin n → Except Failure Bool) :
    SortPlan n → Except Failure (List (Fin n))
  | done order => .ok order
  | compare i j _ next => isBefore i j >>= fun before => (next before).run isBefore

/-- Of any two items one is before the other, and what is before an item is before all items after
it. -/
structure IsAscending (isBefore : Fin n → Fin n → Bool) : Prop where
  /-- Of two items exactly one is before the other. -/
  total : ∀ i j, i ≠ j → isBefore j i = !isBefore i j
  /-- What is before an item is before what that is before. -/
  trans : ∀ i j k, isBefore i j = true → isBefore j k = true → isBefore i k = true

/-- A plan finds the ascending order of the items, however they are ordered. -/
def Sorts (plan : SortPlan n) : Prop :=
  ∀ isBefore, IsAscending isBefore →
    ∃ order, plan.run (fun i j => .ok (isBefore i j)) = .ok order ∧
      order.Perm (List.finRange n) ∧ order.Pairwise fun i j => isBefore i j = true

/-- Comparisons that agree on different items lead to one order. -/
theorem run_congr {isBefore isBefore' : Fin n → Fin n → Except Failure Bool}
    (h : ∀ i j, i ≠ j → isBefore i j = isBefore' i j) (plan : SortPlan n) :
    plan.run isBefore = plan.run isBefore' := by
  induction plan with
  | done order => rfl
  | compare i j hne next ih =>
    rw [run, run, h i j hne]
    exact congrArg (isBefore' i j >>= ·) (funext ih)

end SortPlan

namespace Arguments

/-- Whether a name with a value is before another one: by the names, and by the values only if the
names are the same. -/
def pairIsBefore (valueIsBefore : Value → Value → Except Failure Bool) (k l : String × Value) :
    Except Failure Bool :=
  if k.1 = l.1 then valueIsBefore k.2 l.2 else .ok (byName k l)

/-- Keyword arguments sorted by comparing names with values. -/
def sortedBy (valueIsBefore : Value → Value → Except Failure Bool)
    (keywords : List (String × Value)) (plan : SortPlan keywords.length) :
    Except Failure (List (String × Value)) := do
  let order ← plan.run fun i j => pairIsBefore valueIsBefore (keywords.get i) (keywords.get j)
  return order.map keywords.get

/-- The key of a call, made by comparing names with values as some sort requires it. -/
def keyBy (plan : (n : Nat) → SortPlan n) (valueIsBefore : Value → Value → Except Failure Bool)
    (args : Arguments) : Except Failure Value := do
  let positional ← freezePositional 0 args.positional
  let keywords ← freezeKeywords args.keywords
  if keywords.isEmpty then return .tuple positional
  else
    let sorted ← sortedBy valueIsBefore keywords (plan keywords.length)
    return .tuple (positional ++ [.tuple (sorted.map fun k => .tuple [.str k.1, k.2])])

section Names

variable {keywords keywords' : List (String × Value)}

/-- Keyword arguments in the ascending order of distinct names are the sorted ones. -/
theorem eq_mergeSort_of_perm (hnames : (keywords.map Prod.fst).Nodup)
    (hperm : keywords'.Perm keywords)
    (hascending : keywords'.Pairwise fun k l => byName k l = true) :
    keywords' = keywords.mergeSort byName := by
  have hsorted : (keywords.mergeSort byName).Pairwise fun k l => byName k l = true :=
    Text.pairwise_mergeSort Prod.fst keywords
  refine List.Perm.eq_of_pairwise (fun k l hk hl hkl hlk => ?_) hascending hsorted
    (hperm.trans (List.mergeSort_perm _ _).symm)
  have hname : k.1 = l.1 := Text.ofString_injective (Text.le_antisymm hkl hlk)
  rcases eq_or_rel_of_pairwise (List.pairwise_map.1 hnames) (hperm.subset hk)
    (List.mem_mergeSort.1 hl) with heq | hne | hne
  · exact heq
  · exact absurd hname hne
  · exact absurd hname.symm hne

/-- The part of a key that the keyword arguments are does not depend on their order. -/
theorem keywordPart_eq_of_perm (hnames : (keywords.map Prod.fst).Nodup)
    (hperm : keywords'.Perm keywords) : keywordPart keywords' = keywordPart keywords := by
  have hempty : keywords'.isEmpty = keywords.isEmpty := by
    rw [Bool.eq_iff_iff, List.isEmpty_iff_length_eq_zero, List.isEmpty_iff_length_eq_zero,
      hperm.length_eq]
  have hsorted : keywords'.mergeSort byName = keywords.mergeSort byName :=
    eq_mergeSort_of_perm hnames ((List.mergeSort_perm _ _).trans hperm)
      (Text.pairwise_mergeSort Prod.fst keywords')
  rw [keywordPart, keywordPart, hempty, hsorted]

/-- Distinct names are at distinct places. -/
theorem name_get_ne (hnames : (keywords.map Prod.fst).Nodup) {i j : Fin keywords.length}
    (hne : i ≠ j) : (keywords.get i).1 ≠ (keywords.get j).1 := by
  intro hname
  have hinjective := List.nodup_iff_injective_get.1 hnames
  have hplace := @hinjective ⟨i, by simp⟩ ⟨j, by simp⟩ (by simpa using hname)
  exact hne (Fin.ext (Fin.mk.inj hplace))

/-- Distinct names are in an ascending order. -/
theorem isAscending_byName (hnames : (keywords.map Prod.fst).Nodup) :
    SortPlan.IsAscending fun i j => byName (keywords.get i) (keywords.get j) where
  total i j hne := by
    have htotal : (byName (keywords.get i) (keywords.get j) ||
        byName (keywords.get j) (keywords.get i)) = true := Text.le_total _ _
    have honce : ¬ (byName (keywords.get i) (keywords.get j) = true ∧
        byName (keywords.get j) (keywords.get i) = true) := fun h =>
      name_get_ne hnames hne (Text.ofString_injective (Text.le_antisymm h.1 h.2))
    cases hij : byName (keywords.get i) (keywords.get j) <;> simp_all
  trans i j k hij hjk := Text.le_trans hij hjk

/-- Every sort puts keyword arguments with distinct names in the same order, whatever comparing two
values would lead to. -/
theorem sortedBy_eq_mergeSort (hnames : (keywords.map Prod.fst).Nodup)
    (valueIsBefore : Value → Value → Except Failure Bool) {plan : SortPlan keywords.length}
    (hplan : plan.Sorts) :
    sortedBy valueIsBefore keywords plan = .ok (keywords.mergeSort byName) := by
  obtain ⟨order, hrun, hperm, hascending⟩ := hplan _ (isAscending_byName hnames)
  have hvalues : plan.run (fun i j =>
      pairIsBefore valueIsBefore (keywords.get i) (keywords.get j)) = .ok order := by
    rw [← hrun]
    exact SortPlan.run_congr (fun i j hne => if_neg (name_get_ne hnames hne)) plan
  have hsame : (order.map keywords.get).Perm keywords := by
    have hmap := hperm.map keywords.get
    rwa [List.map_get_finRange] at hmap
  rw [sortedBy, hvalues]
  exact congrArg Except.ok
    (eq_mergeSort_of_perm hnames hsame (List.pairwise_map.2 hascending))

end Names

/-- The key of a call is the same for every sort, and no two values are compared to make it. -/
theorem keyBy_eq_key {args : Arguments} (hnames : (args.keywords.map Prod.fst).Nodup)
    {plan : (n : Nat) → SortPlan n} (hplan : (plan args.keywords.length).Sorts)
    (valueIsBefore : Value → Value → Except Failure Bool) :
    args.keyBy plan valueIsBefore = args.key := by
  unfold keyBy key
  refine bind_congr fun positional => ?_
  cases hkeywords : freezeKeywords args.keywords with
  | error e => rfl
  | ok keywords =>
    have hforall := freezeKeywords_eq_ok_iff.1 hkeywords
    have hsame : args.keywords.map Prod.fst = keywords.map Prod.fst :=
      map_eq_map_of_forall₂ (fun hkl => hkl.1.symm) hforall
    rw [hforall.length_eq] at hplan
    change (if keywords.isEmpty then _ else _) = if keywords.isEmpty then _ else _
    rw [sortedBy_eq_mergeSort (hsame ▸ hnames) valueIsBefore hplan]
    rfl

/-- The key of a call does not depend on the order of its keyword arguments. -/
theorem key_of_perm {a b : Arguments} (hpositional : a.positional = b.positional)
    (hkeywords : a.keywords.Perm b.keywords) (hnames : (b.keywords.map Prod.fst).Nodup)
    {key : Value} (h : b.key = .ok key) : a.key = .ok key := by
  obtain ⟨positional, keywords, hpos, hkey, rfl⟩ := key_eq_ok_iff.1 h
  obtain ⟨keywords', hkey', hperm⟩ := List.perm_comp_forall₂ hkeywords hkey
  have hsame : b.keywords.map Prod.fst = keywords.map Prod.fst :=
    map_eq_map_of_forall₂ (fun hkl => hkl.1.symm) hkey
  refine key_eq_ok_iff.2 ⟨positional, keywords', hpositional ▸ hpos, hkey', ?_⟩
  rw [keywordPart_eq_of_perm (hsame ▸ hnames) hperm]

/-- Calls that give the same arguments in another order have the same key, or both have none. -/
theorem key_eq_ok_iff_of_perm {a b : Arguments} (hpositional : a.positional = b.positional)
    (hkeywords : a.keywords.Perm b.keywords) (hnames : (a.keywords.map Prod.fst).Nodup)
    (key : Value) : a.key = .ok key ↔ b.key = .ok key :=
  ⟨key_of_perm hpositional.symm hkeywords.symm hnames,
    key_of_perm hpositional hkeywords ((hkeywords.map Prod.fst).nodup_iff.1 hnames)⟩

end Arguments

end TranslationKeys
