import TranslationKeys.Proofs.Memo.Call
import TranslationKeys.Proofs.Memo.StringArguments

/-!
# Keys that stay known

A memo without a bound forgets nothing until it is cleared. A key that equals no other key keeps its
value through all calls with other keys, and the keys of calls on strings are of this kind.
-/

namespace TranslationKeys

namespace Memo

variable {κ ν ε σ : Type} [BEq κ] {m : Memo κ ν} {key other : κ} {value : ν}
  {compute : σ → σ × Except ε ν} {s : σ}

/-- A key that equals itself and no other key. -/
def IsExact (key : κ) : Prop := ∀ k, (k == key) = true ↔ k = key

/-- Under a lawful equality every key is exact. -/
theorem isExact_of_lawful [LawfulBEq κ] (key : κ) : IsExact key :=
  fun _ => beq_iff_eq

/-- Using a key leaves what is known of an exact key. -/
theorem find?_refresh (hkey : IsExact key) : (m.refresh other).find? key = m.find? key := by
  -- Entries of the key are all kept by a filter on keys, or all dropped.
  have hfilter (p : κ → Bool) : (m.entries.filter fun e => p e.1).find? (fun e => e.1 == key) =
      if p key then m.entries.find? fun e => e.1 == key else none := by
    rw [List.find?_filter]
    cases hp : p key with
    | true =>
      congr 1
      funext e
      cases he : e.1 == key with
      | true => simp [(hkey e.1).1 he, hp]
      | false => simp
    | false =>
      refine List.find?_eq_none.2 fun e _ he => ?_
      simp only [decide_eq_true_eq] at he
      rw [(hkey e.1).1 he.2, hp] at he
      exact nomatch he.1
  unfold find? refresh
  rw [List.find?_append, hfilter fun k => !(k == other), hfilter fun k => k == other]
  cases key == other <;> simp

/-- A new entry leaves the value of a key that is known, if nothing is dropped for it. -/
theorem find?_store_of_some (hcapacity : m.capacity = none) (h : m.find? key = some value)
    (new : ν) : (m.store other new).find? key = some value := by
  obtain ⟨e, he, rfl⟩ := Option.map_eq_some_iff.1 h
  simp [find?, store, trim, hcapacity, he]

/-- A new entry gives its key the value, if nothing is dropped for it. -/
theorem find?_store_self (hcapacity : m.capacity = none) (hkey : IsExact key)
    (h : m.find? key = none) (new : ν) : (m.store key new).find? key = some new := by
  have hnone := Option.map_eq_none_iff.1 h
  simp [find?, store, trim, hcapacity, hnone, (hkey key).2 rfl]

/-- However a call ends, a memo without a bound keeps the value of an exact key. -/
theorem Ends.find?_eq_some {ending : Memo κ ν × σ × Except ε ν} (h : Ends m other compute s ending)
    (hcapacity : m.capacity = none) (hkey : IsExact key) (hvalue : m.find? key = some value) :
    ending.1.find? key = some value := by
  cases h with
  | found => rw [find?_refresh hkey, hvalue]
  | computed => exact find?_store_of_some hcapacity hvalue _
  | failed => exact hvalue

/-- A call that gives a value leaves it known. -/
theorem Ends.find?_self {ending : Memo κ ν × σ × Except ε ν} (h : Ends m key compute s ending)
    (hcapacity : m.capacity = none) (hkey : IsExact key) (hvalue : ending.2.2 = .ok value) :
    ending.1.find? key = some value := by
  cases h with
  | found hfound =>
    obtain rfl := Except.ok.inj hvalue
    rw [find?_refresh hkey, hfound]
  | computed hnone =>
    obtain rfl := Except.ok.inj hvalue
    exact find?_store_self hcapacity hkey hnone _
  | failed => exact nomatch hvalue

/-- However a call ends, the capacity stays. -/
theorem Ends.capacity_eq {ending : Memo κ ν × σ × Except ε ν} (h : Ends m key compute s ending) :
    ending.1.capacity = m.capacity := by
  cases h <;> rfl

end Memo

namespace Value

/-- A string is equal to itself only. -/
theorem isExact_str (s : String) : Memo.IsExact (str s) := fun v => by
  refine ⟨eq_str_of_same, fun h => ?_⟩
  rw [h]
  simp [BEq.beq, same, sameLeaf, number?]

/-- A tuple of exact values is exact. -/
theorem isExact_tuple {items : List Value} (h : ∀ v ∈ items, Memo.IsExact v) :
    Memo.IsExact (tuple items) := fun v => by
  have hitems {xs : List Value} : sameItems xs items = true ↔ xs = items := by
    rw [sameItems_iff, ← List.forall₂_eq_eq_eq]
    exact ⟨forall₂_imp_of_mem fun x _ y hy => (h y hy x).1,
      forall₂_imp_of_mem fun x _ y hy => (h y hy x).2⟩
  cases v with
  | tuple xs => simpa [BEq.beq, same] using hitems
  | list | map | set | frozenSet => simp [BEq.beq, same]
  | _ => simp [BEq.beq, same, sameLeaf, number?]

/-- What strings freeze to is exact. -/
theorem IsStrings.isExact {v a : Value} (hv : v.IsStrings) (ha : Freezes v a) : Memo.IsExact a := by
  have hunique {w : Value} (hw : Freezes v w) : a = w := Except.ok.inj ((ha "").symm.trans (hw ""))
  rcases hv.exists_freezes with ⟨s, -, hs⟩ | ⟨names, -, htuple⟩
  · rw [hunique hs]
    exact isExact_str s
  · rw [hunique htuple]
    refine isExact_tuple fun w hw => ?_
    obtain ⟨s, -, rfl⟩ := List.mem_map.1 hw
    exact isExact_str s

/-- The same sequences freeze to the same. -/
theorem SameSequence.freezes_iff {v w a : Value} (h : v.SameSequence w) :
    Freezes v a ↔ Freezes w a := by
  rcases h with rfl | ⟨items, hv, hw⟩
  · rfl
  · exact forall_congr' fun label =>
      (freeze_sequence_eq_ok_iff hv).trans (freeze_sequence_eq_ok_iff hw).symm

end Value

namespace Arguments

/-- The key of a call on strings is exact. -/
theorem isExact_key {v w key : Value} (hv : v.IsStrings) (hw : w.IsStrings)
    (hkey : Arguments.key { positional := [v, w] } = .ok key) : Memo.IsExact key := by
  obtain ⟨a, b, ha, hb, rfl⟩ := key_pair_eq_ok_iff.1 hkey
  refine Value.isExact_tuple fun x hx => ?_
  rcases List.mem_cons.1 hx with rfl | hx
  · exact hv.isExact ha
  · rw [List.mem_singleton.1 hx]
    exact hw.isExact hb

/-- Calls on the same sequences have the same key. -/
theorem key_eq_ok_of_sameSequence {v w v' w' key : Value} (hv : v'.SameSequence v)
    (hw : w'.SameSequence w) (hkey : Arguments.key { positional := [v, w] } = .ok key) :
    Arguments.key { positional := [v', w'] } = .ok key := by
  obtain ⟨a, b, ha, hb, rfl⟩ := key_pair_eq_ok_iff.1 hkey
  exact key_pair_eq_ok_iff.2 ⟨a, b, hv.freezes_iff.2 ha, hw.freezes_iff.2 hb, rfl⟩

end Arguments

end TranslationKeys
