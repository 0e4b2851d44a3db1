import TranslationKeys.Proofs.Memo.Call

/-!
# Keys by their last use

A list of used keys, the latest use first, says which distinct keys were used and in which order:
keep the first occurrence of each. The equality of keys need only be symmetric and transitive. A key
that does not equal itself counts as new each time it is used.
-/

namespace TranslationKeys

/-- Keys with a property can be compared: equality is symmetric and transitive among them. -/
structure Comparable {κ : Type} [BEq κ] (p : κ → Prop) : Prop where
  /-- Equality is symmetric. -/
  symm : ∀ {a b : κ}, p a → p b → (a == b) = true → (b == a) = true
  /-- Equality is transitive. -/
  trans : ∀ {a b c : κ}, p a → p b → p c → (a == b) = true → (b == c) = true → (a == c) = true

namespace Memo

/-- Two keys that stand for one: the same key, or equal ones. -/
def SameKey {κ : Type} [BEq κ] (a b : κ) : Prop := a = b ∨ (a == b) = true

/-- What a memo of a capacity keeps of a list, the most recent item being the first. -/
def kept {α : Type} (capacity : Option Int) (items : List α) : List α :=
  match capacity with
  | none => items
  | some c => items.take c.toNat

/-- Adding an entry and dropping the least recent one if there is no room keeps the most recent
ones. -/
theorem reverse_trim {κ ν : Type} {capacity : Option Int} {entries : List (κ × ν)} {e : κ × ν}
    (hlength : ∀ c ∈ capacity, entries.length ≤ c.toNat) :
    (trim capacity (entries ++ [e])).reverse = kept capacity (e :: entries.reverse) := by
  cases capacity with
  | none => simp [trim, kept]
  | some c =>
    have hle := hlength c rfl
    simp only [trim, kept, List.length_append, List.length_singleton]
    split
    · rename_i hfull
      cases hn : c.toNat with
      | zero =>
        have hnil : entries = [] := List.eq_nil_of_length_eq_zero (by omega)
        simp [hnil]
      | succ n =>
        cases entries with
        | nil => simp at hfull; omega
        | cons first entries =>
          simp only [List.length_cons] at hle hfull
          have hlen : n = entries.reverse.length := by simp; omega
          simp [hlen]
    · rename_i hroom
      rw [List.reverse_append, List.reverse_singleton, List.singleton_append,
        List.take_of_length_le (by simp; omega)]

variable {κ : Type} [BEq κ] {p : κ → Prop}

/-- The distinct keys of a list are among its keys. -/
theorem mem_of_mem_eraseDups {keys : List κ} {a : κ} (h : a ∈ keys.eraseDups) : a ∈ keys := by
  induction hlength : keys.length using Nat.strongRecOn generalizing keys with
  | _ n ih =>
    subst hlength
    cases keys with
    | nil => exact h
    | cons k keys =>
      rw [List.eraseDups_cons, List.mem_cons] at h
      rcases h with rfl | h
      · exact List.mem_cons_self
      · have hlt := List.length_filter_le (fun b => !b == k) keys
        exact List.mem_cons_of_mem _
          (List.mem_filter.1 (ih _ (by simp only [List.length_cons]; omega) h rfl)).1

/-- Removing a key from a list and from its distinct keys is the same. -/
theorem eraseDups_filter_ne (hp : Comparable p) {keys : List κ} {k : κ} (hkeys : ∀ a ∈ keys, p a)
    (hk : p k) :
    (keys.filter fun a => !a == k).eraseDups = keys.eraseDups.filter fun a => !a == k := by
  induction hlength : keys.length using Nat.strongRecOn generalizing keys with
  | _ n ih =>
    subst hlength
    cases keys with
    | nil => rfl
    | cons a keys =>
      obtain ⟨ha, hrest⟩ := List.forall_mem_cons.1 hkeys
      have hlt := List.length_filter_le (fun b => !b == a) keys
      have hleft := ih keys.length (by simp) hrest rfl
      have hright := ih (keys.filter fun b => !b == a).length
        (by simp only [List.length_cons]; omega) (fun b hb => hrest b (List.mem_filter.1 hb).1) rfl
      rw [List.eraseDups_cons, List.filter_cons, List.filter_cons]
      cases hak : a == k with
      | true =>
        -- What differs from the removed key also differs from a key that equals it.
        have hsame : (keys.filter fun b => !b == a).filter (fun b => !b == k) =
            keys.filter fun b => !b == k := by
          rw [List.filter_filter]
          apply List.filter_congr
          intro b hb
          cases hba : b == a with
          | true => simp [hp.trans (hrest b hb) ha hk hba hak]
          | false => simp
        simp only [Bool.not_true, Bool.false_eq_true, if_false]
        rw [← hright, hsame]
      | false =>
        simp only [Bool.not_false, if_true]
        rw [List.eraseDups_cons, List.filter_comm, hright]

/-- A use of a key makes it the most recent one, and leaves the order of the others. -/
theorem eraseDups_cons_filter (hp : Comparable p) {keys : List κ} {k : κ} (hkeys : ∀ a ∈ keys, p a)
    (hk : p k) : (k :: keys).eraseDups = k :: keys.eraseDups.filter fun a => !a == k := by
  rw [List.eraseDups_cons, eraseDups_filter_ne hp hkeys hk]

/-- The keys that are used before the first occurrence of a key come before it among the distinct
ones. -/
theorem eraseDups_append_cons (hp : Comparable p) {before after : List κ} {u : κ} (hu : p u)
    (hbefore : ∀ a ∈ before, p a) (hne : ∀ a ∈ before, (a == u) = false) :
    ∃ rest, (before ++ u :: after).eraseDups = before.eraseDups ++ u :: rest := by
  induction hlength : before.length using Nat.strongRecOn generalizing before after with
  | _ n ih =>
    subst hlength
    cases before with
    | nil => exact ⟨_, by rw [List.nil_append, List.eraseDups_cons]; rfl⟩
    | cons a before =>
      obtain ⟨ha, hrest⟩ := List.forall_mem_cons.1 hbefore
      obtain ⟨hau, hne⟩ := List.forall_mem_cons.1 hne
      have hua : (u == a) = false := by
        cases h : u == a with
        | true => rw [hp.symm hu ha h] at hau; exact hau
        | false => rfl
      have hlt := List.length_filter_le (fun b => !b == a) before
      obtain ⟨rest, hrest⟩ : ∃ rest,
          ((before.filter fun b => !b == a) ++ u :: after.filter fun b => !b == a).eraseDups =
            (before.filter fun b => !b == a).eraseDups ++ u :: rest :=
        ih _ (by simp only [List.length_cons]; omega)
          (fun b hb => hrest b (List.mem_filter.1 hb).1)
          (fun b hb => hne b (List.mem_filter.1 hb).1) rfl
      refine ⟨rest, ?_⟩
      rw [List.cons_append, List.eraseDups_cons, List.eraseDups_cons, List.filter_append,
        List.filter_cons, hua]
      simp only [Bool.not_false, if_true, hrest, List.cons_append]

/-- The distinct keys of a list are pairwise different. -/
theorem pairwise_eraseDups (keys : List κ) :
    keys.eraseDups.Pairwise fun a b => (b == a) = false := by
  induction hlength : keys.length using Nat.strongRecOn generalizing keys with
  | _ n ih =>
    subst hlength
    cases keys with
    | nil => exact .nil
    | cons k keys =>
      have hlt := List.length_filter_le (fun b => !b == k) keys
      rw [List.eraseDups_cons]
      refine .cons (fun b hb => ?_) (ih _ (by simp only [List.length_cons]; omega) _ rfl)
      simpa using (List.mem_filter.1 (mem_of_mem_eraseDups hb)).2

/-- A key that equals one of pairwise different keys equals only that one. -/
theorem exists_split_of_beq (hp : Comparable p) {keys : List κ} {k : κ} (hkeys : ∀ a ∈ keys, p a)
    (hk : p k) (hne : keys.Pairwise fun a b => (b == a) = false)
    (hmem : ∃ u ∈ keys, (u == k) = true) :
    ∃ before u after, keys = before ++ u :: after ∧ (u == k) = true ∧
      (∀ a ∈ before, (a == k) = false) ∧ ∀ a ∈ after, (a == k) = false := by
  obtain ⟨u, hu, huk⟩ := hmem
  obtain ⟨before, after, rfl⟩ := List.append_of_mem hu
  obtain ⟨-, hafter, hbefore⟩ := List.pairwise_append.1 hne
  have hpu : p u := hkeys u hu
  refine ⟨before, u, after, rfl, huk, fun a ha => ?_, fun a ha => ?_⟩
  · have hpa : p a := hkeys a (List.mem_append_left _ ha)
    have hua : (u == a) = false := hbefore a ha u List.mem_cons_self
    cases hak : a == k with
    | true => rw [hp.trans hpu hk hpa huk (hp.symm hpa hk hak)] at hua; exact hua
    | false => rfl
  · have hpa : p a := hkeys a (List.mem_append_right _ (List.mem_cons_of_mem _ ha))
    have hau : (a == u) = false := List.rel_of_pairwise_cons hafter ha
    cases hak : a == k with
    | true => rw [hp.trans hpa hk hpu hak (hp.symm hpu hk huk)] at hau; exact hau
    | false => rfl

/-- Removing what does not equal a key changes nothing if nothing equals the key. -/
theorem filter_ne_eq_self {keys : List κ} {k : κ} (h : ∀ a ∈ keys, (a == k) = false) :
    (keys.filter fun a => !a == k) = keys :=
  List.filter_eq_self.2 fun a ha => by simp [h a ha]

/-- What is kept of a list is a part of it. -/
theorem kept_sublist {α : Type} (capacity : Option Int) (items : List α) :
    (kept capacity items).Sublist items := by
  cases capacity with
  | none => exact List.Sublist.refl items
  | some c => exact List.take_sublist _ _

/-- Lists that are related item by item keep related items. -/
theorem kept_forall₂ {α β : Type} {r : α → β → Prop} (capacity : Option Int) {xs : List α}
    {ys : List β} (h : List.Forall₂ r xs ys) :
    List.Forall₂ r (kept capacity xs) (kept capacity ys) := by
  cases capacity with
  | none => exact h
  | some c => exact List.forall₂_take _ h

/-- A kept key that is used again becomes the first of what is kept. -/
theorem kept_cons_filter_of_mem (hp : Comparable p) {capacity : Option Int} {keys : List κ} {k : κ}
    (hkeys : ∀ a ∈ keys, p a) (hk : p k) (hne : keys.Pairwise fun a b => (b == a) = false)
    (hmem : ∃ u ∈ kept capacity keys, (u == k) = true) :
    kept capacity (k :: keys.filter fun a => !a == k) =
      k :: (kept capacity keys).filter fun a => !a == k := by
  cases capacity with
  | none => rfl
  | some c =>
    obtain ⟨before, u, after, rfl, huk, hbefore, hafter⟩ := exists_split_of_beq hp hkeys hk hne
      (hmem.imp fun u hu => ⟨(kept_sublist _ _).subset hu.1, hu.2⟩)
    -- The place of the key is within the capacity, so that one more of the others is not needed.
    have hlt : before.length < c.toNat := by
      obtain ⟨w, hw, hwk⟩ := hmem
      by_contra hle
      simp only [kept] at hw
      rw [List.take_append_of_le_length (by omega)] at hw
      exact absurd hwk (by simp [hbefore w (List.mem_of_mem_take hw)])
    obtain ⟨n, hn⟩ : ∃ n, c.toNat = before.length + (n + 1) :=
      ⟨c.toNat - before.length - 1, by omega⟩
    have hshort : (after.take n).filter (fun a => !a == k) = after.take n :=
      filter_ne_eq_self fun a ha => hafter a (List.mem_of_mem_take ha)
    have hothers : (before ++ u :: after).filter (fun a => !a == k) = before ++ after := by
      rw [List.filter_append, List.filter_cons, huk, filter_ne_eq_self hbefore,
        filter_ne_eq_self hafter]
      rfl
    have hkept : ((before ++ u :: after).take c.toNat).filter (fun a => !a == k) =
        before ++ after.take n := by
      rw [hn, List.take_length_add_append, List.take_succ_cons, List.filter_append,
        List.filter_cons, huk, filter_ne_eq_self hbefore, hshort]
      rfl
    simp only [kept]
    rw [hothers, hkept, hn, ← Nat.add_assoc, List.take_succ_cons, List.take_length_add_append]

/-- A key that is not kept becomes the first of what is kept, and the others stay as far as there is
room. -/
theorem kept_cons_filter_of_not_mem {capacity : Option Int} {keys : List κ} {k : κ}
    (hmem : ∀ u ∈ kept capacity keys, (u == k) = false) :
    kept capacity (k :: keys.filter fun a => !a == k) =
      kept capacity (k :: kept capacity keys) := by
  cases capacity with
  | none =>
    simp only [kept] at hmem ⊢
    rw [filter_ne_eq_self hmem]
  | some c =>
    simp only [kept] at hmem ⊢
    cases hn : c.toNat with
    | zero => rfl
    | succ n =>
      rw [hn] at hmem
      have hsplit : keys.filter (fun a => !a == k) =
          keys.take (n + 1) ++ (keys.drop (n + 1)).filter fun a => !a == k := by
        conv_lhs => rw [← List.take_append_drop (n + 1) keys]
        rw [List.filter_append, filter_ne_eq_self hmem]
      rw [List.take_succ_cons, List.take_succ_cons, hsplit]
      by_cases hlength : n ≤ (keys.take (n + 1)).length
      · rw [List.take_append_of_le_length hlength]
      · have hshort : keys.drop (n + 1) = [] := by
          rw [List.length_take] at hlength
          exact List.drop_eq_nil_of_le (by omega)
        rw [hshort, List.filter_nil, List.append_nil]

/-- The distinct keys that were used since the last use of a key. -/
def othersSince (keys : List κ) (k : κ) : List κ :=
  (keys.takeWhile fun a => !a == k).eraseDups

/-- Whether a key is new or has been forgotten: it was not used at all, or as many others as there
is room for were used since. -/
def isDue (capacity : Option Int) (keys : List κ) (k : κ) : Bool :=
  keys.all (fun a => !a == k) ||
    capacity.any fun c => decide (c ≤ ((othersSince keys k).length : Int))

/-- An item is kept exactly if there is room for one more than those before it. -/
theorem exists_mem_kept_append_iff {α : Type} {capacity : Option Int} {before after : List α}
    {u : α} {q : α → Prop} (hbefore : ∀ a ∈ before, ¬ q a) (hu : q u) :
    (∃ a ∈ kept capacity (before ++ u :: after), q a) ↔
      ∀ c ∈ capacity, (before.length : Int) < c := by
  cases capacity with
  | none =>
    simp only [kept, Option.mem_def, reduceCtorEq, false_implies, implies_true, iff_true]
    exact ⟨u, by simp, hu⟩
  | some c =>
    simp only [kept, Option.mem_def, Option.some.injEq, forall_eq']
    constructor
    · intro h
      obtain ⟨a, ha, hq⟩ := h
      by_contra hle
      rw [List.take_append_of_le_length (by omega)] at ha
      exact hbefore a (List.mem_of_mem_take ha) hq
    · intro hlt
      obtain ⟨n, hn⟩ : ∃ n, c.toNat = before.length + (n + 1) :=
        ⟨c.toNat - before.length - 1, by omega⟩
      refine ⟨u, ?_, hu⟩
      rw [hn, List.take_length_add_append, List.take_succ_cons]
      simp

/-- A key is due exactly if no key that is kept equals it. -/
theorem isDue_iff (hp : Comparable p) {capacity : Option Int} {keys : List κ} {k : κ}
    (hkeys : ∀ a ∈ keys, p a) (hk : p k) :
    isDue capacity keys k = true ↔ ∀ u ∈ kept capacity keys.eraseDups, (u == k) = false := by
  cases hfind : keys.find? (fun a => a == k) with
  | none =>
    have hnew : ∀ a ∈ keys, (a == k) = false := by simpa using hfind
    have hall : keys.all (fun a => !a == k) = true := by simpa using hnew
    simp only [isDue, hall, Bool.true_or, true_iff]
    exact fun u hu => hnew u (mem_of_mem_eraseDups ((kept_sublist _ _).subset hu))
  | some u =>
    -- The keys used since the last use stand before it among the distinct ones.
    obtain ⟨huk, before, after, rfl, hbefore⟩ := List.find?_eq_some_iff_append.1 hfind
    simp only [Bool.not_eq_true', List.mem_append, List.mem_cons] at huk hbefore hkeys
    have hpu : p u := hkeys u (.inr (.inl rfl))
    have hpbefore : ∀ a ∈ before, p a := fun a ha => hkeys a (.inl ha)
    have hne : ∀ a ∈ before, (a == u) = false := fun a ha => by
      cases hau : a == u with
      | true => rw [← hbefore a ha]; exact (hp.trans (hpbefore a ha) hpu hk hau huk).symm
      | false => rfl
    obtain ⟨rest, hdistinct⟩ : ∃ rest,
        (before ++ u :: after).eraseDups = before.eraseDups ++ u :: rest :=
      eraseDups_append_cons hp hpu hpbefore hne
    have hsince : othersSince (before ++ u :: after) k = before.eraseDups := by
      rw [othersSince, List.takeWhile_append_of_pos (by simpa using hbefore),
        List.takeWhile_cons_of_neg (by simp [huk]), List.append_nil]
    have hused : (before ++ u :: after).all (fun a => !a == k) = false := by simp [huk]
    have hkept : (∃ a ∈ kept capacity (before.eraseDups ++ u :: rest), (a == k) = true) ↔
        ∀ c ∈ capacity, (before.eraseDups.length : Int) < c :=
      exists_mem_kept_append_iff (fun a ha => by simp [hbefore a (mem_of_mem_eraseDups ha)]) huk
    have hnone : (∀ a ∈ kept capacity (before.eraseDups ++ u :: rest), (a == k) = false) ↔
        ¬ ∃ a ∈ kept capacity (before.eraseDups ++ u :: rest), (a == k) = true := by simp
    rw [hdistinct, isDue, hused, hsince, Bool.false_or, hnone, hkept]
    cases capacity <;> simp

/-- An entry stands for a key that was used. -/
def StandsFor {ν : Type} (p : κ → Prop) (e : κ × ν) (k : κ) : Prop := p e.1 ∧ SameKey e.1 k

/-- An entry and the key it stands for equal the same keys. -/
theorem StandsFor.beq_eq {ν : Type} (hp : Comparable p) {e : κ × ν} {u k : κ}
    (h : StandsFor p e u) (hu : p u) (hk : p k) : (e.1 == k) = (u == k) := by
  obtain ⟨he, heq | hbeq⟩ := h
  · rw [heq]
  · rw [Bool.eq_iff_iff]
    exact ⟨hp.trans hu he hk (hp.symm he hu hbeq), hp.trans he hu hk hbeq⟩

/-- The entries of a memo stand for the most recently used distinct keys, in their order. -/
def Tracks {ν : Type} (p : κ → Prop) (m : Memo κ ν) (keys : List κ) : Prop :=
  List.Forall₂ (StandsFor p) m.entries.reverse (kept m.capacity keys.eraseDups)

namespace Tracks

variable {ν : Type} {m : Memo κ ν} {keys : List κ} {k : κ}

/-- A memo without entries has tracked no use. -/
theorem of_entries_eq_nil (h : m.entries = []) : Tracks p m [] := by
  have hkept : kept m.capacity ([] : List κ) = [] := by
    unfold kept
    split <;> simp
  rw [Tracks, h, List.eraseDups_nil, hkept]
  exact .nil

/-- All keys that are kept have the property that all used keys have. -/
theorem of_mem_kept (hkeys : ∀ a ∈ keys, p a) :
    ∀ u ∈ kept m.capacity keys.eraseDups, p u :=
  fun u hu => hkeys u (mem_of_mem_eraseDups ((kept_sublist _ _).subset hu))

/-- The keys of all entries have the property. -/
theorem of_mem_entries (h : Tracks p m keys) {e : κ × ν} (he : e ∈ m.entries) : p e.1 := by
  obtain ⟨u, -, heu⟩ := exists_mem_right_of_forall₂ h (List.mem_reverse.2 he)
  exact heu.1

/-- A key is looked up in vain exactly if it is due. -/
theorem find?_eq_none_iff (hp : Comparable p) (h : Tracks p m keys) (hkeys : ∀ a ∈ keys, p a)
    (hk : p k) : m.find? k = none ↔ isDue m.capacity keys k = true := by
  rw [isDue_iff hp hkeys hk, find?, Option.map_eq_none_iff, List.find?_eq_none]
  constructor
  · intro hnone u hu
    obtain ⟨e, he, heu⟩ := exists_mem_left_of_forall₂ h hu
    rw [← heu.beq_eq hp (of_mem_kept hkeys u hu) hk]
    simpa using hnone e (List.mem_reverse.1 he)
  · intro hnone e he
    obtain ⟨u, hu, heu⟩ := exists_mem_right_of_forall₂ h (List.mem_reverse.2 he)
    rw [heu.beq_eq hp (of_mem_kept hkeys u hu) hk]
    simp [hnone u hu]

/-- Entries and the keys they stand for are selected alike by a comparison with a key. -/
theorem filter (hp : Comparable p) (h : Tracks p m keys) (hkeys : ∀ a ∈ keys, p a) (hk : p k)
    (q : Bool → Bool) :
    List.Forall₂ (StandsFor p) (m.entries.reverse.filter fun e => q (e.1 == k))
      ((kept m.capacity keys.eraseDups).filter fun u => q (u == k)) := by
  have hboth : List.Forall₂ (fun e u => StandsFor p e u ∧ (e.1 == k) = (u == k))
      m.entries.reverse (kept m.capacity keys.eraseDups) :=
    forall₂_imp_of_mem (fun e _ u hu heu => ⟨heu, heu.beq_eq hp (of_mem_kept hkeys u hu) hk⟩) h
  refine (List.rel_filter (fun e u heu => ?_) hboth).imp fun _ _ heu => heu.1
  show q (e.1 == k) = true ↔ q (u == k) = true
  rw [heu.2]

/-- A use of a key that is found keeps the entries in the order of use. -/
theorem refresh (hp : Comparable p) (h : Tracks p m keys) (hkeys : ∀ a ∈ keys, p a) (hk : p k)
    (hfound : m.find? k ≠ none) : Tracks p (m.refresh k) (k :: keys) := by
  have hdistinct := pairwise_eraseDups keys
  have hpdistinct : ∀ a ∈ keys.eraseDups, p a := fun a ha => hkeys a (mem_of_mem_eraseDups ha)
  have hmem : ∃ u ∈ kept m.capacity keys.eraseDups, (u == k) = true := by
    rw [Ne, h.find?_eq_none_iff hp hkeys hk, isDue_iff hp hkeys hk] at hfound
    simpa using hfound
  -- Exactly one kept key equals the used one, so exactly one entry does.
  obtain ⟨before, u, after, hsplit, huk, hbefore, hafter⟩ := exists_split_of_beq hp
    (of_mem_kept hkeys) hk (hdistinct.sublist (kept_sublist m.capacity _)) hmem
  have honly : (kept m.capacity keys.eraseDups).filter (fun u => u == k) = [u] := by
    rw [hsplit, List.filter_append, List.filter_cons, huk,
      List.filter_eq_nil_iff.2 (by simpa using hbefore),
      List.filter_eq_nil_iff.2 (by simpa using hafter)]
    rfl
  obtain ⟨e, hentry, hek⟩ : ∃ e : κ × ν,
      m.entries.reverse.filter (fun e => e.1 == k) = [e] ∧ StandsFor p e k := by
    have hentries := h.filter hp hkeys hk id
    simp only [id_eq, honly] at hentries
    obtain ⟨e, rest, heu, hrest, hentry⟩ := List.forall₂_cons_right_iff.1 hentries
    rw [List.forall₂_nil_right_iff] at hrest
    subst hrest
    have hmem : e ∈ m.entries.reverse.filter fun e => e.1 == k := by simp [hentry]
    exact ⟨e, hentry, heu.1, .inr (List.mem_filter.1 hmem).2⟩
  have hothers := h.filter hp hkeys hk not
  rw [Tracks, eraseDups_cons_filter hp hkeys hk]
  simp only [Memo.refresh]
  rw [kept_cons_filter_of_mem hp hpdistinct hk hdistinct hmem, List.reverse_append,
    ← List.filter_reverse, ← List.filter_reverse, hentry]
  exact .cons hek hothers

/-- A use of a key that is not found keeps the entries in the order of use. -/
theorem store (hp : Comparable p) (h : Tracks p m keys) (hkeys : ∀ a ∈ keys, p a) (hk : p k)
    (hnone : m.find? k = none) (value : ν) : Tracks p (m.store k value) (k :: keys) := by
  have hmem : ∀ u ∈ kept m.capacity keys.eraseDups, (u == k) = false := by
    rwa [h.find?_eq_none_iff hp hkeys hk, isDue_iff hp hkeys hk] at hnone
  have hlength : ∀ c ∈ m.capacity, m.entries.length ≤ c.toNat := fun c hc => by
    have hlen := h.length_eq
    rw [hc, List.length_reverse] at hlen
    simp only [kept, List.length_take] at hlen
    omega
  rw [Tracks, eraseDups_cons_filter hp hkeys hk]
  simp only [Memo.store]
  rw [reverse_trim hlength, kept_cons_filter_of_not_mem hmem]
  exact kept_forall₂ _ (.cons ⟨hk, .inl rfl⟩ h)

end Tracks

end Memo

end TranslationKeys
