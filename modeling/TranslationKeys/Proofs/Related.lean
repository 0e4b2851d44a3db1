import Mathlib.Data.List.Forall2

/-!
# Related lists

Facts on two lists that are related item by item, or item to some item, used wherever a collection
is compared with another or with what was made of it. What steps that may fail make of a list is
such a relation, and so is what a map makes of the items that were selected.
-/

namespace TranslationKeys

/-- Two steps one after the other succeed exactly if both do. -/
theorem bind_eq_ok_iff {ε α β : Type} {x : Except ε α} {f : α → Except ε β} {b : β} :
    (x >>= f) = .ok b ↔ ∃ a, x = .ok a ∧ f a = .ok b := by
  cases x <;> simp [bind, Except.bind]

/-- What is made of a list item by item is a map. -/
theorem eq_map_of_cons {α β : Type} {f : α → β} {each : List α → List β} (hnil : each [] = [])
    (hcons : ∀ x xs, each (x :: xs) = f x :: each xs) (xs : List α) : each xs = xs.map f := by
  induction xs with
  | nil => exact hnil
  | cons x xs ih => rw [hcons, ih, List.map_cons]

/-- Taking a step for each item of a list succeeds exactly if each step does. -/
theorem mapM_eq_ok_iff {ε α β : Type} {f : α → Except ε β} {xs : List α} {ys : List β} :
    xs.mapM f = .ok ys ↔ List.Forall₂ (fun x y => f x = .ok y) xs ys := by
  induction xs generalizing ys with
  | nil => cases ys <;> simp [pure, Except.pure]
  | cons x xs ih =>
    simp only [List.mapM_cons, bind_eq_ok_iff, ih]
    constructor
    · intro h
      obtain ⟨y, hy, zs, hzs, hys⟩ := h
      obtain rfl : y :: zs = ys := Except.ok.inj hys
      exact .cons hy hzs
    · intro h
      rcases h with _ | ⟨hy, hys⟩
      exact ⟨_, hy, _, hys, rfl⟩

/-- Taking a step for each item of a list fails exactly as the first step that fails does. -/
theorem mapM_eq_error_iff {ε α β : Type} {f : α → Except ε β} {xs : List α} {e : ε} :
    xs.mapM f = .error e ↔ ∃ before x after, xs = before ++ x :: after ∧
      (∀ y ∈ before, ∃ b, f y = .ok b) ∧ f x = .error e := by
  induction xs with
  | nil => simp [pure, Except.pure]
  | cons x xs ih =>
    rw [List.mapM_cons]
    cases hx : f x with
    | error e' =>
      constructor
      · intro h
        obtain rfl : e' = e := Except.error.inj h
        exact ⟨[], x, xs, rfl, fun _ hy => absurd hy List.not_mem_nil, hx⟩
      · intro h'
        obtain ⟨before, y, after, hsplit, hbefore, hy⟩ := h'
        cases before with
        | nil =>
          obtain ⟨rfl, -⟩ := List.cons.inj hsplit
          obtain rfl : e' = e := Except.error.inj (hx.symm.trans hy)
          rfl
        | cons z before =>
          obtain ⟨rfl, -⟩ := List.cons.inj hsplit
          obtain ⟨b, hb⟩ := hbefore x List.mem_cons_self
          exact nomatch hx.symm.trans hb
    | ok b =>
      have hrest : (Except.ok b >>= fun b => xs.mapM f >>= fun bs => pure (b :: bs)) = .error e ↔
          xs.mapM f = .error e := by
        cases xs.mapM f <;> simp [bind, Except.bind, pure, Except.pure]
      rw [hrest, ih]
      constructor
      · intro h'
        obtain ⟨before, y, after, rfl, hbefore, hy⟩ := h'
        exact ⟨x :: before, y, after, rfl, List.forall_mem_cons.2 ⟨⟨b, hx⟩, hbefore⟩, hy⟩
      · intro h'
        obtain ⟨before, y, after, hsplit, hbefore, hy⟩ := h'
        cases before with
        | nil =>
          obtain ⟨rfl, -⟩ := List.cons.inj hsplit
          exact nomatch hx.symm.trans hy
        | cons z before =>
          obtain ⟨-, rfl⟩ := List.cons.inj hsplit
          exact ⟨before, y, after, rfl, fun w hw => hbefore w (List.mem_cons_of_mem _ hw), hy⟩

/-- Among what a map makes of the selected items of a list, there is one with a property before
which all others have another exactly if there is such a one among the selected items. -/
theorem exists_split_map_filter_iff {α β : Type} {xs : List α} {q : α → Prop} [DecidablePred q]
    {f : α → β} {r s : β → Prop} :
    (∃ before y after, (xs.filter q).map f = before ++ y :: after ∧ (∀ z ∈ before, r z) ∧ s y) ↔
      ∃ before x after, xs = before ++ x :: after ∧ q x ∧ (∀ w ∈ before, q w → r (f w)) ∧
        s (f x) := by
  constructor
  · intro h
    obtain ⟨_, _, _, hsplit, hbefore, hs⟩ := h
    obtain ⟨kept, rest, hkept, rfl, hrest⟩ := List.map_eq_append_iff.1 hsplit
    obtain ⟨x, after, rfl, rfl, -⟩ := List.map_eq_cons_iff.1 hrest
    obtain ⟨front, back, rfl, rfl, hback⟩ := List.filter_eq_append_iff.1 hkept
    obtain ⟨skipped, after, rfl, hskipped, hx, -⟩ := List.filter_eq_cons_iff.1 hback
    refine ⟨front ++ skipped, x, after, by rw [List.append_assoc], of_decide_eq_true hx,
      fun w hw hq => ?_, hs⟩
    rcases List.mem_append.1 hw with hw | hw
    · exact hbefore (f w) (List.mem_map_of_mem (List.mem_filter.2 ⟨hw, decide_eq_true hq⟩))
    · exact absurd (decide_eq_true hq) (hskipped w hw)
  · intro h
    obtain ⟨before, x, after, rfl, hx, hbefore, hs⟩ := h
    refine ⟨(before.filter q).map f, f x, (after.filter q).map f, ?_, fun z hz => ?_, hs⟩
    · simp only [List.filter_append, List.filter_cons, hx, decide_true, if_true, List.map_append,
        List.map_cons]
    · obtain ⟨w, hw, rfl⟩ := List.mem_map.1 hz
      obtain ⟨hw, hq⟩ := List.mem_filter.1 hw
      exact hbefore w hw (of_decide_eq_true hq)

/-- Two lists are related item by item by what the relation of their items implies. -/
theorem forall₂_imp_of_mem {α β : Type} {r s : α → β → Prop} {xs : List α} {ys : List β}
    (himp : ∀ x ∈ xs, ∀ y ∈ ys, r x y → s x y) (h : List.Forall₂ r xs ys) :
    List.Forall₂ s xs ys := by
  induction h with
  | nil => exact .nil
  | @cons x y xs ys hxy _ ih =>
    refine .cons (himp x List.mem_cons_self y List.mem_cons_self hxy) (ih ?_)
    exact fun x hx y hy => himp x (List.mem_cons_of_mem _ hx) y (List.mem_cons_of_mem _ hy)

/-- Related items of two lists stay related in steps: if the first are related to the second and the
second to the third, and relations of items compose, then the first are related to the third. -/
theorem forall₂_trans {α : Type} {r : α → α → Prop} {xs ys zs : List α}
    (hcomp : ∀ x ∈ xs, ∀ y ∈ ys, ∀ z ∈ zs, r x y → r y z → r x z)
    (hxy : List.Forall₂ r xs ys) (hyz : List.Forall₂ r ys zs) : List.Forall₂ r xs zs := by
  induction hxy generalizing zs with
  | nil => cases hyz; exact .nil
  | @cons x y xs ys hxy _ ih =>
    cases hyz with
    | @cons _ z _ zs hyz hrest =>
      refine .cons (hcomp x List.mem_cons_self y List.mem_cons_self z List.mem_cons_self hxy hyz) ?_
      exact ih (fun x hx y hy z hz => hcomp x (List.mem_cons_of_mem _ hx) y
        (List.mem_cons_of_mem _ hy) z (List.mem_cons_of_mem _ hz)) hrest

/-- Every item of the first of two related lists has one of the second that it is related to. -/
theorem exists_mem_right_of_forall₂ {α β : Type} {r : α → β → Prop} {xs : List α} {ys : List β}
    (h : List.Forall₂ r xs ys) {x : α} (hx : x ∈ xs) : ∃ y ∈ ys, r x y := by
  induction h with
  | nil => exact absurd hx List.not_mem_nil
  | @cons a b _ _ hab _ ih =>
    rcases List.mem_cons.1 hx with rfl | hx
    · exact ⟨b, List.mem_cons_self, hab⟩
    · obtain ⟨y, hy, hxy⟩ := ih hx
      exact ⟨y, List.mem_cons_of_mem _ hy, hxy⟩

/-- Every item of the second of two related lists has one of the first that is related to it. -/
theorem exists_mem_left_of_forall₂ {α β : Type} {r : α → β → Prop} {xs : List α} {ys : List β}
    (h : List.Forall₂ r xs ys) {y : β} (hy : y ∈ ys) : ∃ x ∈ xs, r x y :=
  exists_mem_right_of_forall₂ (r := fun y x => r x y) h.flip hy

/-- Each item of a list is related to something exactly if the list is related to another one. -/
theorem exists_forall₂_iff {α β : Type} {r : α → β → Prop} {xs : List α} :
    (∃ ys, List.Forall₂ r xs ys) ↔ ∀ x ∈ xs, ∃ y, r x y := by
  constructor
  · intro h x hx
    obtain ⟨ys, h⟩ := h
    obtain ⟨y, -, hxy⟩ := exists_mem_right_of_forall₂ h hx
    exact ⟨y, hxy⟩
  · intro h
    induction xs with
    | nil => exact ⟨[], .nil⟩
    | cons x xs ih =>
      obtain ⟨⟨y, hxy⟩, hrest⟩ := List.forall_mem_cons.1 h
      obtain ⟨ys, hys⟩ := ih hrest
      exact ⟨y :: ys, .cons hxy hys⟩

/-- Of two related lists, both or none are empty. -/
theorem isEmpty_eq_of_forall₂ {α β : Type} {r : α → β → Prop} {xs : List α} {ys : List β}
    (h : List.Forall₂ r xs ys) : xs.isEmpty = ys.isEmpty := by
  cases h <;> rfl

/-- Lists that end in one more item each are related exactly if they are without it and the last
items are. -/
theorem forall₂_append_singleton_iff {α β : Type} {r : α → β → Prop} {xs : List α} {ys : List β}
    {x : α} {y : β} :
    List.Forall₂ r (xs ++ [x]) (ys ++ [y]) ↔ List.Forall₂ r xs ys ∧ r x y := by
  rw [← List.forall₂_reverse_iff, List.reverse_append, List.reverse_append, List.reverse_singleton,
    List.reverse_singleton, List.singleton_append, List.singleton_append, List.forall₂_cons,
    List.forall₂_reverse_iff, and_comm]

/-- If two lists have one length, every item of the first is related to one of the second, and no
two items of the first are related to the same one, then every item of the second is reached. -/
theorem exists_mem_of_apart {α β : Type} {r : α → β → Prop} {xs : List α} {ys : List β}
    (hlength : xs.length = ys.length) (hxs : ∀ x ∈ xs, ∃ y ∈ ys, r x y)
    (hapart : xs.Pairwise fun x x' => ∀ y ∈ ys, r x y → ¬ r x' y) : ∀ y ∈ ys, ∃ x ∈ xs, r x y := by
  induction xs generalizing ys with
  | nil =>
    intro y hy
    rw [List.eq_nil_of_length_eq_zero hlength.symm] at hy
    exact absurd hy List.not_mem_nil
  | cons x xs ih =>
    obtain ⟨y, hy, hxy⟩ := hxs x List.mem_cons_self
    obtain ⟨hx, hrest⟩ := List.pairwise_cons.1 hapart
    obtain ⟨before, after, rfl⟩ := List.append_of_mem hy
    -- What is left of the second list is reached by what is left of the first.
    have hsub : ∀ z ∈ before ++ after, z ∈ before ++ y :: after := fun z hz => by
      rcases List.mem_append.1 hz with hz | hz <;> simp [hz]
    have hleft : ∀ x' ∈ xs, ∃ z ∈ before ++ after, r x' z := fun x' hx' => by
      obtain ⟨z, hz, hxz⟩ := hxs x' (List.mem_cons_of_mem _ hx')
      have hne : z ≠ y := fun heq => hx x' hx' y hy hxy (heq ▸ hxz)
      exact ⟨z, by simpa [hne] using hz, hxz⟩
    have hlength' : xs.length = (before ++ after).length := by
      simp only [List.length_cons, List.length_append] at hlength ⊢
      omega
    have hreached := ih hlength' hleft (hrest.imp fun h z hz => h z (hsub z hz))
    intro z hz
    by_cases hzy : z = y
    · exact ⟨x, List.mem_cons_self, hzy ▸ hxy⟩
    · obtain ⟨x', hx', hxz⟩ := hreached z (by simpa [hzy] using hz)
      exact ⟨x', List.mem_cons_of_mem _ hx', hxz⟩

/-- Of two different items of a pairwise related list, one is related to the other. -/
theorem eq_or_rel_of_pairwise {α : Type} {r : α → α → Prop} {xs : List α} (h : xs.Pairwise r)
    {x y : α} (hx : x ∈ xs) (hy : y ∈ xs) : x = y ∨ r x y ∨ r y x := by
  induction h with
  | nil => exact absurd hx List.not_mem_nil
  | @cons a xs hhead _ ih =>
    rcases List.mem_cons.1 hx with hxa | hx'
    · rcases List.mem_cons.1 hy with hya | hy'
      · exact .inl (hxa.trans hya.symm)
      · exact .inr (.inl (hxa ▸ hhead y hy'))
    · rcases List.mem_cons.1 hy with hya | hy'
      · exact .inr (.inr (hya ▸ hhead x hx'))
      · exact ih hx' hy'

/-- The item of one list at an index is related to that of the other at the same index. -/
theorem exists_getElem?_of_forall₂ {α β : Type} {r : α → β → Prop} {xs : List α} {ys : List β}
    (h : List.Forall₂ r xs ys) {i : Nat} {x : α} (hx : xs[i]? = some x) :
    ∃ y, ys[i]? = some y ∧ r x y := by
  induction h generalizing i with
  | nil => exact nomatch hx
  | @cons a b xs ys hab _ ih =>
    cases i with
    | zero =>
      obtain rfl : a = x := Option.some.inj hx
      exact ⟨b, rfl, hab⟩
    | succ i => exact ih hx

/-- Two maps of one list are related item by item if what they make of each item is. -/
theorem forall₂_map_map {α β γ : Type} {r : α → β → Prop} {f : γ → α} {g : γ → β} {xs : List γ}
    (h : ∀ x ∈ xs, r (f x) (g x)) : List.Forall₂ r (xs.map f) (xs.map g) :=
  List.forall₂_map_left_iff.2 (List.forall₂_map_right_iff.2 (List.forall₂_same.2 h))

/-- Maps that agree on related items make the same list of related lists. -/
theorem map_eq_map_of_forall₂ {α β γ : Type} {r : α → β → Prop} {f : α → γ} {g : β → γ}
    {xs : List α} {ys : List β} (hfg : ∀ {x y}, r x y → f x = g y) (h : List.Forall₂ r xs ys) :
    xs.map f = ys.map g := by
  induction h with
  | nil => rfl
  | cons hxy _ ih => rw [List.map_cons, List.map_cons, hfg hxy, ih]

/-- Related lists whose orders agree stay related when they are sorted. -/
theorem forall₂_mergeSort {α β : Type} {r : α → β → Prop} {le : α → α → Bool} {le' : β → β → Bool}
    (hle : ∀ {x x' y y'}, r x y → r x' y' → le x x' = le' y y') {xs : List α} {ys : List β}
    (h : List.Forall₂ r xs ys) : List.Forall₂ r (xs.mergeSort le) (ys.mergeSort le') := by
  obtain ⟨hlength, hzip⟩ := List.forall₂_iff_zip.1 h
  -- The pairs of related items are sorted by their first parts, which is by their second parts too.
  have hxs : (xs.zip ys).map Prod.fst = xs := List.map_fst_zip (Nat.le_of_eq hlength)
  have hys : (xs.zip ys).map Prod.snd = ys := List.map_snd_zip (Nat.le_of_eq hlength.symm)
  have hfst : ((xs.zip ys).mergeSort fun p q => le p.1 q.1).map Prod.fst = xs.mergeSort le := by
    rw [List.map_mergeSort (s := le) (fun _ _ _ _ => rfl), hxs]
  have hsnd : ((xs.zip ys).mergeSort fun p q => le p.1 q.1).map Prod.snd = ys.mergeSort le' := by
    rw [List.map_mergeSort (s := le') (fun p hp q hq => hle (hzip hp) (hzip hq)), hys]
  rw [← hfst, ← hsnd]
  exact forall₂_map_map fun p hp => hzip ((List.mergeSort_perm _ _).mem_iff.1 hp)

/-- Two steps both fail for one cause, or both succeed with related results. -/
inductive EndsAlike {ε α β : Type} (r : α → β → Prop) : Except ε α → Except ε β → Prop where
  | ok {a : α} {b : β} (h : r a b) : EndsAlike r (.ok a) (.ok b)
  | error (e : ε) : EndsAlike r (.error e) (.error e)

namespace EndsAlike

variable {ε α β α' β' : Type} {r : α → β → Prop} {s : α' → β' → Prop}
  {x : Except ε α} {y : Except ε β}

/-- Steps that end alike, followed by steps that end alike on related results, end alike. -/
theorem bind (h : EndsAlike r x y) {f : α → Except ε α'} {g : β → Except ε β'}
    (hfg : ∀ {a b}, r a b → EndsAlike s (f a) (g b)) : EndsAlike s (x >>= f) (y >>= g) := by
  cases h with
  | ok hab => exact hfg hab
  | error e => exact .error e

/-- If one of two steps that end alike succeeds, the other does, with a related result. -/
theorem exists_of_eq_ok (h : EndsAlike r x y) {a : α} (hx : x = .ok a) :
    ∃ b, y = .ok b ∧ r a b := by
  cases h with
  | ok hab =>
    obtain rfl := Except.ok.inj hx
    exact ⟨_, rfl, hab⟩
  | error e => exact nomatch hx

/-- Equal steps end alike. -/
theorem of_eq {x y : Except ε α} (h : x = y) : EndsAlike Eq x y := by
  subst h
  cases x with
  | ok a => exact .ok rfl
  | error e => exact .error e

/-- Steps that end alike with equal results are equal. -/
theorem eq {x y : Except ε α} (h : EndsAlike Eq x y) : x = y := by
  cases h with
  | ok hab => rw [hab]
  | error e => rfl

/-- Steps taken for each item of related lists end alike if the steps for related items do. -/
theorem mapM {q : α → β → Prop} {f : α → Except ε α'} {g : β → Except ε β'} {xs : List α}
    {ys : List β} (h : List.Forall₂ q xs ys)
    (hfg : ∀ {a b}, a ∈ xs → b ∈ ys → q a b → EndsAlike s (f a) (g b)) :
    EndsAlike (List.Forall₂ s) (xs.mapM f) (ys.mapM g) := by
  induction h with
  | nil => exact .ok .nil
  | cons hab _ ih =>
    rw [List.mapM_cons, List.mapM_cons]
    refine (hfg List.mem_cons_self List.mem_cons_self hab).bind fun hhead => ?_
    refine (ih fun ha hb => hfg (List.mem_cons_of_mem _ ha) (List.mem_cons_of_mem _ hb)).bind ?_
    exact fun htail => .ok (.cons hhead htail)

/-- Steps that end alike come to the same if related results do. -/
theorem map_eq {γ : Type} (h : EndsAlike r x y) {f : α → γ} {g : β → γ}
    (hfg : ∀ {a b}, r a b → f a = g b) : x.map f = y.map g := by
  cases h with
  | ok hab => exact congrArg Except.ok (hfg hab)
  | error e => rfl

end EndsAlike

end TranslationKeys
