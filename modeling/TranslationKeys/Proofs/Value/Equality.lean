import TranslationKeys.Proofs.Related
import TranslationKeys.Proofs.Value.WellFormed

/-!
# Equality of values

Whether two values are the same item of a collection is decided by a recursion over both values. On
values that can be made this is an equivalence. Equality differs from it in one case: not-a-number
is the same item as itself and equals nothing.
-/

namespace TranslationKeys.Value

/-- What a value without parts is compared by: a whole number is the same in all numeric kinds. -/
inductive LeafForm where
  /-- The absent value. -/
  | null
  /-- A whole number. -/
  | whole (i : Int)
  /-- A double that is no whole number; what is not a number is compared as an object. -/
  | fraction (x : Binary64)
  /-- A string. -/
  | str (s : String)
  /-- A date or a time. -/
  | moment (m : Moment)
  /-- A run of bytes. -/
  | bytes (content : List UInt8)
  /-- An object. -/
  | object (identity : Nat)

/-- What a double is compared by. -/
def floatForm (x : Binary64) : LeafForm := x.toInt?.elim (.fraction x) .whole

/-- What a value is compared by, if it has no parts. -/
def leafForm? : Value → Option LeafForm
  | null => some .null
  | bool b => some (.whole (if b then 1 else 0))
  | int i => some (.whole i)
  | float x => some (floatForm x)
  | str s => some (.str s)
  | moment m => some (.moment m)
  | bytes _ content => some (.bytes content)
  | object i => some (.object i)
  | _ => none

/-- Two canonical doubles are the same number exactly if they are compared by the same form. -/
theorem sameNumber_float_iff {x y : Binary64} (hx : x.isCanonical = true)
    (hy : y.isCanonical = true) : x.sameNumber y = true ↔ floatForm x = floatForm y := by
  have hzero {x : Binary64} (h : x.isZero = true) : x.toInt? = some 0 := by
    cases x with
    | nan | infinite => simp [Binary64.isZero] at h
    | finite s m d =>
      cases m with
      | zero => simp [Binary64.toInt?]
      | succ => simp [Binary64.isZero] at h
  unfold floatForm
  constructor
  · intro h
    rw [Binary64.sameNumber, Bool.or_eq_true, Bool.and_eq_true, beq_iff_eq] at h
    rcases h with ⟨hx0, hy0⟩ | rfl
    · rw [hzero hx0, hzero hy0]
      rfl
    · rfl
  · intro heq
    cases hxi : x.toInt? with
    | some i =>
      cases hyi : y.toInt? with
      | some j =>
        rw [hxi, hyi] at heq
        obtain rfl : i = j := LeafForm.whole.inj heq
        exact Binary64.sameNumber_of_toInt?_eq hx hy hxi hyi
      | none => rw [hxi, hyi] at heq; simp at heq
    | none =>
      cases hyi : y.toInt? with
      | some j => rw [hxi, hyi] at heq; simp at heq
      | none =>
        rw [hxi, hyi] at heq
        obtain rfl : x = y := LeafForm.fraction.inj heq
        simp [Binary64.sameNumber]

/-- A double is compared as a whole number exactly if it equals that integer. -/
@[simp] theorem floatForm_eq_whole_iff {x : Binary64} {i : Int} :
    floatForm x = .whole i ↔ x.toInt? = some i := by
  unfold floatForm
  cases x.toInt? <;> simp

/-- A double is compared as a number and nothing else. -/
theorem floatForm_cases (x : Binary64) :
    (∃ i, floatForm x = .whole i) ∨ floatForm x = .fraction x := by
  unfold floatForm
  cases x.toInt? with
  | none => exact .inr rfl
  | some i => exact .inl ⟨i, rfl⟩

/-- Values without parts are the same item exactly if they are compared by the same form. -/
theorem sameLeaf_iff {a b : Value} (ha : a.isWellFormed = true) (hb : b.isWellFormed = true) :
    sameLeaf a b = true ↔ ∃ form, leafForm? a = some form ∧ leafForm? b = some form := by
  have hfloat {x : Binary64} {form : LeafForm} (hw : ∀ i, form ≠ .whole i)
      (hf : ∀ x, form ≠ .fraction x) : floatForm x ≠ form := fun h => by
    rcases floatForm_cases x with ⟨i, hi⟩ | hx
    · exact hw i (h.symm.trans hi)
    · exact hf x (h.symm.trans hx)
  have hwhole {x : Binary64} {i : Int} : LeafForm.whole i = floatForm x ↔ x.toInt? = some i := by
    rw [eq_comm, floatForm_eq_whole_iff]
  cases a with
  | float x =>
    cases b with
    | float y =>
      have hx : x.isCanonical = true := by simpa [isWellFormed] using ha
      have hy : y.isCanonical = true := by simpa [isWellFormed] using hb
      have hsame : sameLeaf (float x) (float y) = x.sameNumber y := rfl
      rw [hsame, sameNumber_float_iff hx hy]
      simp [leafForm?, eq_comm]
    | bool | int => simp [sameLeaf, number?, sameNumber, leafForm?, hwhole]
    | list | tuple | map | set | frozenSet => simp [sameLeaf, number?, leafForm?]
    | null | str | moment | bytes | object =>
      simp [sameLeaf, number?, leafForm?, (hfloat _ _).symm]
  | bool | int =>
    cases b with
    | float y => simp [sameLeaf, number?, sameNumber, leafForm?]
    | bool | int =>
      simp only [sameLeaf, number?, sameNumber, leafForm?, beq_iff_eq, Option.some.injEq,
        exists_eq_left', LeafForm.whole.injEq]
      exact eq_comm
    | _ => simp [sameLeaf, number?, leafForm?]
  | list | tuple | map | set | frozenSet =>
    cases b <;> simp [sameLeaf, number?, leafForm?]
  | null | str | moment | bytes | object =>
    cases b with
    | float y => simp [sameLeaf, number?, leafForm?, hfloat]
    | str | moment | bytes | object =>
      simp [sameLeaf, number?, leafForm?] <;> exact eq_comm
    | _ => simp [sameLeaf, number?, leafForm?]

/-- A set is not compared as a value without parts. -/
theorem leafForm?_of_setItems? {v : Value} {items : List Value} (h : v.setItems? = some items) :
    v.leafForm? = none := by
  cases v <;> simp [setItems?, leafForm?] at h ⊢

/-- What two values that are the same item look like: two sequences of one kind, two mappings, two
sets, or two values without parts. -/
inductive SameShape : Value → Value → Prop where
  /-- Two lists with the same items. -/
  | list {xs ys : List Value} (h : List.Forall₂ (fun x y => same x y = true) xs ys) :
      SameShape (.list xs) (.list ys)
  /-- Two tuples with the same items. -/
  | tuple {xs ys : List Value} (h : List.Forall₂ (fun x y => same x y = true) xs ys) :
      SameShape (.tuple xs) (.tuple ys)
  /-- Two mappings of one size, each entry of the first being one of the second. -/
  | map {xs ys : List (Value × Value)} (hlength : xs.length = ys.length)
      (h : ∀ e ∈ xs, ∃ f ∈ ys, same e.1 f.1 = true ∧ same e.2 f.2 = true) :
      SameShape (.map xs) (.map ys)
  /-- Two sets of one size, each item of the first being one of the second. -/
  | set {a b : Value} {xs ys : List Value} (ha : a.setItems? = some xs) (hb : b.setItems? = some ys)
      (hlength : xs.length = ys.length) (h : ∀ x ∈ xs, ∃ y ∈ ys, same x y = true) :
      SameShape a b
  /-- Two values without parts. -/
  | leaf {a b : Value} {form : LeafForm} (ha : a.leafForm? = some form)
      (hb : b.leafForm? = some form) : SameShape a b

/-- Sequences have the same items exactly if these are the same, one by one. -/
theorem sameItems_iff {xs ys : List Value} :
    sameItems xs ys = true ↔ List.Forall₂ (fun x y => same x y = true) xs ys := by
  induction xs generalizing ys with
  | nil => cases ys <;> simp [sameItems]
  | cons x xs ih => cases ys <;> simp [sameItems, ih]

/-- Every item of a list is among those of another exactly if each is the same as one of them. -/
theorem itemsAmong_iff {xs ys : List Value} :
    itemsAmong xs ys = true ↔ ∀ x ∈ xs, ∃ y ∈ ys, same x y = true := by
  induction xs with
  | nil => simp [itemsAmong]
  | cons x xs ih => simp [itemsAmong, ih]

/-- Every entry of a mapping is among those of another exactly if each is the same as one of
them. -/
theorem entriesAmong_iff {xs ys : List (Value × Value)} :
    entriesAmong xs ys = true ↔
      ∀ e ∈ xs, ∃ f ∈ ys, same e.1 f.1 = true ∧ same e.2 f.2 = true := by
  induction xs with
  | nil => simp [entriesAmong]
  | cons e xs ih =>
    obtain ⟨k, v⟩ := e
    simp only [entriesAmong, Bool.and_eq_true, List.any_eq_true, ih, List.forall_mem_cons]

/-- Two values are the same item exactly if they look like it. -/
theorem same_iff {a b : Value} (ha : a.isWellFormed = true) (hb : b.isWellFormed = true) :
    same a b = true ↔ SameShape a b := by
  have hleaf (h : same a b = sameLeaf a b) : same a b = true → SameShape a b := fun hsame => by
    obtain ⟨form, hfa, hfb⟩ := (sameLeaf_iff ha hb).1 (h ▸ hsame)
    exact .leaf hfa hfb
  constructor
  · cases a with
    | list xs =>
      cases b with
      | list ys => exact fun h => .list (sameItems_iff.1 (by simpa only [same] using h))
      | _ => simp [same]
    | tuple xs =>
      cases b with
      | tuple ys => exact fun h => .tuple (sameItems_iff.1 (by simpa only [same] using h))
      | _ => simp [same]
    | map xs =>
      cases b with
      | map ys =>
        intro h
        simp only [same, Bool.and_eq_true, beq_iff_eq] at h
        exact .map h.1 (entriesAmong_iff.1 h.2)
      | _ => simp [same]
    | set xs | frozenSet xs =>
      cases b with
      | set ys | frozenSet ys =>
        intro h
        simp only [same, Bool.and_eq_true, beq_iff_eq] at h
        exact .set rfl rfl h.1 (itemsAmong_iff.1 h.2)
      | _ => simp [same]
    | _ => exact hleaf (by simp only [same])
  · intro h
    cases h with
    | list h | tuple h => simp only [same, sameItems_iff.2 h]
    | map hlength h =>
      simp only [same, hlength, entriesAmong_iff.2 h, beq_self_eq_true, Bool.and_self]
    | @set _ _ xs ys hxs hys hlength h =>
      have hamong := itemsAmong_iff.2 h
      cases a <;> simp only [setItems?, reduceCtorEq, Option.some.injEq] at hxs <;> subst hxs <;>
        cases b <;> simp only [setItems?, reduceCtorEq, Option.some.injEq] at hys <;> subst hys <;>
          simp [same, hlength, hamong]
    | leaf hfa hfb =>
      have hsame := (sameLeaf_iff ha hb).2 ⟨_, hfa, hfb⟩
      cases a <;> simp only [leafForm?, reduceCtorEq] at hfa <;> simpa only [same] using hsame

/-- Every value is the same item as itself. -/
theorem same_refl {v : Value} (hv : v.isWellFormed = true) : same v v = true := by
  induction v using induction_parts with
  | step v ih =>
    have hparts : ∀ x ∈ v.parts, same x x = true := fun x hx =>
      ih x hx (isWellFormed_of_mem_parts hv hx)
    rw [same_iff hv hv]
    cases v with
    | list items => exact .list (List.forall₂_same.2 hparts)
    | tuple items => exact .tuple (List.forall₂_same.2 hparts)
    | set items | frozenSet items => exact .set rfl rfl rfl fun x hx => ⟨x, hx, hparts x hx⟩
    | map entries =>
      refine .map rfl fun e he => ?_
      obtain ⟨hpartk, hpartv⟩ := mem_parts_of_mem_entries he
      exact ⟨e, he, hparts e.1 hpartk, hparts e.2 hpartv⟩
    | _ => exact .leaf rfl rfl

/-- Being the same item is transitive. -/
theorem same_trans {a b c : Value} (ha : a.isWellFormed = true) (hb : b.isWellFormed = true)
    (hc : c.isWellFormed = true) (hab : same a b = true) (hbc : same b c = true) :
    same a c = true := by
  induction a using induction_parts generalizing b c with
  | step a ih =>
    rw [same_iff ha hb] at hab
    rw [same_iff hb hc] at hbc
    rw [same_iff ha hc]
    cases hab with
    | @list xs ys hxy =>
      rw [isWellFormed_list] at ha hb
      cases hbc with
      | list hyz =>
        rw [isWellFormed_list] at hc
        refine .list (forall₂_trans (fun x hx y hy z hz hxy hyz => ?_) hxy hyz)
        exact ih x hx (ha x hx) (hb y hy) (hc z hz) hxy hyz
      | set hset => exact nomatch hset
      | leaf hform => exact nomatch hform
    | @tuple xs ys hxy =>
      rw [isWellFormed_tuple] at ha hb
      cases hbc with
      | tuple hyz =>
        rw [isWellFormed_tuple] at hc
        refine .tuple (forall₂_trans (fun x hx y hy z hz hxy hyz => ?_) hxy hyz)
        exact ih x hx (ha x hx) (hb y hy) (hc z hz) hxy hyz
      | set hset => exact nomatch hset
      | leaf hform => exact nomatch hform
    | @map xs ys hxylen hxy =>
      rw [isWellFormed_map] at ha hb
      cases hbc with
      | @map _ zs hyzlen hyz =>
        rw [isWellFormed_map] at hc
        refine .map (hxylen.trans hyzlen) fun e he => ?_
        obtain ⟨f, hf, hkey, hvalue⟩ := hxy e he
        obtain ⟨g, hg, hkey', hvalue'⟩ := hyz f hf
        obtain ⟨hpartk, hpartv⟩ := mem_parts_of_mem_entries he
        exact ⟨g, hg, ih _ hpartk (ha.1 e he).1 (hb.1 f hf).1 (hc.1 g hg).1 hkey hkey',
          ih _ hpartv (ha.1 e he).2 (hb.1 f hf).2 (hc.1 g hg).2 hvalue hvalue'⟩
      | set hset => exact nomatch hset
      | leaf hform => exact nomatch hform
    | @set _ _ xs ys hxs hys hxylen hxy =>
      cases hbc with
      | list | tuple | map => exact nomatch hys
      | @set _ _ ys' zs hys' hzs hyzlen hyz =>
        obtain rfl : ys = ys' := Option.some.inj (hys.symm.trans hys')
        refine .set hxs hzs (hxylen.trans hyzlen) fun x hx => ?_
        obtain ⟨y, hy, hsame⟩ := hxy x hx
        obtain ⟨z, hz, hsame'⟩ := hyz y hy
        exact ⟨z, hz, ih x (parts_of_setItems? hxs ▸ hx) ((isWellFormed_items ha hxs).1 x hx)
          ((isWellFormed_items hb hys).1 y hy) ((isWellFormed_items hc hzs).1 z hz) hsame hsame'⟩
      | leaf hform => exact nomatch (leafForm?_of_setItems? hys).symm.trans hform
    | @leaf _ _ form hfa hfb =>
      cases hbc with
      | list | tuple | map => exact nomatch hfb
      | set hset => exact nomatch (leafForm?_of_setItems? hset).symm.trans hfb
      | @leaf _ _ form' hfb' hfc =>
        obtain rfl : form = form' := Option.some.inj (hfb.symm.trans hfb')
        exact .leaf hfa hfc

/-- Being the same item is symmetric. -/
theorem same_symm {a b : Value} (ha : a.isWellFormed = true) (hb : b.isWellFormed = true)
    (hab : same a b = true) : same b a = true := by
  induction a using induction_parts generalizing b with
  | step a ih =>
    rw [same_iff ha hb] at hab
    rw [same_iff hb ha]
    -- Two items that are the same as one item of the other side are the same.
    have hmeet {x x' y : Value} (hx : x.isWellFormed = true) (hx' : x'.isWellFormed = true)
        (hy : y.isWellFormed = true) (hpart : x ∈ a.parts) (hxy : same x y = true)
        (hxy' : same x' y = true) : same x' x = true :=
      same_trans hx' hy hx hxy' (ih x hpart hx hy hxy)
    cases hab with
    | @list xs ys h =>
      rw [isWellFormed_list] at ha hb
      refine .list (List.Forall₂.flip (forall₂_imp_of_mem (fun x hx y hy hxy => ?_) h))
      exact ih x hx (ha x hx) (hb y hy) hxy
    | @tuple xs ys h =>
      rw [isWellFormed_tuple] at ha hb
      refine .tuple (List.Forall₂.flip (forall₂_imp_of_mem (fun x hx y hy hxy => ?_) h))
      exact ih x hx (ha x hx) (hb y hy) hxy
    | @map xs ys hlength h =>
      rw [isWellFormed_map] at ha hb
      refine .map hlength.symm fun f hf => ?_
      have hapart : xs.Pairwise fun e e' => ∀ f ∈ ys,
          (same e.1 f.1 = true ∧ same e.2 f.2 = true) →
            ¬ (same e'.1 f.1 = true ∧ same e'.2 f.2 = true) := by
        refine ha.2.2.imp_of_mem fun {e e'} he he' hne f hf hef hef' => ?_
        have hkeys := hmeet (ha.1 e he).1 (ha.1 e' he').1 (hb.1 f hf).1
          (mem_parts_of_mem_entries he).1 hef.1 hef'.1
        exact absurd hkeys (by simp [hne])
      obtain ⟨e, he, hkey, hvalue⟩ := exists_mem_of_apart hlength h hapart f hf
      obtain ⟨hpartk, hpartv⟩ := mem_parts_of_mem_entries he
      exact ⟨e, he, ih _ hpartk (ha.1 e he).1 (hb.1 f hf).1 hkey,
        ih _ hpartv (ha.1 e he).2 (hb.1 f hf).2 hvalue⟩
    | @set _ _ xs ys hxs hys hlength h =>
      obtain ⟨hxwf, -, hxne⟩ := isWellFormed_items ha hxs
      obtain ⟨hywf, -, -⟩ := isWellFormed_items hb hys
      refine .set hys hxs hlength.symm fun y hy => ?_
      have hapart : xs.Pairwise fun x x' => ∀ y ∈ ys, same x y = true → ¬ same x' y = true := by
        refine hxne.imp_of_mem fun {x x'} hx hx' hne y hy hxy hxy' => ?_
        have hsame := hmeet (hxwf x hx) (hxwf x' hx') (hywf y hy)
          (parts_of_setItems? hxs ▸ hx) hxy hxy'
        exact absurd hsame (by simp [hne])
      obtain ⟨x, hx, hxy⟩ := exists_mem_of_apart hlength h hapart y hy
      exact ⟨x, hx, ih x (parts_of_setItems? hxs ▸ hx) (hxwf x hx) (hywf y hy) hxy⟩
    | leaf hfa hfb => exact .leaf hfb hfa

/-- Two values are equal exactly if they are the same item and none of them is not-a-number. -/
theorem equals_iff {a b : Value} : equals a b = true ↔ a.isNaN = false ∧ same a b = true := by
  rw [equals, Bool.and_eq_true, Bool.not_eq_true']

end TranslationKeys.Value
