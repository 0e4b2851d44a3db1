import TranslationKeys.Html.Reference
import TranslationKeys.Proofs.Causes
import Mathlib.Data.List.TakeDrop
import Mathlib.Data.List.TakeWhile

/-!
# Texts that cannot be unescaped

Character references are replaced in every text but those with a decimal reference of more digits
than are read as an integer.
-/

namespace TranslationKeys.Html

/-- A text holds a decimal reference with more digits than are read. -/
def HoldsLongReference (cs : List Char) : Prop :=
  ∃ digits, Integer.maxDigits < digits.length ∧ (∀ c ∈ digits, isDigitOf 10 c = true) ∧
    '&' :: '#' :: digits <:+: cs

/-- What a part of a text holds is held by the text. -/
theorem HoldsLongReference.mono {part cs : List Char} (h : HoldsLongReference part)
    (hpart : part <:+: cs) : HoldsLongReference cs := by
  obtain ⟨digits, hlong, hdigits, hinfix⟩ := h
  exact ⟨digits, hlong, hdigits, hinfix.trans hpart⟩

/-- Digits at the beginning of a text and what comes after them make up the text. -/
theorem span_eq {p : Char → Bool} {cs first last : List Char} (h : cs.span p = (first, last)) :
    cs = first ++ last ∧ ∀ c ∈ first, p c = true := by
  rw [List.span_eq_takeWhile_dropWhile] at h
  obtain ⟨rfl, rfl⟩ := Prod.mk.inj h
  exact ⟨List.takeWhile_append_dropWhile.symm, fun c hc => List.mem_takeWhile_imp hc⟩

/-- Dropping a semicolon leaves an end of the text. -/
theorem dropSemicolon_suffix (cs : List Char) : dropSemicolon cs <:+ cs := by
  unfold dropSemicolon
  split
  · exact List.suffix_cons _ _
  · exact List.suffix_rfl

/-- What comes after a reference is the rest of the text, and a decimal reference has its digits
there. -/
theorem of_reference? {cs after : List Char} {reference : Reference}
    (h : reference? cs = some (reference, after)) :
    after <:+ cs ∧ ∀ n decimals, reference = .number n decimals → 0 < decimals →
      ∃ digits, digits.length = decimals ∧ (∀ c ∈ digits, isDigitOf 10 c = true) ∧
        '#' :: digits <+: cs := by
  unfold reference? at h
  split at h
  · rename_i rest
    split at h
    · rename_i d ds tail hspan
      obtain ⟨rfl, hdigits⟩ := span_eq hspan
      obtain ⟨rfl, rfl⟩ := Prod.mk.inj (Option.some.inj h)
      refine ⟨((dropSemicolon_suffix tail).trans (List.suffix_append _ _)).trans
        (List.suffix_cons _ _), fun n decimals heq _ => ?_⟩
      obtain ⟨-, rfl⟩ := Reference.number.inj heq
      exact ⟨d :: ds, rfl, hdigits, tail, rfl⟩
    · rename_i x tail hspan
      obtain ⟨rfl, -⟩ := span_eq hspan
      split at h
      · split at h
        · rename_i d ds after' hspan'
          obtain ⟨rfl, -⟩ := span_eq hspan'
          obtain ⟨rfl, rfl⟩ := Prod.mk.inj (Option.some.inj h)
          refine ⟨(dropSemicolon_suffix after').trans ?_, fun n decimals heq hpos => ?_⟩
          · exact (List.suffix_append (d :: ds) after').trans
              ((List.suffix_cons x _).trans (List.suffix_cons '#' _))
          · obtain ⟨-, rfl⟩ := Reference.number.inj heq
            exact absurd hpos (Nat.lt_irrefl 0)
        · exact nomatch h
      · exact nomatch h
    · exact nomatch h
  · simp only at h
    split at h
    · exact nomatch h
    · split at h
      · rename_i tail htail
        obtain ⟨rfl, rfl⟩ := Prod.mk.inj (Option.some.inj h)
        refine ⟨(List.suffix_cons ';' _).trans (htail ▸ List.drop_suffix _ cs), ?_⟩
        exact fun n decimals heq => nomatch heq
      · obtain ⟨rfl, rfl⟩ := Prod.mk.inj (Option.some.inj h)
        exact ⟨List.drop_suffix _ cs, fun n decimals heq => nomatch heq⟩

/-- A reference is replaced unless it is a decimal one with too many digits. -/
theorem Reference.replacement_eq_error {reference : Reference} {e : Failure}
    (h : reference.replacement = .error e) :
    e = .numeralTooLong ∧ ∃ n decimals, reference = .number n decimals ∧
      Integer.maxDigits < decimals := by
  cases reference with
  | name cs => exact nomatch h
  | number n decimals =>
    simp only [replacement] at h
    split at h
    · rename_i hlong
      exact ⟨(Except.error.inj h).symm, n, decimals, rfl, hlong⟩
    · exact nomatch h

/-- References are replaced in every text without an overlong one. -/
theorem failsOnlyBy_unescapeWithin (fuel : Nat) (cs : List Char) :
    FailsOnlyBy (fun e => e = .numeralTooLong ∧ HoldsLongReference cs)
      (unescapeWithin fuel cs) := by
  -- What fails in the rest of a text fails in the text.
  have hrest {fuel : Nat} {after cs : List Char} (hafter : after <:+ cs)
      (h : FailsOnlyBy (fun e => e = .numeralTooLong ∧ HoldsLongReference after)
        (unescapeWithin fuel after)) :
      FailsOnlyBy (fun e => e = .numeralTooLong ∧ HoldsLongReference cs)
        (unescapeWithin fuel after) :=
    h.imp fun e he => ⟨he.1, he.2.mono hafter.isInfix⟩
  induction fuel generalizing cs with
  | zero => cases cs <;> exact .ok _
  | succ fuel ih =>
    cases cs with
    | nil => exact .ok _
    | cons c cs =>
      have hkept : FailsOnlyBy (fun e => e = .numeralTooLong ∧ HoldsLongReference (c :: cs))
          (unescapeWithin fuel cs >>= fun rest => pure (c :: rest)) :=
        .bind (hrest (List.suffix_cons c cs) (ih cs)) fun _ _ => .pure _
      unfold unescapeWithin
      split
      · rename_i hampersand
        obtain rfl : c = '&' := eq_of_beq hampersand
        split
        · rename_i reference after hreference
          obtain ⟨hafter, hnumber⟩ := of_reference? hreference
          refine .bind (fun e he => ?_) fun _ _ => .bind
            (hrest (hafter.trans (List.suffix_cons '&' cs)) (ih after)) fun _ _ => .pure _
          obtain ⟨rfl, n, decimals, rfl, hlong⟩ := Reference.replacement_eq_error he
          obtain ⟨digits, hlength, hdigits, hprefix⟩ :=
            hnumber n decimals rfl (Nat.zero_lt_of_lt hlong)
          exact ⟨rfl, digits, hlength ▸ hlong, hdigits, (List.cons_prefix_cons.2
            ⟨rfl, hprefix⟩).isInfix⟩
        · exact hkept
      · exact hkept

/-- A text is unescaped unless it holds an overlong reference. -/
theorem failsOnlyBy_unescape (cs : List Char) :
    FailsOnlyBy (fun e => e = .numeralTooLong ∧ HoldsLongReference cs) (unescape cs) :=
  failsOnlyBy_unescapeWithin cs.length cs

end TranslationKeys.Html
