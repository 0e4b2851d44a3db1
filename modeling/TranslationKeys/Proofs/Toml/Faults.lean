import TranslationKeys.Proofs.Related
import TranslationKeys.Toml.Document
import Mathlib.Data.List.TakeDrop

/-!
# Faults of TOML documents

A document breaks a rule of the format, or it holds an integer with too many digits. For the second
fault every reader is shown to work within its text: it leaves an end of the text, and it finds too
many digits only where the text has them.
-/

namespace TranslationKeys.Toml

/-- A text holds a run of decimal digits and underscores with more digits than an integer may
have. -/
def HoldsLongNumeral (cs : List Char) : Prop :=
  ∃ run, run <:+: cs ∧ (∀ c ∈ run, isDigit c = true ∨ c = '_') ∧
    Integer.maxDigits < (run.filter isDigit).length

/-- What a part of a text holds, the text holds. -/
theorem HoldsLongNumeral.mono {cs ds : List Char} (h : HoldsLongNumeral cs) (hcs : cs <:+: ds) :
    HoldsLongNumeral ds := by
  obtain ⟨run, hrun, hrest⟩ := h
  exact ⟨run, hrun.trans hcs, hrest⟩

/-- A reader that may find nothing leaves an end of its text. -/
def Leaves {α : Type} (rest : α → List Char) (cs : List Char) (x : Option α) : Prop :=
  ∀ a, x = some a → rest a <:+ cs

/-- A reader works within its text: it leaves an end of it, and it finds an integer with too many
digits only where the text holds one. -/
structure ReadsWithin {α : Type} (rest : α → List Char) (cs : List Char) (x : Except Fault α) :
    Prop where
  /-- What is left is an end of the text. -/
  leaves : ∀ a, x = .ok a → rest a <:+ cs
  /-- Too many digits are found only where the text has them. -/
  long : x = .error .numeralTooLong → HoldsLongNumeral cs

namespace Leaves

variable {α β : Type} {rest : α → List Char} {rest' : β → List Char} {cs : List Char}

/-- A reader that finds nothing leaves nothing wrong. -/
theorem none : Leaves rest cs none :=
  fun _ h => nomatch h

/-- A reader that finds something leaves an end of its text if what it found says so. -/
theorem some {a : α} (h : rest a <:+ cs) : Leaves rest cs (some a) :=
  fun _ heq => Option.some.inj heq ▸ h

/-- Two readers one after the other, the second one on what the first one leaves. -/
theorem bind {x : Option α} {f : α → Option β} (hx : Leaves rest cs x)
    (hf : ∀ a, Leaves rest' (rest a) (f a)) : Leaves rest' cs (x >>= f) := by
  intro b hb
  obtain ⟨a, ha, hb⟩ := Option.bind_eq_some_iff.1 hb
  exact (hf a b hb).trans (hx a ha)

end Leaves

namespace ReadsWithin

variable {α β : Type} {rest : α → List Char} {rest' : β → List Char} {cs ds : List Char}

/-- A reader that succeeds works within its text if it leaves an end of it. -/
theorem ok {a : α} (h : rest a <:+ cs) : ReadsWithin rest cs (.ok a) where
  leaves _ heq := Except.ok.inj heq ▸ h
  long heq := nomatch heq

/-- A reader that fails works within its text if the text has the digits it complains of. -/
theorem error {e : Fault} (h : e = .numeralTooLong → HoldsLongNumeral cs) :
    ReadsWithin rest cs (.error e) where
  leaves _ heq := nomatch heq
  long heq := h (Except.error.inj heq)

/-- A reader that finds a rule broken works within any text. -/
theorem malformed : ReadsWithin rest cs (.error .malformed) :=
  error fun h => nomatch h

/-- A reader that works within an end of a text works within the text. -/
theorem of_suffix {x : Except Fault α} (h : ReadsWithin rest cs x) (hcs : cs <:+ ds) :
    ReadsWithin rest ds x where
  leaves a ha := (h.leaves a ha).trans hcs
  long hlong := (h.long hlong).mono hcs.isInfix

/-- Two readers one after the other, the second one on what the first one leaves. -/
theorem bind {x : Except Fault α} {f : α → Except Fault β} (hx : ReadsWithin rest cs x)
    (hf : ∀ a, rest a <:+ cs → ReadsWithin rest' (rest a) (f a)) :
    ReadsWithin rest' cs (x >>= f) := by
  cases hstep : x with
  | error e => exact error fun he => hx.long (he ▸ hstep)
  | ok a => exact (hf a (hx.leaves a hstep)).of_suffix (hx.leaves a hstep)

/-- A reader after a check that looks at no text. -/
theorem check {x : Except Fault β} {f : β → Except Fault α} (hx : x ≠ .error .numeralTooLong)
    (hf : ∀ b, ReadsWithin rest cs (f b)) : ReadsWithin rest cs (x >>= f) := by
  cases x with
  | error e => exact error fun he => absurd (congrArg Except.error he) hx
  | ok b => exact hf b

/-- What is read can be changed, and more of the text can be left out. -/
theorem map {x : Except Fault α} {f : α → β} (hx : ReadsWithin rest cs x)
    (hf : ∀ a, rest' (f a) <:+ rest a) : ReadsWithin rest' cs (x.map f) := by
  cases hstep : x with
  | error e => exact error fun he => hx.long (he ▸ hstep)
  | ok a => exact .ok ((hf a).trans (hx.leaves a hstep))

end ReadsWithin

/-! ### Tokens -/

section Tokens

variable {multiline : Bool} {fuel : Nat} {cs : List Char}

/-- Skipping spaces leaves an end of the text. -/
theorem skipSpaces_suffix : skipSpaces cs <:+ cs := List.dropWhile_suffix _

/-- Skipping spaces after a character leaves an end of the text with it. -/
theorem skipSpaces_suffix_cons {c : Char} : skipSpaces cs <:+ c :: cs :=
  skipSpaces_suffix.trans (List.suffix_cons c cs)

/-- Dropping a first newline leaves an end of the text. -/
theorem dropNewline_suffix : dropNewline cs <:+ cs := by
  unfold dropNewline
  split
  · exact List.suffix_cons _ _
  · exact List.suffix_refl _

/-- A comment is skipped within the text. -/
theorem readsWithin_skipComment : ReadsWithin id cs (skipComment cs) := by
  unfold skipComment
  split
  · rw [List.span_eq_takeWhile_dropWhile]
    dsimp only
    split
    · exact .malformed
    · exact .ok ((List.dropWhile_suffix _).trans (List.suffix_cons _ _))
  · exact .ok (List.suffix_refl _)

/-- Spaces, newlines and comments are skipped within the text. -/
theorem readsWithin_skipLayout : ReadsWithin id cs (skipLayout cs) := by
  have hwithin (fuel : Nat) (cs : List Char) : ReadsWithin id cs (skipLayoutWithin fuel cs) := by
    induction fuel generalizing cs with
    | zero => exact .ok (List.suffix_refl _)
    | succ fuel ih =>
      refine (readsWithin_skipComment.of_suffix (List.dropWhile_suffix _)).bind
        fun after hafter => ?_
      split
      · rename_i hlength
        have heq : id after = cs := hafter.eq_of_length (by simpa using hlength)
        rw [heq]
        exact .ok (List.suffix_refl _)
      · exact ih _
  exact hwithin _ _

/-- A character given by its number is read within the text. -/
theorem readsWithin_readHex {width : Nat} : ReadsWithin Prod.snd cs (readHex width cs) := by
  simp only [readHex]
  split
  · exact .ok (List.drop_suffix _ _)
  · exact .malformed

/-- An escape is read within the text, with the spaces that a folded line may have. -/
theorem readsWithin_readEscape : ReadsWithin Prod.snd cs (readEscape multiline cs) := by
  have hcons (c : Char) (cs : List Char) : cs <:+ c :: cs := List.suffix_cons c cs
  unfold readEscape
  split
  · exact .malformed
  · rename_i c rest
    refine ReadsWithin.of_suffix ?_ (hcons c rest)
    split
    · exact .ok (List.dropWhile_suffix _)
    · split
      · have hspaces : skipSpaces rest <:+ rest := skipSpaces_suffix
        split
        · exact .ok (List.nil_suffix)
        · rename_i d after heq
          rw [heq] at hspaces
          split
          · exact .ok ((List.dropWhile_suffix _).trans ((hcons d after).trans hspaces))
          · exact .malformed
      · split
        · exact readsWithin_readHex.map fun _ => List.suffix_refl _
        · split
          · exact readsWithin_readHex.map fun _ => List.suffix_refl _
          · split
            · exact .ok (List.suffix_refl _)
            · exact .malformed

/-- A basic string is read within the text. -/
theorem readsWithin_readBasic : ReadsWithin Prod.snd cs (readBasic multiline cs) := by
  have hwithin (fuel : Nat) (cs : List Char) :
      ReadsWithin Prod.snd cs (readBasicWithin multiline fuel cs) := by
    induction fuel generalizing cs with
    | zero => exact .malformed
    | succ fuel ih =>
      cases cs with
      | nil => exact .malformed
      | cons c cs =>
        refine ReadsWithin.of_suffix ?_ (List.suffix_cons c cs)
        unfold readBasicWithin
        split
        · split
          · exact .ok (List.suffix_refl _)
          · split
            · exact .ok (List.drop_suffix _ _)
            · exact (ih cs).map fun _ => List.suffix_refl _
        · split
          · exact readsWithin_readEscape.bind fun r _ =>
              (ih r.2).bind fun r _ => .ok (List.suffix_refl _)
          · split
            · exact .malformed
            · exact (ih cs).map fun _ => List.suffix_refl _
  exact hwithin _ _

/-- A literal string on one line is read within the text. -/
theorem readsWithin_readLiteral : ReadsWithin Prod.snd cs (readLiteral cs) := by
  have hafter := List.dropWhile_suffix (l := cs) (· != '\x27')
  unfold readLiteral
  rw [List.span_eq_takeWhile_dropWhile]
  split
  · rename_i heq
    rw [(Prod.mk.inj heq).2] at hafter
    split
    · exact .malformed
    · exact .ok ((List.suffix_cons _ _).trans hafter)
  · exact .malformed

/-- A literal string over several lines is read within the text. -/
theorem readsWithin_readLongLiteral : ReadsWithin Prod.snd cs (readLongLiteral cs) := by
  induction cs with
  | nil => exact .malformed
  | cons c cs ih =>
    refine ReadsWithin.of_suffix ?_ (List.suffix_cons c cs)
    unfold readLongLiteral
    split
    · exact .ok (List.drop_suffix _ _)
    · split
      · exact .malformed
      · exact ih.map fun _ => List.suffix_refl _

/-- Quotes that belong to a string before its closing ones leave an end of the text. -/
theorem readExtraQuotes_suffix {quote : Char} {body : List Char} :
    (readExtraQuotes quote body cs).2 <:+ cs := by
  unfold readExtraQuotes
  split
  · rename_i a b after
    split
    · split
      · exact (List.suffix_cons _ _).trans (List.suffix_cons _ _)
      · exact List.suffix_cons _ _
    · exact List.suffix_refl _
  · split
    · exact List.nil_suffix
    · exact List.suffix_refl _
  · exact List.suffix_refl _

/-- A string of any kind is read within the text. -/
theorem readsWithin_readString : ReadsWithin Prod.snd cs (readString cs) := by
  have hlong : dropNewline (cs.drop 3) <:+ cs := dropNewline_suffix.trans (List.drop_suffix _ _)
  unfold readString
  split
  · exact (readsWithin_readBasic.of_suffix hlong).map fun _ => readExtraQuotes_suffix
  · split
    · exact (readsWithin_readLongLiteral.of_suffix hlong).map fun _ => readExtraQuotes_suffix
    · split
      · exact (readsWithin_readBasic.of_suffix (List.drop_suffix _ _)).map fun _ =>
          List.suffix_refl _
      · exact (readsWithin_readLiteral.of_suffix (List.drop_suffix _ _)).map fun _ =>
          List.suffix_refl _

/-- One part of a dotted key is read within the text. -/
theorem readsWithin_readKeyPart : ReadsWithin Prod.snd cs (readKeyPart cs) := by
  unfold readKeyPart
  split
  · exact .malformed
  · rename_i c rest
    split
    · rw [List.span_eq_takeWhile_dropWhile]
      exact .ok (List.dropWhile_suffix _)
    · refine ReadsWithin.of_suffix ?_ (List.suffix_cons c rest)
      split
      · exact readsWithin_readLiteral.map fun _ => List.suffix_refl _
      · split
        · exact readsWithin_readBasic.map fun _ => List.suffix_refl _
        · exact .malformed

/-- A dotted key is read within the text. -/
theorem readsWithin_readKey : ReadsWithin Prod.snd cs (readKey cs) := by
  have hwithin (fuel : Nat) (cs : List Char) : ReadsWithin Prod.snd cs (readKeyWithin fuel cs) := by
    induction fuel generalizing cs with
    | zero => exact .malformed
    | succ fuel ih =>
      refine readsWithin_readKeyPart.bind fun r _ => ?_
      have hspaces : skipSpaces r.2 <:+ r.2 := skipSpaces_suffix
      dsimp only
      split
      · rename_i rest heq
        rw [heq] at hspaces
        refine ReadsWithin.of_suffix ?_ (skipSpaces_suffix_cons.trans hspaces)
        exact (ih _).bind fun r _ => .ok (List.suffix_refl _)
      · exact .ok hspaces
  exact hwithin _ _

end Tokens

/-! ### Numbers and moments -/

section Numbers

variable {base width low high : Nat} {c : Char} {cs : List Char}

/-- A given number of digits leaves an end of the text. -/
theorem leaves_fixedDigits? : Leaves Prod.snd cs (fixedDigits? width cs) := by
  simp only [fixedDigits?]
  split
  · exact .some (List.drop_suffix _ _)
  · exact .none

/-- An expected character leaves an end of the text. -/
theorem leaves_expect? : Leaves id cs (expect? c cs) := by
  unfold expect?
  split
  · split
    · exact .some (List.suffix_cons _ _)
    · exact .none
  · exact .none

/-- Two digits within bounds leave an end of the text. -/
theorem leaves_twoDigits? : Leaves Prod.snd cs (twoDigits? low high cs) := by
  refine leaves_fixedDigits?.bind fun r => ?_
  dsimp only
  split
  · exact .some (List.suffix_refl _)
  · exact .none

/-- Two digits after an expected character. -/
theorem leaves_expect?_twoDigits? {α : Type} {rest : α → List Char}
    {f : Nat × List Char → Option α} (hf : ∀ r, Leaves rest r.2 (f r)) :
    Leaves rest cs (expect? c cs >>= fun cs => twoDigits? low high cs >>= f) :=
  leaves_expect?.bind fun _ => leaves_twoDigits?.bind hf

/-- The fraction of a second leaves an end of the text. -/
theorem readFraction_suffix : (readFraction cs).2 <:+ cs := by
  unfold readFraction
  split
  · rename_i rest
    dsimp only
    split
    · exact List.suffix_refl _
    · exact (List.drop_suffix _ _).trans (List.suffix_cons _ _)
  · exact List.suffix_refl _

/-- A time of day leaves an end of the text. -/
theorem leaves_clock? : Leaves Prod.snd cs (clock? cs) :=
  leaves_twoDigits?.bind fun _ => leaves_expect?_twoDigits? fun _ =>
    leaves_expect?_twoDigits? fun _ => .some readFraction_suffix

/-- A date leaves an end of the text. -/
theorem leaves_day? : Leaves Prod.snd cs (day? cs) :=
  leaves_fixedDigits?.bind fun _ => leaves_expect?_twoDigits? fun _ =>
    leaves_expect?_twoDigits? fun _ => .some (List.suffix_refl _)

/-- The hours and minutes of an offset leave an end of the text. -/
theorem leaves_hoursAndMinutes? : Leaves Prod.snd cs (hoursAndMinutes? cs) :=
  leaves_twoDigits?.bind fun _ => leaves_expect?_twoDigits? fun _ => .some (List.suffix_refl _)

/-- An offset from universal time leaves an end of the text. -/
theorem readOffset_suffix : (readOffset cs).2 <:+ cs := by
  unfold readOffset
  split
  · exact List.suffix_cons _ _
  · exact List.suffix_cons _ _
  · split
    · exact (leaves_hoursAndMinutes? _ ‹_›).trans (List.suffix_cons _ _)
    · exact List.suffix_refl _
  · split
    · exact (leaves_hoursAndMinutes? _ ‹_›).trans (List.suffix_cons _ _)
    · exact List.suffix_refl _
  · exact List.suffix_refl _

/-- A date with what may follow it leaves an end of the text. -/
theorem leaves_dated? : Leaves (fun r => r.2.2) cs (dated? cs) := by
  refine leaves_day?.bind fun r => ?_
  dsimp only
  split
  · rename_i clock after heq
    refine .some (readOffset_suffix.trans ?_)
    split at heq
    · rename_i d rest hrest
      split at heq
      · rw [hrest]
        exact (leaves_clock? _ heq).trans (List.suffix_cons d rest)
      · exact nomatch heq
    · exact nomatch heq
  · exact .some (List.suffix_refl _)

/-- A text without a moment is left as it is. -/
theorem readsWithin_moment? :
    ReadsWithin (fun r => r.elim cs Prod.snd) cs (moment? cs) := by
  unfold moment?
  split
  · rename_i hdated
    split
    · exact .ok (leaves_dated? _ hdated)
    · exact .malformed
  · split
    · rename_i hclock
      exact .ok (leaves_clock? _ hclock)
    · exact .ok (List.suffix_refl _)

/-- A run of digits leaves an end of the text. -/
theorem digitRun_suffix : (digitRun base cs).2 <:+ cs := by
  fun_induction digitRun base cs with
  | case1 => exact List.suffix_refl _
  | case2 d cs _ ds after heq ih =>
    rw [heq] at ih
    exact (ih.trans (List.suffix_cons d cs)).trans (List.suffix_cons _ _)
  | case3 => exact List.suffix_refl _
  | case4 d cs _ _ ds after heq ih =>
    rw [heq] at ih
    exact ih.trans (List.suffix_cons d cs)
  | case5 => exact List.suffix_refl _

/-- A run of decimal digits consists of digits and underscores and starts the text. -/
theorem exists_digitRun (cs : List Char) : ∃ run, cs = run ++ (digitRun 10 cs).2 ∧
    (∀ c ∈ run, isDigit c = true ∨ c = '_') ∧ run.filter isDigit = (digitRun 10 cs).1 := by
  fun_induction digitRun 10 cs with
  | case1 => exact ⟨[], by simp⟩
  | case2 d cs hd ds after heq ih =>
    obtain ⟨run, hcs, hrun, hdigits⟩ := ih
    rw [heq] at hcs hdigits
    have hdigit : isDigit d = true := hd
    refine ⟨'_' :: d :: run, by rw [hcs]; rfl, ?_, ?_⟩
    · simpa [hdigit] using hrun
    · rw [List.filter_cons_of_neg (by decide), List.filter_cons_of_pos hdigit, hdigits]
  | case3 => exact ⟨[], by simp⟩
  | case4 d cs _ hd ds after heq ih =>
    obtain ⟨run, hcs, hrun, hdigits⟩ := ih
    rw [heq] at hcs hdigits
    have hdigit : isDigit d = true := hd
    refine ⟨d :: run, by rw [hcs]; rfl, ?_, ?_⟩
    · simpa [hdigit] using hrun
    · rw [List.filter_cons_of_pos hdigit, hdigits]
  | case5 => exact ⟨[], by simp⟩

/-- Digits that may hold underscores leave an end of the text. -/
theorem leaves_digits? : Leaves Prod.snd cs (digits? base cs) := by
  unfold digits?
  split
  · split
    · exact .some (digitRun_suffix.trans (List.suffix_cons _ _))
    · exact .none
  · exact .none

/-- An integer with a mark of its base leaves an end of the text. -/
theorem leaves_marked? : Leaves Prod.snd cs (marked? cs) := by
  unfold marked?
  split
  · rename_i m rest
    have hrest : rest <:+ '0' :: m :: rest := (List.suffix_cons m rest).trans (List.suffix_cons _ _)
    cases markedBase? m with
    | none => exact .none
    | some base =>
      have hdigits : Leaves Prod.snd ('0' :: m :: rest) (digits? base rest) :=
        fun r hr => (leaves_digits? r hr).trans hrest
      exact hdigits.bind fun _ => .some (List.suffix_refl _)
  · exact .none

/-- The whole part of a number leaves an end of the text. -/
theorem leaves_whole? : Leaves Prod.snd cs (whole? cs) := by
  unfold whole?
  split
  · exact .some (List.suffix_cons _ _)
  · exact leaves_digits?

/-- The digits of a whole part are too many only if the text holds as many. -/
theorem holdsLongNumeral_of_whole? {digits after : List Char}
    (h : whole? cs = some (digits, after)) (hlong : Integer.maxDigits < digits.length) :
    HoldsLongNumeral cs := by
  unfold whole? at h
  split at h
  · obtain ⟨rfl, -⟩ := Prod.mk.inj (Option.some.inj h)
    exact absurd hlong (by decide)
  · unfold digits? at h
    split at h
    · rename_i c rest _
      split at h
      · rename_i hc
        have hdigit : isDigit c = true := hc
        obtain ⟨rfl, -⟩ := Prod.mk.inj (Option.some.inj h)
        obtain ⟨run, hrest, hrun, hdigits⟩ := exists_digitRun rest
        refine ⟨c :: run, ⟨[], (digitRun 10 rest).2, by rw [List.nil_append, List.cons_append,
          ← hrest]⟩, List.forall_mem_cons.2 ⟨.inl hdigit, hrun⟩, ?_⟩
        rwa [List.filter_cons_of_pos hdigit, hdigits]
      · exact nomatch h
    · exact nomatch h

/-- The part of a number after its point leaves an end of the text. -/
theorem fraction_suffix : (fraction cs).2 <:+ cs := by
  unfold fraction
  split
  · split
    · rename_i hdigits
      exact (leaves_digits? _ hdigits).trans (List.suffix_cons _ _)
    · exact List.suffix_refl _
  · exact List.suffix_refl _

/-- The exponent of a number leaves an end of the text. -/
theorem exponent_suffix : (exponent cs).2 <:+ cs := by
  unfold exponent
  split
  · rename_i e rest
    split
    · split
      rename_i sign body hsign
      have hbody : body <:+ rest := by
        split at hsign
        · exact (Prod.mk.inj hsign).2 ▸ List.suffix_cons _ _
        · exact (Prod.mk.inj hsign).2 ▸ List.suffix_cons _ _
        · exact (Prod.mk.inj hsign).2 ▸ List.suffix_refl _
      split
      · rename_i hdigits
        exact ((leaves_digits? _ hdigits).trans hbody).trans (List.suffix_cons _ _)
      · exact List.suffix_refl _
    · exact List.suffix_refl _
  · exact List.suffix_refl _

/-- A sign leaves an end of the text. -/
theorem splitSign_suffix : (Integer.splitSign cs).2 <:+ cs := by
  unfold Integer.splitSign
  split
  · exact List.suffix_cons _ _
  · exact List.suffix_cons _ _
  · exact List.suffix_refl _

/-- A decimal number leaves an end of the text, and it is too long only if the text holds a long
numeral. -/
theorem readsWithin_decimal? {value : Except Fault Value} {after : List Char}
    (h : decimal? cs = some (value, after)) :
    ReadsWithin Prod.snd cs ((·, after) <$> value) := by
  obtain ⟨⟨digits, rest⟩, hwhole, h⟩ := Option.bind_eq_some_iff.1 h
  have hsign : (Integer.splitSign cs).2 <:+ cs := splitSign_suffix
  have hafter : (exponent (fraction rest).2).2 <:+ cs :=
    (exponent_suffix.trans fraction_suffix).trans ((leaves_whole? _ hwhole).trans hsign)
  dsimp only at h
  split at h
  · split at h
    · rename_i hlong
      obtain ⟨rfl, rfl⟩ := Prod.mk.inj (Option.some.inj h)
      exact .error fun _ => (holdsLongNumeral_of_whole? hwhole hlong).mono hsign.isInfix
    · obtain ⟨rfl, rfl⟩ := Prod.mk.inj (Option.some.inj h)
      exact .ok hafter
  · obtain ⟨rfl, rfl⟩ := Prod.mk.inj (Option.some.inj h)
    exact .ok hafter

/-- An infinity or not-a-number leaves an end of the text. -/
theorem leaves_special? : Leaves Prod.snd cs (special? cs) := by
  have hdrop : (Integer.splitSign cs).2.drop 3 <:+ cs :=
    (List.drop_suffix _ _).trans splitSign_suffix
  simp only [special?]
  split
  · exact .some hdrop
  · split
    · exact .some hdrop
    · exact .none

/-- A moment or a number is read within the text. -/
theorem readsWithin_readNumber : ReadsWithin Prod.snd cs (readNumber cs) := by
  refine readsWithin_moment?.bind fun found _ => ?_
  cases found with
  | some found => exact .ok (List.suffix_refl _)
  | none =>
    dsimp only [Option.elim]
    split
    · exact .ok (leaves_marked? _ ‹_›)
    · split
      · rename_i hdecimal
        have hreads := readsWithin_decimal? hdecimal
        rwa [← bind_pure_comp] at hreads
      · split
        · exact .ok (leaves_special? _ ‹_›)
        · exact .malformed

end Numbers

/-! ### Values and documents -/

section Documents

variable {cs : List Char}

/-- A rule that is broken is no integer with too many digits. -/
theorem orMalformed_ne {α : Type} (x : Option α) : orMalformed x ≠ .error .numeralTooLong := by
  cases x <;> exact fun h => nomatch h

/-- A table that is changed under a rule is no integer with too many digits. -/
theorem orMalformed_bind_ne {α β : Type} (x : Option α) (f : α → β) :
    (orMalformed x >>= fun a => pure (f a)) ≠ .error .numeralTooLong := by
  cases x <;> exact fun h => nomatch h

section Nested

variable {fuel : Nat}

/-- A value is read within the text if the items and the entries of one with less fuel are. -/
theorem readsWithin_readValue_succ (hitems : ∀ cs, ReadsWithin Prod.snd cs (readItems fuel cs))
    (hentries : ∀ closed entries cs,
      ReadsWithin Prod.snd cs (readEntries fuel closed entries cs)) :
    ReadsWithin Prod.snd cs (readValue (fuel + 1) cs) := by
  unfold readValue
  split
  · exact .malformed
  · rename_i c rest
    split
    · exact readsWithin_readString.map fun _ => List.suffix_refl _
    · split
      · exact .ok (List.drop_suffix _ _)
      · split
        · exact .ok (List.drop_suffix _ _)
        · split
          · refine ReadsWithin.of_suffix ?_ (List.suffix_cons c rest)
            exact readsWithin_skipLayout.bind fun after _ =>
              (hitems after).bind fun r _ => .ok (List.suffix_refl _)
          · split
            · have hspaces : skipSpaces rest <:+ c :: rest := skipSpaces_suffix_cons
              split
              · rename_i after heq
                rw [heq] at hspaces
                exact .ok ((List.suffix_cons _ _).trans hspaces)
              · refine ReadsWithin.of_suffix ?_ hspaces
                exact (hentries _ _ _).bind fun r _ => .ok (List.suffix_refl _)
            · exact readsWithin_readNumber

/-- The items of an array are read within the text if values and items with less fuel are. -/
theorem readsWithin_readItems_succ (hvalue : ∀ cs, ReadsWithin Prod.snd cs (readValue fuel cs))
    (hitems : ∀ cs, ReadsWithin Prod.snd cs (readItems fuel cs)) :
    ReadsWithin Prod.snd cs (readItems (fuel + 1) cs) := by
  unfold readItems
  split
  · exact .ok (List.suffix_cons _ _)
  · refine (hvalue cs).bind fun r _ => readsWithin_skipLayout.bind fun after _ => ?_
    dsimp only [id]
    split
    · exact .ok (List.suffix_cons _ _)
    · refine ReadsWithin.of_suffix ?_ (List.suffix_cons _ _)
      exact readsWithin_skipLayout.bind fun after _ =>
        (hitems after).bind fun r _ => .ok (List.suffix_refl _)
    · exact .malformed

/-- The entries of a table are read within the text if a key with its value and the entries after it
are. -/
theorem readsWithin_readEntries_succ
    (hentries : ∀ closed entries cs, ReadsWithin Prod.snd cs (readEntries fuel closed entries cs))
    (hpair : ∀ cs, ReadsWithin (fun r => r.2.2) cs (readPair fuel cs))
    (closed : List Key) (entries : Entries) :
    ReadsWithin Prod.snd cs (readEntries (fuel + 1) closed entries cs) := by
  unfold readEntries
  refine (hpair cs).bind fun r _ => ?_
  have hspaces : skipSpaces r.2.2 <:+ r.2.2 := skipSpaces_suffix
  dsimp only
  split
  · exact .malformed
  · refine .check (orMalformed_ne _) fun entries => ?_
    split
    · rename_i after heq
      rw [heq] at hspaces
      exact .ok ((List.suffix_cons _ _).trans hspaces)
    · rename_i after heq
      rw [heq] at hspaces
      exact (hentries _ _ _).of_suffix (skipSpaces_suffix_cons.trans hspaces)
    · exact .malformed

/-- A key with its value is read within the text if the value is. -/
theorem readsWithin_readPair_succ (hvalue : ∀ cs, ReadsWithin Prod.snd cs (readValue fuel cs)) :
    ReadsWithin (fun r => r.2.2) cs (readPair (fuel + 1) cs) := by
  unfold readPair
  refine readsWithin_readKey.bind fun r _ => ?_
  dsimp only
  split
  · rename_i after heq
    rw [heq]
    exact ((hvalue _).of_suffix skipSpaces_suffix_cons).bind fun r _ => .ok (List.suffix_refl _)
  · exact .malformed

end Nested

/-- The four readers of values work within their texts. The induction is on the fuel that they
share. -/
theorem readsWithin_values (fuel : Nat) :
    (∀ cs, ReadsWithin Prod.snd cs (readValue fuel cs)) ∧
      (∀ cs, ReadsWithin Prod.snd cs (readItems fuel cs)) ∧
      (∀ closed entries cs, ReadsWithin Prod.snd cs (readEntries fuel closed entries cs)) ∧
      ∀ cs, ReadsWithin (fun r => r.2.2) cs (readPair fuel cs) := by
  induction fuel with
  | zero => exact ⟨fun _ => .malformed, fun _ => .malformed, fun _ _ _ => .malformed,
      fun _ => .malformed⟩
  | succ fuel ih =>
    obtain ⟨hvalue, hitems, hentries, hpair⟩ := ih
    exact ⟨fun _ => readsWithin_readValue_succ hitems hentries,
      fun _ => readsWithin_readItems_succ hvalue hitems,
      fun closed entries _ => readsWithin_readEntries_succ hentries hpair closed entries,
      fun _ => readsWithin_readPair_succ hvalue⟩

/-- A key with its value is read within the text. -/
theorem readsWithin_readPair {fuel : Nat} : ReadsWithin (fun r => r.2.2) cs (readPair fuel cs) :=
  (readsWithin_values fuel).2.2.2 cs

namespace Document

/-- Adding a key with its value breaks a rule or none; it finds no digits. -/
theorem addPair_ne {d : Document} {key : Key} {v : Value} :
    d.addPair key v ≠ .error .numeralTooLong := by
  unfold addPair
  dsimp only
  split
  · exact fun h => nomatch h
  · exact orMalformed_bind_ne _ _

/-- Declaring a table breaks a rule or none; it finds no digits. -/
theorem declareTable_ne {d : Document} {key : Key} :
    d.declareTable key ≠ .error .numeralTooLong := by
  unfold declareTable
  split
  · exact fun h => nomatch h
  · exact orMalformed_bind_ne _ _

/-- Declaring an item of an array of tables breaks a rule or none; it finds no digits. -/
theorem declareItem_ne {d : Document} {key : Key} :
    d.declareItem key ≠ .error .numeralTooLong := by
  unfold declareItem
  split
  · exact fun h => nomatch h
  · exact orMalformed_bind_ne _ _

/-- A header is closed after its key, whatever it declares. -/
theorem readsWithin_declared {x : Except Fault Document} (hx : x ≠ .error .numeralTooLong)
    (close : String) (width : Nat) :
    ReadsWithin Prod.snd cs (do
      let d ← x
      if startsWith close cs then return (d, skipSpaces (cs.drop width))
      else throw .malformed) := by
  refine .check hx fun d => ?_
  split
  · exact .ok (skipSpaces_suffix.trans (List.drop_suffix _ _))
  · exact .malformed

/-- A header or a key with its value is read within the text. -/
theorem readsWithin_readStatement {d : Document} :
    ReadsWithin Prod.snd cs (d.readStatement cs) := by
  have hkey (rest : List Char) : ReadsWithin Prod.snd rest (readKey (skipSpaces rest)) :=
    readsWithin_readKey.of_suffix skipSpaces_suffix
  unfold readStatement
  split
  · rename_i rest
    refine ReadsWithin.of_suffix ?_ ((List.suffix_cons '[' rest).trans (List.suffix_cons _ _))
    exact (hkey rest).bind fun _ _ => readsWithin_declared declareItem_ne _ _
  · rename_i rest _
    refine ReadsWithin.of_suffix ?_ (List.suffix_cons _ rest)
    exact (hkey rest).bind fun _ _ => readsWithin_declared declareTable_ne _ _
  · exact .ok (List.suffix_refl _)
  · split
    · exact readsWithin_readPair.bind fun r _ => .check addPair_ne fun _ => .ok skipSpaces_suffix
    · exact .malformed
  · exact .ok (List.suffix_refl _)

/-- A document is read within its text, of which nothing is left. -/
theorem readsWithin_readWithin {fuel : Nat} {d : Document} :
    ReadsWithin (fun _ => []) cs (readWithin fuel d cs) := by
  induction fuel generalizing d cs with
  | zero => exact .ok List.nil_suffix
  | succ fuel ih =>
    have hspaces : skipSpaces cs <:+ cs := skipSpaces_suffix
    unfold readWithin
    split
    · exact .ok List.nil_suffix
    · rename_i rest heq
      rw [heq] at hspaces
      exact ih.of_suffix ((List.suffix_cons _ rest).trans hspaces)
    · refine ReadsWithin.of_suffix ?_ hspaces
      refine readsWithin_readStatement.bind fun r _ =>
        readsWithin_skipComment.bind fun after _ => ?_
      dsimp only [id]
      split
      · exact .ok List.nil_suffix
      · exact ih.of_suffix (List.suffix_cons _ _)
      · exact .malformed

end Document

/-- A run without line feeds that starts a text with joined newlines starts the text. -/
theorem prefix_of_prefix_joinNewlines {run : List Char} (hrun : '\n' ∉ run)
    (h : run <+: joinNewlines cs) : run <+: cs := by
  fun_induction joinNewlines cs generalizing run with
  | case1 => exact h
  | case2 rest ih =>
    rcases List.prefix_cons_iff.1 h with rfl | ⟨tail, rfl, -⟩
    · exact List.nil_prefix
    · exact absurd List.mem_cons_self hrun
  | case3 c rest _ ih =>
    rcases List.prefix_cons_iff.1 h with rfl | ⟨tail, rfl, htail⟩
    · exact List.nil_prefix
    · exact List.cons_prefix_cons.2 ⟨rfl, ih (fun hmem => hrun (List.mem_cons_of_mem _ hmem)) htail⟩

/-- A run without line feeds in a text with joined newlines is in the text. -/
theorem infix_of_infix_joinNewlines {run : List Char} (hrun : '\n' ∉ run)
    (h : run <:+: joinNewlines cs) : run <:+: cs := by
  fun_induction joinNewlines cs with
  | case1 => exact h
  | case2 rest ih =>
    have hrest : run <:+: joinNewlines rest := by
      rcases List.infix_cons_iff.1 h with hprefix | hinfix
      · rcases List.prefix_cons_iff.1 hprefix with rfl | ⟨tail, rfl, -⟩
        · exact List.nil_infix
        · exact absurd List.mem_cons_self hrun
      · exact hinfix
    exact List.infix_cons (List.infix_cons (ih hrest))
  | case3 c rest hpair ih =>
    rcases List.infix_cons_iff.1 h with hprefix | hinfix
    · have hjoined : joinNewlines (c :: rest) = c :: joinNewlines rest := by
        rw [joinNewlines.eq_3 c rest hpair]
      exact (prefix_of_prefix_joinNewlines hrun (hjoined ▸ hprefix)).isInfix
    · exact List.infix_cons (ih hinfix)

/-- Too many digits in an integer are found only in a text that holds a long numeral. -/
theorem holdsLongNumeral_of_read (h : read cs = .error .numeralTooLong) : HoldsLongNumeral cs := by
  have hread : ReadsWithin (fun _ => []) (joinNewlines cs) (read cs) :=
    Document.readsWithin_readWithin.bind fun _ _ => .ok List.nil_suffix
  obtain ⟨run, hrun, hchars, hlength⟩ := hread.long h
  refine ⟨run, infix_of_infix_joinNewlines (fun hmem => ?_) hrun, hchars, hlength⟩
  exact absurd (hchars _ hmem) (by decide)

end Documents

end TranslationKeys.Toml
