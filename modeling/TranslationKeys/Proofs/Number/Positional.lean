import TranslationKeys.Number.Integer
import Mathlib.Data.Nat.Digits.Defs

/-!
# Digits and the numbers they denote

A numeral is written with the digits of a base up to sixteen, the letters among them in either
case, and denotes its positional value. Reading gives this value back, unless the base is bounded
and there are too many digits.
-/

namespace TranslationKeys

/-- A digit of a base as it is written; the digits from ten on are letters, capital or not. -/
structure Digit (base : Nat) where
  /-- The value of the digit. -/
  value : Nat
  /-- Whether a letter is a capital. -/
  capital : Bool := false
  value_lt : value < base := by decide

namespace Digit

variable {base : Nat}

/-- The character of a digit with a value below sixteen. -/
def charOf (value : Nat) (capital : Bool) : Char :=
  Char.ofNat <| if value < 10 then '0'.toNat + value
    else (if capital then 'A'.toNat else 'a'.toNat) + (value - 10)

/-- The character that a digit is written as. -/
def char (d : Digit base) : Char := charOf d.value d.capital

/-- Digits as they are written. -/
def written (ds : List (Digit base)) : List Char := ds.map char

/-- The number that digits denote, the first one being the most significant. -/
def number (ds : List (Digit base)) : Nat := Nat.ofDigits base (ds.map value).reverse

/-- The last digit of a number in a base. -/
def lastOf {below : Nat} (n : Nat) (capital : Bool := false) : Digit (below + 1) :=
  ⟨n % (below + 1), capital, Nat.mod_lt n (Nat.succ_pos below)⟩

/-- A digit as it is written without capitals. -/
def small (d : Digit base) : Digit base := { d with capital := false }

/-- No digits are written as nothing. -/
@[simp]
theorem written_nil : written ([] : List (Digit base)) = [] := rfl

/-- Digits are written one after the other. -/
@[simp]
theorem written_cons (d : Digit base) (ds : List (Digit base)) :
    written (d :: ds) = d.char :: written ds := rfl

/-- A digit is written as one character. -/
@[simp]
theorem length_written (ds : List (Digit base)) : (written ds).length = ds.length :=
  List.length_map _

/-- Capitals denote the same number. -/
@[simp]
theorem number_map_small (ds : List (Digit base)) : number (ds.map small) = number ds := by
  simp [number, Function.comp_def, small]

/-- What holds of the characters of all sixteen digits holds of the character of every digit. -/
theorem forall_char {P : Nat → Char → Prop} (hbase : base ≤ 16)
    (h : ∀ value < 16, ∀ capital, P value (charOf value capital)) (d : Digit base) :
    P d.value d.char :=
  h d.value (Nat.lt_of_lt_of_le d.value_lt hbase) d.capital

/-- A digit is read as its value. -/
theorem digitValue?_char (hbase : base ≤ 16) (d : Digit base) :
    digitValue? base d.char = some d.value := by
  have hsixteen := forall_char (P := fun value c => digitValue? 16 c = some value) hbase
    (by decide) d
  unfold digitValue? at hsixteen ⊢
  rw [Option.filter_eq_some_iff] at hsixteen ⊢
  exact ⟨hsixteen.1, decide_eq_true d.value_lt⟩

end Digit

namespace Integer

/-- A character that a reader of integers takes as it is: it belongs to ASCII and is neither a blank
nor a sign. -/
def isPlain (c : Char) : Bool :=
  c.toNat < 127 && !isAsciiBlank c && c != '-' && c != '+'

/-- A text of plain characters has no sign and is read as it stands. -/
theorem splitSign_of_plain {cs : List Char} (h : ∀ c ∈ cs, isPlain c = true) :
    splitSign (trimBy isAsciiBlank (asciiForm cs)) = (false, cs) := by
  have hascii : asciiForm cs = cs := by
    refine (List.map_congr_left fun c hc => ?_).trans (List.map_id cs)
    have hplain := h c hc
    simp only [isPlain, Bool.and_eq_true, decide_eq_true_eq] at hplain
    rw [if_pos hplain.1.1.1, id]
  have hkeep (cs : List Char) (h : ∀ c ∈ cs, isPlain c = true) :
      cs.dropWhile isAsciiBlank = cs := by
    cases cs with
    | nil => rfl
    | cons c cs =>
      have hplain := h c List.mem_cons_self
      simp only [isPlain, Bool.and_eq_true, Bool.not_eq_true'] at hplain
      rw [List.dropWhile_cons, if_neg (by rw [hplain.1.1.2]; decide)]
  have htrim : trimBy isAsciiBlank cs = cs := by
    unfold trimBy
    rw [hkeep cs h, hkeep cs.reverse fun c hc => h c (List.mem_reverse.1 hc), List.reverse_reverse]
  rw [hascii, htrim]
  unfold splitSign
  split
  · exact absurd (h '-' List.mem_cons_self) (by decide)
  · exact absurd (h '+' List.mem_cons_self) (by decide)
  · rfl

section Digits

variable {base : Nat}

/-- Digits denote what reading adds up from the first one on. -/
theorem ofDigits_eq_number (ds : List (Digit base)) :
    ofDigits base (ds.map Digit.value) = Digit.number ds := by
  rw [Digit.number, Nat.ofDigits_eq_foldr, List.foldr_reverse, ofDigits]
  congr 1
  funext n d
  rw [Nat.cast_id, Nat.add_comm, Nat.mul_comm]

/-- Digits are plain characters. -/
theorem isPlain_of_mem_written (hbase : base ≤ 16) {ds : List (Digit base)} :
    ∀ c ∈ Digit.written ds, isPlain c = true := by
  intro c hc
  obtain ⟨d, -, rfl⟩ := List.mem_map.1 hc
  exact Digit.forall_char (P := fun _ c => isPlain c = true) hbase (by decide) d

/-- No digit divides other digits. -/
theorem char_ne_underscore (hbase : base ≤ 16) (d : Digit base) : d.char ≠ '_' :=
  Digit.forall_char (P := fun _ c => c ≠ '_') hbase (by decide) d

/-- No digit of a base marks the base: only `b` is a digit of some base and marks another. -/
theorem baseOfMarker?_char_ne (hbase : base ≤ 16) (d : Digit base) :
    baseOfMarker? d.char ≠ some base := by
  have hmark := Digit.forall_char
    (P := fun value c => ∀ b ∈ baseOfMarker? c, b ≤ value) hbase (by decide) d
  exact fun h => Nat.not_le.2 d.value_lt (hmark base h)

/-- Digits are read one by one. -/
theorem digits?_written (hbase : base ≤ 16) (ds : List (Digit base)) :
    digits? base true (Digit.written ds) = some (ds.map Digit.value) := by
  induction ds with
  | nil => rfl
  | cons d ds ih =>
    rw [Digit.written_cons, digits?, if_neg (by simpa using char_ne_underscore hbase d),
      Digit.digitValue?_char hbase, ih]
    rfl

variable {ds : List (Digit base)}

/-- A numeral has a magnitude if, apart from the mark of its base, it consists of digits, at least
one and not too many. -/
theorem magnitude?_eq (hbase : base ≤ 16) (hne : ds ≠ [])
    (hlength : isUnbounded base = true ∨ ds.length ≤ maxDigits) {cs : List Char}
    (hcs : afterMarker base cs = Digit.written ds) :
    magnitude? base cs = some (Digit.number ds) := by
  have hread : digits? base false (Digit.written ds) = some (ds.map Digit.value) := by
    cases ds with
    | nil => exact absurd rfl hne
    | cons d ds =>
      rw [← digits?_written hbase, Digit.written_cons, digits?, digits?,
        if_neg (by simpa using char_ne_underscore hbase d),
        if_neg (by simpa using char_ne_underscore hbase d)]
  rw [magnitude?, hcs, hread, Option.bind_eq_bind, Option.bind_some, List.length_map,
    ofDigits_eq_number, if_neg]
  rcases hlength with hunbounded | hshort
  · simp [hunbounded]
  · simp [Nat.not_lt.2 hshort]

/-- Digits alone have no mark of their base. -/
theorem afterMarker_written (hbase : base ≤ 16) (ds : List (Digit base)) :
    afterMarker base (Digit.written ds) = Digit.written ds := by
  match ds with
  | [] | [_] => unfold afterMarker; split <;> simp_all
  | first :: second :: rest =>
    rw [Digit.written_cons, Digit.written_cons]
    unfold afterMarker
    split
    · rename_i m tail heq
      obtain ⟨-, rfl, -⟩ : _ ∧ second.char = m ∧ _ := by simpa using heq
      exact if_neg (by simpa using baseOfMarker?_char_ne hbase second)
    · rfl

/-- The digits behind the mark of their base are found. -/
theorem afterMarker_marked (hbase : base ≤ 16) {m : Char} (hm : baseOfMarker? m = some base)
    (ds : List (Digit base)) :
    afterMarker base ('0' :: m :: Digit.written ds) = Digit.written ds := by
  simp only [afterMarker, hm, beq_self_eq_true, if_pos]
  split
  · rename_i heq
    cases ds with
    | nil => exact nomatch heq
    | cons d ds => exact absurd (List.cons.inj heq).1 (char_ne_underscore hbase d)
  · rfl

/-- Digits are read as the number that they denote. -/
theorem read?_written (hbase : base ≤ 16) (hne : ds ≠ [])
    (hlength : isUnbounded base = true ∨ ds.length ≤ maxDigits) :
    read? base (Digit.written ds) = some (Digit.number ds : Int) := by
  rw [read?, splitSign_of_plain (isPlain_of_mem_written hbase)]
  simp only [magnitude?_eq hbase hne hlength (afterMarker_written hbase ds)]
  rfl

/-- Digits behind the mark of their base are read as the number that they denote. -/
theorem readMarked?_marked (hbase : base ≤ 16) (hne : ds ≠ []) {m : Char}
    (hm : baseOfMarker? m = some base) (hplain : isPlain m = true)
    (hlength : isUnbounded base = true ∨ ds.length ≤ maxDigits) :
    readMarked? ('0' :: m :: Digit.written ds) = some (Digit.number ds : Int) := by
  have hcs : ∀ c ∈ '0' :: m :: Digit.written ds, isPlain c = true :=
    List.forall_mem_cons.2 ⟨by decide, List.forall_mem_cons.2
      ⟨hplain, isPlain_of_mem_written hbase⟩⟩
  rw [readMarked?, splitSign_of_plain hcs]
  simp only [hm, magnitude?_eq hbase hne hlength (afterMarker_marked hbase hm ds)]
  rfl

end Digits

end Integer

end TranslationKeys
