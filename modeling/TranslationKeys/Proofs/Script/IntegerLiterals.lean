import TranslationKeys.Proofs.Number.Positional
import TranslationKeys.Proofs.Script.Arguments
import TranslationKeys.Proofs.Text.Lowercase
import TranslationKeys.Proofs.Value.Text

/-!
# Integer literals

The integer literals of scripts as they are written: digits behind the mark of a base, decimal
digits, and the older forms with a zero in front, which are octal unless a digit exceeds seven.
-/

namespace TranslationKeys

/-- Plain characters belong to ASCII. -/
theorem Integer.lt_of_isPlain {c : Char} (h : isPlain c = true) : c.toNat < 128 := by
  simp only [isPlain, Bool.and_eq_true, decide_eq_true_eq] at h
  omega

/-- Digits of a base, each but the first possibly after an underscore. -/
structure Numeral (base : Nat) where
  /-- The first digit. -/
  first : Digit base
  /-- The other digits, and whether an underscore comes before them. -/
  rest : List (Bool × Digit base) := []

namespace Numeral

variable {base : Nat}

/-- The digits of a numeral. -/
def digits (n : Numeral base) : List (Digit base) := n.first :: n.rest.map Prod.snd

/-- A numeral as it is written. -/
def written (n : Numeral base) : List Char :=
  n.first.char :: n.rest.flatMap fun d => if d.1 then ['_', d.2.char] else [d.2.char]

/-- The number that a numeral denotes. -/
def number (n : Numeral base) : Nat := Digit.number n.digits

/-- Without its underscores a numeral is its digits. -/
theorem filter_written (hbase : base ≤ 16) (n : Numeral base) :
    n.written.filter (· != '_') = Digit.written n.digits := by
  have hkeep (d : Digit base) : [d.char].filter (· != '_') = [d.char] :=
    List.filter_eq_self.2 (by simpa using Integer.char_ne_underscore hbase d)
  have hrest : (n.rest.flatMap fun d => if d.1 then ['_', d.2.char] else [d.2.char]).filter
      (· != '_') = Digit.written (n.rest.map Prod.snd) := by
    induction n.rest with
    | nil => rfl
    | cons d ds ih =>
      rw [List.flatMap_cons, List.filter_append, ih, List.map_cons, Digit.written_cons]
      cases d.1
      · exact congrArg (· ++ _) (hkeep d.2)
      · exact congrArg (· ++ _) (hkeep d.2)
  rw [written, digits, Digit.written_cons, ← List.singleton_append, List.filter_append, hkeep,
    hrest]
  rfl

end Numeral

/-- The letters that mark a base behind a zero, with the bases. -/
def baseLetters : List (Char × Nat) :=
  [('b', 2), ('B', 2), ('o', 8), ('O', 8), ('x', 16), ('X', 16)]

/-- The integer literals of scripts. -/
inductive IntegerLiteral where
  /-- Digits of a base behind its mark; a final `n` makes the integer a long one. -/
  | marked (letter : Char) (base : Nat) (hmark : (letter, base) ∈ baseLetters)
      (numeral : Numeral base) (long : Bool)
  /-- Decimal digits, which start with a zero only if there are no more of them. -/
  | decimal (numeral : Numeral 10) (hzero : numeral.first.value = 0 → numeral.rest = [])
      (long : Bool)
  /-- Octal digits behind a zero. -/
  | legacyOctal (digits : List (Digit 8)) (hne : digits ≠ [])
  /-- Decimal digits behind a zero, one of which is not octal. -/
  | legacyDecimal (digits : List (Digit 10)) (hlarge : ∃ d ∈ digits, 8 ≤ d.value)

namespace IntegerLiteral

/-- The mark of a long integer. -/
def longMark (long : Bool) : List Char := if long then ['n'] else []

/-- A literal as it is written. -/
def written : IntegerLiteral → List Char
  | marked letter _ _ numeral long => '0' :: letter :: (numeral.written ++ longMark long)
  | decimal numeral _ long => numeral.written ++ longMark long
  | legacyOctal digits _ => '0' :: Digit.written digits
  | legacyDecimal digits _ => '0' :: Digit.written digits

/-- The integer that a literal denotes. -/
def number : IntegerLiteral → Nat
  | marked _ _ _ numeral _ => numeral.number
  | decimal numeral _ _ => numeral.number
  | legacyOctal digits _ => Digit.number digits
  | legacyDecimal digits _ => Digit.number digits

/-- The count of digits of a literal without the mark of a base, which is bounded. -/
def plainLength : IntegerLiteral → Nat
  | marked .. => 0
  | decimal numeral _ _ => numeral.digits.length
  | legacyOctal digits _ => digits.length + 1
  | legacyDecimal digits _ => digits.length + 1

end IntegerLiteral

namespace NumberLiteral

/-- The mark of a long integer and the underscores are left out. -/
theorem bare_eq {raw cs : List Char} (long : Bool) (hlast : 'n' ∉ cs)
    (hraw : raw.filter (· != '_') = cs ++ IntegerLiteral.longMark long) : bare raw = cs := by
  have hkeep : cs.getLast? ≠ some 'n' := fun h => hlast (List.mem_of_getLast? h)
  rw [bare, hraw]
  cases long with
  | false => simp [IntegerLiteral.longMark, hkeep]
  | true => simp [IntegerLiteral.longMark]

section Digits

variable {base : Nat} {raw : List Char} {ds : List (Digit base)}

/-- No digit is the mark of a long integer. -/
theorem long_notMem_written (hbase : base ≤ 16) (ds : List (Digit base)) :
    'n' ∉ Digit.written ds := by
  intro h
  obtain ⟨d, -, hd⟩ := List.mem_map.1 h
  exact Digit.forall_char (P := fun _ c => c ≠ 'n') hbase (by decide) d hd

/-- The underscores of a numeral and the mark of a long integer behind it are left out. -/
theorem filter_numeral_append (hbase : base ≤ 16) (numeral : Numeral base) (long : Bool) :
    (numeral.written ++ IntegerLiteral.longMark long).filter (· != '_') =
      Digit.written numeral.digits ++ IntegerLiteral.longMark long := by
  rw [List.filter_append, Numeral.filter_written hbase]
  cases long <;> rfl

/-- Digits are lower-cased one by one. -/
theorem lowercase_written (hbase : base ≤ 16) (ds : List (Digit base)) :
    lowercase (Digit.written ds) = Digit.written (ds.map Digit.small) := by
  rw [lowercase_of_ascii fun c hc =>
    Integer.lt_of_isPlain (Integer.isPlain_of_mem_written hbase c hc)]
  simp only [Digit.written, List.map_map]
  refine List.map_congr_left fun d _ => ?_
  exact Digit.forall_char (P := fun value c => c.toLower = Digit.charOf value false) hbase
    (by decide) d

/-- Digits behind the mark of their base denote their number. -/
theorem value_of_marked {letter : Char} (hmark : (letter, base) ∈ baseLetters) (hne : ds ≠ [])
    (hbare : bare raw = '0' :: letter :: Digit.written ds) :
    value raw = .int (Digit.number ds) := by
  have hbases : ∀ mark ∈ baseLetters, mark.2 ≤ 16 ∧ Integer.isUnbounded mark.2 = true ∧
      mark.1.toNat < 128 ∧ Integer.baseOfMarker? mark.1.toLower = some mark.2 ∧
      Integer.isPlain mark.1.toLower = true := by decide
  obtain ⟨hbase, hunbounded, hascii, hletter, hplain⟩ := hbases _ hmark
  have hlower : lowercase (bare raw) =
      '0' :: letter.toLower :: Digit.written (ds.map Digit.small) := by
    have hcs : ∀ c ∈ '0' :: letter :: Digit.written ds, c.toNat < 128 :=
      List.forall_mem_cons.2 ⟨by decide, List.forall_mem_cons.2 ⟨hascii, fun c hc =>
        Integer.lt_of_isPlain (Integer.isPlain_of_mem_written hbase c hc)⟩⟩
    rw [hbare, lowercase_of_ascii hcs, ← lowercase_written hbase, lowercase_of_ascii fun c hc =>
      hcs c (List.mem_cons_of_mem _ (List.mem_cons_of_mem _ hc))]
    rfl
  have hread : Integer.readMarked? ('0' :: letter.toLower :: Digit.written (ds.map Digit.small)) =
      some (Digit.number (ds.map Digit.small) : Int) :=
    Integer.readMarked?_marked hbase (by simpa using hne) hletter hplain (.inl hunbounded)
  simp only [value, hlower, isMarked, hletter, Option.isSome_some, if_pos, hread]
  simp

/-- Decimal digits are written without capitals, count as digits and mark no base. -/
theorem decimal_char (hbase : base ≤ 10) (d : Digit base) : d.small.char = d.char ∧
    isDigitChar d.char = true ∧ Integer.baseOfMarker? d.char = none := by
  have hall : ∀ value < 10, ∀ capital, Digit.charOf value false = Digit.charOf value capital ∧
      isDigitChar (Digit.charOf value capital) = true ∧
      Integer.baseOfMarker? (Digit.charOf value capital) = none := by decide
  exact hall d.value (Nat.lt_of_lt_of_le d.value_lt hbase) d.capital

/-- A literal of decimal digits denotes what they are read as. -/
theorem value_of_digits (hbase : base ≤ 10) (hne : ds ≠ []) (hbare : bare raw = Digit.written ds) :
    value raw = (digitsValue? (Digit.written ds)).elim (.float .nan) .int := by
  have hlower : lowercase (bare raw) = Digit.written ds := by
    rw [hbare, lowercase_written (Nat.le_trans hbase (by decide)), Digit.written, List.map_map]
    exact List.map_congr_left fun d _ => (decimal_char hbase d).1
  have hmem : ∀ c ∈ Digit.written ds, isDigitChar c = true ∧ Integer.baseOfMarker? c = none := by
    intro c hc
    obtain ⟨d, -, rfl⟩ := List.mem_map.1 hc
    exact (decimal_char hbase d).2
  have hmarked : isMarked (Digit.written ds) = false := by
    unfold isMarked
    split
    · rename_i m _ heq
      rw [(hmem m (by simp [heq])).2]
      rfl
    · rfl
  have hall : (!(Digit.written ds).isEmpty && (Digit.written ds).all isDigitChar) = true := by
    have hsome : (Digit.written ds).isEmpty = false := by
      simpa [Digit.written] using hne
    rw [hsome, List.all_eq_true.2 fun c hc => (hmem c hc).1]
    rfl
  simp only [value, hlower, hmarked, hall, if_pos]
  rfl

/-- Digits are octal if their values are below eight. -/
theorem isOctal_written (hbase : base ≤ 10) (ds : List (Digit base)) :
    isOctal (Digit.written ds) = ds.all fun d => d.value < 8 := by
  have hall : ∀ value < 10, ∀ capital,
      isOctal [Digit.charOf value capital] = decide (value < 8) := by decide
  rw [isOctal, Digit.written, List.all_map]
  refine List.all_congr rfl fun d => ?_
  have hdigit := hall d.value (Nat.lt_of_lt_of_le d.value_lt hbase) d.capital
  rwa [isOctal, List.all_cons, List.all_nil, Bool.and_true] at hdigit

end Digits

/-- Decimal digits without a zero in front of others are read in base ten. -/
theorem digitsValue?_of_decimal {d : Digit 10} {ds : List (Digit 10)}
    (hzero : d.value = 0 → ds = []) :
    digitsValue? (Digit.written (d :: ds)) = Integer.read? 10 (Digit.written (d :: ds)) := by
  have hall : ∀ value < 10, ∀ capital, Digit.charOf value capital = '0' → value = 0 := by decide
  unfold digitsValue?
  split
  · rename_i heq
    obtain ⟨hchar, hrest⟩ := List.cons.inj heq
    rw [hzero (hall d.value d.value_lt d.capital hchar)] at hrest
    exact nomatch hrest
  · rfl

/-- A zero in front of digits denotes nothing. -/
theorem number_zero_cons {base : Nat} (hbase : 0 < base) (ds : List (Digit base)) :
    Digit.number (⟨0, false, hbase⟩ :: ds) = Digit.number ds :=
  Nat.ofDigits_reverse_zero_cons _

/-- Digits behind a zero are read in base eight if all of them are octal, and else in base ten. -/
theorem value_of_legacy {base : Nat} (hbase : base ≤ 10) (hpos : 0 < base) {ds : List (Digit base)}
    (hne : ds ≠ []) (hread : (if ds.all fun d => d.value < 8 then 8 else 10) = base)
    (hlength : Integer.isUnbounded base = true ∨ ds.length + 1 ≤ Integer.maxDigits) :
    value ('0' :: Digit.written ds) = .int (Digit.number ds) := by
  let zero : Digit base := ⟨0, false, hpos⟩
  have hbase16 : base ≤ 16 := Nat.le_trans hbase (by decide)
  have hwritten : '0' :: Digit.written ds = Digit.written (zero :: ds) := rfl
  have hbare : bare (Digit.written (zero :: ds)) = Digit.written (zero :: ds) := by
    refine bare_eq false (long_notMem_written hbase16 _) ?_
    refine (List.filter_eq_self.2 fun c hc => ?_).trans (List.append_nil _).symm
    obtain ⟨d, -, rfl⟩ := List.mem_map.1 hc
    simpa using Integer.char_ne_underscore hbase16 d
  have hdigits : digitsValue? (Digit.written (zero :: ds)) =
      Integer.read? base (Digit.written (zero :: ds)) := by
    have hoctal := isOctal_written hbase (zero :: ds)
    rw [List.all_cons, decide_eq_true (show zero.value < 8 from Nat.succ_pos 7), Bool.true_and]
      at hoctal
    have hite (c : Bool) (cs : List Char) :
        (if c then Integer.read? 8 cs else Integer.read? 10 cs) =
          Integer.read? (if c then 8 else 10) cs := by cases c <;> rfl
    obtain ⟨d, rest, rfl⟩ := List.exists_cons_of_ne_nil hne
    rw [← hwritten, Digit.written_cons] at hoctal ⊢
    simp only [digitsValue?, hoctal]
    rw [hite, hread]
  rw [hwritten, value_of_digits hbase (List.cons_ne_nil _ _) hbare, hdigits,
    Integer.read?_written hbase16 (List.cons_ne_nil _ _) hlength, number_zero_cons hpos]
  rfl

/-- A literal is read as the integer that it denotes, unless it has too many decimal digits. -/
theorem value_written (l : IntegerLiteral) (h : l.plainLength ≤ Integer.maxDigits) :
    value l.written = .int l.number := by
  cases l with
  | marked letter base hmark numeral long =>
    have hbases : ∀ mark ∈ baseLetters, mark.2 ≤ 16 ∧ mark.1 ≠ '_' ∧ mark.1 ≠ 'n' := by decide
    obtain ⟨hbase, hdivides, hlong⟩ := hbases _ hmark
    have hne : numeral.digits ≠ [] := List.cons_ne_nil _ _
    refine value_of_marked hmark hne (bare_eq long ?_ ?_)
    · simp [long_notMem_written hbase, hlong.symm]
    · rw [IntegerLiteral.written, List.filter_cons_of_pos (by decide),
        List.filter_cons_of_pos (by simpa using hdivides), filter_numeral_append hbase]
      rfl
  | decimal numeral hzero long =>
    have hbare := bare_eq long (long_notMem_written (by decide) _)
      (filter_numeral_append (by decide) numeral long)
    have hread : digitsValue? (Digit.written numeral.digits) =
        Integer.read? 10 (Digit.written numeral.digits) :=
      digitsValue?_of_decimal (by simpa using hzero)
    have hne : numeral.digits ≠ [] := List.cons_ne_nil _ _
    rw [IntegerLiteral.written, value_of_digits (by decide) hne hbare, hread,
      Integer.read?_written (by decide) hne (.inr h)]
    rfl
  | legacyOctal digits hne =>
    refine value_of_legacy (by decide) (by decide) hne (if_pos ?_) (.inl rfl)
    exact List.all_eq_true.2 fun d _ => decide_eq_true d.value_lt
  | legacyDecimal digits hlarge =>
    obtain ⟨d, hd, hvalue⟩ := hlarge
    refine value_of_legacy (by decide) (by decide) (List.ne_nil_of_mem hd) (if_neg ?_) (.inr h)
    exact fun hall => absurd (List.all_eq_true.1 hall d hd) (by simpa using hvalue)

end NumberLiteral

namespace Script

/-- What an integer literal contributes as the argument of a translator. -/
def keyOfNumber? (n : Nat) : Option Text :=
  if n = 0 then none else some (Text.ofString (toString n))

/-- An integer with a text contributes the text, unless it is zero. -/
theorem literalKey?_of_text? {mark : Mark Node} {raw s : String} {i : Int}
    (h : Integer.text? i = some s) :
    (Node.literal mark (.int i) raw).literalKey? =
      .ok (if i = 0 then none else some (Text.ofString s)) := by
  have hscript : (Scalar.int i).scriptText = .ok (Text.ofString s) := by
    unfold Scalar.scriptText
    simp only [h]
  simp only [Node.literalKey?, hscript, Scalar.isTruthy]
  by_cases hzero : i = 0 <;> simp [hzero]

/-- A short integer contributes its decimal digits, unless it is zero. -/
theorem literalKey?_of_isShort {mark : Mark Node} {raw : String} {n : Nat}
    (h : Integer.isShort n = true) :
    (Node.literal mark (.int n) raw).literalKey? = .ok (keyOfNumber? n) := by
  rw [literalKey?_of_text? (Integer.text?_of_isShort h), keyOfNumber?]
  simp only [Int.natCast_eq_zero]
  rfl

/-- An integer literal has the value that its digits denote in its base. In a script that is parsed,
a call that passes the literal to a translator contributes the decimal digits of the value, and
nothing if the value is zero. -/
theorem integerLiteral_denotes (l : IntegerLiteral) (hlength : l.plainLength ≤ Integer.maxDigits) :
    NumberLiteral.value l.written = .int l.number ∧
      ∀ {g : Grammars} {grammar text : String} {tree : SyntaxTree} {call literal : TreeNode},
        Passes g grammar text tree call literal → literal.kind = "number" →
        literal.text (Utf8.encodeString text) = .ok l.written →
        Integer.isShort l.number = true →
        ∀ offset, Contributes g grammar text offset call (keyOfNumber? l.number) := by
  have hvalue := NumberLiteral.value_written l hlength
  refine ⟨hvalue, fun hpasses hkind htext hshort offset => hpasses.contributes offset ?_⟩
  intro made hmade
  rw [literalKey?_of_number hkind htext hmade, hvalue, literalKey?_of_isShort hshort]

/-- The number 255 in base sixteen, with a capital digit, an underscore and the mark of a long
integer. -/
def sampleLiteral : IntegerLiteral :=
  .marked 'x' 16 (by decide) ⟨.lastOf 15 true, [(true, .lastOf 15)]⟩ true

/-- A script that calls a translator with the literal. -/
def sampleNumber : String := "t(0xF_fn)"

/-- The tree node of the literal. -/
def sampleNumberNode : TreeNode := .mk "number" 2 8 true [] []

/-- The literal in the sample is 255, and the key is the text 255. -/
theorem integerLiteral_denotes_sampleLiteral :
    NumberLiteral.value "0xF_fn".toList = .int 255 ∧
      Contributes (grammarsOf (treeOfCall 9 sampleNumberNode)) Grammar.javascript sampleNumber 0
        (callOf 9 sampleNumberNode) (some (Text.ofString "255")) := by
  have hpasses : Passes (grammarsOf (treeOfCall 9 sampleNumberNode)) Grammar.javascript
      sampleNumber (treeOfCall 9 sampleNumberNode) (callOf 9 sampleNumberNode) sampleNumberNode :=
    passes_callOf (by decide) (by decide +kernel) (by decide +kernel) (by decide +kernel) rfl
      (by decide)
  have hshort : Integer.isShort 255 = true := Integer.isShort_of_lt (k := 3) (by decide) (by decide)
  obtain ⟨hvalue, hkey⟩ := integerLiteral_denotes sampleLiteral (by decide)
  exact ⟨hvalue, hkey hpasses rfl (by decide +kernel) hshort 0⟩

end Script

end TranslationKeys
