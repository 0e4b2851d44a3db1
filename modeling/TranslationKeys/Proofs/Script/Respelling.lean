import TranslationKeys.Proofs.Script.Arguments
import TranslationKeys.Proofs.Script.Spellings

/-!
# Characters spelled as surrogates or in base eight

A script string is a sequence of units of sixteen bits. A supplementary character is two of them, so
a literal may spell it as a pair of surrogates, and it may spell the character of a byte in base
eight. The script string stays the same, but conversion decodes each escape on its own and knows no
base eight: the key of the literal is another one, unless all that is respelled so is the zero
character as a single zero.
-/

namespace TranslationKeys

/-- The units of sixteen bits that stand for a code point in a script string. -/
def CodePoint.units (p : CodePoint) : List Nat :=
  if p.val < 0x10000 then [p.val]
  else [0xD800 + (p.val - 0x10000) / 0x400, 0xDC00 + (p.val - 0x10000) % 0x400]

/-- The script string that a text stands for. -/
def Text.units (t : Text) : List Nat := t.flatMap CodePoint.units

/-- Surrogates are the code points of one range. -/
theorem CodePoint.isSurrogate_iff {p : CodePoint} :
    isSurrogate p = true ↔ 0xD800 ≤ p.val ∧ p.val ≤ 0xDFFF := by
  simp [isSurrogate]

/-- No character is a surrogate. -/
theorem CodePoint.isSurrogate_ofChar (c : Char) : isSurrogate (ofChar c) = false := by
  have hvalid := c.valid
  simp only [UInt32.isValidChar, Nat.isValidChar] at hvalid
  rw [Bool.eq_false_iff, ne_eq, isSurrogate_iff]
  change ¬ (0xD800 ≤ c.val.toNat ∧ c.val.toNat ≤ 0xDFFF)
  omega

/-- Parts that are each replaced by one that is no shorter make up the same list only if none of
them changes. -/
theorem flatten_eq_flatten_iff {α : Type} {parts others : List (List α)}
    (h : List.Forall₂ (fun part other => part.length ≤ other.length) parts others) :
    parts.flatten = others.flatten ↔ List.Forall₂ Eq parts others := by
  rw [List.forall₂_eq_eq_eq]
  refine ⟨fun heq => ?_, fun heq => by rw [heq]⟩
  induction h with
  | nil => rfl
  | @cons part other parts others hle hrest ih =>
    have hlengths : parts.flatten.length ≤ others.flatten.length := by
      clear heq ih
      induction hrest with
      | nil => exact Nat.le_refl _
      | cons hle _ ih =>
        rw [List.flatten_cons, List.flatten_cons, List.length_append, List.length_append]
        exact Nat.add_le_add hle ih
    rw [List.flatten_cons, List.flatten_cons] at heq
    have hlength := congrArg List.length heq
    rw [List.length_append, List.length_append] at hlength
    obtain ⟨rfl, htail⟩ := List.append_inj heq (by omega)
    rw [ih htail]

namespace Script

/-- What a text contributes as the argument of a translator. -/
def keyOfText? (t : Text) : Option Text :=
  if t.isEmpty then none else some t

/-- Different texts contribute different keys. -/
theorem keyOfText?_inj {t u : Text} : keyOfText? t = keyOfText? u ↔ t = u := by
  cases t <;> cases u <;> simp [keyOfText?]

/-- A character of a literal is spelled anew: one beyond the first 65536 as a pair of surrogates,
one of the first 256 in base eight. -/
inductive Respells : Spelling → List Spelling → Prop where
  /-- As a pair of surrogates. -/
  | pair {s : Spelling} {c : CodePoint} {high low : List (Digit 16)} (hmeaning : s.meaning = [c])
      (hlarge : 0x10000 ≤ c.val) (hhigh : HexForm.unit.Admits high) (hlow : HexForm.unit.Admits low)
      (hunits : c.units = [Digit.number high, Digit.number low]) :
      Respells s [.hex .unit high hhigh, .hex .unit low hlow]
  /-- In base eight. -/
  | octal {s : Spelling} {ds : List (Digit 8)} {hne : ds ≠ []} {hlength : ds.length ≤ 3}
      {hbyte : Digit.number ds < 256} (hother : s.isOctal = false)
      (hmeaning : s.meaning = (Spelling.octal ds hne hlength hbyte).meaning) :
      Respells s [.octal ds hne hlength hbyte]

/-- Some characters of a literal are spelled anew, and the others are kept. -/
def Respelled : List Spelling → List (List Spelling) → Prop :=
  List.Forall₂ fun s group => group = [s] ∨ Respells s group

/-- The escape of the zero character by a single zero. -/
def zeroEscape : List Char := ['\\', '0']

/-- Whether a spelling names a surrogate. -/
def Spelling.namesSurrogate (s : Spelling) : Bool :=
  s.meaning.any CodePoint.isSurrogate

section Respelling

variable {s : Spelling} {group : List Spelling}

/-- A unit of sixteen bits stands for itself. -/
theorem units_meaning_unit {ds : List (Digit 16)} (h : HexForm.unit.Admits ds) :
    Text.units (Spelling.hex .unit ds h).meaning = [Digit.number ds] := by
  have hlt := Digit.number_lt (by decide) ds
  rw [show ds.length = 4 from h] at hlt
  simp only [Spelling.meaning, Text.units, List.flatMap_singleton, CodePoint.units]
  exact if_pos hlt

/-- What is spelled anew is not spelled as before. -/
theorem Respells.ne_singleton (h : Respells s group) : group ≠ [s] := by
  cases h with
  | pair => exact fun heq => nomatch heq
  | octal hother =>
    rintro heq
    rw [← (List.cons.inj heq).1] at hother
    exact nomatch hother

/-- A character that is spelled anew stays the same in the script string. -/
theorem Respells.units_eq (h : Respells s group) :
    Text.units (group.flatMap Spelling.meaning) = Text.units s.meaning := by
  cases h with
  | pair hmeaning _ hhigh hlow hunits =>
    rw [List.flatMap_cons, List.flatMap_singleton, Text.units, List.flatMap_append]
    change Text.units _ ++ Text.units _ = _
    rw [units_meaning_unit, units_meaning_unit, hmeaning, Text.units, List.flatMap_singleton,
      hunits]
    rfl
  | octal _ hmeaning => rw [List.flatMap_singleton, hmeaning]

/-- A single zero is the only octal escape that is written so, and no octal digit is the character
that its value is the number of. -/
theorem Digit.octal_char (d : Digit 8) :
    (d.char = '0' ↔ d.value = 0) ∧ d.char.toNat ≠ d.value := by
  have hall : ∀ value < 8, ∀ capital, (Digit.charOf value capital = '0' ↔ value = 0) ∧
      (Digit.charOf value capital).toNat ≠ value := by decide
  exact hall d.value d.value_lt d.capital

/-- An octal escape is not read as what it means, unless it is a single zero. -/
theorem read_octal {ds : List (Digit 8)} {hne : ds ≠ []} {hlength : ds.length ≤ 3}
    {hbyte : Digit.number ds < 256} :
    (Spelling.octal ds hne hlength hbyte).meaning.length ≤
        (Spelling.octal ds hne hlength hbyte).read.length ∧
      ((Spelling.octal ds hne hlength hbyte).meaning = (Spelling.octal ds hne hlength hbyte).read ↔
        (Spelling.octal ds hne hlength hbyte).written = zeroEscape) := by
  have hwritten : (Spelling.octal ds hne hlength hbyte).written = zeroEscape ↔
      ds.map Digit.value = [0] := by
    rcases ds with _ | ⟨d, _ | ⟨second, rest⟩⟩
    · exact absurd rfl hne
    · simp [Spelling.written, zeroEscape, Digit.written, (Digit.octal_char d).1]
    · simp [Spelling.written, zeroEscape, Digit.written]
  rw [hwritten]
  by_cases hzero : ds.map Digit.value = [0]
  · simp [Spelling.read, hzero]
  · rw [Spelling.read, if_neg hzero]
    refine ⟨?_, iff_of_false (fun heq => ?_) hzero⟩
    · have hpos : 1 ≤ ds.length := List.length_pos_of_ne_nil hne
      simpa [Spelling.meaning, Text.ofChars] using hpos
    · rcases ds with _ | ⟨d, _ | ⟨second, rest⟩⟩
      · exact absurd rfl hne
      · have hvalue := congrArg Fin.val (List.cons.inj heq).1
        exact absurd hvalue.symm (by simpa [Digit.number, CodePoint.ofChar] using
          (Digit.octal_char d).2)
      · exact absurd (congrArg List.length heq) (by simp [Spelling.meaning, Text.ofChars])

/-- A character that is spelled anew is not read as before, unless it is the zero character as a
single zero. -/
theorem Respells.read_eq_iff (h : Respells s group) :
    s.read.length ≤ (group.flatMap Spelling.read).length ∧
      (s.read = group.flatMap Spelling.read ↔ group.flatMap Spelling.written = zeroEscape) := by
  cases h with
  | @pair c high low hmeaning hlarge hhigh hlow hunits =>
    have hoctal : s.isOctal = false := by
      cases s with
      | octal ds _ _ hbyte =>
        obtain rfl : _ = c := (List.cons.inj hmeaning).1
        exact absurd (Nat.lt_of_le_of_lt hlarge hbyte) (by decide)
      | _ => rfl
    rw [Spelling.read_eq_meaning hoctal, hmeaning]
    refine ⟨by simp [Spelling.read, Spelling.meaning], ?_⟩
    refine iff_of_false (fun heq => ?_) fun heq => ?_
    · exact absurd (congrArg List.length heq) (by simp [Spelling.read, Spelling.meaning])
    · exact absurd (congrArg List.length heq)
        (by simp [Spelling.written, zeroEscape, HexForm.opening, HexForm.closing])
  | octal hother hmeaning =>
    rw [Spelling.read_eq_meaning hother, hmeaning, List.flatMap_singleton, List.flatMap_singleton]
    exact read_octal

/-- What is read holds a surrogate only where one is named. -/
theorem any_isSurrogate_read (s : Spelling) :
    s.read.any CodePoint.isSurrogate = s.namesSurrogate := by
  by_cases hoctal : s.isOctal = true
  · cases s with
    | octal ds hne hlength hbyte =>
      have hnot : CodePoint.isSurrogate ⟨Digit.number ds, Nat.lt_trans hbyte (by decide)⟩ =
          false := by
        rw [Bool.eq_false_iff, ne_eq, CodePoint.isSurrogate_iff]
        exact fun h => absurd (Nat.le_trans h.1 (Nat.le_of_lt hbyte)) (by decide)
      have hnone : (Spelling.octal ds hne hlength hbyte).namesSurrogate = false := by
        rw [Spelling.namesSurrogate, Spelling.meaning, List.any_cons, hnot]
        rfl
      rw [hnone, Spelling.read]
      split
      · exact hnone
      · rw [Text.ofChars, List.any_map]
        exact List.any_eq_false.2 fun c _ => by simp [CodePoint.isSurrogate_ofChar]
    | _ => exact absurd hoctal Bool.false_ne_true
  · rw [Spelling.read_eq_meaning (Bool.eq_false_of_not_eq_true hoctal), Spelling.namesSurrogate]

/-- A literal with characters that are spelled anew stands for the same script string. -/
theorem Respelled.units_eq {spellings : List Spelling} {groups : List (List Spelling)}
    (h : Respelled spellings groups) :
    Text.units (spellings.flatMap Spelling.meaning) =
      Text.units (groups.flatten.flatMap Spelling.meaning) := by
  have happend (t u : Text) : Text.units (t ++ u) = Text.units t ++ Text.units u :=
    List.flatMap_append
  induction h with
  | nil => rfl
  | cons hgroup _ ih =>
    rw [List.flatMap_cons, List.flatten_cons, List.flatMap_append, happend, happend, ih]
    congr 1
    rcases hgroup with rfl | hgroup
    · rw [List.flatMap_singleton]
    · exact hgroup.units_eq.symm

/-- A literal with characters that are spelled anew is read as before only if each of them is the
zero character as a single zero. -/
theorem Respelled.read_eq_iff {spellings : List Spelling} {groups : List (List Spelling)}
    (h : Respelled spellings groups) :
    spellings.flatMap Spelling.read = groups.flatten.flatMap Spelling.read ↔
      List.Forall₂ (fun s group => group = [s] ∨ group.flatMap Spelling.written = zeroEscape)
        spellings groups := by
  have hpieces : List.Forall₂ (fun s group => s.read = group.flatMap Spelling.read) spellings
      groups ↔ List.Forall₂ (fun s group => group = [s] ∨
        group.flatMap Spelling.written = zeroEscape) spellings groups := by
    induction h with
    | nil => simp
    | cons hgroup _ ih =>
      rw [List.forall₂_cons, List.forall₂_cons, ih]
      refine and_congr_left' ?_
      rcases hgroup with rfl | hgroup
      · simp
      · rw [hgroup.read_eq_iff.2]
        exact (or_iff_right hgroup.ne_singleton).symm
  have hlengths : List.Forall₂ (fun part other => part.length ≤ other.length)
      (spellings.map Spelling.read) (groups.map (List.flatMap Spelling.read)) := by
    rw [List.forall₂_map_left_iff, List.forall₂_map_right_iff]
    refine h.imp fun s group hgroup => ?_
    rcases hgroup with rfl | hgroup
    · rw [List.flatMap_singleton]
    · exact hgroup.read_eq_iff.1
  rw [flatMap_flatten, List.flatMap_def, flatten_eq_flatten_iff hlengths, List.forall₂_map_left_iff,
    List.forall₂_map_right_iff]
  exact hpieces

end Respelling

/-- What a string contributes as the argument of a translator is what its spellings are read as. -/
theorem Passes.contributes_of_spelledBy {g : Grammars} {grammar text : String} {tree : SyntaxTree}
    {call literal : TreeNode} {spellings : List Spelling}
    (h : Passes g grammar text tree call literal)
    (hspelled : SpelledBy (Utf8.encodeString text) literal spellings) (offset : Int) :
    Contributes g grammar text offset call (keyOfText? (spellings.flatMap Spelling.read)) :=
  h.contributes offset fun _ hmade =>
    literalKey?_of_string hspelled.kind_eq (stringContent_of_spelledBy hspelled) hmade

section Keys

variable {g g' : Grammars} {grammar text grammar' text' : String} {tree tree' : SyntaxTree}
  {call literal call' literal' : TreeNode} {spellings : List Spelling}
  {groups : List (List Spelling)}

/-- A literal in which characters are spelled anew stands for the same script string, but both
literals contribute what their spellings are read as. The keys are equal only if each of the
characters is the zero character as a single zero, and a key holds a surrogate wherever the literal
names one, be it in a pair. -/
theorem contributes_of_respelled (hpasses : Passes g grammar text tree call literal)
    (hspelled : SpelledBy (Utf8.encodeString text) literal spellings)
    (hpasses' : Passes g' grammar' text' tree' call' literal')
    (hspelled' : SpelledBy (Utf8.encodeString text') literal' groups.flatten)
    (hrespelled : Respelled spellings groups) (offset offset' : Int) :
    Text.units (spellings.flatMap Spelling.meaning) =
        Text.units (groups.flatten.flatMap Spelling.meaning) ∧
      Contributes g grammar text offset call (keyOfText? (spellings.flatMap Spelling.read)) ∧
      Contributes g' grammar' text' offset' call'
        (keyOfText? (groups.flatten.flatMap Spelling.read)) ∧
      (keyOfText? (spellings.flatMap Spelling.read) =
          keyOfText? (groups.flatten.flatMap Spelling.read) ↔
        List.Forall₂ (fun s group => group = [s] ∨ group.flatMap Spelling.written = zeroEscape)
          spellings groups) ∧
      (groups.flatten.flatMap Spelling.read).any CodePoint.isSurrogate =
        groups.flatten.any Spelling.namesSurrogate := by
  refine ⟨hrespelled.units_eq, hpasses.contributes_of_spelledBy hspelled offset,
    hpasses'.contributes_of_spelledBy hspelled' offset', ?_, ?_⟩
  · rw [keyOfText?_inj]
    exact hrespelled.read_eq_iff
  · rw [List.any_flatMap]
    exact congrArg (List.any _) (funext any_isSurrogate_read)

end Keys

/-- A script that passes two characters to a translator. -/
def samplePlain : String := "t('😀A')"

/-- The tree node of its literal. -/
def samplePlainNode : TreeNode :=
  .mk "string" 2 9 true
    [.mk "'" 2 3 false [] [], .mk "string_fragment" 3 8 true [] [], .mk "'" 8 9 false [] []] []

/-- The script with one of the characters as a pair of surrogates and the other in base eight. -/
def sampleRespelled : String := "t('\\uD83D\\uDE00\\101')"

/-- The tree node of its literal. -/
def sampleRespelledNode : TreeNode :=
  .mk "string" 2 20 true
    [.mk "'" 2 3 false [] [], .mk "escape_sequence" 3 9 true [] [],
      .mk "escape_sequence" 9 15 true [] [], .mk "escape_sequence" 15 19 true [] [],
      .mk "'" 19 20 false [] []] []

/-- The spellings of the two characters in the first script. -/
def sampleSpelling : List Spelling := [.plain '😀', .plain 'A']

/-- Their spellings in the second script. -/
def sampleGroups : List (List Spelling) :=
  [[.hex .unit [.lastOf 13 true, .lastOf 8, .lastOf 3, .lastOf 13 true] rfl,
      .hex .unit [.lastOf 13 true, .lastOf 14 true, .lastOf 0, .lastOf 0] rfl],
    [.octal [.lastOf 1, .lastOf 0, .lastOf 1] (by decide) (by decide) (by decide)]]

/-- The two samples stand for one script string, but the key of the second one consists of the two
surrogates and of the digits. -/
theorem contributes_sampleRespelled :
    Text.units (sampleSpelling.flatMap Spelling.meaning) =
        Text.units (sampleGroups.flatten.flatMap Spelling.meaning) ∧
      Contributes (grammarsOf (treeOfCall 10 samplePlainNode)) Grammar.javascript samplePlain 0
        (callOf 10 samplePlainNode) (some (Text.ofString "😀A")) ∧
      Contributes (grammarsOf (treeOfCall 21 sampleRespelledNode)) Grammar.javascript
        sampleRespelled 0 (callOf 21 sampleRespelledNode)
        (some ([0xD83D, 0xDE00] ++ Text.ofString "101")) := by
  have hpasses : Passes (grammarsOf (treeOfCall 10 samplePlainNode)) Grammar.javascript samplePlain
      (treeOfCall 10 samplePlainNode) (callOf 10 samplePlainNode) samplePlainNode :=
    passes_callOf (by decide) (by decide +kernel) (by decide +kernel) (by decide +kernel) rfl
      (by decide)
  have hspelled : SpelledBy (Utf8.encodeString samplePlain) samplePlainNode sampleSpelling :=
    { kind_eq := rfl
      quoted := ⟨'\x27', by decide +kernel⟩
      covered := ⟨[sampleSpelling],
        .cons (.fragment ['😀', 'A'] (by decide) (by decide +kernel)) .nil, rfl⟩ }
  have hpasses' : Passes (grammarsOf (treeOfCall 21 sampleRespelledNode)) Grammar.javascript
      sampleRespelled (treeOfCall 21 sampleRespelledNode) (callOf 21 sampleRespelledNode)
      sampleRespelledNode :=
    passes_callOf (by decide) (by decide +kernel) (by decide +kernel) (by decide +kernel) rfl
      (by decide)
  have hspelled' : SpelledBy (Utf8.encodeString sampleRespelled) sampleRespelledNode
      sampleGroups.flatten :=
    { kind_eq := rfl
      quoted := ⟨'\x27', by decide +kernel⟩
      covered := ⟨[[_], [_], [_]],
        .cons (.escape rfl rfl (by decide +kernel)) <|
        .cons (.escape rfl rfl (by decide +kernel)) <|
        .cons (.escape rfl rfl (by decide +kernel)) .nil, rfl⟩ }
  have hrespelled : Respelled sampleSpelling sampleGroups :=
    .cons (.inr (.pair rfl (by decide) _ _ (by decide))) <|
      .cons (.inr (.octal rfl (by decide))) .nil
  obtain ⟨hunits, hplain, hother, -⟩ :=
    contributes_of_respelled hpasses hspelled hpasses' hspelled' hrespelled 0 0
  exact ⟨hunits, hplain, hother⟩

end Script

end TranslationKeys
