import TranslationKeys.Proofs.Number.Positional
import TranslationKeys.Proofs.Related
import TranslationKeys.Proofs.Text.Decoding
import TranslationKeys.Script.Conversion
import Mathlib.Data.Nat.Digits.Lemmas

/-!
# Spellings of string literals

A string literal spells a text: characters stand for themselves or are escaped by a letter, by a
number or by a backslash alone, and a line can be continued. Conversion reads every spelling as what
it means, apart from the octal escapes, whose digits it takes as they stand. So the value of a
literal without octal escapes is the text that it spells.
-/

namespace TranslationKeys

/-- What the items of a list of lists contribute is what the lists contribute. -/
theorem flatMap_flatten {α β : Type} (f : α → List β) (xss : List (List α)) :
    xss.flatten.flatMap f = (xss.map (List.flatMap f)).flatten := by
  rw [List.flatMap_def, List.map_flatten, List.flatten_flatten, List.map_map]
  rfl

/-- Digits denote a number with no more digits than they are. -/
theorem Digit.number_lt {base : Nat} (hbase : 1 < base) (ds : List (Digit base)) :
    number ds < base ^ ds.length := by
  have hlt := Nat.ofDigits_lt_base_pow_length (l := (ds.map value).reverse) hbase fun v hv => by
    obtain ⟨d, -, rfl⟩ := List.mem_map.1 (List.mem_reverse.1 hv)
    exact d.value_lt
  rwa [List.length_reverse, List.length_map] at hlt

namespace Script

/-- The letters that are escapes of a character, and the digit that is one. -/
def letterEscapes : List (Char × Char) :=
  [('n', '\n'), ('t', '\t'), ('r', '\r'), ('b', Char.ofNat 0x8), ('f', Char.ofNat 0xC),
    ('v', Char.ofNat 0xB), ('0', Char.ofNat 0)]

/-- The ends of lines. -/
def lineEnds : List (List Char) :=
  [['\n'], ['\r'], ['\r', '\n'], ['\u2028'], ['\u2029']]

/-- Whether a character stands for itself behind a backslash. -/
def standsForItself (c : Char) : Bool :=
  !c.isDigit && c != 'x' && c != 'u' && !lineEnds.contains [c] &&
    letterEscapes.all fun escape => escape.1 != c

/-- The forms of an escape by a number in base sixteen. -/
inductive HexForm where
  /-- Two digits after `x`. -/
  | byte
  /-- Four digits after `u`. -/
  | unit
  /-- Digits between braces after `u`. -/
  | point

namespace HexForm

/-- What comes before the digits. -/
def opening : HexForm → List Char
  | byte => ['x']
  | unit => ['u']
  | point => ['u', '\x7b']

/-- What comes after the digits. -/
def closing : HexForm → List Char
  | byte | unit => []
  | point => ['\x7d']

/-- The digits that a form takes. -/
def Admits : HexForm → List (Digit 16) → Prop
  | byte, ds => ds.length = 2
  | unit, ds => ds.length = 4
  | point, ds => ds ≠ [] ∧ Digit.number ds < 0x110000

/-- Every form names a code point. -/
theorem Admits.number_lt {form : HexForm} {ds : List (Digit 16)} (h : form.Admits ds) :
    Digit.number ds < 0x110000 := by
  have hlt := Digit.number_lt (by decide) ds
  cases form with
  | byte | unit =>
    rw [show ds.length = _ from h] at hlt
    exact Nat.lt_trans hlt (by decide)
  | point => exact h.2

/-- Every form has at least one digit. -/
theorem Admits.ne_nil {form : HexForm} {ds : List (Digit 16)} (h : form.Admits ds) : ds ≠ [] := by
  cases form with
  | byte | unit =>
    rintro rfl
    exact nomatch h
  | point => exact h.1

end HexForm

/-- A part of a string literal that is spelled on its own. -/
inductive Spelling where
  /-- A character that is not escaped. -/
  | plain (c : Char)
  /-- An escape of one letter, or zero. -/
  | letter (escape : Char × Char) (h : escape ∈ letterEscapes)
  /-- A backslash in front of a character that stands for itself. -/
  | itself (c : Char) (h : standsForItself c = true)
  /-- An escape by a number in base sixteen. -/
  | hex (form : HexForm) (digits : List (Digit 16)) (h : form.Admits digits)
  /-- A backslash in front of the end of a line. -/
  | continuation (lineEnd : List Char) (h : lineEnd ∈ lineEnds)
  /-- An escape by a number of a byte in base eight, up to three digits after the backslash. -/
  | octal (digits : List (Digit 8)) (hne : digits ≠ []) (hlength : digits.length ≤ 3)
      (hbyte : Digit.number digits < 256)

namespace Spelling

/-- Whether a spelling is an octal escape. -/
def isOctal : Spelling → Bool
  | octal .. => true
  | _ => false

/-- Whether a spelling is a character that is not escaped. -/
def isPlain : Spelling → Bool
  | plain _ => true
  | _ => false

/-- A spelling as it is written. -/
def written : Spelling → List Char
  | plain c => [c]
  | letter escape _ => ['\\', escape.1]
  | itself c _ => ['\\', c]
  | hex form digits _ => '\\' :: (form.opening ++ Digit.written digits ++ form.closing)
  | continuation lineEnd _ => '\\' :: lineEnd
  | octal digits .. => '\\' :: Digit.written digits

/-- The code points that a spelling means. -/
def meaning : Spelling → Text
  | plain c | itself c _ => [CodePoint.ofChar c]
  | letter escape _ => [CodePoint.ofChar escape.2]
  | hex _ digits h => [⟨Digit.number digits, h.number_lt⟩]
  | continuation .. => []
  | octal digits _ _ hbyte => [⟨Digit.number digits, Nat.lt_trans hbyte (by decide)⟩]

/-- The code points that a spelling is read as: what it means, but of an octal escape, unless it is
the escape of one letter, the digits. -/
def read : Spelling → Text
  | octal digits hne hlength hbyte =>
    if digits.map Digit.value = [0] then meaning (octal digits hne hlength hbyte)
    else Text.ofChars (Digit.written digits)
  | s => s.meaning

/-- All but octal escapes are read as what they mean. -/
theorem read_eq_meaning {s : Spelling} (h : s.isOctal = false) : s.read = s.meaning := by
  cases s with
  | octal => exact nomatch h
  | _ => rfl

end Spelling

/-- A child of a string literal is spelled so: an escape sequence is one escape, and any other child
holds characters that are not escaped. -/
inductive Covers (source : List UInt8) (child : TreeNode) : List Spelling → Prop where
  /-- An escape sequence. -/
  | escape {s : Spelling} (hkind : child.kind = "escape_sequence") (hs : s.isPlain = false)
      (htext : child.text source = .ok s.written) : Covers source child [s]
  /-- A fragment without escapes. -/
  | fragment (cs : List Char) (hkind : child.kind ≠ "escape_sequence")
      (htext : child.text source = .ok cs) : Covers source child (cs.map Spelling.plain)

/-- A string literal is spelled so: the spellings stand between its quotes, and its named children
cover them one after the other. -/
structure SpelledBy (source : List UInt8) (n : TreeNode) (spellings : List Spelling) : Prop where
  /-- The literal is a string. -/
  kind_eq : n.kind = "string"
  /-- The spellings stand between two quotes. -/
  quoted : ∃ quote, n.text source =
    .ok (quote :: (spellings.flatMap Spelling.written ++ [quote]))
  /-- The named children cover the spellings. -/
  covered : ∃ groups, List.Forall₂ (Covers source) (n.children.filter TreeNode.named) groups ∧
    groups.flatten = spellings

end Script

/-! ### Literals of spellings -/

/-- A node that spans a part of a text has the part as its text. -/
theorem TreeNode.text_mk (before cs after : List Char) (kind : String) (named : Bool)
    (children : List TreeNode) (fields : List (String × Nat)) :
    (TreeNode.mk kind (Utf8.encode before).length (Utf8.encode (before ++ cs)).length named children
      fields).text (Utf8.encode (before ++ cs ++ after)) = .ok cs := by
  have hslice := @Utf8.slice_append_append (Utf8.encode before) (Utf8.encode cs)
    (Utf8.encode after) 0 _ (Nat.le_refl _)
  rw [Nat.add_zero, ← List.length_append, ← Utf8.encode_append, ← Utf8.encode_append] at hslice
  rw [text, bytes, start, stop, hslice, Utf8.slice, List.take_length, List.drop_zero, decodeBytes,
    Utf8.decode?_encode]

namespace Script

/-- The children that spellings behind a text have: a fragment for each character that is not
escaped, and an escape sequence for each escape. -/
def partsAfter (before : List Char) : List Spelling → List TreeNode
  | [] => []
  | s :: rest =>
    .mk (if s.isPlain then "string_fragment" else "escape_sequence") (Utf8.encode before).length
        (Utf8.encode (before ++ s.written)).length true [] [] ::
      partsAfter (before ++ s.written) rest

/-- The children that spellings have cover them. -/
theorem covers_partsAfter (before after : List Char) (spellings : List Spelling) :
    List.Forall₂
      (Covers (Utf8.encode (before ++ spellings.flatMap Spelling.written ++ after)))
      (partsAfter before spellings) (spellings.map ([·])) := by
  induction spellings generalizing before with
  | nil => exact .nil
  | cons s rest ih =>
    have hsource : before ++ (s :: rest).flatMap Spelling.written ++ after =
        before ++ s.written ++ (rest.flatMap Spelling.written ++ after) := by
      simp only [List.flatMap_cons, List.append_assoc]
    have htail := ih (before ++ s.written)
    rw [List.append_assoc (before ++ s.written), ← hsource] at htail
    refine .cons ?_ htail
    rw [hsource]
    have htext := TreeNode.text_mk before s.written (rest.flatMap Spelling.written ++ after)
    cases s with
    | plain c => exact .fragment [c] (show "string_fragment" ≠ _ by decide) (htext ..)
    | _ => exact .escape rfl rfl (htext ..)

/-- The children that spellings have are named. -/
theorem filter_named_partsAfter (before : List Char) (spellings : List Spelling) :
    (partsAfter before spellings).filter TreeNode.named = partsAfter before spellings := by
  induction spellings generalizing before with
  | nil => rfl
  | cons s rest ih => exact congrArg (List.cons _) (ih _)

/-- Between any two quotes, all spellings are those of a string literal. -/
theorem exists_spelledBy (quote : Char) (spellings : List Spelling) :
    ∃ n, SpelledBy (Utf8.encode (quote :: (spellings.flatMap Spelling.written ++ [quote]))) n
      spellings := by
  let cs := quote :: (spellings.flatMap Spelling.written ++ [quote])
  let parts := partsAfter [quote] spellings
  refine ⟨.mk "string" 0 (Utf8.encode cs).length true parts [], rfl, ⟨quote, ?_⟩,
    spellings.map ([·]), ?_, ?_⟩
  · have htext := TreeNode.text_mk [] cs [] "string" true parts []
    rwa [List.append_nil] at htext
  · have hcovers := covers_partsAfter [quote] [quote] spellings
    rwa [← filter_named_partsAfter] at hcovers
  · rw [← List.flatMap_def]
    exact List.flatMap_singleton' spellings

end Script

/-! ### Decoding -/

namespace Escape

open Script

/-- No digit starts an escape by a number. -/
theorem numeral?_written {base : Nat} (hbase : base ≤ 16) (ds : List (Digit base)) :
    numeral? (Digit.written ds) = none := by
  cases ds with
  | nil => rfl
  | cons d ds =>
    have hletter := Digit.forall_char (P := fun _ c => c ≠ 'u' ∧ c ≠ 'x') hbase (by decide) d
    unfold numeral?
    split <;> simp_all

/-- The number of an escape in base sixteen is found. -/
theorem numeral?_hex {form : HexForm} {ds : List (Digit 16)} (h : form.Admits ds) :
    numeral? (form.opening ++ Digit.written ds ++ form.closing) = some (Digit.written ds) := by
  have hlength := Digit.length_written ds
  cases form with
  | byte =>
    rw [show ds.length = 2 from h] at hlength
    simp [HexForm.opening, HexForm.closing, numeral?, hlength]
  | unit =>
    rw [show ds.length = 4 from h] at hlength
    obtain ⟨d, rest, rfl⟩ := List.exists_cons_of_ne_nil h.ne_nil
    have hbrace : d.char ≠ '\x7b' :=
      Digit.forall_char (P := fun _ c => c ≠ '\x7b') (Nat.le_refl 16) (by decide) d
    rw [Digit.written_cons] at hlength
    simp [HexForm.opening, HexForm.closing, numeral?, hbrace, hlength]
  | point =>
    change (if (Digit.written ds ++ ['\x7d']).getLast? == some '\x7d' then
      some (Digit.written ds ++ ['\x7d']).dropLast else _) = _
    rw [List.getLast?_concat, if_pos (beq_self_eq_true _), List.dropLast_concat]

/-- Digits of a code point stand for the code point. -/
theorem ofNumeral_written {ds : List (Digit 16)} (body : List Char) (hne : ds ≠ [])
    (h : Digit.number ds < 0x110000) :
    ofNumeral body (Digit.written ds) = .ok [⟨Digit.number ds, h⟩] := by
  have htestable : isTestable (Digit.number ds) = true := by
    simp only [isTestable, Bool.and_eq_true, decide_eq_true_eq]
    omega
  have hpoint : CodePoint.ofNat? (Digit.number ds) = some ⟨Digit.number ds, h⟩ := dif_pos h
  rw [ofNumeral, Integer.read?_written (Nat.le_refl 16) hne (.inl rfl)]
  simp only [htestable, Bool.not_true, Bool.false_eq_true, if_false, hpoint]

/-- An escape that is no numeral stands for what its body does. -/
theorem decode_of_numeral?_eq_none {body : List Char} (h : numeral? body = none) :
    decode ('\\' :: body) = .ok (ofBody body) := by
  simp only [decode, List.drop_succ_cons, List.drop_zero, h]

/-- Digits behind a backslash stand for themselves, except for a single zero. -/
theorem ofBody_written {ds : List (Digit 8)} (hne : ds ≠ []) :
    ofBody (Digit.written ds) =
      if ds.map Digit.value = [0] then [CodePoint.ofChar (Char.ofNat 0)]
      else Text.ofChars (Digit.written ds) := by
  have hends (d : Digit 8) : isLineTerminator d.char = false ∧
      simple? d.char = if d.value = 0 then some (Char.ofNat 0) else none := by
    have hall : ∀ value < 8, ∀ capital, isLineTerminator (Digit.charOf value capital) = false ∧
        simple? (Digit.charOf value capital) = if value = 0 then some (Char.ofNat 0) else none := by
      decide
    exact hall d.value d.value_lt d.capital
  match ds with
  | [] => exact absurd rfl hne
  | [d] =>
    by_cases hzero : d.value = 0
    · simp [Digit.written, ofBody, (hends d).2, hzero]
    · simp [Digit.written, ofBody, hends d, hzero, Text.ofChars]
  | d :: second :: rest => simp [Digit.written, ofBody, (hends d).1]

/-- A line ends where a character is the end of a line. -/
theorem isLineTerminator_eq (c : Char) : isLineTerminator c = lineEnds.contains [c] := by
  have hends : lineEnds.contains [c] =
      (c == '\n' || c == '\r' || c == '\u2028' || c == '\u2029') := by
    rw [Bool.eq_iff_iff]
    simp [lineEnds, or_assoc]
  have hnumber (d : Char) : (c.toNat == d.toNat) = (c == d) := by
    rw [Bool.eq_iff_iff, beq_iff_eq, beq_iff_eq, Char.toNat_inj]
  rw [hends, isLineTerminator, ← hnumber '\u2028', ← hnumber '\u2029',
    Bool.or_comm (c == '\r')]
  rfl

/-- A character that stands for itself is decoded as itself. -/
theorem of_standsForItself {c : Char} (h : standsForItself c = true) :
    numeral? [c] = none ∧ ofBody [c] = [CodePoint.ofChar c] := by
  simp only [standsForItself, Bool.and_eq_true, Bool.not_eq_true'] at h
  obtain ⟨⟨⟨⟨-, hx⟩, hu⟩, hend⟩, hletter⟩ := h
  have hsimple : simple? c = none := by
    unfold simple?
    split <;> simp_all [letterEscapes]
  constructor
  · unfold numeral?
    split <;> simp_all
  · rw [← isLineTerminator_eq] at hend
    simp [ofBody, hsimple, hend]

/-- An escape is decoded as it is read. -/
theorem decode_written {s : Spelling} (h : s.isPlain = false) : decode s.written = .ok s.read := by
  cases s with
  | plain => exact nomatch h
  | letter escape hescape =>
    have hall : ∀ escape ∈ letterEscapes,
        numeral? [escape.1] = none ∧ ofBody [escape.1] = [CodePoint.ofChar escape.2] := by decide
    obtain ⟨hnumeral, hbody⟩ := hall escape hescape
    rw [Spelling.written, decode_of_numeral?_eq_none hnumeral, hbody]
    rfl
  | itself c hitself =>
    obtain ⟨hnumeral, hbody⟩ := of_standsForItself hitself
    rw [Spelling.written, decode_of_numeral?_eq_none hnumeral, hbody]
    rfl
  | hex form ds hform =>
    rw [Spelling.written, decode, List.drop_succ_cons, List.drop_zero, numeral?_hex hform]
    exact ofNumeral_written _ hform.ne_nil hform.number_lt
  | continuation lineEnd hend =>
    have hall : ∀ lineEnd ∈ lineEnds, numeral? lineEnd = none ∧ ofBody lineEnd = [] := by decide
    obtain ⟨hnumeral, hbody⟩ := hall lineEnd hend
    rw [Spelling.written, decode_of_numeral?_eq_none hnumeral, hbody]
    rfl
  | octal ds hne hlength hbyte =>
    rw [Spelling.written, decode_of_numeral?_eq_none (numeral?_written (by decide) ds),
      ofBody_written hne, Spelling.read]
    split
    · rename_i hzero
      have hnumber : Digit.number ds = 0 := by rw [Digit.number, hzero]; rfl
      simp only [Spelling.meaning, hnumber]
      rfl
    · rfl

end Escape

/-! ### Contents of literals -/

namespace Script

section Contents

variable {source : List UInt8} {n child : TreeNode} {group spellings : List Spelling}

/-- A child of a string literal contributes what its spellings are read as. -/
theorem partValue_of_covers (h : Covers source child group) :
    partValue source child = .ok (group.flatMap Spelling.read) := by
  cases h with
  | escape hkind hs htext =>
    rw [partValue, htext, hkind, List.flatMap_singleton]
    exact Escape.decode_written hs
  | fragment cs hkind htext =>
    simp only [partValue, htext, beq_eq_false_iff_ne.2 hkind]
    rw [List.flatMap_map]
    exact congrArg Except.ok (List.map_eq_flatMap ..)

/-- The content of a string literal is what its spellings are read as. -/
theorem stringContent_of_spelledBy (h : SpelledBy source n spellings) :
    stringContent source n = .ok (spellings.flatMap Spelling.read) := by
  obtain ⟨quote, hquoted⟩ := h.quoted
  obtain ⟨groups, hcovered, rfl⟩ := h.covered
  have hparts : (n.children.filter TreeNode.named).mapM (partValue source) =
      .ok (groups.map (List.flatMap Spelling.read)) :=
    mapM_eq_ok_iff.2 (List.forall₂_map_right_iff.2 (hcovered.imp fun _ _ => partValue_of_covers))
  rw [flatMap_flatten]
  simp only [stringContent]
  split
  · rename_i hempty
    obtain rfl : groups = [] := by
      rw [List.isEmpty_iff.1 hempty] at hcovered
      exact List.forall₂_nil_left_iff.1 hcovered
    rw [hquoted]
    rfl
  · rw [hparts]
    rfl

/-- The content of a string literal without octal escapes is the string that it spells. -/
theorem stringContent_eq_of_meaning {cs : List Char} (h : SpelledBy source n spellings)
    (hoctal : ∀ s ∈ spellings, s.isOctal = false)
    (hmeaning : spellings.flatMap Spelling.meaning = Text.ofChars cs) :
    stringContent source n = .ok (Text.ofChars cs) := by
  rw [stringContent_of_spelledBy h, ← hmeaning]
  exact congrArg Except.ok (List.flatMap_congr fun s hs => Spelling.read_eq_meaning (hoctal s hs))

end Contents

/-- A literal with a letter, two numbers, one of them behind zeros, and a line that goes on. -/
def sampleSpelled : String := "'a\\n\\x41\\u\x7b001F600\x7d\\\nz'"

/-- The tree node of the literal. -/
def sampleSpelledNode : TreeNode :=
  .mk "string" 0 23 true
    [.mk "'" 0 1 false [] [], .mk "string_fragment" 1 2 true [] [],
      .mk "escape_sequence" 2 4 true [] [], .mk "escape_sequence" 4 8 true [] [],
      .mk "escape_sequence" 8 19 true [] [], .mk "escape_sequence" 19 21 true [] [],
      .mk "string_fragment" 21 22 true [] [], .mk "'" 22 23 false [] []] []

/-- The spellings of the literal. -/
def sampleSpellings : List Spelling :=
  [.plain 'a', .letter ('n', '\n') (by decide),
    .hex .byte [.lastOf 4, .lastOf 1] rfl,
    .hex .point [.lastOf 0, .lastOf 0, .lastOf 1, .lastOf 15 true, .lastOf 6, .lastOf 0, .lastOf 0]
      ⟨by decide, by decide⟩,
    .continuation ['\n'] (by decide), .plain 'z']

/-- The sample spells five characters, and they are its content. -/
theorem stringContent_sampleSpelled :
    stringContent (Utf8.encodeString sampleSpelled) sampleSpelledNode =
      .ok (Text.ofString "a\nA😀z") := by
  have hspelled : SpelledBy (Utf8.encodeString sampleSpelled) sampleSpelledNode sampleSpellings :=
    { kind_eq := rfl
      quoted := ⟨'\x27', by decide +kernel⟩
      covered := ⟨[[.plain 'a'], [_], [_], [_], [_], [.plain 'z']],
        .cons (.fragment ['a'] (by decide) (by decide +kernel)) <|
        .cons (.escape rfl rfl (by decide +kernel)) <|
        .cons (.escape rfl rfl (by decide +kernel)) <|
        .cons (.escape rfl rfl (by decide +kernel)) <|
        .cons (.escape rfl rfl (by decide +kernel)) <|
        .cons (.fragment ['z'] (by decide) (by decide +kernel)) .nil, rfl⟩ }
  exact stringContent_eq_of_meaning hspelled (by decide) (by decide)

end Script

end TranslationKeys
