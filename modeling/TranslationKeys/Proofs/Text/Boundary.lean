import TranslationKeys.Text.Utf8

/-!
# Character boundaries

A position in the encoding of a text is a boundary if it lies between two characters. What lies
between two boundaries is the encoding of a part of the text and is decoded to it, and a byte of
ASCII always stands between two boundaries: it is never part of a longer character.
-/

namespace TranslationKeys.Utf8

/-- A number below 256 is the value of its byte. -/
theorem toNat_ofNat_byte {n : Nat} (h : n < 256) : (UInt8.ofNat n).toNat = n :=
  UInt8.toNat_ofNat_of_lt' h

/-- A byte that continues a character gives its six low bits. -/
theorem continuation?_ofNat {x : Nat} (h : x < 64) :
    continuation? (UInt8.ofNat (0x80 + x)) = some x := by
  rw [continuation?, toNat_ofNat_byte (by omega), if_pos (by omega)]
  exact congrArg some (by omega)

/-- The number of a character that is long enough for its encoded length stands for it. -/
theorem scalar?_eq_some (c : Char) {low n : Nat} (hlow : low ≤ c.toNat) (hn : n = c.toNat) :
    scalar? low n = some c := by
  subst hn
  rw [scalar?, if_pos ⟨hlow, c.valid⟩, Char.ofNat_toNat]

/-- Two bytes are decoded to the character of their number. -/
theorem decodeChar?_two {a b : UInt8} {x : Nat} {c : Char} (rest : List UInt8)
    (hlow : 0xC0 ≤ a.toNat) (hhigh : a.toNat < 0xE0) (hb : continuation? b = some x)
    (hc : scalar? 0x80 ((a.toNat - 0xC0) * 64 + x) = some c) :
    decodeChar? (a :: b :: rest) = some (c, rest) := by
  simp only [decodeChar?]
  rw [if_neg (by omega), if_neg (by omega), if_pos hhigh]
  exact Option.bind_eq_some_iff.2 ⟨x, hb, Option.bind_eq_some_iff.2 ⟨c, hc, rfl⟩⟩

/-- Three bytes are decoded to the character of their number. -/
theorem decodeChar?_three {a b d : UInt8} {x y : Nat} {c : Char} (rest : List UInt8)
    (hlow : 0xE0 ≤ a.toNat) (hhigh : a.toNat < 0xF0) (hb : continuation? b = some x)
    (hd : continuation? d = some y)
    (hc : scalar? 0x800 ((a.toNat - 0xE0) * 4096 + x * 64 + y) = some c) :
    decodeChar? (a :: b :: d :: rest) = some (c, rest) := by
  simp only [decodeChar?]
  rw [if_neg (by omega), if_neg (by omega), if_neg (by omega), if_pos hhigh]
  exact Option.bind_eq_some_iff.2 ⟨x, hb, Option.bind_eq_some_iff.2 ⟨y, hd,
    Option.bind_eq_some_iff.2 ⟨c, hc, rfl⟩⟩⟩

/-- Four bytes are decoded to the character of their number. -/
theorem decodeChar?_four {a b d e : UInt8} {x y z : Nat} {c : Char} (rest : List UInt8)
    (hlow : 0xF0 ≤ a.toNat) (hhigh : a.toNat < 0xF8) (hb : continuation? b = some x)
    (hd : continuation? d = some y) (he : continuation? e = some z)
    (hc : scalar? 0x10000 ((a.toNat - 0xF0) * 262144 + x * 4096 + y * 64 + z) = some c) :
    decodeChar? (a :: b :: d :: e :: rest) = some (c, rest) := by
  simp only [decodeChar?]
  rw [if_neg (by omega), if_neg (by omega), if_neg (by omega), if_neg (by omega), if_pos hhigh]
  exact Option.bind_eq_some_iff.2 ⟨x, hb, Option.bind_eq_some_iff.2 ⟨y, hd,
    Option.bind_eq_some_iff.2 ⟨z, he, Option.bind_eq_some_iff.2 ⟨c, hc, rfl⟩⟩⟩⟩

/-- The encoding of a character is decoded to it, whatever follows. -/
theorem decodeChar?_encodeChar_append (c : Char) (rest : List UInt8) :
    decodeChar? (encodeChar c ++ rest) = some (c, rest) := by
  have hbound : c.toNat < 0x110000 := by
    have hvalid : c.toNat.isValidChar := c.valid
    rcases hvalid with h | h <;> omega
  have hlow (k : Nat) := continuation?_ofNat (Nat.mod_lt k (by decide : 64 > 0))
  simp only [encodeChar]
  split
  · simp only [List.cons_append, List.nil_append, decodeChar?]
    rw [toNat_ofNat_byte (by omega), if_pos (by omega), Char.ofNat_toNat]
  · split
    · have hfirst := toNat_ofNat_byte (n := 0xC0 + c.toNat / 64) (by omega)
      exact decodeChar?_two rest (by omega) (by omega) (hlow _)
        (scalar?_eq_some c (by omega) (by omega))
    · split
      · have hfirst := toNat_ofNat_byte (n := 0xE0 + c.toNat / 4096) (by omega)
        exact decodeChar?_three rest (by omega) (by omega) (hlow _) (hlow _)
          (scalar?_eq_some c (by omega) (by omega))
      · have hfirst := toNat_ofNat_byte (n := 0xF0 + c.toNat / 262144) (by omega)
        exact decodeChar?_four rest (by omega) (by omega) (hlow _) (hlow _) (hlow _)
          (scalar?_eq_some c (by omega) (by omega))

/-- A text is encoded part by part. -/
theorem encode_append (before after : List Char) :
    encode (before ++ after) = encode before ++ encode after :=
  List.flatMap_append

/-- Every character takes at least one byte. -/
theorem encodeChar_ne_nil (c : Char) : encodeChar c ≠ [] := by
  simp only [encodeChar]
  split
  · simp
  · split
    · simp
    · split <;> simp

/-- A text is encoded character by character. -/
theorem encode_cons (c : Char) (cs : List Char) : encode (c :: cs) = encodeChar c ++ encode cs :=
  List.flatMap_cons

/-- With fuel for its bytes, the encoding of a text is decoded to it. -/
theorem decodeWithin_encode (cs : List Char) {fuel : Nat} (hfuel : (encode cs).length ≤ fuel) :
    decodeWithin fuel (encode cs) = some cs := by
  induction cs generalizing fuel with
  | nil => cases fuel <;> rfl
  | cons c cs ih =>
    obtain ⟨b, bs, hbytes⟩ := List.exists_cons_of_ne_nil (encodeChar_ne_nil c)
    have hdecoded := decodeChar?_encodeChar_append c (encode cs)
    rw [encode_cons, hbytes, List.cons_append] at hfuel ⊢
    rw [hbytes, List.cons_append] at hdecoded
    cases fuel with
    | zero => exact absurd hfuel (Nat.not_succ_le_zero _)
    | succ fuel =>
      have hrest : (encode cs).length ≤ fuel := by
        rw [List.length_cons, List.length_append] at hfuel
        omega
      rw [decodeWithin, hdecoded]
      simp [ih hrest]

/-- The encoding of a text is decoded to it. -/
theorem decode?_encode (cs : List Char) : decode? (encode cs) = some cs :=
  decodeWithin_encode cs (Nat.le_refl _)

/-- A position in the encoding of a text lies between two of its characters, or at an end. -/
def IsBoundary (cs : List Char) (p : Nat) : Prop :=
  ∃ before after, cs = before ++ after ∧ p = (encode before).length

/-- The boundaries of a text are where its beginnings stop. -/
theorem isBoundary_iff_exists_take {cs : List Char} {p : Nat} :
    IsBoundary cs p ↔ ∃ k < cs.length + 1, p = (encode (cs.take k)).length := by
  constructor
  · intro h
    obtain ⟨before, after, rfl, rfl⟩ := h
    exact ⟨before.length, by rw [List.length_append]; omega, by rw [List.take_left]⟩
  · intro h
    obtain ⟨k, -, rfl⟩ := h
    exact ⟨cs.take k, cs.drop k, (List.take_append_drop k cs).symm, rfl⟩

instance (cs : List Char) (p : Nat) : Decidable (IsBoundary cs p) :=
  decidable_of_iff _ isBoundary_iff_exists_take.symm

/-- What lies between two boundaries is the encoding of a part of the text. -/
theorem exists_slice_eq_encode {cs : List Char} {first last : Nat} (hfirst : IsBoundary cs first)
    (hlast : IsBoundary cs last) :
    ∃ part, part <:+: cs ∧ slice (encode cs) first last = encode part := by
  obtain ⟨before, rest, hrest, rfl⟩ := hfirst
  obtain ⟨upTo, after, hafter, rfl⟩ := hlast
  have htake : (encode cs).take (encode upTo).length = encode upTo := by
    rw [hafter, encode_append, List.take_left]
  rw [slice, htake]
  rcases List.append_eq_append_iff.1 (hrest.symm.trans hafter) with ⟨part, rfl, -⟩ | ⟨part, rfl, -⟩
  · refine ⟨part, ⟨before, after, hafter.symm⟩, ?_⟩
    rw [encode_append, List.drop_left]
  · refine ⟨[], List.nil_infix, ?_⟩
    rw [encode_append, List.length_append, List.drop_of_length_le (by omega)]
    rfl

/-- Different texts have different encodings. -/
theorem encode_injective : Function.Injective encode := by
  intro cs cs' h
  exact Option.some.inj ((decode?_encode cs).symm.trans (h ▸ decode?_encode cs'))

/-- A slice is made up of two slices that meet in it. -/
theorem slice_append {bs : List UInt8} {first middle last : Nat} (hfirst : first ≤ middle)
    (hlast : middle ≤ last) (hlength : last ≤ bs.length) :
    slice bs first last = slice bs first middle ++ slice bs middle last := by
  have htake := (List.take_append_drop middle (bs.take last)).symm
  rw [List.take_take, Nat.min_eq_left hlast] at htake
  rw [slice, htake, List.drop_append_of_le_length (by rw [List.length_take]; omega)]
  rfl

/-- A byte of ASCII is all of the encoding of its character. -/
theorem length_encodeChar_of_ascii {c : Char} {b : UInt8} (hmem : b ∈ encodeChar c)
    (hascii : b.toNat < 0x80) : (encodeChar c).length = 1 := by
  have hbound : c.toNat < 0x110000 := by
    have hvalid : c.toNat.isValidChar := c.valid
    rcases hvalid with h | h <;> omega
  have hhigh {n : Nat} (hn : 0x80 ≤ n) (hn' : n < 256) (heq : b = UInt8.ofNat n) : False := by
    rw [heq, toNat_ofNat_byte hn'] at hascii
    omega
  simp only [encodeChar] at hmem ⊢
  split at hmem
  · rw [if_pos (by assumption)]
    rfl
  · split at hmem
    · simp only [List.mem_cons, List.not_mem_nil, or_false] at hmem
      rcases hmem with heq | heq
      · exact (hhigh (by omega) (by omega) heq).elim
      · exact (hhigh (by omega) (by omega) heq).elim
    · split at hmem
      · simp only [List.mem_cons, List.not_mem_nil, or_false] at hmem
        rcases hmem with heq | heq | heq <;> exact (hhigh (by omega) (by omega) heq).elim
      · simp only [List.mem_cons, List.not_mem_nil, or_false] at hmem
        rcases hmem with heq | heq | heq | heq <;> exact (hhigh (by omega) (by omega) heq).elim

/-- A boundary of a text is one of a longer text, moved on by what was put before. -/
theorem IsBoundary.append_left {cs : List Char} {p : Nat} (h : IsBoundary cs p)
    (before : List Char) : IsBoundary (before ++ cs) ((encode before).length + p) := by
  obtain ⟨first, last, rfl, rfl⟩ := h
  exact ⟨before ++ first, last, (List.append_assoc ..).symm, by
    rw [encode_append, List.length_append]⟩

/-- A byte of ASCII stands between two boundaries. -/
theorem isBoundary_of_ascii {cs : List Char} {p : Nat} {b : UInt8}
    (hbyte : (encode cs)[p]? = some b) (hascii : b.toNat < 0x80) :
    IsBoundary cs p ∧ IsBoundary cs (p + 1) := by
  induction cs generalizing p with
  | nil => simp [encode] at hbyte
  | cons c cs ih =>
    rw [encode_cons] at hbyte
    have hone : encode [c] = encodeChar c := by simp [encode]
    by_cases hp : p < (encodeChar c).length
    · rw [List.getElem?_append_left hp] at hbyte
      have hlength := length_encodeChar_of_ascii (List.mem_of_getElem? hbyte) hascii
      obtain rfl : p = 0 := by omega
      exact ⟨⟨[], c :: cs, rfl, rfl⟩, ⟨[c], cs, rfl, by rw [hone, hlength]⟩⟩
    · rw [List.getElem?_append_right (Nat.not_lt.1 hp)] at hbyte
      obtain ⟨hfirst, hlast⟩ := ih hbyte
      have hmove : (encode [c]).length + (p - (encodeChar c).length) = p := by
        rw [hone]
        omega
      have hfirst' := hfirst.append_left [c]
      have hlast' := hlast.append_left [c]
      rw [← Nat.add_assoc] at hlast'
      rw [hmove] at hfirst' hlast'
      exact ⟨hfirst', hlast'⟩

end TranslationKeys.Utf8
