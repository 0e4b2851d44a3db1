import TranslationKeys.Proofs.Text.Boundary

/-!
# Decoded bytes and slices

Decoding is strict, so bytes that are decoded to a text are its encoding and no other bytes are. A
part of a source that is decoded and encoded again is therefore the same bytes, and positions in it
are positions in the source, moved by where the part starts.
-/

namespace TranslationKeys.Utf8

section Characters

variable {a b d e : UInt8} {rest left : List UInt8} {x y z low n : Nat} {c : Char}

/-- A byte that continues a character carries its six low bits. -/
theorem of_continuation? (h : continuation? b = some x) : x < 64 ∧ b = UInt8.ofNat (0x80 + x) := by
  unfold continuation? at h
  split at h
  · obtain rfl := Option.some.inj h
    refine ⟨by omega, ?_⟩
    rw [Nat.add_sub_cancel' (by omega), UInt8.ofNat_toNat]
  · exact nomatch h

/-- A character that a number stands for has this number. -/
theorem of_scalar? (h : scalar? low n = some c) : low ≤ n ∧ c.toNat = n := by
  unfold scalar? at h
  split at h
  · rename_i hvalid
    obtain rfl := Option.some.inj h
    refine ⟨hvalid.1, ?_⟩
    rw [show Char.ofNat n = Char.ofNatAux n hvalid.2 from dif_pos hvalid.2]
    rfl
  · cases h

/-- A byte is that of the number it carries. -/
theorem eq_ofNat_of_toNat_eq (h : a.toNat = n) : a = UInt8.ofNat n := by
  rw [← h, UInt8.ofNat_toNat]

/-- Two bytes that are decoded to a character are its encoding. -/
theorem encodeChar_of_two (hlow : 0xC0 ≤ a.toNat) (hhigh : a.toNat < 0xE0)
    (hb : continuation? b = some x) (hc : scalar? 0x80 ((a.toNat - 0xC0) * 64 + x) = some c) :
    encodeChar c = [a, b] := by
  obtain ⟨hx, rfl⟩ := of_continuation? hb
  obtain ⟨hleast, hnumber⟩ := of_scalar? hc
  simp only [encodeChar]
  rw [if_neg (by omega), if_pos (by omega), ← eq_ofNat_of_toNat_eq (a := a) (by omega),
    show c.toNat % 64 = x by omega]

/-- Three bytes that are decoded to a character are its encoding. -/
theorem encodeChar_of_three (hlow : 0xE0 ≤ a.toNat) (hhigh : a.toNat < 0xF0)
    (hb : continuation? b = some x) (hd : continuation? d = some y)
    (hc : scalar? 0x800 ((a.toNat - 0xE0) * 4096 + x * 64 + y) = some c) :
    encodeChar c = [a, b, d] := by
  obtain ⟨hx, rfl⟩ := of_continuation? hb
  obtain ⟨hy, rfl⟩ := of_continuation? hd
  obtain ⟨hleast, hnumber⟩ := of_scalar? hc
  simp only [encodeChar]
  rw [if_neg (by omega), if_neg (by omega), if_pos (by omega),
    ← eq_ofNat_of_toNat_eq (a := a) (by omega), show c.toNat / 64 % 64 = x by omega,
    show c.toNat % 64 = y by omega]

/-- Four bytes that are decoded to a character are its encoding. -/
theorem encodeChar_of_four (hlow : 0xF0 ≤ a.toNat) (hhigh : a.toNat < 0xF8)
    (hb : continuation? b = some x) (hd : continuation? d = some y) (he : continuation? e = some z)
    (hc : scalar? 0x10000 ((a.toNat - 0xF0) * 262144 + x * 4096 + y * 64 + z) = some c) :
    encodeChar c = [a, b, d, e] := by
  obtain ⟨hx, rfl⟩ := of_continuation? hb
  obtain ⟨hy, rfl⟩ := of_continuation? hd
  obtain ⟨hz, rfl⟩ := of_continuation? he
  obtain ⟨hleast, hnumber⟩ := of_scalar? hc
  simp only [encodeChar]
  rw [if_neg (by omega), if_neg (by omega), if_neg (by omega),
    ← eq_ofNat_of_toNat_eq (a := a) (by omega), show c.toNat / 4096 % 64 = x by omega,
    show c.toNat / 64 % 64 = y by omega, show c.toNat % 64 = z by omega]

/-- Bytes from which a character is decoded start with its encoding. -/
theorem eq_append_of_decodeChar? {bs : List UInt8} (h : decodeChar? bs = some (c, left)) :
    bs = encodeChar c ++ left := by
  unfold decodeChar? at h
  split at h
  · exact nomatch h
  · rename_i a rest
    simp only at h
    split at h
    · rename_i hascii
      obtain ⟨rfl, rfl⟩ := Prod.mk.inj (Option.some.inj h)
      have hvalid : a.toNat.isValidChar := .inl (by omega)
      have hnumber := (of_scalar? (if_pos ⟨Nat.zero_le _, hvalid⟩)).2
      simp only [encodeChar]
      rw [hnumber, if_pos hascii, UInt8.ofNat_toNat]
      rfl
    · split at h
      · exact nomatch h
      · split at h
        · split at h
          · obtain ⟨x, hx, h⟩ := Option.bind_eq_some_iff.1 h
            obtain ⟨c, hc, heq⟩ := Option.bind_eq_some_iff.1 h
            obtain ⟨rfl, rfl⟩ := Prod.mk.inj (Option.some.inj heq)
            rw [encodeChar_of_two (by omega) (by omega) hx hc]
            rfl
          · exact nomatch h
        · split at h
          · split at h
            · obtain ⟨x, hx, h⟩ := Option.bind_eq_some_iff.1 h
              obtain ⟨y, hy, h⟩ := Option.bind_eq_some_iff.1 h
              obtain ⟨c, hc, heq⟩ := Option.bind_eq_some_iff.1 h
              obtain ⟨rfl, rfl⟩ := Prod.mk.inj (Option.some.inj heq)
              rw [encodeChar_of_three (by omega) (by omega) hx hy hc]
              rfl
            · exact nomatch h
          · split at h
            · split at h
              · obtain ⟨x, hx, h⟩ := Option.bind_eq_some_iff.1 h
                obtain ⟨y, hy, h⟩ := Option.bind_eq_some_iff.1 h
                obtain ⟨z, hz, h⟩ := Option.bind_eq_some_iff.1 h
                obtain ⟨c, hc, heq⟩ := Option.bind_eq_some_iff.1 h
                obtain ⟨rfl, rfl⟩ := Prod.mk.inj (Option.some.inj heq)
                rw [encodeChar_of_four (by omega) (by omega) hx hy hz hc]
                rfl
              · exact nomatch h
            · exact nomatch h

end Characters

/-- Bytes that are decoded to a text within some fuel are its encoding. -/
theorem eq_encode_of_decodeWithin {fuel : Nat} {bs : List UInt8} {cs : List Char}
    (h : decodeWithin fuel bs = some cs) : bs = encode cs := by
  induction fuel generalizing bs cs with
  | zero =>
    cases bs with
    | nil =>
      obtain rfl := Option.some.inj h
      rfl
    | cons b bs => exact nomatch h
  | succ fuel ih =>
    cases bs with
    | nil =>
      obtain rfl := Option.some.inj h
      rfl
    | cons b bs =>
      obtain ⟨⟨c, rest⟩, hchar, h⟩ := Option.bind_eq_some_iff.1 h
      obtain ⟨cs, hrest, heq⟩ := Option.bind_eq_some_iff.1 h
      obtain rfl := Option.some.inj heq
      rw [eq_append_of_decodeChar? hchar, encode_cons, ← ih hrest]

/-- Bytes are decoded to a text exactly if they are its encoding. -/
theorem decode?_eq_some_iff {bs : List UInt8} {cs : List Char} :
    decode? bs = some cs ↔ bs = encode cs := by
  constructor
  · exact eq_encode_of_decodeWithin
  · intro h
    rw [h, decode?_encode]

/-- A slice of a slice is a slice of the whole, moved by where the outer one starts. -/
theorem slice_slice {bs : List UInt8} {first last start stop : Nat} (hstart : start ≤ stop)
    (hstop : stop ≤ (slice bs first last).length) :
    slice (slice bs first last) start stop = slice bs (first + start) (first + stop) := by
  unfold slice at hstop ⊢
  rw [List.length_drop, List.length_take] at hstop
  rw [List.take_drop, List.drop_drop, List.take_take]
  rcases Nat.eq_zero_or_pos stop with rfl | hpos
  · rw [List.drop_of_length_le, List.drop_of_length_le]
    · rw [List.length_take]
      omega
    · rw [List.length_take]
      omega
  · rw [Nat.min_eq_left (by omega)]

/-- A slice of what stands between two lists is a slice of all three. -/
theorem slice_append_append (before : List UInt8) {bs : List UInt8} (after : List UInt8)
    {start stop : Nat} (hstop : stop ≤ bs.length) :
    slice (before ++ bs ++ after) (before.length + start) (before.length + stop) =
      slice bs start stop := by
  unfold slice
  rw [List.append_assoc, List.take_length_add_append, List.drop_length_add_append,
    List.take_append_of_le_length hstop]

end TranslationKeys.Utf8
