/-!
# Code points and texts

A translation key is a sequence of Unicode code points. Keys written with `\uXXXX` escapes may
hold surrogates, which are code points but not characters, so a `Text` is a list of code points
rather than a `String`. Names, paths and source text never hold surrogates and stay `String`.
-/

namespace TranslationKeys

/-- A Unicode code point, surrogates included. -/
abbrev CodePoint := Fin 0x110000

namespace CodePoint

/-- The code point of a character. -/
def ofChar (c : Char) : CodePoint :=
  ⟨c.toNat, by
    have h := c.valid
    simp only [UInt32.isValidChar, Nat.isValidChar] at h
    simp only [Char.toNat]
    omega⟩

/-- Surrogates are the code points that stand for no character. -/
def isSurrogate (p : CodePoint) : Bool :=
  0xD800 ≤ p.val && p.val ≤ 0xDFFF

/-- The character at a code point, if it has one. -/
def toChar? (p : CodePoint) : Option Char :=
  if isSurrogate p then none else some (Char.ofNat p.val)

/-- The code point with a number, if the number is in range. -/
def ofNat? (n : Nat) : Option CodePoint :=
  if h : n < 0x110000 then some ⟨n, h⟩ else none

end CodePoint

/-- A sequence of code points. -/
abbrev Text := List CodePoint

namespace Text

/-- The code points of a list of characters. -/
def ofChars (cs : List Char) : Text :=
  cs.map CodePoint.ofChar

/-- The code points of a string. -/
def ofString (s : String) : Text :=
  ofChars s.toList

/-- The string a text spells, unless it holds a surrogate. -/
def toString? (t : Text) : Option String :=
  (t.mapM CodePoint.toChar?).map String.ofList

/-- Texts are ordered by code point, and a proper initial part comes first. -/
def le : Text → Text → Bool
  | [], _ => true
  | _ :: _, [] => false
  | a :: s, b :: t => if a = b then le s t else decide (a.val < b.val)

/-- The texts of a list in ascending order. -/
def sorted (ts : List Text) : List Text :=
  ts.mergeSort le

end Text

/-- Whether a number lies in one of a list of closed ranges. -/
def inRanges (ranges : List (Nat × Nat)) (n : Nat) : Bool :=
  ranges.any fun r => r.1 ≤ n && n ≤ r.2

/-- Strings are ordered by code point as well. -/
def sortedStrings (ss : List String) : List String :=
  ss.mergeSort fun a b => Text.le (Text.ofString a) (Text.ofString b)

end TranslationKeys
