/-!
# Blank characters

Two classes of blanks are in use: the Unicode white space characters, which texts are trimmed of,
and the six ASCII blanks, which decide whether a run of bytes is blank.
-/

namespace TranslationKeys

/-- Unicode white space, together with the four ASCII information separators. -/
def isBlank (c : Char) : Bool :=
  let n := c.toNat
  (9 ≤ n && n ≤ 13) || (28 ≤ n && n ≤ 32) || n == 133 || n == 160 || n == 5760 ||
    (8192 ≤ n && n ≤ 8202) || n == 8232 || n == 8233 || n == 8239 || n == 8287 || n == 12288

/-- The blanks a number may be surrounded by in ASCII text: space and the five layout controls. -/
def isAsciiBlank (c : Char) : Bool :=
  let n := c.toNat
  (9 ≤ n && n ≤ 13) || n == 32

/-- A blank byte is an ASCII blank. -/
def isBlankByte (b : UInt8) : Bool :=
  (9 ≤ b.toNat && b.toNat ≤ 13) || b.toNat == 32

/-- A list without the elements of a class at its two ends. -/
def trimBy {α : Type} (drops : α → Bool) (xs : List α) : List α :=
  ((xs.dropWhile drops).reverse.dropWhile drops).reverse

/-- A text without its surrounding blanks. -/
def trimBlanks (cs : List Char) : List Char :=
  trimBy isBlank cs

end TranslationKeys
