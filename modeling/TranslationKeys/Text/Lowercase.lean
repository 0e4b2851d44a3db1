import TranslationKeys.Text.CaseTable
import TranslationKeys.Text.CodePoint

/-!
# Lower case

Full lower-casing as Unicode defines it. It works character by character with two exceptions:
the dotted capital I becomes two characters, and a capital sigma becomes the final form where it
ends a word.
-/

namespace TranslationKeys

/-- Whether a character is cased and counts when the neighbours of a sigma are inspected. -/
def isCased (c : Char) : Bool :=
  inRanges casedRanges c.toNat

/-- Whether a character is skipped when the neighbours of a sigma are inspected. -/
def isCaseIgnorable (c : Char) : Bool :=
  inRanges caseIgnorableRanges c.toNat

/-- Whether a run of capitals holds a number. -/
def CaseRun.holds (run : CaseRun) (n : Nat) : Bool :=
  run.first ≤ n && n ≤ run.last && (n - run.first) % run.step == 0

/-- The lower-case form of a character that does not depend on its neighbours. -/
def simpleLower (c : Char) : Char :=
  match caseRuns.find? (·.holds c.toNat) with
  | some run => Char.ofNat (Int.toNat (c.toNat + run.shift))
  | none => c

/-- Whether the first character that is not skipped is a cased one. -/
def meetsCased (cs : List Char) : Bool :=
  match cs.dropWhile isCaseIgnorable with
  | [] => false
  | c :: _ => isCased c

/-- The lower-case form of a character between the characters before it, nearest first, and the
characters after it. -/
def lowerBetween (before : List Char) (c : Char) (after : List Char) : List Char :=
  if c.toNat == 0x130 then
    ['i', Char.ofNat 0x307]
  else if c.toNat == 0x3A3 then
    [Char.ofNat (if meetsCased before && !meetsCased after then 0x3C2 else 0x3C3)]
  else
    [simpleLower c]

/-- The lower-case form of a text that follows the given characters, nearest first. -/
def lowerAfter : List Char → List Char → List Char
  | _, [] => []
  | before, c :: after => lowerBetween before c after ++ lowerAfter (c :: before) after

/-- The lower-case form of a text. -/
def lowercase (cs : List Char) : List Char :=
  lowerAfter [] cs

/-- The lower-case form of a string. -/
def lowercaseString (s : String) : String :=
  String.ofList (lowercase s.toList)

end TranslationKeys
