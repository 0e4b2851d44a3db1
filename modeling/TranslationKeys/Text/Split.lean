/-!
# Splitting

A list is cut at every occurrence of a separator. There is always one piece more than there are
separators, so adjacent separators enclose an empty piece.
-/

namespace TranslationKeys

/-- The pieces of a list between the occurrences of a separator. -/
def splitAtEach {α : Type} [BEq α] (separator : α) : List α → List (List α)
  | [] => [[]]
  | c :: cs =>
    match splitAtEach separator cs with
    | [] => [[]]
    | piece :: pieces =>
      if c == separator then [] :: piece :: pieces else (c :: piece) :: pieces

end TranslationKeys
