/-!
# Cutting text at a character

A text with `n` separators has `n + 1` pieces, the empty ones included.
-/

namespace DomainLang.Text

/-- The pieces between occurrences of the separator. -/
def piecesOf (separator : Char) : List Char → List (List Char)
  | [] => [[]]
  | character :: rest =>
    if character = separator then [] :: piecesOf separator rest
    else
      match piecesOf separator rest with
      | [] => [[character]]
      | first :: others => (character :: first) :: others

/-- The pieces of a text between occurrences of the separator. -/
def pieces (separator : Char) (text : String) : List String :=
  (piecesOf separator text.toList).map String.ofList

/-- The text before the first separator and the text after it, which is empty
when there is no separator. -/
def cutFirst (separator : Char) (text : String) : String × String :=
  let before := text.toList.takeWhile (· ≠ separator)
  let after := text.toList.dropWhile (· ≠ separator)
  (String.ofList before, String.ofList after.tail)

end DomainLang.Text
