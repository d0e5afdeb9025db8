/-!
# Splitting texts

A text is cut at every occurrence of a character; the parts, put together again with that
character between them, are the text.
-/

namespace Pedalboard

/-- The parts between the occurrences of a character, at least one. -/
def splitChars (sep : Char) : List Char → List (List Char)
  | [] => [[]]
  | c :: cs =>
    if c = sep then [] :: splitChars sep cs
    else match splitChars sep cs with
      | [] => [[c]]
      | part :: parts => (c :: part) :: parts

/-- The parts of a text between the occurrences of a character. -/
def splitText (sep : Char) (text : String) : List String :=
  (splitChars sep text.toList).map String.ofList

end Pedalboard
