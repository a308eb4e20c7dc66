/-! # Pieces of a text

A text with separators in it is the list of the pieces between them, of which there is always
one more than there are separators.
-/
namespace AccessControl

/-- The pieces of a list between separators. -/
def pieces (separator : Char) : List Char → List (List Char)
  | [] => [[]]
  | c :: cs =>
    match pieces separator cs with
    | [] => [[c]]
    | piece :: rest => if c = separator then [] :: piece :: rest else (c :: piece) :: rest

end AccessControl
