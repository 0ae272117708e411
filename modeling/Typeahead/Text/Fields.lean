/-!
# Fields of text

Text cut at a separator.  There is always one field more than there are separators,
so the empty text is one empty field.
-/

namespace Typeahead.Text

/-- The pieces of a text between separators. -/
def fields (separator : Char) : List Char → List (List Char)
  | [] => [[]]
  | c :: cs =>
      if c = separator then [] :: fields separator cs
      else match fields separator cs with
        | [] => [[c]]
        | f :: fs => (c :: f) :: fs

/-- Drops the empty fields at the end. -/
def dropEmptyTail : List (List Char) → List (List Char)
  | [] => []
  | f :: fs =>
      match dropEmptyTail fs with
      | [] => if f.isEmpty then [] else [f]
      | rest => f :: rest

end Typeahead.Text
