import DocSearch.Text.Blank

/-!
# Pieces of a text

A separator character cuts a text into pieces: the one before its first occurrence, and those that
follow. A text without the separator is its own only piece.
-/

namespace DocSearch.Text

/-- The piece before the first separator, and the pieces after it. -/
def cut (separator : Char) : List Char → List Char × List (List Char)
  | [] => ([], [])
  | c :: rest =>
    let (piece, pieces) := cut separator rest
    if c = separator then ([], piece :: pieces) else (c :: piece, pieces)

/-- All pieces of a text, of which there is at least one. -/
def pieces (separator : Char) (s : String) : List String :=
  let (first, others) := cut separator s.toList
  (first :: others).map String.ofList

/-- The pieces of a text, trimmed, without those that are blank. -/
def trimmedPieces (separator : Char) (s : String) : List String :=
  ((pieces separator s).map trim).filter (fun piece => piece ≠ "")

end DocSearch.Text
