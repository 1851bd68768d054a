import SignHash.Bytes

/-!
# Lines of a byte string

A line ends at a line feed, and one carriage return directly before the line feed belongs to the
ending. What follows the last line feed is a line too, unless it is empty; a carriage return at
its end is part of it.
-/

namespace SignHash.Text

/-- The pieces between the line feeds of a byte string; there is always a last one. -/
def piecesBetweenFeeds : Bytes → List Bytes
  | [] => [[]]
  | b :: rest =>
    if b = 10 then [] :: piecesBetweenFeeds rest
    else
      match piecesBetweenFeeds rest with
      | [] => [[b]]
      | piece :: more => (b :: piece) :: more

/-- A line without one carriage return at its end. -/
def dropReturn (line : Bytes) : Bytes :=
  if line.getLast? = some 13 then line.dropLast else line

/-- The lines among the pieces: all of them ended by a line feed but the last. -/
def linesOfPieces : List Bytes → List Bytes
  | [] => []
  | [last] => if last.isEmpty then [] else [last]
  | piece :: more => dropReturn piece :: linesOfPieces more

/-- The lines of a byte string, without their endings. -/
def lines (bytes : Bytes) : List Bytes := linesOfPieces (piecesBetweenFeeds bytes)

end SignHash.Text
