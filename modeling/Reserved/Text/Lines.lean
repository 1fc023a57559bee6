import Reserved.Text.Blank

/-!
# Lines

A line feed ends a line, and a carriage return right before it belongs to the ending. What
follows the last line feed is a line only if there is something.
-/

namespace Reserved

/-- A line without the carriage return of its ending. -/
def dropReturn (line : List Char) : List Char :=
  if line.getLast? = some '\r' then line.dropLast else line

/-- Each piece but the last was ended by a line feed. -/
def linesOfPieces : List (List Char) → List (List Char)
  | [] => []
  | [last] => if last = [] then [] else [last]
  | line :: rest => dropReturn line :: linesOfPieces rest

def lines (cs : List Char) : List (List Char) :=
  linesOfPieces (splitWhere (· == '\n') cs)

end Reserved
