import MapStyle.Schema.Basic

/-!
# The closest name

How many single-character insertions, deletions and substitutions turn one
text into another, and which known name is the fewest of them away. The
distances from a piece of the first text to every initial piece of the second
form a **row**; one character more of the first text turns a row into the
next, and the last entry of the last row is the distance.
-/

namespace MapStyle

namespace Text

/-- The rest of the row below, after its entry `left`: `previous` is the row
above from the entry diagonally before the next one on. -/
def extendRow (x : Char) (left : Nat) : List Char → List Nat → List Nat
  | y :: ys, diagonal :: above :: previous =>
    let entry := min (min (above + 1) (left + 1)) (diagonal + if x = y then 0 else 1)
    entry :: extendRow x entry ys (above :: previous)
  | _, _ => []

/-- The row below a row, after one character more of the first text. -/
def nextRow (b : List Char) (previous : List Nat) (x : Char) : List Nat :=
  match previous with
  | [] => []
  | first :: _ => (first + 1) :: extendRow x (first + 1) b previous

/-- **The number of edits** between two sequences of characters. -/
def editDistanceOf (a b : List Char) : Nat :=
  (a.foldl (nextRow b) (List.range (b.length + 1))).getLastD 0

/-- **The number of edits** between two texts. -/
def editDistance (a b : String) : Nat := editDistanceOf a.toList b.toList

end Text

namespace Schema

/-- A name at some distance from another. -/
structure Neighbour where
  name : String
  distance : Nat
deriving DecidableEq

/-- The nearer of two neighbours; at a tie the first. -/
def Neighbour.nearer (best : Option Neighbour) (n : Neighbour) : Option Neighbour :=
  match best with
  | none => some n
  | some b => if n.distance < b.distance then some n else some b

/-- **The known name nearest to another**; at a tie the first in the
document. -/
def closest? (schema : Schema) (css : String) : Option Neighbour :=
  (schema.names.map fun name => ⟨name, Text.editDistance css name⟩).foldl Neighbour.nearer none

end Schema

end MapStyle
