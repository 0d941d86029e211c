import ChipEight.Word
import ChipEight.Screen

/-!
# Sprites

A sprite is a column of rows of eight pixels.  Each row is a byte whose highest
bit is the leftmost pixel.  Drawing flips the pixels under the set bits.
-/

namespace ChipEight.Sprite

/-- The pixels under the set bits of one row whose left end is at `(x, y)`. -/
def rowCells (x y : Nat) (bits : Byte) : List (Nat × Nat) :=
  ((List.range 8).filter fun p => bits.getMsbD p).map fun p => (x + p, y)

/-- The pixels under the set bits of a sprite whose top left is at `(x, y)`. -/
def cells (x y : Nat) : List Byte → List (Nat × Nat)
  | [] => []
  | bits :: rest => rowCells x y bits ++ cells x (y + 1) rest

theorem cells_concat (x y : Nat) (rows : List Byte) (bits : Byte) :
    cells x y (rows ++ [bits]) =
      cells x y rows ++ rowCells x (y + rows.length) bits := by
  induction rows generalizing y with
  | nil =>
      simp [cells]
  | cons first rest inductionHypothesis =>
      have sameLine : y + 1 + rest.length = y + (rest.length + 1) := by
        omega
      simp [cells, inductionHypothesis, sameLine]

end ChipEight.Sprite

namespace ChipEight.Screen

/-- Draw a sprite with its top left at `(x, y)`.  The first component tells
whether a lit pixel was turned off. -/
def drawSprite (screen : Screen) (x y : Nat) (rows : List Byte) :
    Bool × Screen :=
  screen.flipAll (Sprite.cells x y rows)

end ChipEight.Screen
