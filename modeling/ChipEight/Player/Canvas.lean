import ChipEight.Player.Device

/-!
# Drawing the screen

Each lit pixel becomes a white square on black, `scale` window points wide and
high.  Squares are given by their first and last points.
-/

namespace ChipEight.Player.Canvas

/-- The title of a silent window. -/
def quietTitle : String := "CHIP-8"

/-- The title while a sound is heard. -/
def soundingTitle : String := "CHIP-8 [beep]"

/-- The colour of lit pixels. -/
def white : BitVec 32 := 0xFFFFFFFF

/-- The width of a window for the whole screen. -/
def windowWidth (scale : Nat) : Nat := Screen.width * scale

/-- The height of a window for the whole screen. -/
def windowHeight (scale : Nat) : Nat := Screen.height * scale

/-- The square of a pixel. -/
def square (scale : Nat) : Nat × Nat → Call
  | (x, y) =>
    .box (x * scale) (y * scale)
      (x * scale + scale - 1) (y * scale + scale - 1) white

/-- The requests that draw a screen: all black, then the squares of the lit
pixels row by row, then the finished picture is shown. -/
def drawing (scale : Nat) (screen : Screen) : List Call :=
  .color 0 0 0 0xFF :: .clear ::
    (screen.litPositions.map (square scale) ++ [.present])

end ChipEight.Player.Canvas
