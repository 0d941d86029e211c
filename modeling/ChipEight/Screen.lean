/-!
# The screen

A monochrome picture of 64 by 32 pixels.  Coordinates of any size name a pixel:
they wrap around at both edges.  A pixel changes only by being flipped or by
darkening the whole screen.
-/

namespace ChipEight

/-- The picture, row by row from the top left. -/
structure Screen where
  cells : Vector Bool 2048
deriving DecidableEq, Repr

namespace Screen

def width : Nat := 64

def height : Nat := 32

/-- The place of a pixel in the row-by-row order. -/
def offset (x y : Nat) : Nat := 64 * (y % 32) + x % 64

theorem offset_lt (x y : Nat) : offset x y < 2048 := by
  unfold offset
  omega

/-- Two pairs of coordinates name one pixel exactly when they agree up to whole
turns around the edges. -/
theorem offset_eq_iff (x y u v : Nat) :
    offset x y = offset u v ↔ x % 64 = u % 64 ∧ y % 32 = v % 32 := by
  unfold offset
  omega

/-! ## Pixels -/

def dark : Screen := ⟨Vector.replicate 2048 false⟩

/-- Whether the pixel at some coordinates is lit. -/
def pixel (screen : Screen) (x y : Nat) : Bool :=
  have bounded := offset_lt x y
  screen.cells[offset x y]

/-- Turn a lit pixel off or a dark one on.  The first component tells whether
the pixel was lit, which is a collision. -/
def flip (screen : Screen) (x y : Nat) : Bool × Screen :=
  let lit := screen.pixel x y
  (lit, ⟨screen.cells.set (offset x y) (!lit) (offset_lt x y)⟩)

/-- Flip several pixels in turn.  The first component tells whether any flip
turned a pixel off. -/
def flipAll (screen : Screen) : List (Nat × Nat) → Bool × Screen
  | [] => (false, screen)
  | (x, y) :: rest =>
    let (hit, flipped) := screen.flip x y
    let (laterHit, final) := flipped.flipAll rest
    (hit || laterHit, final)

theorem flipAll_append
    (screen : Screen) (first second : List (Nat × Nat)) :
    screen.flipAll (first ++ second) =
      ((screen.flipAll first).1 || ((screen.flipAll first).2.flipAll second).1,
        ((screen.flipAll first).2.flipAll second).2) := by
  induction first generalizing screen with
  | nil =>
      simp [flipAll]
  | cons p rest inductionHypothesis =>
      simp [flipAll, inductionHypothesis, Bool.or_assoc]

/-! ## Views of the whole picture -/

def litCount (screen : Screen) : Nat :=
  screen.cells.count true

def row (screen : Screen) (y : Nat) : List Bool :=
  (List.range width).map fun x => screen.pixel x y

def rows (screen : Screen) : List (List Bool) :=
  (List.range height).map screen.row

/-- The coordinates of all pixels, row by row. -/
def positions : List (Nat × Nat) :=
  (List.range height).flatMap fun y => (List.range width).map fun x => (x, y)

/-- The coordinates of the lit pixels, row by row. -/
def litPositions (screen : Screen) : List (Nat × Nat) :=
  positions.filter fun (x, y) => screen.pixel x y

/-! ## Reading a pixel back -/

@[simp] theorem pixel_dark (x y : Nat) : dark.pixel x y = false := by
  simp [dark, pixel]

@[simp] theorem flip_fst (screen : Screen) (x y : Nat) :
    (screen.flip x y).1 = screen.pixel x y := rfl

/-- Whether a pair of coordinates names the pixel at `(u, v)`. -/
def covers (u v : Nat) (p : Nat × Nat) : Bool :=
  decide (p.1 % 64 = u % 64 ∧ p.2 % 32 = v % 32)

theorem pixel_flip (screen : Screen) (x y u v : Nat) :
    (screen.flip x y).2.pixel u v =
      (screen.pixel u v ^^ covers u v (x, y)) := by
  by_cases h : offset x y = offset u v
  · have hsame := (offset_eq_iff x y u v).1 h
    simp [flip, pixel, covers, h, hsame]
  · have hother := mt (offset_eq_iff x y u v).2 h
    simp [flip, pixel, covers, h, hother]

/-- After several flips a pixel has changed exactly if it was flipped an odd
number of times. -/
theorem pixel_flipAll (screen : Screen) (cells : List (Nat × Nat))
    (u v : Nat) :
    (screen.flipAll cells).2.pixel u v =
      (screen.pixel u v ^^
        decide (cells.countP (covers u v) % 2 = 1)) := by
  induction cells generalizing screen with
  | nil => simp [flipAll]
  | cons p rest ih =>
    obtain ⟨x, y⟩ := p
    simp only [flipAll, ih, pixel_flip, List.countP_cons]
    cases covers u v (x, y) with
    | false => simp
    | true =>
      have hparity := Nat.mod_two_eq_zero_or_one (rest.countP (covers u v))
      rcases hparity with heven | hodd
      · have hnext : (rest.countP (covers u v) + 1) % 2 = 1 := by omega
        simp [heven, hnext]
      · have hnext : (rest.countP (covers u v) + 1) % 2 = 0 := by omega
        simp [hodd, hnext]

end Screen

end ChipEight
