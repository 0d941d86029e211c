import ChipEight.Player.Launch
import ChipEight.Proofs.Torus

/-!
# What the window shows

Requests to the window paint points in colours, and a finished picture is shown
as a whole.  Here they are carried out on a window whose points can be looked at:
a rectangle is filled with both its corners.  After the requests of a drawing,
whatever was painted before, the window shows the screen and nothing else.
-/

namespace ChipEight.Player

/-! ## Requests carried out -/

/-- A window with its colour for clearing, the picture that is being painted and
the picture that is shown.  Points without a pixel are painted like all others. -/
structure Window where
  color : BitVec 32
  painted : Nat → Nat → BitVec 32
  shown : Nat → Nat → BitVec 32

namespace Window

/-- Paint some of the points in a colour. -/
def paint
    (window : Window) (area : Nat → Nat → Bool) (color : BitVec 32) : Window :=
  { window with
    painted := fun x y => if area x y then color else window.painted x y }

/-- Carry out a request.  One to another device is nothing to the window. -/
def take (window : Window) : Call → Window
  | .color red green blue alpha =>
    { window with color := red ++ green ++ blue ++ alpha }
  | .clear => window.paint (fun _ _ => true) window.color
  | .box left top right bottom color =>
    window.paint
      (fun x y => (left ≤ x ∧ x ≤ right) ∧ top ≤ y ∧ y ≤ bottom) color
  | .present => { window with shown := window.painted }
  | .start | .video | .audio | .openAudio .. | .window .. | .renderer
  | .events | .resume | .pause | .title _ | .samples _ => window

def takeAll (window : Window) (calls : List Call) : Window :=
  calls.foldl take window

theorem takeAll_append (window : Window) (first second : List Call) :
    window.takeAll (first ++ second) =
      (window.takeAll first).takeAll second :=
  List.foldl_append

/-- The colour of a cleared window. -/
def black : BitVec 32 := 0x000000FF

/-- The window shows a screen: each of its points has the colour of the pixel it
belongs to. -/
def Shows (window : Window) (scale : Nat) (screen : Screen) : Prop :=
  ∀ x < Canvas.windowWidth scale, ∀ y < Canvas.windowHeight scale,
    window.shown x y =
      if screen.pixel (x / scale) (y / scale) then Canvas.white else black

end Window

/-- A request that changes what is painted or shown. -/
def Call.reachesWindow : Call → Bool
  | color .. | clear | box .. | present => true
  | start | video | audio | openAudio .. | window .. | renderer | events
  | resume | pause | title _ | samples _ => false

namespace Window

theorem takeAll_of_elsewhere
    (window : Window) {calls : List Call}
    (elsewhere : ∀ call ∈ calls, call.reachesWindow = false) :
    window.takeAll calls = window := by
  refine List.foldlRecOn (motive := (· = window)) calls take rfl ?_
  rintro _ rfl call among
  have isElsewhere := elsewhere call among
  cases call with
  | color | clear | box | present => cases isElsewhere
  | _ => rfl

/-! ## Squares -/

/-- The square of a pixel is made of the points that belong to the pixel. -/
theorem inside_square_iff
    {scale : Nat} (visible : 0 < scale) (u v x y : Nat) :
    ((u * scale ≤ x ∧ x ≤ u * scale + scale - 1) ∧
        v * scale ≤ y ∧ y ≤ v * scale + scale - 1) ↔
      (x / scale, y / scale) = (u, v) := by
  rw [Prod.mk.injEq, Nat.div_eq_iff visible, Nat.div_eq_iff visible]

theorem take_square
    (window : Window) {scale : Nat} (visible : 0 < scale) (p : Nat × Nat) :
    window.take (Canvas.square scale p) =
      window.paint (fun x y => (x / scale, y / scale) = p) Canvas.white := by
  obtain ⟨u, v⟩ := p
  have sameArea :
      (fun x y => decide ((u * scale ≤ x ∧ x ≤ u * scale + scale - 1) ∧
        v * scale ≤ y ∧ y ≤ v * scale + scale - 1)) =
        fun x y => decide ((x / scale, y / scale) = (u, v)) := by
    funext x y
    rw [decide_eq_decide]
    exact inside_square_iff visible u v x y
  rw [← sameArea]
  rfl

theorem takeAll_squares
    (window : Window) {scale : Nat} (visible : 0 < scale)
    (pixels : List (Nat × Nat)) :
    window.takeAll (pixels.map (Canvas.square scale)) =
      window.paint (fun x y => (x / scale, y / scale) ∈ pixels)
        Canvas.white := by
  induction pixels generalizing window with
  | nil =>
      simp only [List.map_nil, List.not_mem_nil, decide_false, paint]
      rfl
  | cons p rest inductionHypothesis =>
      change (window.take (Canvas.square scale p)).takeAll _ = _
      rw [take_square window visible, inductionHypothesis]
      simp only [paint, List.mem_cons, Window.mk.injEq, true_and, and_true]
      funext x y
      by_cases isFirst : (x / scale, y / scale) = p <;>
        by_cases isLater : (x / scale, y / scale) ∈ rest <;>
        simp [isFirst, isLater]

/-! ## Drawings -/

/-- The requests of a drawing leave the window showing the screen, whatever was
painted before. -/
theorem shows_drawing
    (window : Window) {scale : Nat} (visible : 0 < scale) (screen : Screen) :
    (window.takeAll (Canvas.drawing scale screen)).Shows scale screen := by
  intro x inWidth y inHeight
  have inColumns : x / scale < 64 :=
    Nat.div_lt_of_lt_mul (Nat.mul_comm .. ▸ inWidth)
  have inRows : y / scale < 32 :=
    Nat.div_lt_of_lt_mul (Nat.mul_comm .. ▸ inHeight)
  have drawn :
      (window.takeAll (Canvas.drawing scale screen)).shown =
        ((({ window with color := black } : Window).paint
          (fun _ _ => true) black).takeAll
            (screen.litPositions.map (Canvas.square scale))).painted := by
    simp only [Canvas.drawing, takeAll, List.foldl_cons, List.foldl_append]
    rfl
  rw [drawn, takeAll_squares _ visible]
  simp only [paint, Screen.mem_litPositions, inColumns, inRows, true_and,
    and_self, decide_eq_true_eq, if_true]

end Window

end ChipEight.Player
