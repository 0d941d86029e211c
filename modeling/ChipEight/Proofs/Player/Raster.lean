import ChipEight.Proofs.Player.Frames
import ChipEight.Proofs.Player.Window

/-!
# Squares that tile the window

The host takes the coordinates of a corner in sixteen bits with a sign, and one that
does not fit is reported.  A drawing that goes through the rows of the screen and
converts every coordinate is set beside the requests that the player makes: as long
as the window is no wider than such a coordinate can be, no conversion fails and
both are the same.  The squares lie in the window, no two of them share a point, and
there is one for each lit pixel.
-/

namespace ChipEight.Player

namespace Canvas

/-! ## Coordinates in sixteen bits -/

/-- A coordinate in sixteen bits with a sign, or the report of one that does not
fit. -/
def coordinate (v : Int) : Except String Int :=
  if -32768 ≤ v ∧ v ≤ 32767 then .ok v
  else .error "out of range integral type conversion attempted"

/-- The request for the square of a pixel, if all coordinates fit. -/
def squareAttempt (scale x y : Nat) : Except String Call := do
  let left ← coordinate (x * scale)
  let top ← coordinate (y * scale)
  let right ← coordinate (x * scale + scale - 1)
  let bottom ← coordinate (y * scale + scale - 1)
  return .box left.toNat top.toNat right.toNat bottom.toNat white

/-- The requests for the lit pixels of a row. -/
def rowAttempts (scale : Nat) (row : List Bool) (y : Nat) :
    List (Except String Call) :=
  (row.zipIdx.filter fun p => p.1).map fun p => squareAttempt scale p.2 y

/-- The requests that draw a screen, row by row, each with the chance that its
coordinates do not fit. -/
def attempts (scale : Nat) (screen : Screen) : List (Except String Call) :=
  [.ok (.color 0 0 0 0xFF), .ok .clear] ++
    (screen.rows.zipIdx.flatMap fun p => rowAttempts scale p.1 p.2) ++
      [.ok .present]

theorem coordinate_natCast {n : Nat} (fits : n ≤ 32767) :
    coordinate n = .ok n := by
  rw [coordinate, if_pos]
  omega

/-- The square of one of a row of pixels ends before the row does. -/
theorem square_inside {u count : Nat} (inside : u < count) (scale : Nat) :
    u * scale + scale ≤ count * scale := by
  rw [← Nat.succ_mul]
  exact Nat.mul_le_mul_right scale inside

theorem squareAttempt_eq
    {scale x y : Nat} (visible : 1 ≤ scale) (fits : 64 * scale ≤ 32768)
    (inWidth : x < 64) (inHeight : y < 32) :
    squareAttempt scale x y = .ok (square scale (x, y)) := by
  have width := square_inside inWidth scale
  have height := square_inside inHeight scale
  have left : (x * scale : Int) = (x * scale : Nat) := rfl
  have top : (y * scale : Int) = (y * scale : Nat) := rfl
  have right :
      (x * scale + scale - 1 : Int) = (x * scale + scale - 1 : Nat) := by
    omega
  have bottom :
      (y * scale + scale - 1 : Int) = (y * scale + scale - 1 : Nat) := by
    omega
  rw [squareAttempt, right, bottom, left, top,
    coordinate_natCast (by omega), coordinate_natCast (by omega),
    coordinate_natCast (by omega), coordinate_natCast (by omega)]
  rfl

/-- One step above the largest scale on which all squares fit, the last column does
not. -/
example :
    squareAttempt 512 63 0 = .ok (square 512 (63, 0)) ∧
      squareAttempt 513 63 0 =
        .error "out of range integral type conversion attempted" :=
  ⟨rfl, rfl⟩

/-! ## Row by row -/

theorem zipIdx_map_range {α : Type} (f : Nat → α) (count : Nat) :
    ((List.range count).map f).zipIdx =
      (List.range count).map fun k => (f k, k) := by
  induction count with
  | zero =>
      rfl
  | succ count inductionHypothesis =>
      simp [List.range_succ, List.zipIdx_append, inductionHypothesis]

/-- Going through the rows meets the lit pixels in the order of their list. -/
theorem flatMap_rows {α : Type} (screen : Screen) (f : Nat → Nat → α) :
    (screen.rows.zipIdx.flatMap fun p =>
      (p.1.zipIdx.filter fun q => q.1).map fun q => f q.2 p.2) =
      screen.litPositions.map fun p => f p.1 p.2 := by
  simp only [Screen.rows, Screen.row, Screen.litPositions, Screen.positions,
    zipIdx_map_range, List.flatMap_map, List.filter_flatMap, List.map_flatMap,
    List.filter_map, List.map_map]
  rfl

/-- In a window whose coordinates fit, no conversion fails. -/
theorem attempts_eq
    {scale : Nat} (visible : 1 ≤ scale) (fits : 64 * scale ≤ 32768)
    (screen : Screen) :
    attempts scale screen = (drawing scale screen).map .ok := by
  have squares :
      screen.litPositions.map (fun p => squareAttempt scale p.1 p.2) =
        screen.litPositions.map fun p => .ok (square scale p) := by
    apply List.map_congr_left
    intro p isLit
    obtain ⟨⟨inWidth, inHeight⟩, _⟩ := (screen.mem_litPositions p).mp isLit
    exact squareAttempt_eq visible fits inWidth inHeight
  have inRows := flatMap_rows screen (squareAttempt scale)
  simp only [attempts, rowAttempts, inRows, squares, drawing, List.map_cons,
    List.map_append, List.map_map, List.map_nil, List.cons_append,
    List.nil_append]
  rfl

end Canvas

/-- Make requests in order, up to the first that fails or cannot be made. -/
def Devices.attempt (devices : Devices) :
    List (Except String Call) → List Call × Option String
  | [] => ([], none)
  | .error report :: _ => ([], some report)
  | .ok call :: rest =>
    match devices.request [call] with
    | (made, some report) => (made, some report)
    | (made, none) =>
      let (later, failure) := devices.attempt rest
      (made ++ later, failure)

theorem Devices.attempt_map_ok (devices : Devices) (calls : List Call) :
    devices.attempt (calls.map .ok) = devices.request calls := by
  induction calls with
  | nil =>
      rfl
  | cons call rest inductionHypothesis =>
      rw [List.map_cons]
      cases needed : call.device? with
      | none =>
          simp only [attempt, request, needed, inductionHypothesis,
            List.singleton_append]
      | some device =>
          by_cases fails : devices.failing = some device
          · simp only [attempt, request, needed, if_pos fails]
          · simp only [attempt, request, needed, if_neg fails,
              inductionHypothesis, List.singleton_append]

theorem device_of_mem_drawing
    {scale : Nat} {screen : Screen} {call : Call} {device : Device}
    (isDrawn : call ∈ Canvas.drawing scale screen)
    (needs : call.device? = some device) : device = .box := by
  simp only [Canvas.drawing, List.mem_cons, List.mem_append, List.mem_map,
    List.not_mem_nil, or_false] at isDrawn
  rcases isDrawn with rfl | rfl | ⟨p, _, rfl⟩ | rfl <;> cases needs
  rfl

/-! ## Areas -/

/-- The points between two corners, both of them included. -/
structure Area where
  left : Nat
  top : Nat
  right : Nat
  bottom : Nat
deriving DecidableEq, Repr

def Area.Has (area : Area) (x y : Nat) : Prop :=
  (area.left ≤ x ∧ x ≤ area.right) ∧ area.top ≤ y ∧ y ≤ area.bottom

/-- The area that a request fills. -/
def Call.area? : Call → Option Area
  | box left top right bottom _ => some ⟨left, top, right, bottom⟩
  | _ => none

namespace Canvas

/-- The area of a pixel. -/
def area (scale : Nat) (p : Nat × Nat) : Area where
  left := p.1 * scale
  top := p.2 * scale
  right := p.1 * scale + scale - 1
  bottom := p.2 * scale + scale - 1

theorem area_has_iff
    {scale : Nat} (visible : 0 < scale) (p : Nat × Nat) (x y : Nat) :
    (area scale p).Has x y ↔ (x / scale, y / scale) = p :=
  Window.inside_square_iff visible p.1 p.2 x y

theorem areas_drawing (scale : Nat) (screen : Screen) :
    (drawing scale screen).filterMap Call.area? =
      screen.litPositions.map (area scale) := by
  have squares :
      (screen.litPositions.map (square scale)).filterMap Call.area? =
        screen.litPositions.map (area scale) := by
    rw [List.filterMap_map, ← List.filterMap_eq_map]
    rfl
  simp only [drawing, List.filterMap_cons, List.filterMap_append, squares]
  exact List.append_nil _

theorem areas_disjoint
    {scale : Nat} (visible : 0 < scale) (screen : Screen) :
    (screen.litPositions.map (area scale)).Pairwise fun a b =>
      ∀ x y, ¬(a.Has x y ∧ b.Has x y) := by
  rw [List.pairwise_map]
  refine (Screen.nodup_positions.filter _).imp ?_
  intro p q different x y shared
  rw [area_has_iff visible, area_has_iff visible] at shared
  exact different (shared.1.symm.trans shared.2)

theorem area_inside
    {scale : Nat} (visible : 0 < scale) {screen : Screen} {a : Area}
    (isDrawn : a ∈ screen.litPositions.map (area scale)) :
    (a.left ≤ a.right ∧ a.right < 64 * scale) ∧
      a.top ≤ a.bottom ∧ a.bottom < 32 * scale := by
  obtain ⟨p, isLit, rfl⟩ := List.mem_map.mp isDrawn
  obtain ⟨⟨inWidth, inHeight⟩, _⟩ := (screen.mem_litPositions p).mp isLit
  have width := square_inside inWidth scale
  have height := square_inside inHeight scale
  simp only [area]
  omega

end Canvas

/-! ## The law of the picture -/

/-- On a scale from one to sixty-four the coordinates of a drawing always fit, so
that it succeeds if the host can fill rectangles.  Then each point of the window has
the colour of the pixel that it belongs to: there is one area for each lit pixel,
row by row, no two areas share a point, and all are inside the window that was
asked for. -/
theorem drawing_tiles_window
    (screen : Screen) {scale : Nat} (visible : 1 ≤ scale) (fits : scale ≤ 64) :
    let drawing := Canvas.drawing scale screen
    let areas := drawing.filterMap Call.area?
    (∀ devices : Devices,
      devices.attempt (Canvas.attempts scale screen) =
          devices.request drawing ∧
        (devices.failing ≠ some .box →
          devices.request drawing = (drawing, none))) ∧
    (∀ window : Window, ∀ x < 64 * scale, ∀ y < 32 * scale,
      let shown := (window.takeAll drawing).shown x y
      let lit := screen.pixel (x / scale) (y / scale)
      (shown = Canvas.white ↔ lit = true) ∧
        (shown = Window.black ↔ lit = false)) ∧
    areas =
      ((List.range 2048).filter fun k => screen.pixel (k % 64) (k / 64)).map
        (fun k => Canvas.area scale (k % 64, k / 64)) ∧
    areas.length = screen.litCount ∧
    (areas.Pairwise fun a b => ∀ x y, ¬(a.Has x y ∧ b.Has x y)) ∧
    Call.window Canvas.quietTitle (64 * scale) (32 * scale) ∈
      preparation scale ∧
    ∀ a ∈ areas,
      (a.left ≤ a.right ∧ a.right < 64 * scale) ∧
        a.top ≤ a.bottom ∧ a.bottom < 32 * scale := by
  intro drawing areas
  have areasAre : areas = screen.litPositions.map (Canvas.area scale) :=
    Canvas.areas_drawing scale screen
  refine ⟨?_, ?_, ?_, ?_, ?_, ?_, ?_⟩
  · intro devices
    constructor
    · rw [Canvas.attempts_eq visible (by omega), devices.attempt_map_ok]
    · intro works
      have succeeds : (devices.request drawing).2 = none := by
        apply Session.request_of_unneeded
        intro call isDrawn device needs
        rw [device_of_mem_drawing isDrawn needs]
        exact works
      exact Prod.ext (Session.request_of_none succeeds) succeeds
  · intro window x inWidth y inHeight shown lit
    have shows :
        shown = if lit = true then Canvas.white else Window.black :=
      window.shows_drawing visible screen x inWidth y inHeight
    have contrast : Canvas.white ≠ Window.black := by decide
    rw [shows]
    cases lit with
    | false => simp [contrast.symm]
    | true => simp [contrast]
  · rw [areasAre, Screen.litPositions, Screen.positions_eq_map_range,
      List.filter_map, List.map_map]
    rfl
  · rw [areasAre, List.length_map, Screen.litCount_eq_countP,
      List.countP_eq_length_filter]
    rfl
  · rw [areasAre]
    exact Canvas.areas_disjoint visible screen
  · simp [preparation, Canvas.windowWidth, Canvas.windowHeight, Screen.width,
      Screen.height]
  · intro a isDrawn
    rw [areasAre] at isDrawn
    exact Canvas.area_inside visible isDrawn

/-- A screen with one lit pixel, the one farthest from the first. -/
def farCorner : Screen := (Screen.dark.flip 63 31).2

/-- A window that nothing has been painted in. -/
def unpainted : Window where
  color := 0
  painted := fun _ _ => 0
  shown := fun _ _ => 0

/-- On the largest scale the square of the last pixel ends at the last point of the
window, and the square of its dark neighbour is left black up to the end. -/
theorem farCorner_tiles_window :
    (1 ≤ 64 ∧ 64 ≤ 64) ∧
      ({} : Devices).attempt (Canvas.attempts 64 farCorner) =
        (Canvas.drawing 64 farCorner, none) ∧
      (unpainted.takeAll (Canvas.drawing 64 farCorner)).shown 4095 2047 =
        Canvas.white ∧
      (unpainted.takeAll (Canvas.drawing 64 farCorner)).shown 4031 2047 =
        Window.black := by
  have visible : 1 ≤ 64 := by decide
  have fits : 64 ≤ 64 := by decide
  have pixelIs : ∀ u v, farCorner.pixel u v = Screen.covers u v (63, 31) := by
    intro u v
    rw [farCorner, Screen.pixel_flip, Screen.pixel_dark, Bool.false_xor]
  have lit : farCorner.pixel (4095 / 64) (2047 / 64) = true := by
    rw [pixelIs]
    decide
  have dark : farCorner.pixel (4031 / 64) (2047 / 64) = false := by
    rw [pixelIs]
    decide
  obtain ⟨made, shows, _⟩ := drawing_tiles_window farCorner visible fits
  obtain ⟨sameCalls, succeeds⟩ := made {}
  refine ⟨⟨visible, fits⟩, ?_, ?_, ?_⟩
  · rw [sameCalls]
    exact succeeds (by decide)
  · exact (shows unpainted 4095 (by decide) 2047 (by decide)).1.mpr lit
  · exact (shows unpainted 4031 (by decide) 2047 (by decide)).2.mpr dark

end ChipEight.Player
