import ChipEight.Proofs.Parity
import ChipEight.Proofs.Wide.Devices
import Mathlib.Data.List.DropRight

/-!
# Flips counted on the torus

A screen is touched by darkening it and by flipping pixels at coordinates of
sixty-four bits.  A pixel is lit exactly if it was flipped an odd number of times
since the screen was last darkened, whatever names of it the flips used.  The same
touches made in checked arithmetic on a row of 2048 cells meet no breach.
-/

namespace ChipEight

namespace Screen

/-! ## Touches -/

/-- A way to touch a screen. -/
inductive Touch
  | darken
  | flip (x y : BitVec 64)
deriving DecidableEq, Repr

/-- What a touch makes of a screen. -/
def Touch.change (touch : Touch) (screen : Screen) : Screen :=
  match touch with
  | darken => .dark
  | flip x y => (screen.flip x.toNat y.toNat).2

/-- Whether a touch flips the pixel `(a, b)`, by any name of it. -/
def Touch.flips (a b : Nat) : Touch → Bool
  | darken => false
  | flip x y => covers a b (x.toNat, y.toNat)

/-- The screen that touches leave of a dark one. -/
def touched (touches : List Touch) : Screen :=
  touches.foldl (fun screen touch => touch.change screen) .dark

/-- How often the pixel `(a, b)` was flipped since the screen was last darkened. -/
def flipCount (touches : List Touch) (a b : Nat) : Nat :=
  (touches.rtakeWhile fun touch => touch ≠ .darken).countP (Touch.flips a b)

theorem touched_concat (touches : List Touch) (touch : Touch) :
    touched (touches ++ [touch]) = touch.change (touched touches) :=
  List.foldl_concat _ _ _ _

theorem flipCount_darken (touches : List Touch) (a b : Nat) :
    flipCount (touches ++ [.darken]) a b = 0 := by
  rw [flipCount, List.rtakeWhile_concat_neg _ _ _ (by simp)]
  rfl

theorem flipCount_flip
    (touches : List Touch) (x y : BitVec 64) (a b : Nat) :
    flipCount (touches ++ [.flip x y]) a b =
      flipCount touches a b + [(x.toNat, y.toNat)].countP (covers a b) := by
  rw [flipCount, List.rtakeWhile_concat_pos _ _ _ (by simp),
    List.countP_append]
  rfl

/-- The induction is on the touches from the first to the last, since the count
starts afresh at the last darkening. -/
theorem pixel_touched_iff (touches : List Touch) (a b : Nat) :
    (touched touches).pixel a b = true ↔
      flipCount touches a b % 2 = 1 := by
  induction touches using List.reverseRecOn with
  | nil =>
      simp [touched, flipCount]
  | append_singleton earlier touch inductionHypothesis =>
      rw [touched_concat]
      cases touch with
      | darken =>
          simp [Touch.change, flipCount_darken]
      | flip x y =>
          have oneFlip := pixel_flipAll (touched earlier)
            [(x.toNat, y.toNat)] a b
          rw [flipCount_flip]
          refine Iff.trans (Bool.eq_iff_iff.mp oneFlip) ?_
          exact xor_eq_true_iff inductionHypothesis _

/-! ## Lit pixels -/

theorem flipAll_singleton (screen : Screen) (x y : Nat) :
    screen.flipAll [(x, y)] = screen.flip x y := by
  simp [flipAll, flip]

/-- Among the pixels of the screen a flip meets one, which is lit or not. -/
theorem countP_hit (screen : Screen) (x y : Nat) :
    (positions.countP fun p =>
      screen.pixel p.1 p.2 && decide (p ∈ [(x, y)].map wrap)) =
      (screen.pixel x y).toNat := by
  have once :
      (positions.countP fun p => decide (p ∈ [(x, y)].map wrap)) = 1 :=
    countP_positions_of_nodup (List.nodup_singleton _)
  have here : ∀ p ∈ positions,
      (screen.pixel p.1 p.2 && decide (p ∈ [(x, y)].map wrap)) = true ↔
        (screen.pixel x y && decide (p ∈ [(x, y)].map wrap)) = true := by
    intro p inside
    rw [Bool.and_eq_true_iff, Bool.and_eq_true_iff]
    apply and_congr_left
    intro named
    have sameName : wrap p = wrap (x, y) := by
      rw [wrap_eq_self inside]
      exact List.mem_singleton.mp (of_decide_eq_true named)
    rw [pixel_eq_of_wrap_eq screen sameName]
  rw [List.countP_congr here]
  cases screen.pixel x y with
  | false =>
      simp only [Bool.false_and, List.countP_false]
      rfl
  | true =>
      simp only [Bool.true_and, once]
      rfl

/-- A flip takes a lit pixel away or adds one. -/
theorem litCount_flip (screen : Screen) (x y : Nat) :
    if (screen.flip x y).1 then
      (screen.flip x y).2.litCount + 1 = screen.litCount
    else (screen.flip x y).2.litCount = screen.litCount + 1 := by
  have distinct : ([(x, y)].map wrap).Nodup := List.nodup_singleton _
  have balance := litCount_flipAll_of_nodup screen distinct
  rw [countP_hit, flipAll_singleton, List.length_singleton] at balance
  rw [flip_fst]
  cases isLit : screen.pixel x y with
  | false =>
      rw [isLit, Bool.toNat_false] at balance
      rw [if_neg Bool.false_ne_true]
      exact balance
  | true =>
      rw [isLit, Bool.toNat_true] at balance
      rw [if_pos rfl]
      omega

theorem litCount_touched (touches : List Touch) :
    (touched touches).litCount =
      positions.countP fun p => flipCount touches p.1 p.2 % 2 = 1 := by
  rw [litCount_eq_countP]
  apply List.countP_congr
  intro p _
  rw [pixel_touched_iff, decide_eq_true_iff]

/-! ## Rows -/

/-- The rows one after the other are the picture. -/
theorem flatten_rows (screen : Screen) :
    screen.rows.flatten = screen.cells.toList := by
  rw [toList_cells, positions, List.map_flatMap, List.flatMap_def]
  simp only [List.map_map]
  rfl

theorem getElem?_rows (screen : Screen) {r : Nat} (inside : r < 32) :
    screen.rows[r]? = some (screen.row r) := by
  simp [rows, height, inside]

theorem getElem?_row
    (screen : Screen) {c : Nat} (inside : c < 64) (r : Nat) :
    (screen.row r)[c]? = some (screen.pixel c r) := by
  simp [row, width, inside]

end Screen

/-! ## Checked touches -/

namespace WideMachine

open Checked

/-- Whether the pixel at some coordinates is lit. -/
def lookAt (pixels : Vector Bool 2048) (column line : BitVec 64) :
    Except Breach Bool := do
  let start ← fits 64 (64 * (line.toNat % 32))
  let place ← fits 64 (start.toNat + column.toNat % 64)
  element pixels place.toNat

/-- What a touch makes of a row of cells. -/
def touchCells (pixels : Vector Bool 2048) :
    Screen.Touch → Except Breach (Vector Bool 2048)
  | .darken => .ok (Vector.replicate 2048 false)
  | .flip x y => do
    let flipped ← flipPixel pixels x y
    return flipped.2

theorem lookAt_cells (screen : Screen) (column line : BitVec 64) :
    lookAt screen.cells column line =
      .ok (screen.pixel column.toNat line.toNat) := by
  have bounded := Screen.offset_lt column.toNat line.toNat
  rw [lookAt, bind_place, toNat_place, element_eq screen.cells bounded]
  rfl

theorem touchCells_cells (screen : Screen) (touch : Screen.Touch) :
    touchCells screen.cells touch = .ok (touch.change screen).cells := by
  cases touch with
  | darken =>
      rfl
  | flip x y =>
      rw [touchCells, flipPixel_cells, ok_bind]
      rfl

theorem foldlM_touchCells (touches : List Screen.Touch) :
    touches.foldlM touchCells Screen.dark.cells =
      .ok (Screen.touched touches).cells := by
  induction touches using List.reverseRecOn with
  | nil =>
      rfl
  | append_singleton earlier touch inductionHypothesis =>
      rw [List.foldlM_append, inductionHypothesis, ok_bind,
        Screen.touched_concat]
      simp only [List.foldlM_cons, List.foldlM_nil, touchCells_cells]
      rfl

end WideMachine

namespace Screen

open WideMachine

/-- After any touches of a dark screen, at coordinates of sixty-four bits, a pixel is
lit exactly if it was flipped an odd number of times since the latest darkening, and
the next flip of it reports just that.  There are as many lit pixels as pixels with
an odd number of flips, so each flip adds one or, if it reports a lit pixel, takes one
away.  The rows hold the pixels in order, and checked arithmetic on the row of cells
gives the same without a breach. -/
theorem pixels_are_parities_of_flips (touches : List Touch) :
    let screen := touched touches
    touches.foldlM touchCells dark.cells = .ok screen.cells ∧
    (∀ x y : BitVec 64,
      let lit := screen.pixel x.toNat y.toNat
      let next := screen.flip x.toNat y.toNat
      lookAt screen.cells x y = .ok lit ∧
        (lit = true ↔ flipCount touches x.toNat y.toNat % 2 = 1) ∧
        flipPixel screen.cells x y = .ok (next.1, next.2.cells) ∧
        next.2 = touched (touches ++ [.flip x y]) ∧
        (next.1 = true ↔ flipCount touches x.toNat y.toNat % 2 = 1) ∧
        if next.1 then next.2.litCount + 1 = screen.litCount
        else next.2.litCount = screen.litCount + 1) ∧
    screen.litCount =
      (positions.countP fun p => flipCount touches p.1 p.2 % 2 = 1) ∧
    screen.rows.flatten = screen.cells.toList ∧
    screen.rows.length = 32 ∧ (∀ row ∈ screen.rows, row.length = 64) ∧
    ∀ r < 32, ∀ c < 64,
      screen.rows[r]?.bind (fun row => row[c]?) =
        some (screen.pixel c r) := by
  intro screen
  refine ⟨foldlM_touchCells touches, ?_, litCount_touched touches,
    flatten_rows screen, ?_, ?_, ?_⟩
  · intro x y lit next
    have isParity := pixel_touched_iff touches x.toNat y.toNat
    exact ⟨lookAt_cells screen x y, isParity, flipPixel_cells screen x y,
      (touched_concat touches (.flip x y)).symm, isParity,
      litCount_flip screen x.toNat y.toNat⟩
  · rw [rows, List.length_map, List.length_range, height]
  · intro row among
    obtain ⟨y, _, rfl⟩ := List.mem_map.mp among
    rw [Screen.row, List.length_map, List.length_range, width]
  · intro r inHeight c inWidth
    rw [getElem?_rows screen inHeight, Option.bind_some,
      getElem?_row screen inWidth]

/-- Coordinates at the end of their range name the last pixel, and a darkening in
between leaves one of the flips to count. -/
example :
    flipCount [.flip 63 31, .darken, .flip (-1) (-1)] 63 31 = 1 := by
  decide

end Screen

end ChipEight
