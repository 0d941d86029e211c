import ChipEight.Screen
import Mathlib.Data.List.Nodup
import Mathlib.Data.List.Perm.Basic
import Mathlib.Data.List.Range

/-!
# The screen as a torus

Coordinates that agree up to whole turns name one pixel, so each pixel has one
name on the screen itself.  Flips at distinct pixels do not disturb each other:
together they exclude the picture of the flipped pixels from the picture that
was there, they turn a lit pixel off exactly if one of their pixels was lit, and
the number of lit pixels changes accordingly.
-/

namespace ChipEight.Screen

/-! ## One name for each pixel -/

/-- The name on the screen itself of the pixel at some coordinates. -/
def wrap (p : Nat × Nat) : Nat × Nat := (p.1 % 64, p.2 % 32)

theorem pixel_eq_of_wrap_eq
    (screen : Screen) {p q : Nat × Nat} (same : wrap p = wrap q) :
    screen.pixel p.1 p.2 = screen.pixel q.1 q.2 := by
  obtain ⟨sameColumn, sameLine⟩ := Prod.mk.inj same
  have samePlace : offset p.1 p.2 = offset q.1 q.2 :=
    (offset_eq_iff _ _ _ _).mpr ⟨sameColumn, sameLine⟩
  simp only [pixel, samePlace]

theorem covers_eq_decide (u v : Nat) (p : Nat × Nat) :
    covers u v p = decide (wrap p = wrap (u, v)) := by
  simp [covers, wrap]

theorem mem_positions (p : Nat × Nat) :
    p ∈ positions ↔ p.1 < 64 ∧ p.2 < 32 := by
  obtain ⟨a, b⟩ := p
  simp [positions, width, height, and_comm]

theorem mem_litPositions (screen : Screen) (p : Nat × Nat) :
    p ∈ screen.litPositions ↔
      (p.1 < 64 ∧ p.2 < 32) ∧ screen.pixel p.1 p.2 = true := by
  rw [litPositions, List.mem_filter, mem_positions]

theorem wrap_mem_positions (p : Nat × Nat) : wrap p ∈ positions :=
  (mem_positions _).mpr
    ⟨Nat.mod_lt _ (by decide), Nat.mod_lt _ (by decide)⟩

theorem wrap_eq_self {p : Nat × Nat} (inside : p ∈ positions) :
    wrap p = p := by
  obtain ⟨inRow, inColumn⟩ := (mem_positions p).mp inside
  simp [wrap, Nat.mod_eq_of_lt inRow, Nat.mod_eq_of_lt inColumn]

/-! ## The picture row by row -/

/-- The place `k` in the row-by-row order is the pixel `k % 64` of the line
`k / 64`. -/
theorem positions_eq_map_range :
    positions = (List.range 2048).map fun k => (k % 64, k / 64) := by
  have lines : ∀ count,
      ((List.range count).flatMap fun y =>
        (List.range 64).map fun x => (x, y)) =
        (List.range (64 * count)).map fun k => (k % 64, k / 64) := by
    intro count
    induction count with
    | zero =>
        rfl
    | succ count inductionHypothesis =>
        rw [List.range_succ (n := count), List.flatMap_append,
          inductionHypothesis, List.flatMap_singleton, Nat.mul_succ,
          List.range_add, List.map_append, List.map_map]
        congr 1
        apply List.map_congr_left
        intro x inLine
        have bounded : x < 64 := List.mem_range.mp inLine
        have column : (64 * count + x) % 64 = x := by omega
        have line : (64 * count + x) / 64 = count := by omega
        simp [column, line]
  exact lines 32

theorem nodup_positions : positions.Nodup := by
  rw [positions_eq_map_range]
  apply List.nodup_range.map_on
  intro j _ k _ same
  obtain ⟨sameColumn, sameLine⟩ := Prod.mk.inj same
  omega

theorem toList_cells (screen : Screen) :
    screen.cells.toList = positions.map fun p => screen.pixel p.1 p.2 := by
  rw [positions_eq_map_range, List.map_map]
  apply List.ext_getElem
  · simp
  · intro k inCells _
    have bounded : k < 2048 := by simpa using inCells
    have place : offset (k % 64) (k / 64) = k := by
      unfold offset
      omega
    simp [pixel, place]

theorem litCount_eq_countP (screen : Screen) :
    screen.litCount = positions.countP fun p => screen.pixel p.1 p.2 := by
  rw [litCount, ← Vector.count_toList, toList_cells, List.count_eq_countP,
    List.countP_map]
  congr 1
  funext p
  simp

/-! ## Flips at distinct pixels -/

section Distinct

variable (screen : Screen) {cells : List (Nat × Nat)}

theorem countP_covers (cells : List (Nat × Nat)) (u v : Nat) :
    cells.countP (covers u v) = (cells.map wrap).count (wrap (u, v)) := by
  rw [List.count_eq_countP, List.countP_map]
  congr 1
  funext p
  rw [covers_eq_decide, Function.comp_apply, beq_eq_decide]

theorem pixel_flipAll_of_nodup
    (distinct : (cells.map wrap).Nodup) (u v : Nat) :
    (screen.flipAll cells).2.pixel u v =
      (screen.pixel u v ^^ decide (wrap (u, v) ∈ cells.map wrap)) := by
  rw [pixel_flipAll, countP_covers, distinct.count]
  by_cases flipped : wrap (u, v) ∈ cells.map wrap
  · simp [flipped]
  · simp [flipped]

/-- A lit pixel is turned off exactly if one of the pixels was lit before all
the flips. -/
theorem flipAll_fst_of_nodup (distinct : (cells.map wrap).Nodup) :
    (screen.flipAll cells).1 =
      cells.any fun p => screen.pixel p.1 p.2 := by
  induction cells generalizing screen with
  | nil =>
      rfl
  | cons p rest inductionHypothesis =>
      rw [List.map_cons, List.nodup_cons] at distinct
      obtain ⟨elsewhere, restDistinct⟩ := distinct
      -- The first flip cannot change what the others come upon.
      have untouched : ∀ q ∈ rest,
          (screen.flip p.1 p.2).2.pixel q.1 q.2 = screen.pixel q.1 q.2 := by
        intro q inRest
        have other : wrap p ≠ wrap q := by
          intro same
          exact elsewhere (List.mem_map.mpr ⟨q, inRest, same.symm⟩)
        rw [pixel_flip, covers_eq_decide, decide_eq_false other,
          Bool.xor_false]
      have sameHits :
          (rest.any fun q => (screen.flip p.1 p.2).2.pixel q.1 q.2) =
            rest.any fun q => screen.pixel q.1 q.2 := by
        rw [Bool.eq_iff_iff, List.any_eq_true, List.any_eq_true]
        apply exists_congr
        intro q
        apply and_congr_right
        intro inRest
        rw [untouched q inRest]
      rw [List.any_cons, ← sameHits, ← inductionHypothesis _ restDistinct]
      rfl

theorem countP_positions_of_nodup (distinct : (cells.map wrap).Nodup) :
    (positions.countP fun p => decide (p ∈ cells.map wrap)) =
      cells.length := by
  -- Both lists name each flipped pixel once, in different orders.
  have samePixels :
      (positions.filter fun p => decide (p ∈ cells.map wrap)).Perm
        (cells.map wrap) := by
    rw [List.perm_ext_iff_of_nodup (nodup_positions.filter _) distinct]
    intro p
    rw [List.mem_filter, decide_eq_true_iff, and_iff_right_iff_imp]
    intro flipped
    obtain ⟨_, _, rfl⟩ := List.mem_map.mp flipped
    exact wrap_mem_positions _
  rw [List.countP_eq_length_filter, samePixels.length_eq, List.length_map]

theorem countP_xor {α : Type} (f g : α → Bool) (items : List α) :
    (items.countP fun p => f p ^^ g p) +
        2 * (items.countP fun p => f p && g p) =
      items.countP f + items.countP g := by
  induction items with
  | nil =>
      rfl
  | cons item rest inductionHypothesis =>
      simp only [List.countP_cons]
      cases f item <;> cases g item <;> simp <;> omega

/-- Every flip adds a lit pixel, but for those that took one away instead. -/
theorem litCount_flipAll_of_nodup (distinct : (cells.map wrap).Nodup) :
    (screen.flipAll cells).2.litCount +
        2 * (positions.countP fun p =>
          screen.pixel p.1 p.2 && decide (p ∈ cells.map wrap)) =
      screen.litCount + cells.length := by
  have after :
      (screen.flipAll cells).2.litCount =
        positions.countP fun p =>
          screen.pixel p.1 p.2 ^^ decide (p ∈ cells.map wrap) := by
    rw [litCount_eq_countP]
    apply List.countP_congr
    intro p inside
    rw [pixel_flipAll_of_nodup screen distinct, wrap_eq_self inside]
  rw [after, ← countP_positions_of_nodup distinct, litCount_eq_countP]
  exact countP_xor _ _ _

end Distinct

end ChipEight.Screen
