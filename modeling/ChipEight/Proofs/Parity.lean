import ChipEight.Proofs.Drawing
import ChipEight.Proofs.Redraw

/-!
# The parity of what was drawn

A sprite flips the pixels under its set bits.  So a pixel is lit exactly if an
odd number of set bits have come to lie on it since the screen was last
darkened.  These numbers do not tell in which order the sprites were drawn or
what happened between them, and two sprites that are alike make no difference.
-/

namespace ChipEight

/-! ## Sprites in their places -/

/-- A sprite with the place of its top left on the screen. -/
structure PlacedSprite where
  left : Byte
  top : Byte
  rows : List Byte
deriving DecidableEq, Repr

namespace PlacedSprite

/-- How many set bits of a sprite lie on the pixel `(a, b)`.  The highest bit of
each row is the leftmost. -/
def bitsOn (sprite : PlacedSprite) (a b : Nat) : Nat :=
  (sprite.rows.zipIdx.map fun row =>
    (List.range 8).countP fun c =>
      row.1.getMsbD c &&
        Screen.covers a b
          (sprite.left.toNat + c, sprite.top.toNat + row.2)).sum

/-- How many set bits of some sprites lie on the pixel `(a, b)`. -/
def bitCount (sprites : List PlacedSprite) (a b : Nat) : Nat :=
  (sprites.map fun sprite => sprite.bitsOn a b).sum

/-- Two sprites have the same rows at the same place of the torus. -/
def Alike (first second : PlacedSprite) : Prop :=
  Screen.wrap (first.left.toNat, first.top.toNat) =
      Screen.wrap (second.left.toNat, second.top.toNat) ∧
    first.rows = second.rows

theorem bitCount_append (earlier later : List PlacedSprite) (a b : Nat) :
    bitCount (earlier ++ later) a b =
      bitCount earlier a b + bitCount later a b := by
  simp only [bitCount, List.map_append, List.sum_append]

theorem bitCount_cons
    (sprite : PlacedSprite) (rest : List PlacedSprite) (a b : Nat) :
    bitCount (sprite :: rest) a b = sprite.bitsOn a b + bitCount rest a b :=
  rfl

theorem bitCount_eq_of_perm
    {sprites others : List PlacedSprite} (reordered : sprites.Perm others)
    (a b : Nat) : bitCount sprites a b = bitCount others a b :=
  (reordered.map _).sum_nat

theorem bitsOn_eq_of_alike
    {first second : PlacedSprite} (alike : first.Alike second) (a b : Nat) :
    first.bitsOn a b = second.bitsOn a b := by
  obtain ⟨samePlace, sameRows⟩ := alike
  obtain ⟨sameColumn, sameLine⟩ := Prod.mk.inj samePlace
  have sameCover : ∀ c k,
      Screen.covers a b (first.left.toNat + c, first.top.toNat + k) =
        Screen.covers a b (second.left.toNat + c, second.top.toNat + k) := by
    intro c k
    simp only [Screen.covers]
    rw [Nat.add_mod, sameColumn, ← Nat.add_mod,
      Nat.add_mod first.top.toNat, sameLine, ← Nat.add_mod]
  simp only [bitsOn, sameRows, sameCover]

/-- The bits of a sprite counted row by row are the pixels that it flips. -/
theorem bitsOn_eq_countP (sprite : PlacedSprite) (a b : Nat) :
    sprite.bitsOn a b =
      (Sprite.cells sprite.left.toNat sprite.top.toNat sprite.rows).countP
        (Screen.covers a b) := by
  have fromLine : ∀ (rows : List Byte) (start : Nat),
      ((rows.zipIdx start).map fun row =>
        (List.range 8).countP fun c =>
          row.1.getMsbD c &&
            Screen.covers a b
              (sprite.left.toNat + c, sprite.top.toNat + row.2)).sum =
        (Sprite.cells sprite.left.toNat (sprite.top.toNat + start) rows).countP
          (Screen.covers a b) := by
    intro rows
    induction rows with
    | nil =>
        intro start
        rfl
    | cons bits rest inductionHypothesis =>
        intro start
        rw [List.zipIdx_cons, List.map_cons, List.sum_cons,
          inductionHypothesis, Sprite.cells, List.countP_append,
          Sprite.rowCells, List.countP_map, List.countP_filter]
        simp only [Function.comp_apply, Bool.and_comm, Nat.add_assoc]
  exact fromLine sprite.rows 0

end PlacedSprite

open PlacedSprite

/-! ## Pictures made of sprites -/

namespace Screen

theorem ext_pixel {left right : Screen}
    (same : ∀ a b, left.pixel a b = right.pixel a b) : left = right := by
  have sameCells : left.cells.toList = right.cells.toList := by
    simp only [toList_cells, same]
  obtain ⟨cells⟩ := left
  obtain ⟨others⟩ := right
  exact congrArg Screen.mk (Vector.toList_inj.mp sameCells)

/-- A pixel is lit exactly if an odd number of bits of the sprites lie on it. -/
def IsParityOf (screen : Screen) (sprites : List PlacedSprite) : Prop :=
  ∀ a b, screen.pixel a b = true ↔ bitCount sprites a b % 2 = 1

theorem xor_eq_true_iff
    {lit : Bool} {n : Nat} (before : lit = true ↔ n % 2 = 1) (count : Nat) :
    (lit ^^ decide (count % 2 = 1)) = true ↔ (n + count) % 2 = 1 := by
  rcases Nat.mod_two_eq_zero_or_one count with even | odd
  · have sameParity : (n + count) % 2 = n % 2 := by omega
    simp [even, sameParity, before]
  · have otherParity : (n + count) % 2 = 1 ↔ ¬n % 2 = 1 := by omega
    simp [odd, otherParity, ← before]

theorem isParityOf_congr
    {screen : Screen} {sprites others : List PlacedSprite}
    (sameParity : ∀ a b,
      bitCount sprites a b % 2 = bitCount others a b % 2)
    (isParity : screen.IsParityOf sprites) : screen.IsParityOf others := by
  intro a b
  rw [isParity, sameParity]

theorem eq_of_isParityOf
    {screen other : Screen} {sprites : List PlacedSprite}
    (isParity : screen.IsParityOf sprites)
    (otherIsParity : other.IsParityOf sprites) : screen = other := by
  apply ext_pixel
  intro a b
  rw [Bool.eq_iff_iff, isParity, otherIsParity]

end Screen

/-! ## Darkening and drawing -/

/-- Something that happens to the screen. -/
inductive ScreenEvent
  | darkened
  | drew (sprite : PlacedSprite)
deriving DecidableEq, Repr

namespace ScreenEvent

/-- The sprites drawn since the latest darkening, of which some were drawn before
an event. -/
def sinceDark (sprites : List PlacedSprite) :
    ScreenEvent → List PlacedSprite
  | darkened => []
  | drew sprite => sprites ++ [sprite]

/-- The screen that an event leaves of a screen before it. -/
def change (event : ScreenEvent) (screen : Screen) : Screen :=
  match event with
  | darkened => .dark
  | drew sprite =>
    (screen.drawSprite sprite.left.toNat sprite.top.toNat sprite.rows).2

theorem isParityOf_change
    {screen : Screen} {sprites : List PlacedSprite}
    (isParity : screen.IsParityOf sprites) (event : ScreenEvent) :
    (event.change screen).IsParityOf (event.sinceDark sprites) := by
  intro a b
  cases event with
  | darkened =>
      simp [change, sinceDark, bitCount]
  | drew sprite =>
      have oneMore :
          bitCount (sprites ++ [sprite]) a b =
            bitCount sprites a b + sprite.bitsOn a b := by
        rw [bitCount_append]
        rfl
      rw [change, Screen.drawSprite, Screen.pixel_flipAll, sinceDark, oneMore,
        bitsOn_eq_countP]
      exact Screen.xor_eq_true_iff (isParity a b) _

/-- The events end with a darkening and the drawings since then. -/
theorem exists_cut (sprites : List PlacedSprite) (events : List ScreenEvent) :
    ∃ earlier,
      .darkened :: (sprites.map .drew ++ events) =
        earlier ++ .darkened :: (events.foldl sinceDark sprites).map .drew := by
  induction events generalizing sprites with
  | nil =>
      exact ⟨[], by simp⟩
  | cons event rest inductionHypothesis =>
      cases event with
      | darkened =>
          -- The sprites so far belong to what came before this darkening.
          obtain ⟨earlier, cut⟩ := inductionHypothesis []
          refine ⟨.darkened :: (sprites.map .drew ++ earlier), ?_⟩
          rw [List.cons_append, List.append_assoc, List.foldl_cons, sinceDark,
            ← cut]
          rfl
      | drew sprite =>
          obtain ⟨earlier, cut⟩ := inductionHypothesis (sprites ++ [sprite])
          refine ⟨earlier, ?_⟩
          rw [List.foldl_cons, sinceDark, ← cut]
          simp

end ScreenEvent

namespace Machine

/-- The sprite that the word at the counter draws. -/
def nextSprite (m : Machine) : PlacedSprite where
  left := m.v m.nextWord.x
  top := m.v m.nextWord.y
  rows := m.spriteRows

/-- What an operation does to the screen, if it does anything to it. -/
def screenEvent (m : Machine) (operation : Operation) : Option ScreenEvent :=
  match operation with
  | .cycle =>
    let w := m.nextWord
    if w.family = 0 ∧ w.lowByte = 0xE0 then some .darkened
    else if w.family = 0xD then some (.drew m.nextSprite)
    else none
  | .reset => some .darkened
  | .clear => some .darkened
  | _ => none

/-- What a history does to the screen, in order. -/
def screenEvents (m : Machine) : List Operation → List ScreenEvent
  | [] => []
  | operation :: rest =>
    (m.screenEvent operation).toList ++
      (m.apply operation).machine.screenEvents rest

/-- The sprites drawn in a history since the screen was last darkened, the oldest
first. -/
def spritesSinceDark (m : Machine) (history : List Operation) :
    List PlacedSprite :=
  (m.screenEvents history).foldl ScreenEvent.sinceDark []

/-- An operation makes of the screen what its event makes of it, and leaves it
alone if it is no event. -/
theorem screen_apply_eq (m : Machine) (operation : Operation) :
    (m.apply operation).machine.screen =
      (m.screenEvent operation).elim m.screen fun event =>
        event.change m.screen := by
  cases operation with
  | cycle =>
      change m.advance.machine.screen = _
      by_cases clears : m.nextWord.family = 0 ∧ m.nextWord.lowByte = 0xE0
      · have asks : m.nextWord.AsksFor .clearScreen := clears
        rw [advance_of_asksFor asks rfl]
        simp only [screenEvent, if_pos clears]
        rfl
      by_cases draws : m.nextWord.family = 0xD
      · rw [advance_of_draw draws]
        simp only [screenEvent, if_neg clears, if_pos draws]
        rfl
      · have paintsNot : ¬m.Paints .cycle := not_or.mpr ⟨clears, draws⟩
        rw [(advance_of_not_paints paintsNot).1]
        simp only [screenEvent, if_neg clears, if_neg draws]
        rfl
  | reset | clear =>
      rfl
  | load _ | tick | setKey _ _ | clearKeys | takeRedraw =>
      exact (apply_of_not_paints id).1

theorem isParityOf_after
    {m : Machine} {sprites : List PlacedSprite}
    (isParity : m.screen.IsParityOf sprites) (history : List Operation) :
    (m.after history).screen.IsParityOf
      ((m.screenEvents history).foldl ScreenEvent.sinceDark sprites) := by
  induction history generalizing m sprites with
  | nil =>
      exact isParity
  | cons operation rest inductionHypothesis =>
      rw [screenEvents, List.foldl_append, after_cons]
      apply inductionHypothesis
      rw [screen_apply_eq]
      cases m.screenEvent operation with
      | none =>
          exact isParity
      | some event =>
          exact event.isParityOf_change isParity

/-- After any history from switching on, the screen is the parity of the sprites
drawn since it was last darkened, each with the place and the rows that it had when
it was drawn.  Any other history with the same sprites since then, in whatever
order and whatever else it does, leaves the same screen.  Two sprites that are
alike might as well not have been drawn. -/
theorem screen_is_parity_of_sprites
    (settings : Settings) (entropy : ChaCha.Key) (history : List Operation) :
    let start := powerOn settings entropy
    let sprites := start.spritesSinceDark history
    let screen := (start.after history).screen
    (∃ earlier,
      ScreenEvent.darkened :: start.screenEvents history =
        earlier ++ .darkened :: sprites.map .drew) ∧
    screen.IsParityOf sprites ∧
    (∀ otherSettings otherEntropy otherHistory,
      let other := powerOn otherSettings otherEntropy
      (other.spritesSinceDark otherHistory).Perm sprites →
        (other.after otherHistory).screen = screen) ∧
    ∀ first sprite between again last,
      sprites = first ++ sprite :: (between ++ again :: last) →
      sprite.Alike again →
        screen.IsParityOf (first ++ (between ++ last)) := by
  intro start sprites screen
  have fromDark : ∀ settings entropy,
      (powerOn settings entropy).screen.IsParityOf [] := by
    intro settings entropy a b
    simp [powerOn, bitCount]
  have isParity : screen.IsParityOf sprites :=
    isParityOf_after (fromDark settings entropy) history
  refine ⟨ScreenEvent.exists_cut [] _, isParity, ?_, ?_⟩
  · intro otherSettings otherEntropy otherHistory other reordered
    have otherIsParity :
        (other.after otherHistory).screen.IsParityOf
          (other.spritesSinceDark otherHistory) :=
      isParityOf_after (fromDark otherSettings otherEntropy) otherHistory
    refine Screen.eq_of_isParityOf
      (Screen.isParityOf_congr ?_ otherIsParity) isParity
    intro a b
    rw [bitCount_eq_of_perm reordered]
  · intro first sprite between again last cut alike
    apply Screen.isParityOf_congr _ isParity
    intro a b
    rw [cut]
    simp only [bitCount_append, bitCount_cons,
      bitsOn_eq_of_alike alike]
    omega

end Machine

end ChipEight
