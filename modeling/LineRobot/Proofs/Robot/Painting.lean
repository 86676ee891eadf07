import LineRobot.Proofs.Robot.Clipping

/-! # Painting pixel by pixel

To paint a canvas is to write pixels at their places, one after the other. A write at a place that
the canvas does not have fails (`Canvas.write?`). As long as the number of pixels fits into a
machine word, a place determines its column and its row (`Canvas.place_eq_iff`), and no painting
makes such a write (`Painting.write?_eq`): the clipped ranges stay within the canvas.

After any paintings a pixel has the color of the last one that covers it (`Canvas.paintAll_blank`).
A rectangle covers just the pixels that it overlaps, if its far sides are numbers
(`Canvas.get?_fillRectangle`). -/

namespace LineRobot

/-- The pixels of a range are those that it contains. -/
theorem PixelRange.mem_pixels {range : PixelRange} {pixel : Nat} :
    pixel ∈ range.pixels ↔ range.contains pixel = true := by
  rw [pixels, List.mem_range'_1, contains, Bool.and_eq_true, decide_eq_true_iff, decide_eq_true_iff]
  omega

/-- A machine word keeps a count that fits. -/
theorem machineWord_of_lt {count : Nat} (fits : count < 2 ^ 64) : machineWord count = count :=
  Nat.mod_eq_of_lt fits

namespace Canvas

/-! ## Places -/

section Places

variable {canvas : Canvas} {columns rows : PixelRange} {selects : Nat → Nat → Bool}
  {column row x y place : Nat}

/-- Row after row, a pixel comes before the end of all pixels. -/
theorem pixelIndex_lt {width height : Nat} (left : x < width) (above : y < height) :
    y * width + x < width * height := by
  have rows : (y + 1) * width ≤ height * width := Nat.mul_le_mul_right width above
  rw [Nat.add_mul, Nat.one_mul, Nat.mul_comm height] at rows
  omega

/-- A place is not cut if all pixels fit into a machine word. -/
theorem place_of_lt (fits : canvas.width * canvas.height < 2 ^ 64) (left : x < canvas.width)
    (above : y < canvas.height) : canvas.place x y = y * canvas.width + x :=
  machineWord_of_lt ((pixelIndex_lt left above).trans fits)

/-- The pixels of a canvas have places. -/
theorem place_lt (fits : canvas.width * canvas.height < 2 ^ 64) (left : x < canvas.width)
    (above : y < canvas.height) :
    canvas.place x y < machineWord (canvas.width * canvas.height) := by
  rw [place_of_lt fits left above, machineWord_of_lt fits]
  exact pixelIndex_lt left above

/-- A place determines its column and its row. -/
theorem place_eq_iff (fits : canvas.width * canvas.height < 2 ^ 64) (left : x < canvas.width)
    (above : y < canvas.height) (columnInside : column < canvas.width)
    (rowInside : row < canvas.height) :
    canvas.place column row = canvas.place x y ↔ column = x ∧ row = y := by
  -- a place gives its column back as the remainder, and its row as the quotient
  have recover (column row : Nat) (inside : column < canvas.width) :
      (row * canvas.width + column) % canvas.width = column ∧
        (row * canvas.width + column) / canvas.width = row := by
    rw [Nat.mul_comm, Nat.mul_add_mod, Nat.mod_eq_of_lt inside,
      Nat.mul_add_div (Nat.zero_lt_of_lt inside), Nat.div_eq_of_lt inside, Nat.add_zero]
    exact ⟨rfl, rfl⟩
  rw [place_of_lt fits left above, place_of_lt fits columnInside rowInside]
  constructor
  · intro same
    obtain ⟨sameColumn, sameRow⟩ := recover column row columnInside
    rw [same, (recover x y left).1] at sameColumn
    rw [same, (recover x y left).2] at sameRow
    exact ⟨sameColumn.symm, sameRow.symm⟩
  · rintro ⟨rfl, rfl⟩
    rfl

/-- A place in nested loops is that of a column and a row. -/
theorem mem_places :
    place ∈ canvas.places columns rows selects ↔
      ∃ column row, columns.contains column = true ∧ rows.contains row = true ∧
        selects column row = true ∧ canvas.place column row = place := by
  simp only [places, List.mem_flatMap, List.mem_map, List.mem_filter, PixelRange.mem_pixels]
  constructor
  · rintro ⟨row, rowInside, column, ⟨columnInside, selected⟩, isPlace⟩
    exact ⟨column, row, columnInside, rowInside, selected, isPlace⟩
  · rintro ⟨column, row, columnInside, rowInside, selected, isPlace⟩
    exact ⟨row, rowInside, column, ⟨columnInside, selected⟩, isPlace⟩

/-- What a range contains is before its end. -/
theorem lt_of_contains {range : PixelRange} {limit pixel : Nat} (bounded : range.stop ≤ limit)
    (inside : range.contains pixel = true) : pixel < limit := by
  rw [PixelRange.contains, Bool.and_eq_true, decide_eq_true_iff, decide_eq_true_iff] at inside
  omega

/-- Nested loops within the canvas stay at places of the canvas. -/
theorem lt_of_mem_places (fits : canvas.width * canvas.height < 2 ^ 64)
    (columnsFit : columns.stop ≤ canvas.width) (rowsFit : rows.stop ≤ canvas.height)
    (isPlace : place ∈ canvas.places columns rows selects) :
    place < machineWord (canvas.width * canvas.height) := by
  obtain ⟨column, row, columnInside, rowInside, -, rfl⟩ := mem_places.mp isPlace
  exact place_lt fits (lt_of_contains columnsFit columnInside) (lt_of_contains rowsFit rowInside)

/-- Nested loops within the canvas come to a pixel if they select it. -/
theorem place_mem_places (fits : canvas.width * canvas.height < 2 ^ 64)
    (columnsFit : columns.stop ≤ canvas.width) (rowsFit : rows.stop ≤ canvas.height)
    (left : x < canvas.width) (above : y < canvas.height) :
    canvas.place x y ∈ canvas.places columns rows selects ↔
      (columns.contains x && rows.contains y && selects x y) = true := by
  rw [mem_places, Bool.and_eq_true, Bool.and_eq_true]
  constructor
  · rintro ⟨column, row, columnInside, rowInside, selected, same⟩
    have columnBefore := lt_of_contains columnsFit columnInside
    have rowBefore := lt_of_contains rowsFit rowInside
    obtain ⟨rfl, rfl⟩ := (place_eq_iff fits left above columnBefore rowBefore).mp same
    exact ⟨⟨columnInside, rowInside⟩, selected⟩
  · rintro ⟨⟨columnInside, rowInside⟩, selected⟩
    exact ⟨x, y, columnInside, rowInside, selected, rfl⟩

end Places

/-! ## Writes -/

/-- The canvas with the pixel at a place written; none if the canvas has no such place. -/
def write? (color : Color) (canvas : Canvas) (place : Nat) : Option Canvas :=
  if place < machineWord (canvas.width * canvas.height) then some (canvas.write color place)
    else none

section Writes

variable (canvas : Canvas) (color : Color)

/-- A write colors the pixel at its place and leaves the others. -/
theorem get?_write (place x y : Nat) :
    (canvas.write color place).get? x y =
      (canvas.get? x y).map fun old => if canvas.place x y = place then color else old := by
  rw [get?, get?, apply_ite (Option.map _), Option.map_none]
  refine ite_congr rfl (fun _ => ?_) fun _ => rfl
  show (canvas.pixels.setIfInBounds place color)[canvas.place x y]? = _
  rw [Vector.getElem?_setIfInBounds]
  grind

/-- Writes keep the width. -/
theorem width_writeAll (places : List Nat) :
    (canvas.writeAll places color).width = canvas.width := by
  induction places generalizing canvas with
  | nil => rfl
  | cons place later ih => exact ih (canvas.write color place)

/-- Writes keep the height. -/
theorem height_writeAll (places : List Nat) :
    (canvas.writeAll places color).height = canvas.height := by
  induction places generalizing canvas with
  | nil => rfl
  | cons place later ih => exact ih (canvas.write color place)

/-- Writes color the pixels at their places and leave the others. -/
theorem get?_writeAll (places : List Nat) (x y : Nat) :
    (canvas.writeAll places color).get? x y =
      (canvas.get? x y).map fun old => if canvas.place x y ∈ places then color else old := by
  induction places generalizing canvas with
  | nil => simp [writeAll]
  | cons place later ih =>
      refine (ih (canvas.write color place)).trans ?_
      have samePlace : (canvas.write color place).place x y = canvas.place x y := rfl
      rw [get?_write, Option.map_map, samePlace]
      congr 1
      funext old
      simp only [Function.comp_apply, List.mem_cons]
      grind

/-- Writes at places of the canvas do not fail. -/
theorem foldlM_write? {places : List Nat}
    (inside : ∀ place ∈ places, place < machineWord (canvas.width * canvas.height)) :
    places.foldlM (write? color) canvas = some (canvas.writeAll places color) := by
  induction places generalizing canvas with
  | nil => rfl
  | cons place later ih =>
      rw [List.foldlM_cons, write?, if_pos (inside place List.mem_cons_self)]
      exact ih (canvas.write color place)
        fun next isLater => inside next (List.mem_cons_of_mem place isLater)

end Writes

end Canvas

/-! ## Paintings -/

/-- What a canvas can be painted with. -/
inductive Painting where
  /-- Every pixel is painted. -/
  | fill (color : Color)
  /-- One pixel is painted. -/
  | set (x y : Nat) (color : Color)
  /-- The pixels in the clipped ranges of a rectangle are painted. -/
  | rectangle (x y width height : Float) (color : Color)
  /-- The pixels in the clipped ranges of a circle whose centers lie within are painted. -/
  | circle (x y radius : Float) (color : Color)

namespace Painting

open PixelRange

/-- The color of a painting. -/
def color : Painting → Color
  | .fill color => color
  | .set _ _ color => color
  | .rectangle _ _ _ _ color => color
  | .circle _ _ _ color => color

/-- Whether a painting covers a pixel of a canvas of the given size. -/
def covers (painting : Painting) (width height column row : Nat) : Bool :=
  match painting with
  | .fill _ => true
  | .set x y _ => column == x && row == y
  | .rectangle x y across down _ =>
    (covering x (x + across) width).contains column && (covering y (y + down) height).contains row
  | .circle x y radius _ =>
    (covering (x - radius) (x + radius) width).contains column &&
      (covering (y - radius) (y + radius) height).contains row &&
      Canvas.centerWithin x y radius column row

/-- The places that a painting writes, in its order. -/
def places (canvas : Canvas) : Painting → List Nat
  | .fill _ => canvas.allPlaces
  | .set x y _ => canvas.placeOf x y
  | .rectangle x y width height _ => canvas.rectangle x y width height
  | .circle x y radius _ => canvas.circle x y radius

/-- A canvas painted. -/
def paint (canvas : Canvas) : Painting → Canvas
  | .fill color => canvas.fill color
  | .set x y color => canvas.set x y color
  | .rectangle x y width height color => canvas.fillRectangle x y width height color
  | .circle x y radius color => canvas.fillCircle x y radius color

/-- A canvas painted; none if a place is written that the canvas does not have. -/
def write? (canvas : Canvas) (painting : Painting) : Option Canvas :=
  (painting.places canvas).foldlM (Canvas.write? painting.color) canvas

section Paint

variable {canvas : Canvas} (painting : Painting)

/-- To paint is to write the places of the painting. -/
theorem paint_eq :
    painting.paint canvas = canvas.writeAll (painting.places canvas) painting.color := by
  cases painting <;> rfl

/-- A painting keeps the width. -/
theorem width_paint : (painting.paint canvas).width = canvas.width := by
  rw [paint_eq, Canvas.width_writeAll]

/-- A painting keeps the height. -/
theorem height_paint : (painting.paint canvas).height = canvas.height := by
  rw [paint_eq, Canvas.height_writeAll]

variable (fits : canvas.width * canvas.height < 2 ^ 64) (widthSmall : canvas.width < 2 ^ 53)
  (heightSmall : canvas.height < 2 ^ 53)

include fits widthSmall heightSmall

/-- A painting stays at places of the canvas. -/
theorem lt_of_mem_places {place : Nat} (isPlace : place ∈ painting.places canvas) :
    place < machineWord (canvas.width * canvas.height) := by
  cases painting with
  | fill color => exact List.mem_range.mp isPlace
  | set x y color =>
      rw [places, Canvas.placeOf] at isPlace
      split at isPlace
      case isTrue inside =>
        rw [List.mem_singleton.mp isPlace]
        exact Canvas.place_lt fits inside.1 inside.2
      case isFalse outside => exact absurd isPlace List.not_mem_nil
  | rectangle x y width height color =>
      exact Canvas.lt_of_mem_places fits (stop_covering_le _ _ widthSmall)
        (stop_covering_le _ _ heightSmall) isPlace
  | circle x y radius color =>
      exact Canvas.lt_of_mem_places fits (stop_covering_le _ _ widthSmall)
        (stop_covering_le _ _ heightSmall) isPlace

/-- A painting writes the place of a pixel if it covers the pixel. -/
theorem place_mem_places {column row : Nat} (left : column < canvas.width)
    (above : row < canvas.height) :
    canvas.place column row ∈ painting.places canvas ↔
      painting.covers canvas.width canvas.height column row = true := by
  cases painting with
  | fill color =>
      exact iff_of_true (List.mem_range.mpr (Canvas.place_lt fits left above)) rfl
  | set x y color =>
      rw [places, Canvas.placeOf, covers, Bool.and_eq_true, beq_iff_eq, beq_iff_eq]
      split
      case isTrue inside =>
        rw [List.mem_singleton, Canvas.place_eq_iff fits inside.1 inside.2 left above]
      case isFalse outside =>
        refine iff_of_false List.not_mem_nil ?_
        rintro ⟨rfl, rfl⟩
        exact outside ⟨left, above⟩
  | rectangle x y width height color =>
      rw [places, Canvas.rectangle, Canvas.place_mem_places fits (stop_covering_le _ _ widthSmall)
        (stop_covering_le _ _ heightSmall) left above, Bool.and_true, covers]
  | circle x y radius color =>
      rw [places, Canvas.circle, Canvas.place_mem_places fits (stop_covering_le _ _ widthSmall)
        (stop_covering_le _ _ heightSmall) left above, covers]

/-- No painting writes outside the canvas. -/
theorem write?_eq : painting.write? canvas = some (painting.paint canvas) := by
  rw [write?, paint_eq, Canvas.foldlM_write?]
  exact fun place => painting.lt_of_mem_places fits widthSmall heightSmall

/-- A painting paints the pixels that it covers and leaves the others. -/
theorem get?_paint (column row : Nat) :
    (painting.paint canvas).get? column row = (canvas.get? column row).map fun old =>
      if painting.covers canvas.width canvas.height column row then painting.color else old := by
  rw [paint_eq, Canvas.get?_writeAll]
  by_cases inside : column < canvas.width ∧ row < canvas.height
  · simp only [painting.place_mem_places fits widthSmall heightSmall inside.1 inside.2]
  · rw [Canvas.get?, if_neg inside, Option.map_none, Option.map_none]

end Paint

/-- The color that paintings leave at a pixel: that of the last one that covers it, or else the
background. -/
def lastColor (paintings : List Painting) (width height : Nat) (background : Color)
    (column row : Nat) : Color :=
  ((paintings.reverse.find? fun painting => painting.covers width height column row).map
    color).getD background

/-- The last painting leaves its color where it covers a pixel. -/
theorem lastColor_append_singleton (earlier : List Painting) (painting : Painting)
    (width height : Nat) (background : Color) (column row : Nat) :
    lastColor (earlier ++ [painting]) width height background column row =
      if painting.covers width height column row then painting.color
      else lastColor earlier width height background column row := by
  rw [lastColor, List.reverse_append, List.reverse_singleton, List.singleton_append,
    List.find?_cons]
  cases painting.covers width height column row <;> rfl

end Painting

namespace Canvas

/-! ## Rectangles -/

section Rectangle

open PixelRange

variable (canvas : Canvas) (x y width height : Float) (color : Color)

/-- A rectangle paints the pixels that meet it, and leaves the others and the size of the canvas. If
its far sides are numbers, these are just the pixels that it overlaps; a side that is no number
bounds nothing. -/
theorem get?_fillRectangle (widthSmall : canvas.width < 2 ^ 53)
    (heightSmall : canvas.height < 2 ^ 53) (fits : canvas.width * canvas.height < 2 ^ 64) :
    (canvas.fillRectangle x y width height color).width = canvas.width ∧
    (canvas.fillRectangle x y width height color).height = canvas.height ∧
    (∀ column row, (canvas.fillRectangle x y width height color).get? column row =
      (canvas.get? column row).map fun old =>
        if meets x (x + width) column && meets y (y + height) row then color else old) ∧
    ((x + width).isNaN = false → (y + height).isNaN = false →
      ∀ column row, (canvas.fillRectangle x y width height color).get? column row =
        (canvas.get? column row).map fun old =>
          if overlaps x (x + width) column && overlaps y (y + height) row then color else old) := by
  have painted (column row : Nat) :=
    (Painting.rectangle x y width height color).get?_paint fits widthSmall heightSmall column row
  have met {column row : Nat} (left : column < canvas.width) (above : row < canvas.height) :
      (Painting.rectangle x y width height color).covers canvas.width canvas.height column row =
        (meets x (x + width) column && meets y (y + height) row) := by
    rw [Painting.covers, contains_covering _ _ widthSmall left,
      contains_covering _ _ heightSmall above]
  -- a condition only counts at the pixels of the canvas
  have paints {condition : Nat → Nat → Bool}
      (same : ∀ column < canvas.width, ∀ row < canvas.height,
        (meets x (x + width) column && meets y (y + height) row) = condition column row)
      (column row : Nat) : (canvas.fillRectangle x y width height color).get? column row =
        (canvas.get? column row).map fun old => if condition column row then color else old := by
    refine (painted column row).trans ?_
    by_cases inside : column < canvas.width ∧ row < canvas.height
    · rw [met inside.1 inside.2, same column inside.1 row inside.2]
      rfl
    · rw [get?, if_neg inside, Option.map_none, Option.map_none]
  refine ⟨width_writeAll canvas color _, height_writeAll canvas color _,
    paints fun _ _ _ _ => rfl, fun right below => paints fun column left row above => ?_⟩
  rw [meets_eq_overlaps (Number.isNaN_of_add right) right (by omega),
    meets_eq_overlaps (Number.isNaN_of_add below) below (by omega)]

/-- A rectangle that leaves the canvas on the right and above paints the corner that it overlaps. -/
theorem get?_fillRectangle_corner :
    ((blank 10 10 (.gray 255)).fillRectangle 8 (-2) 5 4 (.gray 0)).get? 9 0 = some (.gray 0) ∧
    ((blank 10 10 (.gray 255)).fillRectangle 8 (-2) 5 4 (.gray 0)).get? 8 2 = some (.gray 255) := by
  obtain ⟨-, -, -, painted⟩ := get?_fillRectangle (blank 10 10 (.gray 255)) 8 (-2) 5 4 (.gray 0)
    (by decide) (by decide) (by decide)
  rw [painted (by decide +kernel) (by decide +kernel),
    painted (by decide +kernel) (by decide +kernel)]
  decide +kernel

/-- A rectangle whose left side is no number overlaps no pixel, and yet it paints its rows. -/
theorem get?_fillRectangle_unbounded :
    overlaps (0 / 0) (0 / 0 + 1) 0 = false ∧
    ((blank 2 1 (.gray 255)).fillRectangle (0 / 0) 0 1 1 (.gray 0)).get? 0 0 = some (.gray 0) := by
  decide +kernel

end Rectangle

/-! ## One painting after the other -/

/-- The canvas after paintings. -/
def paintAll (canvas : Canvas) (paintings : List Painting) : Canvas :=
  paintings.foldl Painting.paint canvas

section PaintAll

variable (canvas : Canvas)

/-- The last of some paintings is done last. -/
theorem paintAll_append_singleton (earlier : List Painting) (painting : Painting) :
    canvas.paintAll (earlier ++ [painting]) = painting.paint (canvas.paintAll earlier) := by
  rw [paintAll, List.foldl_append]
  rfl

/-- Paintings keep the size. -/
theorem size_paintAll (paintings : List Painting) :
    (canvas.paintAll paintings).width = canvas.width ∧
      (canvas.paintAll paintings).height = canvas.height := by
  induction paintings generalizing canvas with
  | nil => exact ⟨rfl, rfl⟩
  | cons painting later ih =>
      obtain ⟨sameWidth, sameHeight⟩ := ih (painting.paint canvas)
      exact ⟨sameWidth.trans painting.width_paint, sameHeight.trans painting.height_paint⟩

/-- No painting writes outside the canvas, and the writes of all make what they paint. -/
theorem foldlM_painting_write? (paintings : List Painting)
    (fits : canvas.width * canvas.height < 2 ^ 64) (widthSmall : canvas.width < 2 ^ 53)
    (heightSmall : canvas.height < 2 ^ 53) :
    paintings.foldlM Painting.write? canvas = some (canvas.paintAll paintings) := by
  induction paintings generalizing canvas with
  | nil => rfl
  | cons painting later ih =>
      rw [List.foldlM_cons, painting.write?_eq fits widthSmall heightSmall]
      exact ih _ (by rwa [painting.width_paint, painting.height_paint])
        (by rwa [painting.width_paint]) (by rwa [painting.height_paint])

end PaintAll

section Blank

variable {width height : Nat}

/-- The pixel of a blank canvas. -/
theorem get?_blank (fits : width * height < 2 ^ 64) (background : Color) (column row : Nat) :
    (blank width height background).get? column row =
      if column < width ∧ row < height then some background else none := by
  rw [get?]
  refine ite_congr rfl (fun inside => ?_) fun _ => rfl
  have before : (blank width height background).place column row < machineWord (width * height) :=
    place_lt fits inside.1 inside.2
  exact (Vector.getElem?_eq_getElem before).trans (congrArg some (Vector.getElem_replicate before))

variable (widthSmall : width < 2 ^ 53) (heightSmall : height < 2 ^ 53)
  (fits : width * height < 2 ^ 64)

include widthSmall heightSmall fits

/-- After paintings, a pixel has the color of the last one that covers it. -/
theorem get?_paintAll_blank (paintings : List Painting) (background : Color) (column row : Nat) :
    ((blank width height background).paintAll paintings).get? column row =
      if column < width ∧ row < height then
        some (Painting.lastColor paintings width height background column row)
      else none := by
  induction paintings using List.reverseRecOn with
  | nil => exact get?_blank fits background column row
  | append_singleton earlier painting ih =>
      obtain ⟨sameWidth, sameHeight⟩ := (blank width height background).size_paintAll earlier
      rw [blank] at sameWidth sameHeight
      rw [paintAll_append_singleton, painting.get?_paint, ih, Painting.lastColor_append_singleton,
        blank, sameWidth, sameHeight]
      · by_cases inside : column < width ∧ row < height
        · rw [if_pos inside, if_pos inside]
          rfl
        · rw [if_neg inside, if_neg inside]
          rfl
      all_goals
        rw [blank]
        simpa only [sameWidth, sameHeight]

/-- A canvas whose pixels fit into a machine word keeps its size and its pixels under all paintings,
none of which writes outside; and a pixel has the color of the last painting that covers it, or else
the background. -/
theorem paintAll_blank (paintings : List Painting) (background : Color) :
    ((blank width height background).paintAll paintings).width = width ∧
    ((blank width height background).paintAll paintings).height = height ∧
    ((blank width height background).paintAll paintings).pixels.toArray.size = width * height ∧
    paintings.foldlM Painting.write? (blank width height background) =
      some ((blank width height background).paintAll paintings) ∧
    ∀ column row, ((blank width height background).paintAll paintings).get? column row =
      if column < width ∧ row < height then
        some (Painting.lastColor paintings width height background column row)
      else none := by
  obtain ⟨sameWidth, sameHeight⟩ := (blank width height background).size_paintAll paintings
  refine ⟨sameWidth, sameHeight, ?_, foldlM_painting_write? _ paintings fits widthSmall heightSmall,
    get?_paintAll_blank widthSmall heightSmall fits paintings background⟩
  rw [Vector.size_toArray, sameWidth, sameHeight]
  exact machineWord_of_lt fits

end Blank

/-- On a canvas beside which a circle goes, some pixels keep the color of the circle, others that of
a later rectangle, one is set, and one is still blank. -/
theorem paintAll_blank_point :
    let painted := (blank 5 3 (.gray 255)).paintAll
      [.circle 1 1 (3 / 2) (.gray 9), .rectangle 2 (-1) 9 2 (.gray 6), .set 1 1 (.gray 0),
        .set 7 1 (.gray 5)]
    painted.get? 0 1 = some (.gray 9) ∧ painted.get? 2 0 = some (.gray 6) ∧
      painted.get? 1 1 = some (.gray 0) ∧ painted.get? 4 2 = some (.gray 255) := by
  obtain ⟨-, -, -, -, painted⟩ := paintAll_blank (show 5 < 2 ^ 53 by decide)
    (show 3 < 2 ^ 53 by decide) (show 5 * 3 < 2 ^ 64 by decide)
    [.circle 1 1 (3 / 2) (.gray 9), .rectangle 2 (-1) 9 2 (.gray 6), .set 1 1 (.gray 0),
      .set 7 1 (.gray 5)] (.gray 255)
  simp only [painted]
  decide +kernel

/-- A canvas of `2 ^ 64` pixels has none: neither is there a color where it is blank, nor can one of
its pixels be set. -/
theorem paintAll_blank_overflow :
    2 ^ 40 < 2 ^ 53 ∧ 2 ^ 24 < 2 ^ 53 ∧
    (blank (2 ^ 40) (2 ^ 24) (.gray 255)).pixels.toArray.size ≠ 2 ^ 40 * 2 ^ 24 ∧
    (blank (2 ^ 40) (2 ^ 24) (.gray 255)).get? 0 0 = none ∧
    (Painting.set 0 0 (.gray 0)).write? (blank (2 ^ 40) (2 ^ 24) (.gray 255)) = none := by
  decide +kernel

end Canvas

end LineRobot
