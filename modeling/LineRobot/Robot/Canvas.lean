import LineRobot.Number.Binary64

/-! # Courses and canvases

A course gives a color to each point of the plane that it covers. A `Canvas` is a course made of
square pixels of side one, row after row; a point has the color of the pixel that it lies in.

The number of pixels and the place of a pixel among them are machine words. Their products are taken
without a look at overflow, so that a canvas of `2 ^ 64` pixels has none. To paint is to write
pixels at their places, one after the other (`Canvas.writeAll`). -/

namespace LineRobot

/-- A color. -/
structure Color where
  /-- The red part. -/
  red : UInt8
  /-- The green part. -/
  green : UInt8
  /-- The blue part. -/
  blue : UInt8
deriving DecidableEq, Repr

namespace Color

/-- A gray level. -/
def gray (level : UInt8) : Color :=
  ⟨level, level, level⟩

/-- The mean of the three parts. -/
def intensity (color : Color) : Float :=
  (color.red.toFloat + color.green.toFloat + color.blue.toFloat) / 3

end Color

/-- A color for each covered point. -/
structure Course where
  /-- The color at a point, or nothing if the course does not reach there. -/
  sample : Float → Float → Option Color

/-- A count as it is kept in a machine word of 64 bits. -/
def machineWord (count : Nat) : Nat :=
  count % Nat.pow 2 64

/-- A rectangle of pixels. -/
structure Canvas where
  /-- The number of columns. -/
  width : Nat
  /-- The number of rows. -/
  height : Nat
  /-- The colors of the pixels, row after row. -/
  pixels : Vector Color (machineWord (width * height))

/-- The pixels from one number to before another, in one direction. -/
structure PixelRange where
  /-- The first pixel. -/
  first : Nat
  /-- The pixel after the last. -/
  stop : Nat
deriving DecidableEq, Repr

namespace PixelRange

/-- The pixels of a range, from the first. -/
def pixels (range : PixelRange) : List Nat :=
  List.range' range.first (range.stop - range.first)

/-- Whether a pixel lies in the range. -/
def contains (range : PixelRange) (pixel : Nat) : Bool :=
  range.first ≤ pixel && pixel < range.stop

/-- The pixels that the interval between two numbers overlaps, among the given number of pixels. An
end that is no number does not bound the interval. -/
def covering (low high : Float) (limit : Nat) : PixelRange :=
  let first := Number.larger (Number.rounded .down low) 0
  let stop := Number.smaller (Number.rounded .up high) (Float.ofNat limit)
  if first.isNaN || stop.isNaN || stop ≤ first then ⟨0, 0⟩
  else ⟨(Number.integer .towardZero first).toNat, (Number.integer .towardZero stop).toNat⟩

end PixelRange

namespace Canvas

/-- A canvas of one color. -/
def blank (width height : Nat) (background : Color) : Canvas :=
  ⟨width, height, Vector.replicate (machineWord (width * height)) background⟩

/-- The place of a pixel among all pixels. -/
def place (canvas : Canvas) (x y : Nat) : Nat :=
  machineWord (y * canvas.width + x)

/-- The color of a pixel; none outside the canvas, or where the canvas has no place for it. -/
def get? (canvas : Canvas) (x y : Nat) : Option Color :=
  if x < canvas.width ∧ y < canvas.height then canvas.pixels[canvas.place x y]? else none

/-- The canvas with the pixel at a place written. A place that the canvas does not have may not be
written (`Canvas.write?`); here such a write changes nothing. -/
def write (color : Color) (canvas : Canvas) (place : Nat) : Canvas :=
  { canvas with pixels := canvas.pixels.setIfInBounds place color }

/-- The canvas with the pixels at some places written, one after the other. -/
def writeAll (canvas : Canvas) (places : List Nat) (color : Color) : Canvas :=
  places.foldl (write color) canvas

/-- The places of the pixels that two nested loops over rows and columns select. -/
def places (canvas : Canvas) (columns rows : PixelRange) (selects : Nat → Nat → Bool) : List Nat :=
  rows.pixels.flatMap fun row =>
    (columns.pixels.filter fun column => selects column row).map fun column =>
      canvas.place column row

/-- The places of all pixels. -/
def allPlaces (canvas : Canvas) : List Nat :=
  List.range (machineWord (canvas.width * canvas.height))

/-- The place of one pixel, if it lies on the canvas. -/
def placeOf (canvas : Canvas) (x y : Nat) : List Nat :=
  if x < canvas.width ∧ y < canvas.height then [canvas.place x y] else []

/-- The places of the pixels that a rectangle overlaps. -/
def rectangle (canvas : Canvas) (x y width height : Float) : List Nat :=
  canvas.places (.covering x (x + width) canvas.width) (.covering y (y + height) canvas.height)
    fun _ _ => true

/-- Whether the center of a pixel lies within a circle. -/
def centerWithin (x y radius : Float) (column row : Nat) : Bool :=
  let horizontal := Float.ofNat column + 0.5 - x
  let vertical := Float.ofNat row + 0.5 - y
  horizontal * horizontal + vertical * vertical ≤ radius * radius

/-- The places of the pixels whose centers lie within a circle. -/
def circle (canvas : Canvas) (x y radius : Float) : List Nat :=
  canvas.places (.covering (x - radius) (x + radius) canvas.width)
    (.covering (y - radius) (y + radius) canvas.height) (centerWithin x y radius)

/-- The canvas with every pixel painted. -/
def fill (canvas : Canvas) (color : Color) : Canvas :=
  canvas.writeAll canvas.allPlaces color

/-- The canvas with one pixel painted. -/
def set (canvas : Canvas) (x y : Nat) (color : Color) : Canvas :=
  canvas.writeAll (canvas.placeOf x y) color

/-- The canvas with every pixel painted that a rectangle overlaps. -/
def fillRectangle (canvas : Canvas) (x y width height : Float) (color : Color) : Canvas :=
  canvas.writeAll (canvas.rectangle x y width height) color

/-- The canvas with every pixel painted whose center lies within a circle. -/
def fillCircle (canvas : Canvas) (x y radius : Float) (color : Color) : Canvas :=
  canvas.writeAll (canvas.circle x y radius) color

/-- The color of the pixel that a point lies in; none outside the canvas. -/
def sample (canvas : Canvas) (x y : Float) : Option Color :=
  match Number.natural? x, Number.natural? y with
  | some column, some row => canvas.get? column row
  | _, _ => none

/-- The rows of the canvas, from the first, each from its first column. -/
def rows (canvas : Canvas) : List (List Color) :=
  (List.range canvas.height).map fun y =>
    (List.range canvas.width).filterMap fun x => canvas.get? x y

/-- A canvas as a course. -/
def course (canvas : Canvas) : Course :=
  ⟨canvas.sample⟩

end Canvas

end LineRobot
