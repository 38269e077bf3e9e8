import AtomArray.Fault

/-!
Figures of registers, drives, tasks and reports, as descriptions that a viewer can draw. A `Figure`
has axes and marks, and a `Layout` arranges figures with notes, tables and controls.
-/

namespace AtomArray

inductive Cell where
  | whole (i : Int)
  | binary (x : Float)
  | text (s : String)

namespace Cell

def toFloat : Cell → Float
  | whole i => Float.ofInt i
  | binary x => x
  | text _ => 0.0 / 0.0

/-- The least cell of a list that starts with the given one; of equal ones the first. -/
def least (first : Cell) (rest : List Cell) : Cell :=
  rest.foldl (fun m c => if c.toFloat < m.toFloat then c else m) first

/-- The greatest cell of a list that starts with the given one; of equal ones the first. -/
def greatest (first : Cell) (rest : List Cell) : Cell :=
  rest.foldl (fun m c => if m.toFloat < c.toFloat then c else m) first

end Cell

inductive AxisRange where
  | between (start stop : Cell)
  /-- Whatever the data need, from a number and to a number where these are given. -/
  | fitted (start stop : Option Cell)
  | names (ns : List String)

/-- The range from a number to a number. A bound that equals the standard one is the standard
one, which is a whole number. -/
def AxisRange.ofBounds (start stop : Float) : AxisRange :=
  .between (if start == 0.0 then .whole 0 else .binary start)
    (if stop == 1.0 then .whole 1 else .binary stop)

/-- How one property of a mark is set. -/
inductive Setting where
  | fixed (c : Cell)
  | column (name : String)
  /-- Read from a column whose presence is not checked. -/
  | field (name : String)
  /-- A colour between those of a lowest and a highest number, read from a column. -/
  | graded (name : String) (low high : Cell)

inductive Glyph where
  | line
  | steps
  | area
  | bars
  | circles
  /-- Points whose size is in the unit of the screen. -/
  | points
  deriving DecidableEq

structure Marks where
  glyph : Glyph
  settings : List (String × Setting)
  data : List (String × List Cell)
  name : Option String := none
  visible : Bool := true

namespace Marks

def standardColor : String := "#1f77b4"

/-- The setting of a line's width. A width that equals the standard one is the standard one. -/
def lineWidth (w : Float) : Setting := .fixed (if w == 1.0 then .whole 1 else .binary w)

def color (c : String) : Setting := .fixed (.text c)

variable (x y : String)

def line (lineColor : String) (width : Cell) (data : List (String × List Cell)) : Marks :=
  ⟨.line, [("x", .column x), ("y", .column y), ("line_width", .fixed width),
    ("line_color", color lineColor)], data, none, true⟩

def circles (radius lineWidth : Setting) (alpha : Float)
    (lineColor fillColor : Setting) (data : List (String × List Cell)) : Marks :=
  ⟨.circles, [("x", .column x), ("y", .column y), ("radius", radius), ("line_width", lineWidth),
    ("fill_alpha", .fixed (.binary alpha)), ("line_color", lineColor), ("fill_color", fillColor)],
    data, none, true⟩

def points (size : Int) (c : String) (data : List (String × List Cell)) : Marks :=
  ⟨.points, [("x", .column x), ("y", .column y), ("size", .fixed (.whole size)),
    ("line_width", .fixed (.whole 1)), ("fill_alpha", .fixed (.binary 1.0)),
    ("line_color", color c), ("fill_color", color c)], data, none, true⟩

def area (x y floor : String) (alpha : Float) (c : String) (data : List (String × List Cell)) :
    Marks :=
  ⟨.area, [("x", .column x), ("y1", .column y), ("y2", .column floor),
    ("fill_alpha", .fixed (.binary alpha)), ("fill_color", color c)], data, none, true⟩

end Marks

/-- What a viewer can do with a figure, as far as it reads the data. -/
inductive Tool where
  /-- Shows texts beside the marks under the pointer, or above and below it. -/
  | hover (upright : Bool) (texts : List (String × String))
  /-- An upright line at the pointer: one of the figure's own, or one shared by several. -/
  | crosshair (shared : Bool)
  | tap

def Tool.standardTexts : List (String × String) :=
  [("index", "$index"), ("data (x, y)", "($x, $y)"), ("screen (x, y)", "($sx, $sy)")]

structure Figure where
  title : String := ""
  width : Nat := 600
  height : Nat := 600
  xRange : AxisRange := .fitted none none
  yRange : AxisRange := .fitted none none
  xLabel : Option String := none
  yLabel : Option String := none
  marks : List Marks := []
  tools : List Tool := []
  colorBar : Bool := false

inductive Icon where
  | program
  | vendor
  deriving DecidableEq

def Icon.size : Icon → Nat
  | program => 3671
  | vendor => 3399

inductive Layout where
  | plot (f : Figure)
  | row (children : List Layout)
  | column (children : List Layout)
  /-- A row that can be found by its name and may be hidden. -/
  | namedRow (name : String) (visible : Bool) (children : List Layout)
  /-- Figures below each other, with their axes aligned. -/
  | stack (children : List Layout)
  | tabs (panels : List Layout)
  | panel (title : String) (child : Layout)
  | note (text : String)
  | choice (chosen options : List String)
  | button (label : String) (icon : Option Icon)
  | input (title : String) (value : Int)
  | weights (groups names : List String) (values : List Cell)

end AtomArray
