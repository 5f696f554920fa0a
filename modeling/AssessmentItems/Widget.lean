import AssessmentItems.Base64
import AssessmentItems.Decoding
import AssessmentItems.Escaping

/-!
Widgets: diagrams and tables that an item describes by parameters. A widget is read
from its specification by the kind that this names, rendered to markup by a renderer,
and embedded in a slot, diagrams as images.
-/
namespace AssessmentItems

/-- A widget as authored: its kind, a description, and the parameters of the kind. -/
structure WidgetSpec where
  kind : Text
  alt : Option Text
  parameters : Table Json
deriving Repr

inductive WidgetOutput where
  /-- A picture, embedded as an image. -/
  | image
  /-- Markup, embedded as it is. -/
  | markup
deriving Repr, DecidableEq

def WidgetOutput.name : WidgetOutput → Text
  | image => "image"
  | markup => "markup"

structure NumberLine where
  min : Binary64
  max : Binary64
  tickInterval : Binary64
  points : List Binary64
  width : Nat
  height : Nat
deriving Repr, DecidableEq

structure Bar where
  label : Text
  value : Binary64
deriving Repr, DecidableEq

structure BarChart where
  title : Option Text
  bars : List Bar
  yMax : Option Binary64
  width : Nat
  height : Nat
deriving Repr, DecidableEq

structure PlotPoint where
  x : Binary64
  y : Binary64
  label : Option Text
deriving Repr, DecidableEq

structure CoordinatePlane where
  xRange : Binary64 × Binary64
  yRange : Binary64 × Binary64
  points : List PlotPoint
  width : Nat
  height : Nat
deriving Repr, DecidableEq

inductive FractionShape where
  | circle
  | rectangle
deriving Repr, DecidableEq

structure FractionModel where
  numerator : Nat
  denominator : Nat
  shape : FractionShape
  width : Nat
  height : Nat
deriving Repr, DecidableEq

structure DataTable where
  caption : Option Text
  columns : List Text
  rows : List (List Text)
deriving Repr, DecidableEq

/-- A widget whose parameters are in order. -/
inductive Widget where
  | numberLine (w : NumberLine)
  | barChart (w : BarChart)
  | coordinatePlane (w : CoordinatePlane)
  | fractionModel (w : FractionModel)
  | dataTable (w : DataTable)
deriving Repr, DecidableEq

/-- Numbers in descriptions and messages are written without exponent, and integers
without a point. -/
def displayLayout : ShortestDigits.Layout where
  tieToEven := false
  positional _ := true
  pointZero := false

def displayNumber (x : Binary64) : Text := ShortestDigits.write displayLayout x

inductive WidgetKind where
  | numberLine
  | barChart
  | coordinatePlane
  | fractionModel
  | dataTable
deriving Repr, DecidableEq

namespace WidgetKind

/-- All kinds, in ascending order of their names. -/
def all : List WidgetKind := [barChart, coordinatePlane, dataTable, fractionModel, numberLine]

def name : WidgetKind → Text
  | numberLine => "numberLine"
  | barChart => "barChart"
  | coordinatePlane => "coordinatePlane"
  | fractionModel => "fractionModel"
  | dataTable => "dataTable"

def output : WidgetKind → WidgetOutput
  | numberLine | barChart | coordinatePlane | fractionModel => .image
  | dataTable => .markup

def ofName? (name : Text) : Option WidgetKind := all.find? fun kind => kind.name = name

end WidgetKind

namespace Widget

def kind : Widget → WidgetKind
  | numberLine _ => .numberLine
  | barChart _ => .barChart
  | coordinatePlane _ => .coordinatePlane
  | fractionModel _ => .fractionModel
  | dataTable _ => .dataTable

def output (w : Widget) : WidgetOutput := w.kind.output

/-- Width and height of a picture. -/
def size : Widget → Option (Nat × Nat)
  | numberLine w => some (w.width, w.height)
  | barChart w => some (w.width, w.height)
  | coordinatePlane w => some (w.width, w.height)
  | fractionModel w => some (w.width, w.height)
  | dataTable _ => none

/-- The description of a widget that is given none. -/
def defaultAlt : Widget → Text
  | numberLine w => "Number line from " ++ displayNumber w.min ++ " to " ++ displayNumber w.max
  | barChart w =>
    match w.title with
    | some title => "Bar chart: " ++ title
    | none => "Bar chart"
  | coordinatePlane _ => "Coordinate plane"
  | fractionModel w =>
    "Fraction model showing " ++ Text.ofNat w.numerator ++ "/" ++ Text.ofNat w.denominator
  | dataTable _ => "Data table"

end Widget

open Decoding

namespace WidgetSpec

def fields : Fields (Text × Option Text) :=
  Fields.nothing Prod.mk
    |>.required "type" text
    |>.withDefault "alt" (optional text) none

/-- A specification is an object; what it holds beside kind and description are the
parameters. -/
def decode : Decoder WidgetSpec
  | .object members =>
    match fields.ofMembers members with
    | .ok (kind, alt) => .ok ⟨kind, alt, Table.erase "type" (Table.erase "alt" members)⟩
    | .error failure => .error failure.cause
  | v => refuse "struct WidgetSpec" v

/-- A description that is not given is left out. -/
def toJson (s : WidgetSpec) : Json :=
  match s.alt with
  | some alt => .object (("type", .string s.kind) :: ("alt", .string alt) :: s.parameters)
  | none => .object (("type", .string s.kind) :: s.parameters)

end WidgetSpec

namespace NumberLine

def record : Record NumberLine where
  name := "NumberLine"
  fields := Fields.nothing NumberLine.mk
    |>.required "min" float
    |>.required "max" float
    |>.required "tickInterval" float
    |>.withDefault "points" (list float) []
    |>.withDefault "width" natural32 400
    |>.withDefault "height" natural32 80
  strict := true
  origin := .plain

end NumberLine

def Bar.record : Record Bar where
  name := "Bar"
  fields := Fields.nothing Bar.mk
    |>.required "label" text
    |>.required "value" float
  strict := false
  origin := .plain

def BarChart.record : Record BarChart where
  name := "BarChart"
  fields := Fields.nothing BarChart.mk
    |>.withDefault "title" (optional text) none
    |>.required "bars" (list Bar.record.decode)
    |>.withDefault "yMax" (optional float) none
    |>.withDefault "width" natural32 400
    |>.withDefault "height" natural32 400
  strict := true
  origin := .plain

def PlotPoint.record : Record PlotPoint where
  name := "PlotPoint"
  fields := Fields.nothing PlotPoint.mk
    |>.required "x" float
    |>.required "y" float
    |>.withDefault "label" (optional text) none
  strict := false
  origin := .plain

def CoordinatePlane.record : Record CoordinatePlane where
  name := "CoordinatePlane"
  fields := Fields.nothing CoordinatePlane.mk
    |>.required "xRange" (pair float)
    |>.required "yRange" (pair float)
    |>.withDefault "points" (list PlotPoint.record.decode) []
    |>.withDefault "width" natural32 400
    |>.withDefault "height" natural32 400
  strict := true
  origin := .plain

def FractionShape.decode : Decoder FractionShape :=
  variant [("circle", .circle), ("rectangle", .rectangle)]

def FractionModel.record : Record FractionModel where
  name := "FractionModel"
  fields := Fields.nothing FractionModel.mk
    |>.required "numerator" natural32
    |>.required "denominator" natural32
    |>.withDefault "shape" FractionShape.decode .circle
    |>.withDefault "width" natural32 400
    |>.withDefault "height" natural32 400
  strict := true
  origin := .plain

def DataTable.record : Record DataTable where
  name := "DataTable"
  fields := Fields.nothing DataTable.mk
    |>.withDefault "caption" (optional text) none
    |>.required "columns" (list text)
    |>.required "rows" (list (list text))
  strict := true
  origin := .plain

/-- Why the parameters of a widget are not in order. -/
inductive WidgetProblem where
  | shape (cause : DecodeError)
  | emptyRange (min max : Binary64)
  | tickNotPositive
  | pointOutside (point min max : Binary64)
  | noBars
  | negativeBar (bar : Bar)
  | tooLow (yMax tallest : Binary64)
  | axesNotAscending
  | zeroDenominator
  | improperFraction (numerator denominator : Nat)
  | noColumns
  | raggedRow (index cells columns : Nat)
deriving Repr, DecidableEq

def WidgetProblem.message : WidgetProblem → Text
  | shape cause => cause.message
  | emptyRange min max =>
    "min " ++ displayNumber min ++ " must be less than max " ++ displayNumber max
  | tickNotPositive => "tickInterval must be positive"
  | pointOutside point min max =>
    "point " ++ displayNumber point ++ " lies outside [" ++ displayNumber min ++ ", " ++
      displayNumber max ++ "]"
  | noBars => "at least one bar is required"
  | negativeBar bar => "bar '" ++ bar.label ++ "' has invalid value " ++ displayNumber bar.value
  | tooLow yMax tallest =>
    "yMax " ++ displayNumber yMax ++ " is below tallest bar " ++ displayNumber tallest
  | axesNotAscending => "axis ranges must be ascending"
  | zeroDenominator => "denominator must be positive"
  | improperFraction numerator denominator =>
    "numerator " ++ Text.ofNat numerator ++ " exceeds denominator " ++ Text.ofNat denominator
  | noColumns => "at least one column is required"
  | raggedRow index cells columns =>
    "row " ++ Text.ofNat index ++ " has " ++ Text.ofNat cells ++ " cells, expected " ++
      Text.ofNat columns

namespace NumberLine

def problem? (w : NumberLine) : Option WidgetProblem :=
  if !w.min.lt w.max then some (.emptyRange w.min w.max)
  else if !(Binary64.zero false).lt w.tickInterval then some .tickNotPositive
  else (w.points.find? fun p => p.lt w.min || w.max.lt p).map (.pointOutside · w.min w.max)

end NumberLine

namespace BarChart

/-- The greatest value of a bar, or zero. -/
def tallest (w : BarChart) : Binary64 :=
  w.bars.foldl (fun top bar => if top.lt bar.value then bar.value else top) (.zero false)

def problem? (w : BarChart) : Option WidgetProblem :=
  if w.bars.isEmpty then some .noBars
  else
    match w.bars.find? fun bar => bar.value.lt (.zero false) with
    | some bar => some (.negativeBar bar)
    | none =>
      match w.yMax with
      | some yMax => if yMax.lt w.tallest then some (.tooLow yMax w.tallest) else none
      | none => none

end BarChart

def CoordinatePlane.problem? (w : CoordinatePlane) : Option WidgetProblem :=
  if !w.xRange.1.lt w.xRange.2 || !w.yRange.1.lt w.yRange.2 then some .axesNotAscending else none

def FractionModel.problem? (w : FractionModel) : Option WidgetProblem :=
  if w.denominator = 0 then some .zeroDenominator
  else if w.denominator < w.numerator then some (.improperFraction w.numerator w.denominator)
  else none

namespace DataTable

/-- The first row, counted from `index`, that has not as many cells as there are columns. -/
def raggedRow? (columns : Nat) (index : Nat) : List (List Text) → Option WidgetProblem
  | [] => none
  | row :: rest =>
    if row.length ≠ columns then some (.raggedRow index row.length columns)
    else raggedRow? columns (index + 1) rest

def problem? (w : DataTable) : Option WidgetProblem :=
  if w.columns.isEmpty then some .noColumns else raggedRow? w.columns.length 0 w.rows

end DataTable

namespace Widget

def problem? : Widget → Option WidgetProblem
  | numberLine w => w.problem?
  | barChart w => w.problem?
  | coordinatePlane w => w.problem?
  | fractionModel w => w.problem?
  | dataTable w => w.problem?

/-- Reads the parameters of a kind. -/
def decode : WidgetKind → Decoder Widget
  | .numberLine, v => (NumberLine.record.decode v).map numberLine
  | .barChart, v => (BarChart.record.decode v).map barChart
  | .coordinatePlane, v => (CoordinatePlane.record.decode v).map coordinatePlane
  | .fractionModel, v => (FractionModel.record.decode v).map fractionModel
  | .dataTable, v => (DataTable.record.decode v).map dataTable

/-- The widget of a kind with the given parameters, if they are in order. -/
def ofParameters (kind : WidgetKind) (parameters : Table Json) : Except WidgetProblem Widget :=
  match decode kind (.object parameters) with
  | .error cause => .error (.shape cause)
  | .ok w =>
    match w.problem? with
    | some problem => .error problem
    | none => .ok w

end Widget

/-- Turns a widget into a picture or markup, or says why it cannot. -/
abbrev Renderer := Widget → Except Text Text

open Escaping

namespace DataTable

/-- A cell, heading or caption: an element that holds a text. -/
def cellMarkup (element content : Text) : Text :=
  "<" ++ element ++ ">" ++ escapeText content ++ "</" ++ element ++ ">"

def captionMarkup (w : DataTable) : Text :=
  match w.caption with
  | some caption => cellMarkup "caption" caption
  | none => []

/-- A row of cells. -/
def rowMarkup (element : Text) (cells : List Text) : Text :=
  "<tr>" ++ cells.flatMap (cellMarkup element) ++ "</tr>"

def markup (w : DataTable) : Text :=
  "<table>" ++ w.captionMarkup ++ "<thead>" ++ rowMarkup "th" w.columns ++ "</thead><tbody>" ++
    w.rows.flatMap (rowMarkup "td") ++ "</tbody></table>"

end DataTable

/-- An empty picture frame of the given size. -/
def emptyFrame (width height : Nat) : Text :=
  let w := Text.ofNat width
  let h := Text.ofNat height
  "<svg xmlns=\"http://www.w3.org/2000/svg\" viewBox=\"0 0 " ++ w ++ " " ++ h ++ "\" width=\"" ++
    w ++ "\" height=\"" ++ h ++ "\"></svg>"

namespace Widget

/-- Renders tables as they are and diagrams as empty frames. -/
def placeholder : Renderer
  | dataTable w => .ok w.markup
  | w =>
    match w.size with
    | some (width, height) => .ok (emptyFrame width height)
    | none => .error (w.kind.name ++ " has no size")

/-- What stands in the slot of a rendered widget. -/
def embed (w : Widget) (alt : Option Text) (rendered : Text) : Text :=
  match w.output with
  | .markup => rendered
  | .image =>
    let size : Text :=
      match w.size with
      | some (width, height) =>
        " width=\"" ++ Text.ofNat width ++ "\" height=\"" ++ Text.ofNat height ++ "\""
      | none => []
    "<img src=\"data:image/svg+xml;base64," ++ Base64.encode rendered.bytes ++ "\" alt=\"" ++
      escapeAttribute (alt.getD w.defaultAlt) ++ "\"" ++ size ++ "/>"

end Widget
end AssessmentItems
