import DotGraph.Number
import DotGraph.Text
set_option autoImplicit false

/-! Attributes and their text `key=value`. Strings and styles are quoted where they have to be, colours
and positions always, and names and numbers never. -/

namespace DotGraph

structure Color where
  red : UInt8
  green : UInt8
  blue : UInt8
  alpha : UInt8 := 255
  deriving DecidableEq, Repr

namespace Color

def isOpaque (c : Color) : Bool := c.alpha == 255

def channelText (b : UInt8) : String :=
  String.ofList [Nat.digitChar (b.toNat / 16), Nat.digitChar (b.toNat % 16)]

def hex (c : Color) : String :=
  "#" ++ channelText c.red ++ channelText c.green ++ channelText c.blue ++
    if c.isOpaque then "" else channelText c.alpha

end Color

inductive Shape where
  | box | polygon | ellipse | oval | circle | point | egg | triangle | plainText | plain
  | diamond | trapezium | parallelogram | house | pentagon | hexagon | septagon | octagon
  | doubleCircle | doubleOctagon | tripleOctagon | invTriangle | invTrapezium | invHouse
  | mDiamond | mSquare | mCircle | rect | rectangle | square | star | none | underline
  | cylinder | note | tab | folder | box3d | component
  deriving DecidableEq, Repr

namespace Shape

def all : List Shape :=
  [.box, .polygon, .ellipse, .oval, .circle, .point, .egg, .triangle, .plainText, .plain,
   .diamond, .trapezium, .parallelogram, .house, .pentagon, .hexagon, .septagon, .octagon,
   .doubleCircle, .doubleOctagon, .tripleOctagon, .invTriangle, .invTrapezium, .invHouse,
   .mDiamond, .mSquare, .mCircle, .rect, .rectangle, .square, .star, .none, .underline,
   .cylinder, .note, .tab, .folder, .box3d, .component]

def name : Shape → String
  | .box => "box"
  | .polygon => "polygon"
  | .ellipse => "ellipse"
  | .oval => "oval"
  | .circle => "circle"
  | .point => "point"
  | .egg => "egg"
  | .triangle => "triangle"
  | .plainText => "plaintext"
  | .plain => "plain"
  | .diamond => "diamond"
  | .trapezium => "trapezium"
  | .parallelogram => "parallelogram"
  | .house => "house"
  | .pentagon => "pentagon"
  | .hexagon => "hexagon"
  | .septagon => "septagon"
  | .octagon => "octagon"
  | .doubleCircle => "doublecircle"
  | .doubleOctagon => "doubleoctagon"
  | .tripleOctagon => "tripleoctagon"
  | .invTriangle => "invtriangle"
  | .invTrapezium => "invtrapezium"
  | .invHouse => "invhouse"
  | .mDiamond => "mdiamond"
  | .mSquare => "msquare"
  | .mCircle => "mcircle"
  | .rect => "rect"
  | .rectangle => "rectangle"
  | .square => "square"
  | .star => "star"
  | .none => "none"
  | .underline => "underline"
  | .cylinder => "cylinder"
  | .note => "note"
  | .tab => "tab"
  | .folder => "folder"
  | .box3d => "box3d"
  | .component => "component"

end Shape

inductive Arrow where
  | normal | inv | dot | invDot | oDot | invODot | none | tee | empty | invEmpty | diamond
  | oDiamond | eDiamond | crow | box | oBox | open | halfOpen | vee
  deriving DecidableEq, Repr

namespace Arrow

def all : List Arrow :=
  [.normal, .inv, .dot, .invDot, .oDot, .invODot, .none, .tee, .empty, .invEmpty, .diamond,
   .oDiamond, .eDiamond, .crow, .box, .oBox, .open, .halfOpen, .vee]

def name : Arrow → String
  | .normal => "normal"
  | .inv => "inv"
  | .dot => "dot"
  | .invDot => "invdot"
  | .oDot => "odot"
  | .invODot => "invodot"
  | .none => "none"
  | .tee => "tee"
  | .empty => "empty"
  | .invEmpty => "invempty"
  | .diamond => "diamond"
  | .oDiamond => "odiamond"
  | .eDiamond => "ediamond"
  | .crow => "crow"
  | .box => "box"
  | .oBox => "obox"
  | .open => "open"
  | .halfOpen => "halfopen"
  | .vee => "vee"

end Arrow

inductive StyleTarget where
  | node | edge | subgraph
  deriving DecidableEq, Repr

/-- The names of the flags, that of the lowest bit first. -/
def StyleTarget.flags : StyleTarget → List String
  | .node => ["filled", "invis", "diagonals", "rounded", "dashed", "dotted", "solid", "bold"]
  | .edge => ["dashed", "dotted", "solid", "invis", "bold", "tapered"]
  | .subgraph => ["filled", "striped", "rounded", "dashed", "dotted", "solid", "bold", "invis"]

/-- A bit that stands for no flag is kept and compared, but never written. -/
structure Style (target : StyleTarget) where
  bits : BitVec 16
  deriving DecidableEq, Repr

namespace Style

variable {target : StyleTarget}

def empty : Style target := ⟨0⟩

def union (s t : Style target) : Style target := ⟨s.bits ||| t.bits⟩

def named? (name : String) : Option (Style target) :=
  (target.flags.idxOf? name).map fun i => ⟨BitVec.twoPow 16 i⟩

def names (s : Style target) : List String :=
  (target.flags.zipIdx.filter fun f => s.bits.getLsbD f.2).map Prod.fst

def text (s : Style target) : String := "|".intercalate s.names

def full : Style target := ⟨(BitVec.allOnes target.flags.length).setWidth 16⟩

def truncate (s : Style target) : Style target := ⟨s.bits &&& (full : Style target).bits⟩

def isKnown (s : Style target) : Bool := s.truncate == s

end Style

inductive Attribute.Kind where
  | color | fontColor | fillColor | label | shape | nodeStyle | edgeStyle | subgraphStyle
  | width | height | penWidth | arrowHead | arrowTail | position
  | custom (name : String)
  deriving DecidableEq, Repr

namespace Attribute.Kind

def name : Kind → String
  | .color => "color"
  | .fontColor => "font-color"
  | .fillColor => "fill-color"
  | .label => "label"
  | .shape => "shape"
  | .nodeStyle => "node-style"
  | .edgeStyle => "edge-style"
  | .subgraphStyle => "subgraph-style"
  | .width => "width"
  | .height => "height"
  | .penWidth => "pen-width"
  | .arrowHead => "arrow-head"
  | .arrowTail => "arrow-tail"
  | .position => "position"
  | .custom _ => "custom"

/-- The name, and for a custom kind what its caller calls it. -/
def text : Kind → String
  | .custom n => "custom(" ++ n ++ ")"
  | k => k.name

def key : Kind → String
  | .color => "color"
  | .fontColor => "fontcolor"
  | .fillColor => "fillcolor"
  | .label => "label"
  | .shape => "shape"
  | .nodeStyle | .edgeStyle | .subgraphStyle => "style"
  | .width => "width"
  | .height => "height"
  | .penWidth => "penwidth"
  | .arrowHead => "arrowhead"
  | .arrowTail => "arrowtail"
  | .position => "pos"
  | .custom n => n

def fitsSubgraph : Kind → Bool
  | .subgraphStyle | .color | .label => true
  | _ => false

end Attribute.Kind

structure Point where
  x : Binary64
  y : Binary64

inductive Attribute where
  | color (value : Color)
  | fontColor (value : Color)
  | fillColor (value : Color)
  | label (value : String)
  | shape (value : Shape)
  | nodeStyle (value : Style .node)
  | edgeStyle (value : Style .edge)
  | subgraphStyle (value : Style .subgraph)
  | width (value : Binary64)
  | height (value : Binary64)
  | penWidth (value : Binary64)
  | arrowHead (value : Arrow)
  | arrowTail (value : Arrow)
  | position (value : Point)
  | custom (name value : String)

namespace Attribute

def kind : Attribute → Kind
  | .color _ => .color
  | .fontColor _ => .fontColor
  | .fillColor _ => .fillColor
  | .label _ => .label
  | .shape _ => .shape
  | .nodeStyle _ => .nodeStyle
  | .edgeStyle _ => .edgeStyle
  | .subgraphStyle _ => .subgraphStyle
  | .width _ => .width
  | .height _ => .height
  | .penWidth _ => .penWidth
  | .arrowHead _ => .arrowHead
  | .arrowTail _ => .arrowTail
  | .position _ => .position
  | .custom n _ => .custom n

def numbers : Attribute → List Binary64
  | .width v | .height v | .penWidth v => [v]
  | .position p => [p.x, p.y]
  | _ => []

def isFinite (a : Attribute) : Bool := a.numbers.all Binary64.isFinite

def valueText (mode : Text.StringMode) : Attribute → String
  | .color c | .fontColor c | .fillColor c => "\"" ++ c.hex ++ "\""
  | .label s => Text.quote mode s
  | .shape s => s.name
  | .nodeStyle s => Text.quote mode s.text
  | .edgeStyle s => Text.quote mode s.text
  | .subgraphStyle s => Text.quote mode s.text
  | .width v | .height v | .penWidth v => v.text
  | .arrowHead a | .arrowTail a => a.name
  | .position p => "\"" ++ p.x.text ++ "," ++ p.y.text ++ "!\""
  | .custom _ s => Text.quote mode s

def text (mode : Text.StringMode) (a : Attribute) : String :=
  a.kind.key ++ "=" ++ a.valueText mode

end Attribute

end DotGraph
