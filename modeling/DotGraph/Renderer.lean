import DotGraph.Attribute
set_option autoImplicit false

namespace DotGraph

abbrev Renderer := Attribute → Text.StringMode → Option String

namespace Renderer

def ofKind (k : Attribute.Kind) : Renderer := fun a mode =>
  if a.kind = k then some (a.text mode) else none

def const (s : String) : Renderer := fun _ _ => some s

def onKind (k : Attribute.Kind) (r : Renderer) : Renderer := fun a mode =>
  if a.kind = k then r a mode else none

def inMode (m : Text.StringMode) (r : Renderer) : Renderer := fun a mode =>
  if mode = m then r a mode else none

theorem ofKind_isSome (k : Attribute.Kind) (a : Attribute) (mode : Text.StringMode) :
    (ofKind k a mode).isSome = (a.kind == k) := by
  by_cases h : a.kind = k <;> simp [ofKind, h]

end Renderer

structure Registry where
  entries : List Renderer

namespace Registry

def empty : Registry := ⟨[]⟩

/-- The kinds with a renderer from the start. Styles of subgraphs are written without
one, and custom attributes have none until the caller adds it. -/
def builtinKinds : List Attribute.Kind :=
  [.shape, .nodeStyle, .edgeStyle, .fontColor, .fillColor, .color, .label, .width, .height,
   .penWidth, .arrowTail, .arrowHead, .position]

def default : Registry := ⟨builtinKinds.map Renderer.ofKind⟩

instance : Inhabited Registry := ⟨default⟩

def size (g : Registry) : Nat := g.entries.length

def isEmpty (g : Registry) : Bool := g.entries.isEmpty

def push (g : Registry) (r : Renderer) : Registry := ⟨g.entries ++ [r]⟩

def prepend (g : Registry) (r : Renderer) : Registry := ⟨r :: g.entries⟩

/-- The position behind the last entry is one to insert at. -/
def insert? (g : Registry) (i : Nat) (r : Renderer) : Option Registry :=
  if i ≤ g.size then some ⟨g.entries.insertIdx i r⟩ else none

def remove? (g : Registry) (i : Nat) : Option (Renderer × Registry) :=
  g.entries[i]?.map fun r => (r, ⟨g.entries.eraseIdx i⟩)

def swap? (g : Registry) (i j : Nat) : Option Registry :=
  match g.entries[i]?, g.entries[j]? with
  | some r, some s => some ⟨(g.entries.set i s).set j r⟩
  | _, _ => none

def render (g : Registry) (a : Attribute) (mode : Text.StringMode) : Option String :=
  g.entries.findSome? fun r => r a mode

/-- The position of the first renderer to answer, all of them being asked in raw mode. -/
def position? (g : Registry) (a : Attribute) : Option Nat :=
  g.entries.findIdx? fun r => (r a .raw).isSome

def summary (g : Registry) : String := "Renderers \x7b len: " ++ Nat.repr g.size ++ " \x7d"

theorem render_push (g : Registry) (r : Renderer) (a : Attribute) (mode : Text.StringMode) :
    (g.push r).render a mode = (g.render a mode).or (r a mode) := by
  simp [render, push, List.findSome?_append]

theorem render_prepend (g : Registry) (r : Renderer) (a : Attribute) (mode : Text.StringMode) :
    (g.prepend r).render a mode = (r a mode).or (g.render a mode) := by
  cases h : r a mode <;> simp [render, prepend, h]

end Registry

end DotGraph
