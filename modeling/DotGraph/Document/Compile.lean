import DotGraph.Graph.Basic
import DotGraph.Renderer
set_option autoImplicit false

/-!
From graphs to documents. Elements are written in order, and the first fault ends the work.
What is logged before it is kept.
-/

namespace DotGraph

inductive Level where
  | debug | trace
  deriving DecidableEq, Repr

def Level.name : Level → String
  | .debug => "DEBUG"
  | .trace => "TRACE"

inductive Event where
  | graph (id : String) (elements : Nat) (directed : Bool)
  | node (id : String)
  | edge (left right : String)
  | subgraph (id : String)
  | rendered (kind : Attribute.Kind) (text : String)
  deriving DecidableEq, Repr

namespace Event

def level : Event → Level
  | .graph .. => .debug
  | _ => .trace

def message : Event → String
  | .graph .. => "compiling graph"
  | .node _ => "node"
  | .edge .. => "edge"
  | .subgraph _ => "subgraph"
  | .rendered .. => "rendered attribute"

def fields : Event → List (String × String)
  | .graph i n d =>
    [("graph", i), ("elements", Nat.repr n), ("directed", if d then "true" else "false")]
  | .node i => [("node", i)]
  | .edge l r => [("left", l), ("right", r)]
  | .subgraph i => [("subgraph", i)]
  | .rendered k s => [("kind", k.text), ("fragment", s)]

end Event

structure Record where
  level : Level
  message : String
  fields : List (String × String)
  deriving DecidableEq, Repr

def Event.record (e : Event) : Record := ⟨e.level, e.message, e.fields⟩

inductive Fault where
  | noRenderer (kind : Attribute.Kind)
  | unsupportedInSubgraph (kind : Attribute.Kind)
  | notFinite (kind : Attribute.Kind)
  | emptyEndpoint
  deriving DecidableEq, Repr

def Fault.message : Fault → String
  | .noRenderer k => "no renderer registered for attribute kind `" ++ k.text ++ "`"
  | .unsupportedInSubgraph k =>
    "attribute kind `" ++ k.text ++
      "` is not supported on a subgraph (only style, color and label)"
  | .notFinite k => "attribute kind `" ++ k.text ++ "` has a non-finite value"
  | .emptyEndpoint => "edge endpoint identifier is empty"

structure Logged (α : Type) where
  events : List Event
  result : Except Fault α

namespace Logged

variable {α β γ : Type}

def map (f : α → β) (x : Logged α) : Logged β := ⟨x.events, x.result.map f⟩

def bind (x : Logged α) (f : α → Logged β) : Logged β :=
  match x.result with
  | .ok a =>
    let y := f a
    ⟨x.events ++ y.events, y.result⟩
  | .error e => ⟨x.events, .error e⟩

instance : Monad Logged where
  pure a := ⟨[], .ok a⟩
  bind := bind
  map := map

def note (e : Event) : Logged Unit := ⟨[e], .ok ()⟩

def fail (e : Fault) : Logged α := ⟨[], .error e⟩

theorem map_id (x : Logged α) : x.map id = x := by
  obtain ⟨l, r⟩ := x
  cases r <;> rfl

theorem bind_assoc (x : Logged α) (f : α → Logged β) (g : β → Logged γ) :
    (x.bind f).bind g = x.bind fun a => (f a).bind g := by
  obtain ⟨l, r⟩ := x
  cases r with
  | error e => rfl
  | ok a => cases h : (f a).result <;> simp [bind, h]

theorem bind_pure (f : α → β) (x : Logged α) : x.bind (fun a => pure (f a)) = x.map f := by
  obtain ⟨l, r⟩ := x
  cases r <;> simp [bind, map, pure, Except.map]

instance : LawfulMonad Logged := LawfulMonad.mk' Logged
  map_id (fun _ _ => rfl) bind_assoc (fun _ _ => rfl) (fun _ _ => rfl) (fun _ _ => rfl)
  bind_pure (fun _ _ => rfl)

end Logged

structure Statement where
  depth : Nat
  text : String
  deriving DecidableEq, Repr

inductive Layout where
  | flat | indented
  deriving DecidableEq, Repr

def indent (depth : Nat) : String := String.ofList (List.replicate (4 * depth) ' ')

namespace Layout

def line : Layout → Statement → String
  | .flat, s => s.text ++ " "
  | .indented, s => indent s.depth ++ s.text ++ "\n"

def lines (y : Layout) (l : List Statement) : String := String.join (l.map y.line)

/-- The brace at the end stands without an indent, and nothing follows it. -/
def document (y : Layout) (l : List Statement) : String := y.lines l ++ "\x7d"

theorem lines_append (y : Layout) (l m : List Statement) :
    y.lines (l ++ m) = y.lines l ++ y.lines m := by
  simp [lines]

end Layout

structure Wording where
  strings : Text.StringMode := .escaped
  registry : Registry := .default

structure Settings extends Wording where
  layout : Layout := .flat

namespace Wording

def quote (w : Wording) (s : String) : String := Text.quote w.strings s

def endpoint (w : Wording) (e : Endpoint) : Logged String :=
  if Text.isBlank e.id then .fail .emptyEndpoint else pure (w.quote e.id)

/-- The value is checked before any renderer is asked. -/
def rendered (w : Wording) (a : Attribute) : Logged String :=
  if a.isFinite then
    match w.registry.render a w.strings with
    | some s => do Logged.note (.rendered a.kind s); pure s
    | none => .fail (.noRenderer a.kind)
  else .fail (.notFinite a.kind)

def bracketed : List String → String
  | [] => ""
  | l => " [" ++ ",".intercalate l ++ "]"

def attributes (w : Wording) (t : Attributes) : Logged String := do
  let l ← t.items.mapM w.rendered
  pure (bracketed l)

/-- In subgraphs an attribute is a statement of its own, and no renderer is asked. -/
def subgraphAttribute (w : Wording) (a : Attribute) : Logged String :=
  if a.kind.fitsSubgraph then pure (a.text w.strings ++ ";")
  else .fail (.unsupportedInSubgraph a.kind)

def node (w : Wording) (n : Node) : Logged String := do
  Logged.note (.node n.id)
  let l ← w.attributes n.attributes
  pure (w.quote n.id ++ l ++ ";")

def edgeOperator (directed : Bool) : String := if directed then " -> " else " -- "

def edge (w : Wording) (directed : Bool) (e : Edge) : Logged String := do
  Logged.note (.edge e.left.id e.right.id)
  let left ← w.endpoint e.left
  let right ← w.endpoint e.right
  let l ← w.attributes e.attributes
  pure (left ++ edgeOperator directed ++ right ++ l ++ ";")

mutual

def element (w : Wording) (directed : Bool) (depth : Nat) : Element → Logged (List Statement)
  | .node n => do
    let s ← w.node n
    pure [⟨depth, s⟩]
  | .edge e => do
    let s ← w.edge directed e
    pure [⟨depth, s⟩]
  | .subgraph i t l => do
    Logged.note (.subgraph i)
    let own ← t.items.mapM w.subgraphAttribute
    let inner ← elements w directed (depth + 1) l
    pure (⟨depth, "subgraph " ++ w.quote i ++ " \x7b"⟩ ::
      (own.map (Statement.mk (depth + 1)) ++ inner ++ [⟨depth, "\x7d"⟩]))

def elements (w : Wording) (directed : Bool) (depth : Nat) :
    List Element → Logged (List Statement)
  | [] => pure []
  | e :: l => do
    let head ← element w directed depth e
    (head ++ ·) <$> elements w directed depth l

end

def header (w : Wording) (g : Graph) : String :=
  (if g.strict then "strict " else "") ++ (if g.directed then "digraph " else "graph ") ++
    w.quote g.id ++ " \x7b"

def graph (w : Wording) (g : Graph) : Logged (List Statement) := do
  Logged.note (.graph g.id g.elements.length g.directed)
  let body ← w.elements g.directed 1 g.elements
  pure (⟨0, w.header g⟩ :: body)

end Wording

def Graph.compile (g : Graph) (s : Settings) : Logged String := do
  let l ← s.toWording.graph g
  pure (s.layout.document l)

/-- The text so far, and the depth of the statement that comes next. -/
structure Output where
  layout : Layout
  text : String := ""
  depth : Nat := 0

inductive Move where
  | write (text : String)
  | raise
  | lower

namespace Output

def statement (o : Output) (s : String) : Output :=
  match o.layout with
  | .flat => { o with text := o.text ++ s ++ " " }
  | .indented => { o with text := Nat.repeat (· ++ "    ") o.depth o.text ++ s ++ "\n" }

def move? (o : Output) : Move → Option Output
  | .write s => some (o.statement s)
  | .raise => some { o with depth := o.depth + 1 }
  | .lower =>
    match o.depth with
    | 0 => none
    | d + 1 => some { o with depth := d }

end Output

/-- Work on an output. It gets stuck where the depth is lowered below 0. -/
abbrev Writing := StateT Output (OptionT Logged)

def Writing.perform (m : Move) : Writing Unit := fun o =>
  OptionT.mk (pure ((o.move? m).map fun p => ((), p)))

namespace Wording

open Writing

def writeOwn (w : Wording) : List Attribute → Writing Unit
  | [] => pure ()
  | a :: l => do
    perform (.write (← w.subgraphAttribute a))
    w.writeOwn l

mutual

def write (w : Wording) (directed : Bool) : Element → Writing Unit
  | .node n => do perform (.write (← w.node n))
  | .edge e => do perform (.write (← w.edge directed e))
  | .subgraph i t l => do
    Logged.note (.subgraph i)
    perform (.write ("subgraph " ++ w.quote i ++ " \x7b"))
    perform .raise
    w.writeOwn t.items
    writeAll w directed l
    perform .lower
    perform (.write "\x7d")

def writeAll (w : Wording) (directed : Bool) : List Element → Writing Unit
  | [] => pure ()
  | e :: l => do
    write w directed e
    writeAll w directed l

end

def writeGraph (w : Wording) (g : Graph) : Writing Unit := do
  Logged.note (.graph g.id g.elements.length g.directed)
  perform (.write (w.header g))
  perform .raise
  w.writeAll g.directed g.elements
  perform .lower

end Wording

def Graph.write (g : Graph) (s : Settings) : Logged (Option String) := do
  let o ← (s.toWording.writeGraph g { layout := s.layout }).run
  pure (o.map fun p => p.2.text ++ "\x7d")

end DotGraph
