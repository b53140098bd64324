import DotGraph.Graph.Basic
set_option autoImplicit false

/-!
Changes at a place inside a graph. A path is a list of positions: the first is one among the
elements of the graph, each further one among those of the subgraph reached so far.
-/

namespace DotGraph

abbrev Path := List Nat

def changeAt? (f : Element → Option Element) (i : Nat) (l : List Element) :
    Option (List Element) :=
  (l[i]?.bind f).map (l.set i)

theorem changeAt?_eq_some {f : Element → Option Element} {i : Nat} {l m : List Element}
    (h : changeAt? f i l = some m) :
    ∃ pre d e post, l = pre ++ d :: post ∧ f d = some e ∧ m = pre ++ e :: post := by
  obtain ⟨e, he, rfl⟩ := Option.map_eq_some_iff.mp h
  obtain ⟨d, hd, hf⟩ := Option.bind_eq_some_iff.mp he
  obtain ⟨hi, rfl⟩ := List.getElem?_eq_some_iff.mp hd
  refine ⟨l.take i, l[i], e, l.drop (i + 1), ?_, hf, ?_⟩
  · rw [List.getElem_cons_drop, List.take_append_drop]
  · rw [List.set_eq_take_append_cons_drop, if_pos hi]

namespace Element

def attributes : Element → Attributes
  | .node n => n.attributes
  | .edge e => e.attributes
  | .subgraph _ t _ => t

def withAttributes (t : Attributes) : Element → Element
  | .node n => .node { n with attributes := t }
  | .edge e => .edge { e with attributes := t }
  | .subgraph i _ l => .subgraph i t l

def rename? (i : String) : Element → Option Element
  | .node n => some (.node { n with id := i })
  | .edge _ => none
  | .subgraph _ t l => some (.subgraph i t l)

def add? (e : Element) : Element → Option Element
  | .subgraph i t l => some (.subgraph i t (l ++ [e]))
  | _ => none

def follow? : Path → Element → Option Element
  | [], e => some e
  | i :: p, .subgraph _ _ l => l[i]?.bind (follow? p)
  | _ :: _, _ => none

def change? (f : Element → Option Element) : Path → Element → Option Element
  | [], e => f e
  | i :: p, .subgraph j t l => (changeAt? (change? f p) i l).map (.subgraph j t)
  | _ :: _, _ => none

end Element

namespace Graph

def element? (g : Graph) : Path → Option Element
  | [] => none
  | i :: p => g.elements[i]?.bind (Element.follow? p)

def change? (g : Graph) (f : Element → Option Element) : Path → Option Graph
  | [] => none
  | i :: p => (changeAt? (Element.change? f p) i g.elements).map fun l => { g with elements := l }

def add (g : Graph) (e : Element) : Graph := { g with elements := g.elements ++ [e] }

def addAt? (g : Graph) (e : Element) : Path → Option Graph
  | [] => some (g.add e)
  | p => g.change? (Element.add? e) p

def rename? (g : Graph) (i : String) : Path → Option Graph
  | [] => some { g with id := i }
  | p => g.change? (Element.rename? i) p

def attributes? (g : Graph) (p : Path) : Option Attributes :=
  (g.element? p).map Element.attributes

def changeAttributes? (g : Graph) (f : Attributes → Attributes) (p : Path) : Option Graph :=
  g.change? (fun e => some (e.withAttributes (f e.attributes))) p

/-- Appends an edge from a copy of the node that the path leads to. -/
def link? (g : Graph) (p : Path) (right : String) : Option Graph :=
  match g.element? p with
  | some (.node n) => some (g.add (.edge { left := .snapshot n, right := .named right }))
  | _ => none

end Graph

end DotGraph
