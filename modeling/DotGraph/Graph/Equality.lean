import DotGraph.Graph.Basic
set_option autoImplicit false

/-!
Equality of graphs, part by part and in order. The numbers in attributes are compared as
numbers: a zero equals the other zero, and no NaN equals anything, so that a graph that holds
one differs from itself.
-/

namespace DotGraph

namespace Binary64

instance : BEq Binary64 where
  beq x y := !x.isNaN && !y.isNaN && (x.bits == y.bits || (x.isZero && y.isZero))

theorem beq_def (x y : Binary64) :
    (x == y) = (!x.isNaN && !y.isNaN && (x.bits == y.bits || (x.isZero && y.isZero))) := rfl

theorem beq_self (x : Binary64) : (x == x) = !x.isNaN := by simp [beq_def]

end Binary64

instance : BEq Attribute where
  beq
    | .color a, .color b | .fontColor a, .fontColor b | .fillColor a, .fillColor b => a == b
    | .label a, .label b => a == b
    | .shape a, .shape b => a == b
    | .nodeStyle a, .nodeStyle b => a == b
    | .edgeStyle a, .edgeStyle b => a == b
    | .subgraphStyle a, .subgraphStyle b => a == b
    | .width a, .width b | .height a, .height b | .penWidth a, .penWidth b => a == b
    | .arrowHead a, .arrowHead b | .arrowTail a, .arrowTail b => a == b
    | .position p, .position q => p.x == q.x && p.y == q.y
    | .custom m a, .custom n b => m == n && a == b
    | _, _ => false

instance : BEq Attributes where
  beq s t := s.items == t.items

instance : BEq Node where
  beq m n := m.id == n.id && m.attributes == n.attributes

instance : BEq Endpoint where
  beq
    | .named i, .named j => i == j
    | .snapshot m, .snapshot n => m == n
    | _, _ => false

instance : BEq Edge where
  beq d e := d.left == e.left && d.right == e.right && d.attributes == e.attributes

mutual

def Element.same : Element → Element → Bool
  | .node m, .node n => m == n
  | .edge d, .edge e => d == e
  | .subgraph i s l, .subgraph j t m => i == j && s == t && Element.allSame l m
  | _, _ => false

def Element.allSame : List Element → List Element → Bool
  | [], [] => true
  | d :: l, e :: m => Element.same d e && Element.allSame l m
  | _, _ => false

end

instance : BEq Element := ⟨Element.same⟩

instance : BEq Graph where
  beq g h := g.id == h.id && g.directed == h.directed && g.strict == h.strict &&
    Element.allSame g.elements h.elements

end DotGraph
