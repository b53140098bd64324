import DotGraph.Graph.Equality
import Mathlib.Tactic.Tauto
set_option autoImplicit false

namespace DotGraph

def Attributes.numbers (t : Attributes) : List Binary64 := t.items.flatMap Attribute.numbers

def Node.numbers (n : Node) : List Binary64 := n.attributes.numbers

def Endpoint.numbers : Endpoint → List Binary64
  | .named _ => []
  | .snapshot n => n.numbers

def Edge.numbers (e : Edge) : List Binary64 :=
  e.left.numbers ++ e.right.numbers ++ e.attributes.numbers

mutual

def Element.numbers : Element → List Binary64
  | .node n => n.numbers
  | .edge e => e.numbers
  | .subgraph _ t l => t.numbers ++ Element.allNumbers l

def Element.allNumbers : List Element → List Binary64
  | [] => []
  | e :: l => e.numbers ++ Element.allNumbers l

end

/-- Those of the attributes of subgraphs and of copies of nodes at the ends of edges are
among them. -/
def Graph.numbers (g : Graph) : List Binary64 := Element.allNumbers g.elements

section

variable (f : Binary64 → Binary64)

def Attribute.mapNumbers : Attribute → Attribute
  | .width v => .width (f v)
  | .height v => .height (f v)
  | .penWidth v => .penWidth (f v)
  | .position p => .position ⟨f p.x, f p.y⟩
  | a => a

theorem Attribute.kind_mapNumbers (a : Attribute) : (a.mapNumbers f).kind = a.kind := by
  cases a <;> rfl

theorem Attribute.numbers_mapNumbers (a : Attribute) :
    (a.mapNumbers f).numbers = a.numbers.map f := by
  cases a <;> rfl

def Attributes.mapNumbers (t : Attributes) : Attributes where
  items := t.items.map (Attribute.mapNumbers f)
  nodup := by
    rw [List.map_map, show Attribute.kind ∘ Attribute.mapNumbers f = Attribute.kind from
      funext (Attribute.kind_mapNumbers f)]
    exact t.nodup

def Node.mapNumbers (n : Node) : Node := ⟨n.id, n.attributes.mapNumbers f⟩

def Endpoint.mapNumbers : Endpoint → Endpoint
  | .named i => .named i
  | .snapshot n => .snapshot (n.mapNumbers f)

def Edge.mapNumbers (e : Edge) : Edge :=
  ⟨e.left.mapNumbers f, e.right.mapNumbers f, e.attributes.mapNumbers f⟩

mutual

def Element.mapNumbers : Element → Element
  | .node n => .node (n.mapNumbers f)
  | .edge e => .edge (e.mapNumbers f)
  | .subgraph i t l => .subgraph i (t.mapNumbers f) (Element.mapAllNumbers l)

def Element.mapAllNumbers : List Element → List Element
  | [] => []
  | e :: l => e.mapNumbers :: Element.mapAllNumbers l

end

def Graph.mapNumbers (g : Graph) : Graph :=
  { g with elements := Element.mapAllNumbers f g.elements }

end

section

variable (f : Binary64 → Binary64)

theorem Attributes.numbers_mapNumbers (t : Attributes) :
    (t.mapNumbers f).numbers = t.numbers.map f := by
  simp only [numbers, mapNumbers, List.flatMap_map, List.map_flatMap,
    Attribute.numbers_mapNumbers]

theorem Endpoint.numbers_mapNumbers (e : Endpoint) :
    (e.mapNumbers f).numbers = e.numbers.map f := by
  cases e with
  | named i => rfl
  | snapshot n => exact n.attributes.numbers_mapNumbers f

theorem Edge.numbers_mapNumbers (e : Edge) : (e.mapNumbers f).numbers = e.numbers.map f := by
  simp only [numbers, mapNumbers, List.map_append, Endpoint.numbers_mapNumbers,
    Attributes.numbers_mapNumbers]

mutual

theorem Element.numbers_mapNumbers (e : Element) :
    (e.mapNumbers f).numbers = e.numbers.map f := by
  cases e with
  | node n => exact n.attributes.numbers_mapNumbers f
  | edge e => exact e.numbers_mapNumbers f
  | subgraph i t l =>
    rw [mapNumbers, numbers, numbers, List.map_append, Attributes.numbers_mapNumbers,
      Element.allNumbers_mapNumbers l]

theorem Element.allNumbers_mapNumbers (l : List Element) :
    allNumbers (mapAllNumbers f l) = (allNumbers l).map f := by
  cases l with
  | nil => rfl
  | cons e l =>
    rw [mapAllNumbers, allNumbers, allNumbers, List.map_append, Element.numbers_mapNumbers e,
      Element.allNumbers_mapNumbers l]

end

theorem Graph.numbers_mapNumbers (g : Graph) : (g.mapNumbers f).numbers = g.numbers.map f :=
  Element.allNumbers_mapNumbers f g.elements

end

theorem Attribute.mapNumbers_self (a : Attribute) : a.mapNumbers (fun x => x) = a := by
  cases a <;> rfl

theorem Attributes.mapNumbers_self (t : Attributes) : t.mapNumbers (fun x => x) = t := by
  apply Attributes.ext
  have h := List.map_congr_left fun a (_ : a ∈ t.items) => a.mapNumbers_self
  exact h.trans (List.map_id' t.items)

theorem Node.mapNumbers_self (n : Node) : n.mapNumbers (fun x => x) = n := by
  rw [mapNumbers, Attributes.mapNumbers_self]

theorem Endpoint.mapNumbers_self (e : Endpoint) : e.mapNumbers (fun x => x) = e := by
  cases e with
  | named i => rfl
  | snapshot n => rw [mapNumbers, Node.mapNumbers_self]

theorem Edge.mapNumbers_self (e : Edge) : e.mapNumbers (fun x => x) = e := by
  rw [mapNumbers, Endpoint.mapNumbers_self, Endpoint.mapNumbers_self, Attributes.mapNumbers_self]

mutual

theorem Element.mapNumbers_self (e : Element) : e.mapNumbers (fun x => x) = e := by
  cases e with
  | node n => rw [mapNumbers, Node.mapNumbers_self]
  | edge e => rw [mapNumbers, Edge.mapNumbers_self]
  | subgraph i t l => rw [mapNumbers, Attributes.mapNumbers_self, Element.mapAllNumbers_self l]

theorem Element.mapAllNumbers_self (l : List Element) : mapAllNumbers (fun x => x) l = l := by
  cases l with
  | nil => rfl
  | cons e l => rw [mapAllNumbers, Element.mapNumbers_self e, Element.mapAllNumbers_self l]

end

theorem Graph.mapNumbers_self (g : Graph) : g.mapNumbers (fun x => x) = g := by
  rw [mapNumbers, Element.mapAllNumbers_self]

/-- What the numbers of the list are equal to can be told from their images. -/
def Decides (f : Binary64 → Binary64) (l : List Binary64) : Prop :=
  ∀ x ∈ l, ∀ y, (x == y) = true ↔ f x = f y ∧ x.isNaN = false

def NoNaN (l : List Binary64) : Prop := ∀ x ∈ l, x.isNaN = false

theorem noNaN_append {l m : List Binary64} : NoNaN (l ++ m) ↔ NoNaN l ∧ NoNaN m :=
  List.forall_mem_append

variable {f : Binary64 → Binary64}

theorem Decides.mono {l m : List Binary64} (h : Decides f m) (hl : l ⊆ m) : Decides f l :=
  fun x hx => h x (hl hx)

theorem Decides.left {l m : List Binary64} (h : Decides f (l ++ m)) : Decides f l :=
  h.mono (List.subset_append_left l m)

theorem Decides.right {l m : List Binary64} (h : Decides f (l ++ m)) : Decides f m :=
  h.mono (List.subset_append_right l m)

theorem Attribute.beq_iff {a b : Attribute} (hf : Decides f a.numbers) :
    (a == b) = true ↔ a.mapNumbers f = b.mapNumbers f ∧ NoNaN a.numbers := by
  -- Of different kinds, both sides are false. Of one kind, `hf` decides on numbers, and all other
  -- values are compared as they are.
  cases a with
  | width v | height v | penWidth v =>
    cases b <;> first
      | exact iff_of_false (fun h => Bool.noConfusion h) (fun h => Attribute.noConfusion h.1)
      | next w =>
        have h := hf v (.head _) w
        exact h.trans (by simp [mapNumbers, numbers, NoNaN])
  | position p => cases b with
    | position q =>
      have h : (p.x == q.x && p.y == q.y) = true ↔
          (f p.x = f q.x ∧ f p.y = f q.y) ∧ p.x.isNaN = false ∧ p.y.isNaN = false := by
        rw [Bool.and_eq_true, hf p.x (.head _), hf p.y (.tail _ (.head _)), and_and_and_comm]
      exact h.trans (by simp [mapNumbers, numbers, NoNaN])
    | _ => exact iff_of_false (fun h => Bool.noConfusion h) (fun h => Attribute.noConfusion h.1)
  | custom m s => cases b with
    | custom n t =>
      have h : (m == n && s == t) = true ↔ m = n ∧ s = t := by simp
      exact h.trans (by simp [mapNumbers, numbers, NoNaN])
    | _ => exact iff_of_false (fun h => Bool.noConfusion h) (fun h => Attribute.noConfusion h.1)
  | color v | fontColor v | fillColor v | label v | shape v | nodeStyle v | edgeStyle v
  | subgraphStyle v | arrowHead v | arrowTail v =>
    cases b <;> first
      | exact iff_of_false (fun h => Bool.noConfusion h) (fun h => Attribute.noConfusion h.1)
      | next w =>
        have h : (v == w) = true ↔ v = w := beq_iff_eq
        exact h.trans (by simp [mapNumbers, numbers, NoNaN])

theorem Attribute.list_beq_iff {l m : List Attribute}
    (hf : Decides f (l.flatMap Attribute.numbers)) :
    (l == m) = true ↔
      l.map (Attribute.mapNumbers f) = m.map (Attribute.mapNumbers f) ∧
        NoNaN (l.flatMap Attribute.numbers) := by
  induction l generalizing m with
  | nil => cases m <;> simp [NoNaN]
  | cons a l ih => cases m with
    | nil => simp
    | cons b m =>
      rw [List.cons_beq_cons, Bool.and_eq_true, Attribute.beq_iff hf.left, ih hf.right,
        List.map_cons, List.map_cons, List.cons.injEq, List.flatMap_cons, noNaN_append,
        and_and_and_comm]

theorem Attributes.beq_iff {s t : Attributes} (hf : Decides f s.numbers) :
    (s == t) = true ↔ s.mapNumbers f = t.mapNumbers f ∧ NoNaN s.numbers := by
  rw [Attributes.ext_iff]
  exact Attribute.list_beq_iff hf

theorem Node.beq_iff {m n : Node} (hf : Decides f m.numbers) :
    (m == n) = true ↔ m.mapNumbers f = n.mapNumbers f ∧ NoNaN m.numbers := by
  have h : (m == n) = (m.id == n.id && m.attributes == n.attributes) := rfl
  rw [h, Bool.and_eq_true, beq_iff_eq, Attributes.beq_iff hf, mapNumbers, mapNumbers, mk.injEq,
    and_assoc]
  rfl

theorem Endpoint.beq_iff {d e : Endpoint} (hf : Decides f d.numbers) :
    (d == e) = true ↔ d.mapNumbers f = e.mapNumbers f ∧ NoNaN d.numbers := by
  cases d with
  | named i => cases e with
    | named j =>
      have h : (i == j) = true ↔ i = j := beq_iff_eq
      exact h.trans (by simp [mapNumbers, numbers, NoNaN])
    | snapshot n =>
      exact iff_of_false (fun h => Bool.noConfusion h) (fun h => Endpoint.noConfusion h.1)
  | snapshot m => cases e with
    | named j =>
      exact iff_of_false (fun h => Bool.noConfusion h) (fun h => Endpoint.noConfusion h.1)
    | snapshot n =>
      have h := Node.beq_iff (n := n) hf
      exact h.trans (by rw [mapNumbers, mapNumbers, snapshot.injEq]; rfl)

theorem Edge.beq_iff {d e : Edge} (hf : Decides f d.numbers) :
    (d == e) = true ↔ d.mapNumbers f = e.mapNumbers f ∧ NoNaN d.numbers := by
  have h : (d == e) = (d.left == e.left && d.right == e.right && d.attributes == e.attributes) :=
    rfl
  rw [h, Bool.and_eq_true, Bool.and_eq_true, Endpoint.beq_iff hf.left.left,
    Endpoint.beq_iff hf.left.right, Attributes.beq_iff hf.right, mapNumbers, mapNumbers, mk.injEq,
    numbers, noNaN_append, noNaN_append]
  tauto

mutual

theorem Element.same_iff {d e : Element} (hf : Decides f d.numbers) :
    d.same e = true ↔ d.mapNumbers f = e.mapNumbers f ∧ NoNaN d.numbers := by
  cases d with
  | node m => cases e with
    | node n =>
      have h := Node.beq_iff (n := n) hf
      exact h.trans (by rw [mapNumbers, mapNumbers, node.injEq]; rfl)
    | _ => exact iff_of_false (fun h => Bool.noConfusion h) (fun h => Element.noConfusion h.1)
  | edge d => cases e with
    | edge e =>
      have h := Edge.beq_iff (e := e) hf
      exact h.trans (by rw [mapNumbers, mapNumbers, edge.injEq]; rfl)
    | _ => exact iff_of_false (fun h => Bool.noConfusion h) (fun h => Element.noConfusion h.1)
  | subgraph i s l => cases e with
    | subgraph j t m =>
      rw [same, Bool.and_eq_true, Bool.and_eq_true, beq_iff_eq, Attributes.beq_iff hf.left,
        Element.allSame_iff hf.right, mapNumbers, mapNumbers, subgraph.injEq, numbers,
        noNaN_append]
      tauto
    | _ => exact iff_of_false (fun h => Bool.noConfusion h) (fun h => Element.noConfusion h.1)

theorem Element.allSame_iff {l m : List Element} (hf : Decides f (allNumbers l)) :
    allSame l m = true ↔
      mapAllNumbers f l = mapAllNumbers f m ∧ NoNaN (allNumbers l) := by
  cases l with
  | nil => cases m <;> simp [allSame, mapAllNumbers, allNumbers, NoNaN]
  | cons d l => cases m with
    | nil => simp [allSame, mapAllNumbers]
    | cons e m =>
      rw [allSame, Bool.and_eq_true, Element.same_iff hf.left, Element.allSame_iff hf.right,
        mapAllNumbers, mapAllNumbers, List.cons.injEq, allNumbers, noNaN_append,
        and_and_and_comm]

end

/-- Graphs are equal if and only if their images are the same graph, and no number is a NaN. -/
theorem Graph.beq_iff {g h : Graph} (hf : Decides f g.numbers) :
    (g == h) = true ↔ g.mapNumbers f = h.mapNumbers f ∧ NoNaN g.numbers := by
  have hs : (g == h) = (g.id == h.id && g.directed == h.directed && g.strict == h.strict &&
    Element.allSame g.elements h.elements) := rfl
  simp only [hs, Bool.and_eq_true, beq_iff_eq, Element.allSame_iff hf, mapNumbers, mk.injEq,
    and_assoc]
  rfl

end DotGraph
