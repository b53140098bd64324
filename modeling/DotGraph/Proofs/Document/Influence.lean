import DotGraph.Document.Compile
import Mathlib.Data.List.Forall2
set_option autoImplicit false

/-! What a document depends on: of an endpoint the identifier, and of a registry what it answers, in the
mode of the document, for finite attributes of nodes and edges. -/

namespace DotGraph

mutual

def Element.Alike : Element → Element → Prop
  | .node m, .node n => m = n
  | .edge d, .edge e =>
    d.left.id = e.left.id ∧ d.right.id = e.right.id ∧ d.attributes = e.attributes
  | .subgraph i s l, .subgraph j t m => i = j ∧ s = t ∧ Element.AllAlike l m
  | _, _ => False

def Element.AllAlike : List Element → List Element → Prop
  | [], [] => True
  | d :: l, e :: m => Element.Alike d e ∧ Element.AllAlike l m
  | _, _ => False

end

structure Graph.Alike (g h : Graph) : Prop where
  id : g.id = h.id
  directed : g.directed = h.directed
  strict : g.strict = h.strict
  elements : Element.AllAlike g.elements h.elements

mutual

/-- The attributes of nodes and edges at any depth. Those of subgraphs do not count, nor
do those of nodes that only an endpoint holds. -/
def Element.listed : Element → List Attribute
  | .node n => n.attributes.items
  | .edge e => e.attributes.items
  | .subgraph _ _ l => Element.allListed l

def Element.allListed : List Element → List Attribute
  | [] => []
  | e :: l => e.listed ++ Element.allListed l

end

def Graph.listed (g : Graph) : List Attribute := Element.allListed g.elements

theorem Element.length_eq_of_allAlike {l m : List Element} (h : Element.AllAlike l m) :
    l.length = m.length := by
  induction l generalizing m with
  | nil => cases m with
    | nil => rfl
    | cons e m => exact absurd h (by simp [Element.AllAlike])
  | cons d l ih => cases m with
    | nil => exact absurd h (by simp [Element.AllAlike])
    | cons e m => rw [List.length_cons, List.length_cons, ih h.2]

mutual

theorem Element.alike_refl (e : Element) : e.Alike e := by
  cases e with
  | node n => rfl
  | edge e => exact ⟨rfl, rfl, rfl⟩
  | subgraph i t l => exact ⟨rfl, rfl, allAlike_refl l⟩

theorem Element.allAlike_refl (l : List Element) : Element.AllAlike l l := by
  cases l with
  | nil => trivial
  | cons e l => exact ⟨alike_refl e, allAlike_refl l⟩

end

theorem Graph.alike_refl (g : Graph) : g.Alike g :=
  ⟨rfl, rfl, rfl, Element.allAlike_refl g.elements⟩

theorem Logged.mapM_congr {α β : Type} {f g : α → Logged β} {l : List α}
    (h : ∀ a ∈ l, f a = g a) : l.mapM f = l.mapM g := by
  induction l with
  | nil => rfl
  | cons a l ih =>
    have hl := ih fun b hb => h b (List.mem_cons_of_mem a hb)
    rw [List.mapM_cons, List.mapM_cons, h a List.mem_cons_self, hl]

namespace Wording

variable {v w : Wording}

/-- Both write strings in one mode, and for the finite ones of these attributes their
renderers answer the same. -/
structure Agree (v w : Wording) (l : List Attribute) : Prop where
  strings : v.strings = w.strings
  render : ∀ a ∈ l, a.isFinite = true →
    v.registry.render a v.strings = w.registry.render a w.strings

theorem Agree.mono {l m : List Attribute} (h : Agree v w m) (hl : l ⊆ m) : Agree v w l :=
  ⟨h.strings, fun a ha => h.render a (hl ha)⟩

theorem Agree.left {l m : List Attribute} (h : Agree v w (l ++ m)) : Agree v w l :=
  h.mono (List.subset_append_left l m)

theorem Agree.right {l m : List Attribute} (h : Agree v w (l ++ m)) : Agree v w m :=
  h.mono (List.subset_append_right l m)

theorem quote_congr (hs : v.strings = w.strings) (s : String) : v.quote s = w.quote s := by
  rw [quote, quote, hs]

theorem endpoint_congr (hs : v.strings = w.strings) {d e : Endpoint} (h : d.id = e.id) :
    v.endpoint d = w.endpoint e := by
  rw [endpoint, endpoint, h, quote_congr hs]

theorem rendered_congr {l : List Attribute} (h : Agree v w l) {a : Attribute} (ha : a ∈ l) :
    v.rendered a = w.rendered a := by
  rw [rendered, rendered]
  by_cases hf : a.isFinite = true
  · rw [if_pos hf, if_pos hf, h.render a ha hf]
  · rw [if_neg hf, if_neg hf]

theorem attributes_congr {t : Attributes} (h : Agree v w t.items) :
    v.attributes t = w.attributes t := by
  rw [attributes, attributes, Logged.mapM_congr fun a ha => rendered_congr h ha]

theorem subgraphAttribute_congr (hs : v.strings = w.strings) (a : Attribute) :
    v.subgraphAttribute a = w.subgraphAttribute a := by
  rw [subgraphAttribute, subgraphAttribute, hs]

theorem node_congr {n : Node} (h : Agree v w n.attributes.items) : v.node n = w.node n := by
  rw [node, node, attributes_congr h, quote_congr h.strings]

theorem edge_congr (directed : Bool) {d e : Edge} (h : Agree v w d.attributes.items)
    (hl : d.left.id = e.left.id) (hr : d.right.id = e.right.id)
    (ht : d.attributes = e.attributes) : v.edge directed d = w.edge directed e := by
  rw [edge, edge, endpoint_congr h.strings hl, endpoint_congr h.strings hr, attributes_congr h, hl,
    hr, ht]

mutual

theorem element_congr (directed : Bool) (depth : Nat) {d e : Element} (hd : d.Alike e)
    (h : Agree v w d.listed) : v.element directed depth d = w.element directed depth e := by
  cases d with
  | node m => cases e with
    | node n =>
      obtain rfl : m = n := hd
      rw [element, element, node_congr h]
    | _ => exact absurd hd (by simp [Element.Alike])
  | edge d => cases e with
    | edge e =>
      obtain ⟨hl, hr, ht⟩ := hd
      rw [element, element, edge_congr directed h hl hr ht]
    | _ => exact absurd hd (by simp [Element.Alike])
  | subgraph i s l => cases e with
    | subgraph j t m =>
      obtain ⟨rfl, rfl, hm⟩ := hd
      have hs := Logged.mapM_congr fun a (_ : a ∈ s.items) => subgraphAttribute_congr h.strings a
      rw [element, element, hs, elements_congr directed (depth + 1) hm h, quote_congr h.strings]
    | _ => exact absurd hd (by simp [Element.Alike])

theorem elements_congr (directed : Bool) (depth : Nat) {l m : List Element}
    (hl : Element.AllAlike l m) (h : Agree v w (Element.allListed l)) :
    v.elements directed depth l = w.elements directed depth m := by
  cases l with
  | nil => cases m with
    | nil => rfl
    | cons e m => exact absurd hl (by simp [Element.AllAlike])
  | cons d l => cases m with
    | nil => exact absurd hl (by simp [Element.AllAlike])
    | cons e m =>
      rw [elements, elements, element_congr directed depth hl.1 h.left,
        elements_congr directed depth hl.2 h.right]

end

theorem graph_congr {g h : Graph} (hg : g.Alike h) (ha : Agree v w g.listed) :
    v.graph g = w.graph h := by
  have hh : v.header g = w.header h := by
    rw [header, header, hg.id, hg.directed, hg.strict, quote_congr ha.strings]
  rw [graph, graph, elements_congr g.directed 1 hg.elements ha, hh, hg.id, hg.directed,
    Element.length_eq_of_allAlike hg.elements]

end Wording

namespace Registry

theorem render_congr {p q : List Renderer} {a : Attribute} {mode : Text.StringMode}
    (h : List.Forall₂ (fun r s => r a mode = s a mode) p q) :
    (⟨p⟩ : Registry).render a mode = (⟨q⟩ : Registry).render a mode := by
  induction h with
  | nil => rfl
  | cons hr _ ih =>
    rw [render, render, List.findSome?_cons, List.findSome?_cons, hr]
    rw [render, render] at ih
    rw [ih]

end Registry

namespace Graph

theorem compile_congr {g h : Graph} {v w : Wording} (hg : g.Alike h) (ha : v.Agree w g.listed)
    (y : Layout) : g.compile { v with layout := y } = h.compile { w with layout := y } := by
  rw [compile, compile, Wording.graph_congr hg ha]

theorem compile_congr_registry (g : Graph) (s : Settings) {p q : Registry}
    (h : ∀ a mode, p.render a mode = q.render a mode) :
    g.compile { s with registry := p } = g.compile { s with registry := q } :=
  compile_congr (v := ⟨s.strings, p⟩) (w := ⟨s.strings, q⟩) g.alike_refl
    ⟨rfl, fun a _ _ => h a s.strings⟩ s.layout

/-- Graphs that are alike have the same document or fault, and the same log, under
registries that answer the same for the finite attributes of nodes and edges. So no
answer of a renderer for anything else can be seen, nor one in the other mode. -/
theorem compile_alike (g h : Graph) (mode : Text.StringMode) (y : Layout) (hg : g.Alike h) :
    (∀ r s : Registry,
      (∀ a ∈ g.listed, a.isFinite = true → r.render a mode = s.render a mode) →
      g.compile { strings := mode, registry := r, layout := y } =
        h.compile { strings := mode, registry := s, layout := y }) ∧
    ∀ p q : List Renderer,
      List.Forall₂ (fun r s => ∀ a ∈ g.listed, a.isFinite = true → r a mode = s a mode) p q →
      g.compile { strings := mode, registry := ⟨p⟩, layout := y } =
        h.compile { strings := mode, registry := ⟨q⟩, layout := y } := by
  have hc : ∀ r s : Registry, (∀ a ∈ g.listed, a.isFinite = true →
      r.render a mode = s.render a mode) → Wording.Agree ⟨mode, r⟩ ⟨mode, s⟩ g.listed :=
    fun _ _ hr => ⟨rfl, hr⟩
  refine ⟨fun r s hr => compile_congr hg (hc r s hr) y, fun p q hpq => ?_⟩
  refine compile_congr hg (hc ⟨p⟩ ⟨q⟩ fun a ha hf => Registry.render_congr ?_) y
  exact hpq.imp fun r s hrs => hrs a ha hf

def painted (left : Endpoint) : Graph where
  id := "G"
  elements := [
    .edge ⟨left, .named "b", .ofList [.label "x"]⟩,
    .subgraph "s" (.ofList [.color ⟨255, 0, 0, 255⟩]) [.node ⟨"n", .empty⟩]]

def overrides : List Renderer :=
  [.onKind .width (.const "w"), .onKind .color (.const "c"), .inMode .raw (.const "r")]

/-- A copy of a node whose width is not a number, which no one asks. -/
def unmeasured : Endpoint := .snapshot ⟨"a", .ofList [.width ⟨0x7FF8000000000000#64⟩]⟩

theorem compile_painted :
    (painted unmeasured).compile {} =
        (painted (.named "a")).compile { registry := ⟨overrides ++ Registry.default.entries⟩ } ∧
      ((painted unmeasured).compile {}).result =
        .ok "graph G \x7b a -- b [label=x]; subgraph s \x7b color=\"#ff0000\"; n; \x7d \x7d" := by
  have hg : (painted unmeasured).Alike (painted (.named "a")) :=
    ⟨rfl, rfl, rfl, ⟨rfl, rfl, rfl⟩, ⟨rfl, rfl, rfl, trivial⟩, trivial⟩
  refine ⟨((painted unmeasured).compile_alike _ .escaped .flat hg).1 _ _ fun a ha _ => ?_, ?_⟩
  · obtain rfl : a = .label "x" := List.mem_singleton.mp ha
    decide +kernel
  · decide +kernel

end Graph

end DotGraph
