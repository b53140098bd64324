import DotGraph.Proofs.Attribute.Text
import DotGraph.Proofs.Document.Faults
set_option autoImplicit false

namespace DotGraph

open Text

/-- Labels are the only values with text of the caller that the default renderers write. -/
def Attribute.escaped : Attribute → Attribute
  | .label s => .label (escape s)
  | a => a

theorem Attribute.kind_escaped (a : Attribute) : a.escaped.kind = a.kind := by
  cases a <;> simp [escaped, kind]

theorem Attribute.isFinite_escaped (a : Attribute) : a.escaped.isFinite = a.isFinite := by
  cases a <;> simp [escaped, isFinite, numbers]

def Attributes.escaped (t : Attributes) : Attributes where
  items := t.items.map Attribute.escaped
  nodup := by
    rw [List.map_map, show Attribute.kind ∘ Attribute.escaped = Attribute.kind from
      funext Attribute.kind_escaped]
    exact t.nodup

def Node.escaped (n : Node) : Node := ⟨escape n.id, n.attributes.escaped⟩

/-- The attributes of the copy are never written and stay as they are. -/
def Endpoint.escaped : Endpoint → Endpoint
  | .named i => .named (escape i)
  | .snapshot n => .snapshot { n with id := escape n.id }

def Edge.escaped (e : Edge) : Edge := ⟨e.left.escaped, e.right.escaped, e.attributes.escaped⟩

mutual

def Element.escaped : Element → Element
  | .node n => .node n.escaped
  | .edge e => .edge e.escaped
  | .subgraph i t l => .subgraph (escape i) t.escaped (Element.allEscaped l)

def Element.allEscaped : List Element → List Element
  | [] => []
  | e :: l => e.escaped :: Element.allEscaped l

end

def Graph.escaped (g : Graph) : Graph :=
  { g with id := escape g.id, elements := Element.allEscaped g.elements }

theorem Graph.directed_escaped (g : Graph) : g.escaped.directed = g.directed := by
  simp only [escaped]

theorem Graph.elements_escaped (g : Graph) :
    g.escaped.elements = Element.allEscaped g.elements := by simp only [escaped]

theorem Endpoint.id_escaped (e : Endpoint) : e.escaped.id = escape e.id := by cases e <;> rfl

theorem Attribute.text_escaped (a : Attribute) (h : ∀ n s, a ≠ .custom n s) :
    a.escaped.text .raw = a.text .escaped := by
  cases a with
  | custom n s => exact absurd rfl (h n s)
  | label s => simp [escaped, text, kind, valueText, quote_raw_escape]
  | nodeStyle s => simp [escaped, text, kind, valueText, s.isPlain_text.quote_raw]
  | edgeStyle s => simp [escaped, text, kind, valueText, s.isPlain_text.quote_raw]
  | subgraphStyle s => simp [escaped, text, kind, valueText, s.isPlain_text.quote_raw]
  | _ => rfl

namespace Wording

def asGiven : Wording := { strings := .raw }

theorem quote_escape (s : String) : asGiven.quote (escape s) = escaping.quote s :=
  quote_raw_escape s

theorem fragment_escaped (a : Attribute) :
    asGiven.fragment a.escaped = escaping.fragment a := by
  rw [fragment_default rfl, fragment_default rfl, Attribute.kind_escaped]
  split
  · next h =>
    apply Attribute.text_escaped
    rintro n s rfl
    simp [Attribute.kind, Registry.builtinKinds] at h
  · rfl

theorem fragments_escaped (t : Attributes) :
    t.escaped.items.map asGiven.fragment = t.items.map escaping.fragment := by
  simp [Attributes.escaped, Function.comp_def, fragment_escaped]

theorem nodeText_escaped (n : Node) : asGiven.nodeText n.escaped = escaping.nodeText n := by
  simp only [nodeText, Node.escaped, quote_escape, fragments_escaped]

theorem edgeText_escaped (directed : Bool) (e : Edge) :
    asGiven.edgeText directed e.escaped = escaping.edgeText directed e := by
  simp only [edgeText, Edge.escaped, Endpoint.id_escaped, quote_escape, fragments_escaped]

theorem ownTexts_escaped {t : Attributes} (h : ∀ a ∈ t.items, a.kind.fitsSubgraph = true) :
    t.escaped.items.map asGiven.ownText = t.items.map escaping.ownText := by
  simp only [Attributes.escaped, List.map_map, List.map_inj_left, Function.comp_apply]
  intro a ha
  rw [ownText, ownText]
  congr 1
  apply Attribute.text_escaped
  rintro n s rfl
  exact absurd (h _ ha) (by simp [Attribute.kind, Attribute.Kind.fitsSubgraph])

end Wording

def Check.escaped : Check → Check
  | .endpoint e => .endpoint e.escaped
  | .rendered a => .rendered a.escaped
  | .own a => .own a.escaped

def Head.escaped : Head → Head
  | .node n => .node n.escaped
  | .edge e => .edge e.escaped
  | .subgraph i t => .subgraph (escape i) t.escaped

theorem Head.checks_escaped (h : Head) : h.escaped.checks = h.checks.map Check.escaped := by
  cases h <;> simp [escaped, checks, Node.escaped, Edge.escaped, Attributes.escaped,
    Function.comp_def, Check.escaped]

mutual

theorem Element.heads_escaped (e : Element) : e.escaped.heads = e.heads.map Head.escaped := by
  cases e with
  | node n => rfl
  | edge e => rfl
  | subgraph i t l => simp [escaped, heads, Head.escaped, Element.allHeads_escaped l]

theorem Element.allHeads_escaped (l : List Element) :
    allHeads (allEscaped l) = (allHeads l).map Head.escaped := by
  cases l with
  | nil => rfl
  | cons e l =>
    simp [allEscaped, allHeads, Element.heads_escaped e, Element.allHeads_escaped l]

end

theorem Graph.checks_escaped (g : Graph) : g.escaped.checks = g.checks.map Check.escaped := by
  simp only [checks, heads, elements_escaped, Element.allHeads_escaped, List.flatMap_map,
    List.map_flatMap, Head.checks_escaped]

namespace Wording

/-- A blank endpoint may have an escaped form that is not blank, but not the other way
round. -/
theorem fault?_escaped {c : Check} (h : escaping.fault? c = none) :
    asGiven.fault? c.escaped = none := by
  cases c with
  | endpoint e =>
    rw [fault?_endpoint_eq_none_iff, ← Bool.not_eq_true] at h
    rw [Check.escaped, fault?_endpoint_eq_none_iff, Endpoint.id_escaped, ← Bool.not_eq_true]
    exact fun hb => h (isBlank_of_isBlank_escape hb)
  | rendered a =>
    rw [fault?_rendered_eq_none_iff rfl] at h
    rwa [Check.escaped, fault?_rendered_eq_none_iff rfl, Attribute.isFinite_escaped,
      Attribute.kind_escaped]
  | own a =>
    rw [fault?_own_eq_none_iff] at h
    rwa [Check.escaped, fault?_own_eq_none_iff, Attribute.kind_escaped]

mutual

theorem statements_escaped (directed : Bool) (depth : Nat) (e : Element)
    (h : ∀ c ∈ e.heads.flatMap Head.checks, escaping.fault? c = none) :
    asGiven.statements directed depth e.escaped = escaping.statements directed depth e := by
  cases e with
  | node n => simp [Element.escaped, statements, nodeText_escaped]
  | edge e => simp [Element.escaped, statements, edgeText_escaped]
  | subgraph i t l =>
    simp only [Element.heads, List.flatMap_cons, List.mem_append, Head.checks] at h
    have ht : ∀ a ∈ t.items, a.kind.fitsSubgraph = true := fun a ha =>
      (fault?_own_eq_none_iff a).mp (h _ (.inl (List.mem_map_of_mem ha)))
    have hl := allStatements_escaped directed (depth + 1) l fun c hc => h c (.inr hc)
    simp only [Element.escaped, statements, opening, quote_escape, ownTexts_escaped ht, hl]

theorem allStatements_escaped (directed : Bool) (depth : Nat) (l : List Element)
    (h : ∀ c ∈ (Element.allHeads l).flatMap Head.checks, escaping.fault? c = none) :
    asGiven.allStatements directed depth (Element.allEscaped l) =
      escaping.allStatements directed depth l := by
  cases l with
  | nil => rfl
  | cons e l =>
    simp only [Element.allHeads, List.flatMap_append, List.mem_append] at h
    have he := statements_escaped directed depth e fun c hc => h c (.inl hc)
    have hl := allStatements_escaped directed depth l fun c hc => h c (.inr hc)
    simp only [Element.allEscaped, allStatements, he, hl]

end

theorem graphStatements_escaped {g : Graph} (h : ∀ c ∈ g.checks, escaping.fault? c = none) :
    asGiven.graphStatements g.escaped = escaping.graphStatements g := by
  have hl := allStatements_escaped g.directed 1 g.elements h
  have hh : asGiven.header g.escaped = escaping.header g := by
    rw [header, header, Graph.escaped, quote_escape]
  rw [graphStatements, graphStatements, hh, Graph.directed_escaped, Graph.elements_escaped, hl]

end Wording

/-- Escaping the strings of a graph beforehand and writing them as they are gives the
document that escaping gives, because no string gains or loses its quotes. -/
theorem Graph.compile_raw_escaped (g : Graph) (y : Layout) (t : String)
    (h : (g.compile { strings := .escaped, registry := .default, layout := y }).result = .ok t) :
    (g.escaped.compile { strings := .raw, registry := .default, layout := y }).result = .ok t ∧
      ∀ s, isBare (escape s) = isBare s ∧ quote .escaped s = quote .raw (escape s) := by
  obtain ⟨hc, ht⟩ := result_eq_ok_iff.mp h
  refine ⟨result_eq_ok_iff.mpr ⟨?_, ?_⟩, fun s => ⟨isBare_escape s, (quote_raw_escape s).symm⟩⟩
  · rw [checks_escaped]
    intro c hm
    obtain ⟨b, hb, rfl⟩ := List.mem_map.mp hm
    exact Wording.fault?_escaped (hc b hb)
  · rw [ht]
    exact congrArg y.document (Wording.graphStatements_escaped hc).symm

def Graph.quotes : Graph where
  id := "a b"
  elements := [
    .edge ⟨.snapshot ⟨"x\"y", .empty⟩, .named "C:\\x", .ofList [.label "p\r\nq"]⟩,
    .subgraph "sub\ngraph" (.ofList [.label "\\"]) [.node ⟨"n", .ofList [.label "\"n\""]⟩]]

def Graph.quotesText : String :=
  "graph \"a b\" \x7b \"x\\\"y\" -- \"C:\\\\x\" [label=\"p\\nq\"]; " ++
    "subgraph \"sub\\ngraph\" \x7b label=\"\\\\\"; n [label=\"\\\"n\\\"\"]; \x7d \x7d"

theorem Graph.compile_raw_quotes :
    (quotes.compile { strings := .escaped, registry := .default, layout := .flat }).result =
        .ok quotesText ∧
      (quotes.escaped.compile { strings := .raw, registry := .default, layout := .flat }).result =
        .ok quotesText := by
  have h : (quotes.compile
      { strings := .escaped, registry := .default, layout := .flat }).result =
        .ok quotesText := by decide +kernel
  exact ⟨h, (quotes.compile_raw_escaped .flat quotesText h).1⟩

end DotGraph
