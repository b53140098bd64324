import DotGraph.Proofs.Document.Faults
import DotGraph.Proofs.Graph.Equivalence
set_option autoImplicit false

namespace DotGraph

theorem Binary64.isFinite_unsignZero (x : Binary64) : x.unsignZero.isFinite = x.isFinite := by
  unfold unsignZero
  split
  · next h =>
    simp only [isZero, Bool.and_eq_true, beq_iff_eq] at h
    rw [isFinite, isFinite, h.1]
    decide
  · rfl

/-- Without zeros, equal graphs are the same graph. -/
theorem Graph.eq_of_beq_of_no_zero {g h : Graph} (hs : (g == h) = true)
    (hz : ∀ x ∈ g.numbers, x.isZero = false) : g = h := by
  have hm := ((beq_iff (decides_self hz)).mp hs).1
  rwa [mapNumbers_self, mapNumbers_self] at hm

variable (f : Binary64 → Binary64)

def Check.mapNumbers : Check → Check
  | .endpoint e => .endpoint (e.mapNumbers f)
  | .rendered a => .rendered (a.mapNumbers f)
  | .own a => .own (a.mapNumbers f)

def Head.mapNumbers : Head → Head
  | .node n => .node (n.mapNumbers f)
  | .edge e => .edge (e.mapNumbers f)
  | .subgraph i t => .subgraph i (t.mapNumbers f)

theorem Head.checks_mapNumbers (h : Head) :
    (h.mapNumbers f).checks = h.checks.map (Check.mapNumbers f) := by
  cases h <;> simp [mapNumbers, checks, Node.mapNumbers, Edge.mapNumbers, Attributes.mapNumbers,
    Function.comp_def, Check.mapNumbers]

mutual

theorem Element.heads_mapNumbers (e : Element) :
    (e.mapNumbers f).heads = e.heads.map (Head.mapNumbers f) := by
  cases e with
  | node n => rfl
  | edge e => rfl
  | subgraph i t l => simp [mapNumbers, heads, Head.mapNumbers, Element.allHeads_mapNumbers l]

theorem Element.allHeads_mapNumbers (l : List Element) :
    allHeads (mapAllNumbers f l) = (allHeads l).map (Head.mapNumbers f) := by
  cases l with
  | nil => rfl
  | cons e l =>
    simp [mapAllNumbers, allHeads, Element.heads_mapNumbers e, Element.allHeads_mapNumbers l]

end

theorem Graph.checks_mapNumbers (g : Graph) :
    (g.mapNumbers f).checks = g.checks.map (Check.mapNumbers f) := by
  simp only [checks, heads, mapNumbers, Element.allHeads_mapNumbers, List.flatMap_map,
    List.map_flatMap, Head.checks_mapNumbers]

variable {f}

theorem Endpoint.id_mapNumbers (e : Endpoint) : (e.mapNumbers f).id = e.id := by cases e <;> rfl

theorem Attribute.isFinite_mapNumbers (hf : ∀ x, (f x).isFinite = x.isFinite) (a : Attribute) :
    (a.mapNumbers f).isFinite = a.isFinite := by
  rw [isFinite, numbers_mapNumbers, List.all_map]
  exact congrArg a.numbers.all (funext hf)

namespace Wording

variable {w : Wording}

theorem fault?_mapNumbers (hw : w.registry = .default) (hf : ∀ x, (f x).isFinite = x.isFinite)
    (c : Check) : w.fault? (c.mapNumbers f) = w.fault? c := by
  cases c with
  | endpoint e => rw [Check.mapNumbers, fault?, fault?, Endpoint.id_mapNumbers]
  | rendered a =>
    rw [Check.mapNumbers, fault?_rendered hw, fault?_rendered hw, Attribute.isFinite_mapNumbers hf,
      Attribute.kind_mapNumbers]
  | own a => rw [Check.mapNumbers, fault?_own, fault?_own, Attribute.kind_mapNumbers]

end Wording

namespace Graph

theorem findSome?_checks_mapNumbers {w : Wording} (hw : w.registry = .default)
    (hf : ∀ x, (f x).isFinite = x.isFinite) (g : Graph) :
    (g.mapNumbers f).checks.findSome? w.fault? = g.checks.findSome? w.fault? := by
  rw [checks_mapNumbers, List.findSome?_map]
  exact congrArg g.checks.findSome? (funext (Wording.fault?_mapNumbers hw hf))

theorem result_of_checks {g : Graph} {s : Settings}
    (h : g.checks.findSome? s.toWording.fault? = none) :
    (g.compile s).result = .ok (s.layout.document (s.toWording.graphStatements g)) :=
  result_eq_ok_iff.mpr ⟨List.findSome?_eq_none_iff.mp h, rfl⟩

/-- Equal graphs have the same fault, or both have a document, and the same one once their
zeros are positive. Without a zero they have the same document anyway, and the same log. -/
theorem compile_beq (g h : Graph) (s : Settings) (hr : s.registry = .default)
    (hs : (g == h) = true) :
    ((∃ f, (g.compile s).result = .error f ∧ (h.compile s).result = .error f) ∨
      ∃ t u v, (g.compile s).result = .ok t ∧ (h.compile s).result = .ok u ∧
        (g.unsignZeros.compile s).result = .ok v ∧ (h.unsignZeros.compile s).result = .ok v) ∧
    ((∀ x ∈ g.numbers, x.isZero = false) → g.compile s = h.compile s) := by
  refine ⟨?_, fun hz => by rw [eq_of_beq_of_no_zero hs hz]⟩
  have hc := findSome?_checks_mapNumbers (f := Binary64.unsignZero) (w := s.toWording) hr
    Binary64.isFinite_unsignZero
  have hu := unsignZeros_eq_of_beq hs
  have hgh : h.checks.findSome? s.toWording.fault? = g.checks.findSome? s.toWording.fault? := by
    rw [← hc g, ← hc h]
    exact congrArg (fun k : Graph => k.checks.findSome? s.toWording.fault?) hu.symm
  cases hg : g.checks.findSome? s.toWording.fault? with
  | some f => exact .inl ⟨f, result_eq_error_iff.mpr hg, result_eq_error_iff.mpr (hgh.trans hg)⟩
  | none =>
    have hv := result_of_checks ((hc g).trans hg)
    exact .inr ⟨_, _, _, result_of_checks hg, result_of_checks (hgh.trans hg), hv, hu ▸ hv⟩

/-- A node whose width was set more than once, and an end of an edge that remembers it. -/
def resized (widths : List Binary64) : Graph where
  id := "G"
  elements :=
    let n : Node := ⟨"n", .ofList (widths.map .width)⟩
    [.subgraph "s" .empty [.node n], .edge ⟨.snapshot n, .named "m", .empty⟩]

def minusZero : Binary64 := ⟨0x8000000000000000#64⟩

def one : Binary64 := ⟨0x3FF0000000000000#64⟩

theorem compile_resized :
    ((resized [⟨0⟩]).compile {}).result =
        .ok "graph G \x7b subgraph s \x7b n [width=0.00]; \x7d n -- m; \x7d" ∧
      ((resized [minusZero]).compile {}).result =
        .ok "graph G \x7b subgraph s \x7b n [width=-0.00]; \x7d n -- m; \x7d" ∧
      (∃ v, ((resized [⟨0⟩]).unsignZeros.compile {}).result = .ok v ∧
        ((resized [minusZero]).unsignZeros.compile {}).result = .ok v) ∧
      (resized [one]).compile {} = (resized [minusZero, one]).compile {} := by
  have hg : ((resized [⟨0⟩]).compile {}).result =
      .ok "graph G \x7b subgraph s \x7b n [width=0.00]; \x7d n -- m; \x7d" :=
    result_eq_ok_iff.mpr ⟨by decide +kernel, by decide +kernel⟩
  have hh : ((resized [minusZero]).compile {}).result =
      .ok "graph G \x7b subgraph s \x7b n [width=-0.00]; \x7d n -- m; \x7d" :=
    result_eq_ok_iff.mpr ⟨by decide +kernel, by decide +kernel⟩
  refine ⟨hg, hh, ?_, ?_⟩
  · rcases (compile_beq (resized [⟨0⟩]) (resized [minusZero]) {} rfl (by decide +kernel)).1 with
      ⟨f, hf, -⟩ | ⟨t, u, v, -, -, hv⟩
    · rw [hg] at hf
      cases hf
    · exact ⟨v, hv⟩
  · exact (compile_beq (resized [one]) (resized [minusZero, one]) {} rfl (by decide +kernel)).2
      (by decide +kernel)

end Graph

end DotGraph
