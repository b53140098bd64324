import DotGraph.Graph.Path
import DotGraph.Proofs.Document.Faults
set_option autoImplicit false

namespace DotGraph

/-- Elements with a gap among them, or among those of a subgraph that is one of them. -/
inductive Gap where
  | here (before after : List Element)
  | inside (before : List Element) (id : String) (attributes : Attributes) (inner : Gap)
    (after : List Element)

namespace Gap

def fill : Gap → List Element → List Element
  | .here b a, l => b ++ l ++ a
  | .inside b i t c a, l => b ++ .subgraph i t (c.fill l) :: a

def depth : Gap → Nat
  | .here _ _ => 0
  | .inside _ _ _ c _ => c.depth + 1

def before : Gap → List Element
  | .here b _ => b
  | .inside b i t c _ => b ++ [.subgraph i t c.before]

/-- The elements behind the gap, those of the innermost subgraph first. -/
def after : Gap → List Element
  | .here _ a => a
  | .inside _ _ _ c a => c.after ++ a

theorem allHeads_fill (c : Gap) (l : List Element) :
    Element.allHeads (c.fill l) =
      Element.allHeads c.before ++ Element.allHeads l ++ Element.allHeads c.after := by
  induction c with
  | here b a => simp only [fill, before, after, Element.allHeads_append]
  | inside b i t c a ih =>
    simp only [fill, before, after, Element.allHeads_append, Element.allHeads, Element.heads, ih,
      List.append_assoc, List.cons_append, List.append_nil]

end Gap

structure OpenGraph where
  id : String
  directed : Bool := false
  strict : Bool := false
  gap : Gap

namespace OpenGraph

def fill (o : OpenGraph) (l : List Element) : Graph :=
  { id := o.id, directed := o.directed, strict := o.strict, elements := o.gap.fill l }

def before (o : OpenGraph) : Graph :=
  { id := o.id, directed := o.directed, strict := o.strict, elements := o.gap.before }

def depth (o : OpenGraph) : Nat := o.gap.depth + 1

end OpenGraph

namespace Wording

variable (w : Wording)

/-- The statements before the gap, those that open the subgraphs around it included. -/
def opened (directed : Bool) (depth : Nat) : Gap → List Statement
  | .here b _ => w.allStatements directed depth b
  | .inside b i t c _ =>
    w.allStatements directed depth b ++ ⟨depth, w.opening i⟩ ::
      ((t.items.map w.ownText).map (Statement.mk (depth + 1)) ++ opened directed (depth + 1) c)

def closed (directed : Bool) (depth : Nat) : Gap → List Statement
  | .here _ a => w.allStatements directed depth a
  | .inside _ _ _ c a =>
    closed directed (depth + 1) c ++ ⟨depth, "\x7d"⟩ :: w.allStatements directed depth a

theorem allStatements_fill (directed : Bool) (depth : Nat) (c : Gap) (l : List Element) :
    w.allStatements directed depth (c.fill l) =
      w.opened directed depth c ++ w.allStatements directed (depth + c.depth) l ++
        w.closed directed depth c := by
  induction c generalizing depth with
  | here b a => simp only [Gap.fill, Gap.depth, opened, closed, allStatements_append, Nat.add_zero]
  | inside b i t c a ih =>
    have hd : depth + 1 + c.depth = depth + (c.depth + 1) := by omega
    simp only [Gap.fill, Gap.depth, opened, closed, allStatements_append, allStatements, statements,
      ih, hd, List.append_assoc, List.cons_append, List.nil_append]

end Wording

namespace Settings

variable (s : Settings)

def body (directed : Bool) (depth : Nat) (l : List Element) : String :=
  s.layout.lines (s.toWording.allStatements directed depth l)

theorem body_append (directed : Bool) (depth : Nat) (l m : List Element) :
    s.body directed depth (l ++ m) = s.body directed depth l ++ s.body directed depth m := by
  rw [body, Wording.allStatements_append, Layout.lines_append]
  rfl

theorem body_of_elements_ok {directed : Bool} {depth : Nat} {l : List Element}
    {m : List Statement} (h : (s.toWording.elements directed depth l).result = .ok m) :
    s.body directed depth l = s.layout.lines m := by
  rw [Wording.result_elements] at h
  cases hl : ((Element.allHeads l).flatMap Head.checks).findSome? s.toWording.fault? with
  | none => rw [hl] at h; cases h; rfl
  | some f => rw [hl] at h; cases h

end Settings

namespace Graph

variable (g : Graph) (e : Element)

theorem checks_add : (g.add e).checks = g.checks ++ e.heads.flatMap Head.checks := by
  simp [checks, heads, add, Element.allHeads_append, Element.allHeads]

theorem document_add (s : Settings) :
    s.layout.document (s.toWording.graphStatements (g.add e)) =
      s.layout.lines (s.toWording.graphStatements g) ++ s.body g.directed 1 [e] ++ "\x7d" := by
  have hg : s.toWording.graphStatements (g.add e) =
      s.toWording.graphStatements g ++ s.toWording.allStatements g.directed 1 [e] := by
    simp only [Wording.graphStatements, add, Wording.allStatements_append, List.cons_append]
    rfl
  rw [hg, Layout.document, Layout.lines_append]
  rfl

theorem result_add {s : Settings} {t : String} (h : (g.compile s).result = .ok (t ++ "\x7d")) :
    ((g.add e).compile s).result =
      (s.toWording.element g.directed 1 e).result.map
        fun _ => t ++ s.body g.directed 1 [e] ++ "\x7d" := by
  obtain ⟨hc, ht⟩ := result_eq_ok_iff.mp h
  have ht : t = s.layout.lines (s.toWording.graphStatements g) := (String.append_left_inj _).mp ht
  rw [result_compile, checks_add, List.findSome?_append, List.findSome?_eq_none_iff.mpr hc,
    Option.none_or, Wording.result_element, document_add, ← ht]
  cases (e.heads.flatMap Head.checks).findSome? s.toWording.fault? <;> rfl

end Graph

namespace OpenGraph

variable (o : OpenGraph) (s : Settings)

def opening : String :=
  s.layout.lines (⟨0, s.toWording.header o.before⟩ :: s.toWording.opened o.directed 1 o.gap)

def closing : String := s.layout.lines (s.toWording.closed o.directed 1 o.gap) ++ "\x7d"

theorem document_fill (l : List Element) :
    s.layout.document (s.toWording.graphStatements (o.fill l)) =
      o.opening s ++ s.body o.directed o.depth l ++ o.closing s := by
  -- Elements of the graph itself are at depth 1, where `opened` and `closed` begin to count.
  have hd : 1 + o.gap.depth = o.depth := Nat.add_comm _ _
  have hs : s.toWording.graphStatements (o.fill l) =
      (⟨0, s.toWording.header o.before⟩ :: s.toWording.opened o.directed 1 o.gap) ++
        s.toWording.allStatements o.directed o.depth l ++
        s.toWording.closed o.directed 1 o.gap := by
    rw [Wording.graphStatements, ← hd, List.cons_append, List.cons_append,
      ← Wording.allStatements_fill]
    rfl
  rw [hs, Layout.document, Layout.lines_append, Layout.lines_append, String.append_assoc]
  rfl

theorem checks_fill (l : List Element) :
    (o.fill l).checks = o.before.checks ++
      ((Element.allHeads l).flatMap Head.checks ++
        (Element.allHeads o.gap.after).flatMap Head.checks) := by
  simp only [Graph.checks, Graph.heads, fill, before, Gap.allHeads_fill, List.flatMap_append,
    List.append_assoc]

theorem result_fill_of_before_error {f : Fault} (h : (o.before.compile s).result = .error f)
    (l : List Element) : ((o.fill l).compile s).result = .error f := by
  rw [Graph.result_eq_error_iff] at h ⊢
  rw [checks_fill, List.findSome?_append, h, Option.some_or]

theorem result_fill_of_element_error {t : String} (h : (o.before.compile s).result = .ok t)
    {pre post : List Element} {e : Element} {f : Fault}
    (hp : ∀ d ∈ pre, ∃ m, (s.toWording.element o.directed o.depth d).result = .ok m)
    (he : (s.toWording.element o.directed o.depth e).result = .error f) :
    ((o.fill (pre ++ e :: post)).compile s).result = .error f := by
  have hb := List.findSome?_eq_none_iff.mpr (Graph.result_eq_ok_iff.mp h).1
  rw [Graph.result_eq_error_iff, checks_fill, List.findSome?_append, hb, Option.none_or,
    Element.allHeads_append, Element.allHeads, List.flatMap_append, List.flatMap_append]
  simp only [List.findSome?_append, s.toWording.findSome?_of_all_ok hp,
    s.toWording.findSome?_of_element_error he, Option.none_or, Option.some_or]

theorem result_fill_error_iff {l : List Element} {f : Fault}
    (h : ∀ d ∈ l, ∃ m, (s.toWording.element o.directed o.depth d).result = .ok m) :
    ((o.fill l).compile s).result = .error f ↔ ((o.fill []).compile s).result = .error f := by
  rw [Graph.result_eq_error_iff, Graph.result_eq_error_iff, checks_fill, checks_fill]
  simp only [List.findSome?_append, s.toWording.findSome?_of_all_ok h, Element.allHeads,
    List.flatMap_nil, List.findSome?_nil]

end OpenGraph

/-- To add an element where a path leads is to fill a gap as deep as the path. -/
theorem Gap.exists_of_changeAt? {e : Element} {p : Path} {i : Nat} {l m : List Element}
    (h : changeAt? (Element.change? (Element.add? e) p) i l = some m) :
    ∃ c : Gap, c.depth = p.length + 1 ∧ c.fill [] = l ∧ c.fill [e] = m := by
  induction p generalizing i l m with
  | nil =>
    -- The path ends at a subgraph, and the gap is behind all that the subgraph holds.
    obtain ⟨pre, d, d', post, rfl, hd, rfl⟩ := changeAt?_eq_some h
    cases d with
    | subgraph j t k =>
      cases hd
      exact ⟨.inside pre j t (.here k []) post, rfl, by simp [fill], by simp [fill]⟩
    | _ => cases hd
  | cons n p ih =>
    obtain ⟨pre, d, d', post, rfl, hd, rfl⟩ := changeAt?_eq_some h
    cases d with
    | subgraph j t k =>
      obtain ⟨k', hk, rfl⟩ := Option.map_eq_some_iff.mp hd
      obtain ⟨c, hc, rfl, rfl⟩ := ih hk
      exact ⟨.inside pre j t c post, congrArg (· + 1) hc, rfl, rfl⟩
    | _ => cases hd

theorem Graph.exists_fill_of_addAt? {g h : Graph} {e : Element} {p : Path}
    (hp : g.addAt? e p = some h) :
    ∃ o : OpenGraph, o.depth = p.length + 1 ∧ o.fill [] = g ∧ o.fill [e] = h := by
  cases p with
  | nil =>
    obtain rfl := Option.some.inj hp
    exact ⟨⟨g.id, g.directed, g.strict, .here g.elements []⟩, rfl,
      by simp [OpenGraph.fill, Gap.fill], by simp [OpenGraph.fill, Gap.fill, add]⟩
  | cons i p =>
    obtain ⟨m, hm, rfl⟩ := Option.map_eq_some_iff.mp hp
    obtain ⟨c, hc, hl, rfl⟩ := Gap.exists_of_changeAt? hm
    exact ⟨⟨g.id, g.directed, g.strict, c⟩, congrArg (· + 1) hc, by rw [OpenGraph.fill, hl], rfl⟩

namespace OpenGraph

/-- A graph is written around its gap as if nothing were in it, and what fills the gap as
if nothing were around it. The first fault is the one that stands first: before the gap,
in what fills it, or behind it. -/
theorem compile_fill (s : Settings) :
    (∀ o : OpenGraph,
      (∀ l t, ((o.fill l).compile s).result = .ok t →
        t = o.opening s ++ s.body o.directed o.depth l ++ o.closing s) ∧
      (∀ f, (o.before.compile s).result = .error f →
        ∀ l, ((o.fill l).compile s).result = .error f) ∧
      ∀ t, (o.before.compile s).result = .ok t → ∀ pre,
        (∀ d ∈ pre, ∃ m, (s.toWording.element o.directed o.depth d).result = .ok m) →
        (∀ e f post, (s.toWording.element o.directed o.depth e).result = .error f →
          ((o.fill (pre ++ e :: post)).compile s).result = .error f) ∧
        ∀ f, ((o.fill pre).compile s).result = .error f ↔
          ((o.fill []).compile s).result = .error f) ∧
    (∀ directed depth, s.body directed depth [] = "" ∧
      (∀ l m, s.body directed depth (l ++ m) = s.body directed depth l ++ s.body directed depth m) ∧
      ∀ l m, (s.toWording.elements directed depth l).result = .ok m →
        s.body directed depth l = s.layout.lines m) ∧
    (∀ (g : Graph) (e : Element) (t : String), (g.compile s).result = .ok (t ++ "\x7d") →
      ((g.add e).compile s).result =
        (s.toWording.element g.directed 1 e).result.map
          fun _ => t ++ s.body g.directed 1 [e] ++ "\x7d") ∧
    ∀ (g h : Graph) (e : Element) (p : Path), g.addAt? e p = some h →
      ∃ o : OpenGraph, o.depth = p.length + 1 ∧ o.fill [] = g ∧ o.fill [e] = h := by
  refine ⟨fun o => ⟨?_, ?_, ?_⟩, ?_, ?_, ?_⟩
  · intro l t h
    rw [(Graph.result_eq_ok_iff.mp h).2, document_fill]
  · intro f h l
    exact o.result_fill_of_before_error s h l
  · intro t h pre hp
    exact ⟨fun e f post he => o.result_fill_of_element_error s h hp he,
      fun f => o.result_fill_error_iff s hp⟩
  · intro directed depth
    exact ⟨rfl, s.body_append directed depth, fun l m => s.body_of_elements_ok⟩
  · intro g e t h
    exact g.result_add e h
  · intro g h e p hp
    exact Graph.exists_fill_of_addAt? hp

/-- The gap stands before a node of a subgraph. -/
def clustered : OpenGraph where
  id := "G"
  gap := .inside [.node ⟨"a", .empty⟩] "s" (.ofList [.label "x"])
    (.here [] [.node ⟨"c", .empty⟩]) []

theorem compile_clustered :
    clustered.opening {} ++ Settings.body {} false 2 [.edge ⟨.named "p", .named "q", .empty⟩] ++
        clustered.closing {} = "graph G \x7b a; subgraph s \x7b label=x; p -- q; c; \x7d \x7d" ∧
      ((clustered.fill [.edge ⟨.named "p", .named "q", .empty⟩,
        .edge ⟨.named "", .named "q", .empty⟩,
        .node ⟨"n", .ofList [.custom "k" "v"]⟩]).compile {}).result = .error .emptyEndpoint := by
  obtain ⟨ht, -, hf⟩ := (compile_fill {}).1 clustered
  constructor
  · refine (ht [.edge ⟨.named "p", .named "q", .empty⟩] _ ?_).symm
    exact Graph.result_eq_ok_iff.mpr ⟨by decide +kernel, by decide +kernel⟩
  · have hb : (clustered.before.compile {}).result =
        .ok "graph G \x7b a; subgraph s \x7b label=x; \x7d \x7d" :=
      Graph.result_eq_ok_iff.mpr ⟨by decide +kernel, by decide +kernel⟩
    have hp : ∀ d ∈ [Element.edge ⟨.named "p", .named "q", .empty⟩],
        ∃ m, (Wording.element {} clustered.directed clustered.depth d).result = .ok m := by
      intro d hd
      rw [List.mem_singleton.mp hd]
      exact ⟨_, rfl⟩
    exact (hf _ hb _ hp).1 _ _ _ rfl

end OpenGraph

end DotGraph
