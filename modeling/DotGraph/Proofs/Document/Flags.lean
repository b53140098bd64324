import DotGraph.Proofs.Document.Faults
set_option autoImplicit false

namespace DotGraph

/-- A statement, up to the operator where it joins the ends of an edge. -/
inductive Pattern where
  | fixed (depth : Nat) (text : String)
  | joined (depth : Nat) (left right block : String)

namespace Pattern

def statement (directed : Bool) : Pattern → Statement
  | .fixed d s => ⟨d, s⟩
  | .joined d l r b => ⟨d, l ++ (if directed then " -> " else " -- ") ++ r ++ b ++ ";"⟩

def depth : Pattern → Nat
  | .fixed d _ | .joined d _ _ _ => d

def joint? : Pattern → Option (String × String × String)
  | .fixed _ _ => none
  | .joined _ l r b => some (l, r, b)

theorem depth_statement (directed : Bool) (p : Pattern) :
    (p.statement directed).depth = p.depth := by
  cases p <;> rfl

theorem statement_eq_iff {d e : Bool} (h : d ≠ e) (p : Pattern) :
    p.statement d = p.statement e ↔ p.joint? = none := by
  cases p with
  | fixed n s => simp [statement, joint?]
  | joined n l r b =>
    have ho : (if d then " -> " else " -- ") ≠ (if e then " -> " else " -- ") := by
      cases d <;> cases e <;> first
        | exact absurd rfl h
        | decide
    simpa [statement, joint?, String.append_left_inj, String.append_right_inj] using ho

theorem countP_statements (d e : Bool) (l : List Pattern) :
    ((l.map (statement d)).zip (l.map (statement e))).countP (fun p => p.1 ≠ p.2) =
      if d = e then 0 else (l.filterMap joint?).length := by
  rw [List.zip_map', List.countP_map]
  split
  · next h => simp [h]
  · next h =>
    rw [List.length_filterMap_eq_countP]
    apply List.countP_congr
    intro p _
    simp [statement_eq_iff h, Option.isSome_iff_ne_none]

end Pattern

def Head.edge? : Head → Option Edge
  | .edge e => some e
  | _ => none

namespace Graph

/-- The edges of a graph and of its subgraphs, at any depth. -/
def edges (g : Graph) : List Edge := g.heads.filterMap Head.edge?

def withFlags (g : Graph) (directed strict : Bool) : Graph :=
  { g with directed := directed, strict := strict }

end Graph

namespace Wording

variable (w : Wording)

def joint (e : Edge) : String × String × String :=
  (w.quote e.left.id, w.quote e.right.id, bracketed (e.attributes.items.map w.fragment))

mutual

def patterns (depth : Nat) : Element → List Pattern
  | .node n => [.fixed depth (w.nodeText n)]
  | .edge e => [.joined depth (w.joint e).1 (w.joint e).2.1 (w.joint e).2.2]
  | .subgraph i t l =>
    .fixed depth (w.opening i) ::
      ((t.items.map w.ownText).map (.fixed (depth + 1)) ++
        allPatterns (depth + 1) l ++ [.fixed depth "\x7d"])

def allPatterns (depth : Nat) : List Element → List Pattern
  | [] => []
  | e :: l => patterns depth e ++ allPatterns depth l

end

mutual

theorem map_statement_patterns (directed : Bool) (depth : Nat) (e : Element) :
    (w.patterns depth e).map (Pattern.statement directed) = w.statements directed depth e := by
  cases e with
  | node n => rfl
  | edge e => rfl
  | subgraph i t l =>
    have hl := map_statement_allPatterns directed (depth + 1) l
    simp only [patterns, statements, List.map_cons, List.map_append, List.map_map, hl]
    rfl

theorem map_statement_allPatterns (directed : Bool) (depth : Nat) (l : List Element) :
    (w.allPatterns depth l).map (Pattern.statement directed) =
      w.allStatements directed depth l := by
  cases l with
  | nil => rfl
  | cons e l =>
    rw [allPatterns, allStatements, List.map_append, map_statement_patterns directed depth e,
      map_statement_allPatterns directed depth l]

end

mutual

theorem filterMap_joint?_patterns (depth : Nat) (e : Element) :
    (w.patterns depth e).filterMap Pattern.joint? =
      (e.heads.filterMap Head.edge?).map w.joint := by
  cases e with
  | node n => rfl
  | edge e => rfl
  | subgraph i t l =>
    have hl := filterMap_joint?_allPatterns (depth + 1) l
    have ht : ((t.items.map w.ownText).map (Pattern.fixed (depth + 1))).filterMap
        Pattern.joint? = [] := by simp [List.filterMap_map, Function.comp_def, Pattern.joint?]
    simp only [patterns, Element.heads, List.filterMap_cons, List.filterMap_append, hl, ht,
      Pattern.joint?, Head.edge?, List.filterMap_nil, List.nil_append, List.append_nil]

theorem filterMap_joint?_allPatterns (depth : Nat) (l : List Element) :
    (w.allPatterns depth l).filterMap Pattern.joint? =
      ((Element.allHeads l).filterMap Head.edge?).map w.joint := by
  cases l with
  | nil => rfl
  | cons e l =>
    rw [allPatterns, Element.allHeads, List.filterMap_append, List.filterMap_append,
      List.map_append, filterMap_joint?_patterns depth e, filterMap_joint?_allPatterns depth l]

end

theorem graphStatements_withFlags (g : Graph) (directed strict : Bool) :
    w.graphStatements (g.withFlags directed strict) =
      ⟨0, (if strict then "strict " else "") ++ (if directed then "digraph " else "graph ") ++
          w.quote g.id ++ " \x7b"⟩ ::
        (w.allPatterns 1 g.elements).map (Pattern.statement directed) := by
  rw [map_statement_allPatterns]
  rfl

theorem graphStatements_tails (g : Graph) {d e strict strict' : Bool} :
    (w.graphStatements (g.withFlags d strict)).map Statement.depth =
        (w.graphStatements (g.withFlags e strict')).map Statement.depth ∧
      ((w.graphStatements (g.withFlags d strict)).tail.zip
          (w.graphStatements (g.withFlags e strict')).tail).countP (fun p => p.1 ≠ p.2) =
        if d = e then 0 else g.edges.length := by
  have hj := congrArg List.length (w.filterMap_joint?_allPatterns 1 g.elements)
  rw [List.length_map] at hj
  rw [graphStatements_withFlags, graphStatements_withFlags]
  constructor
  · simp only [List.map_cons, List.map_map, Function.comp_def, Pattern.depth_statement]
  · rw [List.tail_cons, List.tail_cons, Pattern.countP_statements, hj]
    rfl

end Wording

namespace Graph

/-- The flags of a graph decide on the words of its header, and on the operator in one
statement for each edge. They do not decide on its fault. -/
theorem compile_withFlags (g : Graph) (s : Settings) :
    (∀ directed strict f, ((g.withFlags directed strict).compile s).result = .error f ↔
      (g.compile s).result = .error f) ∧
    ∀ t, (g.compile s).result = .ok t →
      ∃ body : List Pattern,
        (∀ directed strict, ∃ l,
          l = ⟨0, (if strict then "strict " else "") ++
              (if directed then "digraph " else "graph ") ++ s.quote g.id ++ " \x7b"⟩ ::
            body.map (Pattern.statement directed) ∧
          (s.toWording.graph (g.withFlags directed strict)).result = .ok l ∧
          ((g.withFlags directed strict).compile s).result = .ok (s.layout.document l)) ∧
        body.filterMap Pattern.joint? = g.edges.map (fun e =>
          (s.quote e.left.id, s.quote e.right.id,
            Wording.bracketed (e.attributes.items.map s.fragment))) ∧
        ∀ d e strict strict' l m,
          (s.toWording.graph (g.withFlags d strict)).result = .ok l →
          (s.toWording.graph (g.withFlags e strict')).result = .ok m →
            l.length = m.length ∧ l.map Statement.depth = m.map Statement.depth ∧
              (l.tail.zip m.tail).countP (fun p => p.1 ≠ p.2) =
                if d = e then 0 else g.edges.length := by
  refine ⟨fun directed strict f => ?_, fun t h => ?_⟩
  -- No check reads a flag.
  · rw [result_eq_error_iff, result_eq_error_iff]
    rfl
  · obtain ⟨hc, -⟩ := result_eq_ok_iff.mp h
    refine ⟨s.toWording.allPatterns 1 g.elements, fun directed strict => ⟨_, rfl, ?_, ?_⟩,
      s.toWording.filterMap_joint?_allPatterns 1 g.elements, ?_⟩
    · rw [← Wording.graphStatements_withFlags]
      exact Wording.result_graph_eq_ok_iff.mpr ⟨hc, rfl⟩
    · rw [← Wording.graphStatements_withFlags]
      exact result_eq_ok_iff.mpr ⟨hc, rfl⟩
    · intro d e strict strict' l m hl hm
      obtain ⟨-, rfl⟩ := Wording.result_graph_eq_ok_iff.mp hl
      obtain ⟨-, rfl⟩ := Wording.result_graph_eq_ok_iff.mp hm
      obtain ⟨hd, hn⟩ := s.toWording.graphStatements_tails g
      exact ⟨by simpa using congrArg List.length hd, hd, hn⟩

/-- Operators in identifiers and labels, and an edge inside a subgraph. -/
def arrowed : Graph where
  id := "-- ->"
  elements := [
    .node ⟨" -- ", .ofList [.label " -> "]⟩,
    .subgraph "s" (.ofList [.label "a -- b"]) [
      .edge ⟨.named "a -> b", .named "c", .ofList [.label " -- "]⟩]]

theorem compile_arrowed :
    (arrowed.compile {}).result = .ok ("graph \"-- ->\" \x7b \" -- \" [label=\" -> \"]; " ++
      "subgraph s \x7b label=\"a -- b\"; \"a -> b\" -- c [label=\" -- \"]; \x7d \x7d") ∧
    ((arrowed.withFlags true true).compile {}).result =
      .ok ("strict digraph \"-- ->\" \x7b \" -- \" [label=\" -> \"]; " ++
        "subgraph s \x7b label=\"a -- b\"; \"a -> b\" -> c [label=\" -- \"]; \x7d \x7d") ∧
    ∃ l m, (Wording.graph {} (arrowed.withFlags false false)).result = .ok l ∧
      (Wording.graph {} (arrowed.withFlags true true)).result = .ok m ∧
      l.map Statement.depth = m.map Statement.depth ∧
      (l.tail.zip m.tail).countP (fun p => p.1 ≠ p.2) = 1 := by
  have h : (arrowed.compile {}).result =
      .ok ("graph \"-- ->\" \x7b \" -- \" [label=\" -> \"]; " ++
        "subgraph s \x7b label=\"a -- b\"; \"a -> b\" -- c [label=\" -- \"]; \x7d \x7d") :=
    result_eq_ok_iff.mpr ⟨by decide +kernel, by decide +kernel⟩
  obtain ⟨body, hb, -, hn⟩ := (compile_withFlags arrowed {}).2 _ h
  obtain ⟨l, -, hl, -⟩ := hb false false
  obtain ⟨m, -, hm, -⟩ := hb true true
  obtain ⟨-, hd, hc⟩ := hn _ _ _ _ l m hl hm
  exact ⟨h, result_eq_ok_iff.mpr ⟨by decide +kernel, by decide +kernel⟩, l, m, hl, hm, hd, hc⟩

end Graph

end DotGraph
