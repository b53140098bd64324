import DotGraph.Proofs.Document.Faults
import DotGraph.Proofs.Document.Writer
import DotGraph.Proofs.Text.Lines
set_option autoImplicit false

namespace DotGraph

namespace Wording

variable (w : Wording)

mutual

/-- Whether statements are nested as an element at a depth is. What a subgraph holds
stands one deeper than the statements that open and close it. -/
def Nested (d : Nat) : Element → List Statement → Prop
  | .node _, m | .edge _, m => ∃ s, m = [⟨d, s⟩]
  | .subgraph i t l, m =>
    ∃ (own : List String) (inner : List Statement), own.length = t.items.length ∧
      AllNested (d + 1) l inner ∧
      m = ⟨d, "subgraph " ++ w.quote i ++ " \x7b"⟩ ::
        (own.map (Statement.mk (d + 1)) ++ inner ++ [⟨d, "\x7d"⟩])

def AllNested (d : Nat) : List Element → List Statement → Prop
  | [], m => m = []
  | e :: l, m => ∃ a b, Nested d e a ∧ AllNested d l b ∧ m = a ++ b

end

mutual

theorem nested_statements (directed : Bool) (d : Nat) (e : Element) :
    w.Nested d e (w.statements directed d e) := by
  cases e with
  | node n => exact ⟨w.nodeText n, rfl⟩
  | edge e => exact ⟨w.edgeText directed e, rfl⟩
  | subgraph i t l =>
    have hl := allNested_allStatements directed (d + 1) l
    exact ⟨t.items.map w.ownText, _, List.length_map _, hl, rfl⟩

theorem allNested_allStatements (directed : Bool) (d : Nat) (l : List Element) :
    w.AllNested d l (w.allStatements directed d l) := by
  cases l with
  | nil => rfl
  | cons e l =>
    exact ⟨_, _, nested_statements directed d e, allNested_allStatements directed d l, rfl⟩

end

end Wording

namespace Layout

theorem wordsOf_lines (y : Layout) (l : List Statement) (t : List Char) :
    Text.wordsOf ((y.lines l).toList ++ t) =
      l.flatMap (fun s => Text.wordsOf s.text.toList) ++ Text.wordsOf t := by
  have hs : Text.isBlankChar ' ' = true := by decide
  have hn : Text.isBlankChar '\n' = true := by decide
  induction l with
  | nil => rfl
  | cons s l ih =>
    rw [List.flatMap_cons, List.append_assoc, ← ih]
    cases y with
    | flat =>
      have h : ((flat.lines (s :: l)).toList ++ t) =
          s.text.toList ++ ' ' :: ((flat.lines l).toList ++ t) := by
        simp [lines, line]
      rw [h, Text.wordsOf_append_blank hs]
    | indented =>
      have h : ((indented.lines (s :: l)).toList ++ t) =
          List.replicate (4 * s.depth) ' ' ++
            (s.text.toList ++ '\n' :: ((indented.lines l).toList ++ t)) := by
        simp [lines, line, indent]
      rw [h, Text.wordsOf_replicate hs, Text.wordsOf_append_blank hn]

theorem squash_document (y z : Layout) (l : List Statement) :
    Text.squash (y.document l) = Text.squash (z.document l) := by
  simp only [Text.squash, document, String.toList_append, wordsOf_lines]

end Layout

namespace Graph

/-- Both layouts of a graph log the same events and meet the same fault, or they spread
the same statements, in lines or not. Each statement stands as deep as the counter of
the writer says, which never falls below 0 and is 0 again at the end. -/
theorem compile_layouts (g : Graph) (w : Wording) :
    (g.compile { w with layout := .flat }).events =
      (g.compile { w with layout := .indented }).events ∧
    ((∃ f, (g.compile { w with layout := .flat }).result = .error f ∧
        (g.compile { w with layout := .indented }).result = .error f) ∨
      ∃ (header : String) (body : List Statement) (flat indented : String),
        (g.compile { w with layout := .flat }).result = .ok flat ∧
        (g.compile { w with layout := .indented }).result = .ok indented ∧
        flat = String.join ((⟨0, header⟩ :: body).map fun s => s.text ++ " ") ++ "\x7d" ∧
        indented = String.join ((⟨0, header⟩ :: body).map fun s =>
          String.ofList (List.replicate (4 * s.depth) ' ') ++ s.text ++ "\n") ++ "\x7d" ∧
        w.AllNested 1 g.elements body ∧
        Move.run? 0 (w.graphMoves g) = some (⟨0, header⟩ :: body, 0) ∧
        Text.squash flat = Text.squash indented) ∧
    (∀ d e, ∃ l, Move.run? d (w.moves g.directed e) = some (l, d)) ∧
    (∀ l m, w.graphMoves g = l ++ m → (Move.run? 0 l).isSome = true) ∧
    ∀ y : Layout,
      g.write { w with layout := y } = some <$> g.compile { w with layout := y } ∧
      (w.graphMoves g).foldlM Output.move? { layout := y } =
        some { layout := y, text := y.lines (w.graphStatements g) } := by
  refine ⟨?_, ?_, ?_, ?_, fun y => ⟨g.write_eq _, ?_⟩⟩
  · rw [events_compile, events_compile]
  · -- The checks know nothing of the layout.
    cases hf : g.checks.findSome? w.fault? with
    | some f => exact .inl ⟨f, result_eq_error_iff.mpr hf, result_eq_error_iff.mpr hf⟩
    | none =>
      have hc := List.findSome?_eq_none_iff.mp hf
      exact .inr ⟨w.header g, w.allStatements g.directed 1 g.elements, _, _,
        result_eq_ok_iff.mpr ⟨hc, rfl⟩, result_eq_ok_iff.mpr ⟨hc, rfl⟩, rfl, rfl,
        w.allNested_allStatements g.directed 1 g.elements, w.run?_graphMoves g,
        Layout.squash_document .flat .indented _⟩
  · intro d e
    exact ⟨_, w.run?_moves g.directed d e⟩
  · intro l m h
    have hg := w.run?_graphMoves g
    rw [h] at hg
    exact Move.isSome_run?_of_isSome_append (Option.isSome_of_eq_some hg)
  · rw [Output.foldlM_move?, w.run?_graphMoves g]
    simp [Output.append]

/-- White space inside of strings stands in both texts, and so is no part of the layout. -/
def grouped : Graph where
  id := "two  words"
  directed := true
  elements := [
    .subgraph "outer" (.ofList [.label "a b", .color ⟨255, 0, 0, 255⟩]) [
      .node ⟨"x", .ofList [.width ⟨0x3FE0000000000000#64⟩]⟩,
      .subgraph "inner" .empty [.edge ⟨.named "x", .named "y\t", .empty⟩]],
    .node ⟨"z", .empty⟩]

def groupedFlat : String :=
  "digraph \"two  words\" \x7b subgraph outer \x7b label=\"a b\"; color=\"#ff0000\"; x [width=0.50]; " ++
    "subgraph inner \x7b x -> \"y\t\"; \x7d \x7d z; \x7d"

def groupedIndented : String :=
  "digraph \"two  words\" \x7b\n    subgraph outer \x7b\n        label=\"a b\";\n" ++
    "        color=\"#ff0000\";\n        x [width=0.50];\n        subgraph inner \x7b\n" ++
    "            x -> \"y\t\";\n        \x7d\n    \x7d\n    z;\n\x7d"

theorem compile_grouped :
    (grouped.compile { layout := .flat }).result = .ok groupedFlat ∧
      (grouped.compile { layout := .indented }).result = .ok groupedIndented ∧
      (grouped.write { layout := .indented }).result = .ok (some groupedIndented) ∧
      Text.squash groupedFlat = Text.squash groupedIndented ∧
      ∃ l, Move.run? 0 (Wording.graphMoves {} grouped) = some (l, 0) ∧
        l.map Statement.depth = [0, 1, 2, 2, 2, 2, 3, 2, 1, 1] := by
  have hf : (grouped.compile { layout := .flat }).result = .ok groupedFlat := by decide +kernel
  have hi : (grouped.compile { layout := .indented }).result = .ok groupedIndented := by
    decide +kernel
  have hd : (Move.run? 0 (Wording.graphMoves {} grouped)).map (fun r => r.1.map Statement.depth) =
      some [0, 1, 2, 2, 2, 2, 3, 2, 1, 1] := by decide +kernel
  obtain ⟨-, hr, -, -, hw⟩ := compile_layouts grouped {}
  have hw := congrArg Logged.result (hw .indented).1
  rw [Logged.result_map, hi] at hw
  rcases hr with ⟨f, h, -⟩ | ⟨header, body, flat, indented, h, h', -, -, -, hm, hs⟩
  · rw [hf] at h
    cases h
  · cases hf.symm.trans h
    cases hi.symm.trans h'
    rw [hm] at hd
    exact ⟨hf, hi, hw, hs, _, hm, Option.some.inj hd⟩

end Graph

end DotGraph
