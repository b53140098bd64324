import DotGraph.Proofs.Document.Layout
import DotGraph.Proofs.Document.Walk
import DotGraph.Proofs.Reading.RoundTrip
import DotGraph.Proofs.Text.Lines
set_option autoImplicit false

/-! Documents by their lines. How many there are, and how far each is indented, can be told from the
nesting of the graph alone. -/

namespace DotGraph

open Text

/-- The nesting of an element without all that is written in it. A block stands for a
subgraph with so many attributes. -/
inductive Skeleton where
  | leaf
  | block (attributes : Nat) (inner : List Skeleton)

namespace Skeleton

mutual

def count : Skeleton → Nat
  | .leaf => 1
  | .block n l => 2 + n + allCount l

def allCount : List Skeleton → Nat
  | [] => 0
  | k :: l => k.count + allCount l

end

mutual

def depths (d : Nat) : Skeleton → List Nat
  | .leaf => [d]
  | .block n l => d :: (List.replicate n (d + 1) ++ allDepths (d + 1) l ++ [d])

def allDepths (d : Nat) : List Skeleton → List Nat
  | [] => []
  | k :: l => k.depths d ++ allDepths d l

end

mutual

theorem length_depths (d : Nat) (k : Skeleton) : (k.depths d).length = k.count := by
  cases k with
  | leaf => rfl
  | block n l =>
    have hl := length_allDepths (d + 1) l
    simp only [depths, count, List.length_cons, List.length_append, List.length_replicate, hl,
      List.length_nil]
    omega

theorem length_allDepths (d : Nat) (l : List Skeleton) :
    (allDepths d l).length = allCount l := by
  cases l with
  | nil => rfl
  | cons k l =>
    rw [allDepths, allCount, List.length_append, length_depths d k, length_allDepths d l]

end

end Skeleton

mutual

def Element.skeleton : Element → Skeleton
  | .node _ | .edge _ => .leaf
  | .subgraph _ t l => .block t.size (Element.skeletons l)

def Element.skeletons : List Element → List Skeleton
  | [] => []
  | e :: l => e.skeleton :: Element.skeletons l

end

def Graph.skeletons (g : Graph) : List Skeleton := Element.skeletons g.elements

theorem Attribute.oneLine_text {a : Attribute} (h : a.Readable) : OneLine (a.text .escaped) := by
  have hn : ∀ v ∈ a.numbers, v.isFinite = true := List.all_eq_true.mp h.2
  have hk := (isPlain_of_isBare (Kind.isBare_key h.1)).oneLine
  have he : OneLine "=" := oneLine_of_all (by decide)
  have hq : OneLine "\"" := oneLine_of_all (by decide)
  have hb {s : String} (hs : isBare s = true) : OneLine s := (isPlain_of_isBare hs).oneLine
  refine (hk.append he).append ?_
  cases a with
  | color c | fontColor c | fillColor c => exact (hq.append c.isPlain_hex.oneLine).append hq
  | label s | nodeStyle s | edgeStyle s | subgraphStyle s => exact oneLine_quote _
  | shape s | arrowHead s | arrowTail s => exact hb s.isBare_name
  | width v | height v | penWidth v => exact hb (v.isBare_text (hn v (.head _)))
  | position p =>
    have hx := hb (p.x.isBare_text (hn p.x (.head _)))
    have hy := hb (p.y.isBare_text (hn p.y (.tail _ (.head _))))
    have hc : OneLine "," := oneLine_of_all (by decide)
    have hm : OneLine "!\"" := oneLine_of_all (by decide)
    exact (((hq.append hx).append hc).append hy).append hm
  | custom n s => exact absurd rfl (h.1 n)

namespace Wording

mutual

theorem map_depth_statements (w : Wording) (directed : Bool) (d : Nat) (e : Element) :
    (w.statements directed d e).map Statement.depth = e.skeleton.depths d := by
  cases e with
  | node n => rfl
  | edge e => rfl
  | subgraph i t l =>
    have hl := map_depth_allStatements w directed (d + 1) l
    have ht : (t.items.map fun _ => d + 1) = List.replicate t.size (d + 1) := List.map_const' ..
    simp only [statements, List.map_cons, List.map_append, List.map_map, List.map_nil, hl,
      Function.comp_def, ht, Element.skeleton, Skeleton.depths]

theorem map_depth_allStatements (w : Wording) (directed : Bool) (d : Nat) (l : List Element) :
    (w.allStatements directed d l).map Statement.depth =
      Skeleton.allDepths d (Element.skeletons l) := by
  cases l with
  | nil => rfl
  | cons e l =>
    rw [allStatements, List.map_append, map_depth_statements w directed d e,
      map_depth_allStatements w directed d l]
    rfl

end

theorem oneLine_bracketed {l : List String} (h : ∀ s ∈ l, OneLine s) : OneLine (bracketed l) := by
  cases l with
  | nil => exact oneLine_of_all (by decide)
  | cons s l =>
    have ho : OneLine " [" := oneLine_of_all (by decide)
    have hm : OneLine "," := oneLine_of_all (by decide)
    have hc : OneLine "]" := oneLine_of_all (by decide)
    exact (ho.append (hm.intercalate h)).append hc

theorem oneLine_fragments {t : Attributes}
    (h : ∀ a ∈ t.items, escaping.fault? (.rendered a) = none) :
    OneLine (bracketed (t.items.map escaping.fragment)) := by
  apply oneLine_bracketed
  intro s hs
  obtain ⟨a, ha, rfl⟩ := List.mem_map.mp hs
  obtain ⟨hr, he⟩ := readable_of_rendered (h a ha)
  rw [he]
  exact Attribute.oneLine_text hr

/-- No statement of a head that passes its checks leaves its line or shifts it. -/
theorem settled_headStatements {directed : Bool} {d : Nat} {k : Head} {s : Statement}
    (h : ∀ c ∈ k.checks, escaping.fault? c = none) (hs : s ∈ escaping.headStatements directed d k) :
    OneLine s.text ∧ Flush s.text := by
  have hc : OneLine ";" := oneLine_of_all (by decide)
  cases k with
  | node n =>
    obtain rfl := List.mem_singleton.mp hs
    have hl := oneLine_fragments fun a ha => h _ (List.mem_map_of_mem ha)
    exact ⟨((oneLine_quote _).append hl).append hc, ((flush_quote _).append _).append _⟩
  | edge e =>
    obtain rfl := List.mem_singleton.mp hs
    have hl := oneLine_fragments fun a ha => h _ (.tail _ (.tail _ (List.mem_map_of_mem ha)))
    have ho : OneLine (edgeOperator directed) := by
      cases directed <;> exact oneLine_of_all (by decide)
    exact ⟨((((oneLine_quote _).append ho).append (oneLine_quote _)).append hl).append hc,
      ((((flush_quote _).append _).append _).append _).append _⟩
  | subgraph i t =>
    rcases List.mem_cons.mp hs with rfl | hs
    · have hw : OneLine "subgraph " := oneLine_of_all (by decide)
      have hb : OneLine " \x7b" := oneLine_of_all (by decide)
      have hf : Flush "subgraph " := ⟨'s', _, rfl, by decide⟩
      exact ⟨(hw.append (oneLine_quote _)).append hb, (hf.append _).append _⟩
    · simp only [List.map_map, List.mem_map] at hs
      obtain ⟨a, ha, rfl⟩ := hs
      -- The statement begins with the key, and keys are bare.
      have hr := readable_of_own (h _ (List.mem_map_of_mem ha))
      have hk := flush_of_isBare (Attribute.Kind.isBare_key hr.1)
      exact ⟨(Attribute.oneLine_text hr).append hc, ((hk.append _).append _).append _⟩

theorem settled_header (g : Graph) : OneLine (escaping.header g) ∧ Flush (escaping.header g) := by
  have hb : OneLine " \x7b" := oneLine_of_all (by decide)
  have hw : OneLine ((if g.strict then "strict " else "") ++
      (if g.directed then "digraph " else "graph ")) ∧
      Flush ((if g.strict then "strict " else "") ++
        (if g.directed then "digraph " else "graph ")) := by
    unfold Flush
    cases g.strict <;> cases g.directed <;>
      exact ⟨oneLine_of_all (by decide), _, _, rfl, by decide⟩
  exact ⟨(hw.1.append (oneLine_quote _)).append hb, (hw.2.append _).append _⟩

theorem settled_graphStatements {g : Graph} (h : ∀ c ∈ g.checks, escaping.fault? c = none) :
    ∀ s ∈ escaping.graphStatements g, OneLine s.text ∧ Flush s.text := by
  intro s hs
  rcases List.mem_cons.mp hs with rfl | hs
  · exact settled_header g
  · rcases escaping.mem_allStatements hs with he | ⟨k, hk, d, hd⟩
    · rw [he]
      exact ⟨oneLine_of_all (by decide), '\x7d', [], rfl, by decide⟩
    · exact settled_headStatements (fun c hc => h c (List.mem_flatMap.mpr ⟨k, hk, hc⟩)) hd

end Wording

theorem Layout.linesOf_document {l : List Statement} (h : ∀ s ∈ l, OneLine s.text) :
    linesOf (Layout.indented.document l) =
      l.map (fun s => indent s.depth ++ s.text) ++ ["\x7d"] := by
  induction l with
  | nil => exact linesOf_of_oneLine (oneLine_of_all (by decide))
  | cons s l ih =>
    have hi : OneLine (indent s.depth) := by
      intro c hc
      rw [indent, String.toList_ofList] at hc
      rw [List.eq_of_mem_replicate hc]
      decide
    have hd : Layout.indented.document (s :: l) =
        indent s.depth ++ s.text ++ "\n" ++ Layout.indented.document l := by
      simp [document, lines, line, String.append_assoc]
    rw [hd, linesOf_append_lineFeed (hi.append (h s List.mem_cons_self)),
      ih fun s hs => h s (List.mem_cons_of_mem _ hs)]
    rfl

namespace Graph

theorem indented_eq_ok {g : Graph} {t : String}
    (h : (g.compile { strings := .escaped, registry := .default, layout := .indented }).result =
      .ok t) :
    (∀ c ∈ g.checks, Wording.escaping.fault? c = none) ∧
      t = Layout.indented.document (Wording.escaping.graphStatements g) :=
  result_eq_ok_iff.mp h

theorem linesOf_document {g : Graph} (h : ∀ c ∈ g.checks, Wording.escaping.fault? c = none) :
    linesOf (Layout.indented.document (Wording.escaping.graphStatements g)) =
      (Wording.escaping.graphStatements g).map (fun s => indent s.depth ++ s.text) ++ ["\x7d"] :=
  Layout.linesOf_document fun s hs => (Wording.settled_graphStatements h s hs).1

theorem margins_document {g : Graph} (h : ∀ c ∈ g.checks, Wording.escaping.fault? c = none) :
    (linesOf (Layout.indented.document (Wording.escaping.graphStatements g))).map margin =
      (0 :: Skeleton.allDepths 1 g.skeletons ++ [0]).map (4 * ·) := by
  have hm : ∀ s ∈ Wording.escaping.graphStatements g,
      margin (indent s.depth ++ s.text) = 4 * s.depth := fun s hs =>
    margin_append (Wording.settled_graphStatements h s hs).2 _
  have hb : margin "\x7d" = 0 := by decide
  have hd := Wording.escaping.map_depth_allStatements g.directed 1 g.elements
  rw [linesOf_document h, List.map_append, List.map_map, Function.comp_def,
    List.map_congr_left hm, skeletons, ← hd]
  simp [Wording.graphStatements, hb]

/-- The lines of an indented document are the header, the other statements in the order of
the elements, and a brace. Each is indented as deep as its statement is nested. How many
there are, and how deep, can be told from the nesting of the graph, so that graphs which
differ in strings and values alone have the same number of lines with the same indents. -/
theorem compile_lines (g : Graph) (t : String)
    (h : (g.compile { strings := .escaped, registry := .default, layout := .indented }).result =
      .ok t) :
    (∃ body : List Statement,
      (Wording.escaping.graph g).result = .ok (⟨0, Wording.escaping.header g⟩ :: body) ∧
      Wording.escaping.AllNested 1 g.elements body ∧
      body.map Statement.depth = Skeleton.allDepths 1 g.skeletons ∧
      linesOf t = Wording.escaping.header g ::
        body.map (fun s => String.ofList (List.replicate (4 * s.depth) ' ') ++ s.text) ++
          ["\x7d"]) ∧
    (linesOf t).length = 2 + Skeleton.allCount g.skeletons ∧
    (linesOf t).map margin = (0 :: Skeleton.allDepths 1 g.skeletons ++ [0]).map (4 * ·) ∧
    ∀ (g' : Graph) (t' : String),
      (g'.compile { strings := .escaped, registry := .default, layout := .indented }).result =
        .ok t' →
      g'.skeletons = g.skeletons →
        (linesOf t').length = (linesOf t).length ∧
          (linesOf t').map margin = (linesOf t).map margin := by
  obtain ⟨hc, rfl⟩ := indented_eq_ok h
  have hd := Wording.escaping.map_depth_allStatements g.directed 1 g.elements
  have hm := margins_document hc
  refine ⟨⟨Wording.escaping.allStatements g.directed 1 g.elements,
    Wording.result_graph_eq_ok_iff.mpr ⟨hc, rfl⟩,
    Wording.escaping.allNested_allStatements g.directed 1 g.elements, hd, ?_⟩, ?_, hm, ?_⟩
  · rw [linesOf_document hc, Wording.graphStatements, List.map_cons]
    rfl
  -- There is one margin for each line.
  · have hl := congrArg List.length hm
    simp only [List.length_map, List.length_cons, List.length_append, List.length_nil,
      Skeleton.length_allDepths] at hl
    omega
  · intro g' t' h' hg
    obtain ⟨hc', rfl⟩ := indented_eq_ok h'
    have hm' := (margins_document hc').trans (hg ▸ hm.symm)
    have hl := congrArg List.length hm'
    rw [List.length_map, List.length_map] at hl
    exact ⟨hl, hm'⟩

/-- One string in every place. -/
def crowded (s : String) : Graph where
  id := s
  elements := [
    .subgraph s (.ofList [.label s, .color ⟨255, 0, 0, 255⟩]) [.node ⟨s, .ofList [.label s]⟩],
    .edge ⟨.named s, .named s, .empty⟩]

def crowdedText (s : String) : String :=
  "graph " ++ s ++ " \x7b\n    subgraph " ++ s ++ " \x7b\n        label=" ++ s ++
    ";\n        color=\"#ff0000\";\n        " ++ s ++ " [label=" ++ s ++ "];\n    \x7d\n    " ++
    s ++ " -- " ++ s ++ ";\n\x7d"

theorem compile_crowded :
    ((crowded "\n  \x7d").compile
        { strings := .escaped, registry := .default, layout := .indented }).result =
      .ok (crowdedText "\"\\n  \x7d\"") ∧
    ((crowded "a").compile
        { strings := .escaped, registry := .default, layout := .indented }).result =
      .ok (crowdedText "a") ∧
    (linesOf (crowdedText "\"\\n  \x7d\"")).length = 8 ∧
    (linesOf (crowdedText "\"\\n  \x7d\"")).map margin = [0, 4, 8, 8, 8, 4, 4, 0] ∧
    (linesOf (crowdedText "a")).map margin =
      (linesOf (crowdedText "\"\\n  \x7d\"")).map margin := by
  have h : ((crowded "\n  \x7d").compile
      { strings := .escaped, registry := .default, layout := .indented }).result =
        .ok (crowdedText "\"\\n  \x7d\"") :=
    result_eq_ok_iff.mpr ⟨by decide +kernel, by decide +kernel⟩
  have ha : ((crowded "a").compile
      { strings := .escaped, registry := .default, layout := .indented }).result =
        .ok (crowdedText "a") :=
    result_eq_ok_iff.mpr ⟨by decide +kernel, by decide +kernel⟩
  obtain ⟨-, hl, hm, hs⟩ := compile_lines _ _ h
  exact ⟨h, ha, hl, hm, (hs _ _ ha rfl).2⟩

end Graph

end DotGraph
