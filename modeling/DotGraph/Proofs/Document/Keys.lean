import DotGraph.Proofs.Attribute.History
import DotGraph.Proofs.Attribute.Text
import DotGraph.Proofs.Document.Faults
import DotGraph.Proofs.Document.Walk
set_option autoImplicit false

namespace DotGraph

namespace Head

def attributes : Head → Attributes
  | .node n => n.attributes
  | .edge e => e.attributes
  | .subgraph _ t => t

def isSubgraph : Head → Bool
  | .subgraph _ _ => true
  | _ => false

def texts (mode : Text.StringMode) (k : Head) : List String :=
  k.attributes.items.map (Attribute.text mode)

def keys (mode : Text.StringMode) (k : Head) : List String := (k.texts mode).map Text.keyOf

end Head

namespace Wording

variable {w : Wording}

/-- The statements for an element with these texts for its attributes. Those of a node or
an edge are in one list, and those of a subgraph are statements. -/
def headed (w : Wording) (directed : Bool) (depth : Nat) (texts : List String) :
    Head → List Statement
  | .node n => [⟨depth, w.quote n.id ++ bracketed texts ++ ";"⟩]
  | .edge e =>
    [⟨depth, w.quote e.left.id ++ edgeOperator directed ++ w.quote e.right.id ++
      bracketed texts ++ ";"⟩]
  | .subgraph i _ =>
    ⟨depth, "subgraph " ++ w.quote i ++ " \x7b"⟩ :: texts.map fun s => ⟨depth + 1, s ++ ";"⟩

theorem map_fragment (hw : w.registry = .default) {t : Attributes}
    (h : ∀ a ∈ t.items, w.fault? (.rendered a) = none) :
    t.items.map w.fragment = t.items.map (Attribute.text w.strings) := by
  apply List.map_congr_left
  intro a ha
  rw [fragment_default hw, if_pos ((fault?_rendered_eq_none_iff hw a).mp (h a ha)).2]

theorem headStatements_eq_headed (hw : w.registry = .default) {k : Head}
    (h : ∀ c ∈ k.checks, w.fault? c = none) (directed : Bool) (depth : Nat) :
    w.headStatements directed depth k = w.headed directed depth (k.texts w.strings) k := by
  cases k with
  | node n =>
    have ht := map_fragment hw fun a ha => h _ (List.mem_map_of_mem ha)
    rw [headStatements, headed, nodeText, ht]
    rfl
  | edge e =>
    have ht := map_fragment hw fun a ha => h _ (.tail _ (.tail _ (List.mem_map_of_mem ha)))
    rw [headStatements, headed, edgeText, ht]
    rfl
  | subgraph i t =>
    rw [headStatements, headed, Head.texts, List.map_map, List.map_map]
    rfl

theorem kinds_builtin (hw : w.registry = .default) {k : Head} (hk : k.isSubgraph = false)
    (h : ∀ c ∈ k.checks, w.fault? c = none) :
    ∀ j ∈ k.attributes.kinds, j ∈ Registry.builtinKinds := by
  intro j hj
  obtain ⟨a, ha, rfl⟩ := List.mem_map.mp hj
  have hc : .rendered a ∈ k.checks := by
    cases k with
    | node n => exact List.mem_map_of_mem ha
    | edge e => exact .tail _ (.tail _ (List.mem_map_of_mem ha))
    | subgraph i t => cases hk
  exact ((fault?_rendered_eq_none_iff hw a).mp (h _ hc)).2

theorem kinds_fitsSubgraph {k : Head} (hk : k.isSubgraph = true)
    (h : ∀ c ∈ k.checks, w.fault? c = none) :
    ∀ j ∈ k.attributes.kinds, j.fitsSubgraph = true := by
  intro j hj
  obtain ⟨a, ha, rfl⟩ := List.mem_map.mp hj
  cases k with
  | subgraph i t => exact (fault?_own_eq_none_iff a).mp (h _ (List.mem_map_of_mem ha))
  | _ => cases hk

theorem kinds_named (hw : w.registry = .default) {k : Head}
    (h : ∀ c ∈ k.checks, w.fault? c = none) : ∀ j ∈ k.attributes.kinds, j.Named := by
  rintro j hj n rfl
  cases hk : k.isSubgraph with
  | false =>
    have hb := kinds_builtin hw hk h _ hj
    simp [Registry.builtinKinds] at hb
  | true => cases kinds_fitsSubgraph hk h _ hj

theorem keys_eq (hw : w.registry = .default) {k : Head} (h : ∀ c ∈ k.checks, w.fault? c = none)
    (mode : Text.StringMode) : k.keys mode = k.attributes.kinds.map Attribute.Kind.key := by
  rw [Head.keys, Head.texts, Attributes.kinds, List.map_map, List.map_map]
  apply List.map_congr_left
  intro a ha
  exact Attribute.keyOf_text (kinds_named hw h _ (List.mem_map_of_mem ha)) mode

/-- A subgraph holds at most its own sort of style, and all others do not hold this one. -/
theorem count_styles (hw : w.registry = .default) {k : Head}
    (h : ∀ c ∈ k.checks, w.fault? c = none) :
    if k.isSubgraph then
      k.attributes.kinds.count .nodeStyle = 0 ∧ k.attributes.kinds.count .edgeStyle = 0
    else k.attributes.kinds.count .subgraphStyle = 0 := by
  cases hk : k.isSubgraph with
  | false =>
    have hb := kinds_builtin hw hk h .subgraphStyle
    exact List.count_eq_zero.mpr fun hj => absurd (hb hj) (by decide)
  | true =>
    have hn := kinds_fitsSubgraph hk h .nodeStyle
    have he := kinds_fitsSubgraph hk h .edgeStyle
    exact ⟨List.count_eq_zero.mpr fun hj => absurd (hn hj) (by decide),
      List.count_eq_zero.mpr fun hj => absurd (he hj) (by decide)⟩

end Wording

namespace Graph

/-- In a document, the keys of each element are those of its kinds, in their order. They are
distinct, but that a node or an edge with a style for nodes and one for edges has the key of
styles twice. -/
theorem compile_keys (g : Graph) (s : Settings) (t : String) (hr : s.registry = .default)
    (h : (g.compile s).result = .ok t) :
    ∃ l : List Statement,
      (s.toWording.graph g).result = .ok l ∧ t = s.layout.document l ∧
      ∀ k ∈ g.heads,
        (∃ depth, s.toWording.headed g.directed depth (k.texts s.strings) k <:+: l) ∧
        k.keys s.strings = k.attributes.kinds.map Attribute.Kind.key ∧
        (∀ key, key ≠ "style" → (k.keys s.strings).count key ≤ 1) ∧
        (k.keys s.strings).count "style" ≤ 2 ∧
        ((k.keys s.strings).count "style" = 2 ↔ k.isSubgraph = false ∧
          .nodeStyle ∈ k.attributes.kinds ∧ .edgeStyle ∈ k.attributes.kinds) ∧
        ((k.keys s.strings).Nodup ↔ ¬ (.nodeStyle ∈ k.attributes.kinds ∧
          .edgeStyle ∈ k.attributes.kinds)) ∧
        (k.isSubgraph = true → (k.keys s.strings).Nodup) := by
  obtain ⟨hc, rfl⟩ := result_eq_ok_iff.mp h
  refine ⟨_, Wording.result_graph_eq_ok_iff.mpr ⟨hc, rfl⟩, rfl, fun k hk => ?_⟩
  have hp : ∀ c ∈ k.checks, s.toWording.fault? c = none := fun c hm =>
    hc c (List.mem_flatMap.mpr ⟨k, hk, hm⟩)
  obtain ⟨depth, hd⟩ := s.toWording.headStatements_infix_all g.directed 1 hk
  rw [Wording.headStatements_eq_headed hr hp] at hd
  have hn : k.attributes.kinds.Nodup := k.attributes.nodup
  have hj := Wording.kinds_named hr hp
  have hs := Wording.count_styles hr hp
  rw [Wording.keys_eq hr hp, Attribute.Kind.nodup_keys_iff hn hj,
    Attribute.Kind.count_keys_style hj, ← List.count_pos_iff, ← List.count_pos_iff]
  refine ⟨⟨depth, List.infix_cons hd⟩, rfl, fun key => Attribute.Kind.count_keys_le_one hn hj, ?_⟩
  -- What is left is about how often each sort of style occurs, which is once at most.
  have hle := List.nodup_iff_count_le_one.mp hn
  have hnode := hle .nodeStyle
  have hedge := hle .edgeStyle
  have hsub := hle .subgraphStyle
  cases hg : k.isSubgraph with
  | false =>
    rw [hg, if_neg Bool.false_ne_true] at hs
    simp only [true_and, Bool.false_eq_true, false_imp_iff, and_true]
    omega
  | true =>
    rw [hg, if_pos rfl] at hs
    simp only [Bool.true_eq_false, false_and, iff_false, true_imp_iff]
    omega

/-- A node with both styles, and a label that was removed and set again. -/
def striped : Node where
  id := "n"
  attributes := .after [.set (.nodeStyle ⟨1⟩), .set (.label "x"), .set (.edgeStyle ⟨1⟩),
    .remove .label, .set (.label "a,style=b")]

def framed : Attributes := .after [.set (.subgraphStyle ⟨1⟩), .set (.label "style=")]

theorem compile_striped :
    (compile { id := "G", elements := [.subgraph "s" framed [.node striped]] } {}).result =
      .ok ("graph G \x7b subgraph s \x7b style=filled; label=\"style=\"; " ++
        "n [style=filled,style=dashed,label=\"a,style=b\"]; \x7d \x7d") ∧
    (Head.node striped).keys .escaped = ["style", "style", "label"] ∧
    ((Head.node striped).keys .escaped).count "style" = 2 ∧
    ((Head.subgraph "s" framed).keys .escaped).Nodup := by
  have h : (compile { id := "G", elements := [.subgraph "s" framed [.node striped]] } {}).result =
      .ok ("graph G \x7b subgraph s \x7b style=filled; label=\"style=\"; " ++
        "n [style=filled,style=dashed,label=\"a,style=b\"]; \x7d \x7d") :=
    result_eq_ok_iff.mpr ⟨by decide +kernel, by decide +kernel⟩
  obtain ⟨l, -, -, hk⟩ := compile_keys _ {} _ rfl h
  obtain ⟨-, hn, -, -, hs, -⟩ := hk (.node striped) (.tail _ (.head _))
  obtain ⟨-, -, -, -, -, -, hd⟩ := hk (.subgraph "s" framed) (.head _)
  exact ⟨h, hn, hs.mpr ⟨rfl, by decide, by decide⟩, hd rfl⟩

end Graph

end DotGraph
