import DotGraph.Proofs.Document.Walk
import DotGraph.Proofs.Reading.RoundTrip
import DotGraph.Proofs.Text.Keywords
import Mathlib.Data.List.Perm.Basic
set_option autoImplicit false

/-! The keywords in a document. It needs some, and every identifier or label that is a reserved word
adds one, since all of these are bare. -/

namespace DotGraph

open Text

/-- The string of a label. No other attribute of a document holds a string of its caller's. -/
def Attribute.labels : Attribute → List String
  | .label s => [s]
  | _ => []

def Attributes.labels (t : Attributes) : List String := t.items.flatMap Attribute.labels

namespace Head

def strings : Head → List String
  | .node n => n.id :: n.attributes.labels
  | .edge e => e.left.id :: e.right.id :: e.attributes.labels
  | .subgraph i t => i :: t.labels

def needed : Head → List String
  | .subgraph _ _ => ["subgraph"]
  | _ => []

end Head

namespace Graph

def strings (g : Graph) : List String := g.id :: g.heads.flatMap Head.strings

def headerWords (g : Graph) : List String :=
  (if g.strict then ["strict"] else []) ++ [if g.directed then "digraph" else "graph"]

/-- The keywords without which a document would not say what the graph is. -/
def needed (g : Graph) : List String := g.headerWords ++ g.heads.flatMap Head.needed

def words (g : Graph) : List String :=
  g.headerWords ++ g.id :: g.heads.flatMap fun k => k.needed ++ k.strings

end Graph

theorem Shape.isReserved_name (s : Shape) : isReserved s.name = false := by cases s <;> decide

theorem Arrow.isReserved_name (a : Arrow) : isReserved a.name = false := by cases a <;> decide

theorem Attribute.Kind.isReserved_key {k : Kind} (h : ∀ n, k ≠ .custom n) :
    isReserved k.key = false := by
  cases k with
  | custom n => exact absurd rfl (h n)
  | _ => decide

theorem Binary64.isReserved_text {v : Binary64} (h : v.isFinite = true) :
    isReserved v.text = false := by
  apply isReserved_eq_false_of_mem (c := '.')
  · simp [text_of_isFinite h, hundredthsText]
  · decide

/-- A style of several flags is no name, and no flag alone is a reserved word. -/
theorem Style.isReserved_text {target : StyleTarget} (s : Style target) :
    isReserved s.text = false := by
  have hf : ∀ n ∈ target.flags, isReserved n = false := by cases target <;> decide
  have hn : ∀ n ∈ s.names, isReserved n = false := by
    intro n hn
    obtain ⟨f, hm, rfl⟩ := List.mem_map.mp hn
    exact hf _ (List.fst_mem_of_mem_zipIdx (List.mem_filter.mp hm).1)
  rw [text]
  match s.names, hn with
  | [], _ => decide
  | [n], hn => simpa using hn n List.mem_cons_self
  | m :: n :: l, _ =>
    apply isReserved_eq_false_of_mem (c := '|')
    · simp [String.intercalate_cons_cons]
    · decide

theorem tells_value {a : Attribute} (h : a.Readable) :
    Tells (a.valueText .escaped) (a.labels.filter isReserved) := by
  have hn : ∀ v ∈ a.numbers, v.isFinite = true := List.all_eq_true.mp h.2
  have hb {s : String} (hs : isBare s = true) (hr : isReserved s = false) : Tells s [] := by
    simpa [hr] using tells_bare hs
  have hq {s : String} (hr : isReserved s = false) : Tells (quote .escaped s) [] := by
    simpa [hr] using tells_quote s
  cases a with
  | color c | fontColor c | fillColor c => exact tells_quoted c.isPlain_hex.unquote?
  | label s => exact tells_quote s
  | shape s => exact hb s.isBare_name s.isReserved_name
  | arrowHead s | arrowTail s => exact hb s.isBare_name s.isReserved_name
  | nodeStyle s | edgeStyle s | subgraphStyle s => exact hq s.isReserved_text
  | width v | height v | penWidth v =>
    have hv := hn v (.head _)
    exact hb (v.isBare_text hv) (v.isReserved_text hv)
  | position p =>
    have hp := Point.isPlain_text (hn p.x (.head _)) (hn p.y (.tail _ (.head _)))
    have he : "!\"" = "!" ++ "\"" := rfl
    change Tells _ []
    simpa only [Attribute.valueText, he, String.append_assoc] using tells_quoted hp.unquote?
  | custom n s => exact absurd rfl (h.1 n)

theorem tells_text {a : Attribute} (h : a.Readable) :
    Tells (a.text .escaped) (a.labels.filter isReserved) := by
  have hk := tells_bare (Attribute.Kind.isBare_key h.1)
  rw [List.filter_cons_of_neg (by simp [Attribute.Kind.isReserved_key h.1]), List.filter_nil] at hk
  exact hk.separate (by decide) (tells_value h)

theorem tells_list {l : List Attribute} (h : ∀ a ∈ l, a.Readable) :
    Tells (",".intercalate (l.map (Attribute.text .escaped)))
      ((l.flatMap Attribute.labels).filter isReserved) := by
  induction l with
  | nil => exact tells_empty
  | cons a l ih =>
    have ha := tells_text (h a List.mem_cons_self)
    have hl := ih fun b hb => h b (List.mem_cons_of_mem a hb)
    rw [List.flatMap_cons, List.filter_append]
    cases l with
    | nil => simpa using ha
    | cons b l =>
      rw [List.map_cons, List.map_cons, String.intercalate_cons_cons]
      exact ha.separate (by decide) hl

theorem tells_bracketed {s : String} {ks : List String} {l : List Attribute} (hs : Tells s ks)
    (h : ∀ a ∈ l, a.Readable) :
    Tells (s ++ Wording.bracketed (l.map (Attribute.text .escaped)) ++ ";")
      (ks ++ (l.flatMap Attribute.labels).filter isReserved) := by
  cases l with
  | nil =>
    have he := hs.before (p := ";") (by decide)
    simpa [Wording.bracketed] using he
  | cons a l =>
    have he := (hs.separate (p := " [") (by decide) (tells_list h)).before (p := "];") (by decide)
    have hb : "];" = "]" ++ ";" := rfl
    rw [hb] at he
    simpa only [Wording.bracketed, List.map_cons, String.append_assoc] using he

/-- On whatever lines these statements are put, the text behind them begins outside of quotes,
and these are their keywords. -/
def Told (l : List Statement) (ks : List String) : Prop :=
  ∀ (y : Layout) (r : String) (ls : List String), Tells r ls → Tells (y.lines l ++ r) (ks ++ ls)

theorem told_nil : Told [] [] := by
  intro y r ls hr
  simpa [Layout.lines] using hr

theorem Told.append {l m : List Statement} {ks ls : List String} (hl : Told l ks)
    (hm : Told m ls) : Told (l ++ m) (ks ++ ls) := by
  intro y r ms hr
  rw [Layout.lines_append, String.append_assoc, List.append_assoc]
  exact hl y _ _ (hm y r ms hr)

theorem isSeparator_indent (depth : Nat) : isSeparator (indent (depth + 1)) = true := by
  have hs : isNamePart ' ' = false := by decide
  have hl : 4 * (depth + 1) = 4 * depth + 3 + 1 := by omega
  simp [isSeparator, indent, hs, hl, List.replicate_succ]

theorem told_singleton {s : String} {ks : List String} (h : Tells s ks) (depth : Nat) :
    Told [⟨depth, s⟩] ks := by
  intro y r ls hr
  cases y with
  | flat => simpa [Layout.lines, Layout.line] using h.separate (p := " ") (by decide) hr
  | indented =>
    have hl := h.separate (p := "\n") (by decide) hr
    have he : Layout.indented.lines [⟨depth, s⟩] ++ r = indent depth ++ (s ++ "\n" ++ r) := by
      simp [Layout.lines, Layout.line, String.append_assoc]
    -- The line feed in front of an indent separates already, and at depth 0 there is no indent.
    rw [he]
    cases depth with
    | zero => exact hl
    | succ d => exact hl.behind (isSeparator_indent d)

namespace Wording

theorem tells_attributes {s : String} {ks : List String} {t : Attributes} (hs : Tells s ks)
    (h : ∀ a ∈ t.items, escaping.fault? (.rendered a) = none) :
    Tells (s ++ bracketed (t.items.map escaping.fragment) ++ ";")
      (ks ++ t.labels.filter isReserved) := by
  have hm : t.items.map escaping.fragment = t.items.map (Attribute.text .escaped) :=
    List.map_congr_left fun a ha => (readable_of_rendered (h a ha)).2
  rw [hm]
  exact tells_bracketed hs fun a ha => (readable_of_rendered (h a ha)).1

theorem isSeparator_edgeOperator (directed : Bool) : isSeparator (edgeOperator directed) = true := by
  cases directed <;> decide

theorem tells_opening (i : String) :
    Tells (escaping.opening i) (["subgraph", i].filter isReserved) := by
  have hw : Tells "subgraph" ["subgraph"] := tells_bare (by decide)
  exact (hw.separate (p := " ") (by decide) (tells_quote i)).before (p := " \x7b") (by decide)

theorem told_owns {l : List Attribute} (h : ∀ a ∈ l, escaping.fault? (.own a) = none)
    (depth : Nat) :
    Told ((l.map escaping.ownText).map (Statement.mk depth))
      ((l.flatMap Attribute.labels).filter isReserved) := by
  induction l with
  | nil => exact told_nil
  | cons a l ih =>
    have ha := (tells_text (readable_of_own (h a List.mem_cons_self))).before (p := ";") (by decide)
    have hl := ih fun b hb => h b (List.mem_cons_of_mem a hb)
    rw [List.flatMap_cons, List.filter_append]
    exact (told_singleton ha depth).append hl

/-- What is written for an element in front of the elements inside it has the keyword that is
needed, and the reserved words among its own strings. -/
theorem told_head {k : Head} (h : ∀ c ∈ k.checks, escaping.fault? c = none) (directed : Bool)
    (depth : Nat) :
    Told (escaping.headStatements directed depth k)
      ((k.needed ++ k.strings).filter isReserved) := by
  cases k with
  | node n =>
    have hn := tells_attributes (tells_quote n.id) fun a ha => h _ (List.mem_map_of_mem ha)
    rw [← List.filter_append] at hn
    exact told_singleton hn depth
  | edge e =>
    have he := (tells_quote e.left.id).separate (isSeparator_edgeOperator directed)
      (tells_quote e.right.id)
    have ha := tells_attributes he fun a ha => h _ (.tail _ (.tail _ (List.mem_map_of_mem ha)))
    rw [← List.filter_append, ← List.filter_append] at ha
    exact told_singleton ha depth
  | subgraph i t =>
    have ht := told_owns (fun a ha => h _ (List.mem_map_of_mem ha)) (depth + 1)
    have hs := (told_singleton (tells_opening i) depth).append ht
    rw [← List.filter_append] at hs
    exact hs

theorem told_close (depth : Nat) : Told [⟨depth, "\x7d"⟩] [] :=
  told_singleton (tells_separator (by decide)) depth

mutual

theorem told_element {e : Element} (directed : Bool) (depth : Nat)
    (h : ∀ c ∈ e.heads.flatMap Head.checks, escaping.fault? c = none) :
    Told (escaping.statements directed depth e)
      ((e.heads.flatMap fun k => k.needed ++ k.strings).filter isReserved) := by
  cases e with
  | node n =>
    simp only [Element.heads, List.flatMap_cons, List.flatMap_nil, List.append_nil] at h ⊢
    exact told_head h directed depth
  | edge e =>
    simp only [Element.heads, List.flatMap_cons, List.flatMap_nil, List.append_nil] at h ⊢
    exact told_head h directed depth
  | subgraph i t l =>
    simp only [Element.heads, List.flatMap_cons, List.mem_append] at h
    have hk := told_head (k := .subgraph i t) (fun c hc => h c (.inl hc)) directed depth
    have hl := told_elements directed (depth + 1) fun c hc => h c (.inr hc)
    have hc := hk.append (hl.append (told_close depth))
    rw [List.append_nil, ← List.filter_append] at hc
    rw [statements_subgraph]
    exact hc

theorem told_elements {l : List Element} (directed : Bool) (depth : Nat)
    (h : ∀ c ∈ (Element.allHeads l).flatMap Head.checks, escaping.fault? c = none) :
    Told (escaping.allStatements directed depth l)
      (((Element.allHeads l).flatMap fun k => k.needed ++ k.strings).filter isReserved) := by
  cases l with
  | nil => exact told_nil
  | cons e l =>
    simp only [Element.allHeads, List.flatMap_append, List.mem_append] at h
    have he := told_element directed depth fun c hc => h c (.inl hc)
    have hl := told_elements directed depth fun c hc => h c (.inr hc)
    rw [Element.allHeads, List.flatMap_append, List.filter_append]
    exact he.append hl

end

theorem tells_header (g : Graph) :
    Tells (escaping.header g) (g.headerWords ++ [g.id].filter isReserved) := by
  have hq := (tells_quote g.id).before (p := " \x7b") (by decide)
  have hw : Tells (if g.directed then "digraph" else "graph")
      [if g.directed then "digraph" else "graph"] := by
    cases g.directed <;> exact tells_bare (by decide)
  have hd := hw.separate (p := " ") (by decide) hq
  have hs : Tells "strict" ["strict"] := tells_bare (by decide)
  have hl := hs.separate (p := " ") (by decide) hd
  have hg : (if g.directed then "digraph " else "graph ") =
      (if g.directed then "digraph" else "graph") ++ " " := by
    cases g.directed <;> decide
  rw [header, hg, String.append_assoc, String.append_assoc, Graph.headerWords, List.append_assoc]
  cases g.strict with
  | true => exact hl
  | false =>
    rw [if_neg Bool.false_ne_true, if_neg Bool.false_ne_true, String.empty_append, List.nil_append]
    exact hd

end Wording

theorem Head.filter_needed (k : Head) : k.needed.filter isReserved = k.needed := by
  have hs : ["subgraph"].filter isReserved = ["subgraph"] := by decide
  cases k with
  | subgraph i t => exact hs
  | _ => rfl

namespace Graph

theorem filter_headerWords (g : Graph) : g.headerWords.filter isReserved = g.headerWords := by
  unfold headerWords
  cases g.strict <;> cases g.directed <;> decide

theorem keywordsOf_document {g : Graph} (y : Layout)
    (h : ∀ c ∈ g.checks, Wording.escaping.fault? c = none) :
    keywordsOf (y.document (Wording.escaping.graphStatements g)) = g.words.filter isReserved := by
  have hh := told_singleton (Wording.tells_header g) 0
  have hl := hh.append (Wording.told_elements g.directed 1 h)
  have ht := hl y _ _ (tells_separator (p := "\x7d") (by decide))
  rw [List.append_nil, List.append_assoc, ← List.filter_append] at ht
  rw [words, List.filter_append, filter_headerWords]
  exact ht.keywordsOf_eq

theorem filter_needed (g : Graph) : g.needed.filter isReserved = g.needed := by
  simp only [needed, List.filter_append, filter_headerWords, List.filter_flatMap,
    Head.filter_needed]

theorem words_perm (g : Graph) : g.words.Perm (g.needed ++ g.strings) := by
  have hk := List.flatMap_append_perm g.heads Head.needed Head.strings
  rw [words, needed, strings, List.append_assoc]
  exact ((hk.symm.cons g.id).trans List.perm_middle.symm).append_left g.headerWords

theorem filter_words_iff (g : Graph) :
    g.words.filter isReserved = g.needed ↔ ∀ s ∈ g.strings, isReserved s = false := by
  have hp := g.words_perm.filter isReserved
  rw [List.filter_append, filter_needed] at hp
  constructor
  · intro h s hs
    rw [h] at hp
    -- The needed words are all there already, so that no room is left for a string.
    have hl := hp.length_eq
    rw [List.length_append] at hl
    have hn : g.strings.filter isReserved = [] := List.eq_nil_of_length_eq_zero (by omega)
    exact Bool.not_eq_true _ ▸ List.filter_eq_nil_iff.mp hn s hs
  · intro h
    have hi : isReserved g.id = false := h _ List.mem_cons_self
    have hk : ∀ k ∈ g.heads, (k.needed ++ k.strings).filter isReserved = k.needed := by
      intro k hk
      have hs : k.strings.filter isReserved = [] := List.filter_eq_nil_iff.mpr fun s hs => by
        simp [h s (List.mem_cons_of_mem _ (List.mem_flatMap.mpr ⟨k, hk, hs⟩))]
      rw [List.filter_append, k.filter_needed, hs, List.append_nil]
    rw [words, needed, List.filter_append, filter_headerWords,
      List.filter_cons_of_neg (by simp [hi]), List.filter_flatMap, List.flatMap_congr hk]

/-- The keywords of a document are those that it needs and, in their places, all identifiers and
labels that are reserved words. For they are bare, and so none of them is quoted. Hence a document
has the keywords it needs and no others if and only if none of its strings is a reserved word. -/
theorem compile_reserved (g : Graph) (y : Layout) (t : String)
    (h : (g.compile { strings := .escaped, registry := .default, layout := y }).result = .ok t) :
    (∀ s, isReserved s = true → isBare s = true ∧ quote .escaped s = s) ∧
    keywordsOf t = g.words.filter isReserved ∧
    (keywordsOf t = g.needed ↔ ∀ s ∈ g.strings, isReserved s = false) := by
  obtain ⟨hc, rfl⟩ := result_eq_ok_iff.mp h
  have hk := keywordsOf_document y hc
  refine ⟨fun s hs => ?_, hk, hk ▸ g.filter_words_iff⟩
  have hb := isBare_of_isReserved hs
  exact ⟨hb, quote_eq_self hb .escaped⟩

/-- Reserved words in several cases, alone and as parts of other strings. -/
def shouting : Graph where
  id := "Digraph"
  elements := [
    .subgraph "STRICT" (.ofList [.label "Edge"]) [
      .node ⟨"a node", .ofList [.label "graph \"subgraph\"", .shape .box]⟩,
      .edge ⟨.named "node", .snapshot ⟨"nodes", .empty⟩, .ofList [.edgeStyle ⟨1⟩]⟩]]

def shoutingText : String :=
  "graph Digraph \x7b subgraph STRICT \x7b label=Edge; " ++
    "\"a node\" [label=\"graph \\\"subgraph\\\"\",shape=box]; node -- nodes [style=dashed]; \x7d \x7d"

theorem compile_shouting :
    (shouting.compile { strings := .escaped, registry := .default, layout := .flat }).result =
      .ok shoutingText ∧
    isReserved "STRICT" = true ∧ quote .escaped "STRICT" = "STRICT" ∧
    keywordsOf shoutingText = ["graph", "Digraph", "subgraph", "STRICT", "Edge", "node"] ∧
    keywordsOf shoutingText ≠ ["graph", "subgraph"] := by
  have h : (shouting.compile
      { strings := .escaped, registry := .default, layout := .flat }).result = .ok shoutingText :=
    result_eq_ok_iff.mpr ⟨by decide +kernel, by decide +kernel⟩
  have hs : isReserved "STRICT" = true := by decide
  obtain ⟨hq, hk, hn⟩ := compile_reserved shouting .flat _ h
  refine ⟨h, hs, (hq _ hs).2, hk.trans (by decide +kernel), fun he => ?_⟩
  exact absurd (hn.mp he "STRICT" (.tail _ (.head _))) (by rw [hs]; exact Bool.noConfusion)

/-- A node of this name turns into a keyword that the document does not need. -/
theorem compile_nodeWord :
    isBare "node" = true ∧ isReserved "node" = true ∧
    (compile { id := "G", elements := [.node ⟨"node", .empty⟩] }
        { strings := .escaped, registry := .default, layout := .flat }).result =
      .ok "graph G \x7b node; \x7d" ∧
    keywordsOf "graph G \x7b node; \x7d" = ["graph", "node"] ∧
    needed { id := "G", elements := [.node ⟨"node", .empty⟩] } = ["graph"] := by
  decide +kernel

end Graph

end DotGraph
