import DotGraph.Proofs.Attribute.Text
import DotGraph.Proofs.Document.Faults
import DotGraph.Proofs.Reading.Outline
set_option autoImplicit false

namespace DotGraph

open Text

/-- The value as it is read, without the quotes around it. -/
def Attribute.content : Attribute → String
  | .color c | .fontColor c | .fillColor c => c.hex
  | .label s | .custom _ s => normalize s
  | .shape s => s.name
  | .nodeStyle s => s.text
  | .edgeStyle s => s.text
  | .subgraphStyle s => s.text
  | .width v | .height v | .penWidth v => v.text
  | .arrowHead a | .arrowTail a => a.name
  | .position p => p.x.text ++ "," ++ p.y.text ++ "!"

def Attribute.pair (a : Attribute) : Pair := (a.kind.key, a.content)

def Attributes.pairs (t : Attributes) : List Pair := t.items.map Attribute.pair

mutual

/-- Copies of nodes at the ends of edges are known by their identifiers alone. -/
def Element.outline : Element → Outline.Element
  | .node n => .node (normalize n.id) n.attributes.pairs
  | .edge e => .edge (normalize e.left.id) (normalize e.right.id) e.attributes.pairs
  | .subgraph i t l => .subgraph (normalize i) t.pairs (Element.outlines l)

def Element.outlines : List Element → List Outline.Element
  | [] => []
  | e :: l => e.outline :: Element.outlines l

end

def Graph.outline (g : Graph) : Outline :=
  ⟨g.strict, g.directed, normalize g.id, Element.outlines g.elements⟩

/-- The text is read as these tokens, whatever follows it. -/
def Reads (s : String) (ts : List Token) : Prop :=
  ∀ r, tokens? (s.toList ++ r) = (tokens? r).map (ts ++ ·)

/-- A bare identifier in front of this text ends there. -/
def Delimits (s : String) : Prop := ∃ c t, s.toList = c :: t ∧ isBareChar c = false

theorem Reads.append {s t : String} {ts us : List Token} (hs : Reads s ts) (ht : Reads t us) :
    Reads (s ++ t) (ts ++ us) := by
  intro r
  rw [String.toList_append, List.append_assoc, hs, ht, Option.map_map]
  simp [Function.comp_def]

theorem Delimits.append {s : String} (h : Delimits s) (t : String) : Delimits (s ++ t) := by
  obtain ⟨c, u, hs, hc⟩ := h
  exact ⟨c, u ++ t.toList, by simp [hs], hc⟩

theorem Delimits.ends {s : String} (h : Delimits s) (r : List Char) : Ends (s.toList ++ r) := by
  obtain ⟨c, u, hs, hc⟩ := h
  rw [hs]
  exact hc

theorem reads_empty : Reads "" [] := by
  intro r
  simp

theorem reads_gap {c : Char} (h : Token.isGap c = true) : Reads (String.singleton c) [] := by
  intro r
  simp [tokens?_gap h]

theorem reads_mark {c : Char} {t : Token} (h : ∀ r, Token.first? (c :: r) = some (t, r)) :
    Reads (String.singleton c) [t] := by
  intro r
  simpa using tokens?_first (h r)

theorem reads_quote_append (s : String) {t : String} {ts : List Token} (ht : Reads t ts)
    (hd : Delimits t) : Reads (quote .escaped s ++ t) (.ident (normalize s) :: ts) := by
  intro r
  rw [String.toList_append, List.append_assoc, tokens?_quote s (hd.ends r), ht, Option.map_map]
  rfl

theorem reads_word {w : String} (h : isBare w = true) : Reads (w ++ " ") [.ident w] := by
  intro r
  have hr : Ends (' ' :: r) := show isBareChar ' ' = false by decide
  simp only [String.toList_append, List.append_assoc]
  rw [show " ".toList ++ r = ' ' :: r from rfl, tokens?_bare h hr, tokens?_gap rfl]
  rfl

theorem reads_semicolon : Reads ";" [.semicolon] := reads_mark (c := ';') fun _ => rfl

theorem delimits_semicolon : Delimits ";" := ⟨';', [], rfl, by decide⟩

theorem reads_operator (directed : Bool) :
    Reads (Wording.edgeOperator directed) [.operator directed] := by
  intro r
  cases directed with
  | false =>
    have h : tokens? ('-' :: '-' :: ' ' :: r) = _ := tokens?_first rfl
    rw [show (Wording.edgeOperator false).toList = [' ', '-', '-', ' '] from rfl]
    simp only [List.cons_append, List.nil_append, tokens?_gap (c := ' ') rfl, h]
  | true =>
    have h : tokens? ('-' :: '>' :: ' ' :: r) = _ := tokens?_first rfl
    rw [show (Wording.edgeOperator true).toList = [' ', '-', '>', ' '] from rfl]
    simp only [List.cons_append, List.nil_append, tokens?_gap (c := ' ') rfl, h]

theorem reads_openBrace : Reads " \x7b" [.openBrace] :=
  (reads_gap (c := ' ') rfl).append (reads_mark (c := '\x7b') fun _ => rfl)

theorem delimits_openBrace : Delimits " \x7b" := ⟨' ', ['\x7b'], rfl, by decide⟩

theorem reads_closeBrace : Reads "\x7d" [.closeBrace] := reads_mark (c := '\x7d') fun _ => rfl

theorem reads_bare_append {s t : String} {ts : List Token} (h : isBare s = true)
    (ht : Reads t ts) (hd : Delimits t) : Reads (s ++ t) (.ident s :: ts) := by
  have hq := reads_quote_append s ht hd
  rwa [quote_eq_self h, (isPlain_of_isBare h).normalize] at hq

theorem reads_quoted_append {s t : String} {ts : List Token} (h : IsPlain s) (ht : Reads t ts) :
    Reads ("\"" ++ s ++ "\"" ++ t) (.ident s :: ts) := by
  intro r
  rw [String.toList_append, List.append_assoc, tokens?_quoted h.unquote?, ht, Option.map_map]
  rfl

theorem reads_plain_append {s t : String} {ts : List Token} (h : IsPlain s)
    (ht : Reads t ts) (hd : Delimits t) : Reads (quote .escaped s ++ t) (.ident s :: ts) := by
  have hq := reads_quote_append s ht hd
  rwa [h.normalize] at hq

theorem reads_value_append {a : Attribute} (hf : a.isFinite = true) {t : String}
    {ts : List Token} (ht : Reads t ts) (hd : Delimits t) :
    Reads (a.valueText .escaped ++ t) (.ident a.content :: ts) := by
  have hn : ∀ v ∈ a.numbers, v.isFinite = true := List.all_eq_true.mp hf
  cases a with
  | color c => exact reads_quoted_append c.isPlain_hex ht
  | fontColor c => exact reads_quoted_append c.isPlain_hex ht
  | fillColor c => exact reads_quoted_append c.isPlain_hex ht
  | label s => exact reads_quote_append s ht hd
  | shape s => exact reads_bare_append s.isBare_name ht hd
  | nodeStyle s => exact reads_plain_append s.isPlain_text ht hd
  | edgeStyle s => exact reads_plain_append s.isPlain_text ht hd
  | subgraphStyle s => exact reads_plain_append s.isPlain_text ht hd
  | width v => exact reads_bare_append (v.isBare_text (hn v (.head _))) ht hd
  | height v => exact reads_bare_append (v.isBare_text (hn v (.head _))) ht hd
  | penWidth v => exact reads_bare_append (v.isBare_text (hn v (.head _))) ht hd
  | arrowHead s => exact reads_bare_append s.isBare_name ht hd
  | arrowTail s => exact reads_bare_append s.isBare_name ht hd
  | position p =>
    have hp := Point.isPlain_text (hn p.x (.head _)) (hn p.y (.tail _ (.head _)))
    have hq := reads_quoted_append hp ht
    have he : "!\"" = "!" ++ "\"" := rfl
    simpa only [Attribute.valueText, Attribute.content, he, String.append_assoc] using hq
  | custom n s => exact reads_quote_append s ht hd

theorem reads_text_append {a : Attribute} (hk : ∀ n, a.kind ≠ .custom n) (hf : a.isFinite = true)
    {t : String} {ts : List Token} (ht : Reads t ts) (hd : Delimits t) :
    Reads (a.text .escaped ++ t) (Outline.pairTokens a.pair ++ ts) := by
  have he : Reads "=" [.equals] := reads_mark (c := '=') fun _ => rfl
  have hde : Delimits "=" := ⟨'=', [], rfl, by decide⟩
  have hv := he.append (reads_value_append hf ht hd)
  have hr := reads_bare_append (Attribute.Kind.isBare_key hk) hv (hde.append _)
  rw [Attribute.text, String.append_assoc, String.append_assoc]
  exact hr

/-- An attribute that can be read back from its text. -/
def Attribute.Readable (a : Attribute) : Prop := (∀ n, a.kind ≠ .custom n) ∧ a.isFinite = true

theorem reads_list {a : Attribute} {l : List Attribute} (ha : a.Readable)
    (hl : ∀ b ∈ l, b.Readable) {t : String} {ts : List Token} (ht : Reads t ts) :
    Reads (",".intercalate ((a :: l).map (Attribute.text .escaped)) ++ ("]" ++ t))
      (Outline.listTokens ((a :: l).map Attribute.pair) ++ ts) := by
  have hb : Reads ("]" ++ t) (.closeBracket :: ts) :=
    (reads_mark (c := ']') fun _ => rfl).append ht
  induction l generalizing a with
  | nil =>
    have hd : Delimits ("]" ++ t) := Delimits.append ⟨']', [], rfl, by decide⟩ t
    have hr := reads_text_append ha.1 ha.2 hb hd
    simpa [Outline.listTokens] using hr
  | cons b l ih =>
    have hc : Reads "," [.comma] := reads_mark (c := ',') fun _ => rfl
    have hd : Delimits "," := ⟨',', [], rfl, by decide⟩
    -- The comma ends the value, even if it is bare.
    have hi := ih (hl b (.head _)) (fun c hc => hl c (.tail _ hc))
    have hr := reads_text_append ha.1 ha.2 (hc.append hi) (hd.append _)
    simpa [Outline.listTokens, String.intercalate_cons_cons, String.append_assoc] using hr

theorem reads_end {l : List Attribute} (hl : ∀ a ∈ l, a.Readable) :
    Reads (Wording.bracketed (l.map (Attribute.text .escaped)) ++ ";")
      (Outline.endTokens (l.map Attribute.pair)) := by
  cases l with
  | nil => exact reads_semicolon
  | cons a l =>
    have hb : Reads " [" [.openBracket] :=
      (reads_gap (c := ' ') rfl).append (reads_mark (c := '[') fun _ => rfl)
    have hr := hb.append (reads_list (hl a (.head _)) (fun b hb => hl b (.tail _ hb))
      reads_semicolon)
    simpa [Wording.bracketed, Outline.endTokens, String.append_assoc] using hr

theorem delimits_end (l : List String) : Delimits (Wording.bracketed l ++ ";") := by
  cases l with
  | nil => exact delimits_semicolon
  | cons s l =>
    have hd : Delimits " [" := ⟨' ', ['['], rfl, by decide⟩
    exact ((hd.append _).append _).append _

namespace Wording

theorem readable_of_rendered {a : Attribute} (h : escaping.fault? (.rendered a) = none) :
    a.Readable ∧ escaping.fragment a = a.text .escaped := by
  obtain ⟨hf, hk⟩ := (fault?_rendered_eq_none_iff rfl a).mp h
  refine ⟨⟨?_, hf⟩, ?_⟩
  · intro n hn
    rw [hn] at hk
    simp [Registry.builtinKinds] at hk
  · rw [fragment_default rfl, if_pos hk]
    rfl

theorem readable_of_own {a : Attribute} (h : escaping.fault? (.own a) = none) : a.Readable := by
  have hk := (fault?_own_eq_none_iff a).mp h
  constructor
  · intro n hn
    rw [hn] at hk
    cases hk
  · cases a with
    | color _ | label _ | subgraphStyle _ => rfl
    | _ => cases hk

theorem reads_attributes {t : Attributes}
    (h : ∀ a ∈ t.items, escaping.fault? (.rendered a) = none) :
    Reads (bracketed (t.items.map escaping.fragment) ++ ";") (Outline.endTokens t.pairs) := by
  have hm : t.items.map escaping.fragment = t.items.map (Attribute.text .escaped) :=
    List.map_congr_left fun a ha => (readable_of_rendered (h a ha)).2
  rw [hm]
  exact reads_end fun a ha => (readable_of_rendered (h a ha)).1

theorem reads_node {n : Node} (h : ∀ c ∈ (Head.node n).checks, escaping.fault? c = none) :
    Reads (escaping.nodeText n)
      (.ident (normalize n.id) :: Outline.endTokens n.attributes.pairs) := by
  have ha := reads_attributes fun a ha => h _ (List.mem_map_of_mem ha)
  rw [nodeText, String.append_assoc]
  exact reads_quote_append n.id ha (delimits_end _)

theorem delimits_operator (directed : Bool) (s : String) :
    Delimits (edgeOperator directed ++ s) := by
  have h : Delimits (edgeOperator directed) := by
    cases directed
    · exact ⟨' ', ['-', '-', ' '], rfl, by decide⟩
    · exact ⟨' ', ['-', '>', ' '], rfl, by decide⟩
  exact h.append s

theorem reads_edge {directed : Bool} {e : Edge}
    (h : ∀ c ∈ (Head.edge e).checks, escaping.fault? c = none) :
    Reads (escaping.edgeText directed e)
      (.ident (normalize e.left.id) :: .operator directed :: .ident (normalize e.right.id) ::
        Outline.endTokens e.attributes.pairs) := by
  have ha := reads_attributes fun a ha => h _ (.tail _ (.tail _ (List.mem_map_of_mem ha)))
  have hr := reads_quote_append e.right.id ha (delimits_end _)
  have ho := (reads_operator directed).append hr
  have hl := reads_quote_append e.left.id ho (delimits_operator directed _)
  simp only [edgeText, String.append_assoc]
  exact hl

theorem reads_own {a : Attribute} (h : escaping.fault? (.own a) = none) :
    Reads (escaping.ownText a) (Outline.pairTokens a.pair ++ [.semicolon]) := by
  obtain ⟨hk, hf⟩ := readable_of_own h
  exact reads_text_append hk hf reads_semicolon delimits_semicolon

theorem reads_opening (i : String) :
    Reads (escaping.opening i) [.ident "subgraph", .ident (normalize i), .openBrace] := by
  have hw : Reads ("subgraph" ++ " ") [.ident "subgraph"] := reads_word (by decide)
  have hr := hw.append (reads_quote_append i reads_openBrace delimits_openBrace)
  have he : "subgraph " = "subgraph" ++ " " := rfl
  rw [opening, he, String.append_assoc]
  exact hr

/-- Neither layout adds tokens. -/
theorem reads_line {s : String} {ts : List Token} (h : Reads s ts) (y : Layout) (depth : Nat) :
    Reads (y.line ⟨depth, s⟩) ts := by
  cases y with
  | flat => simpa [Layout.line] using h.append (reads_gap (c := ' ') rfl)
  | indented =>
    have hi : Reads (indent depth) [] := by
      intro r
      rw [indent, String.toList_ofList]
      induction 4 * depth with
      | zero => simp
      | succ n ih => rw [List.replicate_succ, List.cons_append, tokens?_gap rfl, ih]
    have hr := (hi.append h).append (reads_gap (c := '\n') rfl)
    simpa [Layout.line] using hr

theorem reads_lines_append {y : Layout} {l m : List Statement} {ts us : List Token}
    (hl : Reads (y.lines l) ts) (hm : Reads (y.lines m) us) :
    Reads (y.lines (l ++ m)) (ts ++ us) := by
  rw [Layout.lines_append]
  exact hl.append hm

theorem reads_lines_singleton {s : String} {ts : List Token} (h : Reads s ts) (y : Layout)
    (depth : Nat) : Reads (y.lines [⟨depth, s⟩]) ts := by
  simpa [Layout.lines] using reads_line h y depth

theorem reads_owns {l : List Attribute} (h : ∀ a ∈ l, escaping.fault? (.own a) = none)
    (y : Layout) (depth : Nat) :
    Reads (y.lines ((l.map escaping.ownText).map (Statement.mk depth)))
      (Outline.ownTokens (l.map Attribute.pair)) := by
  induction l with
  | nil => exact reads_empty
  | cons a l ih =>
    have ha := reads_lines_singleton (reads_own (h a (.head _))) y depth
    have hl := ih fun b hb => h b (.tail _ hb)
    simpa [Outline.ownTokens] using reads_lines_append ha hl

mutual

theorem reads_element {e : Element} (y : Layout) (directed : Bool) (depth : Nat)
    (h : ∀ c ∈ e.heads.flatMap Head.checks, escaping.fault? c = none) :
    Reads (y.lines (escaping.statements directed depth e)) (e.outline.tokens directed) := by
  cases e with
  | node n =>
    simp only [Element.heads, List.flatMap_cons, List.flatMap_nil, List.append_nil] at h
    exact reads_lines_singleton (reads_node h) y depth
  | edge e =>
    simp only [Element.heads, List.flatMap_cons, List.flatMap_nil, List.append_nil] at h
    exact reads_lines_singleton (reads_edge h) y depth
  | subgraph i t l =>
    simp only [Element.heads, List.flatMap_cons, List.mem_append] at h
    have ho := reads_lines_singleton (reads_opening i) y depth
    have ht := reads_owns (fun a ha => h _ (.inl (List.mem_map_of_mem ha))) y (depth + 1)
    have hl := reads_elements y directed (depth + 1) fun c hc => h c (.inr hc)
    have hc := reads_lines_singleton reads_closeBrace y depth
    have hr := reads_lines_append ho (reads_lines_append (reads_lines_append ht hl) hc)
    simpa only [statements, Element.outline, Outline.Element.tokens, Attributes.pairs,
      List.cons_append, List.nil_append] using hr

theorem reads_elements {l : List Element} (y : Layout) (directed : Bool) (depth : Nat)
    (h : ∀ c ∈ (Element.allHeads l).flatMap Head.checks, escaping.fault? c = none) :
    Reads (y.lines (escaping.allStatements directed depth l))
      (Outline.Element.allTokens directed (Element.outlines l)) := by
  cases l with
  | nil => exact reads_empty
  | cons e l =>
    simp only [Element.allHeads, List.flatMap_append, List.mem_append] at h
    have he := reads_element y directed depth fun c hc => h c (.inl hc)
    have hl := reads_elements y directed depth fun c hc => h c (.inr hc)
    rw [allStatements, Element.outlines, Outline.Element.allTokens]
    exact reads_lines_append he hl

end

theorem reads_header (g : Graph) :
    Reads (escaping.header g)
      ((if g.strict then [.ident "strict"] else []) ++
        [.ident (Outline.graphWord g.directed), .ident (normalize g.id), .openBrace]) := by
  have hs : Reads (if g.strict then "strict " else "")
      (if g.strict then [.ident "strict"] else []) := by
    cases g.strict with
    | false => exact reads_empty
    | true => exact reads_word (w := "strict") (by decide)
  have hd : Reads (if g.directed then "digraph " else "graph ")
      [.ident (Outline.graphWord g.directed)] := by
    cases g.directed with
    | false => exact reads_word (w := "graph") (by decide)
    | true => exact reads_word (w := "digraph") (by decide)
  have hi := reads_quote_append g.id reads_openBrace delimits_openBrace
  have hr := (hs.append hd).append hi
  rw [header, String.append_assoc]
  rw [List.append_assoc] at hr
  exact hr

end Wording

theorem Graph.reads_document {g : Graph} (y : Layout)
    (h : ∀ c ∈ g.checks, Wording.escaping.fault? c = none) :
    Reads (y.document (Wording.escaping.graphStatements g)) g.outline.tokens := by
  have hh := Wording.reads_lines_singleton (Wording.reads_header g) y 0
  have hl := Wording.reads_elements y g.directed 1 h
  have hr := (Wording.reads_lines_append hh hl).append reads_closeBrace
  rw [List.singleton_append, List.append_assoc, List.append_assoc] at hr
  exact hr

/-- The text of a graph is read back as its outline. -/
theorem Graph.ofString?_compile (g : Graph) (y : Layout) (t : String)
    (h : (g.compile { strings := .escaped, registry := .default, layout := y }).result = .ok t) :
    Outline.ofString? t = some g.outline := by
  obtain ⟨hc, rfl⟩ := result_eq_ok_iff.mp h
  have hr : tokens? (y.document (Wording.escaping.graphStatements g)).toList =
      some g.outline.tokens := by
    have hn := reads_document y hc []
    rwa [List.append_nil, tokens?, Option.map_some, List.append_nil] at hn
  exact (congrArg (Option.bind · Outline.ofTokens?) hr).trans (Outline.ofTokens?_tokens _)

/-- Keywords and punctuation in the places of identifiers and labels. -/
def Graph.keywords : Graph where
  id := "strict"
  directed := true
  strict := true
  elements := [
    .subgraph "graph" (.ofList [.label "a;\x7d"]) [.node ⟨"subgraph", .ofList [.shape .box]⟩],
    .edge ⟨.named "->", .snapshot ⟨"x\r\ny", .empty⟩, .ofList [.label "\"]\\"]⟩]

def Graph.keywordsText : String :=
  "strict digraph strict \x7b subgraph graph \x7b label=\"a;\x7d\"; " ++
    "subgraph [shape=box]; \x7d \"->\" -> \"x\\ny\" [label=\"\\\"]\\\\\"]; \x7d"

theorem Graph.ofString?_keywords :
    (keywords.compile { strings := .escaped, registry := .default, layout := .flat }).result =
        .ok keywordsText ∧
      Outline.ofString? keywordsText = some ⟨true, true, "strict", [
        .subgraph "graph" [("label", "a;\x7d")] [.node "subgraph" [("shape", "box")]],
        .edge "->" "x\ny" [("label", "\"]\\")]]⟩ := by
  have h : (keywords.compile
      { strings := .escaped, registry := .default, layout := .flat }).result =
        .ok keywordsText := by decide +kernel
  exact ⟨h, keywords.ofString?_compile .flat keywordsText h⟩

end DotGraph
