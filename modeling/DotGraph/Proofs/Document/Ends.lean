import DotGraph.Proofs.Document.Faults
import DotGraph.Proofs.Document.Flags
import DotGraph.Proofs.Document.Walk
import DotGraph.Proofs.Text.Grammar
set_option autoImplicit false

/-! Bare identifiers at the ends of edges. Two of the letters of names are white space as well. An
identifier made of these alone is written for a node, but cannot be the end of an edge. -/

namespace DotGraph

namespace Text

/-- Next line and no-break space. They are white space, and they are letters because the
block U+0080 to U+00FF is taken whole. -/
def isUnseen (c : Char) : Bool := c == '\u0085' || c == '\u00A0'

theorem isUnseen_iff (c : Char) : isUnseen c = true ↔ c.toNat = 0x85 ∨ c.toNat = 0xA0 := by
  have hl : c = '\u0085' ↔ c.toNat = 0x85 := Char.toNat_inj.symm
  have hs : c = '\u00A0' ↔ c.toNat = 0xA0 := Char.toNat_inj.symm
  simp only [isUnseen, Bool.or_eq_true, beq_iff_eq, hl, hs]

theorem isBareChar_iff (c : Char) : isBareChar c = true ↔
    isNameStart c = true ∨ 0x30 ≤ c.toNat ∧ c.toNat ≤ 0x39 ∨ c.toNat = 0x2E ∨ c.toNat = 0x2D := by
  have hp : c = '.' ↔ c.toNat = 0x2E := Char.toNat_inj.symm
  have hm : c = '-' ↔ c.toNat = 0x2D := Char.toNat_inj.symm
  have hd : c.isDigit = true ↔ 0x30 ≤ c.toNat ∧ c.toNat ≤ 0x39 := Char.isDigit_iff_toNat
  simp only [isBareChar, isNamePart, Bool.or_eq_true, beq_iff_eq, hp, hm, hd, or_assoc]

theorem isBlankChar_of_isUnseen {c : Char} (h : isUnseen c = true) : isBlankChar c = true := by
  simp only [isUnseen, Bool.or_eq_true, beq_iff_eq] at h
  rcases h with rfl | rfl <;> decide

theorem isNameStart_of_isUnseen {c : Char} (h : isUnseen c = true) : isNameStart c = true := by
  simp only [isUnseen, Bool.or_eq_true, beq_iff_eq] at h
  rcases h with rfl | rfl <;> decide

theorem isUnseen_of_isBareChar {c : Char} (hb : isBlankChar c = true) (h : isBareChar c = true) :
    isUnseen c = true := by
  simp only [isBareChar_iff, isNameStart_iff] at h
  simp only [isBlankChar, blankRanges, List.any_cons, List.any_nil, Bool.or_false,
    Bool.or_eq_true, decide_eq_true_eq] at hb
  rw [isUnseen_iff]
  omega

theorem isBlank_and_isBare_iff (s : String) :
    isBlank s = true ∧ isBare s = true ↔ s ≠ "" ∧ ∀ c ∈ s.toList, isUnseen c = true := by
  rw [isBlank, List.all_eq_true]
  constructor
  · intro h
    obtain ⟨hb, h⟩ := h
    have hn : isBare "" = false := by decide
    refine ⟨?_, fun c hc => isUnseen_of_isBareChar (hb c hc) (isBareChar_of_mem h c hc)⟩
    rintro rfl
    rw [hn] at h
    cases h
  · intro h
    obtain ⟨hn, h⟩ := h
    refine ⟨fun c hc => isBlankChar_of_isUnseen (h c hc), (isBare_iff s).mpr (.inl ?_)⟩
    cases hs : s.toList with
    | nil => exact absurd (String.toList_eq_nil_iff.mp hs) hn
    | cons c t =>
      rw [hs] at h
      refine ⟨c, t, rfl, isNameStart_of_isUnseen (h c List.mem_cons_self), fun d hd => ?_⟩
      simp [isNamePart, isNameStart_of_isUnseen (h d (List.mem_cons_of_mem c hd))]

theorem isBlank_of_isBare {s : String} (h : isBare s = true) :
    isBlank s = s.toList.all isUnseen := by
  have hi := isBlank_and_isBare_iff s
  have hn : s ≠ "" := by
    rintro rfl
    exact absurd h (by decide)
  rw [Bool.eq_iff_iff, List.all_eq_true]
  simpa [h, hn] using hi

end Text

open Text

namespace Wording

variable (w : Wording)

theorem quote_of_isBare {i : String} (h : isBare i = true) : w.quote i = i :=
  quote_eq_self h w.strings

theorem endpoint_of_isBare {e : Endpoint} (h : isBare e.id = true) :
    w.endpoint e = if e.id.toList.all isUnseen then .fail .emptyEndpoint else pure e.id := by
  rw [endpoint, isBlank_of_isBare h, w.quote_of_isBare h]

theorem exists_end_of_fault {c : Check} (h : w.fault? c = some .emptyEndpoint) :
    ∃ e, c = .endpoint e ∧ isBlank e.id = true := by
  cases c with
  | endpoint e =>
    cases hb : isBlank e.id with
    | true => exact ⟨e, rfl, hb⟩
    | false =>
      rw [(w.fault?_endpoint_eq_none_iff e).mpr hb] at h
      cases h
  | rendered a =>
    simp only [fault?] at h
    split at h
    · split at h <;> cases h
    · cases h
  | own a => cases a <;> cases h

end Wording

namespace Graph

theorem mem_heads_of_mem_edges {g : Graph} {e : Edge} (h : e ∈ g.edges) : .edge e ∈ g.heads := by
  obtain ⟨k, hk, he⟩ := List.mem_filterMap.mp h
  cases k with
  | edge d => cases he; exact hk
  | node n => cases he
  | subgraph i t => cases he

/-- Wherever an edge stands, a bare identifier at one of its ends is not at fault and is
written as it is, unless it is made of the two letters that are white space. Such identifiers
are the only bare ones that are blank. -/
theorem compile_ends (s : Settings) :
    (∀ j, isBlank j = true ∧ isBare j = true ↔ j ≠ "" ∧ ∀ c ∈ j.toList, isUnseen c = true) ∧
    (∀ i, isBare i = true → ∀ g : Graph, g.elements = [.node ⟨i, .empty⟩] →
      (g.compile s).result = .ok (s.layout.document [⟨0, s.header g⟩, ⟨1, i ++ ";"⟩])) ∧
    (∀ e : Endpoint, isBare e.id = true →
      s.endpoint e = if e.id.toList.all isUnseen then .fail .emptyEndpoint else pure e.id) ∧
    (∀ g : Graph, (g.compile s).result = .error .emptyEndpoint →
      ∃ pre e post, g.checks = pre ++ .endpoint e :: post ∧
        (∀ c ∈ pre, s.fault? c = none) ∧
        (isBare e.id = true → ∀ c ∈ e.id.toList, isUnseen c = true)) ∧
    ∀ (g : Graph) (t : String), (g.compile s).result = .ok t →
      ∃ l : List Statement,
        (s.toWording.graph g).result = .ok l ∧ t = s.layout.document l ∧
        ∀ e ∈ g.edges, ∃ depth left right block,
          ⟨depth, left ++ Wording.edgeOperator g.directed ++ right ++ block ++ ";"⟩ ∈ l ∧
          (isBare e.left.id = true → left = e.left.id) ∧
          (isBare e.right.id = true → right = e.right.id) := by
  refine ⟨isBlank_and_isBare_iff, ?_, fun e => s.endpoint_of_isBare, ?_, ?_⟩
  · intro i hi g hg
    have hn : s.nodeText ⟨i, .empty⟩ = i ++ ";" := by
      rw [Wording.nodeText, s.quote_of_isBare hi]
      simp [Attributes.empty, Wording.bracketed]
    refine result_eq_ok_iff.mpr ⟨?_, ?_⟩
    · simp [checks, heads, hg, Element.allHeads, Element.heads, Head.checks, Attributes.empty]
    · simp [Wording.graphStatements, hg, Wording.allStatements, Wording.statements, hn]
  · intro g h
    rw [result_eq_error_iff, List.findSome?_eq_some_iff] at h
    obtain ⟨pre, c, post, hl, hc, hp⟩ := h
    obtain ⟨e, rfl, hb⟩ := s.exists_end_of_fault hc
    exact ⟨pre, e, post, hl, hp, fun hi => ((isBlank_and_isBare_iff e.id).mp ⟨hb, hi⟩).2⟩
  · intro g t h
    obtain ⟨hc, rfl⟩ := result_eq_ok_iff.mp h
    refine ⟨_, Wording.result_graph_eq_ok_iff.mpr ⟨hc, rfl⟩, rfl, fun e he => ?_⟩
    obtain ⟨depth, hd⟩ := s.toWording.headStatements_infix_all g.directed 1
      (mem_heads_of_mem_edges he)
    exact ⟨depth, s.quote e.left.id, s.quote e.right.id,
      Wording.bracketed (e.attributes.items.map s.fragment),
      List.mem_cons_of_mem _ (hd.subset List.mem_cons_self), s.quote_of_isBare, s.quote_of_isBare⟩

/-- White space that is part of a longer name, and a copy that could not be written as a node. -/
def accentedEdge : Edge where
  left := .named "\u00A0é"
  right := .snapshot ⟨"x\u0085", .ofList [.width ⟨0x7FF8000000000000#64⟩]⟩
  attributes := .ofList [.label "a"]

def accented : Graph where
  id := "G"
  directed := true
  elements := [.subgraph "s" .empty [.edge accentedEdge]]

theorem compile_accented :
    (accented.compile {}).result =
      .ok "digraph G \x7b subgraph s \x7b \u00A0é -> x\u0085 [label=a]; \x7d \x7d" ∧
    Wording.endpoint {} accentedEdge.right = pure "x\u0085" ∧
    Wording.endpoint {} (.named "\u00A0\u0085") = .fail .emptyEndpoint ∧
    ∃ l depth block, (Wording.graph {} accented).result = .ok l ∧
      ⟨depth, "\u00A0é" ++ " -> " ++ "x\u0085" ++ block ++ ";"⟩ ∈ l := by
  have h : (accented.compile {}).result =
      .ok "digraph G \x7b subgraph s \x7b \u00A0é -> x\u0085 [label=a]; \x7d \x7d" :=
    result_eq_ok_iff.mpr ⟨by decide +kernel, by decide +kernel⟩
  obtain ⟨-, -, he, -, hd⟩ := compile_ends {}
  obtain ⟨l, hl, -, hm⟩ := hd accented _ h
  obtain ⟨depth, left, right, block, hs, hleft, hright⟩ := hm accentedEdge (.head _)
  rw [hleft (by decide), hright (by decide)] at hs
  exact ⟨h, he accentedEdge.right (by decide), he (.named "\u00A0\u0085") (by decide), l, depth, block,
    hl, hs⟩

/-- A no-break space alone is bare and blank, so that it is written for a node and refused at
the end of an edge. -/
theorem compile_noBreak :
    isBare "\u00A0" = true ∧ isBlank "\u00A0" = true ∧
    (compile { id := "G", elements := [.node ⟨"\u00A0", .empty⟩] } {}).result =
      .ok "graph G \x7b \u00A0; \x7d" ∧
    (compile { id := "G", elements := [.node ⟨"\u00A0", .empty⟩,
        .edge ⟨.named "\u00A0", .named "b", .empty⟩] } {}).result = .error .emptyEndpoint ∧
    (compile { id := "G", elements := [
        .edge ⟨.named "b", .snapshot ⟨"\u00A0", .empty⟩, .empty⟩] } {}).result =
      .error .emptyEndpoint := by decide +kernel

end Graph
end DotGraph
