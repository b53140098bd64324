import DotGraph.Document.Compile
set_option autoImplicit false

/-! The walk over a graph in document order. Every element announces itself, and then its checks are
made one after another. A graph compiles to this walk up to the first check that fails, followed by
statements that depend on no check. -/

namespace DotGraph

/-- An element without the elements inside it. -/
inductive Head where
  | node (node : Node)
  | edge (edge : Edge)
  | subgraph (id : String) (attributes : Attributes)

/-- What may end the work. Attributes of nodes and edges are checked otherwise than
those of subgraphs. -/
inductive Check where
  | endpoint (endpoint : Endpoint)
  | rendered (value : Attribute)
  | own (value : Attribute)

inductive Step where
  | announce (event : Event)
  | check (check : Check)

namespace Head

def event : Head → Event
  | .node n => .node n.id
  | .edge e => .edge e.left.id e.right.id
  | .subgraph i _ => .subgraph i

def checks : Head → List Check
  | .node n => n.attributes.items.map .rendered
  | .edge e => .endpoint e.left :: .endpoint e.right :: e.attributes.items.map .rendered
  | .subgraph _ t => t.items.map .own

def steps (h : Head) : List Step := .announce h.event :: h.checks.map .check

end Head

mutual

def Element.heads : Element → List Head
  | .node n => [.node n]
  | .edge e => [.edge e]
  | .subgraph i t l => .subgraph i t :: Element.allHeads l

def Element.allHeads : List Element → List Head
  | [] => []
  | e :: l => e.heads ++ Element.allHeads l

end

theorem Element.allHeads_append (l m : List Element) :
    Element.allHeads (l ++ m) = Element.allHeads l ++ Element.allHeads m := by
  induction l with
  | nil => rfl
  | cons e l ih => simp [Element.allHeads, ih]

namespace Graph

def heads (g : Graph) : List Head := Element.allHeads g.elements

def event (g : Graph) : Event := .graph g.id g.elements.length g.directed

def checks (g : Graph) : List Check := g.heads.flatMap Head.checks

def steps (g : Graph) : List Step := .announce g.event :: g.heads.flatMap Head.steps

end Graph

namespace Logged

variable {α β : Type}

theorem result_map (f : α → β) (x : Logged α) : (f <$> x).result = x.result.map f := rfl

theorem events_map (f : α → β) (x : Logged α) : (f <$> x).events = x.events := rfl

end Logged

namespace Wording

variable (w : Wording)

def fault? : Check → Option Fault
  | .endpoint e => if e.id.toList.all Text.isBlankChar then some .emptyEndpoint else none
  | .rendered a =>
    if a.isFinite then
      if w.registry.entries.all fun r => (r a w.strings).isNone then some (.noRenderer a.kind)
      else none
    else some (.notFinite a.kind)
  | .own (.subgraphStyle _) | .own (.color _) | .own (.label _) => none
  | .own a => some (.unsupportedInSubgraph a.kind)

/-- The text of an attribute that some renderer answers for. -/
def fragment (a : Attribute) : String := (w.registry.render a w.strings).getD ""

/-- Logs what there is to log of one step, unless its check fails. -/
def take : Step → Logged Unit
  | .announce e => Logged.note e
  | .check c =>
    match w.fault? c, c with
    | some f, _ => .fail f
    | none, .rendered a => Logged.note (.rendered a.kind (w.fragment a))
    | none, _ => pure ()

def follow : List Step → Logged Unit
  | [] => pure ()
  | c :: l => do
    w.take c
    follow l

theorem follow_append (l m : List Step) :
    w.follow (l ++ m) = (do w.follow l; w.follow m) := by
  induction l with
  | nil => simp [follow]
  | cons c l ih => simp [follow, ih]

def stepFault? : Step → Option Fault
  | .announce _ => none
  | .check c => w.fault? c

def stepEvent? : Step → Option Event
  | .announce e => some e
  | .check (.rendered a) => some (.rendered a.kind (w.fragment a))
  | .check _ => none

theorem take_of_fault {c : Step} {f : Fault} (h : w.stepFault? c = some f) :
    w.take c = .fail f := by
  cases c with
  | announce e => simp [stepFault?] at h
  | check c => simp only [stepFault?] at h; simp [take, h]

theorem take_of_no_fault {c : Step} (h : w.stepFault? c = none) :
    w.take c = ⟨(w.stepEvent? c).toList, .ok ()⟩ := by
  cases c with
  | announce e => rfl
  | check c =>
    simp only [stepFault?] at h
    cases c <;> simp [take, h, stepEvent?, Logged.note, pure]

theorem follow_of_fault {c : Step} {f : Fault} (h : w.stepFault? c = some f) (l : List Step) :
    w.follow (c :: l) = .fail f := by
  rw [follow, take_of_fault w h]
  rfl

theorem follow_of_no_fault {c : Step} (h : w.stepFault? c = none) (l : List Step) :
    w.follow (c :: l) =
      ⟨(w.stepEvent? c).toList ++ (w.follow l).events, (w.follow l).result⟩ := by
  rw [follow, take_of_no_fault w h]
  rfl

/-- A run ends with the first fault on the way, or else well. -/
theorem result_follow (l : List Step) :
    (w.follow l).result =
      match l.findSome? w.stepFault? with
      | none => .ok ()
      | some f => .error f := by
  induction l with
  | nil => rfl
  | cons c l ih =>
    cases h : w.stepFault? c with
    | some f => rw [follow_of_fault w h, List.findSome?_cons, h]; rfl
    | none => rw [follow_of_no_fault w h, List.findSome?_cons, h, ih]

theorem follow_of_passes {l : List Step} (h : ∀ c ∈ l, w.stepFault? c = none) :
    w.follow l = ⟨l.filterMap w.stepEvent?, .ok ()⟩ := by
  induction l with
  | nil => rfl
  | cons c l ih =>
    rw [w.follow_of_no_fault (h c List.mem_cons_self), ih fun b hb => h b (List.mem_cons_of_mem c hb)]
    cases hc : w.stepEvent? c <;> simp [hc]

/-- A run takes the steps in front of the first one that fails, and logs what they log. -/
theorem events_follow_cut {pre post : List Step} {c : Step} {f : Fault}
    (hp : ∀ b ∈ pre, w.stepFault? b = none) (hc : w.stepFault? c = some f) :
    (w.follow (pre ++ c :: post)).events = pre.filterMap w.stepEvent? := by
  rw [follow_append, w.follow_of_passes hp, w.follow_of_fault hc]
  exact List.append_nil _

def nodeText (n : Node) : String :=
  w.quote n.id ++ bracketed (n.attributes.items.map w.fragment) ++ ";"

def edgeText (directed : Bool) (e : Edge) : String :=
  w.quote e.left.id ++ edgeOperator directed ++ w.quote e.right.id ++
    bracketed (e.attributes.items.map w.fragment) ++ ";"

def opening (i : String) : String := "subgraph " ++ w.quote i ++ " \x7b"

def ownText (a : Attribute) : String := a.text w.strings ++ ";"

mutual

def statements (directed : Bool) (depth : Nat) : Element → List Statement
  | .node n => [⟨depth, w.nodeText n⟩]
  | .edge e => [⟨depth, w.edgeText directed e⟩]
  | .subgraph i t l =>
    ⟨depth, w.opening i⟩ ::
      ((t.items.map w.ownText).map (Statement.mk (depth + 1)) ++
        allStatements directed (depth + 1) l ++ [⟨depth, "\x7d"⟩])

def allStatements (directed : Bool) (depth : Nat) : List Element → List Statement
  | [] => []
  | e :: l => statements directed depth e ++ allStatements directed depth l

end

theorem allStatements_append (directed : Bool) (depth : Nat) (l m : List Element) :
    w.allStatements directed depth (l ++ m) =
      w.allStatements directed depth l ++ w.allStatements directed depth m := by
  induction l with
  | nil => simp [allStatements]
  | cons e l ih => simp [allStatements, ih]

def graphStatements (g : Graph) : List Statement :=
  ⟨0, w.header g⟩ :: w.allStatements g.directed 1 g.elements

theorem all_isNone_iff (a : Attribute) :
    (w.registry.entries.all fun r => (r a w.strings).isNone) = true ↔
      w.registry.render a w.strings = none := by
  simp [Registry.render]

theorem rendered_eq (a : Attribute) :
    w.rendered a = (fun _ => w.fragment a) <$> w.take (.check (.rendered a)) := by
  by_cases hf : a.isFinite = true
  · cases hr : w.registry.render a w.strings with
    | none =>
      have hn : w.fault? (.rendered a) = some (.noRenderer a.kind) := by
        simp only [fault?, hf, (w.all_isNone_iff a).mpr hr, if_true]
      simp [rendered, hf, hr, take, hn, Logged.fail, Functor.map, Logged.map, Except.map]
    | some s =>
      have hn : w.fault? (.rendered a) = none := by
        have ha : ¬ (w.registry.entries.all fun r => (r a w.strings).isNone) = true := by
          rw [all_isNone_iff, hr]; simp
        simp only [fault?, hf, ha, if_true]; simp
      simp [rendered, hf, hr, take, hn, fragment, Logged.note, Functor.map, Logged.map,
        Except.map, Bind.bind, Logged.bind, pure]
  · have hn : w.fault? (.rendered a) = some (.notFinite a.kind) := by simp [fault?, hf]
    simp [rendered, hf, take, hn, Logged.fail, Functor.map, Logged.map, Except.map]

theorem endpoint_eq (e : Endpoint) :
    w.endpoint e = (fun _ => w.quote e.id) <$> w.take (.check (.endpoint e)) := by
  by_cases h : Text.isBlank e.id = true
  · have hn : w.fault? (.endpoint e) = some .emptyEndpoint := if_pos h
    simp [endpoint, h, take, hn, Logged.fail, Functor.map, Logged.map, Except.map]
  · have hn : w.fault? (.endpoint e) = none := if_neg h
    simp [endpoint, h, take, hn]

theorem subgraphAttribute_eq (a : Attribute) :
    w.subgraphAttribute a = (fun _ => w.ownText a) <$> w.take (.check (.own a)) := by
  cases a <;> rfl

theorem mapM_eq {f : Attribute → Logged String} {c : Attribute → Check} {t : Attribute → String}
    (h : ∀ a, f a = (fun _ => t a) <$> w.take (.check (c a))) (l : List Attribute) :
    l.mapM f = (fun _ => l.map t) <$> w.follow ((l.map c).map .check) := by
  induction l with
  | nil => simp [follow]
  | cons a l ih => simp [List.mapM_cons, h, ih, follow]

theorem attributes_eq (t : Attributes) :
    w.attributes t =
      (fun _ => bracketed (t.items.map w.fragment)) <$>
        w.follow ((t.items.map .rendered).map .check) := by
  simp [attributes, w.mapM_eq w.rendered_eq]

theorem node_eq (n : Node) :
    w.node n = (fun _ => w.nodeText n) <$> w.follow (Head.node n).steps := by
  simp [node, attributes_eq, nodeText, Head.steps, Head.checks, Head.event, follow, take]

theorem edge_eq (directed : Bool) (e : Edge) :
    w.edge directed e = (fun _ => w.edgeText directed e) <$> w.follow (Head.edge e).steps := by
  simp [edge, endpoint_eq, attributes_eq, edgeText, Head.steps, Head.checks, Head.event, follow,
    take]

mutual

theorem element_eq (directed : Bool) (depth : Nat) (e : Element) :
    w.element directed depth e =
      (fun _ => w.statements directed depth e) <$> w.follow (e.heads.flatMap Head.steps) := by
  cases e with
  | node n => simp [element, node_eq, statements, Element.heads]
  | edge e => simp [element, edge_eq, statements, Element.heads]
  | subgraph i t l =>
    have hl := elements_eq directed (depth + 1) l
    simp [element, hl, w.mapM_eq w.subgraphAttribute_eq, statements, Element.heads, opening,
      Head.steps, Head.checks, Head.event, follow, follow_append, take]

theorem elements_eq (directed : Bool) (depth : Nat) (l : List Element) :
    w.elements directed depth l =
      (fun _ => w.allStatements directed depth l) <$>
        w.follow ((Element.allHeads l).flatMap Head.steps) := by
  cases l with
  | nil => simp [elements, allStatements, Element.allHeads, follow]
  | cons e l =>
    have he := element_eq directed depth e
    have hl := elements_eq directed depth l
    simp [elements, he, hl, allStatements, Element.allHeads, follow_append]

end

theorem graph_eq (g : Graph) :
    w.graph g = (fun _ => w.graphStatements g) <$> w.follow g.steps := by
  simp [graph, elements_eq, graphStatements, Graph.steps, Graph.heads, Graph.event, follow, take]

end Wording

/-- The walk decides on the faults and the events, and the statements on the text. -/
theorem Graph.compile_eq (g : Graph) (s : Settings) :
    g.compile s =
      (fun _ => s.layout.document (s.toWording.graphStatements g)) <$>
        s.toWording.follow g.steps := by
  simp [compile, Wording.graph_eq]

namespace Wording

variable (w : Wording)

def headStatements (directed : Bool) (depth : Nat) : Head → List Statement
  | .node n => [⟨depth, w.nodeText n⟩]
  | .edge e => [⟨depth, w.edgeText directed e⟩]
  | .subgraph i t => ⟨depth, w.opening i⟩ :: (t.items.map w.ownText).map (Statement.mk (depth + 1))

theorem statements_subgraph (directed : Bool) (depth : Nat) (i : String) (t : Attributes)
    (l : List Element) :
    w.statements directed depth (.subgraph i t l) =
      w.headStatements directed depth (.subgraph i t) ++
        (w.allStatements directed (depth + 1) l ++ [⟨depth, "\x7d"⟩]) := by
  simp only [statements, headStatements, List.cons_append, List.append_assoc]

mutual

theorem headStatements_infix (directed : Bool) (depth : Nat) {e : Element} {k : Head}
    (h : k ∈ e.heads) :
    ∃ d, w.headStatements directed d k <:+: w.statements directed depth e := by
  cases e with
  | node n =>
    obtain rfl := List.mem_singleton.mp h
    exact ⟨depth, List.infix_refl _⟩
  | edge e =>
    obtain rfl := List.mem_singleton.mp h
    exact ⟨depth, List.infix_refl _⟩
  | subgraph i t l =>
    rw [statements_subgraph]
    rcases List.mem_cons.mp h with rfl | h
    · exact ⟨depth, (List.prefix_append _ _).isInfix⟩
    · obtain ⟨d, hd⟩ := headStatements_infix_all directed (depth + 1) h
      exact ⟨d, List.infix_append_of_infix_right (List.infix_append_of_infix_left hd)⟩

theorem headStatements_infix_all (directed : Bool) (depth : Nat) {l : List Element} {k : Head}
    (h : k ∈ Element.allHeads l) :
    ∃ d, w.headStatements directed d k <:+: w.allStatements directed depth l := by
  cases l with
  | nil => cases h
  | cons e l =>
    rcases List.mem_append.mp h with h | h
    · obtain ⟨d, hd⟩ := headStatements_infix directed depth h
      exact ⟨d, List.infix_append_of_infix_left hd⟩
    · obtain ⟨d, hd⟩ := headStatements_infix_all directed depth h
      exact ⟨d, List.infix_append_of_infix_right hd⟩

end

mutual

theorem mem_statements {directed : Bool} {depth : Nat} {e : Element} {s : Statement}
    (h : s ∈ w.statements directed depth e) :
    s.text = "\x7d" ∨ ∃ k ∈ e.heads, ∃ d, s ∈ w.headStatements directed d k := by
  cases e with
  | node n => exact .inr ⟨_, .head _, depth, h⟩
  | edge e => exact .inr ⟨_, .head _, depth, h⟩
  | subgraph i t l =>
    rw [statements_subgraph, List.mem_append, List.mem_append, List.mem_singleton] at h
    rcases h with h | h | rfl
    · exact .inr ⟨_, .head _, depth, h⟩
    · rcases mem_allStatements h with hs | ⟨k, hk, hd⟩
      · exact .inl hs
      · exact .inr ⟨k, .tail _ hk, hd⟩
    · exact .inl rfl

theorem mem_allStatements {directed : Bool} {depth : Nat} {l : List Element} {s : Statement}
    (h : s ∈ w.allStatements directed depth l) :
    s.text = "\x7d" ∨ ∃ k ∈ Element.allHeads l, ∃ d, s ∈ w.headStatements directed d k := by
  cases l with
  | nil => cases h
  | cons e l =>
    rcases List.mem_append.mp h with h | h
    · rcases mem_statements h with hs | ⟨k, hk, hd⟩
      · exact .inl hs
      · exact .inr ⟨k, List.mem_append_left _ hk, hd⟩
    · rcases mem_allStatements h with hs | ⟨k, hk, hd⟩
      · exact .inl hs
      · exact .inr ⟨k, List.mem_append_right _ hk, hd⟩

end

end Wording

end DotGraph
