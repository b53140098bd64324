import DotGraph.Proofs.Attribute.Text
import DotGraph.Proofs.Document.Walk
set_option autoImplicit false

namespace DotGraph

namespace Fault

def ends (f : Fault) : Option Char × Option Char :=
  (f.message.toList.head?, f.message.toList.getLast?)

theorem ends_eq (f : Fault) : f.ends =
    match f with
    | .noRenderer _ => (some 'n', some '`')
    | .unsupportedInSubgraph _ => (some 'a', some ')')
    | .notFinite _ => (some 'a', some 'e')
    | .emptyEndpoint => (some 'e', some 'y') := by
  have h (s t u : String) {c d : Char} (hs : s.toList.head? = some c)
      (hu : u.toList.getLast? = some d) :
      ((s ++ t ++ u).toList.head?, (s ++ t ++ u).toList.getLast?) = (some c, some d) := by
    simp [List.head?_append, List.getLast?_append, hs, hu]
  cases f with
  | emptyEndpoint => decide
  | _ => exact h _ _ _ (by decide) (by decide)

/-- A message tells which fault it is and which kind it is about. -/
theorem message_injective : Function.Injective message := by
  intro e f h
  have hs : e.ends = f.ends := by rw [ends, h, ends]
  rw [ends_eq, ends_eq] at hs
  cases e <;> cases f
  case noRenderer.noRenderer => exact congrArg noRenderer (Attribute.Kind.eq_of_append_text h)
  case notFinite.notFinite => exact congrArg notFinite (Attribute.Kind.eq_of_append_text h)
  case unsupportedInSubgraph.unsupportedInSubgraph =>
    exact congrArg unsupportedInSubgraph (Attribute.Kind.eq_of_append_text h)
  case emptyEndpoint.emptyEndpoint => rfl
  all_goals simp at hs

end Fault

theorem Renderer.findSome?_ofKind (l : List Attribute.Kind) (a : Attribute)
    (mode : Text.StringMode) :
    (l.map Renderer.ofKind).findSome? (fun r => r a mode) =
      if a.kind ∈ l then some (a.text mode) else none := by
  induction l with
  | nil => rfl
  | cons k l ih =>
    by_cases h : a.kind = k
    · simp [Renderer.ofKind, h]
    · rw [List.map_cons, List.findSome?_cons, ih]
      simp [Renderer.ofKind, h]

theorem Registry.render_default (a : Attribute) (mode : Text.StringMode) :
    Registry.default.render a mode =
      if a.kind ∈ Registry.builtinKinds then some (a.text mode) else none :=
  Renderer.findSome?_ofKind _ a mode

namespace Wording

variable {w : Wording}

theorem fragment_default (hw : w.registry = .default) (a : Attribute) :
    w.fragment a = if a.kind ∈ Registry.builtinKinds then a.text w.strings else "" := by
  rw [fragment, hw, Registry.render_default]
  split <;> rfl

theorem fault?_rendered (hw : w.registry = .default) (a : Attribute) :
    w.fault? (.rendered a) =
      if a.isFinite then
        if a.kind ∈ Registry.builtinKinds then none else some (.noRenderer a.kind)
      else some (.notFinite a.kind) := by
  have hn := w.all_isNone_iff a
  rw [hw, Registry.render_default] at hn
  by_cases hk : a.kind ∈ Registry.builtinKinds <;> simp [fault?, hk, hw, hn]

theorem fault?_rendered_eq_none_iff (hw : w.registry = .default) (a : Attribute) :
    w.fault? (.rendered a) = none ↔ a.isFinite = true ∧ a.kind ∈ Registry.builtinKinds := by
  rw [fault?_rendered hw]
  by_cases hf : a.isFinite = true <;> simp [hf]

def escaping : Wording := { strings := .escaped }

theorem fault?_own (a : Attribute) :
    w.fault? (.own a) =
      if a.kind.fitsSubgraph then none else some (.unsupportedInSubgraph a.kind) := by
  cases a <;> rfl

theorem fault?_own_eq_none_iff (a : Attribute) :
    w.fault? (.own a) = none ↔ a.kind.fitsSubgraph = true := by
  rw [fault?_own]
  split <;> simp [*]

theorem fault?_endpoint_eq_none_iff (e : Endpoint) :
    w.fault? (.endpoint e) = none ↔ Text.isBlank e.id = false := by
  rw [← Bool.not_eq_true, Text.isBlank]
  simp [fault?]

end Wording

namespace Wording

variable (w : Wording)

theorem findSome?_steps (h : Head) :
    h.steps.findSome? w.stepFault? = h.checks.findSome? w.fault? := by
  simp only [Head.steps, List.findSome?_cons, stepFault?, List.findSome?_map]
  rfl

theorem findSome?_allSteps (l : List Head) :
    (l.flatMap Head.steps).findSome? w.stepFault? =
      (l.flatMap Head.checks).findSome? w.fault? := by
  induction l with
  | nil => rfl
  | cons h l ih => simp only [List.flatMap_cons, List.findSome?_append, findSome?_steps, ih]

theorem findSome?_graphSteps (g : Graph) :
    g.steps.findSome? w.stepFault? = g.checks.findSome? w.fault? := by
  simp only [Graph.steps, Graph.checks, List.findSome?_cons, stepFault?, findSome?_allSteps]

theorem result_graph (g : Graph) :
    (w.graph g).result =
      match g.checks.findSome? w.fault? with
      | none => .ok (w.graphStatements g)
      | some f => .error f := by
  rw [graph_eq, Logged.result_map, result_follow, findSome?_graphSteps]
  cases g.checks.findSome? w.fault? <;> rfl

theorem result_graph_eq_ok_iff {w : Wording} {g : Graph} {l : List Statement} :
    (w.graph g).result = .ok l ↔
      (∀ c ∈ g.checks, w.fault? c = none) ∧ l = w.graphStatements g := by
  rw [result_graph, ← List.findSome?_eq_none_iff]
  cases g.checks.findSome? w.fault? with
  | none => simp [eq_comm]
  | some f => simp

theorem result_element (directed : Bool) (depth : Nat) (e : Element) :
    (w.element directed depth e).result =
      match (e.heads.flatMap Head.checks).findSome? w.fault? with
      | none => .ok (w.statements directed depth e)
      | some f => .error f := by
  rw [element_eq, Logged.result_map, result_follow, findSome?_allSteps]
  cases (e.heads.flatMap Head.checks).findSome? w.fault? <;> rfl

theorem result_elements (directed : Bool) (depth : Nat) (l : List Element) :
    (w.elements directed depth l).result =
      match ((Element.allHeads l).flatMap Head.checks).findSome? w.fault? with
      | none => .ok (w.allStatements directed depth l)
      | some f => .error f := by
  rw [elements_eq, Logged.result_map, result_follow, findSome?_allSteps]
  cases ((Element.allHeads l).flatMap Head.checks).findSome? w.fault? <;> rfl

theorem findSome?_of_element_ok {directed : Bool} {depth : Nat} {e : Element}
    {m : List Statement} (h : (w.element directed depth e).result = .ok m) :
    (e.heads.flatMap Head.checks).findSome? w.fault? = none := by
  rw [result_element] at h
  cases he : (e.heads.flatMap Head.checks).findSome? w.fault? with
  | none => rfl
  | some f => rw [he] at h; cases h

theorem findSome?_of_element_error {directed : Bool} {depth : Nat} {e : Element} {f : Fault}
    (h : (w.element directed depth e).result = .error f) :
    (e.heads.flatMap Head.checks).findSome? w.fault? = some f := by
  rw [result_element] at h
  cases he : (e.heads.flatMap Head.checks).findSome? w.fault? with
  | none => rw [he] at h; cases h
  | some g => rw [he] at h; cases h; rfl

theorem findSome?_of_all_ok {directed : Bool} {depth : Nat} {l : List Element}
    (h : ∀ e ∈ l, ∃ m, (w.element directed depth e).result = .ok m) :
    ((Element.allHeads l).flatMap Head.checks).findSome? w.fault? = none := by
  induction l with
  | nil => rfl
  | cons e l ih =>
    have hl := ih fun d hd => h d (List.mem_cons_of_mem e hd)
    obtain ⟨m, hm⟩ := h e List.mem_cons_self
    rw [Element.allHeads, List.flatMap_append, List.findSome?_append,
      w.findSome?_of_element_ok hm, hl]
    rfl

theorem findSome?_heads_append {pre post : List Head} {k : Head} {c : Check}
    (hc : c ∈ k.checks) (hf : w.fault? c ≠ none) :
    ((pre ++ k :: post).flatMap Head.checks).findSome? w.fault? =
      (pre.flatMap Head.checks ++ k.checks).findSome? w.fault? := by
  have hk : k.checks.findSome? w.fault? ≠ none := fun h => hf (List.findSome?_eq_none_iff.mp h c hc)
  obtain ⟨f, hk⟩ := Option.ne_none_iff_exists'.mp hk
  simp [List.findSome?_append, hk]

end Wording

namespace Graph

theorem events_compile (g : Graph) (s : Settings) :
    (g.compile s).events = (s.toWording.follow g.steps).events := by
  rw [compile_eq, Logged.events_map]

theorem result_compile (g : Graph) (s : Settings) :
    (g.compile s).result =
      match g.checks.findSome? s.toWording.fault? with
      | none => .ok (s.layout.document (s.toWording.graphStatements g))
      | some f => .error f := by
  rw [compile_eq, Logged.result_map, Wording.result_follow, Wording.findSome?_graphSteps]
  cases g.checks.findSome? s.toWording.fault? <;> rfl

theorem result_eq_ok_iff {g : Graph} {s : Settings} {t : String} :
    (g.compile s).result = .ok t ↔
      (∀ c ∈ g.checks, s.toWording.fault? c = none) ∧
        t = s.layout.document (s.toWording.graphStatements g) := by
  rw [result_compile, ← List.findSome?_eq_none_iff]
  cases g.checks.findSome? s.toWording.fault? with
  | none => simp [eq_comm]
  | some f => simp

theorem result_eq_error_iff {g : Graph} {s : Settings} {f : Fault} :
    (g.compile s).result = .error f ↔ g.checks.findSome? s.toWording.fault? = some f := by
  rw [result_compile]
  cases g.checks.findSome? s.toWording.fault? <;> simp

/-- A graph compiles if and only if all its checks pass, and otherwise to the fault of
the first one that fails. Graphs that agree up to an element that fails do not differ. -/
theorem compile_first_fault (g : Graph) (s : Settings) :
    ((∃ t, (g.compile s).result = .ok t) ↔ ∀ c ∈ g.checks, s.toWording.fault? c = none) ∧
    (∀ f, (g.compile s).result = .error f ↔
      ∃ pre c post, g.checks = pre ++ c :: post ∧
        (∀ b ∈ pre, s.toWording.fault? b = none) ∧ s.toWording.fault? c = some f) ∧
    (∀ (h : Graph) (pre : List Head) (k : Head) (post post' : List Head),
      g.heads = pre ++ k :: post → h.heads = pre ++ k :: post' →
        (∃ c ∈ k.checks, s.toWording.fault? c ≠ none) →
          (h.compile s).result = (g.compile s).result) := by
  refine ⟨?_, fun f => ?_, ?_⟩
  · simp [result_eq_ok_iff]
  · rw [result_eq_error_iff, List.findSome?_eq_some_iff]
    constructor
    · intro h
      obtain ⟨pre, c, post, hl, hc, hp⟩ := h
      exact ⟨pre, c, post, hl, hp, hc⟩
    · intro h
      obtain ⟨pre, c, post, hl, hp, hc⟩ := h
      exact ⟨pre, c, post, hl, hc, hp⟩
  · rintro h pre k post post' hg hh ⟨c, hc, hf⟩
    -- Both checks end at `k` at the latest, and up to there they are the same.
    have hs : h.checks.findSome? s.toWording.fault? = g.checks.findSome? s.toWording.fault? := by
      simp only [checks, hg, hh, s.toWording.findSome?_heads_append hc hf]
    have hg' : g.checks.findSome? s.toWording.fault? ≠ none := by
      intro hn
      exact hf (List.findSome?_eq_none_iff.mp hn c (List.mem_flatMap.mpr ⟨k, by simp [hg], hc⟩))
    obtain ⟨f, hf⟩ := Option.ne_none_iff_exists'.mp hg'
    rw [result_eq_error_iff.mpr hf, result_eq_error_iff.mpr (hs.trans hf)]

/-- The width of the node is not a number. -/
def wide (after : List Element) : Graph where
  id := "G"
  elements := .subgraph "s" .empty (.node ⟨"n", .ofList [.width ⟨0x7FF8000000000000#64⟩]⟩ :: after) ::
    after

theorem compile_wide :
    ((wide []).compile {}).result = .error (.notFinite .width) ∧
      ((wide [.edge ⟨.named "", .named "", .empty⟩]).compile {}).result =
        ((wide []).compile {}).result := by
  let k : Head := .node ⟨"n", .ofList [.width ⟨0x7FF8000000000000#64⟩]⟩
  let e : Head := .edge ⟨.named "", .named "", .empty⟩
  have h := compile_first_fault (wide []) {}
  refine ⟨(h.2.1 _).mpr ⟨[], _, [], rfl, by simp, by decide +kernel⟩, ?_⟩
  exact h.2.2 _ [.subgraph "s" .empty] k [] [e, e] rfl rfl ⟨_, .head _, by decide +kernel⟩

end Graph

end DotGraph
