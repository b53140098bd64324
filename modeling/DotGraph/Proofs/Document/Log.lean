import DotGraph.Proofs.Document.Faults
set_option autoImplicit false

/-! What is logged: the walk over the graph, up to the check that fails if there is one. The body of
the document can be told again from it, without asking a renderer. -/

namespace DotGraph

/-- Nothing of an event gets lost in its record. -/
theorem Event.record_injective : Function.Injective Event.record := by
  have hr {m n : Nat} (h : Nat.repr m = Nat.repr n) : m = n := by
    rw [← Nat.ofDigitChars_ten_toDigits (n := m), ← Nat.toList_repr, h, Nat.toList_repr,
      Nat.ofDigitChars_ten_toDigits]
  have hb {b c : Bool} (h : (if b then "true" else "false") = if c then "true" else "false") :
      b = c := by
    revert h
    cases b <;> cases c <;> decide
  intro d e h
  obtain ⟨-, -, hf⟩ := Record.mk.inj h
  -- The names of the fields tell the sorts of events apart.
  cases d <;> cases e <;> simp only [fields, List.cons.injEq, Prod.mk.injEq, String.reduceEq,
    true_and, and_true, false_and, and_false, reduceCtorEq] at hf
  case graph.graph => rw [hf.1, hr hf.2.1, hb hf.2.2]
  case rendered.rendered => rw [Attribute.Kind.text_injective hf.1, hf.2]
  case edge.edge => rw [hf.1, hf.2]
  all_goals rw [hf]

def Record.rendered (k : Attribute.Kind) (s : String) : Record :=
  ⟨.trace, "rendered attribute", [("kind", k.text), ("fragment", s)]⟩

def Head.record : Head → Record
  | .node n => ⟨.trace, "node", [("node", n.id)]⟩
  | .edge e => ⟨.trace, "edge", [("left", e.left.id), ("right", e.right.id)]⟩
  | .subgraph i _ => ⟨.trace, "subgraph", [("subgraph", i)]⟩

theorem Head.record_event (h : Head) : h.event.record = h.record := by cases h <;> rfl

theorem Head.level_record (h : Head) : h.record.level = .trace := by cases h <;> rfl

def Graph.record (g : Graph) : Record :=
  ⟨.debug, "compiling graph", [("graph", g.id), ("elements", Nat.repr g.elements.length),
    ("directed", if g.directed then "true" else "false")]⟩

def Graph.log (g : Graph) (s : Settings) : List Record := (g.compile s).events.map Event.record

namespace Record

def fragment? (r : Record) : Option String :=
  if r.message = "rendered attribute" then r.fields.lookup "fragment" else none

/-- The fragments in front of the record of another statement. -/
def fragments : List Record → List String
  | [] => []
  | r :: l =>
    match r.fragment? with
    | some s => s :: fragments l
    | none => []

def afterFragments : List Record → List Record
  | [] => []
  | r :: l => if r.fragment?.isSome then afterFragments l else r :: l

theorem fragment?_rendered (k : Attribute.Kind) (s : String) :
    (rendered k s).fragment? = some s := rfl

theorem fragment?_head (h : Head) : h.record.fragment? = none := by cases h <;> rfl

variable {α : Type} (k : α → Attribute.Kind) (s : α → String) {m : List Record}

theorem afterFragments_of_fragments_eq_nil (h : fragments m = []) : afterFragments m = m := by
  cases m with
  | nil => rfl
  | cons r m =>
    cases hr : r.fragment? with
    | none => simp [afterFragments, hr]
    | some s => simp [fragments, hr] at h

theorem fragments_rendered (h : fragments m = []) (l : List α) :
    fragments (l.map (fun a => rendered (k a) (s a)) ++ m) = l.map s ∧
      afterFragments (l.map (fun a => rendered (k a) (s a)) ++ m) = m := by
  induction l with
  | nil => exact ⟨h, afterFragments_of_fragments_eq_nil h⟩
  | cons a l ih =>
    simpa [fragments, afterFragments, fragment?_rendered] using ih

end Record

mutual

/-- The statements of an element as a log tells them that begins with the record of the
element, and what the log holds behind it. Attributes of nodes and edges are not read. -/
def Element.retold (mode : Text.StringMode) (directed : Bool) (depth : Nat) :
    Element → List Record → List Statement × List Record
  | .node n, l =>
    ([⟨depth, Text.quote mode n.id ++ Wording.bracketed (Record.fragments l.tail) ++ ";"⟩],
      Record.afterFragments l.tail)
  | .edge e, l =>
    ([⟨depth, Text.quote mode e.left.id ++ Wording.edgeOperator directed ++
        Text.quote mode e.right.id ++ Wording.bracketed (Record.fragments l.tail) ++ ";"⟩],
      Record.afterFragments l.tail)
  | .subgraph i t m, l =>
    let inner := Element.allRetold mode directed (depth + 1) m l.tail
    (⟨depth, "subgraph " ++ Text.quote mode i ++ " \x7b"⟩ ::
      (t.items.map (fun a => ⟨depth + 1, a.text mode ++ ";"⟩) ++ inner.1 ++ [⟨depth, "\x7d"⟩]),
      inner.2)

def Element.allRetold (mode : Text.StringMode) (directed : Bool) (depth : Nat) :
    List Element → List Record → List Statement × List Record
  | [], l => ([], l)
  | e :: m, l =>
    let first := e.retold mode directed depth l
    let others := Element.allRetold mode directed depth m first.2
    (first.1 ++ others.1, others.2)

end

namespace Wording

variable (w : Wording)

def record? : Check → Option Record
  | .rendered a => some (.rendered a.kind (w.fragment a))
  | .endpoint _ | .own _ => none

def records (h : Head) : List Record := h.record :: h.checks.filterMap w.record?

/-- A place among these heads where a check fails, the first of all that do. -/
structure Cut (l : List Head) (f : Fault) where
  before : List Head
  head : Head
  after : List Head
  passed : List Check
  check : Check
  rest : List Check
  heads_eq : l = before ++ head :: after
  checks_eq : head.checks = passed ++ check :: rest
  passes : ∀ c ∈ before.flatMap Head.checks ++ passed, w.fault? c = none
  fails : w.fault? check = some f

variable {w}

def Cut.records {l : List Head} {f : Fault} (d : w.Cut l f) : List Record :=
  d.before.flatMap w.records ++ d.head.record :: d.passed.filterMap w.record?

theorem exists_cut {l : List Head} {f : Fault}
    (h : (l.flatMap Head.checks).findSome? w.fault? = some f) : Nonempty (w.Cut l f) := by
  induction l with
  | nil => cases h
  | cons k l ih =>
    rw [List.flatMap_cons, List.findSome?_append] at h
    cases hk : k.checks.findSome? w.fault? with
    | some e =>
      rw [hk] at h
      obtain ⟨passed, c, rest, hl, hc, hp⟩ := List.findSome?_eq_some_iff.mp (hk.trans h)
      exact ⟨⟨[], k, l, passed, c, rest, rfl, hl, by simpa using hp, hc⟩⟩
    | none =>
      rw [hk] at h
      obtain ⟨d⟩ := ih h
      have hn := List.findSome?_eq_none_iff.mp hk
      refine ⟨⟨k :: d.before, d.head, d.after, d.passed, d.check, d.rest,
        congrArg (k :: ·) d.heads_eq, d.checks_eq, ?_, d.fails⟩⟩
      intro c hc
      rw [List.flatMap_cons, List.append_assoc, List.mem_append] at hc
      exact hc.elim (hn c) (d.passes c)

variable (w)

theorem map_record_checks (l : List Check) :
    ((l.map Step.check).filterMap w.stepEvent?).map Event.record = l.filterMap w.record? := by
  rw [List.filterMap_map, List.map_filterMap]
  congr 1
  funext c
  cases c <;> rfl

theorem map_record_head (h : Head) (l : List Check) :
    ((.announce h.event :: l.map Step.check).filterMap w.stepEvent?).map Event.record =
      h.record :: l.filterMap w.record? := by
  have ha : w.stepEvent? (.announce h.event) = some h.event := rfl
  rw [List.filterMap_cons_some ha, List.map_cons, map_record_checks, h.record_event]

theorem map_record_steps (l : List Head) :
    ((l.flatMap Head.steps).filterMap w.stepEvent?).map Event.record = l.flatMap w.records := by
  rw [List.filterMap_flatMap, List.map_flatMap]
  congr 1
  funext h
  exact w.map_record_head h h.checks

theorem stepFault?_steps {l : List Head} (h : ∀ c ∈ l.flatMap Head.checks, w.fault? c = none) :
    ∀ c ∈ l.flatMap Head.steps, w.stepFault? c = none := by
  rw [← List.findSome?_eq_none_iff] at h ⊢
  rw [findSome?_allSteps, h]

theorem map_record_cut {l : List Head} {f : Fault} (d : w.Cut l f) :
    (w.follow (l.flatMap Head.steps)).events.map Event.record = d.records := by
  obtain ⟨before, k, after, passed, c, rest, rfl, hk, hp, hc⟩ := d
  -- `pre` is the walk in front of the check that fails.
  let pre := before.flatMap Head.steps ++ .announce k.event :: passed.map .check
  have hs : (before ++ k :: after).flatMap Head.steps =
      pre ++ .check c :: (rest.map .check ++ after.flatMap Head.steps) := by
    simp [pre, Head.steps, hk]
  have hpre : ∀ b ∈ pre, w.stepFault? b = none := by
    rw [List.forall_mem_append] at hp ⊢
    rw [List.forall_mem_cons, List.forall_mem_map]
    exact ⟨w.stepFault?_steps hp.1, rfl, hp.2⟩
  have hstep : w.stepFault? (.check c) = some f := hc
  rw [hs, w.events_follow_cut hpre hstep, List.filterMap_append, List.map_append, map_record_steps,
    map_record_head, Cut.records]

theorem render_of_no_fault {a : Attribute} (h : w.fault? (.rendered a) = none) :
    w.registry.render a w.strings = some (w.fragment a) := by
  cases hr : w.registry.render a w.strings with
  | some s => rw [fragment, hr, Option.getD_some]
  | none =>
    have hn := (w.all_isNone_iff a).mpr hr
    by_cases hf : a.isFinite = true <;> simp [fault?, hf, hn] at h

theorem filterMap_record? (l : List Attribute) :
    (l.map Check.rendered).filterMap w.record? =
      l.map fun a => .rendered a.kind (w.fragment a) := by
  rw [List.filterMap_map]
  exact congrFun List.filterMap_eq_map l

theorem records_node (n : Node) :
    w.records (.node n) = (Head.node n).record ::
      n.attributes.items.map fun a => .rendered a.kind (w.fragment a) := by
  rw [records, Head.checks, filterMap_record?]

theorem records_edge (e : Edge) :
    w.records (.edge e) = (Head.edge e).record ::
      e.attributes.items.map fun a => .rendered a.kind (w.fragment a) := by
  rw [records, Head.checks, ← filterMap_record?]
  rfl

theorem records_subgraph (i : String) (t : Attributes) :
    w.records (.subgraph i t) = [(Head.subgraph i t).record] := by
  have h : (t.items.map Check.own).filterMap w.record? = [] := by
    rw [List.filterMap_eq_nil_iff, List.forall_mem_map]
    exact fun _ _ => rfl
  rw [records, Head.checks, h]

theorem fragments_records (l : List Head) {m : List Record} (h : Record.fragments m = []) :
    Record.fragments (l.flatMap w.records ++ m) = [] := by
  cases l with
  | nil => exact h
  | cons k l =>
    rw [List.flatMap_cons, records, List.cons_append, List.cons_append, Record.fragments,
      Record.fragment?_head]

theorem level_record? (l : List Check) : ∀ r ∈ l.filterMap w.record?, r.level = .trace := by
  intro r hr
  obtain ⟨c, -, hc⟩ := List.mem_filterMap.mp hr
  cases c with
  | rendered a => cases hc; rfl
  | _ => cases hc

theorem level_records (l : List Head) : ∀ r ∈ l.flatMap w.records, r.level = .trace := by
  intro r hr
  obtain ⟨h, -, hr⟩ := List.mem_flatMap.mp hr
  rcases List.mem_cons.mp hr with rfl | hr
  · exact h.level_record
  · exact w.level_record? h.checks r hr

theorem Cut.level_records {l : List Head} {f : Fault} (d : w.Cut l f) :
    ∀ r ∈ d.records, r.level = .trace := by
  rw [Cut.records, List.forall_mem_append, List.forall_mem_cons]
  exact ⟨w.level_records d.before, d.head.level_record, w.level_record? d.passed⟩

mutual

theorem retold_records (directed : Bool) (depth : Nat) (e : Element) {m : List Record}
    (h : Record.fragments m = []) :
    e.retold w.strings directed depth (e.heads.flatMap w.records ++ m) =
      (w.statements directed depth e, m) := by
  cases e with
  | node n =>
    obtain ⟨hf, ha⟩ := Record.fragments_rendered Attribute.kind w.fragment h n.attributes.items
    rw [Element.heads, List.flatMap_singleton, records_node, List.cons_append, Element.retold,
      List.tail_cons, hf, ha]
    rfl
  | edge e =>
    obtain ⟨hf, ha⟩ := Record.fragments_rendered Attribute.kind w.fragment h e.attributes.items
    rw [Element.heads, List.flatMap_singleton, records_edge, List.cons_append, Element.retold,
      List.tail_cons, hf, ha]
    rfl
  | subgraph i t l =>
    have hl := allRetold_records directed (depth + 1) l h
    rw [Element.heads, List.flatMap_cons, records_subgraph, List.singleton_append,
      List.cons_append, Element.retold, List.tail_cons, hl, statements, List.map_map]
    rfl

theorem allRetold_records (directed : Bool) (depth : Nat) (l : List Element) {m : List Record}
    (h : Record.fragments m = []) :
    Element.allRetold w.strings directed depth l
        ((Element.allHeads l).flatMap w.records ++ m) =
      (w.allStatements directed depth l, m) := by
  cases l with
  | nil => rfl
  | cons e l =>
    -- The next record announces an element, so the fragments end where those of `e` do.
    have he := retold_records directed depth e (w.fragments_records (Element.allHeads l) h)
    have hl := allRetold_records directed depth l h
    rw [Element.allHeads, List.flatMap_append, List.append_assoc, Element.allRetold, he, hl,
      allStatements]

end

end Wording

namespace Graph

variable {g : Graph} {s : Settings}

theorem log_of_ok {t : String} (h : (g.compile s).result = .ok t) :
    g.log s = g.record :: g.heads.flatMap s.toWording.records := by
  have hp := s.toWording.stepFault?_steps (result_eq_ok_iff.mp h).1
  rw [log, events_compile, steps, s.toWording.follow_of_no_fault rfl,
    s.toWording.follow_of_passes hp, ← s.toWording.map_record_steps]
  rfl

theorem log_of_error {f : Fault} (h : (g.compile s).result = .error f) :
    ∃ d : s.toWording.Cut g.heads f, g.log s = g.record :: d.records := by
  obtain ⟨d⟩ := Wording.exists_cut (result_eq_error_iff.mp h)
  refine ⟨d, ?_⟩
  rw [log, events_compile, steps, s.toWording.follow_of_no_fault rfl, List.map_append]
  exact congrArg (g.record :: ·) (s.toWording.map_record_cut d)

/-- The log of a compilation is the walk over the graph, cut at the check that fails if
there is one. If none does, the document is told by the log: the block of a node or an
edge lists what is logged between its own record and that of the next statement. -/
theorem compile_log (g : Graph) (s : Settings) :
    (∀ t, (g.compile s).result = .ok t →
      g.log s = g.record :: g.heads.flatMap s.toWording.records) ∧
    (∀ f, (g.compile s).result = .error f →
      ∃ d : s.toWording.Cut g.heads f, g.log s = g.record :: d.records) ∧
    (∀ a, s.toWording.fault? (.rendered a) = none →
      s.registry.render a s.strings = some (s.toWording.fragment a)) ∧
    (∃ rest, g.log s = g.record :: rest ∧ ∀ r ∈ rest, r.level = .trace) ∧
    (∀ t, (g.compile s).result = .ok t →
      Element.allRetold s.strings g.directed 1 g.elements (g.log s).tail =
          (s.toWording.allStatements g.directed 1 g.elements, []) ∧
        t = s.layout.document (⟨0, s.toWording.header g⟩ ::
          (Element.allRetold s.strings g.directed 1 g.elements (g.log s).tail).1)) ∧
    ∀ l : List String,
      Wording.bracketed l = if l = [] then "" else " [" ++ ",".intercalate l ++ "]" := by
  refine ⟨fun t => log_of_ok, fun f => log_of_error, fun a => s.toWording.render_of_no_fault, ?_,
    fun t ht => ?_, fun l => ?_⟩
  · cases hr : (g.compile s).result with
    | ok t => exact ⟨_, log_of_ok hr, s.toWording.level_records g.heads⟩
    | error f =>
      obtain ⟨d, hd⟩ := log_of_error hr
      exact ⟨_, hd, d.level_records⟩
  · have hl := s.toWording.allRetold_records g.directed 1 g.elements (m := []) rfl
    rw [List.append_nil] at hl
    rw [log_of_ok ht, List.tail_cons, heads, hl]
    exact ⟨rfl, (result_eq_ok_iff.mp ht).2⟩
  · cases l with
    | nil => rfl
    | cons a l => simp [Wording.bracketed]

/-- The label of the subgraph is written, but not logged. -/
def captioned : Graph where
  id := "G"
  elements := [
    .node ⟨"a b", .ofList [.label "x", .shape .box]⟩,
    .subgraph "s" (.ofList [.label "y"])
      [.edge ⟨.named "p q", .named "r", .ofList [.arrowHead .vee, .custom "tip" "t"]⟩],
    .node ⟨"z", .empty⟩]

def tips : Settings where
  registry := Registry.default.push (Renderer.ofKind (.custom "tip"))

def captionedText : String :=
  "graph G \x7b \"a b\" [label=x,shape=box]; subgraph s \x7b label=y; " ++
    "\"p q\" -- r [arrowhead=vee,tip=t]; \x7d z; \x7d"

/-- What is logged in front of the custom attribute, and no more where none writes it. -/
def captionedLog : List Record :=
  [⟨.debug, "compiling graph", [("graph", "G"), ("elements", "3"), ("directed", "false")]⟩,
    ⟨.trace, "node", [("node", "a b")]⟩,
    ⟨.trace, "rendered attribute", [("kind", "label"), ("fragment", "label=x")]⟩,
    ⟨.trace, "rendered attribute", [("kind", "shape"), ("fragment", "shape=box")]⟩,
    ⟨.trace, "subgraph", [("subgraph", "s")]⟩,
    ⟨.trace, "edge", [("left", "p q"), ("right", "r")]⟩,
    ⟨.trace, "rendered attribute", [("kind", "arrow-head"), ("fragment", "arrowhead=vee")]⟩]

def captionedEnd : List Record :=
  [⟨.trace, "rendered attribute", [("kind", "custom(tip)"), ("fragment", "tip=t")]⟩,
    ⟨.trace, "node", [("node", "z")]⟩]

theorem compile_captioned :
    ((captioned.compile tips).result = .ok captionedText ∧
      captioned.log tips = captionedLog ++ captionedEnd ∧
      captionedText = Layout.flat.document (⟨0, "graph G \x7b"⟩ ::
        (Element.allRetold .escaped false 1 captioned.elements
          (captionedLog ++ captionedEnd).tail).1)) ∧
    (captioned.compile {}).result = .error (.noRenderer (.custom "tip")) ∧
      captioned.log {} = captionedLog := by
  have hr : (captioned.compile tips).result = .ok captionedText :=
    result_eq_ok_iff.mpr ⟨by decide +kernel, by decide +kernel⟩
  have he : (captioned.compile {}).result = .error (.noRenderer (.custom "tip")) :=
    result_eq_error_iff.mpr (by decide +kernel)
  obtain ⟨ho, -, -, -, ht, -⟩ := compile_log captioned tips
  have hl : captioned.log tips = captionedLog ++ captionedEnd := (ho _ hr).trans (by decide +kernel)
  have ht := (ht _ hr).2
  rw [hl] at ht
  exact ⟨⟨hr, hl, ht⟩, he, by decide +kernel⟩

end Graph

end DotGraph
