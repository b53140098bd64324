import DotGraph.Proofs.Document.Faults
import DotGraph.Proofs.Document.Influence
import DotGraph.Proofs.Renderer.Actions
set_option autoImplicit false

/-! Registries in which the order does not matter, because no two entries answer for one attribute. -/

namespace DotGraph

def Renderer.OnlyCustom (r : Renderer) : Prop :=
  ∀ a mode, (∀ n, a.kind ≠ .custom n) → r a mode = none

namespace Registry

variable {g h : Registry}

def answers (g : Registry) (a : Attribute) (mode : Text.StringMode) : List String :=
  g.entries.filterMap fun r => r a mode

/-- No two entries answer for one attribute in one mode. -/
def Exclusive (g : Registry) : Prop :=
  g.entries.Pairwise fun r s => ∀ a mode, r a mode = none ∨ s a mode = none

theorem head?_answers (g : Registry) (a : Attribute) (mode : Text.StringMode) :
    (g.answers a mode).head? = g.render a mode :=
  List.head?_filterMap

theorem Exclusive.answers_eq (he : g.Exclusive) (a : Attribute) (mode : Text.StringMode) :
    g.answers a mode = (g.render a mode).toList := by
  -- Two answers would exclude each other, so there is one at most.
  have hp : (g.answers a mode).Pairwise fun _ _ => False := by
    refine List.pairwise_filterMap.mpr (he.imp fun {r s} hrs x hx y hy => ?_)
    rcases hrs a mode with hr | hs
    · rw [hr] at hx; cases hx
    · rw [hs] at hy; cases hy
  rw [← head?_answers]
  match g.answers a mode, hp with
  | [], _ => rfl
  | [x], _ => rfl
  | x :: y :: l, hp => exact absurd (List.rel_of_pairwise_cons hp List.mem_cons_self) id

theorem Exclusive.render_perm (he : g.Exclusive) (hp : h.entries.Perm g.entries) (a : Attribute)
    (mode : Text.StringMode) : h.render a mode = g.render a mode := by
  have hf : (h.answers a mode).Perm (g.render a mode).toList := by
    rw [← he.answers_eq]
    exact hp.filterMap _
  rw [← head?_answers]
  cases hr : g.render a mode with
  | none => rw [hr] at hf; rw [List.perm_nil.mp hf]; rfl
  | some t => rw [hr] at hf; rw [List.perm_singleton.mp hf]; rfl

/-- What swaps lead to, and moves of a single entry, which is taken out and then put in
again at another position. -/
inductive Rearranged (g : Registry) : Registry → Prop
  | refl : Rearranged g g
  | swap {h k : Registry} {i j : Nat} :
    Rearranged g h → h.swap? i j = some k → Rearranged g k
  | move {h k l : Registry} {r : Renderer} {i j : Nat} :
    Rearranged g h → h.remove? i = some (r, k) → k.insert? j r = some l → Rearranged g l

theorem Rearranged.perm (hr : g.Rearranged h) : h.entries.Perm g.entries := by
  induction hr with
  | refl => exact .refl _
  | swap _ hs ih => exact (swap?_perm hs).trans ih
  | move _ hr hi ih => exact (insert?_perm hi).trans ((remove?_perm hr).trans ih)

theorem exclusive_ofKind {l : List Attribute.Kind} (hl : l.Nodup) :
    (⟨l.map .ofKind⟩ : Registry).Exclusive := by
  refine List.pairwise_map.mpr (hl.imp fun {j k} hjk a mode => ?_)
  by_cases ha : a.kind = j
  · exact .inr (if_neg fun hk => hjk (ha.symm.trans hk))
  · exact .inl (if_neg ha)

theorem exclusive_default : default.Exclusive :=
  exclusive_ofKind (by decide)

theorem notMem_builtinKinds_iff (k : Attribute.Kind) :
    k ∉ builtinKinds ↔ k = .subgraphStyle ∨ ∃ n, k = .custom n := by
  cases k <;> simp [builtinKinds]

theorem answers_default (a : Attribute) (mode : Text.StringMode) :
    default.answers a mode = if a.kind ∈ builtinKinds then [a.text mode] else [] := by
  rw [exclusive_default.answers_eq, render_default]
  split <;> rfl

theorem render_push_of_none {r : Renderer} {a : Attribute} {mode : Text.StringMode}
    (hr : r a mode = none) : (g.push r).render a mode = g.render a mode := by
  rw [render_push, hr, Option.or_none]

theorem render_insert?_of_none {i : Nat} {r : Renderer} {a : Attribute} {mode : Text.StringMode}
    (hi : g.insert? i r = some h) (hr : r a mode = none) : h.render a mode = g.render a mode := by
  obtain ⟨p, q, hg, -, hh⟩ := exists_of_insert? hi
  rw [render, render, hg, hh]
  simp only [List.findSome?_append, List.findSome?_cons, hr]

/-- What is reached by renderers for custom attributes, at the end or at any position. -/
inductive Extended (g : Registry) : Registry → Prop
  | refl : Extended g g
  | push {h : Registry} {r : Renderer} :
    Extended g h → r.OnlyCustom → Extended g (h.push r)
  | insert {h k : Registry} {r : Renderer} {i : Nat} :
    Extended g h → r.OnlyCustom → h.insert? i r = some k → Extended g k

theorem Extended.render_eq (he : g.Extended h) {a : Attribute} (ha : ∀ n, a.kind ≠ .custom n)
    (mode : Text.StringMode) : h.render a mode = g.render a mode := by
  induction he with
  | refl => rfl
  | push _ hr ih => rw [render_push_of_none (hr a mode ha), ih]
  | insert _ hr hi ih => rw [render_insert?_of_none hi (hr a mode ha), ih]

/-- Exclusive entries may be put in any order, and no attribute and no document changes.
In the default registry exactly one entry answers for an attribute, or none if it is
custom or a style of a subgraph, and entries that are added for custom attributes leave
all others as they are. -/
theorem compile_rearranged :
    (∀ g h : Registry, g.Exclusive → g.Rearranged h →
      (∀ a mode, h.render a mode = g.render a mode) ∧
      ∀ (d : Graph) (s : Settings),
        d.compile { s with registry := h } = d.compile { s with registry := g }) ∧
    default.Exclusive ∧
    (∀ a mode, (default.answers a mode).length ≤ 1 ∧
      (default.answers a mode = [] ↔ a.kind = .subgraphStyle ∨ ∃ n, a.kind = .custom n)) ∧
    ∀ h : Registry, default.Extended h → ∀ a mode, (∀ n, a.kind ≠ .custom n) →
      h.render a mode = default.render a mode := by
  refine ⟨fun g h he hr => ?_, exclusive_default, fun a mode => ?_,
    fun h he a mode ha => he.render_eq ha mode⟩
  · have hp := he.render_perm hr.perm
    exact ⟨hp, fun d s => d.compile_congr_registry s hp⟩
  · rw [answers_default, ← notMem_builtinKinds_iff]
    by_cases hk : a.kind ∈ builtinKinds <;> simp [hk]

/-- Widths, and labels by one renderer for each mode. -/
def gauges : Registry :=
  ⟨[.ofKind .width, .inMode .raw (.onKind .label (.const "r")),
    .inMode .escaped (.onKind .label (.const "e"))]⟩

def turnedGauges : Registry :=
  ⟨[.inMode .raw (.onKind .label (.const "r")), .ofKind .width,
    .inMode .escaped (.onKind .label (.const "e"))]⟩

def tips : Renderer := .onKind (.custom "tooltip") (.const "tooltip=t")

theorem exclusive_gauges : gauges.Exclusive := by
  refine .cons (fun s hs a mode => ?_) (.cons (fun s hs a mode => ?_) (.cons (by simp) .nil))
  · simp only [List.mem_cons, List.not_mem_nil, or_false] at hs
    rcases hs with rfl | rfl <;> cases a <;> simp [Renderer.ofKind, Renderer.inMode,
      Renderer.onKind, Attribute.kind]
  · rw [List.mem_singleton.mp hs]
    cases mode <;> simp [Renderer.inMode]

theorem compile_turnedGauges :
    turnedGauges.render (.label "x") .raw = gauges.render (.label "x") .raw ∧
      (Graph.painted (.named "a")).compile { registry := turnedGauges } =
        (Graph.painted (.named "a")).compile { registry := gauges } ∧
      ((default.push tips).prepend tips).render (.label "x") .raw = some "label=x" := by
  have hr : gauges.Rearranged turnedGauges :=
    .move (i := 0) (j := 2) (.swap (i := 0) (j := 2) .refl rfl) rfl rfl
  have ht : tips.OnlyCustom := fun a _ ha => if_neg (ha "tooltip")
  have he : default.Extended ((default.push tips).prepend tips) :=
    .insert (i := 0) (.push .refl ht) ht rfl
  obtain ⟨hrender, hcompile⟩ := compile_rearranged.1 gauges turnedGauges exclusive_gauges hr
  refine ⟨hrender _ _, hcompile (.painted (.named "a")) {}, ?_⟩
  rw [compile_rearranged.2.2.2 _ he (.label "x") .raw fun n => by simp [Attribute.kind]]
  decide +kernel

end Registry

end DotGraph
