import DotGraph.Proofs.Document.Faults
import DotGraph.Proofs.Renderer.Precedence
set_option autoImplicit false

namespace DotGraph

/-- It does not depend on the mode for which attributes the renderer answers. -/
def Renderer.Steady (r : Renderer) : Prop := ∀ a, (r a .escaped).isSome = (r a .raw).isSome

theorem Renderer.steady_ofKind (k : Attribute.Kind) : (ofKind k).Steady := by
  intro a
  rw [ofKind_isSome, ofKind_isSome]

namespace Registry

variable {g h : Registry} {a : Attribute} {mode : Text.StringMode}

def Steady (g : Registry) : Prop := ∀ r ∈ g.entries, r.Steady

theorem steady_default : default.Steady := by
  intro r hr
  obtain ⟨k, -, rfl⟩ := List.mem_map.mp hr
  exact Renderer.steady_ofKind k

theorem isSome_answerAt (hs : mode = .raw ∨ g.Steady) (a : Attribute) (i : Nat) :
    (g.answerAt a mode i).isSome = (g.answerAt a .raw i).isSome := by
  cases mode with
  | raw => rfl
  | escaped =>
    have hg : g.Steady := hs.resolve_left nofun
    rw [answerAt, answerAt]
    cases hr : g.entries[i]? with
    | none => rfl
    | some r => exact hg r (List.mem_of_getElem? hr) a

theorem exists_first_iff {i : Nat} :
    (∃ s, g.First a mode i s) ↔
      (g.answerAt a mode i).isSome = true ∧ ∀ j < i, (g.answerAt a mode j).isSome = false := by
  simp only [Option.isSome_eq_false_iff, Option.isNone_iff_eq_none, Option.isSome_iff_exists]
  constructor
  · rintro ⟨s, hs, hj⟩
    exact ⟨⟨s, hs⟩, hj⟩
  · rintro ⟨⟨s, hs⟩, hj⟩
    exact ⟨s, hs, hj⟩

theorem position?_eq_some_iff {i : Nat} :
    g.position? a = some i ↔ ∃ s, g.First a .raw i s := by
  have hat {j : Nat} (hj : j < g.entries.length) : g.answerAt a .raw j = g.entries[j] a .raw := by
    rw [answerAt, List.getElem?_eq_getElem hj, Option.bind_some]
  rw [exists_first_iff, position?, List.findIdx?_eq_some_iff_getElem]
  constructor
  · rintro ⟨hi, hr, hj⟩
    refine ⟨by rwa [hat hi], fun j hji => ?_⟩
    rw [hat (Nat.lt_trans hji hi), ← Bool.not_eq_true]
    exact hj j hji
  · rintro ⟨hr, hj⟩
    have hi : i < g.entries.length := by
      rw [← Nat.not_le]
      intro hl
      rw [answerAt, List.getElem?_eq_none hl] at hr
      cases hr
    refine ⟨hi, by rwa [← hat hi], fun j hji => ?_⟩
    rw [← hat (Nat.lt_trans hji hi), hj j hji]
    exact Bool.false_ne_true

theorem position?_eq_none_iff : g.position? a = none ↔ g.render a .raw = none := by
  rw [position?, render, List.findIdx?_eq_none_iff, List.findSome?_eq_none_iff]
  simp only [Option.isSome_eq_false_iff, Option.isNone_iff_eq_none]

theorem render_eq_none_iff_raw (hs : mode = .raw ∨ g.Steady) :
    g.render a mode = none ↔ g.render a .raw = none := by
  rw [render_eq_none_iff, render_eq_none_iff]
  simp only [← Option.isNone_iff_eq_none, ← Option.isSome_eq_false_iff, isSome_answerAt hs]

theorem exists_first_iff_raw (hs : mode = .raw ∨ g.Steady) {i : Nat} :
    (∃ s, g.First a mode i s) ↔ ∃ s, g.First a .raw i s := by
  simp only [exists_first_iff, isSome_answerAt hs]

/-- What is left of a registry when the entry at the position of `a` has been taken out
again and again, until there is none: the number of turns, and the registry before and after. -/
inductive Withdrawn (a : Attribute) : Nat → Registry → Registry → Prop
  | done {g : Registry} : g.position? a = none → Withdrawn a 0 g g
  | turn {n i : Nat} {g h k : Registry} {r : Renderer} :
    g.position? a = some i → g.remove? i = some (r, k) → Withdrawn a n k h →
      Withdrawn a (n + 1) g h

theorem size_of_remove? {i : Nat} {r : Renderer} (hr : g.remove? i = some (r, h)) :
    h.size + 1 = g.size := by
  obtain ⟨p, q, hg, -, hh⟩ := exists_of_remove? hr
  simp [size, hg, hh, Nat.add_assoc]

theorem lt_size_of_position? {i : Nat} (hp : g.position? a = some i) : i < g.size :=
  (List.findIdx?_eq_some_iff_getElem.mp hp).1

theorem exists_withdrawn (a : Attribute) (g : Registry) : ∃ n h, Withdrawn a n g h := by
  cases hp : g.position? a with
  | none => exact ⟨0, g, .done hp⟩
  | some i =>
    obtain ⟨r, k, hr⟩ := exists_remove? (lt_size_of_position? hp)
    have hk := size_of_remove? hr
    obtain ⟨n, h, hw⟩ := exists_withdrawn a k
    exact ⟨n + 1, h, .turn hp hr hw⟩
termination_by g.size
decreasing_by omega

theorem isSome_of_position? {i : Nat} {r : Renderer} (hp : g.position? a = some i)
    (hr : g.remove? i = some (r, h)) : (r a .raw).isSome = true := by
  obtain ⟨s, hs⟩ := position?_eq_some_iff.mp hp
  have hat := hs.answer
  rw [answerAt, getElem?_of_remove? hr, Option.bind_some] at hat
  rw [hat, Option.isSome_some]

namespace Withdrawn

variable {n : Nat}

theorem size_eq (hw : Withdrawn a n g h) : n + h.size = g.size := by
  induction hw with
  | done _ => exact Nat.zero_add _
  | turn _ hr _ ih => rw [← size_of_remove? hr, ← ih]; omega

theorem position?_eq_none (hw : Withdrawn a n g h) : h.position? a = none := by
  induction hw with
  | done hp => exact hp
  | turn _ _ _ ih => exact ih

theorem entries_eq (hw : Withdrawn a n g h) :
    h.entries = g.entries.filter fun r => (r a .raw).isNone := by
  induction hw with
  | @done g hp =>
    symm
    rw [List.filter_eq_self]
    intro r hr
    exact Option.isSome_eq_false_iff.mp (List.findIdx?_eq_none_iff.mp hp r hr)
  -- The entry that goes answers, so the filter would not keep it.
  | turn hp hr _ ih =>
    obtain ⟨p, q, hg, -, hk⟩ := exists_of_remove? hr
    have ha := isSome_of_position? hp hr
    rw [ih, hg, hk, List.filter_append, List.filter_append, List.filter_cons_of_neg]
    rwa [Bool.not_eq_true, Option.isNone_eq_false_iff]

theorem steady (hw : Withdrawn a n g h) (hg : g.Steady) : h.Steady := by
  intro r hr
  rw [hw.entries_eq] at hr
  exact hg r (List.mem_filter.mp hr).1

theorem render_eq_none (hw : Withdrawn a n g h) (hs : mode = .raw ∨ g.Steady) :
    h.render a mode = none := by
  rw [render_eq_none_iff_raw (hs.imp_right hw.steady), ← position?_eq_none_iff]
  exact hw.position?_eq_none

end Withdrawn

theorem steady_after {l : List Action} (hg : g.Steady)
    (hl : ∀ c ∈ l, ∀ r ∈ c.renderers, r.Steady) : (g.after l).Steady :=
  forall_entries_after hg hl

end Registry

/-- A graph fails at a node whose first attribute no renderer writes, unless it fails before. -/
theorem Graph.result_of_render_eq_none {d : Graph} {s : Settings} {n : Node} {a : Attribute}
    {pre post : List Head} (hd : d.heads = pre ++ .node n :: post)
    (hp : ∀ k ∈ pre, ∀ c ∈ k.checks, s.toWording.fault? c = none)
    (hn : n.attributes.items.head? = some a) (hf : a.isFinite = true)
    (hr : s.registry.render a s.strings = none) :
    (d.compile s).result = .error (.noRenderer a.kind) := by
  obtain ⟨l, hl⟩ := List.head?_eq_some_iff.mp hn
  have hpre : (pre.flatMap Head.checks).findSome? s.toWording.fault? = none := by
    rw [List.findSome?_eq_none_iff]
    intro c hc
    obtain ⟨k, hk, hc⟩ := List.mem_flatMap.mp hc
    exact hp k hk c hc
  have ha : s.toWording.fault? (.rendered a) = some (.noRenderer a.kind) := by
    rw [Wording.fault?, if_pos hf, if_pos ((s.toWording.all_isNone_iff a).mpr hr)]
  have hh : (Head.node n).checks = .rendered a :: l.map .rendered := by
    rw [Head.checks, hl, List.map_cons]
  rw [result_eq_error_iff, checks, hd, List.flatMap_append, List.findSome?_append, hpre,
    Option.none_or, List.flatMap_cons, hh, List.cons_append, List.findSome?_cons, ha]

namespace Registry

/-- The position of an attribute is that of the entry whose answer is written, and there is
none if and only if nothing is written. To take out what is found, again and again, comes to
an end, and then a node that shows the attribute first cannot be written. All this is true in
raw mode, and in both modes of a registry whose entries answer in both modes or in none. -/
theorem position?_eq_first :
    (∀ (g : Registry) (l : List Action), g.Steady → (∀ c ∈ l, ∀ r ∈ c.renderers, r.Steady) →
      (g.after l).Steady) ∧
    ∀ (g : Registry) (a : Attribute) (mode : Text.StringMode), mode = .raw ∨ g.Steady →
      (∀ i, g.position? a = some i ↔ ∃ s, g.First a mode i s ∧ g.render a mode = some s) ∧
      (g.position? a = none ↔ g.render a mode = none) ∧
      (∃ n h, Withdrawn a n g h) ∧
      ∀ n h, Withdrawn a n g h → n ≤ g.size ∧ h.render a mode = none ∧
        ∀ (d : Graph) (y : Layout) (m : Node) (pre post : List Head),
          d.heads = pre ++ .node m :: post →
          (∀ k ∈ pre, ∀ c ∈ k.checks, Wording.fault? ⟨mode, h⟩ c = none) →
          m.attributes.items.head? = some a → a.isFinite = true →
          (d.compile { strings := mode, registry := h, layout := y }).result =
            .error (.noRenderer a.kind) := by
  refine ⟨fun g l hg hl => steady_after hg hl, fun g a mode hs => ⟨fun i => ?_, ?_,
    exists_withdrawn a g, fun n h hw => ?_⟩⟩
  · rw [position?_eq_some_iff, ← exists_first_iff_raw hs]
    exact exists_congr fun s => ⟨fun hf => ⟨hf, hf.render_eq⟩, And.left⟩
  · rw [position?_eq_none_iff, render_eq_none_iff_raw hs]
  · have hr := hw.render_eq_none hs
    refine ⟨?_, hr, fun d y m pre post hd hp hm hf => ?_⟩
    · rw [← hw.size_eq]
      exact Nat.le_add_right n h.size
    · exact d.result_of_render_eq_none hd hp hm hf hr

def labelsFirst : Registry := default.after [.push (.ofKind (.custom "tooltip")), .swap 0 6]

/-- Once the renderer for labels is gone from the front, a label cannot be written, though
the node before it can. -/
theorem position?_eq_first_label :
    labelsFirst.Steady ∧ labelsFirst.position? (.label "x") = some 0 ∧
      ∃ h, Withdrawn (.label "x") 1 labelsFirst h ∧ h.render (.label "x") .escaped = none ∧
        (Graph.compile { id := "G", elements := [.node ⟨"m", .ofList [.width ⟨0⟩]⟩,
            .node ⟨"n", .ofList [.label "x", .width ⟨0⟩]⟩] } { registry := h }).result =
          .error (.noRenderer .label) := by
  have hl : ∀ c ∈ [Action.push (.ofKind (.custom "tooltip")), .swap 0 6],
      ∀ r ∈ c.renderers, r.Steady := by
    intro c hc r hr
    simp only [List.mem_cons, List.not_mem_nil, or_false] at hc
    rcases hc with rfl | rfl
    · rw [List.mem_singleton.mp hr]
      exact Renderer.steady_ofKind _
    · cases hr
  have hs : labelsFirst.Steady := position?_eq_first.1 default _ steady_default hl
  obtain ⟨hsome, -, -, hend⟩ := position?_eq_first.2 labelsFirst (.label "x") .escaped (.inr hs)
  have hp : labelsFirst.position? (.label "x") = some 0 :=
    (hsome 0).mpr ⟨"label=x", ⟨by decide +kernel, by decide⟩, by decide +kernel⟩
  have hw : Withdrawn (.label "x") 1 labelsFirst ⟨labelsFirst.entries.eraseIdx 0⟩ :=
    .turn hp rfl (.done (by decide +kernel))
  obtain ⟨-, hr, hc⟩ := hend _ _ hw
  refine ⟨hs, hp, _, hw, hr, hc _ .flat ⟨"n", .ofList [.label "x", .width ⟨0⟩]⟩
    [.node ⟨"m", .ofList [.width ⟨0⟩]⟩] [] rfl ?_ rfl rfl⟩
  intro k hk c hc
  obtain rfl := List.mem_singleton.mp hk
  obtain rfl : c = .rendered (.width ⟨0⟩) := List.mem_singleton.mp hc
  decide +kernel

end Registry

end DotGraph
