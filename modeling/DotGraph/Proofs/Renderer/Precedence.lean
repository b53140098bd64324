import DotGraph.Proofs.Renderer.Actions
set_option autoImplicit false

namespace DotGraph

namespace Registry

variable {g h : Registry} {a : Attribute} {mode : Text.StringMode}

def take (g : Registry) (i : Nat) : Registry := ⟨g.entries.take i⟩

def drop (g : Registry) (i : Nat) : Registry := ⟨g.entries.drop i⟩

def answerAt (g : Registry) (a : Attribute) (mode : Text.StringMode) (i : Nat) : Option String :=
  g.entries[i]?.bind fun r => r a mode

/-- The entry at position `i` answers with `s`, and none in front of it answers. -/
structure First (g : Registry) (a : Attribute) (mode : Text.StringMode) (i : Nat)
    (s : String) : Prop where
  answer : g.answerAt a mode i = some s
  silent : ∀ j < i, g.answerAt a mode j = none

theorem render_of_entries {p q : List Renderer} (hg : g.entries = p ++ q) (a : Attribute)
    (mode : Text.StringMode) :
    g.render a mode = ((⟨p⟩ : Registry).render a mode).or ((⟨q⟩ : Registry).render a mode) := by
  rw [render, hg, List.findSome?_append]
  rfl

theorem render_take_or_drop (g : Registry) (i : Nat) (a : Attribute) (mode : Text.StringMode) :
    g.render a mode = ((g.take i).render a mode).or ((g.drop i).render a mode) :=
  render_of_entries (List.take_append_drop i g.entries).symm a mode

theorem render_drop (g : Registry) (i : Nat) (a : Attribute) (mode : Text.StringMode) :
    (g.drop i).render a mode = (g.answerAt a mode i).or ((g.drop (i + 1)).render a mode) := by
  by_cases hi : i < g.entries.length
  · have hd : g.drop i = (g.drop (i + 1)).prepend g.entries[i] := by
      rw [drop, List.drop_eq_getElem_cons hi]
      rfl
    rw [hd, render_prepend, answerAt, List.getElem?_eq_getElem hi, Option.bind_some]
  · have hl : g.entries.length ≤ i := Nat.le_of_not_lt hi
    rw [drop, drop, answerAt, List.getElem?_eq_none hl, List.drop_of_length_le hl,
      List.drop_of_length_le (Nat.le_succ_of_le hl)]
    rfl

theorem render_eq_none_iff : g.render a mode = none ↔ ∀ i, g.answerAt a mode i = none := by
  rw [render, List.findSome?_eq_none_iff]
  constructor
  · intro h i
    rw [answerAt, Option.bind_eq_none_iff]
    exact fun r hr => h r (List.mem_of_getElem? hr)
  · intro h r hr
    obtain ⟨i, hi⟩ := List.getElem?_of_mem hr
    have hr := h i
    rwa [answerAt, hi, Option.bind_some] at hr

theorem render_take_eq_none_iff {i : Nat} :
    (g.take i).render a mode = none ↔ ∀ j < i, g.answerAt a mode j = none := by
  rw [render_eq_none_iff]
  constructor
  · intro h j hj
    rw [← h j, answerAt, answerAt, take, List.getElem?_take_of_lt hj]
  · intro h j
    by_cases hj : j < i
    · rw [← h j hj, answerAt, answerAt, take, List.getElem?_take_of_lt hj]
    · rw [answerAt, take, List.getElem?_take_eq_none (Nat.le_of_not_lt hj), Option.bind_none]

theorem First.render_eq {i : Nat} {s : String} (hf : g.First a mode i s) :
    g.render a mode = some s := by
  rw [g.render_take_or_drop i, render_take_eq_none_iff.mpr hf.silent, Option.none_or, render_drop,
    hf.answer, Option.some_or]

theorem take_eq {p q : List Renderer} (hg : g.entries = p ++ q) : g.take p.length = ⟨p⟩ := by
  rw [take, hg, List.take_left]

theorem drop_eq {p q : List Renderer} (hg : g.entries = p ++ q) : g.drop p.length = ⟨q⟩ := by
  rw [drop, hg, List.drop_left]

theorem drop_succ_eq {p q : List Renderer} {r : Renderer} (hg : g.entries = p ++ r :: q) :
    g.drop (p.length + 1) = ⟨q⟩ := by
  rw [drop, hg, ← List.drop_drop, List.drop_left, List.drop_succ_cons, List.drop_zero]

theorem render_insert? {i : Nat} {r : Renderer} (hi : g.insert? i r = some h) (a : Attribute)
    (mode : Text.StringMode) :
    h.render a mode =
      ((g.take i).render a mode).or ((r a mode).or ((g.drop i).render a mode)) := by
  obtain ⟨p, q, hg, rfl, hh⟩ := exists_of_insert? hi
  have hr : (⟨r :: q⟩ : Registry).render a mode =
      (r a mode).or ((⟨q⟩ : Registry).render a mode) := render_prepend ⟨q⟩ r a mode
  rw [render_of_entries hh, hr, take_eq hg, drop_eq hg]

theorem render_remove? {i : Nat} {r : Renderer} (hr : g.remove? i = some (r, h)) (a : Attribute)
    (mode : Text.StringMode) :
    h.render a mode = ((g.take i).render a mode).or ((g.drop (i + 1)).render a mode) := by
  obtain ⟨p, q, hg, rfl, hh⟩ := exists_of_remove? hr
  rw [render_of_entries hh, take_eq hg, drop_succ_eq hg]

theorem First.render_remove? {i : Nat} {s : String} {r : Renderer} (hf : g.First a mode i s)
    (hr : g.remove? i = some (r, h)) : h.render a mode = (g.drop (i + 1)).render a mode := by
  rw [Registry.render_remove? hr, render_take_eq_none_iff.mpr hf.silent, Option.none_or]

theorem render_remove?_of_not_first {i : Nat} {r : Renderer} (hr : g.remove? i = some (r, h))
    (hf : ∀ s, ¬ g.First a mode i s) : h.render a mode = g.render a mode := by
  rw [Registry.render_remove? hr, g.render_take_or_drop i, g.render_drop i]
  -- If none in front of it answers and it does, it is the first.
  cases ht : (g.take i).render a mode with
  | some s => rfl
  | none =>
    cases hi : g.answerAt a mode i with
    | none => rfl
    | some s => exact absurd ⟨hi, render_take_eq_none_iff.mp ht⟩ (hf s)

theorem exists_insert? {i : Nat} (hi : i ≤ g.size) (r : Renderer) :
    ∃ h, g.insert? i r = some h :=
  Option.ne_none_iff_exists'.mp fun hn => insert?_eq_none_iff.mp hn hi

theorem exists_remove? {i : Nat} (hi : i < g.size) :
    ∃ r h, g.remove? i = some (r, h) := by
  obtain ⟨p, hp⟩ := Option.ne_none_iff_exists'.mp fun hn => remove?_eq_none_iff.mp hn hi
  exact ⟨p.1, p.2, hp⟩

theorem remove?_insert? {i : Nat} {r : Renderer} (hi : g.insert? i r = some h) :
    h.remove? i = some (r, g) := by
  obtain ⟨p, q, hg, rfl, hh⟩ := exists_of_insert? hi
  obtain ⟨l⟩ := g
  obtain ⟨m⟩ := h
  cases hg
  cases hh
  simp [remove?, List.eraseIdx_append_of_length_le]

theorem getElem?_of_remove? {i : Nat} {r : Renderer} (hr : g.remove? i = some (r, h)) :
    g.entries[i]? = some r := by
  obtain ⟨p, q, hg, rfl, -⟩ := exists_of_remove? hr
  simp [hg]

/-- A renderer that comes in answers behind the entries in front of it and before all others,
and when it goes again the registry is what it was. An entry that goes makes a difference
only where it was the first to answer, and then the next one that answers takes its place.
Actions out of range, and no others, are refused, and they make no difference at all. -/
theorem render_shadowed (g : Registry) :
    (∀ i r, i ≤ g.size → ∃ h, g.insert? i r = some h ∧ h.remove? i = some (r, g) ∧
      ∀ a mode, h.render a mode =
        ((g.take i).render a mode).or ((r a mode).or ((g.drop i).render a mode))) ∧
    (∀ r a mode, (g.prepend r).render a mode = (r a mode).or (g.render a mode) ∧
      (g.push r).render a mode = (g.render a mode).or (r a mode)) ∧
    (∀ i, i < g.size → ∃ r h, g.remove? i = some (r, h) ∧ g.entries[i]? = some r ∧
      ∀ a mode,
        ((∀ s, ¬ g.First a mode i s) → h.render a mode = g.render a mode) ∧
        ∀ s, g.First a mode i s → g.render a mode = some s ∧
          h.render a mode = (g.drop (i + 1)).render a mode) ∧
    (∀ c : Action, c.take? g = none ↔ ¬ c.InRange g) ∧
    ∀ (l m : List Action) (c : Action), ¬ c.InRange (g.after l) →
      g.after (l ++ c :: m) = g.after (l ++ m) ∧
      g.replies (l ++ m) = g.replies l ++ (g.after l).replies m ∧
      g.replies (l ++ c :: m) = g.replies l ++ .refused :: (g.after l).replies m := by
  refine ⟨fun i r hi => ?_, fun r a mode => ⟨g.render_prepend r a mode, g.render_push r a mode⟩,
    fun i hi => ?_, fun c => Action.take?_eq_none_iff, fun l m c hc => ?_⟩
  · obtain ⟨h, hh⟩ := exists_insert? hi r
    exact ⟨h, hh, remove?_insert? hh, render_insert? hh⟩
  · obtain ⟨r, h, hr⟩ := exists_remove? hi
    refine ⟨r, h, hr, getElem?_of_remove? hr, fun a mode => ⟨render_remove?_of_not_first hr, ?_⟩⟩
    exact fun s hs => ⟨hs.render_eq, hs.render_remove? hr⟩
  · exact ⟨after_refused hc m, g.replies_append l m, replies_refused hc m⟩

/-- Both entries answer for widths, and the second also for heights. -/
def rulers : Registry :=
  ⟨[.onKind .width (.const "w"), fun a mode =>
    (Renderer.onKind .width (.const "v") a mode).or (Renderer.onKind .height (.const "h") a mode)]⟩

/-- Neither of the entries is missed where the other one answers, and without the first
there are no two entries to swap. -/
theorem render_shadowed_rulers :
    (∃ h, rulers.insert? 1 (.const "x") = some h ∧ h.remove? 1 = some (.const "x", rulers) ∧
      h.render (.width ⟨0⟩) .raw = some "w" ∧ h.render (.height ⟨0⟩) .raw = some "x") ∧
    (∃ r h, rulers.remove? 0 = some (r, h) ∧ h.render (.width ⟨0⟩) .raw = some "v" ∧
      h.render (.height ⟨0⟩) .raw = rulers.render (.height ⟨0⟩) .raw) ∧
    rulers.after [.remove 0, .swap 0 1, .insert 18446744073709551615 (.const "x")] =
      rulers.after [.remove 0, .insert 18446744073709551615 (.const "x")] := by
  obtain ⟨hinsert, -, hremove, -, hrefused⟩ := render_shadowed rulers
  refine ⟨?_, ?_, ?_⟩
  · obtain ⟨h, hi, hr, hh⟩ := hinsert 1 (.const "x") (by decide)
    exact ⟨h, hi, hr, (hh _ _).trans rfl, (hh _ _).trans rfl⟩
  · obtain ⟨r, h, hr, -, hh⟩ := hremove 0 (by decide)
    have hw : rulers.First (.width ⟨0⟩) .raw 0 "w" :=
      ⟨rfl, fun j hj => absurd hj (Nat.not_lt_zero j)⟩
    have hn : ∀ s, ¬ rulers.First (.height ⟨0⟩) .raw 0 s := fun s hs => by cases hs.answer
    exact ⟨r, h, hr, ((hh _ _).2 "w" hw).2.trans rfl, (hh _ _).1 hn⟩
  · exact (hrefused [.remove 0] _ (.swap 0 1) (by decide)).1

end Registry

end DotGraph
