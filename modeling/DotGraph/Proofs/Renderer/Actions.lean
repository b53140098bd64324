import DotGraph.Renderer
import Mathlib.Logic.Basic
set_option autoImplicit false

namespace DotGraph

namespace Registry

variable {g h : Registry}

/-- Changes of a registry, and questions to it. To replace it is to put another one in
its place, such as the empty or the default one. -/
inductive Action where
  | push (renderer : Renderer)
  | prepend (renderer : Renderer)
  | insert (index : Nat) (renderer : Renderer)
  | remove (index : Nat)
  | swap (first second : Nat)
  | replace (registry : Registry)
  | position (value : Attribute)
  | render (value : Attribute) (mode : Text.StringMode)
  | describe

inductive Reply where
  | done
  | removed (renderer : Renderer)
  | position (index : Option Nat)
  | text (text : Option String)
  | refused

namespace Action

/-- The positions that the action needs are there. -/
def InRange (g : Registry) : Action → Prop
  | .insert i _ => i ≤ g.size
  | .remove i => i < g.size
  | .swap i j => i < g.size ∧ j < g.size
  | _ => True

instance (g : Registry) (c : Action) : Decidable (c.InRange g) :=
  match c with
  | .insert i _ => inferInstanceAs (Decidable (i ≤ g.size))
  | .remove i => inferInstanceAs (Decidable (i < g.size))
  | .swap i j => inferInstanceAs (Decidable (i < g.size ∧ j < g.size))
  | .push _ | .prepend _ | .replace _ | .position _ | .render _ _ | .describe => .isTrue trivial

def renderers : Action → List Renderer
  | .push r | .prepend r | .insert _ r => [r]
  | .replace g => g.entries
  | _ => []

def take? (g : Registry) : Action → Option (Reply × Registry)
  | .push r => some (.done, g.push r)
  | .prepend r => some (.done, g.prepend r)
  | .insert i r => (g.insert? i r).map fun h => (.done, h)
  | .remove i => (g.remove? i).map fun p => (.removed p.1, p.2)
  | .swap i j => (g.swap? i j).map fun h => (.done, h)
  | .replace h => some (.done, h)
  | .position a => some (.position (g.position? a), g)
  | .render a mode => some (.text (g.render a mode), g)
  | .describe => some (.text g.summary, g)

def take (g : Registry) (c : Action) : Reply × Registry := (c.take? g).getD (.refused, g)

end Action

def after : Registry → List Action → Registry
  | g, [] => g
  | g, c :: l => after (c.take g).2 l

def replies : Registry → List Action → List Reply
  | _, [] => []
  | g, c :: l => (c.take g).1 :: replies (c.take g).2 l

theorem exists_of_insert? {i : Nat} {r : Renderer} (hi : g.insert? i r = some h) :
    ∃ p q, g.entries = p ++ q ∧ p.length = i ∧ h.entries = p ++ r :: q := by
  unfold insert? at hi
  split at hi
  · next hl =>
    cases hi
    exact List.exists_of_modifyTailIdx (List.cons r) hl
  · cases hi

theorem exists_of_remove? {i : Nat} {r : Renderer} (hr : g.remove? i = some (r, h)) :
    ∃ p q, g.entries = p ++ r :: q ∧ p.length = i ∧ h.entries = p ++ q := by
  obtain ⟨s, hs, he⟩ := Option.map_eq_some_iff.mp hr
  obtain ⟨hi, rfl⟩ := List.getElem?_eq_some_iff.mp hs
  cases he
  refine ⟨g.entries.take i, g.entries.drop (i + 1), ?_,
    List.length_take_of_le (Nat.le_of_lt hi), ?_⟩
  · rw [← List.drop_eq_getElem_cons hi, List.take_append_drop]
  · exact List.eraseIdx_eq_take_drop_succ g.entries i

theorem insert?_perm {i : Nat} {r : Renderer} (hi : g.insert? i r = some h) :
    h.entries.Perm (r :: g.entries) := by
  obtain ⟨p, q, hg, -, hh⟩ := exists_of_insert? hi
  rw [hg, hh]
  exact List.perm_middle

theorem remove?_perm {i : Nat} {r : Renderer} (hr : g.remove? i = some (r, h)) :
    (r :: h.entries).Perm g.entries := by
  obtain ⟨p, q, hg, -, hh⟩ := exists_of_remove? hr
  rw [hg, hh]
  exact List.perm_middle.symm

theorem swap?_perm {i j : Nat} (hs : g.swap? i j = some h) : h.entries.Perm g.entries := by
  unfold swap? at hs
  split at hs
  · next r s hi hj =>
    obtain ⟨hgi, rfl⟩ := List.getElem?_eq_some_iff.mp hi
    obtain ⟨hgj, rfl⟩ := List.getElem?_eq_some_iff.mp hj
    cases hs
    exact List.set_set_perm hgi hgj
  · cases hs

theorem insert?_eq_none_iff {i : Nat} {r : Renderer} : g.insert? i r = none ↔ ¬ i ≤ g.size := by
  unfold insert?
  split <;> simp [*]

theorem remove?_eq_none_iff {i : Nat} : g.remove? i = none ↔ ¬ i < g.size := by
  rw [remove?, Option.map_eq_none_iff, List.getElem?_eq_none_iff, Nat.not_lt, size]

theorem swap?_eq_none_iff {i j : Nat} :
    g.swap? i j = none ↔ ¬ (i < g.size ∧ j < g.size) := by
  have hi : g.entries[i]? = none ↔ ¬ i < g.size := by simp [size]
  have hj : g.entries[j]? = none ↔ ¬ j < g.size := by simp [size]
  rw [not_and_or, ← hi, ← hj, swap?]
  cases g.entries[i]? <;> cases g.entries[j]? <;> simp

theorem Action.take?_eq_none_iff {c : Action} : c.take? g = none ↔ ¬ c.InRange g := by
  cases c with
  | insert i r => rw [take?, Option.map_eq_none_iff, insert?_eq_none_iff]; rfl
  | remove i => rw [take?, Option.map_eq_none_iff, remove?_eq_none_iff]; rfl
  | swap i j => rw [take?, Option.map_eq_none_iff, swap?_eq_none_iff]; rfl
  | _ => simp [take?, InRange]

theorem Action.take_of_not_inRange {c : Action} (hc : ¬ c.InRange g) :
    c.take g = (.refused, g) := by
  rw [take, take?_eq_none_iff.mpr hc, Option.getD_none]

theorem after_append (g : Registry) (l m : List Action) :
    g.after (l ++ m) = (g.after l).after m := by
  induction l generalizing g with
  | nil => rfl
  | cons c l ih => exact ih (c.take g).2

theorem replies_append (g : Registry) (l m : List Action) :
    g.replies (l ++ m) = g.replies l ++ (g.after l).replies m := by
  induction l generalizing g with
  | nil => rfl
  | cons c l ih => rw [List.cons_append, replies, replies, ih, after, List.cons_append]

/-- A refused action leaves its own reply and no other trace. -/
theorem after_refused {l : List Action} {c : Action} (hc : ¬ c.InRange (g.after l))
    (m : List Action) : g.after (l ++ c :: m) = g.after (l ++ m) := by
  rw [after_append, after_append, after, Action.take_of_not_inRange hc]

theorem replies_refused {l : List Action} {c : Action} (hc : ¬ c.InRange (g.after l))
    (m : List Action) :
    g.replies (l ++ c :: m) = g.replies l ++ .refused :: (g.after l).replies m := by
  rw [replies_append, replies, Action.take_of_not_inRange hc]

theorem forall_entries_take? {P : Renderer → Prop} {c : Action} {p : Reply}
    (ht : c.take? g = some (p, h)) (hg : ∀ r ∈ g.entries, P r) (hc : ∀ r ∈ c.renderers, P r) :
    ∀ r ∈ h.entries, P r := by
  -- No entry comes in but the renderers of the action, whatever becomes of the order.
  cases c with
  | push r =>
    cases ht
    exact List.forall_mem_append.mpr ⟨hg, hc⟩
  | prepend r =>
    cases ht
    exact List.forall_mem_cons.mpr ⟨hc r List.mem_cons_self, hg⟩
  | insert i r =>
    obtain ⟨k, hk, he⟩ := Option.map_eq_some_iff.mp ht
    cases he
    have hr := List.forall_mem_cons.mpr ⟨hc r List.mem_cons_self, hg⟩
    exact fun s hs => hr s ((insert?_perm hk).mem_iff.mp hs)
  | remove i =>
    obtain ⟨q, hq, he⟩ := Option.map_eq_some_iff.mp ht
    cases he
    exact fun s hs => hg s ((remove?_perm hq).mem_iff.mp (List.mem_cons_of_mem q.1 hs))
  | swap i j =>
    obtain ⟨k, hk, he⟩ := Option.map_eq_some_iff.mp ht
    cases he
    exact fun s hs => hg s ((swap?_perm hk).mem_iff.mp hs)
  | replace k =>
    cases ht
    exact hc
  | _ =>
    cases ht
    exact hg

theorem forall_entries_take {P : Renderer → Prop} {c : Action} (hg : ∀ r ∈ g.entries, P r)
    (hc : ∀ r ∈ c.renderers, P r) : ∀ r ∈ (c.take g).2.entries, P r := by
  rw [Action.take]
  cases ht : c.take? g with
  | none => exact hg
  | some p => exact forall_entries_take? ht hg hc

theorem forall_entries_after {P : Renderer → Prop} {l : List Action} (hg : ∀ r ∈ g.entries, P r)
    (hl : ∀ c ∈ l, ∀ r ∈ c.renderers, P r) : ∀ r ∈ (g.after l).entries, P r := by
  induction l generalizing g with
  | nil => exact hg
  | cons c l ih =>
    obtain ⟨hc, hl⟩ := List.forall_mem_cons.mp hl
    exact ih (forall_entries_take hg hc) hl

end Registry

end DotGraph
