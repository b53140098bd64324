import DotGraph.Graph.Basic
import Mathlib.Data.List.Induction
import Mathlib.Data.List.Nodup
set_option autoImplicit false

/-!
Tables by their history. What a table holds can be told from the changes that made it:
the kinds that were set and not removed since, each with its latest value, in the order
in which they were first set since their last removal.
-/

namespace DotGraph

namespace Attribute

theorem place_of_mem {a : Attribute} {l : List Attribute} (hn : (l.map kind).Nodup)
    (h : a.kind ∈ l.map kind) : a.place l = l.map fun b => if b.kind = a.kind then a else b := by
  induction l with
  | nil => simp at h
  | cons b l ih =>
    rw [List.map_cons, List.nodup_cons] at hn
    by_cases hb : b.kind = a.kind
    · -- Behind the first attribute of the kind there is no other.
      have hl : ∀ c ∈ l, (if c.kind = a.kind then a else c) = id c := by
        intro c hc
        have hk : c.kind ≠ a.kind := fun e => hn.1 (hb ▸ e ▸ List.mem_map_of_mem hc)
        exact if_neg hk
      rw [place, if_pos hb, List.map_cons, if_pos hb, List.map_congr_left hl, List.map_id]
    · have hl : a.kind ∈ l.map kind := by
        rw [List.map_cons, List.mem_cons] at h
        exact h.resolve_left fun e => hb e.symm
      rw [place, if_neg hb, List.map_cons, if_neg hb, ih hn.2 hl]

theorem place_of_notMem {a : Attribute} {l : List Attribute} (h : a.kind ∉ l.map kind) :
    a.place l = l ++ [a] := by
  induction l with
  | nil => rfl
  | cons b l ih =>
    rw [List.map_cons, List.mem_cons, not_or] at h
    have hb : b.kind ≠ a.kind := fun e => h.1 e.symm
    rw [place, if_neg hb, ih h.2, List.cons_append]

end Attribute

namespace Attributes

variable {t : Attributes}

theorem mem_kinds {k : Attribute.Kind} : k ∈ t.kinds ↔ ∃ a ∈ t.items, a.kind = k :=
  List.mem_map

theorem items_set_of_mem {a : Attribute} (h : a.kind ∈ t.kinds) :
    (t.set a).items = t.items.map fun b => if b.kind = a.kind then a else b :=
  Attribute.place_of_mem t.nodup h

theorem items_set_of_notMem {a : Attribute} (h : a.kind ∉ t.kinds) :
    (t.set a).items = t.items ++ [a] :=
  Attribute.place_of_notMem h

theorem items_erase (k : Attribute.Kind) :
    (t.erase k).items = t.items.filter fun a => a.kind ≠ k := by
  obtain ⟨l, hn⟩ := t
  induction l with
  | nil => rfl
  | cons b l ih =>
    rw [List.map_cons, List.nodup_cons] at hn
    by_cases hb : b.kind = k
    · have hl : l.filter (fun c => c.kind ≠ k) = l := by
        rw [List.filter_eq_self]
        intro c hc
        exact decide_eq_true fun e => hn.1 (hb ▸ e ▸ List.mem_map_of_mem hc)
      rw [List.filter_cons_of_neg (by simp [hb]), hl]
      simp [erase, hb]
    · have hl := ih hn.2
      simp only [erase] at hl
      rw [List.filter_cons_of_pos (by simp [hb]), ← hl]
      simp [erase, hb]

theorem mem_set {a b : Attribute} :
    b ∈ (t.set a).items ↔ b = a ∨ (a.kind ≠ b.kind ∧ b ∈ t.items) := by
  by_cases h : a.kind ∈ t.kinds
  · rw [items_set_of_mem h, List.mem_map]
    obtain ⟨c, hc, hk⟩ := mem_kinds.mp h
    constructor
    · rintro ⟨d, hd, rfl⟩
      by_cases hda : d.kind = a.kind
      · exact .inl (if_pos hda)
      · rw [if_neg hda]
        exact .inr ⟨fun e => hda e.symm, hd⟩
    · rintro (rfl | ⟨hb, hm⟩)
      · exact ⟨c, hc, if_pos hk⟩
      · exact ⟨b, hm, if_neg fun e => hb e.symm⟩
  · have hne : b ∈ t.items → a.kind ≠ b.kind := fun hb e => h (mem_kinds.mpr ⟨b, hb, e.symm⟩)
    rw [items_set_of_notMem h, List.mem_append, List.mem_singleton]
    tauto

theorem mem_erase {k : Attribute.Kind} {b : Attribute} :
    b ∈ (t.erase k).items ↔ k ≠ b.kind ∧ b ∈ t.items := by
  rw [items_erase, List.mem_filter, decide_eq_true_iff, and_comm, ne_comm]

theorem get?_eq_some_iff {k : Attribute.Kind} {a : Attribute} :
    t.get? k = some a ↔ a.kind = k ∧ a ∈ t.items := by
  constructor
  · intro h
    exact ⟨by simpa using List.find?_some h, List.mem_of_find?_eq_some h⟩
  · rintro ⟨rfl, ha⟩
    cases hb : t.get? a.kind with
    | none => simpa using List.find?_eq_none.mp hb a ha
    | some b =>
      have hk : b.kind = a.kind := by simpa using List.find?_some hb
      rw [List.inj_on_of_nodup_map t.nodup (List.mem_of_find?_eq_some hb) ha hk]

theorem get?_eq_none_iff {k : Attribute.Kind} : t.get? k = none ↔ k ∉ t.kinds := by
  rw [get?, List.find?_eq_none, mem_kinds]
  simp

theorem get?_erase_self (k : Attribute.Kind) : (t.erase k).get? k = none := by
  rw [get?_eq_none_iff, mem_kinds]
  rintro ⟨b, hb, hk⟩
  exact (mem_erase.mp hb).1 hk.symm

theorem get?_erase_of_ne {j k : Attribute.Kind} (h : j ≠ k) : (t.erase k).get? j = t.get? j := by
  apply Option.ext
  intro b
  rw [get?_eq_some_iff, get?_eq_some_iff, mem_erase]
  constructor
  · rintro ⟨hb, -, hm⟩
    exact ⟨hb, hm⟩
  · rintro ⟨rfl, hm⟩
    exact ⟨rfl, h.symm, hm⟩

theorem items_foldl_set (l : List Attribute) (h : ((t.items ++ l).map Attribute.kind).Nodup) :
    (l.foldl set t).items = t.items ++ l := by
  induction l generalizing t with
  | nil => simp
  | cons a l ih =>
    have ha : a.kind ∉ t.kinds := by
      intro hm
      rw [List.map_append, List.nodup_append] at h
      exact h.2.2 _ hm _ List.mem_cons_self rfl
    have hi := items_set_of_notMem ha
    have hl : (t.set a).items ++ l = t.items ++ a :: l := by
      rw [hi, List.append_assoc, List.singleton_append]
    rw [List.foldl_cons, ih (hl ▸ h), hl]

theorem ofList_items (t : Attributes) : ofList t.items = t :=
  ext (items_foldl_set t.items t.nodup)

end Attributes

inductive Edit where
  | set (value : Attribute)
  | remove (kind : Attribute.Kind)

namespace Edit

def kind : Edit → Attribute.Kind
  | .set a => a.kind
  | .remove k => k

/-- `a` is the last that its kind was set to, and the kind was not removed since. -/
def Latest (l : List Edit) (a : Attribute) : Prop :=
  ∃ l₁ l₂, l = l₁ ++ .set a :: l₂ ∧ ∀ e ∈ l₂, e.kind ≠ a.kind

/-- However often the kind was set, it was removed since. -/
def Absent (l : List Edit) (k : Attribute.Kind) : Prop :=
  ∀ l₁ a l₂, l = l₁ ++ .set a :: l₂ → a.kind = k → .remove k ∈ l₂

/-- Change number `i` set the kind when it was absent, and the kind was not removed since. -/
def Born (l : List Edit) (k : Attribute.Kind) (i : Nat) : Prop :=
  ∃ l₁ a l₂, l = l₁ ++ .set a :: l₂ ∧ l₁.length = i ∧ a.kind = k ∧ Absent l₁ k ∧ .remove k ∉ l₂

variable {l : List Edit} {e : Edit}

theorem snoc_eq_iff {l₁ l₂ : List Edit} {x : Edit} :
    l ++ [e] = l₁ ++ x :: l₂ ↔
      (l = l₁ ∧ e = x ∧ l₂ = []) ∨ ∃ m, l = l₁ ++ x :: m ∧ l₂ = m ++ [e] := by
  rcases l₂.eq_nil_or_concat with rfl | ⟨m, y, rfl⟩
  · simp
  · constructor
    · intro h
      rw [List.concat_eq_append, ← List.cons_append, ← List.append_assoc] at h
      obtain ⟨hl, he⟩ := List.append_inj' h rfl
      obtain rfl : e = y := List.singleton_inj.mp he
      exact .inr ⟨m, hl, List.concat_eq_append⟩
    · rintro (⟨-, -, hm⟩ | ⟨m', rfl, hm⟩)
      · simp at hm
      · rw [hm, List.append_assoc, List.cons_append]

/-- The last change decides on its own kind and leaves all others. -/
theorem latest_snoc {a : Attribute} :
    Latest (l ++ [e]) a ↔ e = .set a ∨ (e.kind ≠ a.kind ∧ Latest l a) := by
  constructor
  · rintro ⟨l₁, l₂, hl, h⟩
    rcases snoc_eq_iff.mp hl with ⟨-, he, -⟩ | ⟨m, hm, rfl⟩
    · exact .inl he
    · exact .inr ⟨h e (by simp), l₁, m, hm, fun x hx => h x (by simp [hx])⟩
  · rintro (rfl | ⟨he, l₁, m, rfl, h⟩)
    · exact ⟨l, [], rfl, by simp⟩
    · refine ⟨l₁, m ++ [e], snoc_eq_iff.mpr (.inr ⟨m, rfl, rfl⟩), fun x hx => ?_⟩
      rcases List.mem_append.mp hx with hx | hx
      · exact h x hx
      · rwa [List.mem_singleton.mp hx]

theorem absent_snoc {k : Attribute.Kind} :
    Absent (l ++ [e]) k ↔ e = .remove k ∨ (e.kind ≠ k ∧ Absent l k) := by
  constructor
  · intro h
    by_cases hr : e = .remove k
    · exact .inl hr
    -- If the last change set the kind, nothing is left to remove it.
    · refine .inr ⟨fun hk => ?_, fun l₁ a m hl ha => ?_⟩
      · cases e with
        | set a => simpa using h l a [] rfl hk
        | remove j => exact hr (congrArg remove hk)
      · have hm := h l₁ a (m ++ [e]) (snoc_eq_iff.mpr (.inr ⟨m, hl, rfl⟩)) ha
        rw [List.mem_append, List.mem_singleton] at hm
        exact hm.resolve_right fun he => hr he.symm
  · intro h l₁ a l₂ hl ha
    rcases snoc_eq_iff.mp hl with ⟨-, rfl, -⟩ | ⟨m, hm, rfl⟩
    · rcases h with he | ⟨he, -⟩
      · simp at he
      · exact absurd ha he
    · rcases h with rfl | ⟨-, h⟩
      · simp
      · simp [h l₁ a m hm ha]

theorem born_snoc {k : Attribute.Kind} {i : Nat} :
    Born (l ++ [e]) k i ↔
      e ≠ .remove k ∧
        (Born l k i ∨ (i = l.length ∧ (∃ a, e = .set a ∧ a.kind = k) ∧ Absent l k)) := by
  constructor
  · rintro ⟨l₁, a, l₂, hl, rfl, rfl, hd, hr⟩
    rcases snoc_eq_iff.mp hl with ⟨rfl, rfl, -⟩ | ⟨m, hm, rfl⟩
    · exact ⟨by simp, .inr ⟨rfl, ⟨a, rfl, rfl⟩, hd⟩⟩
    · rw [List.mem_append, List.mem_singleton, not_or] at hr
      exact ⟨fun he => hr.2 he.symm, .inl ⟨l₁, a, m, hm, rfl, rfl, hd, hr.1⟩⟩
  · rintro ⟨he, ⟨l₁, a, m, rfl, rfl, rfl, hd, hr⟩ | ⟨rfl, ⟨a, rfl, rfl⟩, hd⟩⟩
    · refine ⟨l₁, a, m ++ [e], snoc_eq_iff.mpr (.inr ⟨m, rfl, rfl⟩), rfl, rfl, hd, ?_⟩
      rw [List.mem_append, List.mem_singleton, not_or]
      exact ⟨hr, fun h => he h.symm⟩
    · exact ⟨l, a, [], rfl, rfl, rfl, hd, by simp⟩

theorem Born.lt {k : Attribute.Kind} {i : Nat} (h : Born l k i) : i < l.length := by
  obtain ⟨l₁, a, l₂, rfl, rfl, -⟩ := h
  simp

theorem Born.not_absent {k : Attribute.Kind} {i : Nat} (h : Born l k i) : ¬ Absent l k := by
  obtain ⟨l₁, a, l₂, hl, -, ha, -, hr⟩ := h
  exact fun hd => hr (hd l₁ a l₂ hl ha)

theorem Born.unique {k : Attribute.Kind} {i j : Nat} (hi : Born l k i) (hj : Born l k j) :
    i = j := by
  induction l using List.reverseRecOn with
  | nil => exact absurd hi.lt (by simp)
  | append_singleton l e ih =>
    obtain ⟨-, hi | ⟨rfl, -, hd⟩⟩ := born_snoc.mp hi
    · obtain ⟨-, hj | ⟨-, -, hd⟩⟩ := born_snoc.mp hj
      · exact ih hi hj
      · exact absurd hd hi.not_absent
    · obtain ⟨-, hj | ⟨rfl, -, -⟩⟩ := born_snoc.mp hj
      · exact absurd hd hj.not_absent
      · rfl

def Older (l : List Edit) (j k : Attribute.Kind) : Prop :=
  ∃ m n, Born l j m ∧ Born l k n ∧ m < n

theorem Older.snoc {j k : Attribute.Kind} (h : Older l j k) (hj : e ≠ .remove j)
    (hk : e ≠ .remove k) : Older (l ++ [e]) j k := by
  obtain ⟨m, n, hm, hn, hlt⟩ := h
  exact ⟨m, n, born_snoc.mpr ⟨hj, .inl hm⟩, born_snoc.mpr ⟨hk, .inl hn⟩, hlt⟩

end Edit

namespace Attributes

def edit (t : Attributes) : Edit → Attributes
  | .set a => t.set a
  | .remove k => t.erase k

def after (l : List Edit) : Attributes := l.foldl edit empty

variable {l : List Edit}

theorem after_snoc (l : List Edit) (e : Edit) : after (l ++ [e]) = (after l).edit e := by
  simp [after]

theorem mem_edit {t : Attributes} {e : Edit} {a : Attribute} :
    a ∈ (t.edit e).items ↔ e = .set a ∨ (e.kind ≠ a.kind ∧ a ∈ t.items) := by
  cases e with
  | set b => simp [edit, mem_set, Edit.kind, eq_comm]
  | remove k => simp [edit, mem_erase, Edit.kind]

theorem mem_after {a : Attribute} : a ∈ (after l).items ↔ Edit.Latest l a := by
  induction l using List.reverseRecOn with
  | nil => simp [after, empty, Edit.Latest]
  | append_singleton l e ih => rw [after_snoc, mem_edit, Edit.latest_snoc, ih]

theorem mem_kinds_edit {t : Attributes} {e : Edit} {k : Attribute.Kind} :
    k ∈ (t.edit e).kinds ↔ (∃ a, e = .set a ∧ a.kind = k) ∨ (e.kind ≠ k ∧ k ∈ t.kinds) := by
  rw [mem_kinds, mem_kinds]
  constructor
  · rintro ⟨a, ha, rfl⟩
    rcases mem_edit.mp ha with he | ⟨he, hm⟩
    · exact .inl ⟨a, he, rfl⟩
    · exact .inr ⟨he, a, hm, rfl⟩
  · rintro (⟨a, he, rfl⟩ | ⟨he, a, hm, rfl⟩)
    · exact ⟨a, mem_edit.mpr (.inl he), rfl⟩
    · exact ⟨a, mem_edit.mpr (.inr ⟨he, hm⟩), rfl⟩

theorem absent_iff {k : Attribute.Kind} : Edit.Absent l k ↔ k ∉ (after l).kinds := by
  induction l using List.reverseRecOn with
  | nil => simp [after, empty, kinds, Edit.Absent]
  | append_singleton l e ih =>
    rw [after_snoc, mem_kinds_edit, Edit.absent_snoc, ih]
    cases e with
    | set a => by_cases ha : a.kind = k <;> simp [Edit.kind, ha]
    | remove j => by_cases hj : j = k <;> simp [Edit.kind, hj]

theorem exists_born_iff {k : Attribute.Kind} : (∃ i, Edit.Born l k i) ↔ k ∈ (after l).kinds := by
  constructor
  · rintro ⟨i, hi⟩
    exact not_not.mp fun hk => hi.not_absent (absent_iff.mpr hk)
  · intro hk
    induction l using List.reverseRecOn with
    | nil => simp [after, empty, kinds] at hk
    | append_singleton l e ih =>
      rw [after_snoc, mem_kinds_edit] at hk
      have hr : e ≠ .remove k := by
        rintro rfl
        simp [Edit.kind] at hk
      by_cases hl : k ∈ (after l).kinds
      · obtain ⟨i, hi⟩ := ih hl
        exact ⟨i, Edit.born_snoc.mpr ⟨hr, .inl hi⟩⟩
      · have he := hk.resolve_right fun h => hl h.2
        exact ⟨_, Edit.born_snoc.mpr ⟨hr, .inr ⟨rfl, he, absent_iff.mpr hl⟩⟩⟩

theorem pairwise_older (l : List Edit) :
    (after l).items.Pairwise fun a b => Edit.Older l a.kind b.kind := by
  induction l using List.reverseRecOn with
  | nil => simp [after, empty]
  | append_singleton l e ih =>
    -- What is removed leaves the others in order. A kind that is set keeps its place if it has
    -- one, and else it comes last, being younger than all others.
    rw [after_snoc]
    cases e with
    | remove k =>
      have hr : ∀ {b : Attribute}, b ∈ ((after l).erase k).items → Edit.remove k ≠ .remove b.kind :=
        fun hb he => (mem_erase.mp hb).1 (Edit.remove.inj he)
      have hp : ((after l).erase k).items.Pairwise fun a b => Edit.Older l a.kind b.kind :=
        ih.sublist List.eraseP_sublist
      exact hp.imp_of_mem fun ha hb h => h.snoc (hr ha) (hr hb)
    | set a =>
      have hs : ∀ {b c : Attribute}, Edit.Older l b.kind c.kind →
          Edit.Older (l ++ [.set a]) b.kind c.kind := fun h => h.snoc (by simp) (by simp)
      by_cases ha : a.kind ∈ (after l).kinds
      · have hk : ∀ b : Attribute, (if b.kind = a.kind then a else b).kind = b.kind := by
          intro b
          split
          · next h => exact h.symm
          · rfl
        rw [edit, items_set_of_mem ha, List.pairwise_map]
        simp only [hk]
        exact ih.imp hs
      · rw [edit, items_set_of_notMem ha, List.pairwise_append]
        refine ⟨ih.imp hs, List.pairwise_singleton _ _, fun b hb c hc => ?_⟩
        rw [List.mem_singleton.mp hc]
        obtain ⟨i, hi⟩ := exists_born_iff.mpr (mem_kinds.mpr ⟨b, hb, rfl⟩)
        have hn := Edit.born_snoc.mpr
          ⟨by simp, .inr ⟨rfl, ⟨a, rfl, rfl⟩, absent_iff.mpr ha⟩⟩
        exact ⟨i, l.length, Edit.born_snoc.mpr ⟨by simp, .inl hi⟩, hn, hi.lt⟩

/-- A table is a map that keeps its kinds in order of insertion: what it holds is what its
history tells, and each change does to it what a change of such a map does. -/
theorem after_history (l : List Edit) :
    ((after l).items.map Attribute.kind).Nodup ∧
    (∀ k a, (after l).get? k = some a ↔ a.kind = k ∧ Edit.Latest l a) ∧
    (∀ k, (after l).get? k = none ↔ Edit.Absent l k) ∧
    (∀ k, (after l).remove? k = ((after l).get? k).map (fun a => (a, (after l).erase k)) ∧
      ((after l).erase k).items = (after l).items.filter (fun a => a.kind ≠ k) ∧
      ((after l).erase k).get? k = none ∧
      ∀ j, j ≠ k → ((after l).erase k).get? j = (after l).get? j) ∧
    (∀ a, a.kind ∈ (after l).kinds →
      ((after l).set a).items = (after l).items.map (fun b => if b.kind = a.kind then a else b) ∧
      ((after l).set a).kinds = (after l).kinds ∧ ((after l).set a).size = (after l).size) ∧
    (∀ a, a.kind ∉ (after l).kinds → ((after l).set a).items = (after l).items ++ [a]) ∧
    (∀ a, a ∈ (after l).items ↔ Edit.Latest l a) ∧
    (∀ k, k ∈ (after l).kinds ↔ ∃ i, Edit.Born l k i) ∧
    (∀ k i j, Edit.Born l k i → Edit.Born l k j → i = j) ∧
    (after l).items.Pairwise (fun a b => Edit.Older l a.kind b.kind) ∧
    ofList (after l).items = after l := by
  refine ⟨(after l).nodup, fun k a => ?_, fun k => ?_, fun k => ?_, fun a ha => ?_,
    fun a ha => items_set_of_notMem ha, fun a => mem_after, fun k => exists_born_iff.symm,
    fun k i j => Edit.Born.unique, pairwise_older l, ofList_items _⟩
  · rw [get?_eq_some_iff, mem_after]
  · rw [get?_eq_none_iff, absent_iff]
  · exact ⟨remove?_eq _ k, items_erase k, get?_erase_self k, fun j hj => get?_erase_of_ne hj⟩
  · have hi := items_set_of_mem ha
    exact ⟨hi, by rw [kinds_set, if_pos ha], by rw [size, size, hi, List.length_map]⟩

/-- A label is set twice and keeps its place, a shape is removed and set again behind. -/
def relabelled : List Edit :=
  [.set (.label "a"), .set (.shape .box), .set (.label "b"), .remove .shape,
    .set (.custom "shape" "c"), .set (.shape .circle)]

theorem after_relabelled :
    (after relabelled).items = [.label "b", .custom "shape" "c", .shape .circle] ∧
      ((after relabelled).set (.label "d")).items =
        [.label "d", .custom "shape" "c", .shape .circle] ∧
      ((after relabelled).set (.custom "Shape" "e")).items =
        [.label "b", .custom "shape" "c", .shape .circle, .custom "Shape" "e"] ∧
      Edit.Older relabelled (.custom "shape") .shape := by
  obtain ⟨-, -, -, -, hs, hn, -, -, -, ho, -⟩ := after_history relabelled
  have hi : (after relabelled).items = [.label "b", .custom "shape" "c", .shape .circle] := rfl
  have hd := (hs (.label "d") (by decide)).1
  have he := hn (.custom "Shape" "e") (by decide)
  rw [hi] at hd he ho
  have hc := List.Pairwise.of_cons ho
  exact ⟨hi, hd, he, List.rel_of_pairwise_cons hc (List.mem_singleton.mpr rfl)⟩

end Attributes

end DotGraph
