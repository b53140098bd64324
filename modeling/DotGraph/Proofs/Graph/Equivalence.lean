import DotGraph.Proofs.Graph.Numbers
set_option autoImplicit false

/-! Equality of graphs as a relation. Two numbers that are equal but not the same are zeros of different
signs, so graphs are equal if they hold no NaN and are the same once all their zeros are positive. -/

namespace DotGraph

namespace Binary64

/-- A zero without its sign, and any other number as it is. -/
def unsignZero (x : Binary64) : Binary64 := if x.isZero then ⟨0⟩ else x

variable {x y : Binary64}

theorem eq_or_isZero_of_beq (h : (x == y) = true) :
    x = y ∨ (x.isZero = true ∧ y.isZero = true) := by
  simp only [beq_def, Bool.and_eq_true, Bool.or_eq_true] at h
  obtain ⟨-, h | h⟩ := h
  · exact .inl (congrArg mk (eq_of_beq h))
  · exact .inr h

theorem isNaN_eq_false_of_isZero (h : x.isZero = true) : x.isNaN = false := by
  simp only [isZero, Bool.and_eq_true, beq_iff_eq] at h
  simp [isNaN, h]

theorem isNaN_eq_false_of_beq (h : (x == y) = true) : x.isNaN = false := by
  simp only [beq_def, Bool.and_eq_true, Bool.not_eq_true'] at h
  exact h.1.1

theorem isZero_unsignZero (x : Binary64) : x.unsignZero.isZero = x.isZero := by
  unfold unsignZero
  split
  · next h => rw [h]; decide
  · rfl

theorem isNaN_unsignZero (x : Binary64) : x.unsignZero.isNaN = x.isNaN := by
  unfold unsignZero
  split
  · next h => rw [isNaN_eq_false_of_isZero h]; decide
  · rfl

theorem beq_iff_unsignZero : (x == y) = true ↔ x.unsignZero = y.unsignZero ∧ x.isNaN = false := by
  constructor
  · intro h
    refine ⟨?_, isNaN_eq_false_of_beq h⟩
    rcases eq_or_isZero_of_beq h with rfl | ⟨hx, hy⟩
    · rfl
    · rw [unsignZero, unsignZero, if_pos hx, if_pos hy]
  · rintro ⟨h, hn⟩
    -- Without their signs, a zero and another number still differ.
    have hz : x.isZero = y.isZero := by rw [← isZero_unsignZero, h, isZero_unsignZero]
    cases hx : x.isZero with
    | true =>
      have hy := hz.symm.trans hx
      simp [beq_def, hn, isNaN_eq_false_of_isZero hy, hx, hy]
    | false =>
      have hy := hz.symm.trans hx
      rw [unsignZero, unsignZero, hx, hy] at h
      obtain rfl : x = y := h
      rw [beq_self, hn]
      rfl

end Binary64

theorem decides_unsignZero (l : List Binary64) : Decides Binary64.unsignZero l :=
  fun _ _ _ => Binary64.beq_iff_unsignZero

theorem decides_self {l : List Binary64} (h : ∀ x ∈ l, x.isZero = false) :
    Decides (fun x => x) l := by
  intro x hx y
  constructor
  · intro he
    refine ⟨?_, Binary64.isNaN_eq_false_of_beq he⟩
    rcases Binary64.eq_or_isZero_of_beq he with rfl | ⟨hz, -⟩
    · rfl
    · rw [h x hx] at hz
      cases hz
  · rintro ⟨rfl, hn⟩
    rw [Binary64.beq_self, hn]
    rfl

namespace Graph

def unsignZeros (g : Graph) : Graph := g.mapNumbers Binary64.unsignZero

theorem beq_iff_unsignZeros {g h : Graph} :
    (g == h) = true ↔ g.unsignZeros = h.unsignZeros ∧ NoNaN g.numbers :=
  beq_iff (decides_unsignZero _)

theorem unsignZeros_eq_of_beq {g h : Graph} (hs : (g == h) = true) :
    g.unsignZeros = h.unsignZeros :=
  (beq_iff_unsignZeros.mp hs).1

theorem noNaN_unsignZeros (g : Graph) : NoNaN g.unsignZeros.numbers ↔ NoNaN g.numbers := by
  rw [unsignZeros, numbers_mapNumbers]
  simp only [NoNaN, List.forall_mem_map, Binary64.isNaN_unsignZero]

instance : PartialEquivBEq Graph where
  symm := by
    intro g h hs
    obtain ⟨hu, hn⟩ := beq_iff_unsignZeros.mp hs
    refine beq_iff_unsignZeros.mpr ⟨hu.symm, ?_⟩
    rwa [← noNaN_unsignZeros, ← hu, noNaN_unsignZeros]
  trans := by
    intro g h k hgh hhk
    obtain ⟨hu, hn⟩ := beq_iff_unsignZeros.mp hgh
    exact beq_iff_unsignZeros.mpr ⟨hu.trans (unsignZeros_eq_of_beq hhk), hn⟩

/-- Equality of graphs is symmetric and transitive. A graph equals itself if and only if no
NaN is in it: not in a subgraph, not in the attributes of one, and not in a copy of a node
at the end of an edge. -/
theorem beq_partial_equivalence :
    (∀ g h : Graph, (g == h) = true → (h == g) = true) ∧
    (∀ g h k : Graph, (g == h) = true → (h == k) = true → (g == k) = true) ∧
    ∀ g : Graph, (g == g) = true ↔ ∀ x ∈ g.numbers, x.isNaN = false := by
  refine ⟨fun g h => BEq.symm, fun g h k => BEq.trans, fun g => ?_⟩
  rw [beq_iff_unsignZeros]
  exact and_iff_right rfl

/-- A number that no document shows, in the copy of a node at the end of an edge. -/
def hidden (x : Binary64) : Graph where
  id := "G"
  elements := [.subgraph "s" .empty [
    .edge ⟨.snapshot ⟨"n", .ofList [.position ⟨⟨0⟩, x⟩]⟩, .named "m", .empty⟩]]

theorem beq_hidden :
    (hidden ⟨0⟩ == hidden ⟨0x8000000000000000#64⟩) = true ∧
    (hidden ⟨0x8000000000000000#64⟩ == hidden ⟨0⟩) = true ∧
    (hidden ⟨0⟩ == hidden ⟨0⟩) = true ∧
    (hidden ⟨0x7FF8000000000000#64⟩ == hidden ⟨0x7FF8000000000000#64⟩) = false := by
  obtain ⟨hs, ht, hr⟩ := beq_partial_equivalence
  have h : (hidden ⟨0⟩ == hidden ⟨0x8000000000000000#64⟩) = true := by decide +kernel
  have hn : ¬ ∀ x ∈ (hidden ⟨0x7FF8000000000000#64⟩).numbers, x.isNaN = false := by
    decide +kernel
  exact ⟨h, hs _ _ h, ht _ _ _ h (hs _ _ h), Bool.eq_false_iff.mpr fun he => hn ((hr _).mp he)⟩

end Graph

end DotGraph
