import DotGraph.Attribute
set_option autoImplicit false

/-!
Graphs: nodes, edges and subgraphs in the order in which they are written. The attributes of
each are a table with at most one entry of a kind, in the order in which the kinds were first set.
-/

namespace DotGraph

/-- Puts `a` in the place of the first attribute of its kind, or else at the end. -/
def Attribute.place (a : Attribute) : List Attribute → List Attribute
  | [] => [a]
  | b :: l => if b.kind = a.kind then a :: l else b :: a.place l

theorem Attribute.kinds_place (a : Attribute) (l : List Attribute) :
    (a.place l).map kind =
      if a.kind ∈ l.map kind then l.map kind else l.map kind ++ [a.kind] := by
  induction l with
  | nil => rfl
  | cons b l ih =>
    by_cases h : b.kind = a.kind
    · simp [place, h]
    · have h' : ¬ a.kind = b.kind := fun e => h e.symm
      by_cases hm : a.kind ∈ l.map kind <;> simp_all [place]

structure Attributes where
  items : List Attribute
  nodup : (items.map Attribute.kind).Nodup

namespace Attributes

def kinds (t : Attributes) : List Attribute.Kind := t.items.map Attribute.kind

def empty : Attributes := ⟨[], List.nodup_nil⟩

instance : Inhabited Attributes := ⟨empty⟩

instance : EmptyCollection Attributes := ⟨empty⟩

def size (t : Attributes) : Nat := t.items.length

def isEmpty (t : Attributes) : Bool := t.items.isEmpty

def get? (t : Attributes) (k : Attribute.Kind) : Option Attribute :=
  t.items.find? fun a => a.kind == k

def set (t : Attributes) (a : Attribute) : Attributes where
  items := a.place t.items
  nodup := by
    rw [Attribute.kinds_place]
    split
    · exact t.nodup
    · next h =>
      rw [List.nodup_append]
      refine ⟨t.nodup, by simp, fun x hx y hy e => h ?_⟩
      rw [List.mem_singleton] at hy
      rwa [← hy, ← e]

def erase (t : Attributes) (k : Attribute.Kind) : Attributes where
  items := t.items.eraseP fun a => a.kind == k
  nodup := t.nodup.sublist (List.eraseP_sublist.map Attribute.kind)

def remove? (t : Attributes) (k : Attribute.Kind) : Option (Attribute × Attributes) :=
  (t.items.findIdx? fun a => a.kind == k).bind fun i =>
    t.items[i]?.map fun a =>
      (a, ⟨t.items.eraseIdx i,
        t.nodup.sublist ((List.eraseIdx_sublist t.items i).map Attribute.kind)⟩)

def ofList (l : List Attribute) : Attributes := l.foldl set empty

@[ext] theorem ext {s t : Attributes} (h : s.items = t.items) : s = t := by
  cases s; cases t; cases h; rfl

theorem remove?_eq (t : Attributes) (k : Attribute.Kind) :
    t.remove? k = (t.get? k).map fun a => (a, t.erase k) := by
  have he := @List.eraseP_eq_eraseIdx _ t.items fun a => a.kind == k
  rw [remove?, get?, List.find?_eq_bind_findIdx?_getElem?]
  cases hi : t.items.findIdx? fun a => a.kind == k with
  | none => rfl
  | some i =>
    rw [hi] at he
    have ht : t.erase k = ⟨t.items.eraseIdx i,
        t.nodup.sublist ((List.eraseIdx_sublist t.items i).map Attribute.kind)⟩ := ext he
    simp only [Option.bind_some, ht]

theorem kinds_set (t : Attributes) (a : Attribute) :
    (t.set a).kinds = if a.kind ∈ t.kinds then t.kinds else t.kinds ++ [a.kind] :=
  a.kinds_place t.items

end Attributes

structure Node where
  id : String
  attributes : Attributes := {}

/-- One end of an edge: an identifier, or a copy of a node as it was when the edge was
made. Only the identifier of the copy is ever written. -/
inductive Endpoint where
  | named (id : String)
  | snapshot (node : Node)

def Endpoint.id : Endpoint → String
  | .named i => i
  | .snapshot n => n.id

structure Edge where
  left : Endpoint
  right : Endpoint
  attributes : Attributes := {}

inductive Element where
  | node (node : Node)
  | edge (edge : Edge)
  | subgraph (id : String) (attributes : Attributes) (elements : List Element)

structure Graph where
  id : String
  directed : Bool := false
  strict : Bool := false
  elements : List Element := []

end DotGraph
