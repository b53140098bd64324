import DotGraph.Proofs.Document.Walk
set_option autoImplicit false

/-! The writer and the list of statements. The writer counts the depth, and in the list every statement
is at the depth that the counter has there. -/

namespace DotGraph

namespace Move

/-- The statements written from a depth on, and the depth at the end. The counter cannot
be lowered below 0. -/
def run? : Nat → List Move → Option (List Statement × Nat)
  | d, [] => some ([], d)
  | d, .write s :: l => (run? d l).map fun r => (⟨d, s⟩ :: r.1, r.2)
  | d, .raise :: l => run? (d + 1) l
  | 0, .lower :: _ => none
  | d + 1, .lower :: l => run? d l

theorem run?_append {l m : List Move} {d e f : Nat} {a b : List Statement}
    (hl : run? d l = some (a, e)) (hm : run? e m = some (b, f)) :
    run? d (l ++ m) = some (a ++ b, f) := by
  induction l generalizing d a with
  | nil =>
    obtain ⟨rfl, rfl⟩ : [] = a ∧ d = e := by simpa [run?] using hl
    exact hm
  | cons c l ih =>
    cases c with
    | write s =>
      obtain ⟨r, hr, he⟩ := Option.map_eq_some_iff.mp hl
      obtain ⟨rfl, rfl⟩ := Prod.mk.inj he
      simp only [List.cons_append, run?, ih hr, Option.map_some]
    | raise => exact ih hl
    | lower =>
      cases d with
      | zero => simp [run?] at hl
      | succ d => exact ih hl

theorem run?_writes (d : Nat) (l : List String) :
    run? d (l.map .write) = some (l.map (Statement.mk d), d) := by
  induction l with
  | nil => rfl
  | cons s l ih => simp only [List.map_cons, run?, ih, Option.map_some]

/-- Work that is broken off has not lowered the counter below 0 either. -/
theorem isSome_run?_of_isSome_append {l m : List Move} {d : Nat}
    (h : (run? d (l ++ m)).isSome = true) : (run? d l).isSome = true := by
  induction l generalizing d with
  | nil => rfl
  | cons c l ih =>
    cases c with
    | write s =>
      simp only [List.cons_append, run?, Option.isSome_map] at h ⊢
      exact ih h
    | raise => exact ih h
    | lower =>
      cases d with
      | zero => simp [run?] at h
      | succ d => exact ih h

end Move

namespace Wording

variable (w : Wording)

mutual

def moves (directed : Bool) : Element → List Move
  | .node n => [.write (w.nodeText n)]
  | .edge e => [.write (w.edgeText directed e)]
  | .subgraph i t l =>
    .write (w.opening i) :: .raise ::
      ((t.items.map w.ownText).map .write ++ allMoves directed l ++ [.lower, .write "\x7d"])

def allMoves (directed : Bool) : List Element → List Move
  | [] => []
  | e :: l => moves directed e ++ allMoves directed l

end

def graphMoves (g : Graph) : List Move :=
  .write (w.header g) :: .raise :: (w.allMoves g.directed g.elements ++ [.lower])

mutual

theorem run?_moves (directed : Bool) (d : Nat) (e : Element) :
    Move.run? d (w.moves directed e) = some (w.statements directed d e, d) := by
  cases e with
  | node n => rfl
  | edge e => rfl
  | subgraph i t l =>
    have ht := Move.run?_writes (d + 1) (t.items.map w.ownText)
    have hl := run?_allMoves directed (d + 1) l
    have hc : Move.run? (d + 1) [.lower, .write "\x7d"] = some ([⟨d, "\x7d"⟩], d) := rfl
    have h := Move.run?_append (Move.run?_append ht hl) hc
    simp only [moves, Move.run?, h, Option.map_some, statements]

theorem run?_allMoves (directed : Bool) (d : Nat) (l : List Element) :
    Move.run? d (w.allMoves directed l) = some (w.allStatements directed d l, d) := by
  cases l with
  | nil => rfl
  | cons e l => exact Move.run?_append (run?_moves directed d e) (run?_allMoves directed d l)

end

theorem run?_graphMoves (g : Graph) :
    Move.run? 0 (w.graphMoves g) = some (w.graphStatements g, 0) := by
  have hc : Move.run? 1 [.lower] = some ([], 0) := rfl
  have h := Move.run?_append (w.run?_allMoves g.directed 1 g.elements) hc
  simp only [graphMoves, Move.run?, h, Option.map_some, List.append_nil, graphStatements]

end Wording

theorem indent_succ (d : Nat) : indent (d + 1) = indent d ++ "    " := by
  rw [indent, Nat.mul_succ, ← List.replicate_append_replicate, String.ofList_append, ← indent]
  rfl

theorem repeat_indent (d : Nat) (t : String) : Nat.repeat (· ++ "    ") d t = t ++ indent d := by
  induction d with
  | zero => simp [Nat.repeat, indent]
  | succ d ih => rw [Nat.repeat, ih, indent_succ, String.append_assoc]

namespace Output

def append (o : Output) (l : List Statement) : Output :=
  { o with text := o.text ++ o.layout.lines l }

theorem append_nil (o : Output) : o.append [] = o := by
  simp [append, Layout.lines]

theorem append_append (o : Output) (l m : List Statement) :
    (o.append l).append m = o.append (l ++ m) := by
  simp [append, Layout.lines_append, String.append_assoc]

@[simp] theorem depth_append (o : Output) (l : List Statement) : (o.append l).depth = o.depth := rfl

theorem move?_write (o : Output) (s : String) :
    o.move? (.write s) = some (o.append [⟨o.depth, s⟩]) := by
  cases h : o.layout <;>
    simp [move?, statement, append, h, Layout.lines, Layout.line, repeat_indent,
      String.append_assoc]

theorem move?_raise (o : Output) : o.move? .raise = some { o with depth := o.depth + 1 } := rfl

theorem move?_lower {o : Output} {d : Nat} (h : o.depth = d + 1) :
    o.move? .lower = some { o with depth := d } := by
  simp only [move?, h]

/-- The counter of the output is the one that `Move.run?` keeps. -/
theorem foldlM_move? (o : Output) (l : List Move) :
    l.foldlM move? o =
      (Move.run? o.depth l).map fun r => { o.append r.1 with depth := r.2 } := by
  induction l generalizing o with
  | nil => simp [Move.run?, append_nil]
  | cons c l ih =>
    rw [List.foldlM_cons]
    cases c with
    | write s =>
      rw [move?_write, Option.bind_eq_bind, Option.bind_some, ih, Move.run?, Option.map_map]
      congr 1
      funext r
      simp [append, Layout.lines, String.append_assoc]
    | raise => exact ih _
    | lower =>
      cases h : o.depth with
      | zero => simp [move?, h, Move.run?]
      | succ d =>
        rw [move?_lower h]
        exact ih _

end Output

namespace Writing

variable {α β : Type} {o p : Output} {m : Move}

theorem run_bind {z : Logged α} {g : α → β × Output} {x : Writing β} {f : β → Writing Unit}
    (h : (x.run o).run = (fun a => some (g a)) <$> z) :
    ((x >>= f).run o).run = z >>= fun a => ((f (g a).1).run (g a).2).run := by
  rw [StateT.run_bind, OptionT.run_bind, Option.elimM, h]
  simp

theorem run_lift (z : Logged α) (f : α → Writing Unit) :
    ((monadLift z >>= f : Writing Unit).run o).run = z >>= fun a => ((f a).run o).run := by
  have h : ((monadLift z : Writing α).run o).run = (fun a => some (a, o)) <$> z := by
    obtain ⟨l, r⟩ := z
    cases r with
    | error e => rfl
    | ok a =>
      change (⟨l ++ [] ++ [], .ok (some (a, o))⟩ : Logged (Option (α × Output))) = ⟨l, _⟩
      rw [List.append_nil, List.append_nil]
      rfl
  exact run_bind h

theorem run_last (h : o.move? m = some p) : ((perform m).run o).run = pure (some ((), p)) := by
  change (pure ((o.move? m).map _) : Logged _) = _
  rw [h]
  rfl

theorem run_perform (h : o.move? m = some p) (x : Writing Unit) :
    ((do perform m; x).run o).run = (x.run p).run := by
  have hp : ((perform m).run o).run = (fun p => some ((), p)) <$> (pure p : Logged Output) :=
    run_last h
  rw [run_bind hp, pure_bind]

theorem run_close {d : Nat} (h : o.depth = d + 1) :
    ((do perform .lower; perform (.write "\x7d")).run o).run =
      pure (some ((), { o with depth := d }.append [⟨d, "\x7d"⟩])) := by
  rw [run_perform (Output.move?_lower h), run_last (Output.move?_write _ _)]

end Writing

namespace Wording

open Output Writing

variable (w : Wording)

theorem writeOwn_eq (l : List Attribute) (o : Output) :
    ((w.writeOwn l).run o).run =
      (fun t => some ((), o.append (t.map (Statement.mk o.depth)))) <$>
        l.mapM w.subgraphAttribute := by
  induction l generalizing o with
  | nil => simp [writeOwn, append_nil]
  | cons a l ih =>
    rw [writeOwn, run_lift, List.mapM_cons, map_bind]
    refine bind_congr fun s => ?_
    rw [run_perform (move?_write _ _), ih]
    simp [append_append]

mutual

theorem write_eq (directed : Bool) (e : Element) (o : Output) :
    ((w.write directed e).run o).run =
      (fun l => some ((), o.append l)) <$> w.element directed o.depth e := by
  -- Both sides note and check in one order, so they are compared from bind to bind.
  cases e with
  | node n =>
    rw [write, run_lift, element]
    simp [run_last (move?_write _ _)]
  | edge e =>
    rw [write, run_lift, element]
    simp [run_last (move?_write _ _)]
  | subgraph i t l =>
    rw [write, run_lift, element, map_bind]
    refine bind_congr fun _ => ?_
    rw [run_perform (move?_write _ _), run_perform (move?_raise _), run_bind (writeOwn_eq w _ _),
      map_bind]
    refine bind_congr fun own => ?_
    rw [run_bind (writeAll_eq directed l _), map_bind]
    refine bind_congr fun inner => ?_
    rw [run_close (d := o.depth) rfl, map_pure]
    simp [append, Layout.lines, String.append_assoc]

theorem writeAll_eq (directed : Bool) (l : List Element) (o : Output) :
    ((w.writeAll directed l).run o).run =
      (fun l => some ((), o.append l)) <$> w.elements directed o.depth l := by
  cases l with
  | nil => simp [writeAll, elements, append_nil]
  | cons e l =>
    rw [writeAll, run_bind (write_eq directed e o), elements, map_bind]
    refine bind_congr fun head => ?_
    have hl := writeAll_eq directed l (o.append head)
    simp [hl, append_append]

end

theorem writeGraph_eq (g : Graph) (y : Layout) :
    ((w.writeGraph g).run { layout := y }).run =
      (fun l => some ((), Output.append { layout := y } l)) <$> w.graph g := by
  rw [writeGraph, run_lift, graph, map_bind]
  refine bind_congr fun _ => ?_
  rw [run_perform (move?_write _ _), run_perform (move?_raise _), run_bind (writeAll_eq w _ _ _),
    map_bind]
  refine bind_congr fun body => ?_
  rw [run_last (move?_lower (d := 0) rfl), map_pure]
  simp [append, Layout.lines]

end Wording

/-- The writer never gets stuck, and it writes and logs what `compile` does. -/
theorem Graph.write_eq (g : Graph) (s : Settings) : g.write s = some <$> g.compile s := by
  have h := s.toWording.writeGraph_eq g s.layout
  rw [StateT.run] at h
  rw [Graph.write, h, Graph.compile]
  simp [Output.append, Layout.document]

end DotGraph
