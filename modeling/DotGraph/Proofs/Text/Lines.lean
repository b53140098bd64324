import DotGraph.Proofs.Text.Quotation
import DotGraph.Text
set_option autoImplicit false

namespace DotGraph.Text

def wordsOf (s : List Char) : List (List Char) :=
  (s.splitOnP isBlankChar).filter fun w => !w.isEmpty

/-- The words of a text with one space between any two. -/
def squash (s : String) : String :=
  " ".intercalate ((wordsOf s.toList).map String.ofList)

theorem wordsOf_nil : wordsOf [] = [] := rfl

theorem wordsOf_append_blank {c : Char} (hc : isBlankChar c = true) (s t : List Char) :
    wordsOf (s ++ c :: t) = wordsOf s ++ wordsOf t := by
  simp only [wordsOf, List.splitOnP_append_cons s t hc, List.filter_append]

theorem wordsOf_blank {c : Char} (hc : isBlankChar c = true) (s : List Char) :
    wordsOf (c :: s) = wordsOf s := by
  have h := wordsOf_append_blank hc [] s
  rwa [List.nil_append, wordsOf_nil, List.nil_append] at h

theorem wordsOf_replicate {c : Char} (hc : isBlankChar c = true) (n : Nat) (s : List Char) :
    wordsOf (List.replicate n c ++ s) = wordsOf s := by
  induction n with
  | zero => rfl
  | succ n ih => rw [List.replicate_succ, List.cons_append, wordsOf_blank hc, ih]

def linesOf (s : String) : List String := (s.toList.splitOn '\n').map String.ofList

/-- How many spaces the text begins with. -/
def margin (s : String) : Nat := (s.toList.takeWhile (· == ' ')).length

def OneLine (s : String) : Prop := ∀ c ∈ s.toList, c ≠ '\n'

def Flush (s : String) : Prop := ∃ c t, s.toList = c :: t ∧ c ≠ ' '

theorem oneLine_of_all {s : String} (h : s.toList.all (· != '\n') = true) : OneLine s := by
  intro c hc
  simpa using List.all_eq_true.mp h c hc

theorem linesOf_of_oneLine {s : String} (h : OneLine s) : linesOf s = [s] := by
  rw [linesOf, List.splitOn_eq_splitOnP,
    List.splitOnP_eq_singleton fun c hc => beq_eq_false_iff_ne.mpr (h c hc), List.map_singleton,
    String.ofList_toList]

theorem linesOf_append_lineFeed {s : String} (h : OneLine s) (t : String) :
    linesOf (s ++ "\n" ++ t) = s :: linesOf t := by
  have hs := linesOf_of_oneLine h
  have hl : (s ++ "\n" ++ t).toList = s.toList ++ '\n' :: t.toList := by simp
  rw [linesOf, List.splitOn_eq_splitOnP] at hs ⊢
  have hn := List.splitOnP_append_cons (p := (· == '\n')) s.toList t.toList (beq_self_eq_true _)
  rw [hl, hn, List.map_append, hs]
  rfl

theorem margin_append {s : String} (h : Flush s) (n : Nat) :
    margin (String.ofList (List.replicate n ' ') ++ s) = n := by
  obtain ⟨c, t, hs, hc⟩ := h
  have hr : ∀ d ∈ List.replicate n ' ', (d == ' ') = true := fun d hd =>
    beq_iff_eq.mpr (List.eq_of_mem_replicate hd)
  rw [margin, String.toList_append, String.toList_ofList, List.takeWhile_append_of_pos hr, hs,
    List.takeWhile_cons_of_neg (by simpa using hc), List.append_nil, List.length_replicate]

theorem OneLine.append {s t : String} (hs : OneLine s) (ht : OneLine t) : OneLine (s ++ t) := by
  intro c hc
  rw [String.toList_append, List.mem_append] at hc
  exact hc.elim (hs c) (ht c)

theorem OneLine.intercalate {sep : String} {l : List String} (hs : OneLine sep)
    (hl : ∀ s ∈ l, OneLine s) : OneLine (sep.intercalate l) :=
  forall_mem_intercalate hs hl

theorem IsPlain.oneLine {s : String} (h : IsPlain s) : OneLine s := by
  rintro c hc rfl
  exact absurd (h '\n' hc).1 (by decide)

theorem oneLine_escape (s : String) : OneLine (escape s) := by
  rintro c hc rfl
  rw [toList_escape_eq_scan] at hc
  exact lineFeed_notMem_scan _ hc

theorem oneLine_quote (s : String) : OneLine (quote .escaped s) := by
  have he := oneLine_escape s
  have hq : OneLine "\"" := oneLine_of_all (by decide)
  cases h : isBare s with
  | true =>
    rw [quote_of_isBare _ h]
    exact he
  | false =>
    rw [quote_of_isBare_false _ h]
    exact (hq.append he).append hq

theorem Flush.append {s : String} (h : Flush s) (t : String) : Flush (s ++ t) := by
  obtain ⟨c, u, hs, hc⟩ := h
  exact ⟨c, u ++ t.toList, by rw [String.toList_append, hs, List.cons_append], hc⟩

theorem flush_of_isBare {s : String} (h : isBare s = true) : Flush s := by
  have hc := isBareChar_of_mem h
  cases hs : s.toList with
  | nil =>
    have he : isBare "" = false := by decide
    rw [String.toList_eq_nil_iff.mp hs, he] at h
    cases h
  | cons c t =>
    refine ⟨c, t, hs, ?_⟩
    rintro rfl
    exact absurd (hc ' ' (hs ▸ List.mem_cons_self)) (by decide)

theorem flush_quote (s : String) : Flush (quote .escaped s) := by
  cases h : isBare s with
  | true =>
    rw [quote_eq_self h]
    exact flush_of_isBare h
  | false =>
    rw [quote_of_isBare_false _ h, String.append_assoc]
    exact Flush.append ⟨'"', [], rfl, by decide⟩ _

end DotGraph.Text
