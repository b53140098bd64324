import DotGraph.Text
set_option autoImplicit false

/-! Escaping in one scan from left to right. It has the effect of the four passes, for no pass makes or
breaks what a later one looks for, but for the pairs. -/

namespace DotGraph.Text

def escapeChar (c : Char) : List Char :=
  if c = '\\' then ['\\', '\\']
  else if c = '"' then ['\\', '"']
  else if c = '\n' then ['\\', 'n']
  else [c]

/-- A line feed that ends a pair is written with the carriage return in front of it. -/
def scan : List Char → List Char
  | '\r' :: '\n' :: s => '\\' :: 'n' :: scan s
  | c :: s => escapeChar c ++ scan s
  | [] => []

/-- The characters that never stand alone in escaped text. -/
def isSpecial (c : Char) : Bool := c == '\\' || c == '"' || c == '\n'

theorem escapeChar_of_not_isSpecial {c : Char} (h : isSpecial c = false) : escapeChar c = [c] := by
  simp only [isSpecial, Bool.or_eq_false_iff, beq_eq_false_iff_ne] at h
  simp [escapeChar, h]

def slashChar (c : Char) : List Char :=
  if c = '\\' then ['\\', '\\'] else if c = '"' then ['\\', '"'] else [c]

theorem replaceChar_quote_slash (s : List Char) :
    replaceChar '"' ['\\', '"'] (replaceChar '\\' ['\\', '\\'] s) = s.flatMap slashChar := by
  simp only [replaceChar, List.flatMap_assoc]
  congr 1
  funext c
  by_cases h : c = '\\' <;> by_cases h' : c = '"' <;> simp [slashChar, h, h']

theorem replacePair_cons_of_ne {a b c : Char} {w : List Char} (h : c ≠ a) (s : List Char) :
    replacePair a b w (c :: s) = c :: replacePair a b w s := by
  cases s <;> simp [replacePair, h]

theorem replacePair_cons_of_head? {a b : Char} {w s : List Char} (h : s.head? ≠ some b) :
    replacePair a b w (a :: s) = a :: replacePair a b w s := by
  cases s with
  | nil => rfl
  | cons d s =>
    have hd : d ≠ b := fun e => h (by simp [e])
    simp [replacePair, hd]

theorem head?_flatMap_slashChar {s : List Char} (h : s.head? ≠ some '\n') :
    (s.flatMap slashChar).head? ≠ some '\n' := by
  cases s with
  | nil => simp
  | cons c s =>
    have hc : c ≠ '\n' := fun e => h (by simp [e])
    simp only [List.flatMap_cons, slashChar]
    split
    · simp
    split
    · simp
    · simpa using hc

theorem lineBreaks_slashChar {c : Char} (h : c ≠ '\r') (t : List Char) :
    replaceChar '\n' ['\\', 'n'] (replacePair '\r' '\n' ['\\', 'n'] (slashChar c ++ t)) =
      escapeChar c ++ replaceChar '\n' ['\\', 'n'] (replacePair '\r' '\n' ['\\', 'n'] t) := by
  by_cases h₁ : c = '\\'
  · subst h₁
    simp [slashChar, escapeChar, replacePair_cons_of_ne, replaceChar]
  by_cases h₂ : c = '"'
  · subst h₂
    simp [slashChar, escapeChar, replacePair_cons_of_ne, replaceChar]
  by_cases h₃ : c = '\n'
  · subst h₃
    simp [slashChar, escapeChar, replacePair_cons_of_ne, replaceChar]
  · simp [slashChar, escapeChar, h, h₁, h₂, h₃, replacePair_cons_of_ne, replaceChar]

theorem escapeChars_eq_scan (s : List Char) : escapeChars s = scan s := by
  rw [escapeChars, replaceChar_quote_slash]
  induction s using scan.induct with
  | case1 s ih =>
    -- The first two passes leave a pair to the third.
    simp only [scan, ← ih]
    simp [slashChar, replacePair, replaceChar]
  | case2 c s hs ih =>
    have hscan : scan (c :: s) = escapeChar c ++ scan s := by
      rw [scan]
      exact hs
    rw [hscan, ← ih, List.flatMap_cons]
    by_cases hc : c = '\r'
    · -- A return that no line feed follows is kept by all passes.
      have hh : s.head? ≠ some '\n' := by
        cases s with
        | nil => simp
        | cons d s => exact fun e => hs s hc (by simpa using e)
      have hr := replacePair_cons_of_head? (a := '\r') (w := ['\\', 'n'])
        (head?_flatMap_slashChar hh)
      simp [hc, slashChar, hr, replaceChar, escapeChar]
    · exact lineBreaks_slashChar hc _
  | case3 => rfl

theorem toList_escape_eq_scan (s : String) : (escape s).toList = scan s.toList := by
  rw [toList_escape, escapeChars_eq_scan]

theorem scan_of_no_special {s : List Char} (h : ∀ c ∈ s, isSpecial c = false) : scan s = s := by
  induction s using scan.induct with
  | case1 s _ => exact absurd (h '\n' (by simp)) (by decide)
  | case2 c s hs ih =>
    rw [scan, escapeChar_of_not_isSpecial (h c (by simp)), ih fun d hd => h d (by simp [hd])]
    · rfl
    · exact hs
  | case3 => rfl

theorem count_slash_escapeChar (c : Char) :
    (escapeChar c).count '\\' = 2 * [c].count '\\' + [c].count '"' + [c].count '\n' := by
  cases h : isSpecial c with
  | true =>
    simp only [isSpecial, Bool.or_eq_true, beq_iff_eq] at h
    rcases h with (rfl | rfl) | rfl <;> rfl
  | false =>
    rw [escapeChar_of_not_isSpecial h]
    simp only [isSpecial, Bool.or_eq_false_iff, beq_eq_false_iff_ne] at h
    simp [h]

theorem count_slash_scan (s : List Char) :
    (scan s).count '\\' = 2 * s.count '\\' + s.count '"' + s.count '\n' := by
  induction s using scan.induct with
  | case1 s ih =>
    simp only [scan, List.count_cons, ih]
    simp
    omega
  | case2 c s hs ih =>
    rw [scan, ← List.singleton_append]
    · simp only [List.count_append, count_slash_escapeChar, ih]
      omega
    · exact hs
  | case3 => rfl

theorem slash_mem_scan {s : List Char} {c : Char} (hc : c ∈ s) (h : isSpecial c = true) :
    '\\' ∈ scan s := by
  have hs : 0 < s.count c := List.count_pos_iff.mpr hc
  rw [← List.count_pos_iff, count_slash_scan]
  simp only [isSpecial, Bool.or_eq_true, beq_iff_eq] at h
  rcases h with (rfl | rfl) | rfl <;> omega

theorem scan_eq_self_or_slash_mem (s : List Char) :
    (∀ c ∈ s, isSpecial c = false) ∧ scan s = s ∨ '\\' ∈ scan s := by
  by_cases h : ∀ c ∈ s, isSpecial c = false
  · exact .inl ⟨h, scan_of_no_special h⟩
  · obtain ⟨c, hc, h⟩ := by simpa using h
    exact .inr (slash_mem_scan hc h)

/-- What is between a return and a line feed is the one place where a text is not scanned
in two parts. -/
theorem scan_append {s t : List Char} (h : ¬ (s.getLast? = some '\r' ∧ t.head? = some '\n')) :
    scan (s ++ t) = scan s ++ scan t := by
  induction s using scan.induct with
  | case1 s ih =>
    have hs : ¬ (s.getLast? = some '\r' ∧ t.head? = some '\n') := by
      rintro ⟨hl, ht⟩
      exact h ⟨by simp [List.getLast?_cons, hl], ht⟩
    simp only [List.cons_append, scan, ih hs]
  | case2 c s hs ih =>
    have hs' : ¬ (s.getLast? = some '\r' ∧ t.head? = some '\n') := by
      rintro ⟨hl, ht⟩
      exact h ⟨by simp [List.getLast?_cons, hl], ht⟩
    rw [List.cons_append, scan, scan, ih hs', List.append_assoc]
    · exact hs
    -- A pair at the cut would begin with the last character of `s`.
    · rintro u rfl hu
      cases s with
      | nil =>
        obtain rfl : t = '\n' :: u := hu
        exact h ⟨rfl, rfl⟩
      | cons d s =>
        cases hu
        exact hs s rfl rfl
  | case3 => rfl

theorem scan_append_ne (s t : List Char) :
    scan ((s ++ ['\r']) ++ '\n' :: t) ≠ scan (s ++ ['\r']) ++ scan ('\n' :: t) := by
  have hpair : scan (s ++ '\r' :: '\n' :: t) = scan s ++ '\\' :: 'n' :: scan t :=
    scan_append fun h => absurd h.2 (by simp)
  have hreturn : scan (s ++ ['\r']) = scan s ++ ['\r'] :=
    scan_append fun h => absurd h.2 (by decide)
  intro h
  rw [List.append_assoc, List.singleton_append, hpair, hreturn, List.append_assoc] at h
  have hc := List.append_cancel_left h
  simp [scan, escapeChar] at hc

theorem scan_append_iff (s t : List Char) :
    scan (s ++ t) = scan s ++ scan t ↔ ¬ (s.getLast? = some '\r' ∧ t.head? = some '\n') := by
  refine ⟨?_, scan_append⟩
  rintro h ⟨hs, ht⟩
  obtain ⟨s, rfl⟩ := List.getLast?_eq_some_iff.mp hs
  obtain ⟨t, rfl⟩ := List.head?_eq_some_iff.mp ht
  exact scan_append_ne s t h

theorem scan_eq_self_iff (s : List Char) :
    scan s = s ↔ '\\' ∉ s ∧ '"' ∉ s ∧ '\n' ∉ s := by
  constructor
  · intro h
    have hc := count_slash_scan s
    rw [h] at hc
    simp only [← List.count_eq_zero]
    omega
  · rintro ⟨h₁, h₂, h₃⟩
    refine scan_of_no_special fun c hc => ?_
    simp only [isSpecial, Bool.or_eq_false_iff, beq_eq_false_iff_ne]
    exact ⟨⟨fun e => h₁ (e ▸ hc), fun e => h₂ (e ▸ hc)⟩, fun e => h₃ (e ▸ hc)⟩

/-- The four passes write what one scan writes. So texts can be escaped part by part, but
not across a pair, and a text stays as it is if it has nothing to escape. -/
theorem escape_eq_scan :
    (∀ s : String, (escape s).toList = scan s.toList) ∧
    (∀ s t : String, escape (s ++ t) = escape s ++ escape t ↔
      ¬ (s.toList.getLast? = some '\r' ∧ t.toList.head? = some '\n')) ∧
    ∀ s : String, escape s = s ↔ '\\' ∉ s.toList ∧ '"' ∉ s.toList ∧ '\n' ∉ s.toList := by
  refine ⟨toList_escape_eq_scan, fun s t => ?_, fun s => ?_⟩
  · rw [← String.toList_inj]
    simp only [String.toList_append, toList_escape_eq_scan]
    exact scan_append_iff s.toList t.toList
  · rw [← String.toList_inj, toList_escape_eq_scan]
    exact scan_eq_self_iff s.toList

end DotGraph.Text
