import DotGraph.Proofs.Text.Bareness
set_option autoImplicit false

namespace DotGraph.Text

def joinPairs : List Char → List Char
  | '\r' :: '\n' :: s => '\n' :: joinPairs s
  | c :: s => c :: joinPairs s
  | [] => []

def normalize (s : String) : String := String.ofList (joinPairs s.toList)

def decodeChar (c : Char) : Char := if c = 'n' then '\n' else c

/-- The text in front of the first quote that no backslash protects, and what follows
this quote. -/
def unquote? : List Char → Option (List Char × List Char)
  | [] => none
  | '"' :: s => some ([], s)
  | '\\' :: c :: s => (unquote? s).map fun p => (decodeChar c :: p.1, p.2)
  | c :: s => (unquote? s).map fun p => (c :: p.1, p.2)

theorem unquote?_cons_of_plain {c : Char} (h : isSpecial c = false) (s : List Char) :
    unquote? (c :: s) = (unquote? s).map fun p => (c :: p.1, p.2) := by
  simp only [isSpecial, Bool.or_eq_false_iff, beq_eq_false_iff_ne] at h
  rw [unquote?]
  · exact h.1.2
  · exact fun _ _ e => absurd e h.1.1

theorem unquote?_escapeChar (c : Char) (s : List Char) :
    unquote? (escapeChar c ++ s) = (unquote? s).map fun p => (c :: p.1, p.2) := by
  cases h : isSpecial c with
  | true =>
    simp only [isSpecial, Bool.or_eq_true, beq_iff_eq] at h
    rcases h with (rfl | rfl) | rfl <;> rfl
  | false =>
    rw [escapeChar_of_not_isSpecial h]
    exact unquote?_cons_of_plain h s

theorem unquote?_scan (s r : List Char) :
    unquote? (scan s ++ '"' :: r) = some (joinPairs s, r) := by
  induction s using scan.induct with
  | case1 s ih => simp [scan, joinPairs, unquote?, decodeChar, ih]
  | case2 c s hs ih =>
    have hj : joinPairs (c :: s) = c :: joinPairs s := by
      rw [joinPairs]
      exact hs
    rw [scan, List.append_assoc, unquote?_escapeChar, ih, hj]
    · rfl
    · exact hs
  | case3 => rfl

theorem joinPairs_of_no_pair {s : List Char} (h : ¬ ['\r', '\n'] <:+: s) : joinPairs s = s := by
  induction s using joinPairs.induct with
  | case1 s _ => exact absurd ⟨[], s, rfl⟩ h
  | case2 c s hs ih =>
    rw [joinPairs, ih fun hi => h (List.infix_cons hi)]
    exact hs
  | case3 => rfl

theorem normalize_of_no_pair {s : String} (h : ¬ ['\r', '\n'] <:+: s.toList) :
    normalize s = s := by
  rw [normalize, joinPairs_of_no_pair h, String.ofList_toList]

theorem unquote?_escape (s : String) (r : List Char) :
    unquote? ((escape s).toList ++ '"' :: r) = some ((normalize s).toList, r) := by
  rw [toList_escape_eq_scan, unquote?_scan, normalize, String.toList_ofList]

theorem IsPlain.normalize {s : String} (h : IsPlain s) : normalize s = s :=
  normalize_of_no_pair fun hi => (h '\r' (hi.subset List.mem_cons_self)).2 rfl

theorem IsPlain.unquote? {s : String} (h : IsPlain s) (r : List Char) :
    unquote? (s.toList ++ '"' :: r) = some (s.toList, r) := by
  have hu := unquote?_escape s r
  rwa [h.escape, h.normalize] at hu

def closing? : List Char → Option Nat
  | [] => none
  | '"' :: _ => some 0
  | '\\' :: _ :: s => (closing? s).map (· + 2)
  | _ :: s => (closing? s).map (· + 1)

/-- A backslash says how to take the character behind it. One that nothing follows stands
for itself. -/
def decode : List Char → List Char
  | '\\' :: c :: s => decodeChar c :: decode s
  | c :: s => c :: decode s
  | [] => []

/-- To unquote is to find the quote at the end and to decode what stands in front of it. -/
theorem unquote?_eq_some {s t r : List Char} (h : unquote? s = some (t, r)) :
    ∃ u, s = u ++ '"' :: r ∧ closing? s = some u.length ∧ decode u = t := by
  induction s using unquote?.induct generalizing t with
  | case1 => cases h
  | case2 s =>
    cases h
    exact ⟨[], rfl, rfl, rfl⟩
  | case3 c s ih =>
    obtain ⟨p, hp, he⟩ := Option.map_eq_some_iff.mp h
    cases he
    obtain ⟨u, rfl, hc, hu⟩ := ih hp
    exact ⟨'\\' :: c :: u, rfl, by simp [closing?, hc], by rw [decode, hu]⟩
  | case4 c s h₁ h₂ ih =>
    rw [unquote?] at h
    · obtain ⟨p, hp, he⟩ := Option.map_eq_some_iff.mp h
      cases he
      obtain ⟨u, rfl, hc, hu⟩ := ih hp
      -- A backslash would protect the next character, and there is one.
      have hs : c ≠ '\\' := by
        rintro rfl
        cases u with
        | nil => exact h₂ '"' _ rfl rfl
        | cons d u => exact h₂ d _ rfl rfl
      refine ⟨c :: u, rfl, ?_, ?_⟩
      · rw [closing?, hc]
        · rfl
        · exact h₁
        · exact fun _ _ e => absurd e hs
      · rw [decode, hu]
        exact fun _ _ e => absurd e hs
    · exact h₁
    · exact h₂

theorem length_lt_of_unquote? {s t r : List Char} (h : unquote? s = some (t, r)) :
    r.length < s.length := by
  obtain ⟨u, rfl, -, -⟩ := unquote?_eq_some h
  rw [List.length_append, List.length_cons]
  omega

theorem lineFeed_notMem_escapeChar (c : Char) : '\n' ∉ escapeChar c := by
  intro h
  rw [escapeChar] at h
  split at h
  · simp at h
  split at h
  · simp at h
  split at h
  · simp at h
  · next hc => exact hc (List.mem_singleton.mp h).symm

theorem lineFeed_notMem_scan (s : List Char) : '\n' ∉ scan s := by
  induction s using scan.induct with
  | case1 s ih => simpa [scan] using ih
  | case2 c s hs ih =>
    rw [scan, List.mem_append, not_or]
    · exact ⟨lineFeed_notMem_escapeChar c, ih⟩
    · exact hs
  | case3 => simp [scan]

theorem closing?_escape (s : String) (r : List Char) :
    closing? ((escape s).toList ++ '"' :: r) = some (escape s).toList.length ∧
      decode (escape s).toList = (normalize s).toList := by
  obtain ⟨u, hs, hc, hd⟩ := unquote?_eq_some (unquote?_escape s r)
  obtain rfl := List.append_cancel_right hs
  exact ⟨hc, hd⟩

/-- Bare strings are written as they are. All others are written between quotes, on one
line, and can be cut out of what follows them and decoded. -/
theorem quote_round_trip (s : String) :
    (isBare s = true → quote .escaped s = s) ∧
    (isBare s = false → ∃ inside : List Char,
      (quote .escaped s).toList = '"' :: (inside ++ ['"']) ∧
      (∀ r, closing? (inside ++ '"' :: r) = some inside.length) ∧
      '\n' ∉ (quote .escaped s).toList ∧
      decode inside = (normalize s).toList) ∧
    (¬ ['\r', '\n'] <:+: s.toList → normalize s = s) := by
  refine ⟨fun h => ?_, fun h => ?_, normalize_of_no_pair⟩
  · rw [quote_of_isBare _ h, StringMode.write, (isPlain_of_isBare h).escape]
  · have hq : (quote .escaped s).toList = '"' :: ((escape s).toList ++ ['"']) := by
      simp [quote_of_isBare_false _ h, StringMode.write]
    refine ⟨(escape s).toList, hq, fun r => (closing?_escape s r).1, ?_, (closing?_escape s []).2⟩
    rw [hq, toList_escape_eq_scan]
    simp [lineFeed_notMem_scan]

/-- Backslashes in front of a quote and at the end, a carriage return in front of a pair,
and a backslash with an `n` beside a line feed. -/
def tangled : String := "\\\\\"\r\r\n\\n\n\\"

theorem quote_tangled :
    quote .escaped tangled = "\"\\\\\\\\\\\"\r\\n\\\\n\\n\\\\\"" ∧
      ∃ inside : List Char,
        (quote .escaped tangled).toList = '"' :: (inside ++ ['"']) ∧
        closing? (inside ++ '"' :: ['"', '\\']) = some inside.length ∧
        decode inside = "\\\\\"\r\n\\n\n\\".toList := by
  obtain ⟨inside, hq, hc, -, hd⟩ := (quote_round_trip tangled).2.1 (by decide)
  exact ⟨by decide +kernel, inside, hq, hc _, hd.trans (by decide +kernel)⟩

end DotGraph.Text
