import DotGraph.Proofs.Text.Quotation
set_option autoImplicit false

namespace DotGraph

open Text

inductive Token where
  | ident (text : String)
  | operator (directed : Bool)
  | openBrace | closeBrace | openBracket | closeBracket | equals | comma | semicolon
  deriving DecidableEq, Repr

namespace Token

def mark? : Char → Option Token
  | '\x7b' => some .openBrace
  | '\x7d' => some .closeBrace
  | '[' => some .openBracket
  | ']' => some .closeBracket
  | '=' => some .equals
  | ',' => some .comma
  | ';' => some .semicolon
  | _ => none

/-- The first token and what follows it. Operators come before bare identifiers, which
may begin with a minus. -/
def first? : List Char → Option (Token × List Char)
  | [] => none
  | '"' :: s => (unquote? s).map fun p => (.ident (String.ofList p.1), p.2)
  | '-' :: '>' :: s => some (.operator true, s)
  | '-' :: '-' :: s => some (.operator false, s)
  | c :: s =>
    match mark? c with
    | some t => some (t, s)
    | none =>
      if isBareChar c then
        some (.ident (String.ofList (c :: s.takeWhile isBareChar)), s.dropWhile isBareChar)
      else none

theorem length_lt_of_first? {s r : List Char} {t : Token} (h : first? s = some (t, r)) :
    r.length < s.length := by
  unfold first? at h
  split at h
  · simp at h
  · next s =>
    obtain ⟨p, hp, he⟩ := Option.map_eq_some_iff.mp h
    cases he
    have hl := length_lt_of_unquote? hp
    simp only [List.length_cons]
    omega
  · cases h; simp only [List.length_cons]; omega
  · cases h; simp only [List.length_cons]; omega
  · next c s _ _ _ =>
    have hd := (List.dropWhile_sublist (p := isBareChar) (l := s)).length_le
    split at h
    · cases h; simp
    · split at h
      · cases h; simp only [List.length_cons]; omega
      · simp at h

def isGap (c : Char) : Bool := c == ' ' || c == '\n'

end Token

/-- All tokens of a document, unless something in it is no token. -/
def tokens? : List Char → Option (List Token)
  | [] => some []
  | c :: s =>
    if Token.isGap c then tokens? s
    else match _ : Token.first? (c :: s) with
      | some (t, r) => (tokens? r).map (t :: ·)
      | none => none
termination_by s => s.length
decreasing_by
  · simp
  · exact Token.length_lt_of_first? (by assumption)

theorem tokens?_gap {c : Char} (h : Token.isGap c = true) (s : List Char) :
    tokens? (c :: s) = tokens? s := by
  rw [tokens?, if_pos h]

theorem tokens?_first {s r : List Char} {t : Token} (h : Token.first? s = some (t, r)) :
    tokens? s = (tokens? r).map (t :: ·) := by
  cases s with
  | nil => simp [Token.first?] at h
  | cons c s =>
    -- No token begins with a gap, so `tokens?` looks for a token here.
    have hc : Token.isGap c = false := by
      rw [← Bool.not_eq_true]
      intro hg
      simp only [Token.isGap, Bool.or_eq_true, beq_iff_eq] at hg
      rcases hg with rfl | rfl <;>
        simp [Token.first?, Token.mark?, show isBareChar ' ' = false by decide,
          show isBareChar '\n' = false by decide] at h
    rw [tokens?, hc]
    simp only [Bool.false_eq_true, if_false]
    split
    · next t' r' h' =>
      rw [h'] at h
      cases h
      rfl
    · next h' =>
      rw [h'] at h
      cases h

def Ends : List Char → Prop
  | [] => True
  | c :: _ => isBareChar c = false

theorem mark?_of_isBareChar {c : Char} (h : isBareChar c = true) : Token.mark? c = none := by
  rw [Token.mark?] <;> rintro rfl <;> exact absurd h (by decide)

theorem first?_of_isBareChar {c : Char} {s : List Char} (hc : isBareChar c = true)
    (hs : c = '-' → ∀ d r, s = d :: r → d ≠ '>' ∧ d ≠ '-') :
    Token.first? (c :: s) =
      some (.ident (String.ofList (c :: s.takeWhile isBareChar)), s.dropWhile isBareChar) := by
  rw [Token.first?]
  · simp only [mark?_of_isBareChar hc, hc, if_true]
  · rintro rfl
    exact absurd hc (by decide)
  · rintro r rfl rfl
    exact (hs rfl '>' r rfl).1 rfl
  · rintro r rfl rfl
    exact (hs rfl '-' r rfl).2 rfl

/-- The minus of a numeral is not the beginning of an operator. -/
theorem exists_cons_of_isBare {s : String} (h : isBare s = true) :
    ∃ c t, s.toList = c :: t ∧ (c = '-' → ∃ d r, t = d :: r ∧ d ≠ '>' ∧ d ≠ '-') := by
  rcases (isBare_iff s).mp h with ⟨c, t, hs, hc, _⟩ | ⟨t, hs | hs, ht⟩
  · refine ⟨c, t, hs, ?_⟩
    rintro rfl
    exact absurd hc (by decide)
  · obtain ⟨c, r, rfl, hc⟩ := ht.exists_cons
    refine ⟨c, r, hs, ?_⟩
    rintro rfl
    exact absurd hc (by decide)
  · obtain ⟨d, r, rfl, hd⟩ := ht.exists_cons
    refine ⟨'-', _, hs, fun _ => ⟨d, r, rfl, ?_, ?_⟩⟩ <;> rintro rfl <;>
      exact absurd hd (by decide)

theorem tokens?_bare {s : String} (h : isBare s = true) {r : List Char} (hr : Ends r) :
    tokens? (s.toList ++ r) = (tokens? r).map (.ident s :: ·) := by
  obtain ⟨c, t, hs, hm⟩ := exists_cons_of_isBare h
  have hb := isBareChar_of_mem h
  have ht : ∀ d ∈ t, isBareChar d = true := fun d hd => hb d (by simp [hs, hd])
  have hr' : r.takeWhile isBareChar = [] ∧ r.dropWhile isBareChar = r := by
    cases r with
    | nil => simp
    | cons d r => simp [show isBareChar d = false from hr]
  apply tokens?_first
  rw [hs, List.cons_append, first?_of_isBareChar (hb c (by simp [hs]))]
  · rw [List.takeWhile_append_of_pos ht, List.dropWhile_append_of_pos ht, hr'.1, hr'.2,
      List.append_nil, ← hs, String.ofList_toList]
  · intro hc d u hu
    obtain ⟨d', r', rfl, hd⟩ := hm hc
    cases hu
    exact hd

theorem tokens?_quoted {s t : String}
    (h : ∀ r, unquote? (s.toList ++ '"' :: r) = some (t.toList, r)) (r : List Char) :
    tokens? (("\"" ++ s ++ "\"").toList ++ r) = (tokens? r).map (.ident t :: ·) := by
  apply tokens?_first
  have he : ("\"" ++ s ++ "\"").toList ++ r = '"' :: (s.toList ++ '"' :: r) := by simp
  rw [he, Token.first?, h r]
  simp

/-- Text that need not be quoted is its own normal form, so quoting does not show in
what is read. -/
theorem tokens?_quote (s : String) {r : List Char} (hr : Ends r) :
    tokens? ((quote .escaped s).toList ++ r) = (tokens? r).map (.ident (normalize s) :: ·) := by
  cases h : isBare s with
  | true =>
    rw [quote_eq_self h, (isPlain_of_isBare h).normalize]
    exact tokens?_bare h hr
  | false =>
    rw [quote_of_isBare_false _ h]
    exact tokens?_quoted (unquote?_escape s) r

end DotGraph
