import DotGraph.Proofs.Text.Quotation
set_option autoImplicit false

namespace DotGraph.Text

def reservedWords : List String := ["node", "edge", "graph", "digraph", "subgraph", "strict"]

/-- Upper and lower case are the same for letters of ASCII. -/
def isReserved (s : String) : Bool :=
  reservedWords.any fun w => w.toList == s.toList.map Char.toLower

/-- The text with a single quote mark in the place of each quoted part. The flag says whether
the text begins inside of one. -/
def outside : Bool → List Char → List Char
  | _, [] => []
  | false, '"' :: s => '"' :: outside true s
  | false, c :: s => c :: outside false s
  | true, '"' :: s => outside false s
  | true, '\\' :: _ :: s => outside true s
  | true, _ :: s => outside true s

def reservedIn (s : List Char) : List String :=
  ((s.splitOnP fun c => !isNamePart c).map String.ofList).filter isReserved

def keywordsOf (s : String) : List String := reservedIn (outside false s.toList)

theorem isAlpha_of_isLower_toLower {c : Char} (h : c.toLower.isLower = true) :
    c.isAlpha = true := by
  change (c.isUpper || c.isLower) = true
  rw [Bool.or_eq_true]
  by_cases hu : c.isUpper = true
  · exact .inl hu
  · have hl : c.toLower = c := dif_neg fun hc => hu (decide_eq_true hc)
    rw [hl] at h
    exact .inr h

theorem isName_of_isReserved {s : String} (h : isReserved s = true) : IsName s.toList := by
  have hw : ∀ w ∈ reservedWords, w.toList ≠ [] ∧ w.toList.all Char.isLower = true := by decide
  obtain ⟨w, hm, he⟩ := List.any_eq_true.mp h
  obtain ⟨hn, hl⟩ := hw w hm
  rw [eq_of_beq he] at hn hl
  have hs : ∀ c ∈ s.toList, isNameStart c = true := by
    intro c hc
    have ha := isAlpha_of_isLower_toLower (List.all_eq_true.mp hl _ (List.mem_map_of_mem hc))
    simp [isNameStart, ha]
  have hne : s.toList ≠ [] := fun e => hn (by rw [e]; rfl)
  obtain ⟨c, t, ht⟩ := List.exists_cons_of_ne_nil hne
  rw [ht] at hs ⊢
  refine ⟨c, t, rfl, hs c List.mem_cons_self, fun d hd => ?_⟩
  simp [isNamePart, hs d (List.mem_cons_of_mem c hd)]

theorem isBare_of_isReserved {s : String} (h : isReserved s = true) : isBare s = true :=
  (isBare_iff s).mpr (.inl (isName_of_isReserved h))

theorem isReserved_eq_false_of_mem {s : String} {c : Char} (hc : c ∈ s.toList)
    (h : isNamePart c = false) : isReserved s = false := by
  rw [← Bool.not_eq_true]
  intro hr
  obtain ⟨d, t, hs, hd, ht⟩ := isName_of_isReserved hr
  rw [hs] at hc
  rcases List.mem_cons.mp hc with rfl | hc
  · simp [isNamePart, hd] at h
  · rw [ht c hc] at h
    cases h

theorem isReserved_eq_false_of_isNumeral {s : String} (h : IsNumeral s.toList) :
    isReserved s = false := by
  rw [← Bool.not_eq_true]
  intro hr
  have ha := (afterName?_eq_some_nil _).mpr (isName_of_isReserved hr)
  rw [h.afterName?] at ha
  cases ha

theorem reservedIn_nil : reservedIn [] = [] := by
  simp [reservedIn, show isReserved "" = false by decide]

theorem reservedIn_append_cons {c : Char} (h : isNamePart c = false) (s t : List Char) :
    reservedIn (s ++ c :: t) = reservedIn s ++ reservedIn t := by
  have hc : (!isNamePart c) = true := by rw [h]; rfl
  simp only [reservedIn, List.splitOnP_append_cons (p := fun c => !isNamePart c) s t hc,
    List.map_append, List.filter_append]

theorem reservedIn_cons {c : Char} (h : isNamePart c = false) (s : List Char) :
    reservedIn (c :: s) = reservedIn s := by
  have hs := reservedIn_append_cons h [] s
  rwa [List.nil_append, reservedIn_nil, List.nil_append] at hs

theorem reservedIn_append {p : List Char} (h : ∀ c ∈ p, isNamePart c = false) (s : List Char) :
    reservedIn (p ++ s) = reservedIn s := by
  induction p with
  | nil => rfl
  | cons c p ih =>
    rw [List.cons_append, reservedIn_cons (h c List.mem_cons_self),
      ih fun d hd => h d (List.mem_cons_of_mem c hd)]

theorem reservedIn_of_namePart {s : List Char} (h : ∀ c ∈ s, isNamePart c = true) :
    reservedIn s = [String.ofList s].filter isReserved := by
  have hs : ∀ c ∈ s, (!isNamePart c) = false := fun c hc => by rw [h c hc]; rfl
  rw [reservedIn, List.splitOnP_eq_singleton hs, List.map_singleton]

theorem reservedIn_digits {s : List Char} (h : ∀ c ∈ s, c.isDigit = true) : reservedIn s = [] := by
  by_cases hs : s = []
  · rw [hs, reservedIn_nil]
  · have hn : IsNumeral (String.ofList s).toList :=
      ⟨s, .inl String.toList_ofList, .inr (.inl ⟨hs, h⟩)⟩
    have hr := isReserved_eq_false_of_isNumeral hn
    rw [reservedIn_of_namePart fun c hc => by simp [isNamePart, h c hc],
      List.filter_cons_of_neg (by rw [hr]; exact Bool.false_ne_true), List.filter_nil]

theorem reservedIn_of_isUnsigned {s : List Char} (h : IsUnsigned s) : reservedIn s = [] := by
  have hp : isNamePart '.' = false := by decide
  rcases h with ⟨t, rfl, _, ht⟩ | ⟨_, hs⟩ | ⟨t, u, rfl, ⟨_, ht⟩, hu⟩
  · rw [reservedIn_cons hp, reservedIn_digits ht]
  · exact reservedIn_digits hs
  · rw [reservedIn_append_cons hp, reservedIn_digits ht, reservedIn_digits hu, List.append_nil]

/-- A bare text is one run, or else a numeral, in which no run is a word. -/
theorem reservedIn_of_isBare {s : String} (h : isBare s = true) :
    reservedIn s.toList = [s].filter isReserved := by
  rcases (isBare_iff s).mp h with ⟨c, t, hs, hc, ht⟩ | hn
  · have hp : ∀ d ∈ s.toList, isNamePart d = true := by
      rw [hs, List.forall_mem_cons]
      exact ⟨by simp [isNamePart, hc], ht⟩
    rw [reservedIn_of_namePart hp, String.ofList_toList]
  · have he : [s].filter isReserved = [] := by simp [isReserved_eq_false_of_isNumeral hn]
    obtain ⟨t, hs | hs, ht⟩ := hn
    · rw [hs, reservedIn_of_isUnsigned ht, he]
    · rw [hs, reservedIn_cons (by decide), reservedIn_of_isUnsigned ht, he]

theorem outside_append {p : List Char} (h : ∀ c ∈ p, c ≠ '"') (s : List Char) :
    outside false (p ++ s) = p ++ outside false s := by
  induction p with
  | nil => rfl
  | cons c p ih =>
    rw [List.cons_append, outside]
    · rw [ih fun d hd => h d (List.mem_cons_of_mem c hd), List.cons_append]
    · exact h c List.mem_cons_self

theorem outside_of_unquote? {s t r : List Char} (h : unquote? s = some (t, r)) :
    outside true s = outside false r := by
  induction s using unquote?.induct generalizing t with
  | case1 => cases h
  | case2 s =>
    cases h
    rfl
  | case3 c s ih =>
    obtain ⟨p, hp, he⟩ := Option.map_eq_some_iff.mp h
    cases he
    rw [outside, ih hp]
  | case4 c s h₁ h₂ ih =>
    rw [unquote?] at h
    · obtain ⟨p, hp, he⟩ := Option.map_eq_some_iff.mp h
      cases he
      rw [outside, ih hp]
      · exact h₁
      · exact h₂
    · exact h₁
    · exact h₂

/-- The text begins and ends outside of quotes, and these are its keywords. -/
def Tells (s : String) (ks : List String) : Prop :=
  ∃ o, (∀ r, outside false (s.toList ++ r) = o ++ outside false r) ∧ reservedIn o = ks

/-- No keyword goes on across a separator. -/
def isSeparator (p : String) : Bool :=
  p != "" && p.toList.all fun c => !isNamePart c && c != '"'

theorem Tells.keywordsOf_eq {s : String} {ks : List String} (h : Tells s ks) : keywordsOf s = ks := by
  obtain ⟨o, ho, hk⟩ := h
  have he := ho []
  rw [List.append_nil, outside, List.append_nil] at he
  rw [keywordsOf, he, hk]

theorem tells_empty : Tells "" [] := ⟨[], fun _ => rfl, reservedIn_nil⟩

theorem Tells.separate {s p t : String} {ks ls : List String} (hs : Tells s ks)
    (hp : isSeparator p = true) (ht : Tells t ls) : Tells (s ++ p ++ t) (ks ++ ls) := by
  obtain ⟨o, ho, rfl⟩ := hs
  obtain ⟨q, hq, rfl⟩ := ht
  simp only [isSeparator, Bool.and_eq_true, bne_iff_ne, List.all_eq_true,
    Bool.not_eq_true'] at hp
  obtain ⟨hne, hp⟩ := hp
  have hp₁ : ∀ c ∈ p.toList, isNamePart c = false := fun c hc => (hp c hc).1
  have hp₂ : ∀ c ∈ p.toList, c ≠ '"' := fun c hc => (hp c hc).2
  refine ⟨o ++ (p.toList ++ q), fun r => ?_, ?_⟩
  · simp only [String.toList_append, List.append_assoc, ho, outside_append hp₂, hq]
  · obtain ⟨c, u, hc⟩ := List.exists_cons_of_ne_nil fun e => hne (String.toList_eq_nil_iff.mp e)
    rw [hc] at hp₁ ⊢
    rw [List.cons_append, reservedIn_append_cons (hp₁ c List.mem_cons_self),
      reservedIn_append fun d hd => hp₁ d (List.mem_cons_of_mem c hd)]

theorem Tells.before {s p : String} {ks : List String} (hs : Tells s ks)
    (hp : isSeparator p = true) : Tells (s ++ p) ks := by
  have h := hs.separate hp tells_empty
  rwa [String.append_empty, List.append_nil] at h

theorem Tells.behind {p t : String} {ks : List String} (hp : isSeparator p = true)
    (ht : Tells t ks) : Tells (p ++ t) ks := by
  have h := tells_empty.separate hp ht
  rwa [String.empty_append, List.nil_append] at h

theorem tells_separator {p : String} (hp : isSeparator p = true) : Tells p [] := by
  have h := tells_empty.before hp
  rwa [String.empty_append] at h

theorem tells_bare {s : String} (h : isBare s = true) : Tells s ([s].filter isReserved) := by
  refine ⟨s.toList, outside_append fun c hc => ?_, reservedIn_of_isBare h⟩
  rintro rfl
  exact absurd (isPlain_of_isBare h _ hc).1 (by decide)

theorem tells_quoted {s : String} {t : List Char}
    (h : ∀ r, unquote? (s.toList ++ '"' :: r) = some (t, r)) : Tells ("\"" ++ s ++ "\"") [] := by
  refine ⟨['"'], fun r => ?_, ?_⟩
  · have hs : ("\"" ++ s ++ "\"").toList ++ r = '"' :: (s.toList ++ '"' :: r) := by simp
    rw [hs, outside, outside_of_unquote? (h r)]
    rfl
  · rw [reservedIn_cons (by decide), reservedIn_nil]

/-- A reserved word stands in a document as it is, and no other string adds a keyword. -/
theorem tells_quote (s : String) : Tells (quote .escaped s) ([s].filter isReserved) := by
  cases h : isBare s with
  | true =>
    rw [quote_eq_self h]
    exact tells_bare h
  | false =>
    -- A reserved word would be bare.
    have hr : isReserved s = false := by
      rw [← Bool.not_eq_true]
      intro hr
      rw [isBare_of_isReserved hr] at h
      cases h
    rw [quote_of_isBare_false _ h, List.filter_cons_of_neg (by simp [hr]), List.filter_nil]
    exact tells_quoted (unquote?_escape s)

end DotGraph.Text
