import DotGraph.Proofs.Text.Escaping
import DotGraph.Text
import Mathlib.Data.List.TakeWhile
set_option autoImplicit false

namespace DotGraph.Text

def IsName (s : List Char) : Prop :=
  ∃ c t, s = c :: t ∧ isNameStart c = true ∧ ∀ d ∈ t, isNamePart d = true

def IsDigits (s : List Char) : Prop := s ≠ [] ∧ ∀ c ∈ s, c.isDigit = true

/-- A point stands behind digits or in front of them. -/
def IsUnsigned (s : List Char) : Prop :=
  (∃ t, s = '.' :: t ∧ IsDigits t) ∨ IsDigits s ∨
    ∃ t u, s = t ++ '.' :: u ∧ IsDigits t ∧ ∀ c ∈ u, c.isDigit = true

def IsNumeral (s : List Char) : Prop := ∃ t, (s = t ∨ s = '-' :: t) ∧ IsUnsigned t

theorem IsUnsigned.exists_cons {s : List Char} (h : IsUnsigned s) :
    ∃ c r, s = c :: r ∧ (c = '.' ∨ c.isDigit = true) := by
  rcases h with ⟨t, rfl, _⟩ | ⟨hne, h⟩ | ⟨t, u, rfl, ⟨hne, h⟩, _⟩
  · exact ⟨'.', t, rfl, .inl rfl⟩
  · obtain ⟨c, r, rfl⟩ := List.exists_cons_of_ne_nil hne
    exact ⟨c, r, rfl, .inr (h c (by simp))⟩
  · obtain ⟨c, r, rfl⟩ := List.exists_cons_of_ne_nil hne
    exact ⟨c, r ++ '.' :: u, rfl, .inr (h c (by simp))⟩

section

variable {α : Type} {a b : Option α}

theorem orElse_eq_some_iff (h : a = none ∨ b = none) {x : α} :
    (a <|> b) = some x ↔ a = some x ∨ b = some x := by
  rcases h with rfl | rfl <;> simp

theorem orElse_comm (h : a = none ∨ b = none) : (a <|> b) = (b <|> a) := by
  rcases h with rfl | rfl
  · cases b <;> rfl
  · cases a <;> rfl

end

theorem afterName?_eq_some_nil (s : List Char) : afterName? s = some [] ↔ IsName s := by
  cases s with
  | nil => simp [afterName?, IsName]
  | cons c t =>
    by_cases h : isNameStart c = true
    · simp only [afterName?, h, if_true, Option.some.injEq, List.dropWhile_eq_nil_iff]
      constructor
      · exact fun ht => ⟨c, t, rfl, h, ht⟩
      · intro h
        obtain ⟨d, u, hd, _, hu⟩ := h
        cases hd
        exact hu
    · simp [afterName?, IsName, h]

theorem afterDigits?_eq_some_nil (s : List Char) : afterDigits? s = some [] ↔ IsDigits s := by
  cases s with
  | nil => simp [afterDigits?, IsDigits]
  | cons c t =>
    by_cases h : c.isDigit = true <;> simp [afterDigits?, IsDigits, h]

theorem afterFraction_eq_nil (s : List Char) :
    afterFraction s = [] ↔ s = [] ∨ ∃ u, s = '.' :: u ∧ ∀ c ∈ u, c.isDigit = true := by
  unfold afterFraction
  split
  · simp
  · next h =>
    constructor
    · exact .inl
    · intro h
      rcases h with rfl | ⟨u, rfl, _⟩
      · rfl
      · exact absurd rfl (h u)

/-- The scan of digits stops at the point. -/
theorem afterDigits?_append {t : List Char} (h : IsDigits t) (u : List Char) :
    afterDigits? (t ++ '.' :: u) = some ('.' :: u) := by
  obtain ⟨hne, h⟩ := h
  cases t with
  | nil => exact absurd rfl hne
  | cons c t =>
    have ht : ∀ d ∈ t, d.isDigit = true := fun d hd => h d (by simp [hd])
    have hp : ('.').isDigit = false := by decide
    simp [afterDigits?, h c (by simp), List.dropWhile_append_of_pos ht, hp]

theorem exists_digits_of_afterDigits? {s r : List Char} (h : afterDigits? s = some r) :
    ∃ t, s = t ++ r ∧ IsDigits t := by
  cases s with
  | nil => simp [afterDigits?] at h
  | cons c s =>
    by_cases hc : c.isDigit = true
    · simp only [afterDigits?, hc, if_true, Option.some.injEq] at h
      refine ⟨c :: s.takeWhile Char.isDigit, ?_, by simp, ?_⟩
      · rw [List.cons_append, ← h, List.takeWhile_append_dropWhile]
      · intro d hd
        rcases List.mem_cons.mp hd with rfl | hd
        · exact hc
        · exact List.mem_takeWhile_imp hd
    · simp [afterDigits?, hc] at h

theorem afterPoint?_eq_some_nil (s : List Char) :
    afterPoint? s = some [] ↔ ∃ t, s = '.' :: t ∧ IsDigits t := by
  unfold afterPoint?
  split
  · next t =>
    rw [afterDigits?_eq_some_nil]
    constructor
    · exact fun h => ⟨t, rfl, h⟩
    · rintro ⟨u, hu, h⟩
      cases hu
      exact h
  · next hs =>
    constructor
    · exact fun h => by cases h
    · rintro ⟨t, rfl, _⟩
      exact absurd rfl (hs t)

theorem afterWhole?_eq_some_nil (s : List Char) :
    afterWhole? s = some [] ↔
      IsDigits s ∨ ∃ t u, s = t ++ '.' :: u ∧ IsDigits t ∧ ∀ c ∈ u, c.isDigit = true := by
  rw [afterWhole?, Option.map_eq_some_iff]
  constructor
  · rintro ⟨r, hr, h⟩
    obtain ⟨t, rfl, ht⟩ := exists_digits_of_afterDigits? hr
    rcases (afterFraction_eq_nil r).mp h with rfl | ⟨u, rfl, hu⟩
    · exact .inl (by simpa using ht)
    · exact .inr ⟨t, u, rfl, ht, hu⟩
  · rintro (h | ⟨t, u, rfl, ht, hu⟩)
    · exact ⟨[], (afterDigits?_eq_some_nil s).mpr h, rfl⟩
    · exact ⟨_, afterDigits?_append ht u, by simpa [afterFraction] using hu⟩

theorem afterPoint?_or_afterWhole? (s : List Char) : afterPoint? s = none ∨ afterWhole? s = none := by
  unfold afterPoint?
  split
  · exact .inr rfl
  · exact .inl rfl

theorem afterUnsigned?_eq_some_nil (s : List Char) :
    afterUnsigned? s = some [] ↔ IsUnsigned s := by
  rw [afterUnsigned?, orElse_eq_some_iff (afterPoint?_or_afterWhole? s), afterPoint?_eq_some_nil,
    afterWhole?_eq_some_nil, IsUnsigned]

theorem afterNumeral?_eq_some_nil (s : List Char) :
    afterNumeral? s = some [] ↔ IsNumeral s := by
  unfold afterNumeral? afterMinus
  split
  · next t =>
    rw [afterUnsigned?_eq_some_nil]
    constructor
    · exact fun h => ⟨t, .inr rfl, h⟩
    · intro h
      rcases h with ⟨u, rfl | h, hu⟩
      · obtain ⟨c, r, hc, h⟩ := hu.exists_cons
        cases hc
        exact absurd h (by decide)
      · cases h; exact hu
  · next hs =>
    rw [afterUnsigned?_eq_some_nil]
    constructor
    · exact fun h => ⟨s, .inl rfl, h⟩
    · intro h
      rcases h with ⟨u, rfl | rfl, hu⟩
      · exact hu
      · exact absurd rfl (hs u)

theorem isNameStart_of_isDigit {c : Char} (h : c.isDigit = true) : isNameStart c = false := by
  have hn : ∀ n < 58, 48 ≤ n → isNameStart (Char.ofNat n) = false := by decide
  obtain ⟨hl, hr⟩ := Char.isDigit_iff_toNat.mp h
  have hc := hn c.toNat (Nat.lt_succ_of_le hr) hl
  rwa [Char.ofNat_toNat] at hc

theorem afterNumeral?_of_isNameStart {c : Char} (h : isNameStart c = true) (t : List Char) :
    afterNumeral? (c :: t) = none := by
  have hd : c.isDigit = false := by
    rw [← Bool.not_eq_true]
    intro hd
    rw [isNameStart_of_isDigit hd] at h
    cases h
  have hm : afterMinus (c :: t) = c :: t := by
    unfold afterMinus
    split
    · next he => cases he; exact absurd h (by decide)
    · rfl
  have hp : afterPoint? (c :: t) = none := by
    unfold afterPoint?
    split
    · next he => cases he; exact absurd h (by decide)
    · rfl
  rw [afterNumeral?, hm, afterUnsigned?, hp]
  simp [afterWhole?, afterDigits?, hd]

/-- No text begins like a name and like a numeral. -/
theorem afterName?_or_afterNumeral? (s : List Char) :
    afterName? s = none ∨ afterNumeral? s = none := by
  cases s with
  | nil => exact .inl rfl
  | cons c t =>
    by_cases h : isNameStart c = true
    · exact .inr (afterNumeral?_of_isNameStart h t)
    · exact .inl (if_neg h)

theorem IsNumeral.afterName? {s : List Char} (h : IsNumeral s) : afterName? s = none := by
  rcases afterName?_or_afterNumeral? s with hn | hn
  · exact hn
  · rw [(afterNumeral?_eq_some_nil s).mpr h] at hn
    cases hn

theorem isBare_iff (s : String) : isBare s = true ↔ IsName s.toList ∨ IsNumeral s.toList := by
  rw [isBare, beq_iff_eq, afterBare?, orElse_eq_some_iff (afterName?_or_afterNumeral? s.toList),
    afterName?_eq_some_nil, afterNumeral?_eq_some_nil]

def isBareChar (c : Char) : Bool := isNamePart c || c == '.' || c == '-'

theorem isBareChar_of_isDigit {c : Char} (h : c.isDigit = true) : isBareChar c = true := by
  simp [isBareChar, isNamePart, h]

theorem IsUnsigned.isBareChar {s : List Char} (h : IsUnsigned s) :
    ∀ c ∈ s, isBareChar c = true := by
  have hp : Text.isBareChar '.' = true := by decide
  intro c hc
  rcases h with ⟨t, rfl, _, ht⟩ | ⟨_, hs⟩ | ⟨t, u, rfl, ⟨_, ht⟩, hu⟩
  · rcases List.mem_cons.mp hc with rfl | hc
    · exact hp
    · exact isBareChar_of_isDigit (ht c hc)
  · exact isBareChar_of_isDigit (hs c hc)
  · rcases List.mem_append.mp hc with hc | hc
    · exact isBareChar_of_isDigit (ht c hc)
    · rcases List.mem_cons.mp hc with rfl | hc
      · exact hp
      · exact isBareChar_of_isDigit (hu c hc)

theorem isBareChar_of_mem {s : String} (h : isBare s = true) :
    ∀ c ∈ s.toList, isBareChar c = true := by
  intro c hc
  rcases (isBare_iff s).mp h with ⟨d, t, hs, hd, ht⟩ | ⟨t, hs | hs, ht⟩ <;> rw [hs] at hc
  · rcases List.mem_cons.mp hc with rfl | hc
    · simp [isBareChar, isNamePart, hd]
    · simp [isBareChar, ht c hc]
  · exact ht.isBareChar c hc
  · rcases List.mem_cons.mp hc with rfl | hc
    · decide
    · exact ht.isBareChar c hc

/-- No character of a plain text is changed by any pass, whatever stands beside it. -/
def IsPlain (s : String) : Prop := ∀ c ∈ s.toList, isSpecial c = false ∧ c ≠ '\r'

theorem isPlain_of_all {s : String} (h : s.toList.all (fun c => !isSpecial c && c != '\r') = true) :
    IsPlain s := by
  intro c hc
  simpa using List.all_eq_true.mp h c hc

theorem isPlain_of_isBareChar {s : String} (h : ∀ c ∈ s.toList, isBareChar c = true) :
    IsPlain s := by
  intro c hc
  have hb := h c hc
  constructor
  · cases hs : isSpecial c with
    | false => rfl
    | true =>
      simp only [isSpecial, Bool.or_eq_true, beq_iff_eq] at hs
      rcases hs with (rfl | rfl) | rfl <;> exact absurd hb (by decide)
  · rintro rfl
    exact absurd hb (by decide)

theorem isPlain_of_isBare {s : String} (h : isBare s = true) : IsPlain s :=
  isPlain_of_isBareChar (isBareChar_of_mem h)

theorem IsPlain.append {s t : String} (hs : IsPlain s) (ht : IsPlain t) : IsPlain (s ++ t) := by
  intro c hc
  rw [String.toList_append, List.mem_append] at hc
  exact hc.elim (hs c) (ht c)

theorem forall_mem_intercalate {p : Char → Prop} {sep : String} {l : List String}
    (hs : ∀ c ∈ sep.toList, p c) (hl : ∀ s ∈ l, ∀ c ∈ s.toList, p c) :
    ∀ c ∈ (sep.intercalate l).toList, p c := by
  intro c hc
  rw [String.toList_intercalate] at hc
  induction l with
  | nil => simp at hc
  | cons s l ih =>
    cases l with
    | nil => exact hl s (by simp) c (by simpa using hc)
    | cons t l =>
      simp only [List.map_cons, List.intercalate_cons_cons, List.mem_append] at hc
      rcases hc with (hc | hc) | hc
      · exact hl s (by simp) c hc
      · exact hs c hc
      · exact ih (fun u hu => hl u (by simp [hu])) hc

theorem IsPlain.intercalate {sep : String} {l : List String} (hs : IsPlain sep)
    (hl : ∀ s ∈ l, IsPlain s) : IsPlain (sep.intercalate l) :=
  forall_mem_intercalate hs hl

theorem IsPlain.escape {s : String} (h : IsPlain s) : escape s = s := by
  rw [← String.toList_inj, toList_escape_eq_scan]
  exact scan_of_no_special fun c hc => (h c hc).1

theorem quote_eq_self {s : String} (h : isBare s = true) (mode : StringMode) :
    quote mode s = s := by
  rw [quote_of_isBare mode h]
  cases mode with
  | escaped => exact (isPlain_of_isBare h).escape
  | raw => rfl

theorem isBare_escape (s : String) : isBare (escape s) = isBare s := by
  rcases scan_eq_self_or_slash_mem s.toList with ⟨_, h⟩ | h
  · rw [← toList_escape_eq_scan, String.toList_inj] at h
    rw [h]
  · -- The backslash is in neither form of a bare text.
    have hs : isBare s = false := by
      rw [← Bool.not_eq_true]
      intro hb
      have he := (isPlain_of_isBare hb).escape
      rw [← toList_escape_eq_scan, he] at h
      exact absurd (isBareChar_of_mem hb _ h) (by decide)
    have he : isBare (escape s) = false := by
      rw [← Bool.not_eq_true]
      intro hb
      rw [← toList_escape_eq_scan] at h
      exact absurd (isBareChar_of_mem hb _ h) (by decide)
    rw [hs, he]

theorem quote_raw_escape (s : String) : quote .raw (escape s) = quote .escaped s := by
  simp only [quote, isBare_escape, StringMode.write]

theorem IsPlain.quote_raw {s : String} (h : IsPlain s) : quote .raw s = quote .escaped s := by
  rw [← quote_raw_escape, h.escape]

theorem isBlank_of_isBlank_escape {s : String} (h : isBlank (escape s) = true) :
    isBlank s = true := by
  rcases scan_eq_self_or_slash_mem s.toList with ⟨_, hs⟩ | hs <;>
    rw [← toList_escape_eq_scan] at hs
  · have he : escape s = s := String.toList_inj.mp hs
    rw [he] at h
    exact h
  · rw [isBlank, List.all_eq_true] at h
    exact absurd (h '\\' hs) (by decide)

end DotGraph.Text
