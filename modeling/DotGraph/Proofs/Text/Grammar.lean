import DotGraph.Proofs.Text.Bareness
import Mathlib.Computability.Language
set_option autoImplicit false

/-! The grammar of bare text as a language, in which a choice has no order and a repetition may end
anywhere. The scanners take the first alternative and as much as they can, and lose no text by it. -/

open scoped Computability

namespace DotGraph.Text

namespace Grammar

def oneIn (ranges : List (Nat × Nat)) : Language Char :=
  {s | ∃ c : Char, s = [c] ∧ ∃ r ∈ ranges, r.1 ≤ c.toNat ∧ c.toNat ≤ r.2}

/-- `A` to `Z`, `_`, `a` to `z`, and the block U+0080 to U+00FF. -/
def letter : Language Char := oneIn [(0x41, 0x5A), (0x5F, 0x5F), (0x61, 0x7A), (0x80, 0xFF)]

def digit : Language Char := oneIn [(0x30, 0x39)]

def minus : Language Char := {['-']}

def point : Language Char := {['.']}

def name : Language Char := letter * (letter + digit)∗

/-- The point stands in front of one digit at least, or else behind one. -/
def unsigned : Language Char :=
  point * (digit * digit∗) + digit * digit∗ * (1 + point * digit∗)

def numeral : Language Char := (1 + minus) * unsigned

end Grammar

open Grammar

theorem isUpper_iff (c : Char) : c.isUpper = true ↔ 0x41 ≤ c.toNat ∧ c.toNat ≤ 0x5A :=
  decide_eq_true_iff

theorem isLower_iff (c : Char) : c.isLower = true ↔ 0x61 ≤ c.toNat ∧ c.toNat ≤ 0x7A := by
  change (decide (0x61 ≤ c.toNat) && decide (c.toNat ≤ 0x7A)) = true ↔ _
  rw [Bool.and_eq_true, decide_eq_true_iff, decide_eq_true_iff]

theorem isNameStart_iff (c : Char) : isNameStart c = true ↔
    ((0x41 ≤ c.toNat ∧ c.toNat ≤ 0x5A ∨ 0x61 ≤ c.toNat ∧ c.toNat ≤ 0x7A) ∨ c.toNat = 0x5F) ∨
      0x80 ≤ c.toNat ∧ c.toNat ≤ 0xFF := by
  have hu : c = '_' ↔ c.toNat = 0x5F := Char.toNat_inj.symm
  change (c.isUpper || c.isLower || c == '_' ||
    decide (0x80 ≤ c.toNat ∧ c.toNat ≤ 0xFF)) = true ↔ _
  simp only [Bool.or_eq_true, isUpper_iff, isLower_iff, beq_iff_eq, hu, decide_eq_true_eq]

theorem mem_letter (s : List Char) : s ∈ letter ↔ ∃ c, s = [c] ∧ isNameStart c = true := by
  have hc (c : Char) : isNameStart c = true ↔
      ∃ r ∈ [(0x41, 0x5A), (0x5F, 0x5F), (0x61, 0x7A), (0x80, 0xFF)],
        r.1 ≤ c.toNat ∧ c.toNat ≤ r.2 := by
    simp only [isNameStart_iff, List.exists_mem_cons_iff, List.not_mem_nil, false_and, exists_false,
      or_false]
    omega
  simp only [hc]
  rfl

theorem mem_digit (s : List Char) : s ∈ digit ↔ ∃ c, s = [c] ∧ c.isDigit = true := by
  have hc (c : Char) : c.isDigit = true ↔
      ∃ r ∈ [(0x30, 0x39)], r.1 ≤ c.toNat ∧ c.toNat ≤ r.2 := by
    simpa using Char.isDigit_iff_toNat
  simp only [hc]
  rfl

theorem mem_letter_add_digit (s : List Char) :
    s ∈ letter + digit ↔ ∃ c, s = [c] ∧ isNamePart c = true := by
  simp only [Language.mem_add, mem_letter, mem_digit, isNamePart, Bool.or_eq_true, and_or_left,
    exists_or]

theorem mem_kstar_of_class {l : Language Char} {p : Char → Bool}
    (hl : ∀ s, s ∈ l ↔ ∃ c, s = [c] ∧ p c = true) (s : List Char) :
    s ∈ l∗ ↔ ∀ c ∈ s, p c = true := by
  rw [Language.mem_kstar]
  constructor
  · rintro ⟨parts, rfl, hp⟩ c hc
    obtain ⟨t, ht, hc⟩ := List.mem_flatten.mp hc
    obtain ⟨d, rfl, hd⟩ := (hl t).mp (hp t ht)
    rwa [List.mem_singleton.mp hc]
  · intro h
    refine ⟨s.map fun c => [c], (List.flatMap_singleton' s).symm, fun t ht => ?_⟩
    obtain ⟨c, hc, rfl⟩ := List.mem_map.mp ht
    exact (hl [c]).mpr ⟨c, rfl, h c hc⟩

theorem mem_mul_kstar_of_class {l m : Language Char} {p q : Char → Bool}
    (hl : ∀ s, s ∈ l ↔ ∃ c, s = [c] ∧ p c = true) (hm : ∀ s, s ∈ m ↔ ∃ c, s = [c] ∧ q c = true)
    (s : List Char) : s ∈ l * m∗ ↔ ∃ c t, s = c :: t ∧ p c = true ∧ ∀ d ∈ t, q d = true := by
  simp only [Language.mem_mul, hl, mem_kstar_of_class hm]
  constructor
  · rintro ⟨_, ⟨c, rfl, hc⟩, t, ht, rfl⟩
    exact ⟨c, t, rfl, hc, ht⟩
  · rintro ⟨c, t, rfl, hc, ht⟩
    exact ⟨[c], ⟨c, rfl, hc⟩, t, ht, rfl⟩

theorem mem_char_mul (c : Char) (l : Language Char) (s : List Char) :
    s ∈ ({[c]} : Language Char) * l ↔ ∃ t, s = c :: t ∧ t ∈ l := by
  rw [Language.mem_mul]
  constructor
  · rintro ⟨_, rfl, t, ht, rfl⟩
    exact ⟨t, rfl, ht⟩
  · rintro ⟨t, rfl, ht⟩
    exact ⟨[c], rfl, t, ht, rfl⟩

theorem mem_name (s : List Char) : s ∈ name ↔ IsName s :=
  mem_mul_kstar_of_class mem_letter mem_letter_add_digit s

theorem mem_digits (s : List Char) : s ∈ digit * digit∗ ↔ IsDigits s := by
  rw [mem_mul_kstar_of_class mem_digit mem_digit]
  constructor
  · rintro ⟨c, t, rfl, hc, ht⟩
    exact ⟨List.cons_ne_nil c t, List.forall_mem_cons.mpr ⟨hc, ht⟩⟩
  · rintro ⟨hne, h⟩
    obtain ⟨c, t, rfl⟩ := List.exists_cons_of_ne_nil hne
    exact ⟨c, t, rfl, List.forall_mem_cons.mp h⟩

theorem mem_fraction (s : List Char) : s ∈ (1 + point * digit∗ : Language Char) ↔
    s = [] ∨ ∃ u, s = '.' :: u ∧ ∀ c ∈ u, c.isDigit = true := by
  rw [Language.mem_add, Language.mem_one, point, mem_char_mul]
  simp only [mem_kstar_of_class mem_digit]

theorem mem_unsigned (s : List Char) : s ∈ unsigned ↔ IsUnsigned s := by
  have hfront : s ∈ point * (digit * digit∗) ↔ ∃ t, s = '.' :: t ∧ t ∈ digit * digit∗ :=
    mem_char_mul '.' (digit * digit∗) s
  rw [unsigned, Language.mem_add, hfront, Language.mem_mul]
  simp only [mem_digits, mem_fraction]
  constructor
  · rintro (h | ⟨t, ht, _, rfl | ⟨u, rfl, hu⟩, rfl⟩)
    · exact .inl h
    · exact .inr (.inl (by rwa [List.append_nil]))
    · exact .inr (.inr ⟨t, u, rfl, ht, hu⟩)
  · rintro (h | h | ⟨t, u, rfl, ht, hu⟩)
    · exact .inl h
    · exact .inr ⟨s, h, [], .inl rfl, List.append_nil s⟩
    · exact .inr ⟨t, ht, '.' :: u, .inr ⟨u, rfl, hu⟩, rfl⟩

theorem mem_numeral (s : List Char) : s ∈ numeral ↔ IsNumeral s := by
  rw [numeral, add_mul, one_mul, Language.mem_add, minus, mem_char_mul]
  simp only [mem_unsigned]
  constructor
  · rintro (h | ⟨t, hs, h⟩)
    · exact ⟨s, .inl rfl, h⟩
    · exact ⟨t, .inr hs, h⟩
  · rintro ⟨t, rfl | hs, h⟩
    · exact .inl h
    · exact .inr ⟨t, hs, h⟩

theorem afterBare?_comm (s : List Char) : afterBare? s = (afterNumeral? s <|> afterName? s) :=
  orElse_comm (afterName?_or_afterNumeral? s)

theorem afterUnsigned?_comm (s : List Char) :
    afterUnsigned? s = (afterWhole? s <|> afterPoint? s) :=
  orElse_comm (afterPoint?_or_afterWhole? s)

/-- A text is bare if and only if it is a name or a numeral of the grammar. Each of the two
scanners leaves nothing of the texts of its own language and of no others. It does not matter
which of them is tried first, nor which of the two forms of a numeral. -/
theorem isBare_iff_mem_grammar (s : String) :
    (isBare s = true ↔ s.toList ∈ name + numeral) ∧
    (afterName? s.toList = some [] ↔ s.toList ∈ name) ∧
    (afterNumeral? s.toList = some [] ↔ s.toList ∈ numeral) ∧
    afterBare? s.toList = (afterNumeral? s.toList <|> afterName? s.toList) ∧
    ∀ t, afterUnsigned? t = (afterWhole? t <|> afterPoint? t) := by
  refine ⟨?_, ?_, ?_, afterBare?_comm s.toList, afterUnsigned?_comm⟩
  · rw [isBare_iff, Language.mem_add, mem_name, mem_numeral]
  · rw [afterName?_eq_some_nil, mem_name]
  · rw [afterNumeral?_eq_some_nil, mem_numeral]

/-- The ends of the letters, a digit that is not of ASCII, and points in all places. -/
example : ["ÿ", "7.", "-.5", "-1.5"].all isBare = true ∧
    ["Ā", "٣", "", "-", ".", "-.", "1.2.3", "--1", "1a"].any isBare = false := by decide +kernel

end DotGraph.Text
