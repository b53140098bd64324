import DotGraph.Proofs.Attribute.Text
import DotGraph.Proofs.Document.Faults
import DotGraph.Proofs.Number.Value
set_option autoImplicit false

namespace DotGraph

open Text

def unsignedValue (s : List Char) : ℚ :=
  let fraction := (s.dropWhile Char.isDigit).tail
  Nat.ofDigitChars 10 (s.takeWhile Char.isDigit ++ fraction) 0 / 10 ^ fraction.length

def numeralValue : List Char → ℚ
  | '-' :: s => -unsignedValue s
  | s => unsignedValue s

theorem eq_zero_of_head?_toDigits {n : Nat} (h : (Nat.toDigits 10 n).head? = some '0') :
    n = 0 := by
  induction n using Nat.strongRecOn with
  | ind n ih =>
    by_cases hn : n < 10
    · rw [Nat.toDigits_of_lt_base hn, List.head?_cons, Option.some.injEq] at h
      exact Nat.digitChar_eq_zero.mp h
    · have hle : 10 ≤ n := Nat.le_of_not_lt hn
      rw [Nat.toDigits_of_base_le (by decide) hle,
        List.head?_append_of_ne_nil _ Nat.toDigits_ne_nil] at h
      have hz := ih (n / 10) (by omega) h
      omega

/-- Hundredths have a whole part without superfluous zeros and two digits behind the
point, and all digits together are those of their number. -/
theorem hundredthsText_eq (n : Nat) : ∃ whole d e,
    (hundredthsText n).toList = whole ++ ['.', d, e] ∧ IsDigits whole ∧
      (whole.head? = some '0' → whole = ['0']) ∧ d.isDigit = true ∧ e.isDigit = true ∧
      Nat.ofDigitChars 10 (whole ++ [d, e]) 0 = n := by
  refine ⟨(Nat.repr (n / 100)).toList, Nat.digitChar (n / 10 % 10), Nat.digitChar (n % 10),
    by simp [hundredthsText], isDigits_repr _, fun h => ?_, isDigit_digitChar_mod _,
    isDigit_digitChar_mod _, ?_⟩
  · rw [Nat.toList_repr] at h ⊢
    rw [eq_zero_of_head?_toDigits h]
    rfl
  · rw [Nat.toList_repr, Nat.ofDigitChars_append, Nat.ofDigitChars_ten_toDigits,
      Nat.ofDigitChars_cons_digitChar_of_lt_ten (Nat.mod_lt _ (by decide)),
      Nat.ofDigitChars_cons_digitChar_of_lt_ten (Nat.mod_lt _ (by decide)), Nat.ofDigitChars_nil]
    omega

theorem unsignedValue_hundredthsText (n : Nat) :
    unsignedValue (hundredthsText n).toList = n / 100 := by
  obtain ⟨whole, d, e, hs, ⟨-, hw⟩, -, -, -, hn⟩ := hundredthsText_eq n
  have hp : ('.').isDigit = false := by decide
  rw [unsignedValue, hs, List.takeWhile_append_of_pos hw, List.dropWhile_append_of_pos hw]
  simp only [List.takeWhile_cons, List.dropWhile_cons, hp, Bool.false_eq_true, if_false,
    List.append_nil, List.tail_cons, hn, List.length_cons, List.length_nil]
  norm_num

namespace Binary64

theorem numeralValue_text {x : Binary64} (h : x.isFinite = true) :
    numeralValue x.text.toList =
      if x.isNegative then -(x.hundredths / 100 : ℚ) else x.hundredths / 100 := by
  rw [text_of_isFinite h, ← unsignedValue_hundredthsText]
  cases x.isNegative with
  | true => simp [numeralValue]
  | false =>
    obtain ⟨c, s, hs, hc⟩ := (isUnsigned_hundredthsText x.hundredths).exists_cons
    -- Hundredths begin with a digit, so they are not read with a sign.
    have hm : c ≠ '-' := by
      rintro rfl
      exact absurd hc (by decide)
    simp [numeralValue, hs, hm]

theorem hundredths_le {x y : Binary64} (h : x.magnitude ≤ y.magnitude) :
    x.hundredths ≤ y.hundredths := by
  refine x.nearest_hundredths.mono y.nearest_hundredths ?_
  rw [abs_value, abs_value]
  linarith

theorem hundredths_eq_zero {x : Binary64} (h : x.magnitude = 0) : x.hundredths = 0 := by
  have hn := x.nearest_hundredths
  rw [abs_value, h, mul_zero] at hn
  exact hn.eq_zero

theorem numeralValue_text_mono {x y : Binary64} (hx : x.isFinite = true) (hy : y.isFinite = true)
    (h : x.value ≤ y.value) : numeralValue x.text.toList ≤ numeralValue y.text.toList := by
  have hc : ∀ {a b : Nat}, a ≤ b → (a / 100 : ℚ) ≤ b / 100 := fun hab =>
    div_le_div_of_nonneg_right (by exact_mod_cast hab) (by norm_num)
  have hx₀ := x.magnitude_nonneg
  have hy₀ := y.magnitude_nonneg
  have hn : ∀ n : Nat, (0 : ℚ) ≤ n / 100 := fun n => by positivity
  rw [numeralValue_text hx, numeralValue_text hy]
  rw [value, value] at h
  cases hsx : x.isNegative <;> cases hsy : y.isNegative <;>
    simp only [hsx, hsy, Bool.false_eq_true, if_false, if_true] at h ⊢
  · exact hc (hundredths_le h)
  · -- Both are zero, and differ at most in their signs.
    rw [hundredths_eq_zero (x := x) (by linarith), hundredths_eq_zero (x := y) (by linarith)]
    norm_num
  · exact (neg_nonpos.mpr (hn _)).trans (hn _)
  · exact neg_le_neg (hc (hundredths_le (neg_le_neg_iff.mp h)))

/-- A finite number is written as its exact hundredths, rounded to the nearest whole number
and to the even one of two, with the sign of its sign bit. The text is bare, and no larger
number is written as a smaller one. -/
theorem text_rounded :
    (∀ x : Binary64, x.isFinite = true → ∃ whole d e,
      x.text.toList = (if x.bits.msb then ['-'] else []) ++ (whole ++ ['.', d, e]) ∧
        IsDigits whole ∧ (whole.head? = some '0' → whole = ['0']) ∧
        d.isDigit = true ∧ e.isDigit = true ∧
        Nearest (100 * |x.value|) (Nat.ofDigitChars 10 (whole ++ [d, e]) 0) ∧
        isBare x.text = true) ∧
    (∀ x y : Binary64, x.isFinite = true → y.isFinite = true → x.value ≤ y.value →
      numeralValue x.text.toList ≤ numeralValue y.text.toList) ∧
    ∀ (x y : Binary64) (mode : StringMode),
      Registry.default.render (.width x) mode = some ("width=" ++ x.text) ∧
        Registry.default.render (.height x) mode = some ("height=" ++ x.text) ∧
        Registry.default.render (.penWidth x) mode = some ("penwidth=" ++ x.text) ∧
        Registry.default.render (.position ⟨x, y⟩) mode =
          some ("pos=\"" ++ x.text ++ "," ++ y.text ++ "!\"") := by
  refine ⟨fun x hx => ?_, fun x y hx hy => numeralValue_text_mono hx hy, fun x y mode => ?_⟩
  · obtain ⟨whole, d, e, hs, hw, hz, hd, he, hn⟩ := hundredthsText_eq x.hundredths
    refine ⟨whole, d, e, ?_, hw, hz, hd, he, hn ▸ x.nearest_hundredths, isBare_text hx⟩
    rw [text_of_isFinite hx, String.toList_append, hs, isNegative]
    cases x.bits.msb <;> rfl
  · refine ⟨?_, ?_, ?_, ?_⟩ <;>
      simp [Registry.render_default, Registry.builtinKinds, Attribute.kind, Attribute.text,
        Attribute.valueText, Attribute.Kind.key, ← String.toList_inj]

def speck : Binary64 := ⟨0x8000000000000001#64⟩

/-- Twelve hundredths and a half. -/
def eighth : Binary64 := ⟨0x3FC0000000000000#64⟩

theorem text_eighth :
    speck.text = "-0.00" ∧ eighth.text = "0.12" ∧ Nearest (100 * |eighth.value|) 12 ∧
      numeralValue speck.text.toList ≤ numeralValue eighth.text.toList := by
  have ht : eighth.text = "0.12" := by decide +kernel
  have hv : speck.value ≤ eighth.value := by
    rw [value, value, if_pos (by decide), if_neg (by decide)]
    linarith [speck.magnitude_nonneg, eighth.magnitude_nonneg]
  obtain ⟨hx, hm, -⟩ := text_rounded
  refine ⟨by decide +kernel, ht, ?_, hm speck eighth (by decide) (by decide) hv⟩
  obtain ⟨whole, d, e, hs, -, -, -, -, hn, -⟩ := hx eighth (by decide)
  have hl : ['0'] ++ ['.', '1', '2'] = whole ++ ['.', d, e] := by
    rw [ht] at hs
    exact hs
  obtain ⟨rfl, hde⟩ := List.append_inj' hl rfl
  cases hde
  exact hn

end Binary64

end DotGraph
