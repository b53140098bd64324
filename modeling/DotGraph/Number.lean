set_option autoImplicit false

/-! Binary64 numbers by their bits, and their text. The size of a finite number is a whole number of
units of 2 to the power -1074, so that its hundredths are rounded from the exact value. -/

namespace DotGraph

structure Binary64 where
  bits : BitVec 64

namespace Binary64

def isNegative (x : Binary64) : Bool := x.bits.msb

def exponent (x : Binary64) : Nat := (x.bits.extractLsb' 52 11).toNat

def fraction (x : Binary64) : Nat := (x.bits.extractLsb' 0 52).toNat

def isFinite (x : Binary64) : Bool := x.exponent != 2047

def isNaN (x : Binary64) : Bool := x.exponent == 2047 && x.fraction != 0

def isZero (x : Binary64) : Bool := x.exponent == 0 && x.fraction == 0

def units (x : Binary64) : Nat :=
  if x.exponent = 0 then x.fraction else (0x10000000000000 + x.fraction) <<< (x.exponent - 1)

theorem isNaN_eq_false_of_isFinite {x : Binary64} (h : x.isFinite = true) : x.isNaN = false := by
  have h' : x.exponent ≠ 2047 := by simpa [isFinite] using h
  simp [isNaN, h']

end Binary64

/-- The whole number nearest to `num / den`. Of two that are equally near, the even one. -/
def roundHalfEven (num den : Nat) : Nat :=
  let q := num / den
  if 2 * (num % den) < den then q
  else if den < 2 * (num % den) then q + 1
  else q + q % 2

theorem roundHalfEven_near (num : Nat) {den : Nat} (h : 0 < den) :
    2 * (den * roundHalfEven num den) ≤ 2 * num + den ∧
      2 * num ≤ 2 * (den * roundHalfEven num den) + den := by
  have hd := Nat.div_add_mod num den
  have hr := Nat.mod_lt num h
  unfold roundHalfEven
  dsimp only
  split
  · omega
  split
  · simp only [Nat.mul_add]; omega
  · rcases Nat.mod_two_eq_zero_or_one (num / den) with e | e <;> simp only [e, Nat.mul_add] <;> omega

theorem roundHalfEven_even {num den : Nat} (h : 2 * (num % den) = den) :
    roundHalfEven num den % 2 = 0 := by
  unfold roundHalfEven
  dsimp only
  rw [if_neg (by omega), if_neg (by omega)]
  omega

def hundredthsText (n : Nat) : String :=
  Nat.repr (n / 100) ++ "." ++ String.ofList [Nat.digitChar (n / 10 % 10), Nat.digitChar (n % 10)]

namespace Binary64

def hundredths (x : Binary64) : Nat := roundHalfEven (100 * x.units) (1 <<< 1074)

def sizeText (x : Binary64) : String :=
  if x.isFinite then hundredthsText x.hundredths else "inf"

/-- The sign is that of the number, also where all digits behind it are zero. -/
def text (x : Binary64) : String :=
  if x.isNaN then "NaN" else (if x.isNegative then "-" else "") ++ x.sizeText

theorem text_of_isFinite {x : Binary64} (h : x.isFinite = true) :
    x.text = (if x.isNegative then "-" else "") ++ hundredthsText x.hundredths := by
  simp [text, sizeText, h, isNaN_eq_false_of_isFinite h]

end Binary64

end DotGraph
