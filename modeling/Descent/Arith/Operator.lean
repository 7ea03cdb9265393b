/-!
# Operators

The six binary operators and what they compute on 64-bit integers. Sums, differences,
products, quotients and powers are taken of the integers themselves, without bounds, and
then narrowed to 64 bits (`narrow?`); a result that does not fit is an overflow, whatever
the operator. Quotients are truncated toward zero.

A power may have an exponent beyond anything that can be computed. The powers of `0`, `1`
and `-1` are known for every exponent, and an exponent of more than 32 bits is too large for
any other base (`Operator.power`). Where there is something to multiply, only the parity of
the exponent matters behind the 64th power: the powers of `-1`, `0` and `1` have period two,
and those of any other base are out of range. `capExponent` keeps that much of it, and
`narrow?_pow_capExponent` says that nothing is lost.
-/

namespace Descent.Arith

/-! ### 64 bits -/

/-- The integer as a 64-bit integer, if it is one. -/
def narrow? (n : Int) : Option Int64 :=
  if Int64.minValue.toInt ≤ n ∧ n ≤ Int64.maxValue.toInt then some (Int64.ofInt n) else none

theorem narrow?_eq_some {n : Int} {v : Int64} : narrow? n = some v ↔ v.toInt = n := by
  rw [narrow?, Option.ite_none_right_eq_some, Option.some.injEq]
  constructor
  · rintro ⟨⟨hlo, hhi⟩, rfl⟩
    rw [Int64.toInt_minValue] at hlo
    rw [Int64.toInt_maxValue] at hhi
    exact Int64.toInt_ofInt_of_le hlo (by omega)
  · rintro rfl
    exact ⟨⟨Int64.minValue_le_toInt v, Int64.toInt_le v⟩, Int64.ofInt_toInt v⟩

theorem narrow?_eq_none {n : Int} :
    narrow? n = none ↔ n < Int64.minValue.toInt ∨ Int64.maxValue.toInt < n := by
  simp only [narrow?, ite_eq_right_iff, reduceCtorEq, imp_false]
  omega

/-! ### Operators -/

/-- The binary operators. -/
inductive Operator where
  /-- The power. -/
  | pow
  /-- The sum. -/
  | add
  /-- The difference. -/
  | sub
  /-- The product. -/
  | mul
  /-- The quotient, truncated toward zero. -/
  | div
  /-- The exclusive or of the two's complement bits. -/
  | xor
  deriving DecidableEq

namespace Operator

/-- The operators in the order their tokens are tried: `**` stands in front of `*`, which
begins it. -/
def all : List Operator := [pow, add, sub, mul, div, xor]

/-- The token of an operator. -/
def symbol : Operator → String
  | pow => "**"
  | add => "+"
  | sub => "-"
  | mul => "*"
  | div => "/"
  | xor => "^"

instance : ToString Operator := ⟨symbol⟩

end Operator

/-! ### Errors -/

/-- Why two integers have no result under an operator. -/
inductive ArithmeticError where
  /-- The result is no 64-bit integer. -/
  | overflow (lhs : Int64) (operator : Operator) (rhs : Int64)
  /-- The divisor is zero. -/
  | divisionByZero (lhs : Int64)
  /-- The exponent is negative. -/
  | negativeExponent (base exponent : Int64)
  deriving DecidableEq

/-- The words for an error. -/
def ArithmeticError.describe : ArithmeticError → String
  | overflow lhs operator rhs => s!"{lhs} {operator} {rhs} overflows a 64-bit integer"
  | divisionByZero lhs => s!"division by zero: {lhs} / 0"
  | negativeExponent base exponent => s!"negative exponent: {base} ** {exponent}"

/-! ### Application -/

/-- An exponent that gives the same power as `n`, or one that is out of range as well. -/
def capExponent (n : Nat) : Nat := if n < 64 then n else 64 + n % 2

theorem pow_add_two_mul {b : Int} (h : b.natAbs ≤ 1) (m k : Nat) :
    Int.pow b (m + 1 + 2 * k) = Int.pow b (m + 1) := by
  have hb : b * b * b = b := by
    have : b = -1 ∨ b = 0 ∨ b = 1 := by omega
    rcases this with rfl | rfl | rfl <;> rfl
  have hsucc (n : Nat) : Int.pow b (n + 1) = Int.pow b n * b := Int.pow_succ b n
  induction k with
  | zero => rfl
  | succ k ih =>
    rw [← ih, show m + 1 + 2 * (k + 1) = m + 2 * k + 1 + 1 + 1 by omega,
      show m + 1 + 2 * k = m + 2 * k + 1 by omega]
    simp only [hsucc, Int.mul_assoc]
    rw [← Int.mul_assoc b b b, hb]

/-- From the 64th on, the powers of a base other than `-1`, `0` and `1` are out of range. -/
theorem narrow?_pow_eq_none {b : Int} {n : Nat} (hb : 2 ≤ b.natAbs) (hn : 64 ≤ n) :
    narrow? (Int.pow b n) = none := by
  have hpow : 2 ^ 64 ≤ b.natAbs ^ n :=
    Nat.le_trans (Nat.pow_le_pow_right (by omega) hn) (Nat.pow_le_pow_left hb n)
  have habs : (Int.pow b n).natAbs = b.natAbs ^ n := Int.natAbs_pow b n
  rw [narrow?_eq_none, Int64.toInt_minValue, Int64.toInt_maxValue]
  omega

/-- The exponent kept is as good as the exponent. -/
theorem narrow?_pow_capExponent (b : Int) (n : Nat) :
    narrow? (Int.pow b (capExponent n)) = narrow? (Int.pow b n) := by
  unfold capExponent
  split
  · rfl
  · by_cases hb : b.natAbs ≤ 1
    · have hn : n = 63 + n % 2 + 1 + 2 * ((n - 64) / 2) := by omega
      rw [show 64 + n % 2 = 63 + n % 2 + 1 by omega, ← pow_add_two_mul hb _ ((n - 64) / 2), ← hn]
    · rw [narrow?_pow_eq_none (by omega) (by omega), narrow?_pow_eq_none (by omega) (by omega)]

namespace Operator

/-- The result of an operation, narrowed to 64 bits; what does not fit is an overflow of
`lhs operator rhs`. -/
def narrowed (operator : Operator) (lhs rhs : Int64) (result : Int) :
    Except ArithmeticError Int64 :=
  match narrow? result with
  | some value => .ok value
  | none => .error (.overflow lhs operator rhs)

/-- The exponents of 32 bits lie below it. -/
def exponentBound : Int := 0x100000000

/-- The power for an exponent that is not negative. -/
def power (lhs rhs : Int64) : Except ArithmeticError Int64 :=
  if lhs = 0 ∧ 0 < rhs then .ok 0
  else if lhs = 1 then .ok 1
  else if lhs = -1 then .ok (if rhs % 2 = 0 then 1 else -1)
  else if rhs.toInt < exponentBound then
    narrowed pow lhs rhs (Int.pow lhs.toInt (capExponent rhs.toInt.toNat))
  else .error (.overflow lhs pow rhs)

/-- The result of an operator on two 64-bit integers. -/
def apply (operator : Operator) (lhs rhs : Int64) : Except ArithmeticError Int64 :=
  match operator with
  | pow => if rhs < 0 then .error (.negativeExponent lhs rhs) else power lhs rhs
  | add => narrowed add lhs rhs (lhs.toInt + rhs.toInt)
  | sub => narrowed sub lhs rhs (lhs.toInt - rhs.toInt)
  | mul => narrowed mul lhs rhs (lhs.toInt * rhs.toInt)
  | div =>
    if rhs = 0 then .error (.divisionByZero lhs)
    else narrowed div lhs rhs (lhs.toInt.tdiv rhs.toInt)
  | xor => .ok (lhs ^^^ rhs)

theorem narrowed_eq_ok {operator : Operator} {lhs rhs value : Int64} {result : Int} :
    narrowed operator lhs rhs result = .ok value ↔ value.toInt = result := by
  rw [← narrow?_eq_some, narrowed]
  cases narrow? result <;> simp

end Operator

end Descent.Arith
