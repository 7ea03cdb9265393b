import Descent.Proofs.Expression
import Mathlib.Algebra.Ring.Int.Parity
import Mathlib.Data.Int.Bitwise

/-!
# Arithmetic is exact

An operator gives what the integers give, if that fits in 64 bits, and fails only where
they give nothing or what does not fit (`apply_exact`). For sums, differences and products
this is how they are computed. A quotient leaves 64 bits in one case only (`fits_tdiv_iff`).
A power is computed in five ways, depending on its base and on the size of its exponent,
and all of them narrow the same integer (`power_eq_narrowed`). The exclusive or, taken bit
by bit of the words, is that of the integers, whose two's complement goes on to the left
for ever (`toInt_xor`), and has no way to fail.
-/

namespace Descent

namespace Arith

variable {op : Operator} {lhs rhs : Int64} {n : Int} {e : ArithmeticError}

/-! ### Narrowing -/

/-- The operator has the integer `n` for a result if that fits in 64 bits, and overflows
otherwise. -/
structure Operator.Narrows (op : Operator) (lhs rhs : Int64) (n : Int) : Prop where
  /-- A value is the integer itself. -/
  ok : ∀ v, op.apply lhs rhs = .ok v ↔ v.toInt = n
  /-- The error names the operation. -/
  error : ∀ e, op.apply lhs rhs = .error e ↔ ¬ Fits n ∧ e = .overflow lhs op rhs

theorem narrowed_eq_error :
    op.narrowed lhs rhs n = .error e ↔ ¬ Fits n ∧ e = .overflow lhs op rhs := by
  rw [← narrow?_eq_none_iff_not_fits, Operator.narrowed]
  cases narrow? n with
  | some v => simp
  | none => simp [eq_comm]

theorem narrows_of_eq_narrowed (h : op.apply lhs rhs = op.narrowed lhs rhs n) :
    op.Narrows lhs rhs n := by
  refine ⟨fun v => ?_, fun e => ?_⟩
  · rw [h, Operator.narrowed_eq_ok]
  · rw [h, narrowed_eq_error]

/-! ### Quotients -/

/-- By a divisor that is no unit the quotient is at most half of what is divided. -/
theorem two_mul_natAbs_tdiv_le {l r : Int} (h : 2 ≤ r.natAbs) :
    2 * (l.tdiv r).natAbs ≤ l.natAbs := by
  rw [Int.natAbs_tdiv]
  calc 2 * (l.natAbs / r.natAbs) ≤ r.natAbs * (l.natAbs / r.natAbs) := Nat.mul_le_mul_right _ h
    _ ≤ l.natAbs := Nat.mul_div_le _ _

/-- The one quotient that does not fit is that of the least integer by `-1`. -/
theorem fits_tdiv_iff {l r : Int} (hl : Fits l) (hr : r ≠ 0) :
    Fits (l.tdiv r) ↔ ¬ (l = -9223372036854775808 ∧ r = -1) := by
  unfold Fits at *
  by_cases h : 2 ≤ r.natAbs
  · have := two_mul_natAbs_tdiv_le (l := l) h
    omega
  · obtain rfl | rfl : r = 1 ∨ r = -1 := by omega
    · rw [Int.tdiv_one]
      omega
    · rw [Int.tdiv_neg, Int.tdiv_one]
      omega

/-! ### Powers -/

/-- The power of `-1` is told by the parity of the exponent. -/
theorem toInt_ite_mod_two (h : 0 ≤ rhs.toInt) :
    (if rhs % 2 = 0 then 1 else -1 : Int64).toInt = (-1) ^ rhs.toInt.toNat := by
  have hmod : (rhs % 2).toInt = rhs.toInt % 2 := by
    rw [Int64.toInt_mod, Int.tmod_eq_emod_of_nonneg h]
    rfl
  by_cases heven : rhs % 2 = 0
  · rw [heven, Int64.toInt_zero] at hmod
    have hexp : Even rhs.toInt.toNat := Nat.even_iff.mpr (by omega)
    rw [if_pos heven, hexp.neg_one_pow]
    rfl
  · have hne : (rhs % 2).toInt ≠ (0 : Int64).toInt := mt Int64.toInt_inj.mp heven
    rw [hmod, Int64.toInt_zero] at hne
    have hexp : Odd rhs.toInt.toNat := Nat.odd_iff.mpr (by omega)
    rw [if_neg heven, hexp.neg_one_pow]
    rfl

/-- However a power is computed, it is the power of the integers, narrowed. -/
theorem power_eq_narrowed (h : 0 ≤ rhs.toInt) :
    Operator.power lhs rhs =
      Operator.pow.narrowed lhs rhs (lhs.toInt ^ rhs.toInt.toNat) := by
  rw [Operator.power]
  by_cases hzero : lhs = 0 ∧ 0 < rhs
  · obtain ⟨rfl, hpos⟩ := hzero
    rw [if_pos ⟨rfl, hpos⟩, eq_comm, Operator.narrowed_eq_ok]
    have hne : rhs.toInt.toNat ≠ 0 := by
      have := Int64.lt_iff_toInt_lt.mp hpos
      rw [Int64.toInt_zero] at this
      omega
    exact (zero_pow hne).symm
  rw [if_neg hzero]
  by_cases hone : lhs = 1
  · rw [if_pos hone, eq_comm, Operator.narrowed_eq_ok, hone]
    exact (one_pow _).symm
  rw [if_neg hone]
  by_cases hneg : lhs = -1
  · rw [if_pos hneg, eq_comm, Operator.narrowed_eq_ok, hneg]
    exact toInt_ite_mod_two h
  rw [if_neg hneg]
  by_cases hbound : rhs.toInt < Operator.exponentBound
  · rw [if_pos hbound, Operator.narrowed, narrow?_pow_capExponent]
    rfl
  · -- the base is none of those whose powers are all in range
    have hlarge : 0x100000000 ≤ rhs.toInt := Int.not_lt.mp hbound
    have hpos : 0 < rhs := Int64.lt_iff_toInt_lt.mpr (by rw [Int64.toInt_zero]; omega)
    have hbase {v : Int64} (hv : lhs ≠ v) : lhs.toInt ≠ v.toInt := mt Int64.toInt_inj.mp hv
    have h0 : lhs.toInt ≠ 0 := hbase fun h => hzero ⟨h, hpos⟩
    have h1 : lhs.toInt ≠ 1 := hbase hone
    have h2 : lhs.toInt ≠ -1 := hbase hneg
    have hnone : narrow? (lhs.toInt ^ rhs.toInt.toNat) = none :=
      narrow?_pow_eq_none (by omega) (by omega)
    rw [if_neg hbound, Operator.narrowed, hnone]

/-! ### Exclusive or -/

/-- The integer of a word, by its sign: a negative one is the complement of a natural
number. -/
theorem toInt_eq_ite_msb {w : Nat} (x : BitVec w) :
    x.toInt = if x.msb then .negSucc (~~~x).toNat else .ofNat x.toNat := by
  have hlt := x.isLt
  rw [BitVec.toInt_eq_msb_cond]
  cases x.msb with
  | false => rfl
  | true =>
    rw [if_pos rfl, if_pos rfl, BitVec.toNat_not, Int.negSucc_eq]
    omega

theorem toInt_xor_bitVec {w : Nat} (x y : BitVec w) :
    (x ^^^ y).toInt = x.toInt.xor y.toInt := by
  rw [toInt_eq_ite_msb x, toInt_eq_ite_msb y, toInt_eq_ite_msb, BitVec.msb_xor]
  cases x.msb with
  | false =>
    cases y.msb with
    | false => simp [Int.xor]
    | true => simp [Int.xor, BitVec.not_xor_right, -BitVec.toNat_not]
  | true =>
    cases y.msb with
    | false => simp [Int.xor, BitVec.not_xor_left, -BitVec.toNat_not]
    | true =>
      have hnot : x ^^^ y = ~~~x ^^^ ~~~y := by
        rw [← BitVec.not_xor_left, ← BitVec.not_xor_right, BitVec.not_not]
      simp [Int.xor, hnot, -BitVec.toNat_not]

/-- The exclusive or of the words is that of the integers. -/
theorem toInt_xor (x y : Int64) : (x ^^^ y).toInt = x.toInt.xor y.toInt :=
  toInt_xor_bitVec x.toBitVec y.toBitVec

/-! ### Quotients and powers -/

theorem apply_div_of_eq_zero (h : rhs.toInt = 0) :
    Operator.div.apply lhs rhs = .error (.divisionByZero lhs) := by
  have hzero : rhs = 0 := Int64.toInt_inj.mp h
  rw [Operator.apply, if_pos hzero]

theorem apply_div_of_ne_zero (h : rhs.toInt ≠ 0) :
    Operator.div.Narrows lhs rhs (lhs.toInt.tdiv rhs.toInt) := by
  have hne : rhs ≠ 0 := fun hzero => h (by rw [hzero, Int64.toInt_zero])
  refine narrows_of_eq_narrowed ?_
  rw [Operator.apply, if_neg hne]

theorem apply_div_eq_ok {v : Int64} :
    Operator.div.apply lhs rhs = .ok v ↔
      rhs.toInt ≠ 0 ∧ v.toInt = lhs.toInt.tdiv rhs.toInt := by
  by_cases hzero : rhs.toInt = 0
  · simp [apply_div_of_eq_zero hzero, hzero]
  · rw [(apply_div_of_ne_zero hzero).ok]
    exact (and_iff_right hzero).symm

theorem apply_div_eq_error :
    Operator.div.apply lhs rhs = .error e ↔
      rhs.toInt = 0 ∧ e = .divisionByZero lhs ∨
      lhs.toInt = -9223372036854775808 ∧ rhs.toInt = -1 ∧ e = .overflow lhs .div rhs := by
  by_cases hzero : rhs.toInt = 0
  · simp [apply_div_of_eq_zero hzero, hzero, eq_comm]
  · rw [(apply_div_of_ne_zero hzero).error, fits_tdiv_iff (fits_toInt lhs) hzero, not_not,
      and_assoc]
    exact (or_iff_right fun h => hzero h.1).symm

theorem apply_pow_of_neg (h : rhs.toInt < 0) :
    Operator.pow.apply lhs rhs = .error (.negativeExponent lhs rhs) := by
  have hneg : rhs < 0 := Int64.lt_iff_toInt_lt.mpr h
  rw [Operator.apply, if_pos hneg]

theorem apply_pow_of_nonneg (h : 0 ≤ rhs.toInt) :
    Operator.pow.Narrows lhs rhs (lhs.toInt ^ rhs.toInt.toNat) := by
  have hnot : ¬ rhs < 0 := fun hlt => Int.not_lt.mpr h (Int64.lt_iff_toInt_lt.mp hlt)
  refine narrows_of_eq_narrowed ?_
  rw [Operator.apply, if_neg hnot, power_eq_narrowed h]

theorem apply_pow_eq_ok {v : Int64} :
    Operator.pow.apply lhs rhs = .ok v ↔
      0 ≤ rhs.toInt ∧ v.toInt = lhs.toInt ^ rhs.toInt.toNat := by
  by_cases hneg : rhs.toInt < 0
  · simp [apply_pow_of_neg hneg, hneg]
  · rw [(apply_pow_of_nonneg (Int.not_lt.mp hneg)).ok]
    exact (and_iff_right (Int.not_lt.mp hneg)).symm

theorem apply_pow_eq_error :
    Operator.pow.apply lhs rhs = .error e ↔
      rhs.toInt < 0 ∧ e = .negativeExponent lhs rhs ∨
      0 ≤ rhs.toInt ∧ ¬ Fits (lhs.toInt ^ rhs.toInt.toNat) ∧ e = .overflow lhs .pow rhs := by
  by_cases hneg : rhs.toInt < 0
  · simp [apply_pow_of_neg hneg, hneg, eq_comm]
  · rw [(apply_pow_of_nonneg (Int.not_lt.mp hneg)).error]
    simp [hneg, Int.not_lt.mp hneg]

/-! ### All operators -/

/-- **Arithmetic is exact.** On any two integers of 64 bits
* a sum, difference or product is that of the integers, and overflows exactly if that does
  not fit;
* a quotient is that of the integers, truncated toward zero; it fails exactly if the divisor
  is zero, and overflows exactly for the least integer divided by `-1`;
* a power is that of the integers, where the power of `0` by `0` is `1`; it fails exactly if
  the exponent is negative, and overflows exactly if it does not fit, however large the
  exponent is;
* an exclusive or is that of the two's complements, and never fails.
Every error names the integers it was made for. -/
theorem apply_exact (lhs rhs : Int64) :
    Operator.add.Narrows lhs rhs (lhs.toInt + rhs.toInt) ∧
    Operator.sub.Narrows lhs rhs (lhs.toInt - rhs.toInt) ∧
    Operator.mul.Narrows lhs rhs (lhs.toInt * rhs.toInt) ∧
    (∀ v, Operator.div.apply lhs rhs = .ok v ↔
      rhs.toInt ≠ 0 ∧ v.toInt = lhs.toInt.tdiv rhs.toInt) ∧
    (∀ e, Operator.div.apply lhs rhs = .error e ↔
      rhs.toInt = 0 ∧ e = .divisionByZero lhs ∨
      lhs.toInt = -9223372036854775808 ∧ rhs.toInt = -1 ∧ e = .overflow lhs .div rhs) ∧
    (∀ v, Operator.pow.apply lhs rhs = .ok v ↔
      0 ≤ rhs.toInt ∧ v.toInt = lhs.toInt ^ rhs.toInt.toNat) ∧
    (∀ e, Operator.pow.apply lhs rhs = .error e ↔
      rhs.toInt < 0 ∧ e = .negativeExponent lhs rhs ∨
      0 ≤ rhs.toInt ∧ ¬ Fits (lhs.toInt ^ rhs.toInt.toNat) ∧ e = .overflow lhs .pow rhs) ∧
    ∃ v, Operator.xor.apply lhs rhs = .ok v ∧ v.toInt = lhs.toInt.xor rhs.toInt := by
  exact ⟨narrows_of_eq_narrowed rfl, narrows_of_eq_narrowed rfl, narrows_of_eq_narrowed rfl,
    fun _ => apply_div_eq_ok, fun _ => apply_div_eq_error,
    fun _ => apply_pow_eq_ok, fun _ => apply_pow_eq_error,
    lhs ^^^ rhs, rfl, toInt_xor lhs rhs⟩

/-- The least integer is a power; a large exponent is no overflow by itself. -/
example : Operator.pow.apply (-2) 63 = .ok Int64.minValue ∧
    Operator.pow.apply 2 5000000000 = .error (.overflow 2 .pow 5000000000) ∧
    Operator.pow.apply (-1) 5000000001 = .ok (-1) := by decide

end Arith

end Descent
