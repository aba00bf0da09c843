import Mathlib
import IridiumSniffer.Lib.Gf2

/-! The bits of a natural number as a polynomial over `GF(2)`: bit `i` is the
coefficient of `X^i`. Exclusive or is addition and a left shift by `k` is a
product with `X^k`, so every step of the long division of `Gf2` adds a
multiple of the divisor, and the remainder differs from the dividend by one. -/
namespace Gf2

open Polynomial

noncomputable section

def bitCoeff (b : Bool) : ZMod 2 := if b then 1 else 0

theorem bitCoeff_xor (a b : Bool) : bitCoeff (a ^^ b) = bitCoeff a + bitCoeff b := by
  cases a <;> cases b <;> decide

/-- `n` as the polynomial `∑ bit i of n * X^i`. -/
def toPoly (n : Nat) : Polynomial (ZMod 2) :=
  ∑ i ∈ Finset.range n, monomial i (bitCoeff (n.testBit i))

@[simp] theorem coeff_toPoly (n j : Nat) : (toPoly n).coeff j = bitCoeff (n.testBit j) := by
  rw [toPoly, finsetSum_coeff]
  simp only [coeff_monomial]
  rw [Finset.sum_ite_eq' (Finset.range n) j fun i => bitCoeff (n.testBit i)]
  split
  · rfl
  · rename_i outside
    have above : n < 2 ^ j :=
      Nat.lt_of_lt_of_le n.lt_two_pow_self (Nat.pow_le_pow_right (by omega) (by simpa using outside))
    simp [Nat.testBit_lt_two_pow above, bitCoeff]

@[simp] theorem toPoly_zero : toPoly 0 = 0 := rfl

theorem toPoly_xor (a b : Nat) : toPoly (a ^^^ b) = toPoly a + toPoly b := by
  ext j
  simp only [coeff_toPoly, coeff_add, Nat.testBit_xor, bitCoeff_xor]

theorem toPoly_shiftLeft (p k : Nat) : toPoly (p <<< k) = toPoly p * X ^ k := by
  ext j
  rw [coeff_mul_X_pow', coeff_toPoly, Nat.testBit_shiftLeft]
  by_cases low : k ≤ j
  · simp [low]
  · simp [low, bitCoeff]

theorem dvd_xor_clearBit (p d i v : Nat) : toPoly p ∣ toPoly (v ^^^ clearBit p d i v) := by
  unfold clearBit
  split
  · rw [← Nat.xor_assoc, Nat.xor_self, Nat.zero_xor, toPoly_shiftLeft]
    exact dvd_mul_right _ _
  · rw [Nat.xor_self, toPoly_zero]
    exact dvd_zero _

theorem dvd_xor_clearDown (p d k v : Nat) : toPoly p ∣ toPoly (v ^^^ clearDown p d k v) := by
  induction k generalizing v with
  | zero =>
    rw [clearDown, Nat.xor_self, toPoly_zero]
    exact dvd_zero _
  | succ k ih =>
    -- `v ^^^ r = (v ^^^ w) ^^^ (w ^^^ r)` for the dividend `w` after the first step
    have split : v ^^^ clearDown p d (k + 1) v =
        (v ^^^ clearBit p d (d + k) v) ^^^ (clearBit p d (d + k) v ^^^ clearDown p d k (clearBit p d (d + k) v)) := by
      rw [clearDown, Nat.xor_assoc, ← Nat.xor_assoc (clearBit p d (d + k) v), Nat.xor_self, Nat.zero_xor]
    rw [split, toPoly_xor]
    exact dvd_add (dvd_xor_clearBit p d (d + k) v) (ih _)

end

end Gf2
