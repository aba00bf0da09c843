import Mathlib.Data.Nat.Bitwise

/-! Long division of GF(2) polynomials stored as the bits of natural numbers.
A divisor `p` of degree `d` has its leading bit at position `d`; one step
clears bit `i ≥ d` of the dividend by adding `p` shifted to line up with it.
The division is linear in exclusive or and leaves a remainder below `2^d`. -/
namespace Gf2

/-- Clears bit `i` of `v` with the divisor `p` of degree `d`. -/
def clearBit (p d i v : Nat) : Nat :=
  if v.testBit i then v ^^^ (p <<< (i - d)) else v

/-- Clears bits `d + k - 1` down to `d`, the highest first. -/
def clearDown (p d : Nat) : Nat → Nat → Nat
  | 0, v => v
  | k + 1, v => clearDown p d k (clearBit p d (d + k) v)

/-- `p` has degree exactly `d`. -/
structure Degree (p d : Nat) : Prop where
  lead : p.testBit d = true
  small : p < 2 ^ (d + 1)

theorem degree_log2 {p : Nat} (nonzero : p ≠ 0) : Degree p p.log2 := by
  have lower := Nat.log2_self_le nonzero
  have upper : p < 2 ^ (p.log2 + 1) := Nat.lt_log2_self
  refine ⟨?_, upper⟩
  rw [Nat.testBit_eq_decide_div_mod_eq, decide_eq_true_eq]
  have one : p / 2 ^ p.log2 = 1 := by
    apply Nat.le_antisymm
    · have := (Nat.div_lt_iff_lt_mul (Nat.two_pow_pos p.log2)).mpr
        (by rw [← Nat.pow_succ']; exact upper)
      omega
    · exact (Nat.le_div_iff_mul_le (Nat.two_pow_pos _)).mpr (by simpa using lower)
  rw [one]

private theorem xor_cancel (a b c : Nat) : a ^^^ c ^^^ (b ^^^ c) = a ^^^ b := by
  apply Nat.eq_of_testBit_eq
  intro j
  simp only [Nat.testBit_xor]
  cases a.testBit j <;> cases b.testBit j <;> cases c.testBit j <;> rfl

theorem clearBit_xor (p d i a b : Nat) :
    clearBit p d i (a ^^^ b) = clearBit p d i a ^^^ clearBit p d i b := by
  unfold clearBit
  simp only [Nat.testBit_xor]
  cases left : a.testBit i <;> cases right : b.testBit i
  · simp
  · simp only [Bool.false_bne, if_true]
    simp [Nat.xor_assoc]
  · simp only [Bool.bne_false, if_true, if_false, Bool.false_eq_true]
    rw [Nat.xor_assoc, Nat.xor_comm b, ← Nat.xor_assoc]
  · simp only [bne_self_eq_false, if_true, Bool.false_eq_true, if_false]
    exact (xor_cancel a b _).symm

theorem clearDown_xor (p d k a b : Nat) :
    clearDown p d k (a ^^^ b) = clearDown p d k a ^^^ clearDown p d k b := by
  induction k generalizing a b with
  | zero => rfl
  | succ k ih => simp only [clearDown, clearBit_xor, ih]

theorem clearDown_zero (p d k : Nat) : clearDown p d k 0 = 0 := by
  induction k with
  | zero => rfl
  | succ k ih => simp [clearDown, clearBit, ih]

section
variable {p d : Nat}

private theorem testBit_above {v i j : Nat} (bound : v < 2 ^ i) (above : i ≤ j) :
    v.testBit j = false :=
  Nat.testBit_lt_two_pow (Nat.lt_of_lt_of_le bound (Nat.pow_le_pow_right (by omega) above))

theorem clearBit_lt (degree : Degree p d) {i v : Nat} (above : d ≤ i) (bound : v < 2 ^ (i + 1)) :
    clearBit p d i v < 2 ^ i := by
  apply Nat.lt_pow_two_of_testBit
  intro j atLeast
  unfold clearBit
  split
  · rename_i set
    simp only [Nat.testBit_xor, Nat.testBit_shiftLeft]
    by_cases same : j = i
    · subst j
      have index : i - (i - d) = d := by omega
      simp [set, index, degree.lead, show i - d ≤ i by omega]
    · have high : v.testBit j = false := testBit_above bound (by omega)
      have shifted : p.testBit (j - (i - d)) = false := testBit_above degree.small (by omega)
      simp [high, shifted]
  · rename_i clear
    by_cases same : j = i
    · subst j
      simpa using clear
    · exact testBit_above bound (by omega)

theorem clearDown_lt (degree : Degree p d) {k v : Nat} (bound : v < 2 ^ (d + k)) :
    clearDown p d k v < 2 ^ d := by
  induction k generalizing v with
  | zero => simpa [clearDown] using bound
  | succ k ih =>
    exact ih (clearBit_lt degree (by omega) (by simpa [Nat.add_assoc] using bound))

theorem clearDown_of_lt {k v : Nat} (bound : v < 2 ^ d) : clearDown p d k v = v := by
  induction k with
  | zero => rfl
  | succ k ih =>
    have clear : v.testBit (d + k) = false := testBit_above bound (by omega)
    simp [clearDown, clearBit, clear, ih]

end

end Gf2
