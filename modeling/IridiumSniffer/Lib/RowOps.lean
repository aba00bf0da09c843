import Mathlib.Data.Matrix.Mul

/-! The three row operations of Gauss-Jordan elimination: swapping two rows,
dividing one by a scalar, and subtracting multiples of one row from every
other. Each acts on the rows of a product through its left factor, so doing
the same operation to `inv` and to `inv * A0` keeps the one the product of the
other with `A0`. -/
namespace RowOps

variable {m l n K : Type} [DecidableEq m]

/-- Rows `i` and `p` exchanged. -/
def swapRows (i p : m) (M : Matrix m n K) : Matrix m n K :=
  fun r c => M (Equiv.swap i p r) c

theorem swapRows_self (i : m) (M : Matrix m n K) : swapRows i i M = M := by
  ext r c
  simp [swapRows]

theorem ite_swapRows (i p : m) (M : Matrix m n K) : (if p ≠ i then swapRows i p M else M) = swapRows i p M := by
  split
  · rfl
  · rename_i same
    rw [not_not.mp same, swapRows_self]

variable [Field K]

/-- Row `i` divided by `d`. -/
def scaleRow (i : m) (d : K) (M : Matrix m n K) : Matrix m n K :=
  fun r c => if r = i then M r c / d else M r c

/-- Every row `r ≠ i` less `f r` times row `i`. -/
def elimRows (i : m) (f : m → K) (M : Matrix m n K) : Matrix m n K :=
  fun r c => if r = i then M r c else M r c - f r * M i c

variable [Fintype l]

theorem swapRows_mul (i p : m) (M : Matrix m l K) (N : Matrix l n K) :
    swapRows i p (M * N) = swapRows i p M * N := by
  ext r c
  simp only [swapRows, Matrix.mul_apply]

theorem scaleRow_mul (i : m) (d : K) (M : Matrix m l K) (N : Matrix l n K) :
    scaleRow i d (M * N) = scaleRow i d M * N := by
  ext r c
  simp only [scaleRow, Matrix.mul_apply]
  split
  · rw [div_eq_mul_inv, Finset.sum_mul]
    exact Finset.sum_congr rfl fun k _ => by ring
  · rfl

theorem elimRows_mul (i : m) (f : m → K) (M : Matrix m l K) (N : Matrix l n K) :
    elimRows i f (M * N) = elimRows i f M * N := by
  ext r c
  simp only [elimRows, Matrix.mul_apply]
  split
  · rfl
  · rw [Finset.mul_sum, ← Finset.sum_sub_distrib]
    exact Finset.sum_congr rfl fun k _ => by ring

/-! ### Unit columns -/

section Columns

variable {M : Matrix m m K} {i p c : m}

/-- A column that is already a unit column stays one when two other rows are
exchanged, divided or cleared. -/
theorem swapRows_unitColumn (unit : ∀ r, M r c = (1 : Matrix m m K) r c) (ne_i : c ≠ i) (ne_p : c ≠ p)
    (r : m) : swapRows i p M r c = (1 : Matrix m m K) r c := by
  have fixed : Equiv.swap i p c = c := Equiv.swap_apply_of_ne_of_ne ne_i ne_p
  rw [swapRows, unit, Matrix.one_apply, Matrix.one_apply]
  congr 1
  rw [Equiv.swap_apply_eq_iff, fixed]

theorem scaleRow_unitColumn (unit : ∀ r, M r c = (1 : Matrix m m K) r c) (ne : c ≠ i) (d : K) (r : m) :
    scaleRow i d M r c = (1 : Matrix m m K) r c := by
  unfold scaleRow
  split
  · rename_i same
    subst same
    rw [unit, Matrix.one_apply_ne (Ne.symm ne), zero_div]
  · exact unit r

theorem elimRows_unitColumn (unit : ∀ r, M r c = (1 : Matrix m m K) r c) (ne : c ≠ i) (f : m → K) (r : m) :
    elimRows i f M r c = (1 : Matrix m m K) r c := by
  unfold elimRows
  split
  · exact unit r
  · rw [unit i, Matrix.one_apply_ne (Ne.symm ne), mul_zero, sub_zero, unit]

/-- Dividing row `i` by a nonzero `M i i` and clearing column `i` from the
other rows makes column `i` a unit column. -/
theorem elimRows_scaleRow_pivot (nonzero : M i i ≠ 0) (r : m) :
    elimRows i (fun r => scaleRow i (M i i) M r i) (scaleRow i (M i i) M) r i = (1 : Matrix m m K) r i := by
  have one : scaleRow i (M i i) M i i = 1 := by
    rw [scaleRow, if_pos rfl, div_self nonzero]
  unfold elimRows
  split
  · rename_i same
    subst same
    rw [one, Matrix.one_apply_eq]
  · rename_i other
    rw [one, mul_one, sub_self, Matrix.one_apply_ne other]

end Columns

end RowOps
