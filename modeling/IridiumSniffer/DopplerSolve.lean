import IridiumSniffer.DopplerPos
import IridiumSniffer.Lib.RowOps

/-! `mat4_invert` of `doppler_pos.c`, the Gauss-Jordan inversion behind the
normal-equation solve, with the doubles exact in an ordered field. Each column
picks the first row of largest magnitude on or below the diagonal, gives up
below `1e-30`, swaps that row up, divides it by its pivot and clears the
column from every other row; `inv` undergoes the same row operations.

The in-place loops are row operations: `diag` and each `factor` are read
before the row they come from is changed, and the pivot row is not changed
while the others are cleared. -/
namespace IridiumSniffer.Doppler

open RowOps

abbrev Mat4 (K : Type) := Matrix (Fin 4) (Fin 4) K

variable {K : Type} [Field K] [LinearOrder K]

/-- `1e-30`. -/
def tiny : K := 1 / 10 ^ 30

/-- The partial pivoting of `col`: `pivot` and `max_val` after the rows below
`col`, a row taking over only when strictly larger. -/
def pivotSearch (A : Mat4 K) (col : Fin 4) : Fin 4 × K :=
  (List.finRange 4).foldl (fun best row => if col < row ∧ |A row col| > best.2 then (row, |A row col|) else best)
    (col, |A col col|)

/-- One turn of the column loop on `(A, inv)`; `none` is a `return -1`. -/
def gaussColumn (s : Mat4 K × Mat4 K) (col : Fin 4) : Option (Mat4 K × Mat4 K) :=
  let search := pivotSearch s.1 col
  if search.2 < tiny then none
  else
    let A := if search.1 ≠ col then swapRows col search.1 s.1 else s.1
    let inv := if search.1 ≠ col then swapRows col search.1 s.2 else s.2
    let diag := A col col
    let A := scaleRow col diag A
    let inv := scaleRow col diag inv
    let factor := fun row => A row col
    some (elimRows col factor A, elimRows col factor inv)

/-- `(A, inv)` after the first `k` columns, `inv` starting as the identity. -/
def reduceColumns (A : Mat4 K) : Nat → Option (Mat4 K × Mat4 K)
  | 0 => some (A, 1)
  | k + 1 => (reduceColumns A k).bind fun s => if h : k < 4 then gaussColumn s ⟨k, h⟩ else some s

/-- `mat4_invert`: `none` is a return of `-1`, `some (A, inv)` a return of 0
with `A` reduced in place and the inverse in `inv`. -/
def mat4Invert (A : Mat4 K) : Option (Mat4 K × Mat4 K) :=
  reduceColumns A 4

/-! ### The pivot search -/

/-- The search keeps a row on or below the diagonal with its magnitude, and
never lets that magnitude fall; every row it passes is at most what it ends
with. -/
private theorem pivotFold_spec (A : Mat4 K) (col : Fin 4) (rows : List (Fin 4)) (best : Fin 4 × K)
    (below : col ≤ best.1) (value : best.2 = |A best.1 col|) :
    let found := rows.foldl (fun best row => if col < row ∧ |A row col| > best.2 then (row, |A row col|) else best) best
    col ≤ found.1 ∧ found.2 = |A found.1 col| ∧ best.2 ≤ found.2 ∧ ∀ r ∈ rows, col < r → |A r col| ≤ found.2 := by
  induction rows generalizing best with
  | nil => exact ⟨below, value, le_refl _, fun _ none => absurd none List.not_mem_nil⟩
  | cons row rows ih =>
    simp only [List.foldl_cons]
    split
    · rename_i larger
      obtain ⟨below', value', grows, rest⟩ := ih (row, |A row col|) (le_of_lt larger.1) rfl
      refine ⟨below', value', le_trans (le_of_lt larger.2) grows, fun r mem later => ?_⟩
      rcases List.mem_cons.mp mem with rfl | mem
      · exact grows
      · exact rest r mem later
    · rename_i smaller
      obtain ⟨below', value', grows, rest⟩ := ih best below value
      refine ⟨below', value', grows, fun r mem later => ?_⟩
      rcases List.mem_cons.mp mem with rfl | mem
      · exact le_trans (not_lt.mp fun bigger => smaller ⟨later, bigger⟩) grows
      · exact rest r mem later

theorem pivotSearch_spec (A : Mat4 K) (col : Fin 4) :
    col ≤ (pivotSearch A col).1 ∧ (pivotSearch A col).2 = |A (pivotSearch A col).1 col| ∧
      ∀ r, col ≤ r → |A r col| ≤ (pivotSearch A col).2 := by
  obtain ⟨below, value, grows, rest⟩ := pivotFold_spec A col (List.finRange 4) (col, |A col col|) le_rfl rfl
  refine ⟨below, value, fun r atLeast => ?_⟩
  rcases eq_or_lt_of_le atLeast with rfl | later
  · exact grows
  · exact rest r (List.mem_finRange r) later

/-- Where `return -1` happens: a column whose candidates are all below
`1e-30` in the matrix the columns before it left. -/
theorem reduceColumns_eq_none (A0 : Mat4 K) {k : Nat} (failed : reduceColumns A0 k = none) :
    ∃ col : Fin 4, col.val < k ∧ ∃ s, reduceColumns A0 col = some s ∧ gaussColumn s col = none := by
  induction k with
  | zero => cases failed
  | succ k ih =>
    cases before : reduceColumns A0 k with
    | none =>
      obtain ⟨col, earlier, rest⟩ := ih before
      exact ⟨col, by omega, rest⟩
    | some t =>
      rw [reduceColumns, before, Option.bind_some] at failed
      split at failed
      · rename_i inside
        exact ⟨⟨k, inside⟩, by simp, t, before, failed⟩
      · cases failed

theorem gaussColumn_eq_none_iff (s : Mat4 K × Mat4 K) (col : Fin 4) :
    gaussColumn s col = none ↔ ∀ r, col ≤ r → |s.1 r col| < tiny := by
  obtain ⟨below, value, largest⟩ := pivotSearch_spec s.1 col
  unfold gaussColumn
  dsimp only
  constructor
  · intro failed r atLeast
    split at failed
    · rename_i small
      exact lt_of_le_of_lt (largest r atLeast) small
    · cases failed
  · intro small
    rw [if_pos (value ▸ small _ below)]

section Proofs

variable [IsStrictOrderedRing K]

theorem tiny_pos : (0 : K) < tiny := by
  unfold tiny
  positivity

/-! ### The invariant over the columns -/

/-- After `k` columns: `inv * A0` is the current `A`, and its first `k`
columns are those of the identity. -/
structure Inverting (A0 : Mat4 K) (k : Nat) (s : Mat4 K × Mat4 K) : Prop where
  product : s.2 * A0 = s.1
  reduced : ∀ c : Fin 4, c.val < k → ∀ r, s.1 r c = (1 : Mat4 K) r c

/-- One column keeps the product and adds column `col` to the reduced ones;
the pivot is nonzero because it is at least `1e-30` in magnitude. -/
theorem Inverting.gaussColumn {A0 : Mat4 K} {s s' : Mat4 K × Mat4 K} {col : Fin 4}
    (h : Inverting A0 col s) (step : gaussColumn s col = some s') : Inverting A0 (col + 1) s' := by
  obtain ⟨below, value, -⟩ := pivotSearch_spec s.1 col
  unfold IridiumSniffer.Doppler.gaussColumn at step
  dsimp only at step
  split at step
  · cases step
  rename_i large
  rw [ite_swapRows, ite_swapRows] at step
  obtain rfl := (Option.some.inj step).symm
  set p := (pivotSearch s.1 col).1
  have nonzero : swapRows col p s.1 col col ≠ 0 := by
    have pivot : swapRows col p s.1 col col = s.1 p col := by simp [swapRows]
    rw [pivot]
    intro zero
    rw [zero, abs_zero] at value
    exact large (value ▸ tiny_pos)
  refine ⟨?_, fun c before r => ?_⟩
  all_goals dsimp only
  · rw [← elimRows_mul, ← scaleRow_mul, ← swapRows_mul, h.product]
  · rcases Nat.lt_succ_iff_lt_or_eq.mp before with earlier | same
    · -- an earlier column, untouched by the rows `col` and `p` it has zeros in
      have ne_col : c ≠ col := fun same => by rw [same] at earlier; omega
      have ne_p : c ≠ p := fun same => by rw [same] at earlier; exact absurd below (by omega)
      exact elimRows_unitColumn (scaleRow_unitColumn (swapRows_unitColumn (h.reduced c earlier) ne_col ne_p) ne_col _)
        ne_col _ r
    · obtain rfl : c = col := Fin.ext same
      exact elimRows_scaleRow_pivot nonzero r

theorem inverting_reduceColumns (A0 : Mat4 K) {k : Nat} {s : Mat4 K × Mat4 K}
    (reduced : reduceColumns A0 k = some s) (within : k ≤ 4) : Inverting A0 k s := by
  induction k generalizing s with
  | zero =>
    obtain rfl := (Option.some.inj reduced).symm
    exact ⟨one_mul A0, fun _ none => absurd none (Nat.not_lt_zero _)⟩
  | succ k ih =>
    obtain ⟨t, before, step⟩ := Option.bind_eq_some_iff.mp reduced
    rw [dif_pos (by omega)] at step
    exact Inverting.gaussColumn (ih before (by omega)) step

/-- A return of 0 leaves the inverse: after all four columns `A` is the
identity, and `inv * A0 = A`. -/
theorem mat4Invert_mul_self {A0 A inv : Mat4 K} (ok : mat4Invert A0 = some (A, inv)) : inv * A0 = 1 := by
  have h := inverting_reduceColumns A0 ok le_rfl
  have identity : A = 1 := by
    ext r c
    exact h.reduced c c.isLt r
  rw [← identity]
  exact h.product

/-- With the doubles exact: a return of 0 leaves `inv * A0 = I`; a return of
`-1` comes from a column where every candidate pivot of the partly reduced
matrix is below `1e-30`; and if every column has a candidate of at least
`1e-30`, it returns 0. -/
theorem mat4Invert_correct (A0 : Mat4 K) :
    (∀ A inv, mat4Invert A0 = some (A, inv) → inv * A0 = 1) ∧
      (mat4Invert A0 = none → ∃ col : Fin 4, ∃ A inv, reduceColumns A0 col = some (A, inv) ∧
        ∀ r : Fin 4, col ≤ r → |A r col| < tiny) ∧
      ((∀ col : Fin 4, ∀ A inv, reduceColumns A0 col = some (A, inv) → ∃ r : Fin 4, col ≤ r ∧ tiny ≤ |A r col|) →
        (mat4Invert A0).isSome) := by
  have singular : mat4Invert A0 = none → ∃ col : Fin 4, ∃ A inv, reduceColumns A0 col = some (A, inv) ∧
      ∀ r : Fin 4, col ≤ r → |A r col| < tiny := by
    intro failed
    obtain ⟨col, -, ⟨A, inv⟩, reached, stuck⟩ := reduceColumns_eq_none A0 failed
    exact ⟨col, A, inv, reached, (gaussColumn_eq_none_iff _ col).mp stuck⟩
  refine ⟨fun A inv ok => mat4Invert_mul_self ok, singular, fun pivots => ?_⟩
  rw [Option.isSome_iff_ne_none]
  intro failed
  obtain ⟨col, A, inv, reached, small⟩ := singular failed
  obtain ⟨r, below, large⟩ := pivots col A inv reached
  exact absurd (small r below) (not_lt.mpr large)

theorem mat4Invert_correct_identity :
    (∀ A inv, mat4Invert (1 : Mat4 ℚ) = some (A, inv) → inv * 1 = 1) ∧
      (mat4Invert (1 : Mat4 ℚ) = none → ∃ col : Fin 4, ∃ A inv, reduceColumns (1 : Mat4 ℚ) col = some (A, inv) ∧
        ∀ r : Fin 4, col ≤ r → |A r col| < tiny) ∧
      ((∀ col : Fin 4, ∀ A inv, reduceColumns (1 : Mat4 ℚ) col = some (A, inv) →
        ∃ r : Fin 4, col ≤ r ∧ tiny ≤ |A r col|) → (mat4Invert (1 : Mat4 ℚ)).isSome) :=
  mat4Invert_correct (K := ℚ) 1

end Proofs

end IridiumSniffer.Doppler
