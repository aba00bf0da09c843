import Mathlib
import IridiumSniffer.Lib.Loop

/-! Symbol timing recovery of `qpsk_demod`: the Catmull-Rom interpolator
`cubic_interp`, the Gardner decimator `decimate_gardner` and the size of the
buffers it writes, for the frames `burst_downmix_process` extracts. Floats are
read as an ordered field `K` with exact arithmetic; `float complex` is a pair
over `K`. Every iteration of the decimator moves its sampling position by the
symbol period up to half a sample, which bounds how many symbols it writes and
shows that it ends. That bound exceeds the buffers' `num_samples / sps + 1`. -/
namespace IridiumSniffer.Qpsk

/-- `float complex`, with exact parts. -/
structure Cplx (K : Type*) where
  re : K
  im : K
deriving DecidableEq, Repr

namespace Cplx

variable {K : Type*} [Field K]

instance : Zero (Cplx K) := ⟨⟨0, 0⟩⟩
instance : Add (Cplx K) := ⟨fun z w => ⟨z.re + w.re, z.im + w.im⟩⟩
instance : Sub (Cplx K) := ⟨fun z w => ⟨z.re - w.re, z.im - w.im⟩⟩
instance : Mul (Cplx K) := ⟨fun z w => ⟨z.re * w.re - z.im * w.im, z.re * w.im + z.im * w.re⟩⟩
/-- A real factor, as in `0.5f*s0` or `a*mu3`. -/
instance : SMul K (Cplx K) := ⟨fun r z => ⟨r * z.re, r * z.im⟩⟩

def conj (z : Cplx K) : Cplx K := ⟨z.re, -z.im⟩

end Cplx

variable {K : Type*} [Field K] [LinearOrder K] [FloorRing K]

/-- The conversion `(int)x`, which rounds toward zero. -/
def truncate (x : K) : Int := if 0 ≤ x then ⌊x⌋ else ⌈x⌉

/-- `cubic_interp`: the sample at fractional position `pos`. The fraction `mu`
is taken before the index is clamped to `1 .. n_samples - 3`. -/
def cubicInterp (input : Nat → Cplx K) (nSamples : Int) (pos : K) : Cplx K :=
  let idx := truncate pos
  let mu := pos - idx
  let idx := if idx < 1 then 1 else idx
  let idx := if idx ≥ nSamples - 2 then nSamples - 3 else idx
  let s0 := input (idx - 1).toNat
  let s1 := input idx.toNat
  let s2 := input (idx + 1).toNat
  let s3 := input (idx + 2).toNat
  let mu2 := mu * mu
  let mu3 := mu2 * mu
  let a := (-0.5 : K) • s0 + (1.5 : K) • s1 - (1.5 : K) • s2 + (0.5 : K) • s3
  let b := s0 - (2.5 : K) • s1 + (2.0 : K) • s2 - (0.5 : K) • s3
  let c := (-0.5 : K) • s0 + (0.5 : K) • s2
  let d := s1
  mu3 • a + mu2 • b + mu • c + d

def gardnerKp : K := 0.02

def gardnerKi : K := 0.0002

/-- `if (x > bound) x = bound; if (x < -bound) x = -bound;`, the clamp of the
error to one and of the adjustment to half a sample. -/
def clampTo (bound x : K) : K :=
  let x := if x > bound then bound else x
  if x < -bound then -bound else x

/-- The locals of `decimate_gardner` at the head of its loop; `out` lists the
entries written so far, `out[0] .. out[n-1]`. -/
structure Gardner (K : Type*) where
  n : Nat
  pos : K
  timingOffset : K
  prevSym : Cplx K
  out : List (Cplx K)

/-- The timing correction of a symbol after the first: the new `timing_offset`
and `pos`, both unchanged when the mid-point lies before sample 1. -/
def timingUpdate (input : Nat → Cplx K) (nSamples : Int) (sps : K) (s : Gardner K)
    (onTime : Cplx K) : K × K :=
  let midPos := s.pos - sps * 0.5
  if midPos ≥ 1 then
    let mid := cubicInterp input nSamples midPos
    let diff := s.prevSym - onTime
    let error := clampTo 1 (diff * Cplx.conj mid).re
    let timingOffset := s.timingOffset + gardnerKi * error
    let adjust := clampTo 0.5 (gardnerKp * error + timingOffset)
    (timingOffset, s.pos + adjust)
  else (s.timingOffset, s.pos)

/-- One iteration of the loop of `decimate_gardner`. -/
def gardnerStep (input : Nat → Cplx K) (nSamples : Int) (sps : K) (s : Gardner K) : Gardner K :=
  let onTime := cubicInterp input nSamples s.pos
  let corrected := if s.n > 0 then timingUpdate input nSamples sps s onTime else (s.timingOffset, s.pos)
  { n := s.n + 1, pos := corrected.2 + sps, timingOffset := corrected.1, prevSym := onTime,
    out := s.out ++ [onTime] }

/-- `decimate_gardner` run for at most `fuel` iterations: the returned `n` and
the entries written to `out`. -/
def decimateGardner (input : Nat → Cplx K) (nSamples : Int) (sps : K) (fuel : Nat) :
    Option (Nat × List (Cplx K)) :=
  (Loop.run (fun s => decide (s.pos < ((nSamples - 3 : Int) : K))) (gardnerStep input nSamples sps) fuel
    ⟨0, 0, 0, 0, []⟩).map fun s => (s.n, s.out)

section Step

variable (input : Nat → Cplx K) (nSamples : Int) (sps : K)

@[simp] theorem gardnerStep_n (s : Gardner K) : (gardnerStep input nSamples sps s).n = s.n + 1 := rfl

@[simp] theorem gardnerStep_out (s : Gardner K) :
    (gardnerStep input nSamples sps s).out = s.out ++ [cubicInterp input nSamples s.pos] := rfl

theorem decimateGardner_add {fuel : Nat} {result : Nat × List (Cplx K)}
    (done : decimateGardner input nSamples sps fuel = some result) (extra : Nat) :
    decimateGardner input nSamples sps (fuel + extra) = some result := by
  unfold decimateGardner at done ⊢
  obtain ⟨t, run, same⟩ := Option.map_eq_some_iff.mp done
  rw [Loop.run_add run extra]
  exact congrArg _ same

end Step

/-- `max_symbols` in `qpsk_demod`: the length of the `decimated`, `pll_out` and
`symbols` buffers. -/
def maxSymbols (numSamples : Nat) (samplesPerSymbol : K) : Int :=
  let sps := truncate (samplesPerSymbol + 0.5)
  let sps := if sps < 1 then 1 else sps
  (numSamples : Int).tdiv sps + 1

/-- The fields of `downmix_frame_t` that `qpsk_demod` reads up to decimation. -/
structure DownmixFrame (K : Type*) where
  samplesPerSymbol : K
  numSamples : Nat
  samples : Nat → Cplx K

def irSimplexFrequencyMin : K := 1626000000

/-- `IR_MIN_FRAME_LENGTH_NORMAL`, `IR_MAX_FRAME_LENGTH_NORMAL`,
`IR_MIN_FRAME_LENGTH_SIMPLEX` and `IR_MAX_FRAME_LENGTH_SIMPLEX`, in symbols. -/
def irMinFrameLengthNormal : Nat := 131
def irMaxFrameLengthNormal : Nat := 191
def irMinFrameLengthSimplex : Nat := 80
def irMaxFrameLengthSimplex : Nat := 444

/-- Step 9 of `burst_downmix_process`: the `num_samples` of the frame taken from
the unique word at `uw_start` of a `frame_len`-sample burst, or none when fewer
than a minimal frame remain. -/
def extractLength (centerFrequency samplesPerSymbol : K) (frameLen uwStart : Int) : Option Int :=
  let simplex := decide (centerFrequency > irSimplexFrequencyMin)
  let maxFrameLen := truncate
    ((if simplex then irMaxFrameLengthSimplex else irMaxFrameLengthNormal : Nat) * samplesPerSymbol)
  let minFrameLen := truncate
    ((if simplex then irMinFrameLengthSimplex else irMinFrameLengthNormal : Nat) * samplesPerSymbol)
  let available := frameLen - uwStart
  if available < minFrameLen then none
  else some (if available < maxFrameLen then available else maxFrameLen)

section Order

variable [IsStrictOrderedRing K]

theorem truncate_natCast (m : Nat) : truncate (m : K) = m := by
  simp [truncate]

theorem clampTo_bounds {bound : K} (nonneg : 0 ≤ bound) (x : K) :
    -bound ≤ clampTo bound x ∧ clampTo bound x ≤ bound := by
  unfold clampTo
  dsimp only
  split_ifs with above below <;> constructor <;> linarith

end Order

section Step

variable (input : Nat → Cplx K) (nSamples : Int) (sps : K)

/-- The loop invariant: `n` entries written, the position at least `n` periods
less half a sample each along, and the last iteration begun before
`n_samples - 3`. -/
structure Spread (s : Gardner K) : Prop where
  written : s.out.length = s.n
  advanced : (s.n : K) * (sps - 0.5) ≤ s.pos
  started : s.n = 0 ∨ ((s.n : K) - 1) * (sps - 0.5) < ((nSamples - 3 : Int) : K)

theorem spread_start : Spread nSamples sps (⟨0, 0, 0, 0, []⟩ : Gardner K) :=
  ⟨rfl, by simp, Or.inl rfl⟩

variable [IsStrictOrderedRing K]

theorem timingUpdate_pos (s : Gardner K) (onTime : Cplx K) :
    ∃ adjust : K, -0.5 ≤ adjust ∧ adjust ≤ 0.5 ∧
      (timingUpdate input nSamples sps s onTime).2 = s.pos + adjust := by
  have half : (0 : K) ≤ 0.5 := by norm_num
  unfold timingUpdate
  dsimp only
  split
  · exact ⟨_, (clampTo_bounds half _).1, (clampTo_bounds half _).2, rfl⟩
  · exact ⟨0, by norm_num, half, by simp⟩

/-- Every iteration advances the position by the symbol period, give or take
half a sample. -/
theorem gardnerStep_pos (s : Gardner K) :
    ∃ adjust : K, -0.5 ≤ adjust ∧ adjust ≤ 0.5 ∧
      (gardnerStep input nSamples sps s).pos = s.pos + adjust + sps := by
  simp only [gardnerStep]
  split
  · obtain ⟨adjust, low, high, moved⟩ := timingUpdate_pos input nSamples sps s (cubicInterp input nSamples s.pos)
    exact ⟨adjust, low, high, by rw [moved]⟩
  · exact ⟨0, by norm_num, by norm_num, by simp⟩

theorem spread_step {s : Gardner K} (spread : Spread nSamples sps s)
    (go : s.pos < ((nSamples - 3 : Int) : K)) : Spread nSamples sps (gardnerStep input nSamples sps s) := by
  obtain ⟨adjust, low, -, moved⟩ := gardnerStep_pos input nSamples sps s
  have advanced := spread.advanced
  refine ⟨by simp [spread.written], ?_, Or.inr ?_⟩
  · rw [moved, gardnerStep_n]
    push_cast
    linarith
  · rw [gardnerStep_n]
    push_cast at go ⊢
    linarith

end Step

section Run

variable [IsStrictOrderedRing K] {input : Nat → Cplx K} {nSamples : Int} {sps : K}

/-- Whatever the samples, the decimator returns the number of entries it wrote,
and its last symbol was started before `n_samples - 3`, at least `n - 1`
periods less half a sample each after the first. -/
theorem decimateGardner_count {fuel n : Nat} {out : List (Cplx K)}
    (done : decimateGardner input nSamples sps fuel = some (n, out)) :
    out.length = n ∧ (n = 0 ∨ ((n : K) - 1) * (sps - 0.5) < ((nSamples - 3 : Int) : K)) := by
  unfold decimateGardner at done
  obtain ⟨t, run, same⟩ := Option.map_eq_some_iff.mp done
  obtain ⟨spread, -⟩ := Loop.run_invariant (Spread nSamples sps)
    (fun s spread go => spread_step input nSamples sps spread (by simpa using go))
    (spread_start nSamples sps) run
  simp only [Prod.mk.injEq] at same
  obtain ⟨rfl, rfl⟩ := same
  exact ⟨spread.written, spread.started⟩

/-- With a period above half a sample the loop ends: `bound` iterations suffice
once `bound` periods less half a sample each reach `n_samples - 3`. -/
theorem decimateGardner_isSome (input : Nat → Cplx K) (slow : 0.5 < sps) {bound fuel : Nat}
    (covers : ((nSamples - 3 : Int) : K) ≤ bound * (sps - 0.5)) (enough : bound ≤ fuel) :
    ∃ n out, decimateGardner input nSamples sps fuel = some (n, out) := by
  have lower : ∀ s : Gardner K, Spread nSamples sps s →
      decide (s.pos < ((nSamples - 3 : Int) : K)) = true → bound - (s.n + 1) < bound - s.n := by
    intro s spread go
    have before : (s.n : K) * (sps - 0.5) < bound * (sps - 0.5) :=
      lt_of_le_of_lt spread.advanced (lt_of_lt_of_le (by simpa using go) covers)
    have fewer : s.n < bound := by exact_mod_cast lt_of_mul_lt_mul_right before (by linarith)
    omega
  obtain ⟨t, run⟩ := Loop.run_isSome (Spread nSamples sps)
    (fun s spread go => spread_step input nSamples sps spread (by simpa using go))
    (fun s : Gardner K => bound - s.n) lower (spread_start nSamples sps) (by simpa using enough)
  exact ⟨t.n, t.out, by rw [decimateGardner, run]; rfl⟩

end Run

/-- Every frame `burst_downmix_process` extracts at 10 samples per symbol has
at most `444 * 10` samples. -/
theorem extractLength_le [IsStrictOrderedRing K] {centerFrequency : K} {frameLen uwStart len : Int}
    (emitted : extractLength centerFrequency 10 frameLen uwStart = some len) : len ≤ 4440 := by
  have simplex : truncate ((irMaxFrameLengthSimplex : K) * 10) = 4440 := by
    rw [show (irMaxFrameLengthSimplex : K) * 10 = ((4440 : Nat) : K) by
      simp [irMaxFrameLengthSimplex]; norm_num, truncate_natCast]
    rfl
  have normal : truncate ((irMaxFrameLengthNormal : K) * 10) = 1910 := by
    rw [show (irMaxFrameLengthNormal : K) * 10 = ((1910 : Nat) : K) by
      simp [irMaxFrameLengthNormal]; norm_num, truncate_natCast]
    rfl
  unfold extractLength at emitted
  dsimp only at emitted
  split_ifs at emitted with short kind fits <;> simp only [Option.some.injEq] at emitted <;> omega

/-- For every frame `burst_downmix_process` extracts at 10 samples per symbol
and any samples, the decimator ends within 468 iterations and writes at most
468 symbols. -/
theorem decimateGardner_of_extracted [IsStrictOrderedRing K] {centerFrequency : K}
    {frameLen uwStart len : Int} (emitted : extractLength centerFrequency 10 frameLen uwStart = some len)
    (input : Nat → Cplx K) :
    ∃ n out, (∀ extra, decimateGardner input len 10 (468 + extra) = some (n, out)) ∧ n ≤ 468 := by
  have most : (len : K) ≤ 4440 := by exact_mod_cast extractLength_le emitted
  have ends : ∃ n out, decimateGardner input len (10 : K) 468 = some (n, out) :=
    decimateGardner_isSome input (by norm_num) (by push_cast; linarith) le_rfl
  obtain ⟨n, out, done⟩ := ends
  refine ⟨n, out, decimateGardner_add input len 10 done, ?_⟩
  rcases (decimateGardner_count done).2 with none | started
  · omega
  · push_cast at started
    have below : (n : K) < 469 := by linarith
    exact Nat.lt_succ_iff.mp (by exact_mod_cast below)

/-- A frame of 1249 samples at 10 samples per symbol, a length that
`burst_downmix_process` extracts from a simplex burst, with samples along a
falling ramp: every Gardner error saturates at `-1`, so the position falls
behind by ever larger adjustments. -/
def rampFrame : DownmixFrame ℚ := ⟨10, 1249, fun i => ⟨-(i : ℚ), 0⟩⟩

theorem gardner_overruns_buffers :
    extractLength (1626100000 : ℚ) 10 1249 0 = some (rampFrame.numSamples : Int) ∧
    maxSymbols rampFrame.numSamples rampFrame.samplesPerSymbol = 125 ∧
    ∀ extra : Nat, (decimateGardner rampFrame.samples rampFrame.numSamples rampFrame.samplesPerSymbol
      (1249 + extra)).map Prod.fst = some 126 := by
  have finished : (decimateGardner rampFrame.samples rampFrame.numSamples rampFrame.samplesPerSymbol
      1249).map Prod.fst = some 126 := by decide +kernel
  obtain ⟨result, done, count⟩ := Option.map_eq_some_iff.mp finished
  refine ⟨by decide +kernel, by decide +kernel, fun extra => ?_⟩
  rw [decimateGardner_add _ _ _ done extra]
  exact congrArg some count

end IridiumSniffer.Qpsk
