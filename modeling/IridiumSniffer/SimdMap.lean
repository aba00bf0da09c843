import Mathlib
import IridiumSniffer.SimdFir

/-! The element-wise kernels of `simd_generic.c` and `simd_avx2.c`, each in its
scalar form and in its AVX2 form: `window_cf` and `csquare_window`, which
weigh complex samples by a real window, `fftshift_mag` and `mag_squared`,
which take the squared magnitudes of complex samples, `fftshift_mag` moving
the upper half of the spectrum first, `baseline_update` and `relative_mag` of
the burst detector, and `convert_i8_cf`, which scales 8-bit IQ samples. Each
AVX2 form handles four or eight entries an iteration and leaves the rest to
a scalar tail, and for every one both forms leave the same memory. -/
namespace IridiumSniffer.Simd

open Access Lanes

variable {K : Type} [Field K]

/-- `out[i] = samples[i] * window[i]`: the statement of `generic_window_cf`,
which the tail of `avx2_window_cf` repeats. -/
def windowCfElement (i : Nat) : Prog Buf K Unit := do
  let re ← load .samples (i * 2)
  let im ← load .samples (i * 2 + 1)
  let w ← load .window i
  store .out (i * 2) (re * w)
  store .out (i * 2 + 1) (im * w)

def genericWindowCf (n : Nat) : Prog Buf K Unit :=
  forRange 0 n windowCfElement

/-- `avx2_window_cf`: four complex samples, each float weighed by its sample's
window value duplicated into a pair of lanes. -/
def avx2WindowCf (n : Nat) : Prog Buf K Unit := do
  let i ← forBlocks 4 n (fun i => do
    let data ← loadLanes .samples (i * 2) 8
    let w4 ← loadLanes .window i 4
    let lo := unpacklo w4 w4
    let hi := unpackhi w4 w4
    let coeff := setM128 hi lo
    storeLanes .out (i * 2) 8 (data * coeff)) n 0
  forRange i (n - i) windowCfElement

/-- Float `k` of the samples times the window value of its sample, in floats
`0` to `2n - 1` of `out`: what both forms of `window_cf` leave. -/
def windowCfOut (n : Nat) (mem : Buf → Nat → K) : Buf → Nat → K :=
  prefixed mem .out (n * 2) fun k => mem .samples k * mem .window (k / 2)

section Window

variable (mem : Buf → Nat → K)

theorem evals_windowCfElement (i : Nat) :
    Evals (windowCfElement i) (prefixed mem .out (i * 2) fun k => mem .samples k * mem .window (k / 2)) ()
      (prefixed mem .out ((i + 1) * 2) fun k => mem .samples k * mem .window (k / 2)) := by
  unfold windowCfElement
  refine (evals_load _ _ _).bind ((evals_load _ _ _).bind ((evals_load _ _ _).bind
    (evals_storePair mem _ i (_, _) ?_)))
  simp only [prefixed_other _ _ (by decide : Buf.samples ≠ Buf.out),
    prefixed_other _ _ (by decide : Buf.window ≠ Buf.out), (halves i).1, (halves i).2.2.1]

theorem evals_genericWindowCf (n : Nat) :
    Evals (genericWindowCf n) mem () (windowCfOut n mem) := by
  unfold genericWindowCf
  refine (evals_forRange (fun i => prefixed mem .out (i * 2) fun k => mem .samples k * mem .window (k / 2))
    fun i _ => ?_).of_eq (by simp) rfl
  rw [Nat.zero_add]
  exact evals_windowCfElement mem i

theorem evals_avx2WindowCf (n : Nat) :
    Evals (avx2WindowCf n) mem () (windowCfOut n mem) := by
  unfold avx2WindowCf
  refine (evals_blocks_tail (fun i => prefixed mem .out (i * 2) fun k => mem .samples k * mem .window (k / 2))
    (show 0 < 4 by decide) (fun t _ => ?_) fun i _ _ => evals_windowCfElement mem i).of_eq (by simp) rfl
  -- the unpacked window gives floats `2q` and `2q + 1` the window value of sample `q`
  refine (evals_loadLanes _ _ _ _).bind ((evals_loadLanes _ _ _ _).bind
    ((evals_storeLanes _ _ _ _ _).of_eq rfl ?_))
  rw [setM128_unpack_self, writeLanes_prefixed fun j => ?_, show (4 * t + 4) * 2 = 4 * t * 2 + 8 by ring]
  simp only [Pi.mul_apply, prefixed_other _ _ (by decide : Buf.samples ≠ Buf.out),
    prefixed_other _ _ (by decide : Buf.window ≠ Buf.out)]
  rw [show 4 * t + j.val / 2 = (4 * t * 2 + j.val) / 2 by omega]

end Window

/-- From every machine, `avx2_window_cf`, which duplicates four window values
into pairs of lanes, leaves the memory `generic_window_cf` leaves. -/
theorem window_cf_agree (n : Nat) (m : Machine Buf K) :
    ((avx2WindowCf n).run m).2.mem = windowCfOut n m.mem ∧
      ((genericWindowCf n).run m).2.mem = windowCfOut n m.mem :=
  ⟨(evals_avx2WindowCf m.mem n m rfl).2, (evals_genericWindowCf m.mem n m rfl).2⟩

/-- The two squared magnitudes of `generic_fftshift_mag`'s step `i`: bin
`half + i` to entry `i`, bin `i` to entry `half + i`. -/
def fftshiftMagElement (half i : Nat) : Prog Buf K Unit := do
  let re ← load .fftOut ((half + i) * 2)
  let im ← load .fftOut ((half + i) * 2 + 1)
  store .magShifted i (re * re + im * im)
  let re ← load .fftOut (i * 2)
  let im ← load .fftOut (i * 2 + 1)
  store .magShifted (half + i) (re * re + im * im)

def genericFftshiftMag (fftSize : Nat) : Prog Buf K Unit :=
  forRange 0 (fftSize / 2) (fftshiftMagElement (fftSize / 2))

/-- `avx2_fftshift_mag`: four bins of each half at a time, the real and
imaginary parts split into the low and high lanes. -/
def avx2FftshiftMag (fftSize : Nat) : Prog Buf K Unit := do
  let half := fftSize / 2
  let i ← forBlocks 4 half (fun i => do
    let pos ← loadLanes .fftOut ((half + i) * 2) 8
    let deint := permutevar8x32 pos evenOdd
    let reLo := castLow deint
    let imLo := extractHigh deint
    let magPos := reLo * reLo + imLo * imLo
    storeLanes .magShifted i 4 magPos
    let neg ← loadLanes .fftOut (i * 2) 8
    let deintN := permutevar8x32 neg evenOdd
    let reN := castLow deintN
    let imN := extractHigh deintN
    let magNeg := reN * reN + imN * imN
    storeLanes .magShifted (half + i) 4 magNeg) half 0
  forRange i (half - i) (fftshiftMagElement half)

/-- The squared magnitude of bin `k` of the spectrum. -/
def binMag (mem : Buf → Nat → K) (k : Nat) : K :=
  mem .fftOut (k * 2) * mem .fftOut (k * 2) + mem .fftOut (k * 2 + 1) * mem .fftOut (k * 2 + 1)

/-- `mag_shifted` after the first `k` steps over halves of `half` bins: entry
`j < k` holds bin `half + j`, and entry `half + j` bin `j`. -/
def shiftedUpTo (mem : Buf → Nat → K) (half k : Nat) : Buf → Nat → K :=
  fun b j =>
    if b = .magShifted ∧ j < k then binMag mem (half + j)
    else if b = .magShifted ∧ half ≤ j ∧ j < half + k then binMag mem (j - half)
    else mem b j

/-- What both forms of `fftshift_mag` leave: the magnitudes of the upper half
of the spectrum, then those of the lower half. -/
def fftshiftMagOut (fftSize : Nat) (mem : Buf → Nat → K) : Buf → Nat → K :=
  shiftedUpTo mem (fftSize / 2) (fftSize / 2)

section Shift

variable (mem : Buf → Nat → K) (half : Nat)

@[simp] theorem shiftedUpTo_zero : shiftedUpTo mem half 0 = mem := by
  funext b j
  simp [shiftedUpTo]

@[simp] theorem shiftedUpTo_fftOut (k j : Nat) : shiftedUpTo mem half k .fftOut j = mem .fftOut j := by
  simp [shiftedUpTo]

theorem shiftedUpTo_succ {i : Nat} (below : i < half) :
    write (write (shiftedUpTo mem half i) .magShifted i (binMag mem (half + i))) .magShifted (half + i)
        (binMag mem i) = shiftedUpTo mem half (i + 1) := by
  funext b j
  unfold write shiftedUpTo
  by_cases shifted : b = .magShifted
  · subst shifted
    simp only [true_and]
    split_ifs <;> first | omega | rfl | (congr 1; omega)
  · simp [shifted]

theorem shiftedUpTo_add_four {i : Nat} (below : i + 4 ≤ half) {pos neg : Fin 4 → K}
    (hpos : ∀ q : Fin 4, pos q = binMag mem (half + (i + q))) (hneg : ∀ q : Fin 4, neg q = binMag mem (i + q)) :
    writeLanes (writeLanes (shiftedUpTo mem half i) .magShifted i 4 pos) .magShifted (half + i) 4 neg =
      shiftedUpTo mem half (i + 4) := by
  funext b j
  unfold writeLanes shiftedUpTo
  by_cases shifted : b = .magShifted
  · subst shifted
    simp only [true_and, hpos, hneg]
    split_ifs <;> first | omega | rfl | (congr 1; omega)
  · simp [shifted]

theorem evals_fftshiftMagElement {i : Nat} (below : i < half) :
    Evals (fftshiftMagElement half i) (shiftedUpTo mem half i) () (shiftedUpTo mem half (i + 1)) := by
  unfold fftshiftMagElement
  refine (evals_load _ _ _).bind ((evals_load _ _ _).bind ((evals_store _ _ _ _).bind
    ((evals_load _ _ _).bind ((evals_load _ _ _).bind ((evals_store _ _ _ _).of_eq rfl ?_)))))
  -- the second pair of loads reads the spectrum past the first store
  simp only [write_of_ne _ _ _ (by decide : Buf.fftOut ≠ Buf.magShifted), shiftedUpTo_fftOut]
  exact shiftedUpTo_succ mem half below

end Shift

theorem evals_genericFftshiftMag (fftSize : Nat) (mem : Buf → Nat → K) :
    Evals (genericFftshiftMag fftSize) mem () (fftshiftMagOut fftSize mem) := by
  unfold genericFftshiftMag
  refine (evals_forRange (fun i => shiftedUpTo mem (fftSize / 2) i) fun i below => ?_).of_eq (by simp) rfl
  rw [Nat.zero_add]
  exact evals_fftshiftMagElement mem _ below

theorem evals_avx2FftshiftMag (fftSize : Nat) (mem : Buf → Nat → K) :
    Evals (avx2FftshiftMag fftSize) mem () (fftshiftMagOut fftSize mem) := by
  unfold avx2FftshiftMag
  dsimp only
  refine (evals_blocks_tail (fun i => shiftedUpTo mem (fftSize / 2) i) (show 0 < 4 by decide) (fun t below => ?_)
    fun i _ below => evals_fftshiftMagElement mem _ below).of_eq (by simp) rfl
  refine (evals_loadLanes _ _ _ _).bind ((evals_storeLanes _ _ _ _ _).bind ((evals_loadLanes _ _ _ _).bind
    ((evals_storeLanes _ _ _ _ _).of_eq rfl ?_)))
  refine shiftedUpTo_add_four mem _ (by omega) (fun q => ?_) (fun q => ?_)
  · -- lane `q` of the upper half: bin `half + 4t + q`
    simp only [Pi.add_apply, Pi.mul_apply, castLow_evenOdd, extractHigh_evenOdd, shiftedUpTo_fftOut, binMag]
    rw [show (fftSize / 2 + 4 * t) * 2 + 2 * q.val = (fftSize / 2 + (4 * t + q.val)) * 2 by ring,
      show (fftSize / 2 + 4 * t) * 2 + (2 * q.val + 1) = (fftSize / 2 + (4 * t + q.val)) * 2 + 1 by ring]
  · -- lane `q` of the lower half, read past the first store: bin `4t + q`
    simp only [Pi.add_apply, Pi.mul_apply, castLow_evenOdd, extractHigh_evenOdd,
      writeLanes_of_ne _ _ _ _ (by decide : Buf.fftOut ≠ Buf.magShifted), shiftedUpTo_fftOut, binMag]
    rw [show 4 * t * 2 + 2 * q.val = (4 * t + q.val) * 2 by ring,
      show 4 * t * 2 + (2 * q.val + 1) = (4 * t + q.val) * 2 + 1 by ring]

/-- From every machine, `avx2_fftshift_mag`, which takes four bins of each half
at a time, leaves the memory `generic_fftshift_mag` leaves: the magnitudes of
the upper half of the spectrum first, then those of the lower half. -/
theorem fftshift_mag_agree (fftSize : Nat) (m : Machine Buf K) :
    ((avx2FftshiftMag fftSize).run m).2.mem = fftshiftMagOut fftSize m.mem ∧
      ((genericFftshiftMag fftSize).run m).2.mem = fftshiftMagOut fftSize m.mem :=
  ⟨(evals_avx2FftshiftMag fftSize m.mem m rfl).2, (evals_genericFftshiftMag fftSize m.mem m rfl).2⟩

/-- `sum[i] -= old_hist[i]; sum[i] += new_mag[i];` -/
def baselineUpdateElement (i : Nat) : Prog Buf K Unit := do
  let s ← load .sum i
  let o ← load .oldHist i
  store .sum i (s - o)
  let s ← load .sum i
  let m ← load .newMag i
  store .sum i (s + m)

def genericBaselineUpdate (n : Nat) : Prog Buf K Unit :=
  forRange 0 n baselineUpdateElement

def avx2BaselineUpdate (n : Nat) : Prog Buf K Unit := do
  let i ← forBlocks 8 n (fun i => do
    let s ← loadLanes .sum i 8
    let o ← loadLanes .oldHist i 8
    let m ← loadLanes .newMag i 8
    let s := s - o
    let s := s + m
    storeLanes .sum i 8 s) n 0
  forRange i (n - i) baselineUpdateElement

/-- `sum[i] - old_hist[i] + new_mag[i]` in entries `0` to `n - 1` of `sum`:
what both forms of `baseline_update` leave. -/
def baselineUpdateOut (n : Nat) (mem : Buf → Nat → K) : Buf → Nat → K :=
  prefixed mem .sum n fun i => mem .sum i - mem .oldHist i + mem .newMag i

section Baseline

variable (mem : Buf → Nat → K)

theorem evals_baselineUpdateElement (i : Nat) :
    Evals (baselineUpdateElement i) (prefixed mem .sum i fun i => mem .sum i - mem .oldHist i + mem .newMag i) ()
      (prefixed mem .sum (i + 1) fun i => mem .sum i - mem .oldHist i + mem .newMag i) := by
  unfold baselineUpdateElement
  refine (evals_load _ _ _).bind ((evals_load _ _ _).bind ((evals_store _ _ _ _).bind
    ((evals_load _ _ _).bind ((evals_load _ _ _).bind ((evals_store _ _ _ _).of_eq rfl ?_)))))
  -- the second store overwrites the first, with the entry the first left
  rw [write_apply_self, write_write, write_of_ne i i _ (by decide : Buf.newMag ≠ Buf.sum), write_prefixed]
  simp only [prefixed_above le_rfl, prefixed_other i i (by decide : Buf.oldHist ≠ Buf.sum),
    prefixed_other i i (by decide : Buf.newMag ≠ Buf.sum)]

theorem evals_genericBaselineUpdate (n : Nat) :
    Evals (genericBaselineUpdate n) mem () (baselineUpdateOut n mem) := by
  unfold genericBaselineUpdate
  refine (evals_forRange (fun i => prefixed mem .sum i fun i => mem .sum i - mem .oldHist i + mem .newMag i)
    fun i _ => ?_).of_eq (by simp) rfl
  rw [Nat.zero_add]
  exact evals_baselineUpdateElement mem i

theorem evals_avx2BaselineUpdate (n : Nat) :
    Evals (avx2BaselineUpdate n) mem () (baselineUpdateOut n mem) := by
  unfold avx2BaselineUpdate
  refine (evals_blocks_tail (fun i => prefixed mem .sum i fun i => mem .sum i - mem .oldHist i + mem .newMag i)
    (show 0 < 8 by decide) (fun t _ => ?_) fun i _ _ => evals_baselineUpdateElement mem i).of_eq (by simp) rfl
  refine (evals_loadLanes _ _ _ _).bind ((evals_loadLanes _ _ _ _).bind ((evals_loadLanes _ _ _ _).bind
    ((evals_storeLanes _ _ _ _ _).of_eq rfl ?_)))
  rw [writeLanes_prefixed fun j => ?_]
  simp only [Pi.add_apply, Pi.sub_apply, prefixed_above (Nat.le_add_right _ _),
    prefixed_other _ _ (by decide : Buf.oldHist ≠ Buf.sum), prefixed_other _ _ (by decide : Buf.newMag ≠ Buf.sum)]

end Baseline

/-- From every machine, `avx2_baseline_update` and `generic_baseline_update`
leave the same memory: `sum[i] - old_hist[i] + new_mag[i]` in entries `0` to
`n - 1` of `sum`, every other entry as it was. -/
theorem baseline_update_agree (n : Nat) (m : Machine Buf K) :
    ((avx2BaselineUpdate n).run m).2.mem = baselineUpdateOut n m.mem ∧
      ((genericBaselineUpdate n).run m).2.mem = baselineUpdateOut n m.mem :=
  ⟨(evals_avx2BaselineUpdate m.mem n m rfl).2, (evals_genericBaselineUpdate m.mem n m rfl).2⟩

section Ordered

variable [LinearOrder K]

/-- `if (baseline[i] > 0) out[i] = mag[i] / baseline[i]; else out[i] = 0;` -/
def relativeMagElement (i : Nat) : Prog Buf K Unit := do
  let b ← load .baseline i
  if b > 0 then do
    let m ← load .mag i
    let b ← load .baseline i
    store .out i (m / b)
  else store .out i 0

def genericRelativeMag (n : Nat) : Prog Buf K Unit :=
  forRange 0 n relativeMagElement

/-- `avx2_relative_mag`: every quotient, kept where the baseline is positive
and masked to `0` elsewhere. -/
def avx2RelativeMag (n : Nat) : Prog Buf K Unit := do
  let i ← forBlocks 8 n (fun i => do
    let m ← loadLanes .mag i 8
    let b ← loadLanes .baseline i 8
    let mask := cmpGt b 0
    let div := m / b
    let result := andMask div mask
    storeLanes .out i 8 result) n 0
  forRange i (n - i) relativeMagElement

/-- `mag[i] / baseline[i]` where the baseline is positive and `0` elsewhere,
in entries `0` to `n - 1` of `out`: what both forms of `relative_mag` leave. -/
def relativeMagOut (n : Nat) (mem : Buf → Nat → K) : Buf → Nat → K :=
  prefixed mem .out n fun i => if mem .baseline i > 0 then mem .mag i / mem .baseline i else 0

variable (mem : Buf → Nat → K)

theorem evals_relativeMagElement (i : Nat) :
    Evals (relativeMagElement i)
      (prefixed mem .out i fun i => if mem .baseline i > 0 then mem .mag i / mem .baseline i else 0) ()
      (prefixed mem .out (i + 1) fun i => if mem .baseline i > 0 then mem .mag i / mem .baseline i else 0) := by
  unfold relativeMagElement
  refine (evals_load _ _ _).bind ?_
  rw [prefixed_other i i (by decide : Buf.baseline ≠ Buf.out)]
  split
  · rename_i positive
    refine (evals_load _ _ _).bind ((evals_load _ _ _).bind ((evals_store _ _ _ _).of_eq rfl (write_prefixed ?_)))
    rw [prefixed_other i i (by decide : Buf.baseline ≠ Buf.out), prefixed_other i i (by decide : Buf.mag ≠ Buf.out),
      if_pos positive]
  · rename_i not_positive
    exact (evals_store _ _ _ _).of_eq rfl (write_prefixed (if_neg not_positive).symm)

theorem evals_genericRelativeMag (n : Nat) :
    Evals (genericRelativeMag n) mem () (relativeMagOut n mem) := by
  unfold genericRelativeMag
  refine (evals_forRange (fun i => prefixed mem .out i fun i =>
      if mem .baseline i > 0 then mem .mag i / mem .baseline i else 0) fun i _ => ?_).of_eq (by simp) rfl
  rw [Nat.zero_add]
  exact evals_relativeMagElement mem i

theorem evals_avx2RelativeMag (n : Nat) :
    Evals (avx2RelativeMag n) mem () (relativeMagOut n mem) := by
  unfold avx2RelativeMag
  refine (evals_blocks_tail (fun i => prefixed mem .out i fun i =>
      if mem .baseline i > 0 then mem .mag i / mem .baseline i else 0) (show 0 < 8 by decide) (fun t _ => ?_)
    fun i _ _ => evals_relativeMagElement mem i).of_eq (by simp) rfl
  -- the mask keeps the quotient exactly where the scalar branch divides
  refine (evals_loadLanes _ _ _ _).bind ((evals_loadLanes _ _ _ _).bind
    ((evals_storeLanes _ _ _ _ _).of_eq rfl ?_))
  rw [writeLanes_prefixed fun j => ?_]
  simp only [andMask, cmpGt, Pi.div_apply, Pi.zero_apply, decide_eq_true_eq,
    prefixed_other _ _ (by decide : Buf.baseline ≠ Buf.out), prefixed_other _ _ (by decide : Buf.mag ≠ Buf.out)]

/-- From every machine, `avx2_relative_mag`, which divides every lane and
masks the quotients where the baseline is not positive, leaves the memory
`generic_relative_mag` leaves. -/
theorem relative_mag_agree (n : Nat) (m : Machine Buf K) :
    ((avx2RelativeMag n).run m).2.mem = relativeMagOut n m.mem ∧
      ((genericRelativeMag n).run m).2.mem = relativeMagOut n m.mem :=
  ⟨(evals_avx2RelativeMag m.mem n m rfl).2, (evals_genericRelativeMag m.mem n m rfl).2⟩

end Ordered

/-- `outp[i * 2] = iq[2 * i] / 128.0f; outp[i * 2 + 1] = iq[2 * i + 1] / 128.0f;`:
the tail of `avx2_convert_i8_cf`, and the statement of `generic_convert_i8_cf`,
whose `re + im * I` is the pair of the two quotients. The `iq` entries are read
as the floats they convert to. -/
def convertI8CfElement (i : Nat) : Prog Buf K Unit := do
  let a ← load .iq (2 * i)
  let b ← load .iq (2 * i + 1)
  store .out (i * 2) (a / 128)
  store .out (i * 2 + 1) (b / 128)

def genericConvertI8Cf (n : Nat) : Prog Buf K Unit :=
  forRange 0 n convertI8CfElement

/-- `avx2_convert_i8_cf`: sixteen bytes, eight IQ pairs, at a time, the low
eight bytes to the first four samples and the high eight to the next four. -/
def avx2ConvertI8Cf (n : Nat) : Prog Buf K Unit := do
  let i ← forBlocks 8 n (fun i => do
    let bytes ← loadLanes .iq (i * 2) 16
    let lo32 := cvtepi8Epi32 bytes
    let loScaled := lo32 * fun _ => 1 / 128
    storeLanes .out (i * 2) 8 loScaled
    let hi8 := srliBytes bytes 8
    let hi32 := cvtepi8Epi32 hi8
    let hiScaled := hi32 * fun _ => 1 / 128
    storeLanes .out ((i + 4) * 2) 8 hiScaled) n 0
  forRange i (n - i) convertI8CfElement

/-- Float `k` of `out` after `convert_i8_cf`: byte `k` of `iq` over `128`. -/
def convertI8CfOut (n : Nat) (mem : Buf → Nat → K) : Buf → Nat → K :=
  prefixed mem .out (n * 2) fun k => mem .iq k / 128

section Convert

variable (mem : Buf → Nat → K)

theorem evals_convertI8CfElement (i : Nat) :
    Evals (convertI8CfElement i) (prefixed mem .out (i * 2) fun k => mem .iq k / 128) ()
      (prefixed mem .out ((i + 1) * 2) fun k => mem .iq k / 128) := by
  unfold convertI8CfElement
  refine (evals_load _ _ _).bind ((evals_load _ _ _).bind (evals_storePair mem _ i (_, _) ?_))
  simp only [prefixed_other _ _ (by decide : Buf.iq ≠ Buf.out), Nat.mul_comm 2 i]

theorem evals_genericConvertI8Cf (n : Nat) :
    Evals (genericConvertI8Cf n) mem () (convertI8CfOut n mem) := by
  unfold genericConvertI8Cf
  refine (evals_forRange (fun i => prefixed mem .out (i * 2) fun k => mem .iq k / 128)
    fun i _ => ?_).of_eq (by simp) rfl
  rw [Nat.zero_add]
  exact evals_convertI8CfElement mem i

theorem evals_avx2ConvertI8Cf (n : Nat) :
    Evals (avx2ConvertI8Cf n) mem () (convertI8CfOut n mem) := by
  unfold avx2ConvertI8Cf
  refine (evals_blocks_tail (fun i => prefixed mem .out (i * 2) fun k => mem .iq k / 128)
    (show 0 < 8 by decide) (fun t _ => ?_) fun i _ _ => evals_convertI8CfElement mem i).of_eq (by simp) rfl
  -- the low eight bytes go to floats `16t` to `16t + 7`, the high eight, shifted down, after them
  refine (evals_loadLanes _ _ _ _).bind ((evals_storeLanes _ _ _ _ _).bind
    ((evals_storeLanes _ _ _ _ _).of_eq rfl ?_))
  rw [writeLanes_prefixed fun j => ?_, show (8 * t + 4) * 2 = 8 * t * 2 + 8 by ring,
    writeLanes_prefixed fun j => ?_, show (8 * t + 8) * 2 = 8 * t * 2 + 8 + 8 by ring]
  · have high : j.val + 8 < 16 := by omega
    simp only [cvtepi8Epi32, srliBytes, high, dite_true, Pi.mul_apply, mul_one_div,
      prefixed_other _ _ (by decide : Buf.iq ≠ Buf.out)]
    rw [show 8 * t * 2 + (j.val + 8) = 8 * t * 2 + 8 + j.val by omega]
  · simp only [cvtepi8Epi32, Pi.mul_apply, mul_one_div, prefixed_other _ _ (by decide : Buf.iq ≠ Buf.out)]

end Convert

/-- From every machine, `avx2_convert_i8_cf`, which widens sixteen bytes at a
time in two halves of eight, leaves the memory `generic_convert_i8_cf` leaves. -/
theorem convert_i8_cf_agree (n : Nat) (m : Machine Buf K) :
    ((avx2ConvertI8Cf n).run m).2.mem = convertI8CfOut n m.mem ∧
      ((genericConvertI8Cf n).run m).2.mem = convertI8CfOut n m.mem :=
  ⟨(evals_avx2ConvertI8Cf m.mem n m rfl).2, (evals_genericConvertI8Cf m.mem n m rfl).2⟩

/-- `out[i] = re * re + im * im` of complex sample `i`. -/
def magSquaredElement (i : Nat) : Prog Buf K Unit := do
  let re ← load .input (i * 2)
  let im ← load .input (i * 2 + 1)
  store .out i (re * re + im * im)

def genericMagSquared (n : Nat) : Prog Buf K Unit :=
  forRange 0 n magSquaredElement

def avx2MagSquared (n : Nat) : Prog Buf K Unit := do
  let i ← forBlocks 4 n (fun i => do
    let data ← loadLanes .input (i * 2) 8
    let deint := permutevar8x32 data evenOdd
    let re := castLow deint
    let im := extractHigh deint
    let mag := re * re + im * im
    storeLanes .out i 4 mag) n 0
  forRange i (n - i) magSquaredElement

/-- `in[i]` times its conjugate in entries `0` to `n - 1` of `out`: what both
forms of `mag_squared` leave. -/
def magSquaredOut (n : Nat) (mem : Buf → Nat → K) : Buf → Nat → K :=
  prefixed mem .out n fun i => mem .input (i * 2) * mem .input (i * 2) + mem .input (i * 2 + 1) * mem .input (i * 2 + 1)

section Magnitude

variable (mem : Buf → Nat → K)

theorem evals_magSquaredElement (i : Nat) :
    Evals (magSquaredElement i)
      (prefixed mem .out i fun i => mem .input (i * 2) * mem .input (i * 2) + mem .input (i * 2 + 1) * mem .input (i * 2 + 1)) ()
      (prefixed mem .out (i + 1) fun i =>
        mem .input (i * 2) * mem .input (i * 2) + mem .input (i * 2 + 1) * mem .input (i * 2 + 1)) := by
  unfold magSquaredElement
  refine (evals_load _ _ _).bind ((evals_load _ _ _).bind ((evals_store _ _ _ _).of_eq rfl (write_prefixed ?_)))
  simp only [prefixed_out_input]

theorem evals_genericMagSquared (n : Nat) :
    Evals (genericMagSquared n) mem () (magSquaredOut n mem) := by
  unfold genericMagSquared
  refine (evals_forRange (fun i => prefixed mem .out i fun i =>
      mem .input (i * 2) * mem .input (i * 2) + mem .input (i * 2 + 1) * mem .input (i * 2 + 1)) fun i _ => ?_).of_eq
    (by simp) rfl
  rw [Nat.zero_add]
  exact evals_magSquaredElement mem i

theorem evals_avx2MagSquared (n : Nat) :
    Evals (avx2MagSquared n) mem () (magSquaredOut n mem) := by
  unfold avx2MagSquared
  refine (evals_blocks_tail (fun i => prefixed mem .out i fun i =>
      mem .input (i * 2) * mem .input (i * 2) + mem .input (i * 2 + 1) * mem .input (i * 2 + 1))
    (show 0 < 4 by decide) (fun t _ => ?_) fun i _ _ => evals_magSquaredElement mem i).of_eq (by simp) rfl
  -- lane `q` takes the real and imaginary floats of sample `4t + q`
  refine (evals_loadLanes _ _ _ _).bind ((evals_storeLanes _ _ _ _ _).of_eq rfl ?_)
  rw [writeLanes_prefixed fun q => ?_]
  simp only [Pi.add_apply, Pi.mul_apply, castLow_evenOdd, extractHigh_evenOdd, prefixed_out_input]
  rw [show 4 * t * 2 + 2 * q.val = (4 * t + q.val) * 2 by ring,
    show 4 * t * 2 + (2 * q.val + 1) = (4 * t + q.val) * 2 + 1 by ring]

end Magnitude

/-- From every machine, `avx2_mag_squared`, which splits four complex samples
into their real and imaginary lanes, leaves the memory `generic_mag_squared`
leaves. -/
theorem mag_squared_agree (n : Nat) (m : Machine Buf K) :
    ((avx2MagSquared n).run m).2.mem = magSquaredOut n m.mem ∧
      ((genericMagSquared n).run m).2.mem = magSquaredOut n m.mem :=
  ⟨(evals_avx2MagSquared m.mem n m rfl).2, (evals_genericMagSquared m.mem n m rfl).2⟩

/-- `generic_csquare_window`: `out[i] = s * s * window[i]` for `s = in[i]`. -/
def genericCsquareWindow (n : Nat) : Prog Buf K Unit :=
  forRange 0 n fun i => do
    let a ← load .input (i * 2)
    let b ← load .input (i * 2 + 1)
    let w ← load .window i
    store .out (i * 2) ((a * a - b * b) * w)
    store .out (i * 2 + 1) ((a * b + b * a) * w)

/-- `avx2_csquare_window`: the squares of four samples, weighed, and their
real and imaginary parts interleaved back; the tail computes the imaginary
part as `2 a b`. The literal `2.0f` is the natural number `2` in the field. -/
def avx2CsquareWindow (n : Nat) : Prog Buf K Unit := do
  let i ← forBlocks 4 n (fun i => do
    let data ← loadLanes .input (i * 2) 8
    let deint := permutevar8x32 data evenOdd
    let re := castLow deint
    let im := extractHigh deint
    let re2 := re * re
    let im2 := im * im
    let sqRe := re2 - im2
    let two : Fin 4 → K := fun _ => ((2 : Nat) : K)
    let sqIm := two * (re * im)
    let w ← loadLanes .window i 4
    let sqRe := sqRe * w
    let sqIm := sqIm * w
    let lo := unpacklo sqRe sqIm
    let hi := unpackhi sqRe sqIm
    storeLanes .out (i * 2) 4 lo
    storeLanes .out (i * 2 + 4) 4 hi) n 0
  forRange i (n - i) fun i => do
    let a ← load .input (i * 2)
    let b ← load .input (i * 2 + 1)
    let w ← load .window i
    store .out (i * 2) ((a * a - b * b) * w)
    let w ← load .window i
    store .out (i * 2 + 1) (((2 : Nat) : K) * a * b * w)

/-- Float `k` of `in[k / 2]²` weighed by `window[k / 2]`: the real part of the
square at even `k`, the imaginary part at odd `k`. -/
def csquareFloat (mem : Buf → Nat → K) (k : Nat) : K :=
  (if k % 2 = 0 then
    mem .input (k / 2 * 2) * mem .input (k / 2 * 2) - mem .input (k / 2 * 2 + 1) * mem .input (k / 2 * 2 + 1)
  else mem .input (k / 2 * 2) * mem .input (k / 2 * 2 + 1) + mem .input (k / 2 * 2 + 1) * mem .input (k / 2 * 2)) *
    mem .window (k / 2)

/-- What both forms of `csquare_window` leave: floats `0` to `2n - 1` of `out`
set to `csquareFloat`. -/
def csquareWindowOut (n : Nat) (mem : Buf → Nat → K) : Buf → Nat → K :=
  prefixed mem .out (n * 2) (csquareFloat mem)

section Square

variable (mem : Buf → Nat → K)

omit [Field K] in
@[simp] theorem prefixed_out_window (bound : Nat) (f : Nat → K) (k : Nat) :
    prefixed mem .out bound f .window k = mem .window k :=
  prefixed_other bound k (by decide)

theorem csquareFloat_even (i : Nat) :
    csquareFloat mem (i * 2) =
      (mem .input (i * 2) * mem .input (i * 2) - mem .input (i * 2 + 1) * mem .input (i * 2 + 1)) * mem .window i := by
  simp [csquareFloat, (halves i).1, (halves i).2.1]

theorem csquareFloat_odd (i : Nat) :
    csquareFloat mem (i * 2 + 1) =
      (mem .input (i * 2) * mem .input (i * 2 + 1) + mem .input (i * 2 + 1) * mem .input (i * 2)) * mem .window i := by
  simp [csquareFloat, (halves i).2.2.1, (halves i).2.2.2]

theorem evals_genericCsquareWindow (n : Nat) :
    Evals (genericCsquareWindow n) mem () (csquareWindowOut n mem) := by
  unfold genericCsquareWindow
  refine (evals_forRange (fun i => prefixed mem .out (i * 2) (csquareFloat mem)) fun i _ => ?_).of_eq (by simp) rfl
  rw [Nat.zero_add]
  refine (evals_load _ _ _).bind ((evals_load _ _ _).bind ((evals_load _ _ _).bind
    (evals_storePair mem _ i (_, _) ?_)))
  simp only [prefixed_out_input, prefixed_out_window, csquareFloat_even, csquareFloat_odd]

/-- The scalar tail of `avx2_csquare_window`, whose imaginary part is `2 a b`
and which loads `window[i]` once for each part. -/
theorem evals_avx2CsquareTail (i : Nat) :
    Evals (do
        let a ← load .input (i * 2)
        let b ← load .input (i * 2 + 1)
        let w ← load .window i
        store .out (i * 2) ((a * a - b * b) * w)
        let w ← load .window i
        store .out (i * 2 + 1) (((2 : Nat) : K) * a * b * w))
      (prefixed mem .out (i * 2) (csquareFloat mem)) () (prefixed mem .out ((i + 1) * 2) (csquareFloat mem)) := by
  refine (evals_load _ _ _).bind ((evals_load _ _ _).bind ((evals_load _ _ _).bind ((evals_store _ _ _ _).bind ?_)))
  rw [write_prefixed (by simp only [prefixed_out_input, prefixed_out_window, csquareFloat_even])]
  refine (evals_load _ _ _).bind ((evals_store _ _ _ _).of_eq rfl ?_)
  rw [write_prefixed ?_, show i * 2 + 1 + 1 = (i + 1) * 2 by ring]
  simp only [prefixed_out_input, prefixed_out_window, csquareFloat_odd]
  push_cast
  ring

/-- Lane `q` of the four squares that `_mm_unpacklo_ps` (`half = 0`) or
`_mm_unpackhi_ps` (`half = 2`) puts in lane `j`: float `2 half + j` of the
block's output. -/
theorem csquare_lane (t half : Nat) (re im w : Fin 4 → K) (j q : Fin 4) (lane : q.val = j.val / 2 + half)
    (hre : ∀ q : Fin 4, re q = mem .input ((4 * t + q) * 2))
    (him : ∀ q : Fin 4, im q = mem .input ((4 * t + q) * 2 + 1))
    (hw : ∀ q : Fin 4, w q = mem .window (4 * t + q)) :
    (if j.val % 2 = 0 then (re * re - im * im) * w else (fun _ => ((2 : Nat) : K)) * (re * im) * w) q =
      csquareFloat mem (4 * t * 2 + 2 * half + j) := by
  have sample : (4 * t * 2 + 2 * half + j.val) / 2 = 4 * t + q.val := by omega
  have parity : (4 * t * 2 + 2 * half + j.val) % 2 = j.val % 2 := by omega
  simp only [csquareFloat, sample, parity]
  split
  · simp only [Pi.mul_apply, Pi.sub_apply, hre, him, hw]
  · simp only [Pi.mul_apply, hre, him, hw]
    push_cast
    ring

theorem evals_avx2CsquareWindow (n : Nat) :
    Evals (avx2CsquareWindow n) mem () (csquareWindowOut n mem) := by
  unfold avx2CsquareWindow
  refine (evals_blocks_tail (fun i => prefixed mem .out (i * 2) (csquareFloat mem)) (show 0 < 4 by decide)
    (fun t _ => ?_) fun i _ _ => evals_avx2CsquareTail mem i).of_eq (by simp) rfl
  -- the even lanes of the block are the real parts of its samples, the odd lanes the imaginary parts
  have hre : ∀ q : Fin 4, castLow (permutevar8x32 (fun j : Fin 8 =>
      prefixed mem .out (4 * t * 2) (csquareFloat mem) .input (4 * t * 2 + j)) evenOdd) q =
        mem .input ((4 * t + q) * 2) := fun q => by
    rw [castLow_evenOdd, prefixed_out_input, show 4 * t * 2 + 2 * q.val = (4 * t + q) * 2 by ring]
  have him : ∀ q : Fin 4, extractHigh (permutevar8x32 (fun j : Fin 8 =>
      prefixed mem .out (4 * t * 2) (csquareFloat mem) .input (4 * t * 2 + j)) evenOdd) q =
        mem .input ((4 * t + q) * 2 + 1) := fun q => by
    rw [extractHigh_evenOdd, prefixed_out_input, show 4 * t * 2 + (2 * q.val + 1) = (4 * t + q) * 2 + 1 by ring]
  have hw : ∀ q : Fin 4, prefixed mem .out (4 * t * 2) (csquareFloat mem) .window (4 * t + q) =
      mem .window (4 * t + q) := fun q => prefixed_out_window mem _ _ _
  refine (evals_loadLanes _ _ _ _).bind ((evals_loadLanes _ _ _ _).bind ((evals_storeLanes _ _ _ _ _).bind
    ((evals_storeLanes _ _ _ _ _).of_eq rfl ?_)))
  rw [writeLanes_prefixed fun j => ?_, writeLanes_prefixed fun j => ?_, show (4 * t + 4) * 2 = 4 * t * 2 + 4 + 4 by ring]
  · exact csquare_lane mem t 2 _ _ _ j _ rfl hre him hw
  · exact csquare_lane mem t 0 _ _ _ j _ rfl hre him hw

end Square

/-- From every machine, `avx2_csquare_window`, which squares four samples at a
time as `(a² - b²) + 2ab i` and interleaves the parts back, leaves the memory
`generic_csquare_window` leaves. -/
theorem csquare_window_agree (n : Nat) (m : Machine Buf K) :
    ((avx2CsquareWindow n).run m).2.mem = csquareWindowOut n m.mem ∧
      ((genericCsquareWindow n).run m).2.mem = csquareWindowOut n m.mem :=
  ⟨(evals_avx2CsquareWindow m.mem n m rfl).2, (evals_genericCsquareWindow m.mem n m rfl).2⟩

end IridiumSniffer.Simd
