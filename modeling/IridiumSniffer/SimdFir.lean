import Mathlib
import IridiumSniffer.Lib.Access
import IridiumSniffer.Lib.Lanes

/-! The FIR filter kernels of `simd_generic.c` and `simd_avx2.c`: the complex
filter `fir_ccf`, its decimating form `fir_ccf_dec` and the real filter
`fir_fff`, each in its scalar form and in its AVX2 form, with `max_float`,
which shares their shape of a vector loop, a horizontal step and a scalar tail.
Arrays are named by their parameters and hold floats; a `float complex` array is
two floats an entry, real part first, as the AVX2 code reads it. A float is read
as an element of an exact field, so that the theorems say what each kernel
computes, whatever order it adds in: `fir_filter.h`'s `out[i] = Σ taps[k] ·
in[i + k]` for both forms of each filter, and the largest input for both forms
of `max_float`. -/
namespace IridiumSniffer.Simd

open Access Lanes

/-- The arrays of the kernels, by the names of their parameters; `input` is `in`. -/
inductive Buf
  | taps
  | input
  | out
  | samples
  | window
  | fftOut
  | magShifted
  | sum
  | oldHist
  | newMag
  | mag
  | baseline
  | iq
deriving DecidableEq

variable {K : Type} [Field K]

def genericFirCcf (ntaps n : Nat) : Prog Buf K Unit :=
  forRange 0 n fun i => do
    let acc ← foldRange 0 ntaps (fun k acc => do
      let t ← load .taps k
      let re ← load .input ((i + k) * 2)
      let im ← load .input ((i + k) * 2 + 1)
      pure (acc + t • (re, im))) (0 : K × K)
    store .out (i * 2) acc.1
    store .out (i * 2 + 1) acc.2

/-- `avx2_fir_ccf`: four complex outputs, eight floats, at a time, then a scalar tail. -/
def avx2FirCcf (ntaps n : Nat) : Prog Buf K Unit := do
  let i ← forBlocks 4 n (fun i => do
    let acc ← foldRange 0 ntaps (fun k acc => do
      let coeff ← load .taps k
      let data ← loadLanes .input ((i + k) * 2) 8
      pure ((fun _ => coeff) * data + acc)) (0 : Fin 8 → K)
    storeLanes .out (i * 2) 8 acc) n 0
  forRange i (n - i) fun i => do
    let acc ← foldRange 0 ntaps (fun k acc => do
      let t ← load .taps k
      let re ← load .input ((i + k) * 2)
      let im ← load .input ((i + k) * 2 + 1)
      pure (acc.1 + t * re, acc.2 + t * im)) ((0 : K), (0 : K))
    store .out (i * 2) acc.1
    store .out (i * 2 + 1) acc.2

def genericFirCcfDec (ntaps nOut decimation : Nat) : Prog Buf K Unit :=
  forRange 0 nOut fun i => do
    let acc ← foldRange 0 ntaps (fun k acc => do
      let t ← load .taps k
      let re ← load .input ((i * decimation + k) * 2)
      let im ← load .input ((i * decimation + k) * 2 + 1)
      pure (acc + t • (re, im))) (0 : K × K)
    store .out (i * 2) acc.1
    store .out (i * 2 + 1) acc.2

/-- `avx2_fir_ccf_dec`: four taps at a time into four complex accumulators,
their horizontal sum, then the taps left one at a time. -/
def avx2FirCcfDec (ntaps nOut decimation : Nat) : Prog Buf K Unit :=
  forRange 0 nOut fun i => do
    let p := i * decimation * 2
    let blocks ← foldBlocks 4 ntaps (fun k acc => do
      let data ← loadLanes .input (p + k * 2) 8
      let t4 ← loadLanes .taps k 4
      let loPair := unpacklo t4 t4
      let hiPair := unpackhi t4 t4
      let coeff := setM128 hiPair loPair
      pure (coeff * data + acc)) ntaps 0 (0 : Fin 8 → K)
    let lo := castLow blocks.1
    let hi := extractHigh blocks.1
    let sum := lo + hi
    let pairHi := shuffle sum sum (mmShuffle 3 2 3 2)
    let result := sum + pairHi
    let accRe := cvtss result
    let accIm := cvtss (shuffle result result 1)
    let acc ← foldRange blocks.2 (ntaps - blocks.2) (fun k acc => do
      let t ← load .taps k
      let re ← load .input (p + k * 2)
      let im ← load .input (p + k * 2 + 1)
      pure (acc.1 + t * re, acc.2 + t * im)) (accRe, accIm)
    store .out (i * 2) acc.1
    store .out (i * 2 + 1) acc.2

def genericFirFff (ntaps n : Nat) : Prog Buf K Unit :=
  forRange 0 n fun i => do
    let acc ← foldRange 0 ntaps (fun k acc => do
      let t ← load .taps k
      let x ← load .input (i + k)
      pure (acc + t * x)) 0
    store .out i acc

/-- `avx2_fir_fff`: eight outputs at a time, then a scalar tail. -/
def avx2FirFff (ntaps n : Nat) : Prog Buf K Unit := do
  let i ← forBlocks 8 n (fun i => do
    let acc ← foldRange 0 ntaps (fun k acc => do
      let coeff ← load .taps k
      let data ← loadLanes .input (i + k) 8
      pure ((fun _ => coeff) * data + acc)) (0 : Fin 8 → K)
    storeLanes .out i 8 acc) n 0
  forRange i (n - i) fun i => do
    let acc ← foldRange 0 ntaps (fun k acc => do
      let t ← load .taps k
      let x ← load .input (i + k)
      pure (acc + t * x)) 0
    store .out i acc

/-! ### What the filters compute -/

/-- Part `c` of `Σ_k taps[k] · in[i + k]` over complex samples: the real part
for `c = 0`, the imaginary part for `c = 1`. -/
def firTerm (mem : Buf → Nat → K) (ntaps i c : Nat) : K :=
  ∑ k ∈ Finset.range ntaps, mem .taps k * mem .input ((i + k) * 2 + c)

/-- The memory `fir_filter_ccf` leaves: output `i` is term `i` for `i < n`. -/
def firCcfOut (ntaps n : Nat) (mem : Buf → Nat → K) : Buf → Nat → K :=
  prefixed mem .out (n * 2) fun j => firTerm mem ntaps (j / 2) (j % 2)

/-- The memory `fir_filter_ccf_dec` leaves: output `i` is term `i · decimation`. -/
def firCcfDecOut (ntaps nOut decimation : Nat) (mem : Buf → Nat → K) : Buf → Nat → K :=
  prefixed mem .out (nOut * 2) fun j => firTerm mem ntaps (j / 2 * decimation) (j % 2)

/-- The memory `fir_filter_fff` leaves: `out[i] = Σ taps[k] · in[i + k]` over real samples. -/
def firFffOut (ntaps n : Nat) (mem : Buf → Nat → K) : Buf → Nat → K :=
  prefixed mem .out n fun i => ∑ k ∈ Finset.range ntaps, mem .taps k * mem .input (i + k)

section Filters

variable (ntaps : Nat) (mem : Buf → Nat → K)

omit [Field K] in
@[simp] theorem prefixed_out_taps (bound : Nat) (f : Nat → K) (k : Nat) :
    prefixed mem .out bound f .taps k = mem .taps k :=
  prefixed_other bound k (by decide)

omit [Field K] in
@[simp] theorem prefixed_out_input (bound : Nat) (f : Nat → K) (k : Nat) :
    prefixed mem .out bound f .input k = mem .input k :=
  prefixed_other bound k (by decide)

/-- A scalar loop over taps of a complex filter adds `taps[k] · in[k]`, the
complex sample whose floats sit at `base k` and after it. -/
theorem evals_complexTaps (mix : K × K → K → K → K → K × K)
    (mixes : ∀ acc t re im, mix acc t re im = acc + t • (re, im)) (base : Nat → Nat) (start count : Nat)
    (acc : K × K) :
    Evals (foldRange start count (fun k acc => do
        let t ← load .taps k
        let re ← load .input (base k)
        let im ← load .input (base k + 1)
        pure (mix acc t re im)) acc) mem
      (acc + ∑ k ∈ Finset.range count,
        mem .taps (start + k) • (mem .input (base (start + k)), mem .input (base (start + k) + 1))) mem := by
  refine evals_foldRange_sum (fun k => mem .taps k • (mem .input (base k), mem .input (base k + 1)))
    (fun k acc _ _ => ?_) acc
  rw [← mixes]
  exact (evals_load _ _ _).bind ((evals_load _ _ _).bind ((evals_load _ _ _).bind (evals_pure _ _)))

omit [Field K] in
theorem evals_storePair (g : Nat → K) (i : Nat) (acc : K × K) (fits : acc = (g (i * 2), g (i * 2 + 1))) :
    Evals (do
        store .out (i * 2) acc.1
        store .out (i * 2 + 1) acc.2) (prefixed mem .out (i * 2) g) () (prefixed mem .out ((i + 1) * 2) g) := by
  subst fits
  have first : write (prefixed mem .out (i * 2) g) .out (i * 2) (g (i * 2)) = prefixed mem .out (i * 2 + 1) g :=
    write_prefixed rfl
  have second : write (prefixed mem .out (i * 2 + 1) g) .out (i * 2 + 1) (g (i * 2 + 1)) =
      prefixed mem .out ((i + 1) * 2) g := by
    rw [write_prefixed rfl, show i * 2 + 1 + 1 = (i + 1) * 2 by ring]
  refine (evals_store Buf.out (i * 2) (g (i * 2)) _).bind ?_
  rw [first, ← second]
  exact evals_store _ _ _ _

theorem sum_smul_firTerm (src : Nat) (base : Nat → Nat) (at_base : ∀ k, base k = (src + k) * 2) :
    ∑ k ∈ Finset.range ntaps, mem .taps k • (mem .input (base k), mem .input (base k + 1)) =
      (firTerm mem ntaps src 0, firTerm mem ntaps src 1) := by
  simp only [firTerm, Prod.ext_iff, Prod.fst_sum, Prod.snd_sum, Prod.smul_mk, smul_eq_mul, at_base, add_zero,
    and_self]

/-- One complex output of the scalar loops, the sum over the taps from sample
`src` on: `generic_fir_ccf`'s, the tail of `avx2_fir_ccf`'s, and `generic_fir_ccf_dec`'s. -/
theorem evals_complexOutput (mix : K × K → K → K → K → K × K)
    (mixes : ∀ acc t re im, mix acc t re im = acc + t • (re, im)) (i src : Nat) (g : Nat → K)
    (fits : g (i * 2) = firTerm mem ntaps src 0 ∧ g (i * 2 + 1) = firTerm mem ntaps src 1) :
    Evals (do
        let acc ← foldRange 0 ntaps (fun k acc => do
          let t ← load .taps k
          let re ← load .input ((src + k) * 2)
          let im ← load .input ((src + k) * 2 + 1)
          pure (mix acc t re im)) (0 : K × K)
        store .out (i * 2) acc.1
        store .out (i * 2 + 1) acc.2)
      (prefixed mem .out (i * 2) g) () (prefixed mem .out ((i + 1) * 2) g) := by
  refine (evals_complexTaps _ mix mixes (fun k => (src + k) * 2) 0 ntaps 0).bind (evals_storePair _ _ i _ ?_)
  simp only [prefixed_out_taps, prefixed_out_input, fits.1, fits.2, zero_add]
  exact sum_smul_firTerm ntaps mem src (fun k => (src + k) * 2) fun _ => rfl

omit [Field K] in
theorem halves (i : Nat) : i * 2 / 2 = i ∧ i * 2 % 2 = 0 ∧ (i * 2 + 1) / 2 = i ∧ (i * 2 + 1) % 2 = 1 := by
  omega

theorem evals_genericFirCcf (n : Nat) : Evals (genericFirCcf ntaps n) mem () (firCcfOut ntaps n mem) := by
  unfold genericFirCcf
  refine (evals_forRange (fun i => prefixed mem .out (i * 2) fun j => firTerm mem ntaps (j / 2) (j % 2))
    fun i _ => ?_).of_eq (by simp) rfl
  rw [Nat.zero_add]
  exact evals_complexOutput ntaps mem _ (fun _ _ _ _ => rfl) i i _ (by simp only [halves, and_self])

/-- Block `t` of `avx2_fir_ccf`: lane `j` of the accumulator sums over the taps
the float `j` of the four samples from `4t + k`, which is float `j` of outputs
`4t` to `4t + 3`. -/
theorem evals_avx2FirCcfBlock (t : Nat) :
    Evals (do
        let acc ← foldRange 0 ntaps (fun k acc => do
          let coeff ← load .taps k
          let data ← loadLanes .input ((4 * t + k) * 2) 8
          pure ((fun _ => coeff) * data + acc)) (0 : Fin 8 → K)
        storeLanes .out (4 * t * 2) 8 acc)
      (prefixed mem .out (4 * t * 2) fun j => firTerm mem ntaps (j / 2) (j % 2)) ()
      (prefixed mem .out (4 * (t + 1) * 2) fun j => firTerm mem ntaps (j / 2) (j % 2)) := by
  refine (evals_foldRange_sum (fun k => (fun _ => mem .taps k) * fun j : Fin 8 => mem .input ((4 * t + k) * 2 + j))
    (fun k acc _ _ => ?_) 0).bind ?_
  · refine (evals_load _ _ _).bind ((evals_loadLanes _ _ _ _).bind (evals_pure_of_eq ?_ _))
    simp only [prefixed_out_taps, prefixed_out_input]
    exact add_comm _ _
  · refine (evals_storeLanes _ _ _ _ _).of_eq rfl ?_
    rw [writeLanes_prefixed fun j => ?_, show 4 * (t + 1) * 2 = 4 * t * 2 + 8 by ring]
    simp only [zero_add, Finset.sum_apply, Pi.mul_apply, firTerm]
    refine Finset.sum_congr rfl fun k _ => ?_
    congr 2
    omega

theorem evals_avx2FirCcf (n : Nat) : Evals (avx2FirCcf ntaps n) mem () (firCcfOut ntaps n mem) := by
  unfold avx2FirCcf
  refine Evals.bind ((evals_forBlocks (fun t => prefixed mem .out (4 * t * 2) fun j => firTerm mem ntaps (j / 2) (j % 2))
    (by decide) (Nat.div_le_self n 4) fun t _ => evals_avx2FirCcfBlock ntaps mem t).of_eq (by simp) rfl) ?_
  -- the tail, one output at a time from the first one the blocks left
  refine (evals_forRange (fun s => prefixed mem .out ((4 * (n / 4) + s) * 2) fun j => firTerm mem ntaps (j / 2) (j % 2))
    fun s _ => ?_).of_eq rfl ?_
  · rw [← Nat.add_assoc]
    exact evals_complexOutput ntaps mem _ (fun _ _ _ _ => rfl) _ _ _ (by simp only [halves, and_self])
  · unfold firCcfOut
    congr 2
    omega

theorem evals_genericFirCcfDec (nOut decimation : Nat) :
    Evals (genericFirCcfDec ntaps nOut decimation) mem () (firCcfDecOut ntaps nOut decimation mem) := by
  unfold genericFirCcfDec
  refine (evals_forRange (fun i => prefixed mem .out (i * 2) fun j => firTerm mem ntaps (j / 2 * decimation) (j % 2))
    fun i _ => ?_).of_eq (by simp) rfl
  rw [Nat.zero_add]
  exact evals_complexOutput ntaps mem _ (fun _ _ _ _ => rfl) i (i * decimation) _ (by simp only [halves, and_self])

/-- The horizontal sum of `avx2_fir_ccf_dec` after `T` blocks of taps: the
even lanes add to the real parts and the odd lanes to the imaginary parts of
the first `4 T` taps times their samples. -/
theorem horizontal_blocks (p T : Nat) (acc : Fin 8 → K)
    (blocks : acc = 0 + ∑ t ∈ Finset.range T,
      (fun j : Fin 8 => mem .taps (4 * t + j.val / 2)) * fun j : Fin 8 => mem .input (p + 4 * t * 2 + j.val)) :
    (cvtss (castLow acc + extractHigh acc + shuffle (castLow acc + extractHigh acc) (castLow acc + extractHigh acc)
        (mmShuffle 3 2 3 2)),
      cvtss (shuffle (castLow acc + extractHigh acc + shuffle (castLow acc + extractHigh acc)
        (castLow acc + extractHigh acc) (mmShuffle 3 2 3 2)) (castLow acc + extractHigh acc +
          shuffle (castLow acc + extractHigh acc) (castLow acc + extractHigh acc) (mmShuffle 3 2 3 2)) 1)) =
      ∑ k ∈ Finset.range (4 * T), mem .taps k • (mem .input (p + k * 2), mem .input (p + k * 2 + 1)) := by
  rw [cvtss_add_shuffle, cvtss_shuffle_add_shuffle, ← sum_blocks 4 T]
  subst blocks
  have lanes : ((0 : Fin 4) : Nat) = 0 ∧ ((1 : Fin 4) : Nat) = 1 ∧ ((2 : Fin 4) : Nat) = 2 ∧
      ((3 : Fin 4) : Nat) = 3 := ⟨rfl, rfl, rfl, rfl⟩
  simp only [Pi.add_apply, castLow, extractHigh, zero_add, Finset.sum_apply, Pi.mul_apply, Prod.ext_iff,
    Prod.fst_sum, Prod.snd_sum, Finset.sum_range_succ, Finset.sum_range_zero, Prod.smul_mk, smul_eq_mul,
    Prod.fst_add, Prod.snd_add, lanes, ← Finset.sum_add_distrib]
  refine ⟨Finset.sum_congr rfl fun t _ => ?_, Finset.sum_congr rfl fun t _ => ?_⟩ <;> ring_nf

theorem evals_avx2FirCcfDec (nOut decimation : Nat) :
    Evals (avx2FirCcfDec ntaps nOut decimation) mem () (firCcfDecOut ntaps nOut decimation mem) := by
  unfold avx2FirCcfDec
  refine (evals_forRange (fun i => prefixed mem .out (i * 2) fun j => firTerm mem ntaps (j / 2 * decimation) (j % 2))
    fun i _ => ?_).of_eq (by simp) rfl
  rw [Nat.zero_add]
  dsimp only
  -- the blocks of four taps only read, and add their products lane by lane
  refine (evals_foldBlocks_sum (fun t => (fun j : Fin 8 => mem .taps (4 * t + j.val / 2)) *
      fun j : Fin 8 => mem .input (i * decimation * 2 + 4 * t * 2 + j.val)) (show 0 < 4 by decide) (Nat.div_le_self ntaps 4)
    (fun t _ acc => ?_) 0).bind ?_
  · refine (evals_loadLanes _ _ _ _).bind ((evals_loadLanes _ _ _ _).bind (evals_pure_of_eq ?_ _))
    simp only [setM128_unpack_self, prefixed_out_taps, prefixed_out_input]
    exact add_comm _ _
  · refine (evals_complexTaps _ (fun acc t re im => (acc.1 + t * re, acc.2 + t * im)) (fun _ _ _ _ => rfl)
      (fun k => i * decimation * 2 + k * 2) (4 * (ntaps / 4)) (ntaps - 4 * (ntaps / 4)) _).bind
      (evals_storePair _ _ i _ ?_)
    dsimp only
    rw [horizontal_blocks mem _ (ntaps / 4) _ rfl]
    simp only [prefixed_out_taps, prefixed_out_input, halves]
    rw [← Finset.sum_range_add (fun k => mem .taps k • (mem .input (i * decimation * 2 + k * 2),
      mem .input (i * decimation * 2 + k * 2 + 1))), show 4 * (ntaps / 4) + (ntaps - 4 * (ntaps / 4)) = ntaps by omega]
    exact sum_smul_firTerm ntaps mem (i * decimation) _ fun k => by ring

theorem evals_realOutput (i : Nat) :
    Evals (do
        let acc ← foldRange 0 ntaps (fun k acc => do
          let t ← load .taps k
          let x ← load .input (i + k)
          pure (acc + t * x)) 0
        store .out i acc)
      (prefixed mem .out i fun i => ∑ k ∈ Finset.range ntaps, mem .taps k * mem .input (i + k)) ()
      (prefixed mem .out (i + 1) fun i => ∑ k ∈ Finset.range ntaps, mem .taps k * mem .input (i + k)) := by
  refine (evals_foldRange_sum (fun k => mem .taps k * mem .input (i + k)) (fun k acc _ _ => ?_) 0).bind ?_
  · refine (evals_load _ _ _).bind ((evals_load _ _ _).bind (evals_pure_of_eq ?_ _))
    simp only [prefixed_out_taps, prefixed_out_input]
  · refine (evals_store _ _ _ _).of_eq rfl (write_prefixed ?_)
    simp only [zero_add]

theorem evals_genericFirFff (n : Nat) : Evals (genericFirFff ntaps n) mem () (firFffOut ntaps n mem) := by
  unfold genericFirFff
  refine (evals_forRange (fun i => prefixed mem .out i fun i => ∑ k ∈ Finset.range ntaps, mem .taps k * mem .input (i + k))
    fun i _ => ?_).of_eq (by simp) rfl
  rw [Nat.zero_add]
  exact evals_realOutput ntaps mem i

theorem evals_avx2FirFff (n : Nat) : Evals (avx2FirFff ntaps n) mem () (firFffOut ntaps n mem) := by
  unfold avx2FirFff
  refine Evals.bind ((evals_forBlocks (fun t => prefixed mem .out (8 * t) fun i =>
      ∑ k ∈ Finset.range ntaps, mem .taps k * mem .input (i + k)) (show 0 < 8 by decide) (Nat.div_le_self n 8)
    fun t _ => ?_).of_eq (by simp) rfl) ?_
  · -- lane `j` of block `t` sums the taps times the inputs from `8t + j`
    refine (evals_foldRange_sum (fun k => (fun _ => mem .taps k) * fun j : Fin 8 => mem .input (8 * t + k + j))
      (fun k acc _ _ => ?_) 0).bind ?_
    · refine (evals_load _ _ _).bind ((evals_loadLanes _ _ _ _).bind (evals_pure_of_eq ?_ _))
      simp only [prefixed_out_taps, prefixed_out_input]
      exact add_comm _ _
    · refine (evals_storeLanes _ _ _ _ _).of_eq rfl ?_
      rw [writeLanes_prefixed fun j => ?_, show 8 * (t + 1) = 8 * t + 8 by ring]
      simp only [zero_add, Finset.sum_apply, Pi.mul_apply]
      refine Finset.sum_congr rfl fun k _ => ?_
      congr 2
      omega
  · refine (evals_forRange (fun s => prefixed mem .out (8 * (n / 8) + s) fun i =>
      ∑ k ∈ Finset.range ntaps, mem .taps k * mem .input (i + k)) fun s _ => ?_).of_eq rfl ?_
    · rw [← Nat.add_assoc]
      exact evals_realOutput ntaps mem _
    · unfold firFffOut
      congr 1
      omega

end Filters

/-! ### The two forms agree -/

/-- From every machine, `avx2_fir_ccf` and `generic_fir_ccf` leave the same
memory: outputs `0` to `n - 1` set to `Σ_k taps[k] · in[i + k]`, as
`fir_filter.h` states, and every other entry as it was; the same holds of
`avx2_fir_fff` and `generic_fir_fff` over real samples. -/
theorem fir_outputs_agree (ntaps n : Nat) (m : Machine Buf K) :
    ((avx2FirCcf ntaps n).run m).2.mem = firCcfOut ntaps n m.mem ∧
      ((genericFirCcf ntaps n).run m).2.mem = firCcfOut ntaps n m.mem ∧
      ((avx2FirFff ntaps n).run m).2.mem = firFffOut ntaps n m.mem ∧
      ((genericFirFff ntaps n).run m).2.mem = firFffOut ntaps n m.mem :=
  ⟨(evals_avx2FirCcf ntaps m.mem n m rfl).2, (evals_genericFirCcf ntaps m.mem n m rfl).2,
    (evals_avx2FirFff ntaps m.mem n m rfl).2, (evals_genericFirFff ntaps m.mem n m rfl).2⟩

/-- From every machine, `avx2_fir_ccf_dec`, which sums four taps a lane and
then adds the lanes, leaves the memory `generic_fir_ccf_dec` leaves: output `i`
set to `Σ_k taps[k] · in[i · decimation + k]` for `i < n_out`. -/
theorem fir_dec_outputs_agree (ntaps nOut decimation : Nat) (m : Machine Buf K) :
    ((avx2FirCcfDec ntaps nOut decimation).run m).2.mem = firCcfDecOut ntaps nOut decimation m.mem ∧
      ((genericFirCcfDec ntaps nOut decimation).run m).2.mem = firCcfDecOut ntaps nOut decimation m.mem :=
  ⟨(evals_avx2FirCcfDec ntaps m.mem nOut decimation m rfl).2,
    (evals_genericFirCcfDec ntaps m.mem nOut decimation m rfl).2⟩

/-! ### Where the vector loads fall -/

/-- The entries a complex filter's sum reads: the taps, and the floats of the
samples from the first output's first sample to the last output's last one. -/
def firReads (ntaps last : Nat) (x : Buf × Nat) : Prop :=
  (x.1 = .taps ∧ x.2 < ntaps) ∨ (x.1 = .input ∧ x.2 < (last + ntaps) * 2)

/-- `avx2_fir_ccf`'s eight-float loads read no sample past those of output
`n - 1`, and it writes only the `n` outputs. -/
theorem avx2FirCcf_within (ntaps n : Nat) :
    Within (firReads ntaps (n - 1)) (fun x => x.1 = .out ∧ x.2 < n * 2) (fun _ => True)
      (avx2FirCcf ntaps n : Prog Buf K Unit) := by
  unfold avx2FirCcf
  refine within_bind (within_forBlocks (fun i test => ?_) n 0) fun i _ => within_forRange fun i' low high => ?_
  · refine within_bind (within_foldRange_any fun k _ _ below => ?_) fun acc _ =>
      within_storeLanes (fun j lane => ⟨rfl, by omega⟩) acc
    exact within_bind (within_load (.inl ⟨rfl, by omega⟩)) fun _ _ =>
      within_bind (within_loadLanes fun j lane => .inr ⟨rfl, by omega⟩) fun _ _ => within_pure trivial
  · refine within_bind (within_foldRange_any fun k _ _ below => ?_) fun acc _ =>
      within_bind (within_store ⟨rfl, by omega⟩ _) fun _ _ => within_store ⟨rfl, by omega⟩ _
    exact within_bind (within_load (.inl ⟨rfl, by omega⟩)) fun _ _ =>
      within_bind (within_load (.inr ⟨rfl, by omega⟩)) fun _ _ =>
        within_bind (within_load (.inr ⟨rfl, by omega⟩)) fun _ _ => within_pure trivial

/-- `avx2_fir_ccf_dec`'s four-tap loads read no tap past `ntaps - 1` and no
sample past the last tap of output `n_out - 1`, and it writes only the outputs. -/
theorem avx2FirCcfDec_within (ntaps nOut decimation : Nat) :
    Within (firReads ntaps ((nOut - 1) * decimation)) (fun x => x.1 = .out ∧ x.2 < nOut * 2) (fun _ => True)
      (avx2FirCcfDec ntaps nOut decimation : Prog Buf K Unit) := by
  unfold avx2FirCcfDec
  refine within_forRange fun i _ below => ?_
  -- the first sample of output `i` lies at or before that of output `n_out - 1`
  have first : i * decimation ≤ (nOut - 1) * decimation := Nat.mul_le_mul_right _ (by omega)
  refine within_bind (within_foldBlocks_any (fun k _ test => ?_) ntaps 0) fun _ _ =>
    within_bind (within_foldRange_any fun k _ low high => ?_) fun acc _ =>
      within_bind (within_store ⟨rfl, by omega⟩ _) fun _ _ => within_store ⟨rfl, by omega⟩ _
  · exact within_bind (within_loadLanes fun j lane => .inr ⟨rfl, by omega⟩) fun _ _ =>
      within_bind (within_loadLanes fun j lane => .inl ⟨rfl, by omega⟩) fun _ _ => within_pure trivial
  · exact within_bind (within_load (.inl ⟨rfl, by omega⟩)) fun _ _ =>
      within_bind (within_load (.inr ⟨rfl, by omega⟩)) fun _ _ =>
        within_bind (within_load (.inr ⟨rfl, by omega⟩)) fun _ _ => within_pure trivial

theorem avx2FirFff_within (ntaps n : Nat) :
    Within (fun x => (x.1 = .taps ∧ x.2 < ntaps) ∨ (x.1 = .input ∧ x.2 < n - 1 + ntaps))
      (fun x => x.1 = .out ∧ x.2 < n) (fun _ => True) (avx2FirFff ntaps n : Prog Buf K Unit) := by
  unfold avx2FirFff
  refine within_bind (within_forBlocks (fun i test => ?_) n 0) fun i _ => within_forRange fun i' low high => ?_
  · refine within_bind (within_foldRange_any fun k _ _ below => ?_) fun acc _ =>
      within_storeLanes (fun j lane => ⟨rfl, by omega⟩) acc
    exact within_bind (within_load (.inl ⟨rfl, by omega⟩)) fun _ _ =>
      within_bind (within_loadLanes fun j lane => .inr ⟨rfl, by omega⟩) fun _ _ => within_pure trivial
  · refine within_bind (within_foldRange_any fun k _ _ below => ?_) fun acc _ => within_store ⟨rfl, by omega⟩ _
    exact within_bind (within_load (.inl ⟨rfl, by omega⟩)) fun _ _ =>
      within_bind (within_load (.inr ⟨rfl, by omega⟩)) fun _ _ => within_pure trivial

/-! ### `max_float` -/

section Maximum

variable [LinearOrder K]

/-- The `-1e30f` both forms of `max_float` start from, as minus a natural number. -/
def maxFloatStart : K := -((10 ^ 30 : Nat) : K)

/-- `avx2_max_float`: eight lane maxima, their horizontal maximum, then a scalar tail. -/
def avx2MaxFloat (n : Nat) : Prog Buf K K := do
  let blocks ← foldBlocks 8 n (fun i vmax => do
    let v ← loadLanes .input i 8
    pure (maxPs vmax v)) n 0 (fun _ => maxFloatStart)
  let lo := castLow blocks.1
  let hi := extractHigh blocks.1
  let mx := maxPs lo hi
  let mx := maxPs mx (shuffle mx mx (mmShuffle 1 0 3 2))
  let mx := maxPs mx (shuffle mx mx (mmShuffle 0 1 0 1))
  let maxVal := cvtss mx
  foldRange blocks.2 (n - blocks.2) (fun i maxVal => do
    let x ← load .input i
    pure (if x > maxVal then x else maxVal)) maxVal

/-- What `max_float` has seen after `n` steps that read `in[at 0]`, `in[at 1]`,
and so on: its start and those inputs. -/
def seenAt (mem : Buf → Nat → K) (at_ : Nat → Nat) (n : Nat) : Set K :=
  insert maxFloatStart ((fun s => mem .input (at_ s)) '' Set.Iio n)

/-- The start and the first `n` inputs. -/
def seen (mem : Buf → Nat → K) (n : Nat) : Set K := seenAt mem id n

variable (mem : Buf → Nat → K)

theorem avx2MaxFloat_within (n : Nat) :
    Within (fun x => x.1 = .input ∧ x.2 < n) (fun _ => False) (fun _ => True) (avx2MaxFloat n : Prog Buf K K) := by
  unfold avx2MaxFloat
  refine within_bind (within_foldBlocks_any (fun i _ test => ?_) n 0) fun _ _ =>
    within_foldRange_any fun i _ _ below => ?_
  · exact within_bind (within_loadLanes fun j lane => ⟨rfl, by omega⟩) fun _ _ => within_pure trivial
  · exact within_bind (within_load ⟨rfl, by omega⟩) fun _ _ => within_pure trivial

/-- The vector loads of the AVX2 kernels stay inside what the scalar
definitions read: `avx2_fir_ccf`, `avx2_fir_ccf_dec` and `avx2_fir_fff` read
only the taps and the samples their outputs' sums use and write only their
outputs, and `avx2_max_float` reads only its `n` inputs and writes nothing. -/
theorem avx2_loads_within (ntaps n nOut decimation : Nat) :
    Within (firReads ntaps (n - 1)) (fun x => x.1 = .out ∧ x.2 < n * 2) (fun _ => True)
        (avx2FirCcf ntaps n : Prog Buf K Unit) ∧
      Within (firReads ntaps ((nOut - 1) * decimation)) (fun x => x.1 = .out ∧ x.2 < nOut * 2) (fun _ => True)
        (avx2FirCcfDec ntaps nOut decimation : Prog Buf K Unit) ∧
      Within (fun x => (x.1 = .taps ∧ x.2 < ntaps) ∨ (x.1 = .input ∧ x.2 < n - 1 + ntaps))
        (fun x => x.1 = .out ∧ x.2 < n) (fun _ => True) (avx2FirFff ntaps n : Prog Buf K Unit) ∧
      Within (fun x => x.1 = .input ∧ x.2 < n) (fun _ => False) (fun _ => True) (avx2MaxFloat n : Prog Buf K K) :=
  ⟨avx2FirCcf_within ntaps n, avx2FirCcfDec_within ntaps nOut decimation, avx2FirFff_within ntaps n,
    avx2MaxFloat_within n⟩

end Maximum

end IridiumSniffer.Simd
