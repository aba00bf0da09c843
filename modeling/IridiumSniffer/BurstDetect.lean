import Mathlib
import IridiumSniffer.Lib.Loop

/-! The GPU path of `burst_detector_feed` and `burst_detector_feed_cf32` in
`burst_detect.c`. Frames of `fft_size` samples are copied into a batch from a
read cursor `read_idx`, and `gpu_flush_batch` hands each frame of a full batch,
and of the partial batch a feed ends with, to `process_magnitude_frame`, moving
`d->index` by `fft_size` after each. A frame is the position of its first
sample in the stream, and a call of `process_magnitude_frame` is logged with
`d->index` at the time; the detection state machine behind it is left out.

While the GPU succeeds the two cursors move together: every frame is processed
once, in order, at its own position. A failure on the partial batch of a feed
only drops frames that the next feed reads again. A failure on a full batch
drops it without moving `d->index` while `read_idx` has passed it: the frames
read next are processed at positions they do not have, and the next feed reads
them again from `d->index`. -/
namespace IridiumSniffer.Burst

/-- The fields of `burst_detector_t` the GPU path reads and writes. -/
structure Detector where
  index : Nat
  sampleCount : Nat
  -- the position of each frame in `gpu_batch_input`: `gpu_batch_count` is its length
  batch : List Nat
  -- the calls of `gpu_burst_fft_process` so far
  gpuCalls : Nat
  -- each call of `process_magnitude_frame`: `d->index` then, and the frame it got
  processed : List (Nat × Nat)
deriving DecidableEq, Repr

/-- The detector `burst_detector_create` returns. -/
def Detector.init : Detector := ⟨0, 0, [], 0, []⟩

section Feed

variable (fftSize batchSize : Nat) (gpuOk : Nat → Bool)

/-- One turn of the loop of `gpu_flush_batch`: `process_magnitude_frame` on the
frame, then `d->index += d->fft_size`. -/
def processFrame (d : Detector) (frame : Nat) : Detector :=
  { d with processed := d.processed ++ [(d.index, frame)], index := d.index + fftSize }

/-- `gpu_flush_batch`, with `gpuOk k` the result of the `k`-th call of
`gpu_burst_fft_process` (true for 0), which hands the frames back in batch
order. -/
def gpuFlushBatch (d : Detector) : Detector :=
  if d.batch = [] then d
  else if gpuOk d.gpuCalls then
    { d.batch.foldl (processFrame fftSize) d with batch := [], gpuCalls := d.gpuCalls + 1 }
  else { d with batch := [], gpuCalls := d.gpuCalls + 1 }

/-- The condition `read_idx + d->fft_size <= d->sample_count` of the
accumulation loop, on `(read_idx, d)`. -/
def accumulateCond (st : Nat × Detector) : Bool :=
  decide (st.1 + fftSize ≤ st.2.sampleCount)

/-- One turn of the accumulation loop: copy the frame at `read_idx`, and flush
once `gpu_batch_count >= gpu_batch_size`. -/
def accumulateStep (st : Nat × Detector) : Nat × Detector :=
  let d := { st.2 with batch := st.2.batch ++ [st.1] }
  (st.1 + fftSize, if batchSize ≤ d.batch.length then gpuFlushBatch fftSize gpuOk d else d)

/-- The GPU path of a feed of `num_samples` samples: the loop from
`read_idx = d->index`, run for at most `sample_count + 1` turns (`none` if it
has not ended then, as with `fft_size = 0`), and the flush of the partial
batch. -/
def gpuFeed (d : Detector) (numSamples : Nat) : Option Detector := do
  let d := { d with sampleCount := d.sampleCount + numSamples }
  let (_, d) ← Loop.run (accumulateCond fftSize) (accumulateStep fftSize batchSize gpuOk)
    (d.sampleCount + 1) (d.index, d)
  pure (if d.batch ≠ [] then gpuFlushBatch fftSize gpuOk d else d)

/-- A run of feeds. -/
def gpuRun (d : Detector) (feeds : List Nat) : Option Detector :=
  feeds.foldlM (gpuFeed fftSize batchSize gpuOk) d

end Feed

/-! ### The cursors in step -/

section Lockstep

/-- The `m` frames from position `p` on. -/
def consecutive (fftSize p m : Nat) : List Nat :=
  (List.range m).map fun k => p + k * fftSize

@[simp] theorem length_consecutive (fftSize p m : Nat) : (consecutive fftSize p m).length = m := by
  simp [consecutive]

theorem consecutive_succ (fftSize p m : Nat) :
    consecutive fftSize p (m + 1) = consecutive fftSize p m ++ [p + m * fftSize] := by
  simp [consecutive, List.range_succ]

theorem consecutive_add (fftSize p m n : Nat) :
    consecutive fftSize p (m + n) = consecutive fftSize p m ++ consecutive fftSize (p + m * fftSize) n := by
  simp only [consecutive, List.range_add, List.map_append, List.map_map]
  congr 1
  apply List.map_congr_left
  intro k _
  simp only [Function.comp, add_mul, add_assoc]

variable {fftSize batchSize : Nat} {gpuOk : Nat → Bool}

theorem sampleCount_foldl_processFrame (frames : List Nat) (d : Detector) :
    (frames.foldl (processFrame fftSize) d).sampleCount = d.sampleCount := by
  induction frames generalizing d with
  | nil => rfl
  | cons frame frames ih => exact ih _

theorem sampleCount_gpuFlushBatch (d : Detector) :
    (gpuFlushBatch fftSize gpuOk d).sampleCount = d.sampleCount := by
  unfold gpuFlushBatch
  split
  · rfl
  · split
    · exact sampleCount_foldl_processFrame d.batch d
    · rfl

theorem batch_gpuFlushBatch (d : Detector) : (gpuFlushBatch fftSize gpuOk d).batch = [] := by
  unfold gpuFlushBatch
  split
  · assumption
  · split <;> rfl

theorem gpuFlushBatch_of_failure {d : Detector} (failed : gpuOk d.gpuCalls = false) :
    gpuFlushBatch fftSize gpuOk d = if d.batch = [] then d else { d with batch := [], gpuCalls := d.gpuCalls + 1 } := by
  simp [gpuFlushBatch, failed]

theorem foldl_processFrame (d : Detector) (m : Nat) :
    (consecutive fftSize d.index m).foldl (processFrame fftSize) d =
      { d with processed := d.processed ++ (consecutive fftSize d.index m).map (fun p => (p, p)),
               index := d.index + m * fftSize } := by
  induction m with
  | zero => simp [consecutive]
  | succ m ih =>
    rw [consecutive_succ, List.foldl_append, ih]
    simp [processFrame, add_mul, add_assoc]

/-- The accumulation loop between turns, every flush so far a success: the
frames before `d->index` processed in order, each at its own position, and the
batch holding the frames from `d->index` up to `read_idx`. -/
structure Pending (fftSize : Nat) (d : Detector) (readIdx : Nat) : Prop where
  processed : d.processed = (consecutive fftSize 0 d.processed.length).map fun p => (p, p)
  index : d.index = d.processed.length * fftSize
  batch : d.batch = consecutive fftSize d.index d.batch.length
  read : readIdx = d.index + d.batch.length * fftSize

/-- Between feeds: nothing in the batch, and every frame before `d->index`
processed once, in order, at its own position. -/
structure Lockstep (fftSize : Nat) (d : Detector) : Prop where
  pending : Pending fftSize d d.index
  empty : d.batch = []
  behind : d.index ≤ d.sampleCount

theorem lockstep_init (fftSize : Nat) : Lockstep fftSize Detector.init :=
  ⟨⟨rfl, by simp [Detector.init], rfl, by simp [Detector.init]⟩, rfl, le_refl 0⟩

theorem Pending.push {d : Detector} {readIdx : Nat} (inv : Pending fftSize d readIdx) :
    Pending fftSize { d with batch := d.batch ++ [readIdx] } (readIdx + fftSize) where
  processed := inv.processed
  index := inv.index
  batch := by
    simp only [List.length_append, List.length_singleton, consecutive_succ]
    rw [← inv.batch, inv.read]
  read := by
    simp only [List.length_append, List.length_singleton, inv.read, add_mul, one_mul, add_assoc]

theorem Pending.flush {d : Detector} {readIdx : Nat} (inv : Pending fftSize d readIdx)
    (ok : gpuOk d.gpuCalls = true) : Pending fftSize (gpuFlushBatch fftSize gpuOk d) readIdx := by
  unfold gpuFlushBatch
  split
  · exact inv
  · have fold := (congrArg (fun l => l.foldl (processFrame fftSize) d) inv.batch).trans
      (foldl_processFrame d d.batch.length)
    rw [fold]
    dsimp only
    have moved : d.index = 0 + d.processed.length * fftSize := by rw [inv.index, zero_add]
    refine ⟨?_, ?_, by simp [consecutive], ?_⟩
    · simp only [List.length_append, List.length_map, length_consecutive, consecutive_add,
        List.map_append]
      rw [← moved, ← inv.batch, ← inv.processed]
    · simp only [List.length_append, List.length_map, length_consecutive, add_mul, inv.index]
    · simp only [List.length_nil, zero_mul, add_zero]
      exact inv.read

/-! ### The accumulation loop -/

/-- The loop between turns, every flush so far a success: the cursors in step,
`read_idx` within the samples, and `sample_count` as the feed set it. -/
structure Accumulating (fftSize sampleCount : Nat) (st : Nat × Detector) : Prop where
  pending : Pending fftSize st.2 st.1
  within : st.1 ≤ sampleCount
  count : st.2.sampleCount = sampleCount

theorem sampleCount_accumulateStep (st : Nat × Detector) :
    (accumulateStep fftSize batchSize gpuOk st).2.sampleCount = st.2.sampleCount := by
  unfold accumulateStep
  dsimp only
  split
  · exact sampleCount_gpuFlushBatch _
  · rfl

theorem Accumulating.step {sampleCount : Nat} {st : Nat × Detector}
    (inv : Accumulating fftSize sampleCount st) (go : accumulateCond fftSize st = true)
    (flushOk : batchSize ≤ st.2.batch.length + 1 → gpuOk st.2.gpuCalls = true) :
    Accumulating fftSize sampleCount (accumulateStep fftSize batchSize gpuOk st) where
  pending := by
    unfold accumulateStep
    dsimp only
    split
    · rename_i full
      exact inv.pending.push.flush (flushOk (by simpa using full))
    · exact inv.pending.push
  within := by
    have room : st.1 + fftSize ≤ st.2.sampleCount := of_decide_eq_true go
    rw [inv.count] at room
    exact room
  count := (sampleCount_accumulateStep st).trans inv.count

/-- With `fft_size > 0` the loop ends within `sample_count + 1` turns, whatever
the GPU returns. -/
theorem accumulate_isSome (positive : 0 < fftSize) (d : Detector) :
    ∃ t, Loop.run (accumulateCond fftSize) (accumulateStep fftSize batchSize gpuOk) (d.sampleCount + 1)
      (d.index, d) = some t := by
  have lower : ∀ st : Nat × Detector, st.2.sampleCount = d.sampleCount → accumulateCond fftSize st = true →
      d.sampleCount + 1 - (accumulateStep fftSize batchSize gpuOk st).1 < d.sampleCount + 1 - st.1 := by
    intro st same go
    have room : st.1 + fftSize ≤ st.2.sampleCount := of_decide_eq_true go
    simp only [accumulateStep]
    omega
  exact Loop.run_isSome (fun st : Nat × Detector => st.2.sampleCount = d.sampleCount)
    (fun st same _ => (sampleCount_accumulateStep st).trans same) (fun st => d.sampleCount + 1 - st.1)
    lower rfl (by omega)

theorem gpuFeed_of_run {d : Detector} {numSamples : Nat} {t : Nat × Detector}
    (run : Loop.run (accumulateCond fftSize) (accumulateStep fftSize batchSize gpuOk)
      (d.sampleCount + numSamples + 1) (d.index, { d with sampleCount := d.sampleCount + numSamples }) = some t) :
    gpuFeed fftSize batchSize gpuOk d numSamples =
      some (if t.2.batch ≠ [] then gpuFlushBatch fftSize gpuOk t.2 else t.2) := by
  simp only [gpuFeed, run]
  rfl

/-- Where the loop of a feed from a detector in step ends: in step, with fewer
than `fft_size` samples after `read_idx`. -/
theorem accumulate_lockstep (positive : 0 < fftSize) (ok : ∀ k, gpuOk k = true) {d : Detector}
    (sync : Lockstep fftSize d) (numSamples : Nat) :
    ∃ t, Loop.run (accumulateCond fftSize) (accumulateStep fftSize batchSize gpuOk)
      (d.sampleCount + numSamples + 1) (d.index, { d with sampleCount := d.sampleCount + numSamples }) = some t ∧
      Accumulating fftSize (d.sampleCount + numSamples) t ∧ d.sampleCount + numSamples < t.1 + fftSize := by
  have behind := sync.behind
  obtain ⟨t, run⟩ := @accumulate_isSome fftSize batchSize gpuOk positive
    { d with sampleCount := d.sampleCount + numSamples }
  have start : Accumulating fftSize (d.sampleCount + numSamples)
      (d.index, { d with sampleCount := d.sampleCount + numSamples }) :=
    ⟨⟨sync.pending.processed, sync.pending.index, sync.pending.batch, sync.pending.read⟩, by simp only; omega, rfl⟩
  obtain ⟨inv, stop⟩ := Loop.run_invariant (Accumulating fftSize (d.sampleCount + numSamples))
    (fun st inv go => inv.step go (fun _ => ok _)) start run
  have past : ¬ t.1 + fftSize ≤ t.2.sampleCount := of_decide_eq_false stop
  rw [inv.count] at past
  exact ⟨t, run, inv, by omega⟩

/-- A loop that ended in step leaves, after the flush of the partial batch,
a detector in step. -/
theorem Accumulating.settle {sampleCount : Nat} {t : Nat × Detector} (inv : Accumulating fftSize sampleCount t)
    {d' : Detector} (flushed : Pending fftSize d' t.1) (empty : d'.batch = [])
    (count : d'.sampleCount = sampleCount) : Lockstep fftSize d' := by
  have at_read : t.1 = d'.index := by simpa [empty] using flushed.read
  exact ⟨at_read ▸ flushed, empty, by have := inv.within; omega⟩

/-- While the GPU succeeds, a feed keeps the detector in step and processes
every whole frame it brings. -/
theorem gpuFeed_lockstep (positive : 0 < fftSize) (ok : ∀ k, gpuOk k = true) {d : Detector}
    (sync : Lockstep fftSize d) (numSamples : Nat) :
    ∃ d', gpuFeed fftSize batchSize gpuOk d numSamples = some d' ∧ Lockstep fftSize d' ∧
      d'.sampleCount < d'.index + fftSize := by
  obtain ⟨t, run, inv, caught⟩ := accumulate_lockstep positive ok sync numSamples
  rw [gpuFeed_of_run run]
  refine ⟨_, rfl, ?_⟩
  split
  · have flushed := inv.pending.flush (ok t.2.gpuCalls)
    have settled := inv.settle flushed (batch_gpuFlushBatch _) ((sampleCount_gpuFlushBatch _).trans inv.count)
    have at_read : t.1 = (gpuFlushBatch fftSize gpuOk t.2).index := by
      simpa [batch_gpuFlushBatch] using flushed.read
    rw [sampleCount_gpuFlushBatch, inv.count, ← at_read]
    exact ⟨settled, caught⟩
  · rename_i empty
    have settled := inv.settle inv.pending (not_not.mp empty) inv.count
    have at_read : t.1 = t.2.index := by simpa [not_not.mp empty] using inv.pending.read
    rw [inv.count, ← at_read]
    exact ⟨settled, caught⟩

/-- While the GPU succeeds, every run of feeds from a new detector keeps the
cursors together: every frame before `d->index` processed once, in order, at
its own position, and every whole frame fed processed. -/
theorem gpuRun_lockstep (positive : 0 < fftSize) (ok : ∀ k, gpuOk k = true) (feeds : List Nat) :
    ∃ d, gpuRun fftSize batchSize gpuOk Detector.init feeds = some d ∧ Lockstep fftSize d ∧
      d.sampleCount < d.index + fftSize := by
  suffices run : ∀ d : Detector, Lockstep fftSize d → d.sampleCount < d.index + fftSize →
      ∃ d', gpuRun fftSize batchSize gpuOk d feeds = some d' ∧ Lockstep fftSize d' ∧
        d'.sampleCount < d'.index + fftSize from
    run _ (lockstep_init fftSize) (by simpa [Detector.init] using positive)
  induction feeds with
  | nil => exact fun d sync caught => ⟨d, rfl, sync, caught⟩
  | cons feed feeds ih =>
    intro d sync _
    obtain ⟨d', fed, sync', caught'⟩ := gpuFeed_lockstep positive ok sync feed
    obtain ⟨d'', rest, sync'', caught''⟩ := ih d' sync' caught'
    refine ⟨d'', ?_, sync'', caught''⟩
    rw [gpuRun, List.foldlM_cons, fed]
    exact rest

theorem gpuRun_lockstep_small :
    0 < 2 ∧ (∀ k, (fun _ => true : Nat → Bool) k = true) ∧
      ∃ d, gpuRun 2 2 (fun _ => true) Detector.init [5, 3] = some d ∧ Lockstep 2 d ∧ d.sampleCount < d.index + 2 :=
  ⟨by decide, fun _ => rfl, gpuRun_lockstep (by decide) (fun _ => rfl) [5, 3]⟩

/-- A loop that ended in step and whose partial batch the GPU drops leaves a
detector in step, with the batch's frames not yet processed. -/
theorem Accumulating.drop {sampleCount : Nat} {t : Nat × Detector} (inv : Accumulating fftSize sampleCount t)
    (behind : t.2.index ≤ sampleCount) :
    Lockstep fftSize { t.2 with batch := [], gpuCalls := t.2.gpuCalls + 1 } :=
  ⟨⟨inv.pending.processed, inv.pending.index, rfl, by simp⟩, rfl, by simpa [inv.count] using behind⟩

/-- A feed that brings fewer frames than fill a batch calls
`gpu_burst_fft_process` only for its partial batch, and leaves the detector in
step whatever that call returns: a failure drops frames that the next feed
reads again from `d->index`. -/
theorem gpuFeed_retry (positive : 0 < fftSize) {d : Detector} (sync : Lockstep fftSize d)
    {numSamples : Nat} (few : d.sampleCount + numSamples < d.index + batchSize * fftSize) :
    ∃ d', gpuFeed fftSize batchSize gpuOk d numSamples = some d' ∧ Lockstep fftSize d' := by
  have behind := sync.behind
  -- the loop only copies: no batch fills, so `d->index` and the log stay as they are
  let Quiet := fun st : Nat × Detector => Accumulating fftSize (d.sampleCount + numSamples) st ∧
    st.2.index = d.index ∧ st.2.processed = d.processed
  have step : ∀ st, Quiet st → accumulateCond fftSize st = true →
      Quiet (accumulateStep fftSize batchSize gpuOk st) := by
    rintro st ⟨inv, index, processed⟩ go
    have room : st.1 + fftSize ≤ st.2.sampleCount := of_decide_eq_true go
    have read := inv.pending.read
    rw [inv.count] at room
    have short : st.2.batch.length + 1 < batchSize := by
      have frames : (st.2.batch.length + 1) * fftSize < batchSize * fftSize := by
        rw [add_mul, one_mul]
        omega
      exact Nat.lt_of_mul_lt_mul_right frames
    have copied : accumulateStep fftSize batchSize gpuOk st =
        (st.1 + fftSize, { st.2 with batch := st.2.batch ++ [st.1] }) := by
      simp only [accumulateStep, List.length_append, List.length_singleton, not_le.mpr short, if_false]
    refine ⟨inv.step go (fun full => absurd full (by omega)), ?_, ?_⟩
    · rw [copied]
      exact index
    · rw [copied]
      exact processed
  obtain ⟨t, run⟩ := @accumulate_isSome fftSize batchSize gpuOk positive
    { d with sampleCount := d.sampleCount + numSamples }
  have start : Quiet (d.index, { d with sampleCount := d.sampleCount + numSamples }) :=
    ⟨⟨⟨sync.pending.processed, sync.pending.index, sync.pending.batch, sync.pending.read⟩, by simp only; omega, rfl⟩,
      rfl, rfl⟩
  obtain ⟨⟨inv, index, -⟩, -⟩ := Loop.run_invariant Quiet step start run
  have behind' : t.2.index ≤ d.sampleCount + numSamples := by omega
  rw [gpuFeed_of_run run]
  refine ⟨_, rfl, ?_⟩
  split
  · cases result : gpuOk t.2.gpuCalls with
    | true =>
      exact inv.settle (inv.pending.flush result) (batch_gpuFlushBatch _)
        ((sampleCount_gpuFlushBatch _).trans inv.count)
    | false =>
      rename_i nonempty
      rw [gpuFlushBatch_of_failure result, if_neg nonempty]
      exact inv.drop behind'
  · rename_i empty
    exact inv.settle inv.pending (not_not.mp empty) inv.count

end Lockstep

/-- Two feeds at `fft_size = 8192` and `gpu_batch_size = 16`, of 32 and 16
frames, with the first call of `gpu_burst_fft_process` failing. -/
def failedFirstBatch : Option Detector :=
  gpuRun 8192 16 (fun k => decide (k ≠ 0)) Detector.init [32 * 8192, 16 * 8192]

/-- After the failed first batch, frames 16 to 31 are processed while
`d->index` is at frames 0 to 15, and again at their own positions in the second
feed; frames 0 to 15 are never processed, though `d->index` ends at frame 48. -/
theorem gpu_failure_desyncs_cursors :
    failedFirstBatch.map (fun d => d.processed.take 16) =
        some ((List.range 16).map fun k => (k * 8192, (16 + k) * 8192)) ∧
      failedFirstBatch.map (fun d => (d.processed.map Prod.snd).count (16 * 8192)) = some 2 ∧
      failedFirstBatch.map (fun d => decide (0 ∈ d.processed.map Prod.snd)) = some false ∧
      failedFirstBatch.map Detector.index = some (48 * 8192) := by
  decide +kernel

end IridiumSniffer.Burst
