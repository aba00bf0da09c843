import Mathlib

/-! The burst tracker of `burst_detect.c`, the state machine that
`process_fft_frame` and `process_magnitude_frame` run on each FFT frame: the
noise baseline over the last `history_size` quiet frames, the active bursts
with the frequency mask around them, the peaks above threshold, the bursts that
end, and the squelch that drops everything when too many are active. Floats
are exact in an ordered field `K`; the per-bin arrays are functions of the bin.
The dB figures a burst carries, made with `log10f`, steer nothing and are left
out. -/
namespace IridiumSniffer.BurstTrack

/-- The fields of `burst_detector_t` that `burst_detector_create` sets and the
tracker only reads. -/
structure Config (K : Type) where
  fftSize : Nat
  burstPreLen : Nat
  burstPostLen : Nat
  burstWidth : Nat
  maxBursts : Nat
  maxBurstLen : Nat
  threshold : K
  historySize : Nat
  historySize_pos : 0 < historySize

/-- `active_burst_t` without its dB fields. -/
structure ActiveBurst where
  id : UInt64
  start : UInt64
  stop : UInt64
  lastActive : UInt64
  centerBin : Nat
deriving DecidableEq, Repr

structure Peak (K : Type) where
  bin : Nat
  relativeMagnitude : K

/-- The tracking state of `burst_detector_t`. -/
structure Tracker (K : Type) where
  magnitudeShifted : Nat → K
  relativeMagnitude : Nat → K
  burstMask : Nat → K
  baselineHistory : Nat → Nat → K
  baselineSum : Nat → K
  historyIndex : Nat
  historyPrimed : Bool
  bursts : List ActiveBurst
  goneBursts : List ActiveBurst
  peaks : List (Peak K)
  burstId : UInt64
  index : UInt64
  squelchCount : Nat

variable {K : Type} [Field K] [LinearOrder K] (cfg : Config K)

/-- The tracker as `burst_detector_create` leaves it. -/
def Tracker.init : Tracker K :=
  ⟨fun _ => 0, fun _ => 0, fun _ => 1, fun _ _ => 0, fun _ => 0, 0, false, [], [], [], 0, 0, 0⟩

/-- `update_filters_pre` with `generic_relative_mag`: nothing before the
history is primed, else each bin over its baseline. -/
def updateFiltersPre (d : Tracker K) : Option (Tracker K) :=
  if d.historyPrimed then
    some { d with relativeMagnitude := fun i =>
      if 0 < d.baselineSum i then d.magnitudeShifted i / d.baselineSum i else 0 }
  else none

/-- `update_filters_post`: while no burst is active, or when forced, the frame
replaces the oldest row of the history and the running sum follows. -/
def updateFiltersPost (force : Bool) (d : Tracker K) : Tracker K :=
  if d.bursts.length = 0 ∨ force = true then
    let sum := fun i => d.baselineSum i - d.baselineHistory d.historyIndex i + d.magnitudeShifted i
    let history := Function.update d.baselineHistory d.historyIndex d.magnitudeShifted
    if d.historyIndex + 1 = cfg.historySize then
      { d with baselineSum := sum, baselineHistory := history, historyPrimed := true, historyIndex := 0 }
    else { d with baselineSum := sum, baselineHistory := history, historyIndex := d.historyIndex + 1 }
  else d

/-- The test of `update_bursts`: the center bin or a neighbour above threshold. -/
def binActive (rel : Nat → K) (cb : Nat) : Prop :=
  (0 < cb ∧ rel (cb - 1) > cfg.threshold) ∨ rel cb > cfg.threshold ∨
    (cb + 1 < cfg.fftSize ∧ rel (cb + 1) > cfg.threshold)

instance (rel : Nat → K) (cb : Nat) : Decidable (binActive cfg rel cb) := by
  unfold binActive
  infer_instance

def updateBursts (d : Tracker K) : Tracker K :=
  { d with bursts := d.bursts.map fun b =>
      if binActive cfg d.relativeMagnitude b.centerBin then { b with lastActive := d.index } else b }

/-- The bins `mask_burst` clears for a burst at `cb`, clamped to the FFT. -/
def Covers (cb j : Nat) : Prop :=
  cb - cfg.burstWidth / 2 ≤ j ∧ j ≤ min (cb + cfg.burstWidth / 2) (cfg.fftSize - 1)

instance (cb j : Nat) : Decidable (Covers cfg cb j) := by
  unfold Covers
  infer_instance

def maskBurst (mask : Nat → K) (b : ActiveBurst) : Nat → K :=
  fun j => if Covers cfg b.centerBin j then 0 else mask j

def updateBurstMask (d : Tracker K) : Tracker K :=
  { d with burstMask := d.bursts.foldl (maskBurst cfg) fun _ => 1 }

def removePeaksAroundBursts (d : Tracker K) : Tracker K :=
  { d with relativeMagnitude := fun i => d.relativeMagnitude i * d.burstMask i }

/-- The bins `extract_peaks` looks at: `half_bw <= bin < fft_size - half_bw`,
outside the DC notch of three bins either side of `fft_size / 2`. -/
def InBand (bin : Nat) : Prop :=
  cfg.burstWidth / 2 ≤ bin ∧ bin + cfg.burstWidth / 2 < cfg.fftSize ∧
    ¬ (cfg.fftSize / 2 - 3 ≤ bin ∧ bin ≤ cfg.fftSize / 2 + 3)

instance (bin : Nat) : Decidable (InBand cfg bin) := by
  unfold InBand
  infer_instance

/-- `peak_cmp_desc` for a stable sort: the larger relative magnitude first. -/
def peakFirst (a b : Peak K) : Bool := decide (b.relativeMagnitude ≤ a.relativeMagnitude)

/-- `extract_peaks`: the bins above threshold in band, largest first. `qsort`
leaves the order of equal magnitudes open; the merge sort keeps bin order. -/
def extractPeaks (d : Tracker K) : Tracker K :=
  let half := cfg.burstWidth / 2
  let bins := (List.range' half (cfg.fftSize - half - half)).filter fun bin =>
    decide (¬ (cfg.fftSize / 2 - 3 ≤ bin ∧ bin ≤ cfg.fftSize / 2 + 3)) && decide (d.relativeMagnitude bin > cfg.threshold)
  { d with peaks := (bins.map fun bin => ⟨bin, d.relativeMagnitude bin⟩).mergeSort peakFirst }

/-- The body of the loop of `delete_gone_bursts` over the bursts from one on:
the bursts kept, those that end with `stop = index`, and whether one ran past
`max_burst_len`. -/
def deleteLoop (index : UInt64) : List ActiveBurst → List ActiveBurst × List ActiveBurst × Bool
  | [] => ([], [], false)
  | b :: rest =>
    let long := decide (0 < cfg.maxBurstLen) && decide (UInt64.ofNat cfg.maxBurstLen < b.lastActive - b.start)
    let after := deleteLoop index rest
    if b.lastActive + UInt64.ofNat cfg.burstPostLen ≤ index ∨ long = true then
      (after.1, { b with stop := index } :: after.2.1, long || after.2.2)
    else (b :: after.1, after.2.1, long || after.2.2)

def deleteGoneBursts (d : Tracker K) : Tracker K :=
  let result := deleteLoop cfg d.index d.bursts
  let d' := { d with bursts := result.1, goneBursts := d.goneBursts ++ result.2.1 }
  if result.2.2 then updateFiltersPost cfg true d' else d'

/-- One turn of the peak loop of `create_new_bursts`: a peak outside the mask
opens a burst that starts `burst_pre_len` before the frame, and masks its bins. -/
def createBurst (d : Tracker K) (p : Peak K) : Tracker K :=
  if d.burstMask p.bin = 0 then d
  else
    let b : ActiveBurst := ⟨d.burstId, d.index - UInt64.ofNat cfg.burstPreLen, 0,
      d.index - UInt64.ofNat cfg.burstPreLen, p.bin⟩
    { d with burstId := d.burstId + 10, bursts := d.bursts ++ [b], burstMask := maskBurst cfg d.burstMask b }

/-- The squelch of `create_new_bursts`: above `max_bursts` the bursts of earlier
frames end now, those of this frame are dropped, and every third squelch in a
row resets the noise estimate. -/
def squelch (d : Tracker K) : Tracker K :=
  if 0 < cfg.maxBursts ∧ cfg.maxBursts < d.bursts.length then
    let fresh := d.index - UInt64.ofNat cfg.burstPreLen
    let ended := (d.bursts.filter fun b => b.start ≠ fresh).map fun b => { b with stop := d.index }
    let d' := updateBurstMask cfg { d with goneBursts := d.goneBursts ++ ended, bursts := [] }
    if 10 ≤ d'.squelchCount + 3 then
      { d' with
        historyIndex := 0
        historyPrimed := false
        baselineHistory := fun _ _ => 0
        baselineSum := fun _ => 0
        squelchCount := 0 }
    else { d' with squelchCount := d'.squelchCount + 3 }
  else { d with squelchCount := d.squelchCount - 1 }

def createNewBursts (d : Tracker K) : Tracker K :=
  squelch cfg (d.peaks.foldl (createBurst cfg) d)

/-- `process_fft_frame` after the FFT, or `process_magnitude_frame`, on the
magnitudes `mag` of one frame. -/
def processFrame (mag : Nat → K) (d : Tracker K) : Tracker K :=
  let d := { d with magnitudeShifted := mag }
  let d := match updateFiltersPre d with
    | some d => createNewBursts cfg (updateBurstMask cfg (deleteGoneBursts cfg (extractPeaks cfg
        (removePeaksAroundBursts (updateBursts cfg d)))))
    | none => d
  updateFiltersPost cfg false d

/-- One turn of the frame loop of `burst_detector_feed`: the frame, then
`d->index += d->fft_size`. -/
def frameStep (d : Tracker K) (mag : Nat → K) : Tracker K :=
  let next := processFrame cfg mag d
  { next with index := next.index + UInt64.ofNat cfg.fftSize }

def runFrames (d : Tracker K) (frames : List (Nat → K)) : Tracker K :=
  frames.foldl (frameStep cfg) d

/-! ### The invariant -/

/-- Two center bins more than half a burst width apart. -/
def Apart (a b : Nat) : Prop := a + cfg.burstWidth / 2 < b ∨ b + cfg.burstWidth / 2 < a

/-- Center bins pairwise apart, each in the band `extract_peaks` searches. -/
def Separated (bins : List Nat) : Prop :=
  bins.Pairwise (Apart cfg) ∧ ∀ c ∈ bins, InBand cfg c

/-- The running sum is the sum of the rows of the history. -/
def Baseline (d : Tracker K) : Prop :=
  d.historyIndex < cfg.historySize ∧
    ∀ i, d.baselineSum i = ∑ k ∈ Finset.range cfg.historySize, d.baselineHistory k i

def centerBins (d : Tracker K) : List Nat := d.bursts.map ActiveBurst.centerBin

structure Tracking (d : Tracker K) : Prop where
  baseline : Baseline cfg d
  separated : Separated cfg (centerBins d)
  unprimed : d.historyPrimed = false → d.bursts = []
  count : 0 < cfg.maxBursts → d.bursts.length ≤ cfg.maxBursts
  squelch : d.squelchCount < 10

omit [LinearOrder K] in
theorem tracking_init : Tracking cfg (Tracker.init : Tracker K) :=
  ⟨⟨cfg.historySize_pos, fun _ => by simp [Tracker.init]⟩, ⟨List.Pairwise.nil, nofun⟩, fun _ => rfl,
    fun _ => Nat.zero_le _, by simp [Tracker.init]⟩

/-! ### The noise history -/

section History

variable {cfg}

omit [LinearOrder K] in
theorem sum_update_row (d : Tracker K) (i : Nat) (below : d.historyIndex < cfg.historySize) :
    ∑ k ∈ Finset.range cfg.historySize, Function.update d.baselineHistory d.historyIndex d.magnitudeShifted k i =
      (∑ k ∈ Finset.range cfg.historySize, d.baselineHistory k i) - d.baselineHistory d.historyIndex i +
        d.magnitudeShifted i := by
  have mem : d.historyIndex ∈ Finset.range cfg.historySize := Finset.mem_range.mpr below
  have new := Finset.add_sum_erase (Finset.range cfg.historySize)
    (fun k => Function.update d.baselineHistory d.historyIndex d.magnitudeShifted k i) mem
  have old := Finset.add_sum_erase (Finset.range cfg.historySize) (fun k => d.baselineHistory k i) mem
  have rest : ∑ k ∈ (Finset.range cfg.historySize).erase d.historyIndex,
      Function.update d.baselineHistory d.historyIndex d.magnitudeShifted k i =
        ∑ k ∈ (Finset.range cfg.historySize).erase d.historyIndex, d.baselineHistory k i :=
    Finset.sum_congr rfl fun k other => by rw [Function.update_of_ne (Finset.ne_of_mem_erase other)]
  simp only [Function.update_self] at new
  rw [← new, ← old, rest]
  ring

omit [LinearOrder K] in
theorem Baseline.updateFiltersPost {d : Tracker K} (h : Baseline cfg d) (force : Bool) :
    Baseline cfg (updateFiltersPost cfg force d) := by
  have replaced : ∀ i, d.baselineSum i - d.baselineHistory d.historyIndex i + d.magnitudeShifted i =
      ∑ k ∈ Finset.range cfg.historySize, Function.update d.baselineHistory d.historyIndex d.magnitudeShifted k i := by
    intro i
    rw [sum_update_row d i h.1, h.2 i]
  unfold IridiumSniffer.BurstTrack.updateFiltersPost
  dsimp only
  split
  · split
    · exact ⟨cfg.historySize_pos, replaced⟩
    · exact ⟨show d.historyIndex + 1 < cfg.historySize by have := h.1; omega, replaced⟩
  · exact h

omit [LinearOrder K] in
variable (cfg) in
theorem bursts_updateFiltersPost (force : Bool) (d : Tracker K) :
    (updateFiltersPost cfg force d).bursts = d.bursts := by
  unfold IridiumSniffer.BurstTrack.updateFiltersPost
  split
  · split <;> rfl
  · rfl

omit [LinearOrder K] in
variable (cfg) in
theorem squelchCount_updateFiltersPost (force : Bool) (d : Tracker K) :
    (updateFiltersPost cfg force d).squelchCount = d.squelchCount := by
  unfold IridiumSniffer.BurstTrack.updateFiltersPost
  split
  · split <;> rfl
  · rfl

omit [LinearOrder K] in
variable (cfg) in
theorem peaks_updateFiltersPost (force : Bool) (d : Tracker K) :
    (updateFiltersPost cfg force d).peaks = d.peaks := by
  unfold IridiumSniffer.BurstTrack.updateFiltersPost
  split
  · split <;> rfl
  · rfl

omit [LinearOrder K] in
theorem historyPrimed_updateFiltersPost (force : Bool) (d : Tracker K) (unprimed : (updateFiltersPost cfg force d).historyPrimed = false) :
    d.historyPrimed = false := by
  unfold IridiumSniffer.BurstTrack.updateFiltersPost at unprimed
  split at unprimed
  · split at unprimed
    · cases unprimed
    · exact unprimed
  · exact unprimed

end History

/-! ### The mask and the peaks -/

section Mask

variable {cfg}

omit [LinearOrder K] in
theorem foldl_maskBurst_ne_zero (bs : List ActiveBurst) (mask : Nat → K) (j : Nat)
    (unmasked : (bs.foldl (maskBurst cfg) mask) j ≠ 0) : mask j ≠ 0 ∧ ∀ b ∈ bs, ¬ Covers cfg b.centerBin j := by
  induction bs generalizing mask with
  | nil => exact ⟨unmasked, nofun⟩
  | cons b bs ih =>
    obtain ⟨masked, rest⟩ := ih (maskBurst cfg mask b) unmasked
    unfold maskBurst at masked
    split at masked
    · exact absurd rfl masked
    · rename_i uncovered
      refine ⟨masked, fun b' mem => ?_⟩
      rcases List.mem_cons.mp mem with rfl | later
      · exact uncovered
      · exact rest b' later

omit [LinearOrder K] in
theorem updateBurstMask_ne_zero (d : Tracker K) {j : Nat} (unmasked : (updateBurstMask cfg d).burstMask j ≠ 0) :
    ∀ b ∈ d.bursts, ¬ Covers cfg b.centerBin j :=
  (foldl_maskBurst_ne_zero d.bursts _ j unmasked).2

omit [Field K] [LinearOrder K] in
theorem apart_of_not_covers {cb p : Nat} (band : InBand cfg p) (uncovered : ¬ Covers cfg cb p) : Apart cfg cb p := by
  unfold Covers at uncovered
  unfold InBand at band
  unfold Apart
  omega

omit [Field K] [LinearOrder K] in
theorem Separated.sublist {bins bins' : List Nat} (h : Separated cfg bins) (sub : bins'.Sublist bins) :
    Separated cfg bins' :=
  ⟨h.1.sublist sub, fun c mem => h.2 c (sub.subset mem)⟩

omit [Field K] in
theorem inBand_of_mem_extractPeaks {d : Tracker K} {p : Peak K} (mem : p ∈ (extractPeaks cfg d).peaks) :
    InBand cfg p.bin := by
  simp only [extractPeaks, List.mem_mergeSort, List.mem_map, List.mem_filter, List.mem_range'_1,
    Bool.and_eq_true, decide_eq_true_eq] at mem
  obtain ⟨bin, ⟨⟨low, high⟩, notch, _⟩, rfl⟩ := mem
  refine ⟨low, ?_, notch⟩
  dsimp only
  omega

omit [Field K] [LinearOrder K] in
theorem Separated.length_le {bins : List Nat} (h : Separated cfg bins) : bins.length ≤ cfg.fftSize := by
  have distinct : bins.Nodup := h.1.imp fun apart same => by
    subst same
    unfold Apart at apart
    omega
  have below : bins.toFinset ⊆ Finset.range cfg.fftSize := by
    intro c mem
    have band := h.2 c (List.mem_toFinset.mp mem)
    unfold InBand at band
    exact Finset.mem_range.mpr (by omega)
  calc bins.length = bins.toFinset.card := (List.toFinset_card_of_nodup distinct).symm
    _ ≤ (Finset.range cfg.fftSize).card := Finset.card_le_card below
    _ = cfg.fftSize := Finset.card_range _

end Mask

/-! ### The peak loop -/

/-- What the peak loop of `create_new_bursts` keeps: the bursts separated and in
band, and the mask nonzero only off every burst. -/
def Spread (d : Tracker K) : Prop :=
  Separated cfg (centerBins d) ∧ ∀ j, d.burstMask j ≠ 0 → ∀ b ∈ d.bursts, ¬ Covers cfg b.centerBin j

section Create

variable {cfg}

theorem Spread.createBurst {d : Tracker K} (h : Spread cfg d) {p : Peak K} (band : InBand cfg p.bin) :
    Spread cfg (createBurst cfg d p) := by
  unfold IridiumSniffer.BurstTrack.createBurst
  split
  · exact h
  rename_i unmasked
  dsimp only
  obtain ⟨⟨pairwise, inBand⟩, masked⟩ := h
  -- the new burst sits at `p.bin`, which no earlier burst covers
  have fresh : ∀ c ∈ centerBins d, Apart cfg c p.bin := by
    intro c mem
    obtain ⟨b, held, rfl⟩ := List.mem_map.mp mem
    exact apart_of_not_covers band (masked p.bin unmasked b held)
  refine ⟨⟨?_, ?_⟩, ?_⟩
  · simp only [centerBins, List.map_append, List.map_cons, List.map_nil]
    rw [List.pairwise_append]
    refine ⟨pairwise, List.pairwise_singleton _ _, fun c mem q same => ?_⟩
    rw [List.mem_singleton.mp same]
    exact fresh c mem
  · simp only [centerBins, List.map_append, List.map_cons, List.map_nil]
    intro c mem
    rcases List.mem_append.mp mem with old | new
    · exact inBand c old
    · rw [List.mem_singleton.mp new]
      exact band
  · intro j open_j b mem
    simp only [maskBurst] at open_j
    split at open_j
    · exact absurd rfl open_j
    rename_i uncovered
    rcases List.mem_append.mp mem with old | new
    · exact masked j open_j b old
    · rw [List.mem_singleton.mp new]
      exact uncovered

theorem Spread.foldl_createBurst {d : Tracker K} (h : Spread cfg d) (peaks : List (Peak K))
    (band : ∀ p ∈ peaks, InBand cfg p.bin) : Spread cfg (peaks.foldl (BurstTrack.createBurst cfg) d) := by
  induction peaks generalizing d with
  | nil => exact h
  | cons p peaks ih =>
    exact ih (h.createBurst (band p List.mem_cons_self)) fun q mem => band q (List.mem_cons_of_mem p mem)

variable (cfg) in
theorem foldl_createBurst_eq (peaks : List (Peak K)) (d : Tracker K) :
    ∃ id bursts mask, peaks.foldl (createBurst cfg) d = { d with burstId := id, bursts := bursts, burstMask := mask } := by
  induction peaks generalizing d with
  | nil => exact ⟨d.burstId, d.bursts, d.burstMask, rfl⟩
  | cons p peaks ih =>
    have step : ∃ id bursts mask, createBurst cfg d p = { d with burstId := id, bursts := bursts, burstMask := mask } := by
      unfold IridiumSniffer.BurstTrack.createBurst
      split
      · exact ⟨d.burstId, d.bursts, d.burstMask, rfl⟩
      · exact ⟨_, _, _, rfl⟩
    obtain ⟨id, bursts, mask, first⟩ := step
    obtain ⟨id', bursts', mask', rest⟩ := ih { d with burstId := id, bursts := bursts, burstMask := mask }
    rw [List.foldl_cons, first, rest]
    exact ⟨id', bursts', mask', rfl⟩

end Create

/-! ### Ending bursts and the squelch -/

section Delete

variable {cfg}

omit [Field K] [LinearOrder K] in
theorem deleteLoop_sublist (index : UInt64) (bs : List ActiveBurst) : (deleteLoop cfg index bs).1.Sublist bs := by
  induction bs with
  | nil => exact List.Sublist.slnil
  | cons b bs ih =>
    unfold deleteLoop
    dsimp only
    split
    · exact ih.cons b
    · exact ih.cons_cons b

omit [LinearOrder K] in
variable (cfg) in
theorem centerBins_deleteGoneBursts (d : Tracker K) :
    (centerBins (deleteGoneBursts cfg d)).Sublist (centerBins d) := by
  have kept : (deleteGoneBursts cfg d).bursts = (deleteLoop cfg d.index d.bursts).1 := by
    unfold IridiumSniffer.BurstTrack.deleteGoneBursts
    dsimp only
    split
    · exact bursts_updateFiltersPost cfg true _
    · rfl
  unfold centerBins
  rw [kept]
  exact (deleteLoop_sublist d.index d.bursts).map _

omit [LinearOrder K] in
theorem Baseline.deleteGoneBursts {d : Tracker K} (h : Baseline cfg d) : Baseline cfg (deleteGoneBursts cfg d) := by
  unfold IridiumSniffer.BurstTrack.deleteGoneBursts
  dsimp only
  split
  · apply Baseline.updateFiltersPost
    exact h
  · exact h

omit [LinearOrder K] in
variable (cfg) in
theorem squelchCount_deleteGoneBursts (d : Tracker K) : (deleteGoneBursts cfg d).squelchCount = d.squelchCount := by
  unfold IridiumSniffer.BurstTrack.deleteGoneBursts
  dsimp only
  split
  · exact squelchCount_updateFiltersPost cfg true _
  · rfl

omit [LinearOrder K] in
variable (cfg) in
theorem peaks_deleteGoneBursts (d : Tracker K) : (deleteGoneBursts cfg d).peaks = d.peaks := by
  unfold IridiumSniffer.BurstTrack.deleteGoneBursts
  dsimp only
  split
  · exact peaks_updateFiltersPost cfg true _
  · rfl

omit [LinearOrder K] in
theorem historyPrimed_deleteGoneBursts (d : Tracker K)
    (unprimed : (deleteGoneBursts cfg d).historyPrimed = false) : d.historyPrimed = false := by
  unfold IridiumSniffer.BurstTrack.deleteGoneBursts at unprimed
  dsimp only at unprimed
  split at unprimed
  · have before := historyPrimed_updateFiltersPost true _ unprimed
    exact before
  · exact unprimed

end Delete

section Squelch

variable {cfg}

omit [LinearOrder K] in
theorem Baseline.squelch {d : Tracker K} (h : Baseline cfg d) : Baseline cfg (squelch cfg d) := by
  unfold IridiumSniffer.BurstTrack.squelch
  dsimp only [updateBurstMask]
  split
  · split
    · -- the reset clears the history and its sum together
      exact ⟨cfg.historySize_pos, fun _ => by simp⟩
    · exact h
  · exact h

omit [LinearOrder K] in
theorem squelchCount_squelch {d : Tracker K} (below : d.squelchCount < 10) : (squelch cfg d).squelchCount < 10 := by
  unfold IridiumSniffer.BurstTrack.squelch
  dsimp only [updateBurstMask]
  split
  · split
    · exact Nat.zero_lt_succ 9
    · dsimp only
      omega
  · dsimp only
    omega

omit [LinearOrder K] in
theorem length_squelch (d : Tracker K) (limit : 0 < cfg.maxBursts) : (squelch cfg d).bursts.length ≤ cfg.maxBursts := by
  unfold IridiumSniffer.BurstTrack.squelch
  dsimp only [updateBurstMask]
  split
  · split <;> exact Nat.zero_le _
  · dsimp only
    omega

omit [LinearOrder K] in
variable (cfg) in
theorem squelch_bursts (d : Tracker K) :
    (squelch cfg d).bursts = [] ∨
      (squelch cfg d).bursts = d.bursts ∧ (squelch cfg d).historyPrimed = d.historyPrimed := by
  unfold IridiumSniffer.BurstTrack.squelch
  dsimp only [updateBurstMask]
  split
  · left
    split <;> rfl
  · exact Or.inr ⟨rfl, rfl⟩

end Squelch

/-! ### One frame and a run -/

section Frame

variable {cfg}

omit [Field K] in
theorem centerBins_updateBursts (d : Tracker K) : centerBins (updateBursts cfg d) = centerBins d := by
  unfold centerBins updateBursts
  rw [List.map_map]
  apply List.map_congr_left
  intro b _
  dsimp only [Function.comp]
  split <;> rfl

theorem updateFiltersPre_eq_some {d d₁ : Tracker K} (pre : updateFiltersPre d = some d₁) :
    d.historyPrimed = true ∧ ∃ rel, d₁ = { d with relativeMagnitude := rel } := by
  unfold updateFiltersPre at pre
  split at pre
  · exact ⟨‹_›, _, (Option.some.inj pre).symm⟩
  · cases pre

theorem Tracking.detect {d : Tracker K} (h : Tracking cfg d) (primed : d.historyPrimed = true) :
    Tracking cfg (createNewBursts cfg (updateBurstMask cfg (deleteGoneBursts cfg (extractPeaks cfg
      (removePeaksAroundBursts (updateBursts cfg d)))))) := by
  -- the stages before `delete_gone_bursts` touch the bursts' activity, the magnitudes and the peaks only
  set d₄ := extractPeaks cfg (removePeaksAroundBursts (updateBursts cfg d))
  set d₅ := deleteGoneBursts cfg d₄
  set d₆ := updateBurstMask cfg d₅
  have bins₄ : centerBins d₄ = centerBins d := centerBins_updateBursts d
  have spread : Spread cfg d₆ := by
    refine ⟨?_, fun j unmasked => updateBurstMask_ne_zero d₅ unmasked⟩
    have sub := centerBins_deleteGoneBursts cfg d₄
    rw [bins₄] at sub
    exact h.separated.sublist sub
  have band : ∀ p ∈ d₆.peaks, InBand cfg p.bin := by
    intro p mem
    have mem₄ : p ∈ d₄.peaks := by
      rw [← peaks_deleteGoneBursts cfg d₄]
      exact mem
    exact inBand_of_mem_extractPeaks mem₄
  have spread₇ := spread.foldl_createBurst d₆.peaks band
  obtain ⟨id, bursts, mask, eq₇⟩ := foldl_createBurst_eq cfg d₆.peaks d₆
  have base₇ : Baseline cfg (d₆.peaks.foldl (createBurst cfg) d₆) := by
    rw [eq₇]
    exact (show Baseline cfg d₄ from h.baseline).deleteGoneBursts
  have primed₅ : d₅.historyPrimed = true := by
    cases unprimed : d₅.historyPrimed
    · have before : d.historyPrimed = false := historyPrimed_deleteGoneBursts d₄ unprimed
      rw [primed] at before
      cases before
    · rfl
  have primed₇ : (d₆.peaks.foldl (createBurst cfg) d₆).historyPrimed = true := by
    rw [eq₇]
    exact primed₅
  have count₇ : (d₆.peaks.foldl (createBurst cfg) d₆).squelchCount < 10 := by
    rw [eq₇]
    show d₅.squelchCount < 10
    rw [squelchCount_deleteGoneBursts]
    exact h.squelch
  refine ⟨base₇.squelch, ?_, ?_, fun limit => length_squelch _ limit, squelchCount_squelch count₇⟩
  · rcases squelch_bursts cfg (d₆.peaks.foldl (createBurst cfg) d₆) with dropped | ⟨kept, _⟩
    · unfold createNewBursts centerBins
      rw [dropped]
      exact ⟨List.Pairwise.nil, nofun⟩
    · unfold createNewBursts centerBins
      rw [kept]
      exact spread₇.1
  · intro unprimed
    rcases squelch_bursts cfg (d₆.peaks.foldl (createBurst cfg) d₆) with dropped | ⟨_, same⟩
    · exact dropped
    · unfold createNewBursts at unprimed
      rw [same, primed₇] at unprimed
      cases unprimed

omit [LinearOrder K] in
theorem Tracking.updateFiltersPost {d : Tracker K} (h : Tracking cfg d) (force : Bool) :
    Tracking cfg (updateFiltersPost cfg force d) := by
  have bursts := bursts_updateFiltersPost cfg force d
  refine ⟨h.baseline.updateFiltersPost force, ?_, fun unprimed => ?_, fun limit => ?_, ?_⟩
  · unfold centerBins
    rw [bursts]
    exact h.separated
  · rw [bursts]
    exact h.unprimed (historyPrimed_updateFiltersPost force d unprimed)
  · rw [bursts]
    exact h.count limit
  · rw [squelchCount_updateFiltersPost]
    exact h.squelch

theorem Tracking.processFrame {d : Tracker K} (h : Tracking cfg d) (mag : Nat → K) :
    Tracking cfg (processFrame cfg mag d) := by
  unfold IridiumSniffer.BurstTrack.processFrame
  dsimp only
  apply Tracking.updateFiltersPost
  -- the invariant reads neither the magnitudes nor the relative magnitudes
  have loaded : Tracking cfg { d with magnitudeShifted := mag } :=
    ⟨h.baseline, h.separated, h.unprimed, h.count, h.squelch⟩
  split
  · rename_i pre
    obtain ⟨primed, rel, rfl⟩ := updateFiltersPre_eq_some pre
    exact Tracking.detect ⟨loaded.baseline, loaded.separated, loaded.unprimed, loaded.count, loaded.squelch⟩ primed
  · exact loaded

theorem Tracking.frameStep {d : Tracker K} (h : Tracking cfg d) (mag : Nat → K) :
    Tracking cfg (frameStep cfg d mag) :=
  have next := h.processFrame mag
  ⟨next.baseline, next.separated, next.unprimed, next.count, next.squelch⟩

theorem Tracking.runFrames {d : Tracker K} (h : Tracking cfg d) (frames : List (Nat → K)) :
    Tracking cfg (runFrames cfg d frames) := by
  induction frames generalizing d with
  | nil => exact h
  | cons mag frames ih => exact ih (h.frameStep mag)

end Frame

theorem tracking_runFrames (frames : List (Nat → K)) : Tracking cfg (runFrames cfg Tracker.init frames) :=
  (tracking_init cfg).runFrames frames

/-! ### Every run from the start -/

/-- The defaults of `burst_detector_create` at 10 MHz: an 8192-point FFT, a
pre-length of `2 * fft_size`, a post-length of 16 ms, 40 kHz or 32 bins of
burst width, 200 bursts, 90 ms bursts and 512 frames of history, with the
threshold of 16 dB rounded. -/
def defaultConfig : Config ℚ := ⟨8192, 16384, 160000, 32, 200, 900000, 452 / 10000, 512, by decide⟩

/-- Active bursts lie in the band `extract_peaks` searches, outside the DC notch,
with their center bins pairwise more than half a burst width apart. -/
theorem runFrames_bursts_separated (frames : List (Nat → K)) :
    Separated cfg (centerBins (runFrames cfg Tracker.init frames)) :=
  (tracking_runFrames cfg frames).separated

/-- Even with `max_bursts` zero, which turns the squelch off, there are at most
`fft_size` active bursts. -/
theorem runFrames_bursts_le_fftSize (frames : List (Nat → K)) :
    (runFrames cfg Tracker.init frames).bursts.length ≤ cfg.fftSize := by
  have bound := (tracking_runFrames cfg frames).separated.length_le
  unfold centerBins at bound
  rw [List.length_map] at bound
  exact bound

/-- No burst is active while the noise history is not yet primed. -/
theorem runFrames_bursts_of_unprimed (frames : List (Nat → K))
    (unprimed : (runFrames cfg Tracker.init frames).historyPrimed = false) :
    (runFrames cfg Tracker.init frames).bursts = [] :=
  (tracking_runFrames cfg frames).unprimed unprimed

theorem runFrames_bursts_of_unprimed_default :
    (runFrames defaultConfig Tracker.init [fun _ => 1]).historyPrimed = false ∧
      (runFrames defaultConfig Tracker.init [fun _ => 1]).bursts = [] :=
  have unprimed : (runFrames defaultConfig Tracker.init [fun _ => 1]).historyPrimed = false := by decide
  ⟨unprimed, runFrames_bursts_of_unprimed defaultConfig _ unprimed⟩

/-- The running noise sum of every bin is the sum of the `history_size` rows of
the history, and the row index stays below `history_size`: the incremental
update of `update_filters_post`, forced or not, and the squelch's reset agree
with summing the history afresh. -/
theorem runFrames_baselineSum (frames : List (Nat → K)) :
    (runFrames cfg Tracker.init frames).historyIndex < cfg.historySize ∧
      ∀ i, (runFrames cfg Tracker.init frames).baselineSum i =
        ∑ k ∈ Finset.range cfg.historySize, (runFrames cfg Tracker.init frames).baselineHistory k i :=
  (tracking_runFrames cfg frames).baseline

/-! ### The ended bursts are only appended to

Nothing in a frame reads `gone_bursts`; `emit_gone_bursts` can empty it
between frames without changing what the frames do. -/

def Tracker.prependGone (gone : List ActiveBurst) (d : Tracker K) : Tracker K :=
  { d with goneBursts := gone ++ d.goneBursts }

section Gone

variable {cfg}

omit [LinearOrder K] in
theorem updateFiltersPost_prependGone (gone : List ActiveBurst) (force : Bool) (d : Tracker K) :
    updateFiltersPost cfg force (d.prependGone gone) = (updateFiltersPost cfg force d).prependGone gone := by
  unfold updateFiltersPost Tracker.prependGone
  dsimp only
  split
  · split <;> rfl
  · rfl

theorem updateFiltersPre_prependGone (gone : List ActiveBurst) (d : Tracker K) :
    updateFiltersPre (d.prependGone gone) = (updateFiltersPre d).map (Tracker.prependGone gone) := by
  unfold updateFiltersPre Tracker.prependGone
  dsimp only
  split <;> rfl

omit [LinearOrder K] in
theorem deleteGoneBursts_prependGone (gone : List ActiveBurst) (d : Tracker K) :
    deleteGoneBursts cfg (d.prependGone gone) = (deleteGoneBursts cfg d).prependGone gone := by
  unfold deleteGoneBursts
  dsimp only
  have same : deleteLoop cfg (d.prependGone gone).index (d.prependGone gone).bursts =
      deleteLoop cfg d.index d.bursts := rfl
  rw [same]
  set r := deleteLoop cfg d.index d.bursts
  have moved : ({ d.prependGone gone with bursts := r.1, goneBursts := (d.prependGone gone).goneBursts ++ r.2.1 } :
      Tracker K) = Tracker.prependGone gone { d with bursts := r.1, goneBursts := d.goneBursts ++ r.2.1 } := by
    simp only [Tracker.prependGone, List.append_assoc]
  rw [moved]
  split
  · exact updateFiltersPost_prependGone gone true _
  · rfl

theorem createBurst_prependGone (gone : List ActiveBurst) (d : Tracker K) (p : Peak K) :
    createBurst cfg (d.prependGone gone) p = (createBurst cfg d p).prependGone gone := by
  unfold createBurst Tracker.prependGone
  dsimp only
  split <;> rfl

omit [LinearOrder K] in
theorem squelch_prependGone (gone : List ActiveBurst) (d : Tracker K) :
    squelch cfg (d.prependGone gone) = (squelch cfg d).prependGone gone := by
  unfold squelch updateBurstMask Tracker.prependGone
  dsimp only
  split
  · split <;> simp only [List.append_assoc]
  · rfl

theorem foldl_createBurst_prependGone (gone : List ActiveBurst) (peaks : List (Peak K)) (d : Tracker K) :
    peaks.foldl (createBurst cfg) (d.prependGone gone) = (peaks.foldl (createBurst cfg) d).prependGone gone := by
  induction peaks generalizing d with
  | nil => rfl
  | cons p peaks ih => rw [List.foldl_cons, List.foldl_cons, createBurst_prependGone, ih]

theorem createNewBursts_prependGone (gone : List ActiveBurst) (d : Tracker K) :
    createNewBursts cfg (d.prependGone gone) = (createNewBursts cfg d).prependGone gone := by
  unfold createNewBursts
  rw [← squelch_prependGone, ← foldl_createBurst_prependGone]
  rfl

theorem processFrame_prependGone (gone : List ActiveBurst) (mag : Nat → K) (d : Tracker K) :
    processFrame cfg mag (d.prependGone gone) = (processFrame cfg mag d).prependGone gone := by
  unfold processFrame
  dsimp only
  have loaded : { d.prependGone gone with magnitudeShifted := mag } =
      Tracker.prependGone gone { d with magnitudeShifted := mag } := rfl
  rw [loaded, updateFiltersPre_prependGone]
  rcases updateFiltersPre { d with magnitudeShifted := mag } with _ | d₁
  · exact updateFiltersPost_prependGone gone false _
  · -- the stages before `delete_gone_bursts` do not read the ended bursts
    have front : extractPeaks cfg (removePeaksAroundBursts (updateBursts cfg (d₁.prependGone gone))) =
        (extractPeaks cfg (removePeaksAroundBursts (updateBursts cfg d₁))).prependGone gone := rfl
    have masked : updateBurstMask cfg ((deleteGoneBursts cfg (extractPeaks cfg (removePeaksAroundBursts
        (updateBursts cfg d₁)))).prependGone gone) = (updateBurstMask cfg (deleteGoneBursts cfg (extractPeaks cfg
          (removePeaksAroundBursts (updateBursts cfg d₁))))).prependGone gone := rfl
    dsimp only [Option.map]
    rw [front, deleteGoneBursts_prependGone, masked, createNewBursts_prependGone, updateFiltersPost_prependGone]

theorem frameStep_prependGone (gone : List ActiveBurst) (d : Tracker K) (mag : Nat → K) :
    frameStep cfg (d.prependGone gone) mag = (frameStep cfg d mag).prependGone gone := by
  unfold frameStep
  rw [processFrame_prependGone]
  rfl

end Gone

/-! ### The stream position -/

section Index

variable {cfg}

omit [LinearOrder K] in
theorem index_updateFiltersPost (force : Bool) (d : Tracker K) : (updateFiltersPost cfg force d).index = d.index := by
  unfold IridiumSniffer.BurstTrack.updateFiltersPost
  split
  · split <;> rfl
  · rfl

omit [LinearOrder K] in
theorem index_deleteGoneBursts (d : Tracker K) : (deleteGoneBursts cfg d).index = d.index := by
  unfold deleteGoneBursts
  dsimp only
  split
  · exact index_updateFiltersPost true _
  · rfl

omit [LinearOrder K] in
theorem index_squelch (d : Tracker K) : (squelch cfg d).index = d.index := by
  unfold squelch
  dsimp only [updateBurstMask]
  split
  · split <;> rfl
  · rfl

theorem index_createNewBursts (d : Tracker K) : (createNewBursts cfg d).index = d.index := by
  obtain ⟨id, bursts, mask, eq⟩ := foldl_createBurst_eq cfg d.peaks d
  unfold createNewBursts
  rw [index_squelch, eq]

theorem index_processFrame (mag : Nat → K) (d : Tracker K) : (processFrame cfg mag d).index = d.index := by
  unfold processFrame
  dsimp only
  rw [index_updateFiltersPost]
  split
  · rename_i pre
    obtain ⟨_, rel, rfl⟩ := updateFiltersPre_eq_some pre
    rw [index_createNewBursts]
    exact index_deleteGoneBursts _
  · rfl

theorem index_frameStep (d : Tracker K) (mag : Nat → K) :
    (frameStep cfg d mag).index = d.index + UInt64.ofNat cfg.fftSize := by
  unfold frameStep
  dsimp only
  rw [index_processFrame]

end Index

end IridiumSniffer.BurstTrack
