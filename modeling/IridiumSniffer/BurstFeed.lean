import Mathlib
import IridiumSniffer.Lib.Loop
import IridiumSniffer.Lib.Ring
import IridiumSniffer.BurstTrack

/-! The CPU path of `burst_detector_feed` and `burst_detector_feed_cf32` in
`burst_detect.c`. A feed writes its samples into the IQ ring buffer with
`ringbuf_write`, runs the tracker of `BurstTrack` on each whole frame the
stream now holds, copying a frame that wraps the ring into `tmp`, and hands
each ended burst to the callback with the samples `ringbuf_extract` cuts for
it. Samples are of any type `α`, after the conversion from `int8` or `float`
pairs; the window, FFT, `fftshift` and squared magnitude of
`process_fft_frame` are a function `spectrum` of the frame. Stream positions
are `Nat`, the position of the tracker its `uint64_t` index. -/
namespace IridiumSniffer.BurstFeed

open BurstTrack

/-- The fields of `burst_detector_t` the feed reads and writes, and what the
callback has received. -/
structure Feeder (α K : Type) where
  ringbuf : Nat → α
  ringbufWrite : Nat
  ringbufStart : Nat
  sampleCount : Nat
  tracker : Tracker K
  emitted : List (ActiveBurst × List α)

variable {α K : Type} [Field K] [LinearOrder K] (cfg : Config K) (ringbufSize : Nat)
  (spectrum : List α → Nat → K)

/-- The feeder `burst_detector_create` returns; `uninit` is what `malloc`
leaves in the ring. -/
def Feeder.init (uninit : Nat → α) : Feeder α K := ⟨uninit, 0, 0, 0, Tracker.init, []⟩

/-- `ringbuf_write`: the samples at the cursor, then `ringbuf_start` from
`sample_count`, which the caller has not yet moved past them. -/
def ringbufWrite (d : Feeder α K) (samples : List α) : Feeder α K :=
  let written := Ring.pushAll ringbufSize (d.ringbuf, d.ringbufWrite) samples
  { d with
    ringbuf := written.1
    ringbufWrite := written.2
    ringbufStart := if ringbufSize < d.sampleCount then d.sampleCount - ringbufSize else d.ringbufStart }

def ringbufExtract (d : Feeder α K) (start stop : Nat) : List α :=
  let start := if start < d.ringbufStart then d.ringbufStart else start
  if stop ≤ start then [] else Ring.readFrom ringbufSize d.ringbuf (stop - start) (start % ringbufSize)

/-- The frame at `index` as `process_fft_frame` gets it: in place, or through
`tmp` when it runs past the end of the ring. -/
def frameAt (d : Feeder α K) (index : Nat) : List α :=
  let rbPos := index % ringbufSize
  if rbPos + cfg.fftSize ≤ ringbufSize then (List.range cfg.fftSize).map fun i => d.ringbuf (rbPos + i)
  else
    let first := ringbufSize - rbPos
    (List.range first).map (fun i => d.ringbuf (rbPos + i)) ++ (List.range (cfg.fftSize - first)).map d.ringbuf

def frameCond (d : Feeder α K) : Bool := decide (d.tracker.index.toNat + cfg.fftSize ≤ d.sampleCount)

def frameBody (d : Feeder α K) : Feeder α K :=
  { d with tracker := frameStep cfg d.tracker (spectrum (frameAt cfg ringbufSize d d.tracker.index.toNat)) }

/-- The window `emit_gone_bursts` cuts for a burst: from its start to
`burst_pre_len` past its stop. -/
def burstSamples (d : Feeder α K) (b : ActiveBurst) : List α :=
  ringbufExtract ringbufSize d b.start.toNat (b.stop + UInt64.ofNat cfg.burstPreLen).toNat

/-- `emit_gone_bursts`: each ended burst with a nonempty window goes to the
callback, and the list of ended bursts is emptied. -/
def emitGoneBursts (d : Feeder α K) : Feeder α K :=
  let out := d.tracker.goneBursts.filterMap fun b =>
    if (burstSamples cfg ringbufSize d b).isEmpty then none else some (b, burstSamples cfg ringbufSize d b)
  { d with emitted := d.emitted ++ out, tracker := { d.tracker with goneBursts := [] } }

/-- One feed: write, count, the frame loop (run at most `sample_count + 1`
times, `none` if it has not ended then, as with `fft_size = 0`), and the
emission. -/
def feed (d : Feeder α K) (samples : List α) : Option (Feeder α K) := do
  let d := ringbufWrite ringbufSize d samples
  let d := { d with sampleCount := d.sampleCount + samples.length }
  let d ← Loop.run (frameCond cfg) (frameBody cfg ringbufSize spectrum) (d.sampleCount + 1) d
  pure (if d.tracker.goneBursts.isEmpty then d else emitGoneBursts cfg ringbufSize d)

def feedAll (d : Feeder α K) (chunks : List (List α)) : Option (Feeder α K) :=
  chunks.foldlM (feed cfg ringbufSize spectrum) d

/-- The first `k` frames of `fft_size` samples of a stream. -/
def framesUpTo (fftSize : Nat) (s : List α) (k : Nat) : List (List α) :=
  (List.range k).map fun j => (s.drop (j * fftSize)).take fftSize

/-- Every whole frame of the stream. -/
def frames (fftSize : Nat) (s : List α) : List (List α) := framesUpTo fftSize s (s.length / fftSize)

/-! ### Reading frames out of the ring -/

section Frames

variable {cfg ringbufSize}

omit [Field K] [LinearOrder K] in
theorem frameAt_eq_readFrom (d : Feeder α K) (index : Nat) (fits : cfg.fftSize ≤ ringbufSize) :
    frameAt cfg ringbufSize d index = Ring.readFrom ringbufSize d.ringbuf cfg.fftSize (index % ringbufSize) := by
  rcases Nat.eq_zero_or_pos ringbufSize with zero | positive
  · have none : cfg.fftSize = 0 := by omega
    simp [frameAt, zero, none, Ring.readFrom]
  have inside := Nat.mod_lt index positive
  rw [Ring.readFrom_eq d.ringbuf cfg.fftSize inside]
  unfold frameAt
  dsimp only
  split
  · apply List.map_congr_left
    intro i mem
    have small := List.mem_range.mp mem
    rw [Nat.mod_eq_of_lt (show index % ringbufSize + i < ringbufSize by omega)]
  · -- the copy stops at the end of the ring after `first` samples and goes on from slot 0
    have split : cfg.fftSize = (ringbufSize - index % ringbufSize) + (cfg.fftSize - (ringbufSize - index % ringbufSize)) := by
      omega
    conv_rhs => rw [split, List.range_add, List.map_append, List.map_map]
    congr 1
    · apply List.map_congr_left
      intro i mem
      have small := List.mem_range.mp mem
      rw [Nat.mod_eq_of_lt (show index % ringbufSize + i < ringbufSize by omega)]
    · apply List.map_congr_left
      intro j mem
      have small := List.mem_range.mp mem
      simp only [Function.comp]
      rw [show index % ringbufSize + (ringbufSize - index % ringbufSize + j) = j + ringbufSize by omega,
        Nat.add_mod_right, Nat.mod_eq_of_lt (by omega)]

theorem framesUpTo_succ (fftSize : Nat) (s : List α) (k : Nat) :
    framesUpTo fftSize s (k + 1) = framesUpTo fftSize s k ++ [(s.drop (k * fftSize)).take fftSize] := by
  simp [framesUpTo, List.range_succ]

theorem framesUpTo_append (fftSize : Nat) {s : List α} (t : List α) {k : Nat} (within : k * fftSize ≤ s.length) :
    framesUpTo fftSize (s ++ t) k = framesUpTo fftSize s k := by
  apply List.map_congr_left
  intro j mem
  have earlier : (j + 1) * fftSize ≤ k * fftSize := Nat.mul_le_mul_right fftSize (List.mem_range.mp mem)
  rw [Nat.succ_mul] at earlier
  rw [List.drop_append_of_le_length (by omega), List.take_append_of_le_length (by simp; omega)]

theorem runFrames_append_frame (d : Tracker K) (l : List (List α)) (x : List α) :
    runFrames cfg d ((l ++ [x]).map spectrum) = frameStep cfg (runFrames cfg d (l.map spectrum)) (spectrum x) := by
  simp [runFrames, List.foldl_append]

end Frames

/-! ### The ring holds the stream -/

/-- The feeder has taken the stream `s`: its count, the ring holding its last
`ringbuf_size` samples with the cursor after them, and the slots the stream
has not reached as `malloc` left them. -/
structure Buffered (uninit : Nat → α) (s : List α) (d : Feeder α K) : Prop where
  count : d.sampleCount = s.length
  stores : Ring.Stores ringbufSize d.ringbuf s
  cursor : d.ringbufWrite = s.length % ringbufSize
  unwritten : Ring.Unwritten ringbufSize uninit d.ringbuf s

section Buffer

variable {cfg ringbufSize spectrum}

omit [LinearOrder K] in
theorem buffered_init (uninit : Nat → α) : Buffered ringbufSize uninit [] (Feeder.init uninit : Feeder α K) :=
  ⟨rfl, Ring.stores_nil uninit, (Nat.zero_mod ringbufSize).symm, Ring.unwritten_nil uninit⟩

omit [Field K] [LinearOrder K] in
theorem Buffered.write {uninit : Nat → α} {s : List α} {d : Feeder α K} (h : Buffered ringbufSize uninit s d)
    (chunk : List α) :
    Buffered ringbufSize uninit (s ++ chunk)
      { ringbufWrite ringbufSize d chunk with sampleCount := d.sampleCount + chunk.length } := by
  have pushed := Ring.pushAll_stores h.stores chunk
  rw [← h.cursor] at pushed
  refine ⟨?_, pushed.2, pushed.1, ?_⟩
  · simp [h.count]
  · have kept := Ring.pushAll_unwritten h.unwritten chunk
    rw [← h.cursor] at kept
    exact kept

theorem Buffered.frameBody {uninit : Nat → α} {s : List α} {d : Feeder α K} (h : Buffered ringbufSize uninit s d) :
    Buffered ringbufSize uninit s (frameBody cfg ringbufSize spectrum d) :=
  ⟨h.count, h.stores, h.cursor, h.unwritten⟩

omit [Field K] [LinearOrder K] in
theorem Buffered.settle {uninit : Nat → α} {s : List α} {d : Feeder α K} (h : Buffered ringbufSize uninit s d) :
    Buffered ringbufSize uninit s
      (if d.tracker.goneBursts.isEmpty then d else emitGoneBursts cfg ringbufSize d) := by
  split
  · exact h
  · exact ⟨h.count, h.stores, h.cursor, h.unwritten⟩

theorem feed_of_run {d t : Feeder α K} {samples : List α}
    (run : Loop.run (frameCond cfg) (frameBody cfg ringbufSize spectrum) (d.sampleCount + samples.length + 1)
      { ringbufWrite ringbufSize d samples with sampleCount := d.sampleCount + samples.length } = some t) :
    feed cfg ringbufSize spectrum d samples =
      some (if t.tracker.goneBursts.isEmpty then t else emitGoneBursts cfg ringbufSize t) := by
  unfold feed
  dsimp only
  rw [show (ringbufWrite ringbufSize d samples).sampleCount = d.sampleCount from rfl, run]
  rfl

theorem feed_eq_some {d d' : Feeder α K} {samples : List α} (fed : feed cfg ringbufSize spectrum d samples = some d') :
    ∃ t, Loop.run (frameCond cfg) (frameBody cfg ringbufSize spectrum) (d.sampleCount + samples.length + 1)
      { ringbufWrite ringbufSize d samples with sampleCount := d.sampleCount + samples.length } = some t ∧
        d' = if t.tracker.goneBursts.isEmpty then t else emitGoneBursts cfg ringbufSize t := by
  cases run : Loop.run (frameCond cfg) (frameBody cfg ringbufSize spectrum) (d.sampleCount + samples.length + 1)
      { ringbufWrite ringbufSize d samples with sampleCount := d.sampleCount + samples.length } with
  | none =>
    unfold feed at fed
    dsimp only at fed
    rw [show (ringbufWrite ringbufSize d samples).sampleCount = d.sampleCount from rfl, run] at fed
    cases fed
  | some t => exact ⟨t, rfl, Option.some.inj (fed.symm.trans (feed_of_run run))⟩

theorem Buffered.feed {uninit : Nat → α} {s : List α} {d d' : Feeder α K} (h : Buffered ringbufSize uninit s d)
    {chunk : List α} (fed : feed cfg ringbufSize spectrum d chunk = some d') :
    Buffered ringbufSize uninit (s ++ chunk) d' := by
  obtain ⟨t, run, rfl⟩ := feed_eq_some fed
  have loop := Loop.run_invariant (Buffered ringbufSize uninit (s ++ chunk))
    (fun _ inv _ => Buffered.frameBody inv) (h.write chunk) run
  exact loop.1.settle

theorem buffered_feedAll (uninit : Nat → α) (chunks : List (List α)) {d : Feeder α K}
    (fed : feedAll cfg ringbufSize spectrum (Feeder.init uninit) chunks = some d) :
    Buffered ringbufSize uninit chunks.flatten d := by
  -- the fold over the chunks, from any feeder holding the stream so far
  have run : ∀ (chunks : List (List α)) (s : List α) (e : Feeder α K), Buffered ringbufSize uninit s e →
      feedAll cfg ringbufSize spectrum e chunks = some d → Buffered ringbufSize uninit (s ++ chunks.flatten) d := by
    intro chunks
    induction chunks with
    | nil =>
      intro s e h fed
      cases fed
      simpa using h
    | cons chunk chunks ih =>
      intro s e h fed
      simp only [feedAll, List.foldlM_cons] at fed
      cases step : feed cfg ringbufSize spectrum e chunk with
      | none =>
        rw [step] at fed
        cases fed
      | some e' =>
        rw [step] at fed
        have rest := ih (s ++ chunk) e' (h.feed step) fed
        simpa using rest
  simpa using run chunks [] _ (buffered_init uninit) fed

omit [Field K] [LinearOrder K] in
theorem ringbufStart_settle (d : Feeder α K) :
    (if d.tracker.goneBursts.isEmpty then d else emitGoneBursts cfg ringbufSize d).ringbufStart = d.ringbufStart := by
  split <;> rfl

theorem ringbufStart_feed {d d' : Feeder α K} {chunk : List α} (fed : feed cfg ringbufSize spectrum d chunk = some d') :
    d'.ringbufStart = if ringbufSize < d.sampleCount then d.sampleCount - ringbufSize else d.ringbufStart := by
  obtain ⟨t, run, rfl⟩ := feed_eq_some fed
  have step : ∀ t : Feeder α K,
      t.ringbufStart = (if ringbufSize < d.sampleCount then d.sampleCount - ringbufSize else d.ringbufStart) →
      frameCond cfg t = true → (frameBody cfg ringbufSize spectrum t).ringbufStart =
        if ringbufSize < d.sampleCount then d.sampleCount - ringbufSize else d.ringbufStart :=
    fun _ same _ => same
  have loop := Loop.run_invariant _ step rfl run
  rw [ringbufStart_settle]
  exact loop.1

end Buffer

/-! ### The feeds run the tracker over the stream's frames -/

/-- The tracker is what running it over `frames` from the start gives, but
for the ended bursts already emptied out, among which are, in order, the
bursts the callback received. -/
def Runs (frames : List (List α)) (d : Feeder α K) : Prop :=
  ∃ gone, runFrames cfg Tracker.init (frames.map spectrum) = d.tracker.prependGone gone ∧
    (d.emitted.map Prod.fst).Sublist gone

/-- Inside the frame loop of a feed on the stream `s`, after `k` frames whose
successors are all still in the ring. -/
structure Reading (uninit : Nat → α) (s : List α) (k : Nat) (d : Feeder α K) : Prop where
  buffered : Buffered ringbufSize uninit s d
  index : d.tracker.index.toNat = k * cfg.fftSize
  within : k * cfg.fftSize ≤ s.length
  recent : s.length ≤ k * cfg.fftSize + ringbufSize
  runs : Runs cfg spectrum (framesUpTo cfg.fftSize s k) d

/-- Between feeds on the stream `s`: every whole frame run. -/
structure Follows (uninit : Nat → α) (s : List α) (d : Feeder α K) : Prop where
  buffered : Buffered ringbufSize uninit s d
  index : d.tracker.index.toNat = s.length / cfg.fftSize * cfg.fftSize
  runs : Runs cfg spectrum (frames cfg.fftSize s) d

section Refine

variable {cfg ringbufSize spectrum}

theorem map_fst_filterMap_sublist {β γ : Type*} (p : β → Bool) (f : β → γ) (l : List β) :
    ((l.filterMap fun b => if p b then none else some (b, f b)).map Prod.fst).Sublist l := by
  induction l with
  | nil => exact List.Sublist.slnil
  | cons b l ih =>
    by_cases dropped : p b
    · simp only [List.filterMap_cons, dropped, if_true]
      exact ih.cons b
    · simp only [List.filterMap_cons, dropped, Bool.false_eq_true, if_false, List.map_cons]
      exact ih.cons_cons b

theorem Runs.settle {fs : List (List α)} {d : Feeder α K} (h : Runs cfg spectrum fs d) :
    Runs cfg spectrum fs (if d.tracker.goneBursts.isEmpty then d else emitGoneBursts cfg ringbufSize d) := by
  split
  · exact h
  obtain ⟨gone, run, sub⟩ := h
  refine ⟨gone ++ d.tracker.goneBursts, ?_, ?_⟩
  · rw [run]
    simp [emitGoneBursts, Tracker.prependGone]
  · simp only [emitGoneBursts, List.map_append]
    exact sub.append (map_fst_filterMap_sublist _ _ _)

theorem Reading.step {uninit : Nat → α} {s : List α} {k : Nat} {d : Feeder α K}
    (h : Reading cfg ringbufSize spectrum uninit s k d) (go : frameCond cfg d = true)
    (fits : cfg.fftSize ≤ ringbufSize) (bounded : s.length < 2 ^ 64) :
    Reading cfg ringbufSize spectrum uninit s (k + 1) (frameBody cfg ringbufSize spectrum d) := by
  have room : k * cfg.fftSize + cfg.fftSize ≤ s.length := by
    have cond := of_decide_eq_true go
    rw [h.index, h.buffered.count] at cond
    exact cond
  have frame : frameAt cfg ringbufSize d d.tracker.index.toNat = (s.drop (k * cfg.fftSize)).take cfg.fftSize := by
    rw [frameAt_eq_readFrom d _ fits, h.index]
    exact h.buffered.stores.readFrom h.recent room
  obtain ⟨gone, run, sub⟩ := h.runs
  have recent := h.recent
  refine ⟨h.buffered.frameBody, ?_, by rw [Nat.succ_mul]; exact room, by rw [Nat.succ_mul]; omega, gone, ?_, sub⟩
  · show (frameStep cfg d.tracker _).index.toNat = (k + 1) * cfg.fftSize
    rw [index_frameStep, UInt64.toNat_add, UInt64.toNat_ofNat', h.index, Nat.succ_mul,
      Nat.mod_eq_of_lt (show cfg.fftSize < 2 ^ 64 by omega), Nat.mod_eq_of_lt (by omega)]
  · show runFrames cfg Tracker.init ((framesUpTo cfg.fftSize s (k + 1)).map spectrum) =
      (frameStep cfg d.tracker (spectrum (frameAt cfg ringbufSize d d.tracker.index.toNat))).prependGone gone
    rw [framesUpTo_succ, runFrames_append_frame, run, frameStep_prependGone, frame]

theorem Reading.loop {uninit : Nat → α} {s : List α} {k : Nat} {d : Feeder α K}
    (h : Reading cfg ringbufSize spectrum uninit s k d) (positive : 0 < cfg.fftSize)
    (fits : cfg.fftSize ≤ ringbufSize) (bounded : s.length < 2 ^ 64) :
    ∃ t, Loop.run (frameCond cfg) (frameBody cfg ringbufSize spectrum) (s.length + 1) d = some t ∧
      Reading cfg ringbufSize spectrum uninit s (s.length / cfg.fftSize) t := by
  let inv := fun t : Feeder α K => ∃ j, Reading cfg ringbufSize spectrum uninit s j t
  have step : ∀ t, inv t → frameCond cfg t = true → inv (frameBody cfg ringbufSize spectrum t) :=
    fun t ⟨j, ht⟩ go => ⟨j + 1, ht.step go fits bounded⟩
  -- each turn moves the position on by `fft_size > 0`
  have lower : ∀ t, inv t → frameCond cfg t = true →
      s.length + 1 - (frameBody cfg ringbufSize spectrum t).tracker.index.toNat < s.length + 1 - t.tracker.index.toNat := by
    intro t ⟨j, ht⟩ go
    have next := ht.step go fits bounded
    rw [next.index, ht.index, Nat.succ_mul]
    have := next.within
    rw [Nat.succ_mul] at this
    omega
  obtain ⟨t, run⟩ := Loop.run_isSome inv step (fun t => s.length + 1 - t.tracker.index.toNat) lower ⟨k, h⟩
    (Nat.sub_le (s.length + 1) d.tracker.index.toNat)
  obtain ⟨⟨j, ht⟩, stop⟩ := Loop.run_invariant inv step ⟨k, h⟩ run
  have past : ¬ j * cfg.fftSize + cfg.fftSize ≤ s.length := by
    have cond := of_decide_eq_false stop
    rw [ht.index, ht.buffered.count] at cond
    exact cond
  have whole : s.length / cfg.fftSize = j := Nat.div_eq_of_lt_le ht.within (by rw [Nat.succ_mul]; omega)
  exact ⟨t, run, whole ▸ ht⟩

theorem follows_init (uninit : Nat → α) : Follows cfg ringbufSize spectrum uninit [] (Feeder.init uninit) :=
  ⟨buffered_init uninit, by simp [Feeder.init, Tracker.init], [],
    by simp [frames, framesUpTo, runFrames, Tracker.prependGone, Feeder.init, Tracker.init], List.Sublist.slnil⟩

/-- A feed of at most `ringbuf_size - fft_size + 1` samples ends, and runs the
tracker on the frames it completes. -/
theorem Follows.feed {uninit : Nat → α} {s : List α} {d : Feeder α K} (h : Follows cfg ringbufSize spectrum uninit s d)
    {chunk : List α} (positive : 0 < cfg.fftSize) (fits : cfg.fftSize ≤ ringbufSize)
    (short : chunk.length + cfg.fftSize ≤ ringbufSize + 1) (bounded : (s ++ chunk).length < 2 ^ 64) :
    ∃ d', feed cfg ringbufSize spectrum d chunk = some d' ∧ Follows cfg ringbufSize spectrum uninit (s ++ chunk) d' := by
  have buffered := h.buffered.write chunk
  have within := Nat.div_mul_le_self s.length cfg.fftSize
  -- the stream before the feed ends less than a frame after the position
  have behind := Nat.lt_div_mul_add (a := s.length) positive
  obtain ⟨gone, run, sub⟩ := h.runs
  have start : Reading cfg ringbufSize spectrum uninit (s ++ chunk) (s.length / cfg.fftSize)
      { ringbufWrite ringbufSize d chunk with sampleCount := d.sampleCount + chunk.length } := by
    refine ⟨buffered, h.index, by simp; omega, by simp; omega, gone, ?_, sub⟩
    rw [framesUpTo_append _ _ within]
    exact run
  obtain ⟨t, loop, done⟩ := start.loop positive fits bounded
  rw [← buffered.count] at loop
  refine ⟨_, feed_of_run loop, done.buffered.settle, ?_, done.runs.settle⟩
  split
  · exact done.index
  · exact done.index

theorem Follows.feedAll {uninit : Nat → α} (chunks : List (List α)) (positive : 0 < cfg.fftSize)
    (fits : cfg.fftSize ≤ ringbufSize) (short : ∀ c ∈ chunks, c.length + cfg.fftSize ≤ ringbufSize + 1) :
    ∀ {s : List α} {d : Feeder α K}, Follows cfg ringbufSize spectrum uninit s d →
      (s ++ chunks.flatten).length < 2 ^ 64 →
      ∃ d', feedAll cfg ringbufSize spectrum d chunks = some d' ∧
        Follows cfg ringbufSize spectrum uninit (s ++ chunks.flatten) d' := by
  induction chunks with
  | nil =>
    intro s d h _
    exact ⟨d, rfl, by simpa using h⟩
  | cons chunk chunks ih =>
    intro s d h bounded
    have shorter : ∀ c ∈ chunks, c.length + cfg.fftSize ≤ ringbufSize + 1 :=
      fun c mem => short c (List.mem_cons_of_mem chunk mem)
    obtain ⟨d₁, fed, h₁⟩ := h.feed positive fits (short chunk List.mem_cons_self)
      (by simp only [List.flatten_cons, List.length_append] at bounded ⊢; omega)
    obtain ⟨d', rest, h'⟩ := ih shorter h₁ (by simpa using bounded)
    refine ⟨d', ?_, by simpa using h'⟩
    simp only [IridiumSniffer.BurstFeed.feedAll, List.foldlM_cons, fed]
    exact rest

end Refine

section Extract

variable {cfg ringbufSize spectrum}

omit [Field K] [LinearOrder K] in
theorem clamp_eq_max (d : Feeder α K) (start : Nat) :
    (if start < d.ringbufStart then d.ringbufStart else start) = max start d.ringbufStart := by
  split <;> omega

omit [Field K] [LinearOrder K] in
/-- `ringbuf_extract` reads the slot of each position from the clamped start
to the stop. -/
theorem ringbufExtract_eq (d : Feeder α K) (start stop : Nat) (positive : 0 < ringbufSize) :
    ringbufExtract ringbufSize d start stop = (List.range (stop - max start d.ringbufStart)).map fun i =>
      d.ringbuf ((max start d.ringbufStart + i) % ringbufSize) := by
  unfold ringbufExtract
  dsimp only
  rw [clamp_eq_max]
  split
  · rw [show stop - max start d.ringbufStart = 0 by omega]
    rfl
  · rw [Ring.readFrom_eq _ _ (Nat.mod_lt _ positive)]
    simp only [Nat.mod_add_mod]

omit [Field K] [LinearOrder K] in
theorem getElem_ringbufExtract (d : Feeder α K) (start stop : Nat) (positive : 0 < ringbufSize) {i : Nat}
    (inside : i < (ringbufExtract ringbufSize d start stop).length) :
    (ringbufExtract ringbufSize d start stop)[i] = d.ringbuf ((max start d.ringbufStart + i) % ringbufSize) := by
  simp only [ringbufExtract_eq d start stop positive, List.getElem_map, List.getElem_range]

end Extract

/-! ### What the feeds give -/

/-- However the stream is cut into feeds of at most `ringbuf_size - fft_size + 1`
samples, the feeds end and have run the tracker on exactly the whole frames of
the stream, in order: the tracker is the one the frame-by-frame run gives but
for the ended bursts emptied out, and the callback has received, in order, some
of those. -/
theorem feedAll_runs_stream_frames (uninit : Nat → α) (chunks : List (List α)) (positive : 0 < cfg.fftSize)
    (fits : cfg.fftSize ≤ ringbufSize) (short : ∀ c ∈ chunks, c.length + cfg.fftSize ≤ ringbufSize + 1)
    (bounded : chunks.flatten.length < 2 ^ 64) :
    ∃ d gone, feedAll cfg ringbufSize spectrum (Feeder.init uninit) chunks = some d ∧
      runFrames cfg Tracker.init ((frames cfg.fftSize chunks.flatten).map spectrum) = d.tracker.prependGone gone ∧
      (d.emitted.map Prod.fst).Sublist gone := by
  obtain ⟨d, fed, h⟩ := Follows.feedAll chunks positive fits short (follows_init uninit) (by simpa using bounded)
  obtain ⟨gone, run, sub⟩ := h.runs
  rw [List.nil_append] at run
  exact ⟨d, gone, fed, run, sub⟩

/-- Frames of two samples, for runs short enough to follow by hand. -/
def smallConfig : Config ℚ := { defaultConfig with fftSize := 2 }

/-- Seven samples in three feeds through a ring of four: three whole frames
run, the second and third after the ring has wrapped. -/
theorem feedAll_runs_stream_frames_wraps :
    0 < smallConfig.fftSize ∧ smallConfig.fftSize ≤ 4 ∧
      (∀ c ∈ [[1, 2, 3], [4, 5, 6], [7]], c.length + smallConfig.fftSize ≤ 4 + 1) ∧
      [[1, 2, 3], [4, 5, 6], [7]].flatten.length < 2 ^ 64 ∧
      frames smallConfig.fftSize [[1, 2, 3], [4, 5, 6], [7]].flatten = [[1, 2], [3, 4], [5, 6]] ∧
      ∃ d gone, feedAll smallConfig 4 (fun f _ => (f.sum : ℚ)) (Feeder.init fun _ => 0)
          [[1, 2, 3], [4, 5, 6], [7]] = some d ∧
        runFrames smallConfig Tracker.init
            ((frames smallConfig.fftSize [[1, 2, 3], [4, 5, 6], [7]].flatten).map fun f _ => (f.sum : ℚ)) =
          d.tracker.prependGone gone ∧ (d.emitted.map Prod.fst).Sublist gone :=
  ⟨by decide, by decide, by decide, by decide, by decide,
    feedAll_runs_stream_frames smallConfig 4 (fun f _ => (f.sum : ℚ)) (fun _ => (0 : Nat))
      [[1, 2, 3], [4, 5, 6], [7]] (by decide) (by decide) (by decide) (by decide)⟩

/-- After any feeds, `ringbuf_extract` returns the stream's samples from the
clamped start to the stop when the window lies in the last `ringbuf_size`
samples of the stream. -/
theorem feedAll_extract_slice (uninit : Nat → α) (chunks : List (List α)) {d : Feeder α K}
    (fed : feedAll cfg ringbufSize spectrum (Feeder.init uninit) chunks = some d) (start stop : Nat)
    (recent : chunks.flatten.length ≤ max start d.ringbufStart + ringbufSize) (written : stop ≤ chunks.flatten.length) :
    ringbufExtract ringbufSize d start stop =
      (chunks.flatten.drop (max start d.ringbufStart)).take (stop - max start d.ringbufStart) := by
  have h := buffered_feedAll uninit chunks fed
  unfold ringbufExtract
  dsimp only
  rw [clamp_eq_max]
  split
  · rw [show stop - max start d.ringbufStart = 0 by omega, List.take_zero]
  · exact h.stores.readFrom recent (by omega)

/-- A sample run: three samples fed to the detector at its defaults. -/
def sampleFeeder : Feeder Nat ℚ :=
  (feedAll defaultConfig 32768 (fun _ _ => 0) (Feeder.init fun _ => 0) [[1, 2, 3]]).get (by decide)

theorem feedAll_extract_slice_sample : ringbufExtract 32768 sampleFeeder 0 3 = [1, 2, 3] :=
  (feedAll_extract_slice defaultConfig 32768 (fun _ _ => 0) (fun _ => 0) [[1, 2, 3]] (Option.some_get _).symm 0 3
    (by decide) (by decide)).trans
    (by decide)

/-- After any feeds, a sample of a `ringbuf_extract` window at or past
`sample_count` is not the stream's: it is the sample `ringbuf_size` positions
back, or, while fewer than `ringbuf_size` samples have come, what `malloc` left
in the slot. -/
theorem feedAll_extract_past_end (uninit : Nat → α) (chunks : List (List α)) {d : Feeder α K}
    (fed : feedAll cfg ringbufSize spectrum (Feeder.init uninit) chunks = some d) {start stop i : Nat}
    (inside : i < (ringbufExtract ringbufSize d start stop).length)
    (past : chunks.flatten.length ≤ max start d.ringbufStart + i)
    (near : max start d.ringbufStart + i < chunks.flatten.length + ringbufSize) :
    (ringbufExtract ringbufSize d start stop)[i] =
      if full : ringbufSize ≤ max start d.ringbufStart + i then
        chunks.flatten[max start d.ringbufStart + i - ringbufSize]
      else uninit (max start d.ringbufStart + i) := by
  have h := buffered_feedAll uninit chunks fed
  rw [getElem_ringbufExtract d start stop (by omega) inside]
  split
  · exact h.stores.ahead past near ‹_›
  · exact h.unwritten.ahead past (by omega)

theorem feedAll_extract_past_end_sample : (ringbufExtract 32768 sampleFeeder 0 5).get ⟨3, by decide⟩ = 0 :=
  (feedAll_extract_past_end defaultConfig 32768 (fun _ _ => 0) (fun _ => 0) [[1, 2, 3]] (Option.some_get _).symm
    (by decide) (by decide) (by decide)).trans (by decide)

/-- `ringbuf_start` trails the ring by a feed: after a feed of `n ≤ ringbuf_size`
samples onto `m > ringbuf_size`, it is `m - ringbuf_size`, while the ring has
overwritten the first `n` positions from there. A window that the clamp starts
there gets, for each of those positions, the sample `ringbuf_size` later: one
of the last feed's. -/
theorem feedAll_extract_stale_start (uninit : Nat → α) (chunks : List (List α)) (chunk : List α)
    {d : Feeder α K} (fed : feedAll cfg ringbufSize spectrum (Feeder.init uninit) (chunks ++ [chunk]) = some d)
    (full : ringbufSize < chunks.flatten.length) (fitsIn : chunk.length ≤ ringbufSize) {start stop i : Nat}
    (early : start ≤ d.ringbufStart) (inside : i < (ringbufExtract ringbufSize d start stop).length)
    (fresh : i < chunk.length) :
    d.ringbufStart = chunks.flatten.length - ringbufSize ∧
      (ringbufExtract ringbufSize d start stop)[i] = chunk[i] := by
  -- the feeds before the last one, and the last
  unfold feedAll at fed
  rw [List.foldlM_append] at fed
  cases before : chunks.foldlM (feed cfg ringbufSize spectrum) (Feeder.init uninit) with
  | none =>
    rw [before] at fed
    cases fed
  | some e =>
    rw [before] at fed
    have last : feed cfg ringbufSize spectrum e chunk = some d := by simpa using fed
    have held := buffered_feedAll uninit chunks before
    have starts : d.ringbufStart = chunks.flatten.length - ringbufSize := by
      rw [ringbufStart_feed last, held.count, if_pos full]
    have stores := (held.feed last).stores
    refine ⟨starts, ?_⟩
    rw [getElem_ringbufExtract d start stop (by omega) inside, max_eq_right early, starts]
    have overwritten := stores.behind (q := chunks.flatten.length - ringbufSize + i)
      (by rw [List.length_append]; omega) (by rw [List.length_append]; omega)
    rw [overwritten, List.getElem_append_right (by omega)]
    congr 1
    omega

theorem feedAll_extract_stale_start_sample :
    (ringbufExtract 2 ((feedAll defaultConfig 2 (fun _ _ => 0) (Feeder.init fun _ => 0) ([[1, 2, 3]] ++ [[4]])).get
      (by decide)) 0 4).get ⟨0, by decide⟩ = 4 :=
  (feedAll_extract_stale_start defaultConfig 2 (fun _ _ => 0) (fun _ => 0) [[1, 2, 3]] [4] (Option.some_get _).symm
    (by decide) (by decide) (by decide) (by decide) (by decide)).2.trans (by decide)

end IridiumSniffer.BurstFeed
