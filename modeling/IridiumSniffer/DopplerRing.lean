import IridiumSniffer.DopplerPos

/-! The measurement ring of a `sat_buffer_t` as a bounded FIFO. `Holds s ms`
relates a buffer to the measurements `ms` added since its last reset: the
`k`-th of them sits in slot `k % MEAS_PER_SAT` while it is among the last
`MEAS_PER_SAT`, `head` is `|ms| % MEAS_PER_SAT` and `count` is
`min |ms| MEAS_PER_SAT`. `sat_buf_add` and the reset keep it, and `sat_buf_get`
then reads the last `MEAS_PER_SAT` of `ms` in order. -/
namespace IridiumSniffer.Doppler

variable {K : Type}

/-- What happens to a buffer: `sat_buf_add`, or the reset of
`doppler_pos_add_measurement`. -/
inductive BufOp (K : Type) where
  | add (ecef : Vec3 K) (freq : K) (ts : UInt64)
  | reset
deriving DecidableEq, Repr

def BufOp.apply [Zero K] (s : SatBuffer K) : BufOp K → SatBuffer K
  | .add ecef freq ts => satBufAdd s ecef freq ts
  | .reset => s.reset

def runOps [Zero K] (s : SatBuffer K) (ops : List (BufOp K)) : SatBuffer K :=
  ops.foldl BufOp.apply s

/-- The measurements since the last reset, oldest first, after one more op. -/
def BufOp.record (ms : List (SatMeas K)) : BufOp K → List (SatMeas K)
  | .add ecef freq ts => ms ++ [⟨ecef, freq, ts, true⟩]
  | .reset => []

def addedSinceReset (ops : List (BufOp K)) : List (SatMeas K) :=
  ops.foldl BufOp.record []

/-- The FIFO a bounded ring of `MEAS_PER_SAT` slots keeps: the last ones. -/
def window {α : Type} (ms : List α) : List α :=
  ms.drop (ms.length - measPerSat)

theorem length_window {α : Type} (ms : List α) : (window ms).length = min ms.length measPerSat := by
  simp only [window, List.length_drop]
  omega

structure Holds (s : SatBuffer K) (ms : List (SatMeas K)) : Prop where
  wf : s.WellFormed
  count : s.count = min ms.length measPerSat
  head : s.head = ms.length % measPerSat
  stored : ∀ k < ms.length, ms.length - measPerSat ≤ k → s.meas[k % measPerSat]? = ms[k]?

theorem holds_reset [Zero K] {s : SatBuffer K} (wf : s.WellFormed) : Holds s.reset [] :=
  ⟨wf.reset, rfl, rfl, fun _ below => absurd below (Nat.not_lt_zero _)⟩

theorem holds_fresh [Zero K] {s : SatBuffer K} (wf : s.WellFormed) (fresh : s.count = 0 ∧ s.head = 0) :
    Holds s [] :=
  ⟨wf, fresh.1, fresh.2, fun _ below => absurd below (Nat.not_lt_zero _)⟩

/-- `sat_buf_add` writes slot `head = |ms| % MEAS_PER_SAT`, the one the oldest
kept measurement leaves once the ring is full. -/
theorem Holds.add {s : SatBuffer K} {ms : List (SatMeas K)} (h : Holds s ms) (ecef : Vec3 K) (freq : K)
    (ts : UInt64) : Holds (satBufAdd s ecef freq ts) (ms ++ [⟨ecef, freq, ts, true⟩]) := by
  have full := h.wf.size
  refine ⟨h.wf.satBufAdd ecef freq ts, ?_, ?_, ?_⟩
  · simp only [satBufAdd_count, h.count, List.length_append, List.length_singleton, measPerSat]
    split <;> omega
  · simp only [satBufAdd, h.head, List.length_append, List.length_singleton, measPerSat]
    omega
  · intro k below recent
    simp only [List.length_append, List.length_singleton] at below recent
    simp only [satBufAdd, h.head, List.getElem?_set, full]
    by_cases last : k = ms.length
    · subst last
      simp [measPerSat, Nat.mod_lt _ (show 0 < 200 by decide)]
    · -- an older measurement, still in the window: in another slot
      have other : ms.length % measPerSat ≠ k % measPerSat := by
        simp only [measPerSat] at recent ⊢
        omega
      rw [if_neg other, List.getElem?_append_left (by omega)]
      exact h.stored k (by omega) (by omega)

theorem Holds.apply [Zero K] {s : SatBuffer K} {ms : List (SatMeas K)} (h : Holds s ms) (op : BufOp K) :
    Holds (op.apply s) (op.record ms) := by
  cases op with
  | add ecef freq ts => exact h.add ecef freq ts
  | reset => exact holds_reset h.wf

theorem Holds.runOps [Zero K] {s : SatBuffer K} {ms : List (SatMeas K)} (h : Holds s ms) (ops : List (BufOp K)) :
    Holds (runOps s ops) (ops.foldl BufOp.record ms) := by
  induction ops generalizing s ms with
  | nil => exact h
  | cons op ops ih => exact ih (h.apply op)

theorem SatBuffer.WellFormed.runOps [Zero K] {s : SatBuffer K} (wf : s.WellFormed) (ops : List (BufOp K)) :
    (runOps s ops).WellFormed := by
  induction ops generalizing s with
  | nil => exact wf
  | cons op ops ih =>
    cases op with
    | add ecef freq ts => exact ih (wf.satBufAdd ecef freq ts)
    | reset => exact ih wf.reset

/-- After a reset the buffer holds what was added since, whatever it held
before. -/
theorem holds_of_reset_mem [Zero K] {s : SatBuffer K} (wf : s.WellFormed) {ops : List (BufOp K)}
    (reset : BufOp.reset ∈ ops) : Holds (runOps s ops) (addedSinceReset ops) := by
  obtain ⟨before, after, rfl⟩ := List.append_of_mem reset
  have restart : addedSinceReset (before ++ BufOp.reset :: after) = after.foldl BufOp.record [] := by
    simp [addedSinceReset, List.foldl_append, BufOp.record]
  rw [restart, IridiumSniffer.Doppler.runOps, List.foldl_append, List.foldl_cons]
  exact (holds_reset (wf.runOps before)).runOps after

/-- `sat_buf_get` reads the window: `start` is 0 until the ring is full and
`head` after, so entry `idx` is slot `(|ms| - count + idx) % MEAS_PER_SAT`. -/
theorem Holds.satBufGet {s : SatBuffer K} {ms : List (SatMeas K)} (h : Holds s ms) (idx : Nat) :
    satBufGet s idx = (window ms)[idx]? := by
  unfold IridiumSniffer.Doppler.satBufGet
  split
  · rename_i below
    rw [h.count] at below
    have slot : ((if s.count < measPerSat then 0 else (s.head + measPerSat - s.count) % measPerSat) + idx)
        % measPerSat = (ms.length - measPerSat + idx) % measPerSat := by
      rw [h.count, h.head]
      by_cases small : min ms.length measPerSat < measPerSat
      · rw [if_pos small]
        simp only [measPerSat] at small below ⊢
        omega
      · rw [if_neg small]
        simp only [measPerSat] at small below ⊢
        omega
    dsimp only
    rw [slot, window, List.getElem?_drop]
    exact h.stored _ (by simp only [measPerSat] at below ⊢; omega) (by omega)
  · rename_i above
    rw [List.getElem?_eq_none]
    rw [length_window, ← h.count]
    omega

theorem Holds.latest [Zero K] {s : SatBuffer K} {ms : List (SatMeas K)} (h : Holds s ms) (busy : 0 < s.count) :
    some s.latest = ms.getLast? := by
  have nonempty : 0 < ms.length := by
    rw [h.count] at busy
    omega
  have slot : (s.head + measPerSat - 1) % measPerSat = (ms.length - 1) % measPerSat := by
    rw [h.head]
    simp only [measPerSat]
    omega
  have stored := h.stored (ms.length - 1) (by omega) (by simp only [measPerSat]; omega)
  rw [List.getLast?_eq_getElem?, ← stored, ← slot, SatBuffer.latest, List.getD_eq_getElem?_getD,
    List.getElem?_eq_getElem (by rw [h.wf.size]; exact Nat.mod_lt _ (by decide))]
  rfl

/-- Over every run of `sat_buf_add` calls and resets on a buffer that starts
reset or is reset on the way: `count = min(n, MEAS_PER_SAT)` for the `n`
measurements since the last reset, `sat_buf_get(i)` is the `(n - count + i)`-th
of them below `count` and `NULL` from `count` on, and `meas[last]` is the
latest. -/
theorem sat_buffer_fifo [Zero K] (s : SatBuffer K) (wf : s.WellFormed) (ops : List (BufOp K))
    (start : (s.count = 0 ∧ s.head = 0) ∨ BufOp.reset ∈ ops) :
    (runOps s ops).count = min (addedSinceReset ops).length measPerSat ∧
      (∀ i < (runOps s ops).count, satBufGet (runOps s ops) i =
        (addedSinceReset ops)[(addedSinceReset ops).length - (runOps s ops).count + i]?) ∧
      (∀ i, (runOps s ops).count ≤ i → satBufGet (runOps s ops) i = none) ∧
      (0 < (runOps s ops).count → some (runOps s ops).latest = (addedSinceReset ops).getLast?) := by
  have h : Holds (runOps s ops) (addedSinceReset ops) := by
    rcases start with fresh | reset
    · exact (holds_fresh wf fresh).runOps ops
    · exact holds_of_reset_mem wf reset
  refine ⟨h.count, fun i below => ?_, fun i above => ?_, h.latest⟩
  · have index : (addedSinceReset ops).length - measPerSat + i =
        (addedSinceReset ops).length - (runOps s ops).count + i := by
      rw [h.count]
      omega
    rw [h.satBufGet, window, List.getElem?_drop, index]
  · rw [h.satBufGet, List.getElem?_eq_none]
    rw [length_window, ← h.count]
    exact above

/-! ### The buffers of the table -/

section Table

/-- Every buffer of the table is a FIFO of the measurements since its last reset. -/
def Fifos (sats : List (SatBuffer K)) : Prop := ∀ s ∈ sats, ∃ ms, Holds s ms

theorem Fifos.findOrCreateSat [Zero K] {sats sats' : List (SatBuffer K)} {satId i : Nat} (fifos : Fifos sats)
    (found : findOrCreateSat sats satId = some (sats', i)) : Fifos sats' := by
  unfold IridiumSniffer.Doppler.findOrCreateSat at found
  split at found
  · obtain ⟨rfl, -⟩ := Prod.mk.inj (Option.some.inj found)
    exact fifos
  · split at found
    · cases found
    · obtain ⟨rfl, -⟩ := Prod.mk.inj (Option.some.inj found)
      intro s mem
      rcases List.mem_append.mp mem with old | new
      · exact fifos s old
      · rw [List.mem_singleton.mp new]
        exact ⟨[], holds_fresh (fresh_wellFormed satId) ⟨rfl, rfl⟩⟩

variable [Field K] [LinearOrder K]

/-- The update `doppler_pos_add_measurement` makes to the buffer it finds is a
run of ring ops. -/
theorem addToBuffer_runOps {s s' : SatBuffer K} {ecef : Vec3 K} {frequency : K} {timestamp : UInt64}
    (added : addToBuffer s ecef frequency timestamp = some s') :
    s' = runOps s [.reset, .add ecef frequency timestamp] ∨ s' = runOps s [.add ecef frequency timestamp] := by
  rcases addToBuffer_cases added with rfl | rfl
  · exact .inl rfl
  · exact .inr rfl

theorem Fifos.addMeasurement {sats : List (SatBuffer K)} (fifos : Fifos sats) (ira : IraFix K) (frequency : K)
    (timestamp : UInt64) : Fifos (addMeasurement sats ira frequency timestamp) := by
  unfold IridiumSniffer.Doppler.addMeasurement
  dsimp only
  split
  · exact fifos
  · split
    · exact fifos
    · split
      · exact fifos
      · rename_i found
        have fifos' := fifos.findOrCreateSat found
        split
        · exact fifos'
        · rename_i get
          split
          · exact fifos'
          · rename_i added
            intro b mem
            rcases List.mem_or_eq_of_mem_set mem with old | rfl
            · exact fifos' b old
            · obtain ⟨ms, h⟩ := fifos' _ (List.mem_of_getElem? get)
              rcases addToBuffer_runOps added with rfl | rfl
              · exact ⟨_, h.runOps _⟩
              · exact ⟨_, h.runOps _⟩

end Table

/-- A measurement, a reset, and another. -/
def resetBetween : List (BufOp ℚ) := [.add ⟨1, 0, 0⟩ 0 5, .reset, .add ⟨2, 0, 0⟩ 0 7]

theorem sat_buffer_fifo_reset_between :
    (SatBuffer.fresh 1 : SatBuffer ℚ).WellFormed ∧
      (((SatBuffer.fresh 1 : SatBuffer ℚ).count = 0 ∧ (SatBuffer.fresh 1 : SatBuffer ℚ).head = 0) ∨
        BufOp.reset ∈ resetBetween) ∧
      (runOps (.fresh 1) resetBetween).count = min (addedSinceReset resetBetween).length measPerSat ∧
      (∀ i < (runOps (.fresh 1) resetBetween).count, satBufGet (runOps (.fresh 1) resetBetween) i =
        (addedSinceReset resetBetween)[(addedSinceReset resetBetween).length -
          (runOps (.fresh 1) resetBetween).count + i]?) ∧
      (∀ i, (runOps (.fresh 1) resetBetween).count ≤ i → satBufGet (runOps (.fresh 1) resetBetween) i = none) ∧
      (0 < (runOps (.fresh 1) resetBetween).count →
        some (runOps (.fresh 1) resetBetween).latest = (addedSinceReset resetBetween).getLast?) :=
  ⟨fresh_wellFormed 1, .inl ⟨rfl, rfl⟩, sat_buffer_fifo _ (fresh_wellFormed 1) resetBetween (.inl ⟨rfl, rfl⟩)⟩

end IridiumSniffer.Doppler
