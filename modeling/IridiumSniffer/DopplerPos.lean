import Mathlib

/-! Doppler positioning of `doppler_pos.c`: the per-satellite circular buffers
of IRA measurements that `doppler_pos_add_measurement` fills, and the partner
search of `estimate_velocity`. Doubles are exact in an ordered field `K`, and a
norm tested against a bound is its square tested against the bound's square.
Timestamps are `uint64_t`, so a difference taken the wrong way round wraps to
nearly `2^64` ns: a measurement older than the last one stored resets its
satellite's buffer, and an older partner is never chosen for a velocity. -/
namespace IridiumSniffer.Doppler

/-- A `double[3]`. -/
structure Vec3 (K : Type) where
  x : K
  y : K
  z : K
deriving DecidableEq, Repr

variable {K : Type}

def Vec3.sub [Sub K] (a b : Vec3 K) : Vec3 K := ⟨a.x - b.x, a.y - b.y, a.z - b.z⟩

def Vec3.dot [Add K] [Mul K] (a b : Vec3 K) : K := a.x * b.x + a.y * b.y + a.z * b.z

def Vec3.cross [Sub K] [Mul K] (a b : Vec3 K) : Vec3 K :=
  ⟨a.y * b.z - a.z * b.y, a.z * b.x - a.x * b.z, a.x * b.y - a.y * b.x⟩

structure SatMeas (K : Type) where
  satEcef : Vec3 K
  freq : K
  timestamp : UInt64
  valid : Bool
deriving DecidableEq, Repr

/-- `sat_buffer_t`; `meas` holds the entries of `meas[MEAS_PER_SAT]`. -/
structure SatBuffer (K : Type) where
  satId : Nat
  meas : List (SatMeas K)
  head : Nat
  count : Nat
  channelFreq : K
deriving DecidableEq, Repr

/-- The fields of `ira_data_t` that `doppler_pos_add_measurement` reads. -/
structure IraFix (K : Type) where
  satId : Nat
  lat : K
  lon : K
  posXyz : Vec3 Int
deriving DecidableEq, Repr

def measPerSat : Nat := 200

def maxSatellites : Nat := 128

/-- A zeroed `sat_meas_t`. -/
def SatMeas.zero [Zero K] : SatMeas K := ⟨⟨0, 0, 0⟩, 0, 0, false⟩

/-- A zeroed buffer for `sat_id`. -/
def SatBuffer.fresh [Zero K] (satId : Nat) : SatBuffer K :=
  ⟨satId, List.replicate measPerSat .zero, 0, 0, 0⟩

/-- `ira_xyz_to_ecef`: 4 km a unit. -/
def iraXyzToEcef [Field K] (p : Vec3 Int) : Vec3 K :=
  ⟨p.x * 4000, p.y * 4000, p.z * 4000⟩

/-- `find_or_create_sat` over `satellites[0 .. n_satellites - 1]`: the index
of the buffer of `sat_id`, with a zeroed one appended while there is room, or
`none`, the `NULL` of a full table. -/
def findOrCreateSat [Zero K] (sats : List (SatBuffer K)) (satId : Nat) : Option (List (SatBuffer K) × Nat) :=
  match sats.findIdx? (·.satId == satId) with
  | some i => some (sats, i)
  | none => if maxSatellites ≤ sats.length then none else some (sats ++ [.fresh satId], sats.length)

def satBufAdd (s : SatBuffer K) (ecef : Vec3 K) (freq : K) (ts : UInt64) : SatBuffer K :=
  { s with
    meas := s.meas.set s.head ⟨ecef, freq, ts, true⟩
    head := (s.head + 1) % measPerSat
    count := if s.count < measPerSat then s.count + 1 else s.count }

@[simp] theorem satBufAdd_satId (s : SatBuffer K) (ecef : Vec3 K) (freq : K) (ts : UInt64) :
    (satBufAdd s ecef freq ts).satId = s.satId := rfl

@[simp] theorem satBufAdd_count (s : SatBuffer K) (ecef : Vec3 K) (freq : K) (ts : UInt64) :
    (satBufAdd s ecef freq ts).count = if s.count < measPerSat then s.count + 1 else s.count := rfl

/-- `sat_buf_get`: entry `idx` counted from the oldest. -/
def satBufGet (s : SatBuffer K) (idx : Nat) : Option (SatMeas K) :=
  if idx < s.count then
    let start := if s.count < measPerSat then 0 else (s.head + measPerSat - s.count) % measPerSat
    s.meas[(start + idx) % measPerSat]?
  else none

/-- `(double)(a - b) / 1e9`, the subtraction in `uint64_t`. -/
def gapSeconds [Field K] (a b : UInt64) : K :=
  ((a - b).toNat : K) / 1000000000

/-- The long-gap reset: `count = head = channel_freq = 0`. -/
def SatBuffer.reset [Zero K] (s : SatBuffer K) : SatBuffer K :=
  { s with head := 0, count := 0, channelFreq := 0 }

@[simp] theorem reset_satId [Zero K] (s : SatBuffer K) : s.reset.satId = s.satId := rfl

@[simp] theorem reset_count [Zero K] (s : SatBuffer K) : s.reset.count = 0 := rfl

/-- `s->meas[last]`, `last = (head - 1 + MEAS_PER_SAT) % MEAS_PER_SAT`: the
measurement stored last. -/
def SatBuffer.latest [Zero K] (s : SatBuffer K) : SatMeas K :=
  s.meas.getD ((s.head + measPerSat - 1) % measPerSat) .zero

/-- `r < 7050e3 || r > 7250e3` for `r = vec3_norm(p)`, on squares. -/
def outOfBand [Field K] [LT K] (p : Vec3 K) : Prop :=
  p.dot p < 7050000 ^ 2 ∨ 7250000 ^ 2 < p.dot p

instance [Field K] [LinearOrder K] (p : Vec3 K) : Decidable (outOfBand p) :=
  inferInstanceAs (Decidable (_ ∨ _))

/-! ### Bounds of the buffers -/

section Bounds

/-- The bounds under which `sat_buf_add` and `sat_buf_get` index `meas`. -/
structure SatBuffer.WellFormed (s : SatBuffer K) : Prop where
  size : s.meas.length = measPerSat
  head_lt : s.head < measPerSat
  count_le : s.count ≤ measPerSat

/-- `satellites[0 .. n_satellites - 1]`: at most `MAX_SATELLITES` buffers, each
in its bounds, one for each `sat_id`. -/
structure TableWellFormed (sats : List (SatBuffer K)) : Prop where
  size : sats.length ≤ maxSatellites
  buffers : ∀ s ∈ sats, s.WellFormed
  distinct : (sats.map (·.satId)).Nodup

theorem fresh_wellFormed [Zero K] (satId : Nat) : (SatBuffer.fresh satId : SatBuffer K).WellFormed :=
  ⟨by simp [SatBuffer.fresh], by simp [SatBuffer.fresh, measPerSat], by simp [SatBuffer.fresh]⟩

theorem SatBuffer.WellFormed.reset [Zero K] {s : SatBuffer K} (wf : s.WellFormed) :
    s.reset.WellFormed :=
  ⟨wf.size, by simp [SatBuffer.reset, measPerSat], by simp⟩

theorem SatBuffer.WellFormed.satBufAdd {s : SatBuffer K} (wf : s.WellFormed) (ecef : Vec3 K)
    (freq : K) (ts : UInt64) : (satBufAdd s ecef freq ts).WellFormed where
  size := by simp [IridiumSniffer.Doppler.satBufAdd, wf.size]
  head_lt := Nat.mod_lt _ (by decide)
  count_le := by
    have := wf.count_le
    simp only [satBufAdd_count]
    split <;> omega

end Bounds

variable [Field K] [LinearOrder K]

/-- The buffer part of `doppler_pos_add_measurement`: after more than
`SAT_GAP_RESET_S = 600` s since the last stored measurement the buffer is reset;
otherwise a jump faster than 10 km/s within 120 s is rejected, `none`. -/
def addToBuffer (s : SatBuffer K) (ecef : Vec3 K) (frequency : K) (timestamp : UInt64) :
    Option (SatBuffer K) :=
  if 0 < s.count then
    let dt : K := gapSeconds timestamp s.latest.timestamp
    if dt > 600 then some (satBufAdd s.reset ecef frequency timestamp)
    else
      let d := ecef.sub s.latest.satEcef
      if 0 < dt ∧ dt < 120 ∧ d.dot d > (10000 * dt) ^ 2 then none
      else some (satBufAdd s ecef frequency timestamp)
  else some (satBufAdd s ecef frequency timestamp)

/-- `doppler_pos_add_measurement` on `satellites[0 .. n_satellites - 1]`. -/
def addMeasurement (sats : List (SatBuffer K)) (ira : IraFix K) (frequency : K) (timestamp : UInt64) :
    List (SatBuffer K) :=
  if ira.satId = 0 ∨ ira.lat < -90 ∨ 90 < ira.lat ∨ ira.lon < -180 ∨ 180 < ira.lon then sats
  else
    let ecef : Vec3 K := iraXyzToEcef ira.posXyz
    if outOfBand ecef then sats
    else
      match findOrCreateSat sats ira.satId with
      | none => sats
      | some (sats, i) =>
        match sats[i]? with
        | none => sats
        | some s =>
          match addToBuffer s ecef frequency timestamp with
          | none => sats
          | some s => sats.set i s

/-- The calls of `doppler_pos_add_measurement` the consumer thread makes, one
per IRA frame, in the order the frames arrive. -/
def addMeasurements (sats : List (SatBuffer K)) (calls : List (IraFix K × K × UInt64)) :
    List (SatBuffer K) :=
  calls.foldl (fun sats call => addMeasurement sats call.1 call.2.1 call.2.2) sats

/-- `fabs((double)(m->timestamp - cur->timestamp) / 1e9)`, the separation
`estimate_velocity` computes. -/
def partnerGap (cur m : SatMeas K) : K :=
  |gapSeconds m.timestamp cur.timestamp|

/-- One turn of the partner loop of `estimate_velocity` at `i`, on the pair
`(best_dt, best_other)`. -/
def partnerStep (s : SatBuffer K) (idx : Nat) (cur : SatMeas K) (best : K × Option (SatMeas K))
    (i : Nat) : K × Option (SatMeas K) :=
  if i = idx then best
  else
    match satBufGet s i with
    | none => best
    | some m =>
      if !m.valid then best
      else
        let dt := partnerGap cur m
        if 2 ≤ dt ∧ dt < 600 ∧ best.1 < dt then
          if outOfBand m.satEcef then best else (dt, some m)
        else best

/-- The partner search of `estimate_velocity`: `best_other` after `i` runs
over `0 .. count - 1`. -/
def velocityPartner (s : SatBuffer K) (idx : Nat) (cur : SatMeas K) : Option (SatMeas K) :=
  ((List.range s.count).foldl (partnerStep s idx cur) (0, none)).2

/-- `estimate_velocity`, with `sqrt` the square root of the doubles: `none` is a
return of `-1`. -/
def estimateVelocity (sqrt : K → K) (s : SatBuffer K) (idx : Nat) : Option (Vec3 K) := do
  let cur ← satBufGet s idx
  if cur.satEcef.dot cur.satEcef < 1000000 ^ 2 then none
  let other ← velocityPartner s idx cur
  let h := cur.satEcef.cross other.satEcef
  if h.dot h < 1000000 ^ 2 then none
  let vDir := h.cross cur.satEcef
  if vDir.dot vDir < 1 then none
  let forward := if other.timestamp > cur.timestamp then other.satEcef.sub cur.satEcef
    else cur.satEcef.sub other.satEcef
  let sign : K := if 0 ≤ vDir.dot forward then 1 else -1
  let speed := sqrt (398600441800000 / sqrt (cur.satEcef.dot cur.satEcef))
  let vNorm := sqrt (vDir.dot vDir)
  pure ⟨sign * speed * vDir.x / vNorm, sign * speed * vDir.y / vNorm, sign * speed * vDir.z / vNorm⟩

/-! ### The timestamp gap -/

section Gap

variable [IsStrictOrderedRing K]

theorem toNat_sub_later {a b : UInt64} (later : b ≤ a) : (a - b).toNat = a.toNat - b.toNat :=
  UInt64.toNat_sub_of_le a b later

theorem toNat_sub_earlier {a b : UInt64} (earlier : a < b) :
    (a - b).toNat = 2 ^ 64 - (b.toNat - a.toNat) := by
  have before := UInt64.lt_iff_toNat_lt.mp earlier
  have bound := b.toNat_lt
  rw [UInt64.toNat_sub, Nat.mod_eq_of_lt (by omega)]
  omega

theorem gapSeconds_nonneg (a b : UInt64) : (0 : K) ≤ gapSeconds a b := by
  unfold gapSeconds
  positivity

theorem lt_gapSeconds_iff (a b : UInt64) (c : Nat) :
    (c : K) < gapSeconds a b ↔ c * 1000000000 < (a - b).toNat := by
  rw [gapSeconds, lt_div_iff₀ (by norm_num)]
  norm_cast

theorem gapSeconds_lt_iff (a b : UInt64) (c : Nat) :
    gapSeconds a b < (c : K) ↔ (a - b).toNat < c * 1000000000 := by
  rw [gapSeconds, div_lt_iff₀ (by norm_num)]
  norm_cast

end Gap

/-! ### The long-gap reset -/

section Reset

variable [IsStrictOrderedRing K] {s : SatBuffer K} {ecef : Vec3 K} {frequency : K} {timestamp : UInt64}

/-- More than 600 s after the measurement stored last, the buffer is reset
before the new one goes in. -/
theorem addToBuffer_of_gap (busy : 0 < s.count)
    (gap : 600000000000 < (timestamp - s.latest.timestamp).toNat) :
    addToBuffer s ecef frequency timestamp = some (satBufAdd s.reset ecef frequency timestamp) := by
  have late : (600 : K) < gapSeconds timestamp s.latest.timestamp := by
    exact_mod_cast (lt_gapSeconds_iff timestamp s.latest.timestamp 600).mpr gap
  simp only [addToBuffer, busy, if_true, gt_iff_lt, late]

/-- Within 600 s the buffer is kept: the measurement goes in, or is refused
as a jump faster than 10 km/s. -/
theorem addToBuffer_of_near (busy : 0 < s.count)
    (near : (timestamp - s.latest.timestamp).toNat ≤ 600000000000) :
    addToBuffer s ecef frequency timestamp = none ∨
      addToBuffer s ecef frequency timestamp = some (satBufAdd s ecef frequency timestamp) := by
  have early : ¬ (600 : K) < gapSeconds timestamp s.latest.timestamp := by
    rw [show (600 : K) = ((600 : Nat) : K) by norm_num, lt_gapSeconds_iff]
    omega
  simp only [addToBuffer, busy, if_true, gt_iff_lt, early, if_false]
  split
  · exact .inl rfl
  · exact .inr rfl

/-- A measurement older than the one stored last, by anything short of
`2^64` ns less 600 s, resets the buffer: the `uint64_t` difference wraps. -/
theorem addToBuffer_earlier_resets (busy : 0 < s.count) (earlier : timestamp < s.latest.timestamp)
    (recent : s.latest.timestamp.toNat - timestamp.toNat < 2 ^ 64 - 600000000000) :
    addToBuffer s ecef frequency timestamp = some (satBufAdd s.reset ecef frequency timestamp) := by
  apply addToBuffer_of_gap busy
  rw [toNat_sub_earlier earlier]
  omega

/-- An IRA fix of satellite 1 at 7160 km on the x axis. -/
def fixNear : IraFix ℚ := ⟨1, 0, 0, ⟨1790, 0, 0⟩⟩

/-- Two fixes of satellite 1 at one place one second apart. In timestamp order
both are kept; with the later one first, the earlier one finds a gap of
`(2^64 - 10^9) / 10^9` s and resets the buffer, so that only it remains. -/
theorem addMeasurement_out_of_order_resets :
    (addMeasurements [] [(fixNear, 0, 999000000000), (fixNear, 0, 1000000000000)]).map (·.count) = [2] ∧
      (addMeasurements [] [(fixNear, 0, 1000000000000), (fixNear, 0, 999000000000)]).map (·.count) =
        [1] := by
  decide +kernel

end Reset

/-! ### The table over a run -/

section Table

/-- What `doppler_pos_add_measurement` can do to the buffer it finds: add the
measurement, after a reset or not. -/
theorem addToBuffer_cases {s s' : SatBuffer K} {ecef : Vec3 K} {frequency : K} {timestamp : UInt64}
    (added : addToBuffer s ecef frequency timestamp = some s') :
    s' = satBufAdd s.reset ecef frequency timestamp ∨ s' = satBufAdd s ecef frequency timestamp := by
  unfold addToBuffer at added
  dsimp only at added
  split at added
  · split at added
    · exact .inl (Option.some.inj added).symm
    · split at added
      · cases added
      · exact .inr (Option.some.inj added).symm
  · exact .inr (Option.some.inj added).symm

theorem addToBuffer_satId {s s' : SatBuffer K} {ecef : Vec3 K} {frequency : K} {timestamp : UInt64}
    (added : addToBuffer s ecef frequency timestamp = some s') : s'.satId = s.satId := by
  rcases addToBuffer_cases added with rfl | rfl <;> simp

theorem SatBuffer.WellFormed.addToBuffer {s s' : SatBuffer K} {ecef : Vec3 K} {frequency : K}
    {timestamp : UInt64} (wf : s.WellFormed) (added : addToBuffer s ecef frequency timestamp = some s') :
    s'.WellFormed := by
  rcases addToBuffer_cases added with rfl | rfl
  · exact wf.reset.satBufAdd ecef frequency timestamp
  · exact wf.satBufAdd ecef frequency timestamp

/-- Writing back the buffer a measurement went into keeps the table in its
bounds: the buffer keeps its `sat_id`. -/
theorem TableWellFormed.set {sats : List (SatBuffer K)} {i : Nat} {s s' : SatBuffer K}
    {ecef : Vec3 K} {frequency : K} {timestamp : UInt64} (wf : TableWellFormed sats)
    (get : sats[i]? = some s) (added : addToBuffer s ecef frequency timestamp = some s') :
    TableWellFormed (sats.set i s') := by
  obtain ⟨inside, rfl⟩ := List.getElem?_eq_some_iff.mp get
  refine ⟨by simpa using wf.size, fun b mem => ?_, ?_⟩
  · rcases List.mem_or_eq_of_mem_set mem with old | rfl
    · exact wf.buffers b old
    · exact (wf.buffers _ (List.getElem_mem inside)).addToBuffer added
  · have same : (sats.map (·.satId)).set i s'.satId = sats.map (·.satId) := by
      apply List.ext_getElem (by simp)
      intro j _ _
      simp only [List.getElem_set, List.getElem_map]
      split
      · rename_i at_i
        subst at_i
        exact addToBuffer_satId added
      · rfl
    rw [List.map_set, same]
    exact wf.distinct

end Table

/-! ### The partner search -/

section Partner

variable {s : SatBuffer K} {idx : Nat} {cur m : SatMeas K}

/-- Entry `i`, `m`, is one the partner loop for `cur` at `idx` accepts: valid,
at another index, `2 <= dt < 600` for the separation the loop computes, and in
the orbit band. -/
def PartnerAt (s : SatBuffer K) (idx : Nat) (cur : SatMeas K) (i : Nat) (m : SatMeas K) : Prop :=
  i < s.count ∧ i ≠ idx ∧ satBufGet s i = some m ∧ m.valid = true ∧
    2 ≤ partnerGap cur m ∧ partnerGap cur m < 600 ∧ ¬ outOfBand m.satEcef

/-- What the partner loop keeps after the indices below `k`: `best_dt = 0`
while no partner is chosen, a chosen one is accepted, and one is chosen as soon
as an index below `k` is accepted. -/
structure PartnerInv (s : SatBuffer K) (idx : Nat) (cur : SatMeas K) (k : Nat)
    (best : K × Option (SatMeas K)) : Prop where
  unset : best.2 = none → best.1 = 0
  chosen : ∀ m, best.2 = some m → ∃ i, PartnerAt s idx cur i m
  found : ∀ i m, i < k → PartnerAt s idx cur i m → best.2.isSome

/-- One turn of the loop keeps `(best_dt, best_other)`, or replaces it by an
accepted entry with a larger separation. -/
theorem partnerStep_cases (s : SatBuffer K) (idx : Nat) (cur : SatMeas K) (best : K × Option (SatMeas K))
    {i : Nat} (inside : i < s.count) :
    partnerStep s idx cur best i = best ∨ ∃ m, PartnerAt s idx cur i m ∧
      partnerStep s idx cur best i = (partnerGap cur m, some m) := by
  unfold partnerStep
  split
  · exact .inl rfl
  · rename_i other
    split
    · exact .inl rfl
    · rename_i m get
      dsimp only
      split
      · exact .inl rfl
      · rename_i valid
        split
        · rename_i far
          split
          · exact .inl rfl
          · rename_i band
            exact .inr ⟨m, ⟨inside, other, get, by simpa using valid, far.1, far.2.1, band⟩, rfl⟩
        · exact .inl rfl

theorem estimateVelocity_of_no_partner (sqrt : K → K) (get : satBufGet s idx = some cur)
    (alone : velocityPartner s idx cur = none) : estimateVelocity sqrt s idx = none := by
  by_cases low : cur.satEcef.dot cur.satEcef < 1000000 ^ 2
  · simp [estimateVelocity, get, low]
  · simp [estimateVelocity, get, low, alone]

variable [IsStrictOrderedRing K]

theorem partnerStep_of_partnerAt {best : K × Option (SatMeas K)} {i : Nat}
    (at_i : PartnerAt s idx cur i m) (unset : best.2 = none → best.1 = 0) :
    (partnerStep s idx cur best i).2.isSome := by
  obtain ⟨inside, other, get, valid, far, near, band⟩ := at_i
  cases chosen : best.2 with
  | some b =>
    rcases partnerStep_cases s idx cur best inside with same | ⟨m', -, new⟩
    · simp [same, chosen]
    · simp [new]
  | none =>
    have larger : best.1 < partnerGap cur m := by
      rw [unset chosen]
      linarith
    simp [partnerStep, other, get, valid, far, near, larger, band]

theorem PartnerInv.step {k : Nat} {best : K × Option (SatMeas K)} (inv : PartnerInv s idx cur k best)
    (inside : k < s.count) : PartnerInv s idx cur (k + 1) (partnerStep s idx cur best k) := by
  rcases partnerStep_cases s idx cur best inside with same | ⟨m', at_k, new⟩
  · refine ⟨by simpa [same] using inv.unset, by simpa [same] using inv.chosen, fun i m below at_i => ?_⟩
    rcases Nat.lt_succ_iff_lt_or_eq.mp below with below | rfl
    · simpa [same] using inv.found i m below at_i
    · exact partnerStep_of_partnerAt at_i inv.unset
  · rw [new]
    exact ⟨by simp, fun m chosen => ⟨k, by simpa [← Option.some.inj chosen] using at_k⟩, by simp⟩

theorem partnerInv_range {k : Nat} (inside : k ≤ s.count) :
    PartnerInv s idx cur k ((List.range k).foldl (partnerStep s idx cur) (0, none)) := by
  induction k with
  | zero => exact ⟨fun _ => rfl, by simp, fun _ _ below => absurd below (Nat.not_lt_zero _)⟩
  | succ k ih =>
    rw [List.range_succ, List.foldl_append, List.foldl_cons, List.foldl_nil]
    exact (ih (by omega)).step (by omega)

/-- The separation of two measurements in time, whichever comes first. -/
def timeApart (cur m : SatMeas K) : K :=
  |(m.timestamp.toNat : K) - cur.timestamp.toNat| / 1000000000

/-- The partners a rule symmetric in time would accept: `timeApart` in place
of the loop's separation. -/
def SymmetricPartnerAt (s : SatBuffer K) (idx : Nat) (cur : SatMeas K) (i : Nat) (m : SatMeas K) :
    Prop :=
  i < s.count ∧ i ≠ idx ∧ satBufGet s i = some m ∧ m.valid = true ∧
    2 ≤ timeApart cur m ∧ timeApart cur m < 600 ∧ ¬ outOfBand m.satEcef

/-- For a measurement before `cur` it is the wrapped difference: 600 s or
more, unless the two are within 600 s of `2^64` ns apart. -/
theorem six_hundred_le_partnerGap (earlier : m.timestamp < cur.timestamp)
    (recent : cur.timestamp.toNat - m.timestamp.toNat ≤ 2 ^ 64 - 600000000000) :
    600 ≤ partnerGap cur m := by
  have wrapped : ¬ gapSeconds m.timestamp cur.timestamp < ((600 : Nat) : K) := by
    rw [gapSeconds_lt_iff, toNat_sub_earlier earlier]
    omega
  rw [partnerGap, abs_of_nonneg (gapSeconds_nonneg _ _)]
  exact_mod_cast not_lt.mp wrapped

theorem partnerAt_later {i : Nat} (at_i : PartnerAt s idx cur i m)
    (recent : cur.timestamp.toNat - m.timestamp.toNat ≤ 2 ^ 64 - 600000000000) :
    cur.timestamp ≤ m.timestamp := by
  by_contra earlier
  have := six_hundred_le_partnerGap (UInt64.not_le.mp earlier) recent
  exact absurd at_i.2.2.2.2.2.1 (not_lt.mpr this)

/-- The same satellite 100 s after `fixNear`, 80 km further along its orbit. -/
def fixOn : IraFix ℚ := ⟨1, 0, 0, ⟨1789, 20, 0⟩⟩

/-- The buffer of satellite 1 after `fixNear` and then `fixOn`. -/
def twoFixes : SatBuffer ℚ :=
  (addMeasurements [] [(fixNear, 0, 1000000000000), (fixOn, 0, 1100000000000)]).headD (.fresh 0)

/-- Of two fixes 100 s apart, the older is the newest's partner under the
symmetric rule, but the loop computes its separation as `(2^64 - 10^11) / 10^9`
s: the newest has no partner and `estimate_velocity` returns `-1` for it, while
the older one does find the newest. -/
theorem estimateVelocity_rejects_newest :
    (addMeasurements [] [(fixNear, 0, 1000000000000), (fixOn, 0, 1100000000000)]).length = 1 ∧
      ∃ older newest, satBufGet twoFixes 0 = some older ∧ satBufGet twoFixes 1 = some newest ∧
        SymmetricPartnerAt twoFixes 1 newest 0 older ∧ velocityPartner twoFixes 1 newest = none ∧
        (∀ sqrt : ℚ → ℚ, estimateVelocity sqrt twoFixes 1 = none) ∧
        velocityPartner twoFixes 0 older = some newest := by
  have older : satBufGet twoFixes 0 = some ⟨⟨7160000, 0, 0⟩, 0, 1000000000000, true⟩ := by
    decide +kernel
  have newest : satBufGet twoFixes 1 = some ⟨⟨7156000, 80000, 0⟩, 0, 1100000000000, true⟩ := by
    decide +kernel
  have alone : velocityPartner twoFixes 1 ⟨⟨7156000, 80000, 0⟩, 0, 1100000000000, true⟩ = none := by
    decide +kernel
  have symmetric : SymmetricPartnerAt twoFixes 1 ⟨⟨7156000, 80000, 0⟩, 0, 1100000000000, true⟩ 0
      ⟨⟨7160000, 0, 0⟩, 0, 1000000000000, true⟩ := by
    unfold SymmetricPartnerAt
    decide +kernel
  refine ⟨by decide +kernel, _, _, older, newest, symmetric, alone,
    fun sqrt => estimateVelocity_of_no_partner sqrt newest alone, by decide +kernel⟩

end Partner

end IridiumSniffer.Doppler
