import Mathlib.Data.BitVec

/-! Sixteen-bit cyclic redundancy checks computed a bit at a time, most
significant bit first or reflected. A shift of the register is linear in
exclusive or (`shiftMsb_xor`, `shiftLsb_xor`), so the eight shifts that take in
a byte split into those of the register and those of the byte, and a reflected
check is a table lookup on the low octet (`byteLsb_table`). When the bit the
polynomial puts back is set, a shift loses nothing (`shiftsMsb_eq_zero`,
`shiftsLsb_eq_zero`), so a message followed by its own check leaves a zero
register, and no other two bytes do (`crcMsb_append_pair`,
`crcLsb_append_pair`). -/
namespace Crc

variable (poly : BitVec 16)

/-- One shift of a register read most significant bit first. -/
def shiftMsb (c : BitVec 16) : BitVec 16 :=
  if c.msb then (c <<< 1) ^^^ poly else c <<< 1

/-- One shift of a reflected register, read least significant bit first. -/
def shiftLsb (c : BitVec 16) : BitVec 16 :=
  if c.getLsbD 0 then (c >>> 1) ^^^ poly else c >>> 1

def shiftsMsb : Nat → BitVec 16 → BitVec 16
  | 0, c => c
  | n + 1, c => shiftMsb poly (shiftsMsb n c)

def shiftsLsb : Nat → BitVec 16 → BitVec 16
  | 0, c => c
  | n + 1, c => shiftLsb poly (shiftsLsb n c)

/-- A byte into the high octet of the register, then eight shifts. -/
def byteMsb (c : BitVec 16) (b : BitVec 8) : BitVec 16 :=
  shiftsMsb poly 8 (c ^^^ (b.setWidth 16 <<< 8))

/-- A byte into the low octet of a reflected register, then eight shifts. -/
def byteLsb (c : BitVec 16) (b : BitVec 8) : BitVec 16 :=
  shiftsLsb poly 8 (c ^^^ b.setWidth 16)

def crcMsb (init : BitVec 16) (bytes : List (BitVec 8)) : BitVec 16 :=
  bytes.foldl (byteMsb poly) init

def crcLsb (init : BitVec 16) (bytes : List (BitVec 8)) : BitVec 16 :=
  bytes.foldl (byteLsb poly) init

/-- The table of a reflected check: octet `i` shifted through a zero register. -/
def tableLsb (i : BitVec 8) : BitVec 16 :=
  shiftsLsb poly 8 (i.setWidth 16)

variable {poly}

private theorem xor_cancel (a b p : BitVec 16) : a ^^^ p ^^^ (b ^^^ p) = a ^^^ b := by
  rw [BitVec.xor_assoc a p (b ^^^ p), ← BitVec.xor_assoc p b p, BitVec.xor_comm p b,
    BitVec.xor_assoc b p p, BitVec.xor_self, BitVec.xor_zero]

theorem shiftMsb_xor (a b : BitVec 16) : shiftMsb poly (a ^^^ b) = shiftMsb poly a ^^^ shiftMsb poly b := by
  unfold shiftMsb
  simp only [BitVec.msb_xor, BitVec.shiftLeft_xor_distrib]
  cases a.msb <;> cases b.msb <;> simp <;> first | ac_rfl | exact (xor_cancel _ _ _).symm

theorem shiftLsb_xor (a b : BitVec 16) : shiftLsb poly (a ^^^ b) = shiftLsb poly a ^^^ shiftLsb poly b := by
  unfold shiftLsb
  simp only [BitVec.getLsbD_xor, BitVec.ushiftRight_xor_distrib]
  cases a.getLsbD 0 <;> cases b.getLsbD 0 <;> simp <;> first | ac_rfl | exact (xor_cancel _ _ _).symm

theorem shiftsMsb_xor (n : Nat) (a b : BitVec 16) :
    shiftsMsb poly n (a ^^^ b) = shiftsMsb poly n a ^^^ shiftsMsb poly n b := by
  induction n with
  | zero => rfl
  | succ n ih => simp only [shiftsMsb, ih, shiftMsb_xor]

theorem shiftsLsb_xor (n : Nat) (a b : BitVec 16) :
    shiftsLsb poly n (a ^^^ b) = shiftsLsb poly n a ^^^ shiftsLsb poly n b := by
  induction n with
  | zero => rfl
  | succ n ih => simp only [shiftsLsb, ih, shiftLsb_xor]

theorem shiftsMsb_add (m n : Nat) (c : BitVec 16) :
    shiftsMsb poly (m + n) c = shiftsMsb poly m (shiftsMsb poly n c) := by
  induction m with
  | zero => simp [shiftsMsb]
  | succ m ih => rw [Nat.add_right_comm, shiftsMsb, ih, shiftsMsb]

theorem shiftsLsb_add (m n : Nat) (c : BitVec 16) :
    shiftsLsb poly (m + n) c = shiftsLsb poly m (shiftsLsb poly n c) := by
  induction m with
  | zero => simp [shiftsLsb]
  | succ m ih => rw [Nat.add_right_comm, shiftsLsb, ih, shiftsLsb]

theorem shiftMsb_eq_zero (odd : poly.getLsbD 0 = true) {c : BitVec 16} (zero : shiftMsb poly c = 0) :
    c = 0 := by
  unfold shiftMsb at zero
  split at zero
  · -- the polynomial puts back bit 0, which the shift has cleared
    have bit := congrArg (BitVec.getLsbD · 0) zero
    rw [BitVec.getLsbD_xor, BitVec.getLsbD_shiftLeft, odd] at bit
    simp at bit
  · rename_i top
    apply BitVec.eq_of_getLsbD_eq
    intro i inside
    by_cases last : i = 15
    · subst last
      simpa [BitVec.msb_eq_getLsbD_last] using top
    · have bit := congrArg (BitVec.getLsbD · (i + 1)) zero
      simp only [BitVec.getLsbD_shiftLeft] at bit
      simpa [show i + 1 < 16 by omega] using bit

theorem shiftLsb_eq_zero (top : poly.msb = true) {c : BitVec 16} (zero : shiftLsb poly c = 0) :
    c = 0 := by
  unfold shiftLsb at zero
  split at zero
  · -- the polynomial puts back bit 15, which the shift has cleared
    have bit := congrArg (BitVec.getLsbD · 15) zero
    rw [BitVec.msb_eq_getLsbD_last] at top
    rw [BitVec.getLsbD_xor, BitVec.getLsbD_ushiftRight, top] at bit
    simp at bit
  · rename_i low
    apply BitVec.eq_of_getLsbD_eq
    intro i inside
    cases i with
    | zero => simpa using low
    | succ i =>
      have bit := congrArg (BitVec.getLsbD · i) zero
      simp only [BitVec.getLsbD_ushiftRight] at bit
      simpa [Nat.add_comm] using bit

theorem shiftsMsb_eq_zero (odd : poly.getLsbD 0 = true) (n : Nat) {c : BitVec 16}
    (zero : shiftsMsb poly n c = 0) : c = 0 := by
  induction n with
  | zero => exact zero
  | succ n ih => exact ih (shiftMsb_eq_zero odd zero)

theorem shiftsLsb_eq_zero (top : poly.msb = true) (n : Nat) {c : BitVec 16}
    (zero : shiftsLsb poly n c = 0) : c = 0 := by
  induction n with
  | zero => exact zero
  | succ n ih => exact ih (shiftLsb_eq_zero top zero)

theorem shiftsMsb_low {c : BitVec 16} (low : ∀ i, 8 ≤ i → c.getLsbD i = false) :
    ∀ k, k ≤ 8 → shiftsMsb poly k c = c <<< k
  | 0, _ => by simp [shiftsMsb]
  | k + 1, below => by
    rw [shiftsMsb, shiftsMsb_low low k (by omega)]
    have clear : (c <<< k).msb = false := by
      rw [BitVec.msb_eq_getLsbD_last, BitVec.getLsbD_shiftLeft]
      simp [low (15 - k) (by omega)]
    simp only [shiftMsb, clear, Bool.false_eq_true, if_false, BitVec.shiftLeft_add]

theorem shiftsLsb_high {c : BitVec 16} (high : ∀ i, i < 8 → c.getLsbD i = false) :
    ∀ k, k ≤ 8 → shiftsLsb poly k c = c >>> k
  | 0, _ => by simp [shiftsLsb]
  | k + 1, below => by
    rw [shiftsLsb, shiftsLsb_high high k (by omega)]
    have clear : (c >>> k).getLsbD 0 = false := by simpa using high k (by omega)
    simp only [shiftLsb, clear, Bool.false_eq_true, if_false, BitVec.shiftRight_add]

theorem getLsbD_setWidth_high (b : BitVec 8) {i : Nat} (above : 8 ≤ i) : (b.setWidth 16).getLsbD i = false := by
  simp [BitVec.getLsbD_setWidth, BitVec.getLsbD_of_ge b i above]

theorem getLsbD_shiftLeft_low (b : BitVec 8) {i : Nat} (below : i < 8) :
    (b.setWidth 16 <<< 8).getLsbD i = false := by
  simp [BitVec.getLsbD_shiftLeft, below]

theorem append_eq_xor (hi lo : BitVec 8) : hi ++ lo = (hi.setWidth 16 <<< 8) ^^^ lo.setWidth 16 := by
  apply BitVec.eq_of_getLsbD_eq
  intro i inside
  simp only [BitVec.getLsbD_append, BitVec.getLsbD_xor, BitVec.getLsbD_shiftLeft, BitVec.getLsbD_setWidth]
  by_cases low : i < 8
  · simp [low, show i < 16 by omega]
  · simp [low, BitVec.getLsbD_of_ge lo i (by omega), show i < 16 by omega, show i - 8 < 16 by omega]

theorem split_low (x : BitVec 16) : x = (x.setWidth 8).setWidth 16 ^^^ (x >>> 8 <<< 8) := by
  apply BitVec.eq_of_getLsbD_eq
  intro i inside
  simp only [BitVec.getLsbD_xor, BitVec.getLsbD_setWidth, BitVec.getLsbD_shiftLeft,
    BitVec.getLsbD_ushiftRight]
  by_cases low : i < 8
  · simp [low, inside]
  · simp [low, inside, show 8 + (i - 8) = i by omega]

/-- Eight reflected shifts: the table's entry for the low octet, and the rest
moved down eight places. -/
theorem shiftsLsb_eight (x : BitVec 16) :
    shiftsLsb poly 8 x = tableLsb poly (x.setWidth 8) ^^^ (x >>> 8) := by
  have moved : shiftsLsb poly 8 (x >>> 8 <<< 8) = x >>> 8 := by
    rw [shiftsLsb_high (fun i below => by simp [BitVec.getLsbD_shiftLeft, below]) 8 (Nat.le_refl 8)]
    apply BitVec.eq_of_getLsbD_eq
    intro i inside
    simp only [BitVec.getLsbD_ushiftRight, BitVec.getLsbD_shiftLeft]
    by_cases low : i < 8
    · simp [show 8 + i < 16 by omega]
    · simp [show ¬ 8 + i < 16 by omega, BitVec.getLsbD_of_ge x (8 + i) (by omega)]
  conv => lhs; rw [split_low x]
  rw [shiftsLsb_xor, moved]
  rfl

/-- **The table-driven reflected check is the bit-serial one**: a byte is the
table's entry for the low octet of the register with the byte in it, and the
register moved down eight places. -/
theorem byteLsb_table (c : BitVec 16) (b : BitVec 8) :
    byteLsb poly c b = tableLsb poly ((c ^^^ b.setWidth 16).setWidth 8) ^^^ (c >>> 8) := by
  have clear : b.setWidth 16 >>> 8 = 0#16 := by
    apply BitVec.eq_of_getLsbD_eq
    intro i inside
    simp [BitVec.getLsbD_ushiftRight, BitVec.getLsbD_setWidth]
  rw [byteLsb, shiftsLsb_eight, BitVec.ushiftRight_xor_distrib, clear, BitVec.xor_zero]

/-- Two bytes into an MSB-first register are sixteen shifts of the register
with the two bytes in it. -/
theorem byteMsb_byteMsb (c : BitVec 16) (hi lo : BitVec 8) :
    byteMsb poly (byteMsb poly c hi) lo = shiftsMsb poly 16 (c ^^^ (hi ++ lo)) := by
  have moved : shiftsMsb poly 8 (lo.setWidth 16) = lo.setWidth 16 <<< 8 :=
    shiftsMsb_low (fun i above => getLsbD_setWidth_high lo above) 8 (Nat.le_refl 8)
  rw [append_eq_xor, show shiftsMsb poly 16 _ = _ from shiftsMsb_add 8 8 _, ← BitVec.xor_assoc,
    shiftsMsb_xor 8 _ (lo.setWidth 16), moved]
  rfl

/-- Two bytes into a reflected register, low octet first, are sixteen shifts of
the register with the two bytes in it. -/
theorem byteLsb_byteLsb (c : BitVec 16) (lo hi : BitVec 8) :
    byteLsb poly (byteLsb poly c lo) hi = shiftsLsb poly 16 (c ^^^ (hi ++ lo)) := by
  have moved : shiftsLsb poly 8 (hi.setWidth 16 <<< 8) = hi.setWidth 16 := by
    rw [shiftsLsb_high (fun i below => getLsbD_shiftLeft_low hi below) 8 (Nat.le_refl 8)]
    apply BitVec.eq_of_getLsbD_eq
    intro i inside
    simp only [BitVec.getLsbD_ushiftRight, BitVec.getLsbD_shiftLeft, BitVec.getLsbD_setWidth]
    by_cases low : i < 8
    · simp [show 8 + i < 16 by omega, low]
    · simp [show ¬ 8 + i < 16 by omega, BitVec.getLsbD_of_ge hi i (by omega)]
  rw [append_eq_xor, BitVec.xor_comm (hi.setWidth 16 <<< 8),
    show shiftsLsb poly 16 _ = _ from shiftsLsb_add 8 8 _, ← BitVec.xor_assoc, shiftsLsb_xor 8 _ (hi.setWidth 16 <<< 8), moved]
  rfl

@[simp] theorem shiftsMsb_zero (n : Nat) : shiftsMsb poly n 0#16 = 0#16 := by
  induction n with
  | zero => rfl
  | succ n ih =>
    rw [shiftsMsb, ih]
    simp [shiftMsb]

@[simp] theorem shiftsLsb_zero (n : Nat) : shiftsLsb poly n 0#16 = 0#16 := by
  induction n with
  | zero => rfl
  | succ n ih =>
    rw [shiftsLsb, ih]
    simp [shiftLsb]

theorem crcMsb_append (init : BitVec 16) (bytes more : List (BitVec 8)) :
    crcMsb poly init (bytes ++ more) = crcMsb poly (crcMsb poly init bytes) more := by
  simp [crcMsb, List.foldl_append]

theorem crcLsb_append (init : BitVec 16) (bytes more : List (BitVec 8)) :
    crcLsb poly init (bytes ++ more) = crcLsb poly (crcLsb poly init bytes) more := by
  simp [crcLsb, List.foldl_append]

theorem high_append_low (c : BitVec 16) : (c >>> 8).setWidth 8 ++ c.setWidth 8 = c := by
  apply BitVec.eq_of_getLsbD_eq
  intro i inside
  simp only [BitVec.getLsbD_append, BitVec.getLsbD_setWidth, BitVec.getLsbD_ushiftRight]
  by_cases low : i < 8
  · simp [low]
  · simp [low, show i - 8 < 8 by omega, show 8 + (i - 8) = i by omega]

theorem eq_append_iff (c : BitVec 16) (hi lo : BitVec 8) :
    c = hi ++ lo ↔ (c >>> 8).setWidth 8 = hi ∧ c.setWidth 8 = lo := by
  constructor
  · rintro rfl
    constructor
    · apply BitVec.eq_of_getLsbD_eq
      intro i inside
      rw [BitVec.getLsbD_setWidth, BitVec.getLsbD_ushiftRight, BitVec.getLsbD_append]
      simp [inside]
    · apply BitVec.eq_of_getLsbD_eq
      intro i inside
      rw [BitVec.getLsbD_setWidth, BitVec.getLsbD_append]
      simp [inside]
  · rintro ⟨high, low⟩
    rw [← high, ← low, high_append_low]

/-- **Residue of an MSB-first check.** A message followed by two bytes leaves
zero exactly when the bytes, high octet first, are the message's check. -/
theorem crcMsb_append_pair (odd : poly.getLsbD 0 = true) (init : BitVec 16) (bytes : List (BitVec 8))
    (hi lo : BitVec 8) :
    crcMsb poly init (bytes ++ [hi, lo]) = 0#16 ↔ crcMsb poly init bytes = hi ++ lo := by
  rw [crcMsb_append]
  change byteMsb poly (byteMsb poly (crcMsb poly init bytes) hi) lo = 0#16 ↔ _
  rw [byteMsb_byteMsb]
  constructor
  · intro zero
    exact BitVec.xor_eq_zero_iff.mp (shiftsMsb_eq_zero odd 16 zero)
  · intro same
    rw [same, BitVec.xor_self, shiftsMsb_zero]

/-- **Residue of a reflected check.** A message followed by two bytes leaves
zero exactly when the bytes, low octet first, are the message's check. -/
theorem crcLsb_append_pair (top : poly.msb = true) (init : BitVec 16) (bytes : List (BitVec 8))
    (lo hi : BitVec 8) :
    crcLsb poly init (bytes ++ [lo, hi]) = 0#16 ↔ crcLsb poly init bytes = hi ++ lo := by
  rw [crcLsb_append]
  change byteLsb poly (byteLsb poly (crcLsb poly init bytes) lo) hi = 0#16 ↔ _
  rw [byteLsb_byteLsb]
  constructor
  · intro zero
    exact BitVec.xor_eq_zero_iff.mp (shiftsLsb_eq_zero top 16 zero)
  · intro same
    rw [same, BitVec.xor_self, shiftsLsb_zero]

/-! The register of C code is a `uint16_t`, tested with a mask; its shifts are
`shiftMsb` and `shiftLsb`. -/

theorem and_msb_mask (x : BitVec 16) : x &&& 0x8000#16 = if x.msb then 0x8000#16 else 0#16 := by
  have mask : ∀ i < 16, (0x8000#16).getLsbD i = decide (i = 15) := by decide
  apply BitVec.eq_of_getLsbD_eq
  intro i inside
  rw [BitVec.getLsbD_and, mask i inside, BitVec.msb_eq_getLsbD_last]
  by_cases last : i = 15
  · subst last
    split <;> simp_all
  · split <;> simp [last, mask i inside]

theorem test_top (c : UInt16) : (c &&& 0x8000 != 0) = c.toBitVec.msb := by
  have masked : (c &&& 0x8000).toBitVec = if c.toBitVec.msb then 0x8000#16 else 0#16 := by
    rw [UInt16.toBitVec_and]
    exact and_msb_mask _
  cases top : c.toBitVec.msb <;> rw [top] at masked
  · have clear : c &&& 0x8000 = 0 := UInt16.toBitVec_inj.mp (by rw [masked]; rfl)
    simp [clear]
  · have set : c &&& 0x8000 = 0x8000 := UInt16.toBitVec_inj.mp (by rw [masked]; rfl)
    simp [set]

theorem test_low (c : UInt16) : (c &&& 1 != 0) = c.toBitVec.getLsbD 0 := by
  have masked : (c &&& 1).toBitVec = BitVec.setWidth 16 (BitVec.ofBool (c.toBitVec.getLsbD 0)) := by
    rw [UInt16.toBitVec_and]
    exact BitVec.and_one_eq_setWidth_ofBool_getLsbD
  cases low : c.toBitVec.getLsbD 0 <;> rw [low] at masked
  · have clear : c &&& 1 = 0 := UInt16.toBitVec_inj.mp (by rw [masked]; rfl)
    simp [clear]
  · have set : c &&& 1 = 1 := UInt16.toBitVec_inj.mp (by rw [masked]; rfl)
    simp [set]

theorem toBitVec_shiftMsb (p c : UInt16) :
    (if c &&& 0x8000 != 0 then (c <<< 1) ^^^ p else c <<< 1).toBitVec = shiftMsb p.toBitVec c.toBitVec := by
  rw [test_top, shiftMsb]
  split <;> simp [UInt16.toBitVec_shiftLeft]

theorem toBitVec_shiftLsb (p c : UInt16) :
    (if c &&& 1 != 0 then (c >>> 1) ^^^ p else c >>> 1).toBitVec = shiftLsb p.toBitVec c.toBitVec := by
  rw [test_low, shiftLsb]
  split <;> simp [UInt16.toBitVec_shiftRight]

theorem toBitVec_rounds_msb {f : UInt16 → UInt16} (step : ∀ c, (f c).toBitVec = shiftMsb poly c.toBitVec)
    (k : Nat) (c : UInt16) :
    ((List.range k).foldl (fun crc _ => f crc) c).toBitVec = shiftsMsb poly k c.toBitVec := by
  induction k with
  | zero => rfl
  | succ k ih =>
    rw [List.range_succ, List.foldl_append, List.foldl_cons, List.foldl_nil, step, ih]
    rfl

theorem toBitVec_rounds_lsb {f : UInt16 → UInt16} (step : ∀ c, (f c).toBitVec = shiftLsb poly c.toBitVec)
    (k : Nat) (c : UInt16) :
    ((List.range k).foldl (fun crc _ => f crc) c).toBitVec = shiftsLsb poly k c.toBitVec := by
  induction k with
  | zero => rfl
  | succ k ih =>
    rw [List.range_succ, List.foldl_append, List.foldl_cons, List.foldl_nil, step, ih]
    rfl

end Crc
