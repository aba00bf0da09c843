import IridiumSniffer.Bch

/-! What the Chase decoders deliver with the tables of `frame_decode_init` and
`ida_decode_init`. A codeword hit by at most two bit errors decodes back to its
data whatever the reliabilities, since the hard syndrome step already succeeds.
Every word the decoders accept is a codeword within two bits of the input
outside the five least reliable positions, and within two bits of it overall
when no reliabilities are given. -/
namespace IridiumSniffer.Bch

variable {α : Type*} [LinearOrder α] [Inhabited α]

/-- The table corrects every pattern of one or two bits among the 31. -/
def Corrects (poly tableSize : Nat) (syn : Nat → SynEntry) : Prop :=
  ∀ e < 2 ^ 31, 0 < Bits.weight e 31 → Bits.weight e 31 ≤ 2 →
    gf2Remainder poly e ≠ 0 ∧ gf2Remainder poly e < tableSize ∧
      syn (gf2Remainder poly e) = ⟨Bits.weight e 31, e⟩

theorem singleSyndromes_ra : singleSyndromes 1207 31 = [1, 2, 4, 8, 16, 32, 64, 128, 256, 512,
    183, 366, 732, 271, 542, 139, 278, 556, 239, 478, 956, 975, 809, 741, 381, 762, 323, 646, 443,
    886, 603] := by decide +kernel

theorem singleSyndromes_da : singleSyndromes 3545 31 = [1, 2, 4, 8, 16, 32, 64, 128, 256, 512,
    1024, 1497, 1643, 271, 542, 1084, 1441, 1691, 239, 478, 956, 1912, 809, 1618, 381, 762, 1524,
    1585, 443, 886, 1772] := by decide +kernel

-- the 496 syndromes are checked as sums of the 31 single-bit ones
theorem synKeys_ra_fresh : Bits.fresh (synKeys 1207 31) 1 = true := by
  rw [synKeys_eq_keysOfSingles, singleSyndromes_ra]
  decide +kernel

theorem synKeys_da_fresh : Bits.fresh (synKeys 3545 31) 1 = true := by
  rw [synKeys_eq_keysOfSingles, singleSyndromes_da]
  decide +kernel

theorem synRa_corrects : Corrects 1207 1024 synRa := by
  intro e bound some light
  have degree : Nat.log2 1207 = 10 := by decide
  have inside : ∀ key ∈ synKeys 1207 31, key < 1024 := fun key member => by
    simpa [degree] using synKeys_lt (by decide) (by rw [degree]; decide) (by decide) key member
  exact buildSyn_lookup synKeys_ra_fresh inside bound some light

theorem synDa_corrects : Corrects 3545 2048 synDa := by
  intro e bound some light
  have degree : Nat.log2 3545 = 11 := by decide
  have inside : ∀ key ∈ synKeys 3545 31, key < 2048 := fun key member => by
    simpa [degree] using synKeys_lt (by decide) (by rw [degree]; decide) (by decide) key member
  exact buildSyn_lookup synKeys_da_fresh inside bound some light

/-- A codeword plus at most two errors decodes to the codeword, reporting the
number of errors, on the hard path and so for any reliabilities. -/
theorem chaseDecode_codeword {poly tableSize : Nat} {syn : Nat → SynEntry}
    (corrects : Corrects poly tableSize syn) {c e : Nat} (codeword : gf2Remainder poly c = 0)
    (small : c < 2 ^ 31) (bound : e < 2 ^ 31) (light : Bits.weight e 31 ≤ 2) (llr : Option (List α)) :
    chaseDecode poly tableSize syn (uintToBits (c ^^^ e) 31) llr =
      some ((Bits.weight e 31 : Int), c, decide (e ≠ 0)) := by
  have received : bitsToUint (uintToBits (c ^^^ e) 31) 31 = c ^^^ e :=
    bitsToUint_uintToBits (Nat.xor_lt_two_pow small bound)
  have syndrome : gf2Remainder poly (c ^^^ e) = gf2Remainder poly e := by
    rw [gf2Remainder_xor, codeword, Nat.zero_xor]
  unfold chaseDecode
  simp only [received, syndrome]
  by_cases clean : e = 0
  · subst e
    simp [gf2Remainder, Bits.weight_zero]
  · obtain ⟨nonzero, inside, entry⟩ := corrects e bound (Bits.weight_pos bound clean) light
    simp [nonzero, inside, entry, clean]

private theorem shiftLeft_or_shiftRight {a r k : Nat} (bound : r < 2 ^ k) : (a <<< k ||| r) >>> k = a := by
  apply Nat.eq_of_testBit_eq
  intro j
  have clear : r.testBit (k + j) = false :=
    Nat.testBit_lt_two_pow (Nat.lt_of_lt_of_le bound (Nat.pow_le_pow_right (by omega) (by omega)))
  simp [Nat.testBit_shiftRight, Nat.testBit_or, Nat.testBit_shiftLeft, clear]

private theorem shiftLeft_or_low {a r k : Nat} (bound : r < 2 ^ k) : (a <<< k ||| r) &&& (2 ^ k - 1) = r := by
  apply Nat.eq_of_testBit_eq
  intro j
  simp only [Nat.testBit_and, Nat.testBit_or, Nat.testBit_shiftLeft, Nat.testBit_two_pow_sub_one]
  by_cases low : j < k
  · simp [low, show ¬ k ≤ j by omega]
  · have clear : r.testBit j = false :=
      Nat.testBit_lt_two_pow (Nat.lt_of_lt_of_le bound (Nat.pow_le_pow_right (by omega) (by omega)))
    simp [low, clear]

private theorem shiftLeft_or_lt {a r k m : Nat} (high : a < 2 ^ m) (bound : r < 2 ^ k) :
    a <<< k ||| r < 2 ^ (m + k) := by
  have shifted : a <<< k < 2 ^ (m + k) := by
    rw [Nat.shiftLeft_eq, Nat.pow_add]
    exact Nat.mul_lt_mul_of_pos_right high (Nat.two_pow_pos k)
  exact Nat.or_lt_two_pow shifted (Nat.lt_of_lt_of_le bound (Nat.pow_le_pow_right (by omega) (by omega)))

/-- Both Chase decoders correct every error pattern of weight at most two in a
systematic codeword, for every reliability array or none. -/
theorem chase_decoders_correct :
    (∀ d < 2 ^ 21, ∀ e < 2 ^ 31, Bits.weight e 31 ≤ 2 → ∀ llr : Option (List α),
      chaseBchDecodeP synRa (uintToBits ((d <<< 10 ||| gf2Remainder 1207 (d <<< 10)) ^^^ e) 31) llr =
        some ((Bits.weight e 31 : Int), uintToBits d 21, uintToBits (gf2Remainder 1207 (d <<< 10)) 10)) ∧
    (∀ d < 2 ^ 20, ∀ e < 2 ^ 31, Bits.weight e 31 ≤ 2 → ∀ llr : Option (List α),
      chaseBchDa synDa (uintToBits ((d <<< 11 ||| gf2Remainder 3545 (d <<< 11)) ^^^ e) 31) llr =
        some ((Bits.weight e 31 : Int), uintToBits d 20, decide (e ≠ 0))) := by
  constructor
  · intro d data e bound light llr
    have degree : Nat.log2 1207 = 10 := by decide
    have shifted : d <<< 10 < 2 ^ 32 := by rw [Nat.shiftLeft_eq]; omega
    have check : gf2Remainder 1207 (d <<< 10) < 2 ^ 10 := by
      have below := gf2Remainder_lt (show (1207 : Nat) ≠ 0 by decide) (by rw [degree]; decide) shifted
      rwa [degree] at below
    have codeword : gf2Remainder 1207 (d <<< 10 ||| gf2Remainder 1207 (d <<< 10)) = 0 := by
      have zero := gf2Remainder_codeword (show (1207 : Nat) ≠ 0 by decide) (by rw [degree]; decide)
        (by rw [degree]; exact shifted)
      rwa [degree] at zero
    have small := shiftLeft_or_lt data check
    unfold chaseBchDecodeP
    rw [chaseDecode_codeword synRa_corrects codeword small bound light llr]
    have mask : (0x3FF : Nat) = 2 ^ 10 - 1 := rfl
    simp only [Option.map_some, mask, shiftLeft_or_shiftRight check, shiftLeft_or_low check]
  · intro d data e bound light llr
    have degree : Nat.log2 3545 = 11 := by decide
    have shifted : d <<< 11 < 2 ^ 32 := by rw [Nat.shiftLeft_eq]; omega
    have check : gf2Remainder 3545 (d <<< 11) < 2 ^ 11 := by
      have below := gf2Remainder_lt (show (3545 : Nat) ≠ 0 by decide) (by rw [degree]; decide) shifted
      rwa [degree] at below
    have codeword : gf2Remainder 3545 (d <<< 11 ||| gf2Remainder 3545 (d <<< 11)) = 0 := by
      have zero := gf2Remainder_codeword (show (3545 : Nat) ≠ 0 by decide) (by rw [degree]; decide)
        (by rw [degree]; exact shifted)
      rwa [degree] at zero
    have small := shiftLeft_or_lt data check
    unfold chaseBchDa
    rw [chaseDecode_codeword synDa_corrects codeword small bound light llr]
    simp only [Option.map_some, shiftLeft_or_shiftRight check]

theorem chase_decoders_correct_example :
    chaseBchDecodeP synRa (uintToBits ((5 <<< 10 ||| gf2Remainder 1207 (5 <<< 10)) ^^^ 3) 31)
        (none : Option (List ℕ)) =
      some ((Bits.weight 3 31 : Int), uintToBits 5 21, uintToBits (gf2Remainder 1207 (5 <<< 10)) 10) :=
  chase_decoders_correct.1 5 (by decide) 3 (by decide) (by decide) none

/-- Block positions among the 31, outside `P`, where the block and the word `w`
differ (`bits_to_uint` puts block position `k` at bit `30 - k`). -/
def changedOutside (P : List Nat) (block : List Bool) (w : Nat) : Nat :=
  (List.range 31).countP fun k => decide (k ∉ P) && (block.getD k false != w.testBit (30 - k))

/-- An accepted word `w` with return value `r`: with reliabilities, the five
positions the selection sort picks are distinct, least reliable, and `w` differs
from the block in at most two positions outside them; without, `w` is at
distance `r ≤ 2` from the block. -/
def ChaseClose (block : List Bool) (llr : Option (List α)) (w : Nat) (r : Int) : Prop :=
  (∀ l, llr = some l →
    ((leastReliable l).take 5).length = 5 ∧ ((leastReliable l).take 5).Nodup ∧
    (∀ p ∈ (leastReliable l).take 5, p < 31) ∧
    (∀ p ∈ (leastReliable l).take 5, ∀ q < 31, q ∉ (leastReliable l).take 5 →
      l.getD p default ≤ l.getD q default) ∧
    changedOutside ((leastReliable l).take 5) block w ≤ 2) ∧
  (llr = none → (Bits.weight (w ^^^ bitsToUint block 31) 31 : Int) = r ∧ r ≤ 2)

theorem leastReliable_perm (l : List α) : (leastReliable l).Perm (List.range 31) :=
  (Selection.sortPrefix_spec (List.range 31) List.length_range (by omega : 5 ≤ 31)).1

theorem leastReliable_length (l : List α) : (leastReliable l).length = 31 := by
  rw [(leastReliable_perm l).length_eq, List.length_range]

/-- The five flip positions are distinct indices below 31, none more reliable
than an index left out. -/
theorem leastReliable_take (l : List α) :
    ((leastReliable l).take 5).length = 5 ∧ ((leastReliable l).take 5).Nodup ∧
    (∀ p ∈ (leastReliable l).take 5, p < 31) ∧
    (∀ p ∈ (leastReliable l).take 5, ∀ q < 31, q ∉ (leastReliable l).take 5 →
      l.getD p default ≤ l.getD q default) := by
  have perm := leastReliable_perm l
  have inRange : ∀ p ∈ leastReliable l, p < 31 := fun p member =>
    List.mem_range.mp (perm.mem_iff.mp member)
  refine ⟨by simp [leastReliable_length], ?_, fun p member => inRange p (List.mem_of_mem_take member), ?_⟩
  · exact (perm.nodup_iff.mpr List.nodup_range).sublist (List.take_sublist 5 _)
  · intro p chosen q below outside
    have present : q ∈ leastReliable l := perm.mem_iff.mpr (List.mem_range.mpr below)
    rw [← List.take_append_drop 5 (leastReliable l), List.mem_append] at present
    have rest : q ∈ (leastReliable l).drop 5 := present.resolve_left outside
    exact Selection.least_of_sortPrefix (List.range 31) List.length_range (by omega) chosen rest

/-- A flip pattern confined to the Chase positions `P`. -/
def Confined (P : List Nat) (F : Nat) : Prop :=
  F < 2 ^ 31 ∧ ∀ k < 31, k ∉ P → F.testBit (30 - k) = false

private theorem confined_zero (P : List Nat) : Confined P 0 :=
  ⟨Nat.two_pow_pos 31, fun _ _ _ => Nat.zero_testBit _⟩

private theorem confined_mask (P : List Nat) {p : Nat} (chosen : p ∈ P) (inside : p < 31) :
    Confined P (1 <<< (30 - p)) := by
  refine ⟨?_, fun k below outside => ?_⟩
  · rw [Nat.one_shiftLeft]
    exact Nat.pow_lt_pow_right (by omega) (by omega)
  · have other : k ≠ p := fun same => outside (same ▸ chosen)
    simp [Nat.one_shiftLeft, Nat.testBit_two_pow]
    omega

private theorem confined_xor {P : List Nat} {F G : Nat} (first : Confined P F) (second : Confined P G) :
    Confined P (F ^^^ G) :=
  ⟨Nat.xor_lt_two_pow first.1 second.1, fun k below outside => by
    simp [Nat.testBit_xor, first.2 k below outside, second.2 k below outside]⟩

theorem chase_flips (l : List α) (mask base : Nat) :
    ∃ F, (List.range 5).foldl (fun v b => if mask.testBit b then
        v ^^^ ((List.range 5).map fun i => 1 <<< (30 - (leastReliable l).getD i 0)).getD b 0 else v) base =
      base ^^^ F ∧ Confined ((leastReliable l).take 5) F := by
  have step : ∀ (bs : List Nat) (F0 : Nat), (∀ b ∈ bs, b < 5) → Confined ((leastReliable l).take 5) F0 →
      ∃ F, bs.foldl (fun v b => if mask.testBit b then
        v ^^^ ((List.range 5).map fun i => 1 <<< (30 - (leastReliable l).getD i 0)).getD b 0 else v)
        (base ^^^ F0) = base ^^^ F ∧ Confined ((leastReliable l).take 5) F := by
    intro bs
    induction bs with
    | nil => intro F0 _ confined; exact ⟨F0, rfl, confined⟩
    | cons b bs ih =>
      intro F0 inside confined
      have small : b < 5 := inside b List.mem_cons_self
      have rest : ∀ c ∈ bs, c < 5 := fun c member => inside c (List.mem_cons_of_mem _ member)
      have position : (leastReliable l).getD b 0 ∈ (leastReliable l).take 5 ∧
          (leastReliable l).getD b 0 < 31 := by
        have bound : b < (leastReliable l).length := by rw [leastReliable_length]; omega
        have entry : (leastReliable l).getD b 0 = (leastReliable l)[b] := by
          simp [List.getD_eq_getElem?_getD, List.getElem?_eq_getElem bound]
        have member : (leastReliable l)[b] ∈ (leastReliable l).take 5 := by
          have inTake : b < ((leastReliable l).take 5).length := by
            simp [leastReliable_length]
            omega
          simpa using List.getElem_mem inTake
        refine ⟨entry ▸ member, ?_⟩
        rw [entry]
        exact List.mem_range.mp ((leastReliable_perm l).mem_iff.mp (List.getElem_mem bound))
      have maskEntry : ((List.range 5).map fun i => 1 <<< (30 - (leastReliable l).getD i 0)).getD b 0 =
          1 <<< (30 - (leastReliable l).getD b 0) := by
        simp [List.getD_eq_getElem?_getD, small]
      simp only [List.foldl_cons, maskEntry]
      split
      · rw [Nat.xor_assoc]
        exact ih _ rest (confined_xor confined (confined_mask _ position.1 position.2))
      · exact ih _ rest confined
  have start := step (List.range 5) 0 (fun b member => List.mem_range.mp member) (confined_zero _)
  simpa using start

/-- Inversion of `chaseDecode`: an accepted word is the received word, plus a
flip pattern (none on the hard path, confined to the Chase positions on the soft
path), plus either nothing at syndrome zero or the table's locator. -/
theorem chaseDecode_shape {poly tableSize : Nat} {syn : Nat → SynEntry} {block : List Bool}
    {llr : Option (List α)} {r : Int} {w : Nat} {fixed : Bool}
    (result : chaseDecode poly tableSize syn block llr = some (r, w, fixed)) :
    ∃ F L, w = bitsToUint block 31 ^^^ F ^^^ L ∧ (llr = none → F = 0) ∧
      (∀ l, llr = some l → Confined ((leastReliable l).take 5) F) ∧ F < 2 ^ 31 ∧
      ((L = 0 ∧ r = 0 ∧ gf2Remainder poly (bitsToUint block 31 ^^^ F) = 0) ∨
       (0 ≤ (syn (gf2Remainder poly (bitsToUint block 31 ^^^ F))).errs ∧
        L = (syn (gf2Remainder poly (bitsToUint block 31 ^^^ F))).locator ∧
        r = (syn (gf2Remainder poly (bitsToUint block 31 ^^^ F))).errs)) := by
  unfold chaseDecode at result
  have hard : ∀ l, llr = some l → Confined ((leastReliable l).take 5) 0 := fun l _ => confined_zero _
  simp only at result
  by_cases zero : gf2Remainder poly (bitsToUint block 31) = 0
  · rw [if_pos zero, Option.some.injEq, Prod.mk.injEq] at result
    obtain ⟨rfl, rfl, -⟩ := result
    exact ⟨0, 0, by simp, fun _ => rfl, hard, Nat.two_pow_pos 31, .inl ⟨rfl, rfl, by simpa using zero⟩⟩
  rw [if_neg zero] at result
  by_cases usable : gf2Remainder poly (bitsToUint block 31) < tableSize ∧
      0 ≤ (syn (gf2Remainder poly (bitsToUint block 31))).errs
  · rw [if_pos usable, Option.some.injEq, Prod.mk.injEq] at result
    obtain ⟨rfl, rfl, -⟩ := result
    exact ⟨0, _, by simp, fun _ => rfl, hard, Nat.two_pow_pos 31, .inr ⟨by simpa using usable.2, rfl, by simp⟩⟩
  rw [if_neg usable] at result
  cases llr with
  | none => cases result
  | some l =>
    obtain ⟨mask, -, tried⟩ := List.exists_of_findSome?_eq_some result
    obtain ⟨F, flipped, confined⟩ := chase_flips l mask (bitsToUint block 31)
    unfold chaseTry at tried
    simp only [flipped] at tried
    refine ⟨F, ?_⟩
    by_cases clean : gf2Remainder poly (bitsToUint block 31 ^^^ F) = 0
    · rw [if_pos clean, Option.some.injEq, Prod.mk.injEq] at tried
      obtain ⟨rfl, rfl, -⟩ := tried
      refine ⟨0, by simp, nofun, ?_, confined.1, Or.inl ⟨rfl, rfl, clean⟩⟩
      intro l' same
      cases same
      exact confined
    rw [if_neg clean] at tried
    by_cases found : gf2Remainder poly (bitsToUint block 31 ^^^ F) < tableSize ∧
        0 ≤ (syn (gf2Remainder poly (bitsToUint block 31 ^^^ F))).errs
    · rw [if_pos found, Option.some.injEq, Prod.mk.injEq] at tried
      obtain ⟨rfl, rfl, -⟩ := tried
      refine ⟨_, rfl, nofun, ?_, confined.1, Or.inr ⟨found.2, rfl, rfl⟩⟩
      intro l' same
      cases same
      exact confined
    · rw [if_neg found] at tried
      cases tried

private theorem block_bit (block : List Bool) {k : Nat} (below : k < 31) :
    (bitsToUint block 31).testBit (30 - k) = block.getD k false := by
  simp only [bitsToUint, Bits.testBit_pack, show 31 - 1 - (30 - k) = k by omega]
  simp [show 30 - k < 31 by omega]

/-- Outside the Chase positions, the accepted word differs from the block only
where the locator has a bit. -/
theorem changedOutside_le {P : List Nat} (block : List Bool) {F : Nat} (L : Nat)
    (confined : Confined P F) : changedOutside P block (bitsToUint block 31 ^^^ F ^^^ L) ≤ Bits.weight L 31 := by
  rw [Bits.weight_eq_countP]
  apply List.countP_mono_left
  intro k member hit
  have below : k < 31 := List.mem_range.mp member
  simp only [Bool.and_eq_true, decide_eq_true_eq, bne_iff_ne, ne_eq] at hit
  obtain ⟨outside, differs⟩ := hit
  simp only [Nat.testBit_xor, block_bit block below, confined.2 k below outside, Bool.bne_false] at differs
  simp only [show 31 - 1 - k = 30 - k by omega]
  cases bit : L.testBit (30 - k) <;> simp_all

/-- Soundness of the common decoder body, given a table whose usable entries
are one- or two-bit patterns with the right syndrome. -/
theorem chaseDecode_sound {poly tableSize : Nat} {syn : Nat → SynEntry}
    (sound : ∀ s, EntrySound poly 31 s (syn s)) {block : List Bool} {llr : Option (List α)}
    {r : Int} {w : Nat} {fixed : Bool} (result : chaseDecode poly tableSize syn block llr = some (r, w, fixed)) :
    0 ≤ r ∧ w < 2 ^ 31 ∧ gf2Remainder poly w = 0 ∧ ChaseClose block llr w r := by
  obtain ⟨F, L, rfl, hardPath, confined, flipBound, located⟩ := chaseDecode_shape result
  have received := bitsToUint_lt block 31
  -- both cases give a locator of weight `r ≤ 2` whose syndrome cancels that of the flipped word
  obtain ⟨nonneg, weight, atMost, locBound, cancels⟩ : 0 ≤ r ∧ (Bits.weight L 31 : Int) = r ∧ r ≤ 2 ∧
      L < 2 ^ 31 ∧ gf2Remainder poly (bitsToUint block 31 ^^^ F) ^^^ gf2Remainder poly L = 0 := by
    rcases located with ⟨rfl, rfl, zero⟩ | ⟨usable, rfl, rfl⟩
    · refine ⟨le_refl 0, by simp [Bits.weight_zero], by decide, Nat.two_pow_pos 31, ?_⟩
      rw [zero, Nat.zero_xor]
      simp [gf2Remainder]
    · rcases sound (gf2Remainder poly (bitsToUint block 31 ^^^ F)) with unusable | ⟨syndrome, bound, count, most⟩
      · exact absurd usable (not_le.mpr unusable)
      · exact ⟨usable, count, most, bound, by rw [syndrome, Nat.xor_self]⟩
  refine ⟨nonneg, Nat.xor_lt_two_pow (Nat.xor_lt_two_pow received flipBound) locBound,
    by rw [gf2Remainder_xor, cancels], ?_, ?_⟩
  · intro l given
    obtain ⟨length, distinct, inside, least⟩ := leastReliable_take l
    refine ⟨length, distinct, inside, least, ?_⟩
    have close := changedOutside_le block L (confined l given)
    omega
  · intro absent
    have zero := hardPath absent
    subst F
    have distance : bitsToUint block 31 ^^^ 0 ^^^ L ^^^ bitsToUint block 31 = L := by
      rw [Nat.xor_zero, Nat.xor_comm, ← Nat.xor_assoc, Nat.xor_self, Nat.zero_xor]
    rw [distance]
    exact ⟨weight, atMost⟩

/-- Every word either Chase decoder accepts is a codeword whose output bits it
returns, close to the input in the sense of `ChaseClose`. -/
theorem chase_decoders_sound (block : List Bool) (llr : Option (List α)) :
    (∀ r data check, chaseBchDecodeP synRa block llr = some (r, data, check) →
      0 ≤ r ∧ ∃ w < 2 ^ 31, gf2Remainder 1207 w = 0 ∧ data = uintToBits (w >>> 10) 21 ∧
        check = uintToBits (w &&& 0x3FF) 10 ∧ ChaseClose block llr w r) ∧
    (∀ r data fixed, chaseBchDa synDa block llr = some (r, data, fixed) →
      0 ≤ r ∧ ∃ w < 2 ^ 31, gf2Remainder 3545 w = 0 ∧ data = uintToBits (w >>> 11) 20 ∧
        ChaseClose block llr w r) := by
  constructor
  · intro r data check decoded
    unfold chaseBchDecodeP at decoded
    obtain ⟨⟨r', w, fixed⟩, result, same⟩ := Option.map_eq_some_iff.mp decoded
    simp only [Prod.mk.injEq] at same
    obtain ⟨rfl, rfl, rfl⟩ := same
    obtain ⟨nonneg, bound, codeword, close⟩ := chaseDecode_sound (buildSyn_sound 1207 31 2 1024) result
    exact ⟨nonneg, w, bound, codeword, rfl, rfl, close⟩
  · intro r data fixed decoded
    unfold chaseBchDa at decoded
    obtain ⟨⟨r', w, fixed'⟩, result, same⟩ := Option.map_eq_some_iff.mp decoded
    simp only [Prod.mk.injEq] at same
    obtain ⟨rfl, rfl, rfl⟩ := same
    obtain ⟨nonneg, bound, codeword, close⟩ := chaseDecode_sound (buildSyn_sound 3545 31 2 2048) result
    exact ⟨nonneg, w, bound, codeword, rfl, close⟩

theorem chase_decoders_sound_one_error :
    chaseBchDecodeP synRa (true :: List.replicate 30 false) (none : Option (List ℕ)) =
        some (1, List.replicate 21 false, List.replicate 10 false) ∧
      0 ≤ (1 : Int) ∧ ∃ w < 2 ^ 31, gf2Remainder 1207 w = 0 ∧
        List.replicate 21 false = uintToBits (w >>> 10) 21 ∧
        List.replicate 10 false = uintToBits (w &&& 0x3FF) 10 ∧
        ChaseClose (true :: List.replicate 30 false) (none : Option (List ℕ)) w 1 := by
  -- the block is the zero codeword with its first bit flipped, which the table corrects
  have received : (true :: List.replicate 30 false) = uintToBits (0 ^^^ 2 ^ 30) 31 := by decide
  have corrected := chaseDecode_codeword synRa_corrects (c := 0) (e := 2 ^ 30) (by simp [gf2Remainder])
    (by decide) (by decide) (by decide) (none : Option (List ℕ))
  have single : Bits.weight (2 ^ 30) 31 = 1 := by decide
  have decoded : chaseBchDecodeP synRa (true :: List.replicate 30 false) (none : Option (List ℕ)) =
      some (1, List.replicate 21 false, List.replicate 10 false) := by
    rw [chaseBchDecodeP, received, corrected, single]
    decide
  exact ⟨decoded, (chase_decoders_sound _ _).1 _ _ _ decoded⟩

end IridiumSniffer.Bch
