import IridiumSniffer.Lib.Bits
import IridiumSniffer.Lib.Gf2
import IridiumSniffer.Lib.TableFill
import IridiumSniffer.Lib.Selection
import IridiumSniffer.Lib.Gf2Poly

/-! BCH syndrome decoding shared by `frame_decode.c` and `ida_decode.c`: the GF(2)
remainder, the syndrome tables the two `*_init` functions build, and the Chase
decoders `chase_bch_decode_p` (BCH(31,21), poly 1207) and `chase_bch_da`
(BCH(31,20), poly 3545). Bit arrays are lists read past their end as `0`. -/
namespace IridiumSniffer.Bch

/-- `bits_to_uint`: the first `n` bits, `bits[0]` most significant. -/
def bitsToUint (bits : List Bool) (n : Nat) : Nat :=
  Bits.pack (fun i => bits.getD i false) n

/-- `uint_to_bits`: the low `n` bits of `val`, most significant first. -/
def uintToBits (val n : Nat) : List Bool :=
  Bits.unpack val n

/-- `gf2_remainder`. With `poly_bits = 32 - clz(poly) = log2 poly + 1`, the loop
clears bit `i` for `i = 31` down to `poly_bits - 1` by xor with
`poly << (i - poly_bits + 1)`; these are the bits `d + k` for `k = 32 - d - 1`
down to `0`, `d = log2 poly`. -/
def gf2Remainder (poly val : Nat) : Nat :=
  if val = 0 then 0 else Gf2.clearDown poly poly.log2 (32 - poly.log2) val

/-- One entry of a syndrome table: `errs = -1` marks an uncorrectable syndrome. -/
structure SynEntry where
  errs : Int
  locator : Nat
deriving DecidableEq, Repr

/-- Single-bit error patterns `1 << b`, `b < nbits`, keyed by their syndrome. -/
def singleErrors (poly nbits : Nat) : List (Nat × SynEntry) :=
  (List.range nbits).map fun b => (gf2Remainder poly (1 <<< b), ⟨1, 1 <<< b⟩)

/-- Two-bit error patterns `1 << b1 | 1 << b2`, `b1 < b2 < nbits`, in loop order. -/
def pairErrors (poly nbits : Nat) : List (Nat × SynEntry) :=
  (List.range nbits).flatMap fun b1 => (List.range' (b1 + 1) (nbits - (b1 + 1))).map fun b2 =>
    (gf2Remainder poly ((1 <<< b1) ||| (1 <<< b2)), ⟨2, (1 <<< b1) ||| (1 <<< b2)⟩)

/-- `build_syn`: every entry uncorrectable, then every single-bit pattern whose
syndrome is inside the table, then (for `max_errors >= 2`) every two-bit pattern
whose slot is still uncorrectable. -/
def buildSyn (poly nbits maxErrors tableSize : Nat) : Nat → SynEntry :=
  let withSingles := TableFill.fill (fun r _ => decide (r < tableSize)) (fun _ => ⟨-1, 0⟩)
    (singleErrors poly nbits)
  if 2 ≤ maxErrors then
    TableFill.fill (fun r entry => decide (r < tableSize) && decide (entry.errs < 0)) withSingles
      (pairErrors poly nbits)
  else withSingles

/-- `build_syndrome_table`: `build_syn` with an extra `synbits` argument it never reads. -/
def buildSyndromeTable (poly nbits _synbits maxErrors tableSize : Nat) : Nat → SynEntry :=
  buildSyn poly nbits maxErrors tableSize

/-- `syn_ra` after `frame_decode_init`. -/
def synRa : Nat → SynEntry := buildSyndromeTable 1207 31 10 2 1024

/-- `syn_hdr` after `frame_decode_init`. -/
def synHdr : Nat → SynEntry := buildSyndromeTable 29 7 4 1 16

/-- `syn_da` after `ida_decode_init`. -/
def synDa : Nat → SynEntry := buildSyn 3545 31 2 2048

theorem bitsToUint_uintToBits {val n : Nat} (bound : val < 2 ^ n) :
    bitsToUint (uintToBits val n) n = val :=
  Bits.pack_unpack_of_lt bound

theorem bitsToUint_lt (bits : List Bool) (n : Nat) : bitsToUint bits n < 2 ^ n :=
  Bits.pack_lt _ n

theorem gf2Remainder_eq (poly val : Nat) :
    gf2Remainder poly val = Gf2.clearDown poly poly.log2 (32 - poly.log2) val := by
  unfold gf2Remainder
  split
  · rename_i zero
    rw [zero, Gf2.clearDown_zero]
  · rfl

theorem gf2Remainder_xor (poly a b : Nat) :
    gf2Remainder poly (a ^^^ b) = gf2Remainder poly a ^^^ gf2Remainder poly b := by
  simp only [gf2Remainder_eq, Gf2.clearDown_xor]

theorem gf2Remainder_lt {poly val : Nat} (nonzero : poly ≠ 0) (wide : poly.log2 ≤ 32)
    (bound : val < 2 ^ 32) : gf2Remainder poly val < 2 ^ poly.log2 := by
  rw [gf2Remainder_eq]
  exact Gf2.clearDown_lt (Gf2.degree_log2 nonzero) (by rwa [Nat.add_sub_cancel' wide])

theorem gf2Remainder_of_lt {poly val : Nat} (bound : val < 2 ^ poly.log2) :
    gf2Remainder poly val = val := by
  rw [gf2Remainder_eq]
  exact Gf2.clearDown_of_lt bound

theorem ne_zero_of_size {poly p : Nat} (length : poly.size = p) (pos : 1 ≤ p) : poly ≠ 0 := by
  rintro rfl
  rw [Nat.size_zero] at length
  omega

theorem log2_eq_of_size {poly p : Nat} (length : poly.size = p) (pos : 1 ≤ p) : poly.log2 = p - 1 := by
  have upper : poly.size ≤ poly.log2 + 1 := Nat.size_le.mpr Nat.lt_log2_self
  have lower : poly.log2 < poly.size := Nat.lt_size.mpr (Nat.log2_self_le (ne_zero_of_size length pos))
  omega

/-- For a divisor of bit length `p`, `1 ≤ p ≤ 32`, the remainder of a 32-bit
dividend is below `2^(p-1)` and differs from it by a multiple of the divisor
in `GF(2)[x]`; the remainder is linear. -/
theorem gf2Remainder_divides_linear (poly p : Nat) (length : poly.size = p) (pos : 1 ≤ p) (wide : p ≤ 32) :
    (∀ val < 2 ^ 32, gf2Remainder poly val < 2 ^ (p - 1) ∧
        Gf2.toPoly poly ∣ Gf2.toPoly (val ^^^ gf2Remainder poly val)) ∧
      ∀ a < 2 ^ 32, ∀ b < 2 ^ 32, gf2Remainder poly (a ^^^ b) = gf2Remainder poly a ^^^ gf2Remainder poly b := by
  have degree := log2_eq_of_size length pos
  refine ⟨fun val bound => ⟨?_, ?_⟩, fun a _ b _ => gf2Remainder_xor poly a b⟩
  · rw [← degree]
    exact gf2Remainder_lt (ne_zero_of_size length pos) (by omega) bound
  · rw [gf2Remainder_eq]
    exact Gf2.dvd_xor_clearDown _ _ _ _

theorem gf2Remainder_divides_linear_ra :
    (1207 : Nat).size = 11 ∧ (∀ val < 2 ^ 32, gf2Remainder 1207 val < 2 ^ (11 - 1) ∧
        Gf2.toPoly 1207 ∣ Gf2.toPoly (val ^^^ gf2Remainder 1207 val)) ∧
      ∀ a < 2 ^ 32, ∀ b < 2 ^ 32, gf2Remainder 1207 (a ^^^ b) = gf2Remainder 1207 a ^^^ gf2Remainder 1207 b := by
  have length : (1207 : Nat).size = 11 := by decide
  exact ⟨length, gf2Remainder_divides_linear 1207 11 length (by decide) (by decide)⟩

private theorem shiftLeft_or_eq_xor {a r k : Nat} (bound : r < 2 ^ k) :
    a <<< k ||| r = a <<< k ^^^ r := by
  apply Nat.eq_of_testBit_eq
  intro j
  simp only [Nat.testBit_or, Nat.testBit_xor, Nat.testBit_shiftLeft]
  by_cases low : k ≤ j
  · have clear : r.testBit j = false :=
      Nat.testBit_lt_two_pow (Nat.lt_of_lt_of_le bound (Nat.pow_le_pow_right (by omega) low))
    simp [clear]
  · simp [low]

theorem gf2Remainder_codeword {poly data : Nat} (nonzero : poly ≠ 0) (wide : poly.log2 ≤ 32)
    (bound : data <<< poly.log2 < 2 ^ 32) :
    gf2Remainder poly (data <<< poly.log2 ||| gf2Remainder poly (data <<< poly.log2)) = 0 := by
  have check := gf2Remainder_lt nonzero wide bound
  rw [shiftLeft_or_eq_xor check, gf2Remainder_xor, gf2Remainder_of_lt check, Nat.xor_self]

theorem mem_singleErrors {poly nbits : Nat} {c : Nat × SynEntry} (member : c ∈ singleErrors poly nbits) :
    ∃ b < nbits, c = (gf2Remainder poly (2 ^ b), ⟨1, 2 ^ b⟩) := by
  obtain ⟨b, inside, rfl⟩ := List.mem_map.mp member
  exact ⟨b, List.mem_range.mp inside, by rw [Nat.one_shiftLeft]⟩

theorem mem_pairErrors {poly nbits : Nat} {c : Nat × SynEntry} (member : c ∈ pairErrors poly nbits) :
    ∃ b1 b2, b1 < b2 ∧ b2 < nbits ∧ c = (gf2Remainder poly (2 ^ b1 + 2 ^ b2), ⟨2, 2 ^ b1 + 2 ^ b2⟩) := by
  obtain ⟨b1, first, paired⟩ := List.mem_flatMap.mp member
  obtain ⟨b2, second, rfl⟩ := List.mem_map.mp paired
  have first := List.mem_range.mp first
  have second := List.mem_range'_1.mp second
  have disjoint : (1 <<< b1) ||| (1 <<< b2) = 2 ^ b1 + 2 ^ b2 := by
    rw [Nat.one_shiftLeft, Nat.one_shiftLeft]
    exact Nat.or_two_pow_eq_add_of_lt (Nat.pow_lt_pow_right (by omega) (by omega))
  exact ⟨b1, b2, by omega, by omega, by rw [disjoint]⟩

/-- What a usable table entry promises: a pattern of `errs` bits among the low
`nbits` whose syndrome is the entry's index. -/
def EntrySound (poly nbits r : Nat) (entry : SynEntry) : Prop :=
  entry.errs < 0 ∨ (gf2Remainder poly entry.locator = r ∧ entry.locator < 2 ^ nbits ∧
    (Bits.weight entry.locator nbits : Int) = entry.errs ∧ entry.errs ≤ 2)

theorem buildSyn_sound (poly nbits maxErrors tableSize r : Nat) :
    EntrySound poly nbits r (buildSyn poly nbits maxErrors tableSize r) := by
  have singles : ∀ key, EntrySound poly nbits key
      (TableFill.fill (fun r _ => decide (r < tableSize)) (fun _ => ⟨-1, 0⟩) (singleErrors poly nbits) key) := by
    refine TableFill.fill_invariant _ (EntrySound poly nbits) _ _ (fun _ => Or.inl (by decide)) ?_
    intro c member
    obtain ⟨b, inside, rfl⟩ := mem_singleErrors member
    refine Or.inr ⟨rfl, Nat.pow_lt_pow_right (by omega) inside, ?_, by simp⟩
    simp [Bits.weight_two_pow inside]
  unfold buildSyn
  split
  · refine TableFill.fill_invariant _ (EntrySound poly nbits) _ _ singles ?_ r
    intro c member
    obtain ⟨b1, b2, order, inside, rfl⟩ := mem_pairErrors member
    refine Or.inr ⟨rfl, ?_, ?_, by simp⟩
    · exact Bits.two_pow_add_lt order inside
    · simp [Bits.weight_two_pow_add order inside]
  · exact singles r

/-- Syndromes of all one- and two-bit patterns, in the order the table is filled. -/
def synKeys (poly nbits : Nat) : List Nat :=
  (singleErrors poly nbits ++ pairErrors poly nbits).map Prod.fst

/-- Every key is a remainder of a pattern of at most 32 bits, so lies below
`2 ^ deg poly`. -/
theorem synKeys_lt {poly nbits : Nat} (nonzero : poly ≠ 0) (wide : poly.log2 ≤ 32) (narrow : nbits ≤ 32) :
    ∀ key ∈ synKeys poly nbits, key < 2 ^ poly.log2 := by
  intro key member
  obtain ⟨c, candidate, rfl⟩ := List.mem_map.mp member
  rcases List.mem_append.mp candidate with single | pair
  · obtain ⟨b, inside, rfl⟩ := mem_singleErrors single
    exact gf2Remainder_lt nonzero wide (Nat.pow_lt_pow_right (by omega) (by omega))
  · obtain ⟨b1, b2, order, inside, rfl⟩ := mem_pairErrors pair
    exact gf2Remainder_lt nonzero wide (Bits.two_pow_add_lt order (by omega))

/-- The syndromes of the single-bit patterns `1 << b`, `b < nbits`. -/
def singleSyndromes (poly nbits : Nat) : List Nat :=
  (List.range nbits).map fun b => gf2Remainder poly (1 <<< b)

/-- The keys in `synKeys` order computed from the single-bit syndromes alone:
the remainder is linear, so a pair's syndrome is the sum of its bits'. -/
def keysOfSingles (singles : List Nat) : List Nat :=
  singles ++ (List.range singles.length).flatMap fun b1 =>
    (List.range' (b1 + 1) (singles.length - (b1 + 1))).map fun b2 =>
      singles.getD b1 0 ^^^ singles.getD b2 0

private theorem one_shiftLeft_or {b1 b2 : Nat} (distinct : b1 ≠ b2) :
    (1 <<< b1) ||| (1 <<< b2) = (1 <<< b1) ^^^ (1 <<< b2) := by
  apply Nat.eq_of_testBit_eq
  intro j
  simp only [Nat.testBit_or, Nat.testBit_xor, Nat.one_shiftLeft, Nat.testBit_two_pow]
  by_cases first : b1 = j
  · subst j
    simp [Ne.symm distinct]
  · simp [first]

theorem synKeys_eq_keysOfSingles (poly nbits : Nat) :
    synKeys poly nbits = keysOfSingles (singleSyndromes poly nbits) := by
  have length : (singleSyndromes poly nbits).length = nbits := by simp [singleSyndromes]
  have entry : ∀ b < nbits, (singleSyndromes poly nbits).getD b 0 = gf2Remainder poly (1 <<< b) := by
    intro b below
    simp [singleSyndromes, List.getD_eq_getElem?_getD, below]
  simp only [synKeys, keysOfSingles, singleErrors, pairErrors, List.map_append, List.map_map,
    List.map_flatMap, length]
  congr 1
  apply List.flatMap_congr
  intro b1 first
  apply List.map_congr_left
  intro b2 second
  have first := List.mem_range.mp first
  have second := List.mem_range'_1.mp second
  simp only [Function.comp_apply, entry b1 first, entry b2 (by omega),
    one_shiftLeft_or (show b1 ≠ b2 by omega), gf2Remainder_xor]

/-- When the syndromes of all one- and two-bit patterns are distinct, nonzero and
inside the table, the table maps each of them to its pattern and weight. -/
theorem buildSyn_lookup {poly nbits tableSize : Nat}
    (distinct : Bits.fresh (synKeys poly nbits) 1 = true)
    (inside : ∀ key ∈ synKeys poly nbits, key < tableSize)
    {e : Nat} (bound : e < 2 ^ nbits) (some : 0 < Bits.weight e nbits) (light : Bits.weight e nbits ≤ 2) :
    gf2Remainder poly e ≠ 0 ∧ gf2Remainder poly e < tableSize ∧
      buildSyn poly nbits 2 tableSize (gf2Remainder poly e) = ⟨Bits.weight e nbits, e⟩ := by
  obtain ⟨nodup, nonzero⟩ := Bits.fresh_spec distinct
  have split := List.nodup_append.mp (by simpa [synKeys] using nodup)
  have keyOf : ∀ c ∈ singleErrors poly nbits ++ pairErrors poly nbits,
      c.1 ≠ 0 ∧ c.1 < tableSize := by
    intro c member
    have key : c.1 ∈ synKeys poly nbits := List.mem_map_of_mem member
    refine ⟨fun zero => ?_, inside _ key⟩
    have marked := nonzero _ key
    simp [zero] at marked
  unfold buildSyn
  simp only [show 2 ≤ 2 from le_refl 2, if_true]
  rcases Bits.eq_of_weight_le_two bound light with zero | ⟨a, below, rfl⟩ | ⟨a, b, order, below, rfl⟩
  · subst e
    simp [Bits.weight_zero] at some
  · have member : (gf2Remainder poly (2 ^ a), SynEntry.mk 1 (2 ^ a)) ∈ singleErrors poly nbits :=
      List.mem_map.mpr ⟨a, List.mem_range.mpr below, by rw [Nat.one_shiftLeft]⟩
    obtain ⟨ne, lt⟩ := keyOf _ (List.mem_append_left _ member)
    refine ⟨ne, lt, ?_⟩
    have absent : gf2Remainder poly (2 ^ a) ∉ (pairErrors poly nbits).map Prod.fst :=
      fun later => split.2.2 _ (List.mem_map_of_mem member) _ later rfl
    rw [TableFill.fill_of_not_mem _ _ _ _ absent,
      TableFill.fill_of_mem _ _ _ split.1 member (by simpa using lt)]
    simp [Bits.weight_two_pow below]
  · obtain ⟨c, member, same⟩ : ∃ c ∈ pairErrors poly nbits,
        c = (gf2Remainder poly (2 ^ a + 2 ^ b), ⟨2, 2 ^ a + 2 ^ b⟩) := by
      refine ⟨_, List.mem_flatMap.mpr ⟨a, List.mem_range.mpr (by omega),
        List.mem_map.mpr ⟨b, List.mem_range'_1.mpr ⟨by omega, by omega⟩, rfl⟩⟩, ?_⟩
      have disjoint : (1 <<< a) ||| (1 <<< b) = 2 ^ a + 2 ^ b := by
        rw [Nat.one_shiftLeft, Nat.one_shiftLeft]
        exact Nat.or_two_pow_eq_add_of_lt (Nat.pow_lt_pow_right (by omega) order)
      rw [disjoint]
    subst c
    obtain ⟨ne, lt⟩ := keyOf _ (List.mem_append_right _ member)
    refine ⟨ne, lt, ?_⟩
    have absent : gf2Remainder poly (2 ^ a + 2 ^ b) ∉ (singleErrors poly nbits).map Prod.fst :=
      fun earlier => split.2.2 _ earlier _ (List.mem_map_of_mem member) rfl
    rw [TableFill.fill_of_mem _ _ _ split.2.1 member
      (by simp [TableFill.fill_of_not_mem _ _ _ _ absent, lt])]
    simp [Bits.weight_two_pow_add order below]

section Chase
variable {α : Type*} [LinearOrder α] [Inhabited α]

/-- The `CHASE_FLIP_BITS = 5` least reliable positions: five rounds of partial
selection sort of `pos = 0 .. 30` by LLR, `pos[0..4]` afterwards. -/
def leastReliable (llr : List α) : List Nat :=
  Selection.sortPrefix (fun p => llr.getD p default) 31 5 (List.range 31)

/-- The candidate for one flip mask of the Chase loop: the base word with the
masked least reliable bits flipped, accepted if its syndrome is zero or in the
table. -/
def chaseTry (poly tableSize : Nat) (syn : Nat → SynEntry) (flipMask : List Nat) (baseVal : Nat)
    (mask : Nat) : Option (Int × Nat × Bool) :=
  let flipped := (List.range 5).foldl
    (fun v b => if mask.testBit b then v ^^^ flipMask.getD b 0 else v) baseVal
  let syndrome := gf2Remainder poly flipped
  if syndrome = 0 then some (0, flipped, true)
  else if syndrome < tableSize ∧ 0 ≤ (syn syndrome).errs then
    some ((syn syndrome).errs, flipped ^^^ (syn syndrome).locator, true)
  else none

/-- The common body of `chase_bch_decode_p` and `chase_bch_da` for a 31-bit code
with generator `poly`: hard syndrome correction, then with reliabilities the
masks `1 .. 31` over the five least reliable bits, first success wins. The
result is the returned error count, the corrected word and `fixed`. -/
def chaseDecode (poly tableSize : Nat) (syn : Nat → SynEntry) (block : List Bool)
    (llr : Option (List α)) : Option (Int × Nat × Bool) :=
  let val := bitsToUint block 31
  let syndrome := gf2Remainder poly val
  if syndrome = 0 then some (0, val, false)
  else if syndrome < tableSize ∧ 0 ≤ (syn syndrome).errs then
    some ((syn syndrome).errs, val ^^^ (syn syndrome).locator, true)
  else match llr with
    | none => none
    | some llr =>
      let pos := leastReliable llr
      -- bits_to_uint puts block bit k at value bit 30 - k
      let flipMask := (List.range 5).map fun i => 1 <<< (30 - pos.getD i 0)
      (List.range' 1 31).findSome? (chaseTry poly tableSize syn flipMask (bitsToUint block 31))

/-- `chase_bch_decode_p`: `none` is a return of `-1`; otherwise the error count,
the 21 data bits and the 10 check bits written to `out_data` and `out_check`. -/
def chaseBchDecodeP (syn : Nat → SynEntry) (block32 : List Bool) (llr32 : Option (List α)) :
    Option (Int × List Bool × List Bool) :=
  (chaseDecode 1207 1024 syn block32 llr32).map fun result =>
    (result.1, uintToBits (result.2.1 >>> 10) 21, uintToBits (result.2.1 &&& 0x3FF) 10)

/-- `chase_bch_da`: the error count, the 20 data bits and `*fixed`. -/
def chaseBchDa (syn : Nat → SynEntry) (block31 : List Bool) (llr31 : Option (List α)) :
    Option (Int × List Bool × Bool) :=
  (chaseDecode 3545 2048 syn block31 llr31).map fun result =>
    (result.1, uintToBits (result.2.1 >>> 11) 20, result.2.2)

end Chase

end IridiumSniffer.Bch
