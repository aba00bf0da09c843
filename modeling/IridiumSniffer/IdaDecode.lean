import IridiumSniffer.Lib.Crc
import IridiumSniffer.Lib.Loop
import IridiumSniffer.Bch

/-! The IDA payload decoder of `ida_decode.c`: `descramble_payload`, which
de-interleaves the payload in 124-bit blocks and BCH-decodes their 31-bit chunks,
and the CRC-CCITT check that `ida_decode` runs over the decoded stream. Bit
arrays are lists read past their end as `0`; `crc_buf` is a list of 64 bytes.
The arrays `de_interleave_n` fills are the lists of the entries it writes, and
what the stack held beyond them is a parameter. -/
namespace IridiumSniffer.Ida

open Bch (SynEntry chaseBchDa synDa)

section Descramble

variable {α : Type}

/-- The loop `for (; s >= lo; s -= 2) { out[p++] = in[2 * s]; out[p++] = in[2 * s + 1]; }`
of `de_interleave_n`, started at `s = t - 2`: the entries it writes, in order. -/
def pairsDown (inp : Nat → α) (lo : Nat) : Nat → List α
  | 0 => []
  | 1 => []
  | t + 2 => if lo ≤ t then inp (2 * t) :: inp (2 * t + 1) :: pairsDown inp lo t else []

/-- The two-way de-interleave of `n_sym` symbols: `out1` from symbol `n_sym - 1`
down to 1, `out2` from `n_sym - 2` down to 0, two bits per symbol. -/
def deInterleave (inp : Nat → α) (nSym : Nat) : List α × List α :=
  (pairsDown inp 1 (nSym + 1), pairsDown inp 0 nSym)

def deInterleaveN (inp : List Bool) (nSym : Nat) : List Bool × List Bool :=
  deInterleave (inp.getD · false) nSym

def deInterleaveLlrN [Inhabited α] (inp : List α) (nSym : Nat) : List α × List α :=
  deInterleave (inp.getD · default) nSym

theorem length_pairsDown (inp : Nat → α) (lo : Nat) : ∀ t, (pairsDown inp lo t).length = 2 * ((t - lo) / 2)
  | 0 => by simp [pairsDown]
  | 1 => by simp [pairsDown]
  | t + 2 => by
    unfold pairsDown
    split
    · rw [List.length_cons, List.length_cons, length_pairsDown inp lo t]
      omega
    · simp only [List.length_nil]
      omega

theorem mem_pairsDown {inp : Nat → α} {lo : Nat} :
    ∀ {t : Nat} {x : α}, x ∈ pairsDown inp lo t → ∃ i, i + 2 < 2 * t ∧ x = inp i
  | 0, _, member => by simp [pairsDown] at member
  | 1, _, member => by simp [pairsDown] at member
  | t + 2, x, member => by
    unfold pairsDown at member
    split at member
    · rcases List.mem_cons.mp member with rfl | member
      · exact ⟨2 * t, by omega, rfl⟩
      rcases List.mem_cons.mp member with rfl | member
      · exact ⟨2 * t + 1, by omega, rfl⟩
      obtain ⟨i, below, rfl⟩ := mem_pairsDown member
      exact ⟨i, by omega, rfl⟩
    · simp at member

theorem length_deInterleave (inp : Nat → α) (nSym : Nat) :
    (deInterleave inp nSym).1.length = 2 * (nSym / 2) ∧ (deInterleave inp nSym).2.length = 2 * (nSym / 2) := by
  simp only [deInterleave, length_pairsDown]
  omega

/-- The last block reads entries `1 .. n_sym - 1` of both halves; they are all
written exactly when `n_sym` is even or at most 1. -/
theorem deInterleave_reads_written (inp : Nat → α) (nSym : Nat) :
    (∀ i, 1 ≤ i → i < nSym → i < (deInterleave inp nSym).1.length ∧ i < (deInterleave inp nSym).2.length) ↔
      nSym % 2 = 0 ∨ nSym ≤ 1 := by
  obtain ⟨first, second⟩ := length_deInterleave inp nSym
  rw [first, second]
  constructor
  · intro written
    by_contra odd
    have last := written (nSym - 1) (by omega) (by omega)
    omega
  · intro even i low below
    omega

end Descramble

section Payload

variable {K : Type} [LinearOrder K] [Inhabited K]

/-- What the stack arrays `h1`, `h2`, `lh1` and `lh2` of the last partial block
hold where the de-interleave does not write. -/
structure Stale (K : Type) where
  h1 : Nat → Bool
  h2 : Nat → Bool
  lh1 : Nat → K
  lh2 : Nat → K

/-- The decoded stream (`bch_len` is its length) and `*fixederrs`. -/
abbrev Decoded := List Bool × Nat

/-- The chunk loop of a full block over `order = {3, 1, 2, 0}`: it stops at
`max_bch` (`break`), and a failed decode is the `goto done` that ends the whole
payload, `.error`. -/
def fullChunks (syn : Nat → SynEntry) (combined : List Bool) (lcombined : Option (List K)) (maxBch : Nat) :
    List Nat → Decoded → Except Decoded Decoded
  | [], st => .ok st
  | c :: cs, (stream, fixederrs) =>
    if stream.length + 20 > maxBch then .ok (stream, fixederrs)
    else
      match chaseBchDa syn (combined.drop (c * 31)) (lcombined.map (·.drop (c * 31))) with
      | none => .error (stream, fixederrs)
      | some (_, out, fixed) => fullChunks syn combined lcombined maxBch cs (stream ++ out, fixederrs + fixed.toNat)

/-- One full 124-bit block: 62 symbols de-interleaved into two halves, joined,
then decoded chunk by chunk. -/
def fullBlock (syn : Nat → SynEntry) (data : List Bool) (llr : Option (List K)) (maxBch blk : Nat)
    (st : Decoded) : Except Decoded Decoded :=
  let (half1, half2) := deInterleaveN (data.drop (blk * 124)) 62
  let lcombined := llr.map fun l =>
    let (lhalf1, lhalf2) := deInterleaveLlrN (l.drop (blk * 124)) 62
    lhalf1 ++ lhalf2
  fullChunks syn (half1 ++ half2) lcombined maxBch [3, 1, 2, 0] st

/-- The `while (pos + 31 <= clen && bch_len + BCH_DA_DATA <= max_bch)` loop of
the last block, with a failed decode a `break`; each round moves `pos` by 31, so
`fuel = clen` rounds are enough. -/
def partialChunks (syn : Nat → SynEntry) (combined : List Bool) (lcombined : Option (List K)) (maxBch : Nat) :
    Nat → Nat → Decoded → Decoded
  | 0, _, st => st
  | fuel + 1, pos, (stream, fixederrs) =>
    if pos + 31 ≤ combined.length ∧ stream.length + 20 ≤ maxBch then
      match chaseBchDa syn (combined.drop pos) (lcombined.map (·.drop pos)) with
      | none => (stream, fixederrs)
      | some (_, out, fixed) =>
        partialChunks syn combined lcombined maxBch fuel (pos + 31) (stream ++ out, fixederrs + fixed.toNat)
    else (stream, fixederrs)

/-- `combined` of the last block: entries `1 .. half_len - 1` of the second half,
then those of the first, at most 128; an entry the de-interleave did not write
is what the stack held. -/
def joinHalves {β : Type} (h1 h2 : List β) (stale1 stale2 : Nat → β) (halfLen : Nat) : List β :=
  let second := ((List.range' 1 (halfLen - 1)).map fun i => h2.getD i (stale2 i)).take 128
  second ++ ((List.range' 1 (halfLen - 1)).map fun i => h1.getD i (stale1 i)).take (128 - second.length)

/-- The last partial block: `remain / 2` symbols, the first bit of each half
dropped, decoded in 31-bit chunks. -/
def partialBlock (syn : Nat → SynEntry) (data : List Bool) (llr : Option (List K)) (maxBch nFull remain : Nat)
    (stale : Stale K) (st : Decoded) : Decoded :=
  if 4 ≤ remain ∧ st.1.length + 2 * (remain / 2 - 1) ≤ maxBch then
    let nSymLast := remain / 2
    let (h1, h2) := deInterleaveN (data.drop (nFull * 124)) nSymLast
    if 1 < nSymLast ∧ st.1.length + 20 ≤ maxBch then
      let combined := joinHalves h1 h2 stale.h1 stale.h2 nSymLast
      let lcombined := llr.map fun l =>
        let (lh1, lh2) := deInterleaveLlrN (l.drop (nFull * 124)) nSymLast
        joinHalves lh1 lh2 stale.lh1 stale.lh2 nSymLast
      partialChunks syn combined lcombined maxBch combined.length 0 st
    else st
  else st

/-- `descramble_payload` with the table `syn_da`: the full blocks, stopped by a
failed decode, then the last partial block. -/
def descramblePayload (data : List Bool) (llr : Option (List K)) (dataLen maxBch : Nat) (stale : Stale K) :
    Decoded :=
  let nFull := dataLen / 124
  match (List.range nFull).foldlM (fun st blk => fullBlock synDa data llr maxBch blk st) ([], 0) with
  | .error st => st
  | .ok st => partialBlock synDa data llr maxBch nFull (dataLen % 124) stale st

/-! ### The stream stays within `max_bch` -/

theorem length_chaseBchDa {syn : Nat → SynEntry} {block : List Bool} {llr : Option (List K)} {e : Int}
    {out : List Bool} {fixed : Bool} (decoded : chaseBchDa syn block llr = some (e, out, fixed)) :
    out.length = 20 := by
  unfold chaseBchDa at decoded
  obtain ⟨r, -, same⟩ := Option.map_eq_some_iff.mp decoded
  simp only [Prod.mk.injEq] at same
  rw [← same.2.1]
  simp [Bch.uintToBits]

/-- A chunk is decoded only while `bch_len + BCH_DA_DATA <= max_bch`, so the
full-block chunks never take the stream past `max_bch`, whether the block ends
or a failed decode leaves the payload. -/
theorem fullChunks_bounded (syn : Nat → SynEntry) (combined : List Bool) (lcombined : Option (List K))
    (maxBch : Nat) : ∀ (cs : List Nat) (st : Decoded), st.1.length ≤ maxBch →
      Loop.Holds (fun st : Decoded => st.1.length ≤ maxBch) (fullChunks syn combined lcombined maxBch cs st)
  | [], _, bound => bound
  | c :: cs, (stream, fixederrs), bound => by
    unfold fullChunks
    split
    · exact bound
    · rename_i room
      split
      · exact bound
      · rename_i e out fixed decoded
        apply fullChunks_bounded syn combined lcombined maxBch cs
        simp only [List.length_append, length_chaseBchDa decoded]
        omega

theorem partialChunks_bounded (syn : Nat → SynEntry) (combined : List Bool) (lcombined : Option (List K))
    (maxBch : Nat) : ∀ (fuel pos : Nat) (st : Decoded), st.1.length ≤ maxBch →
      (partialChunks syn combined lcombined maxBch fuel pos st).1.length ≤ maxBch
  | 0, _, _, bound => bound
  | fuel + 1, pos, (stream, fixederrs), bound => by
    unfold partialChunks
    split
    · rename_i room
      split
      · exact bound
      · rename_i e out fixed decoded
        apply partialChunks_bounded syn combined lcombined maxBch fuel
        simp only [List.length_append, length_chaseBchDa decoded]
        omega
    · exact bound

theorem partialBlock_bounded (syn : Nat → SynEntry) (data : List Bool) (llr : Option (List K))
    {maxBch : Nat} (nFull remain : Nat) (stale : Stale K) {st : Decoded} (bound : st.1.length ≤ maxBch) :
    (partialBlock syn data llr maxBch nFull remain stale st).1.length ≤ maxBch := by
  unfold partialBlock
  split
  · dsimp only
    split
    · exact partialChunks_bounded syn _ _ maxBch _ 0 st bound
    · exact bound
  · exact bound

/-- `descramble_payload` writes at most `max_bch` bits: `bch_stream[512]` is
never overrun. -/
theorem descramblePayload_bounded (data : List Bool) (llr : Option (List K)) (dataLen maxBch : Nat)
    (stale : Stale K) : (descramblePayload data llr dataLen maxBch stale).1.length ≤ maxBch := by
  have blocks := Loop.foldlM_invariant (fun st : Decoded => st.1.length ≤ maxBch)
    (fun st blk => fullBlock synDa data llr maxBch blk st)
    (fun st _ bound => fullChunks_bounded synDa _ _ maxBch _ st bound) (List.range (dataLen / 124))
    (b := ([], 0)) (Nat.zero_le maxBch)
  unfold descramblePayload
  dsimp only
  split
  · rename_i st failed
    rw [failed] at blocks
    exact blocks
  · rename_i st done
    rw [done] at blocks
    exact partialBlock_bounded synDa data llr _ _ stale blocks

/-! ### An even last block reads no stack -/

theorem joinHalves_congr {β : Type} {h1 h2 : List β} {halfLen : Nat} (long1 : halfLen ≤ h1.length)
    (long2 : halfLen ≤ h2.length) (stale1 stale2 stale1' stale2' : Nat → β) :
    joinHalves h1 h2 stale1 stale2 halfLen = joinHalves h1 h2 stale1' stale2' halfLen := by
  have written : ∀ (h : List β) (a b : Nat → β), halfLen ≤ h.length →
      (List.range' 1 (halfLen - 1)).map (fun i => h.getD i (a i)) =
        (List.range' 1 (halfLen - 1)).map (fun i => h.getD i (b i)) := by
    intro h a b long
    apply List.map_congr_left
    intro i mem
    have below : i < h.length := by
      rw [List.mem_range'_1] at mem
      omega
    rw [List.getD_eq_getElem _ _ below, List.getD_eq_getElem _ _ below]
  unfold joinHalves
  rw [written h2 stale2 stale2' long2, written h1 stale1 stale1' long1]

theorem joinHalves_deInterleave_congr {β : Type} (inp : Nat → β) {n : Nat} (even : n % 2 = 0)
    (stale1 stale2 stale1' stale2' : Nat → β) :
    joinHalves (deInterleave inp n).1 (deInterleave inp n).2 stale1 stale2 n =
      joinHalves (deInterleave inp n).1 (deInterleave inp n).2 stale1' stale2' n := by
  obtain ⟨first, second⟩ := length_deInterleave inp n
  exact joinHalves_congr (by omega) (by omega) stale1 stale2 stale1' stale2'

theorem partialBlock_stale (syn : Nat → SynEntry) (data : List Bool) (llr : Option (List K))
    (maxBch nFull remain : Nat) (even : remain / 2 % 2 = 0) (stale stale' : Stale K) (st : Decoded) :
    partialBlock syn data llr maxBch nFull remain stale st =
      partialBlock syn data llr maxBch nFull remain stale' st := by
  have bits := joinHalves_deInterleave_congr (fun i => (data.drop (nFull * 124)).getD i false) even
    stale.h1 stale.h2 stale'.h1 stale'.h2
  unfold partialBlock
  cases llr with
  | none =>
    simp only [Option.map_none]
    split
    · split
      · rw [deInterleaveN, bits]
      · rfl
    · rfl
  | some l =>
    have values := joinHalves_deInterleave_congr (fun i => (l.drop (nFull * 124)).getD i default) even
      stale.lh1 stale.lh2 stale'.lh1 stale'.lh2
    simp only [Option.map_some]
    split
    · split
      · rw [deInterleaveN, deInterleaveLlrN, bits, values]
      · rfl
    · rfl

/-- `descramble_payload` over a payload whose last block has an even number of
symbols does not depend on the stack. -/
theorem descramblePayload_stale (data : List Bool) (llr : Option (List K)) (dataLen maxBch : Nat)
    (even : dataLen % 124 / 2 % 2 = 0) (stale stale' : Stale K) :
    descramblePayload data llr dataLen maxBch stale = descramblePayload data llr dataLen maxBch stale' := by
  unfold descramblePayload
  simp only [partialBlock_stale synDa data llr maxBch (dataLen / 124) (dataLen % 124) even stale stale']

end Payload

/-- A 158-bit payload, one full block and 34 bits more: zero but for bits 150
and 155, two bits of the first chunk of the last block. -/
def oddTailPayload : List Bool :=
  (List.range 158).map fun i => decide (i = 150 ∨ i = 155)

/-- A stack of zeros, and one with `h2[16]` set. -/
def quietStack : Stale ℤ := ⟨fun _ => false, fun _ => false, fun _ => 0, fun _ => 0⟩

def noisyStack : Stale ℤ := { quietStack with h2 := fun i => decide (i = 16) }

/-- With 17 symbols in the last block, `de_interleave_n` writes 16 entries of
`h2`, and `descramble_payload` reads `h2[16]`: what the stack held there changes
the decoded stream. -/
theorem descramble_reads_unwritten :
    (deInterleaveN (oddTailPayload.drop 124) (34 / 2)).2.length = 16 ∧
      descramblePayload oddTailPayload none 158 512 quietStack ≠
        descramblePayload oddTailPayload none 158 512 noisyStack := by
  decide +kernel

/-- One round of the inner loop of `crc_ccitt`. -/
def ccittShift (crc : UInt16) : UInt16 :=
  if crc &&& 0x8000 != 0 then (crc <<< 1) ^^^ 0x1021 else crc <<< 1

/-- One byte of `crc_ccitt`: `crc ^= (uint16_t)data[i] << 8`, then eight rounds. -/
def ccittByte (crc : UInt16) (b : UInt8) : UInt16 :=
  (List.range 8).foldl (fun crc _ => ccittShift crc) (crc ^^^ (b.toUInt16 <<< 8))

/-- `crc_ccitt`, CRC-CCITT-FALSE: from `0xFFFF`, no final xor. -/
def crcCcitt (data : List UInt8) : UInt16 :=
  data.foldl ccittByte 0xFFFF

/-- The bits `bch_stream[first .. first + n - 1]` as a number, the first most significant. -/
def field (bch : List Bool) (first n : Nat) : Nat :=
  Bits.pack (fun i => bch.getD (first + i) false) n

/-- `crc_buf[bit_pos / 8] |= bit << (7 - (bit_pos % 8))`. -/
def orBit (buf : List UInt8) (pos : Nat) (bit : Bool) : List UInt8 :=
  buf.modify (pos / 8) (· ||| bit.toUInt8 <<< (7 - pos % 8).toUInt8)

/-- A packing loop of `ida_decode`: each bit at `bit_pos`, then `bit_pos++`. -/
def packBits : List UInt8 → Nat → List Bool → List UInt8 × Nat
  | buf, pos, [] => (buf, pos)
  | buf, pos, bit :: bits => packBits (orBit buf pos bit) (pos + 1) bits

/-- `crc_buf` and `bit_pos` after the two loops: bits 0–19, twelve positions
skipped, then bits 20 to `bch_len - 5`. -/
def crcBuffer (bch : List Bool) (bchLen : Nat) : List UInt8 × Nat :=
  let (buf, pos) := packBits (List.replicate 64 0) 0 ((List.range 20).map (bch.getD · false))
  packBits buf (pos + 12) ((List.range' 20 (bchLen - 4 - 20)).map (bch.getD · false))

/-- `stored_crc`: `stored_crc = (stored_crc << 1) | bch_stream[9 * 20 + i]`. -/
def storedCrc (bch : List Bool) : UInt16 :=
  (List.range 16).foldl (fun crc i => (crc <<< 1) ||| (bch.getD (9 * 20 + i) false).toUInt16) 0

/-- The CRC verification of `ida_decode`: `crc_ok`, `stored_crc` and
`computed_crc`. -/
def crcVerify (bch : List Bool) (bchLen daLen : Nat) : Bool × UInt16 × UInt16 :=
  if 0 < daLen ∧ 196 ≤ bchLen then
    let crcBits := 20 + 12 + (bchLen - 20 - 4)
    if (crcBits + 7) / 8 ≤ 64 then
      let (buf, pos) := crcBuffer bch bchLen
      let computed := crcCcitt (buf.take ((pos + 7) / 8))
      (computed == 0, storedCrc bch, computed)
    else (false, storedCrc bch, 0)
  else (false, 0, 0)

/-- Bytes of a bit sequence, eight bits each, the first most significant. -/
def msbBytes (bits : List Bool) (n : Nat) : List UInt8 :=
  (List.range n).map fun j => UInt8.ofNat (Bits.pack (fun k => bits.getD (8 * j + k) false) 8)

/-! ## `crc_ccitt` is the MSB-first check -/

theorem toBitVec_ccittShift (crc : UInt16) :
    (ccittShift crc).toBitVec = Crc.shiftMsb 0x1021#16 crc.toBitVec :=
  Crc.toBitVec_shiftMsb 0x1021 crc

theorem toBitVec_ccittByte (crc : UInt16) (b : UInt8) :
    (ccittByte crc b).toBitVec = Crc.byteMsb 0x1021#16 crc.toBitVec b.toBitVec := by
  rw [ccittByte, Crc.toBitVec_rounds_msb toBitVec_ccittShift, UInt16.toBitVec_xor,
    UInt16.toBitVec_shiftLeft, UInt8.toBitVec_toUInt16]
  rfl

theorem toBitVec_ccitt_foldl (data : List UInt8) (crc : UInt16) :
    (data.foldl ccittByte crc).toBitVec = Crc.crcMsb 0x1021#16 crc.toBitVec (data.map UInt8.toBitVec) := by
  induction data generalizing crc with
  | nil => rfl
  | cons b data ih =>
    rw [List.foldl_cons, ih, toBitVec_ccittByte]
    rfl

/-- **Residue of CRC-CCITT**: two bytes after a message leave zero exactly when
they are its check, high octet first. -/
theorem crcCcitt_append_pair (data : List UInt8) (hi lo : UInt8) :
    crcCcitt (data ++ [hi, lo]) = 0 ↔ (crcCcitt data).toBitVec = hi.toBitVec ++ lo.toBitVec := by
  have odd : (0x1021#16).getLsbD 0 = true := by decide
  have residue := Crc.crcMsb_append_pair odd 0xFFFF#16 (data.map UInt8.toBitVec) hi.toBitVec lo.toBitVec
  rw [← List.map_singleton, ← List.map_cons, ← List.map_append] at residue
  rw [← UInt16.toBitVec_inj, crcCcitt, crcCcitt, toBitVec_ccitt_foldl, toBitVec_ccitt_foldl]
  exact residue

theorem crcCcitt_append_check (data : List UInt8) (check : UInt16) :
    crcCcitt (data ++ [(check >>> 8).toUInt8, check.toUInt8]) = 0 ↔ crcCcitt data = check := by
  rw [crcCcitt_append_pair, UInt16.toBitVec_toUInt8, UInt16.toBitVec_toUInt8, UInt16.toBitVec_shiftRight]
  conv => rhs; rw [← UInt16.toBitVec_inj]
  exact iff_of_eq (congrArg _ (Crc.high_append_low check.toBitVec))

/-! ## The packing loops -/

/-- Bit `p` of a byte buffer: byte `p / 8`, most significant bit first. -/
def bufBit (buf : List UInt8) (p : Nat) : Bool :=
  (buf.getD (p / 8) 0).toNat.testBit (7 - p % 8)

/-- The bits the loops put in `crc_buf`: bits 0–19, twelve zeros, bits 20 to
`bch_len - 5`. -/
def crcInput (bch : List Bool) (bchLen : Nat) : List Bool :=
  (List.range 20).map (bch.getD · false) ++ List.replicate 12 false ++
    (List.range' 20 (bchLen - 4 - 20)).map (bch.getD · false)

@[simp] theorem length_orBit (buf : List UInt8) (pos : Nat) (bit : Bool) :
    (orBit buf pos bit).length = buf.length :=
  List.length_modify _ _ _

private theorem testBit_shifted : ∀ (bit : Bool) (a c : Fin 8),
    (bit.toUInt8 <<< (7 - a.val).toUInt8).toNat.testBit (7 - c.val) = (decide (c = a) && bit) := by
  decide

theorem bufBit_orBit {buf : List UInt8} {pos : Nat} (inside : pos / 8 < buf.length) (bit : Bool) (p : Nat) :
    bufBit (orBit buf pos bit) p = (bufBit buf p || (decide (p = pos) && bit)) := by
  unfold bufBit orBit
  rw [List.getD_eq_getElem?_getD, List.getElem?_modify, List.getD_eq_getElem?_getD]
  by_cases same : pos / 8 = p / 8
  · rw [List.getElem?_eq_getElem (same ▸ inside)]
    have key := testBit_shifted bit ⟨pos % 8, Nat.mod_lt _ (by omega)⟩ ⟨p % 8, Nat.mod_lt _ (by omega)⟩
    have position : p % 8 = pos % 8 ↔ p = pos := by omega
    simp only [Fin.mk.injEq, position] at key
    simp only [Option.map_eq_map, Option.map_some, same, if_true, Option.getD_some]
    rw [UInt8.toNat_or, Nat.testBit_or, key]
  · have differ : p ≠ pos := fun equal => same (by rw [equal])
    cases buf[p / 8]? <;> simp [same, differ]

/-- A packing loop writes its bits at the positions from `pos` on and leaves
the others. -/
theorem packBits_spec (buf : List UInt8) (pos : Nat) (bits : List Bool)
    (room : pos + bits.length ≤ 8 * buf.length) :
    (packBits buf pos bits).2 = pos + bits.length ∧ (packBits buf pos bits).1.length = buf.length ∧
      ∀ p, bufBit (packBits buf pos bits).1 p =
        (bufBit buf p || (decide (pos ≤ p) && bits.getD (p - pos) false)) := by
  induction bits generalizing buf pos with
  | nil => simp [packBits]
  | cons bit bits ih =>
    simp only [List.length_cons] at room
    have inside : pos / 8 < buf.length := by omega
    obtain ⟨ended, sized, written⟩ := ih (orBit buf pos bit) (pos + 1) (by simp; omega)
    refine ⟨by rw [packBits, ended, List.length_cons]; omega, by rw [packBits, sized, length_orBit], ?_⟩
    intro p
    rw [packBits, written, bufBit_orBit inside]
    rcases Nat.lt_trichotomy p pos with below | rfl | above
    · simp [show p ≠ pos by omega, show ¬ pos + 1 ≤ p by omega, show ¬ pos ≤ p by omega]
    · simp
    · have shifted : p - pos = p - (pos + 1) + 1 := by omega
      simp [show p ≠ pos by omega, show pos + 1 ≤ p by omega, show pos ≤ p by omega, shifted]

theorem bufBit_zero (p : Nat) : bufBit (List.replicate 64 0) p = false := by
  have zero : (List.replicate 64 (0 : UInt8)).getD (p / 8) 0 = 0 := by
    by_cases inside : p / 8 < 64
    · exact List.getD_replicate _ inside
    · exact List.getD_eq_default _ _ (by rw [List.length_replicate]; omega)
  rw [bufBit, zero]
  simp

theorem crcBuffer_spec (bch : List Bool) {bchLen : Nat} (long : 24 ≤ bchLen) (fits : bchLen ≤ 504) :
    (crcBuffer bch bchLen).2 = 32 + (bchLen - 24) ∧ (crcBuffer bch bchLen).1.length = 64 ∧
      ∀ p, bufBit (crcBuffer bch bchLen).1 p = (crcInput bch bchLen).getD p false := by
  set first := (List.range 20).map (bch.getD · false) with first_def
  set second := (List.range' 20 (bchLen - 4 - 20)).map (bch.getD · false) with second_def
  have firstLen : first.length = 20 := by simp [first_def]
  have secondLen : second.length = bchLen - 24 := by simp [second_def]; omega
  obtain ⟨ended, sized, written⟩ := packBits_spec (List.replicate 64 0) 0 first (by simp [firstLen])
  rcases packed : packBits (List.replicate 64 0) 0 first with ⟨buf, pos⟩
  rw [packed] at ended sized written
  rw [List.length_replicate] at sized
  simp only [firstLen, Nat.zero_add] at ended
  subst ended
  obtain ⟨ended', sized', written'⟩ := packBits_spec buf (20 + 12) second (by rw [sized, secondLen]; omega)
  simp only [crcBuffer, ← first_def, ← second_def, packed]
  refine ⟨by rw [ended', secondLen], by rw [sized', sized], ?_⟩
  intro p
  rw [written', written, bufBit_zero, Bool.false_or]
  simp only [Nat.zero_le, decide_true, Bool.true_and, Nat.sub_zero]
  unfold crcInput
  rw [← first_def, ← second_def, List.append_assoc]
  -- where `p` falls: the first twenty bits, the twelve zeros, or the rest
  by_cases front : p < 20
  · rw [List.getD_append first _ _ p (by omega)]
    simp [show ¬ 20 + 12 ≤ p by omega]
  · rw [List.getD_eq_default first false (by omega), Bool.false_or,
      List.getD_append_right first _ _ p (by omega), firstLen]
    by_cases gap : p < 32
    · rw [List.getD_append _ _ _ _ (by simp; omega), List.getD_replicate _ (by omega)]
      simp [show ¬ 20 + 12 ≤ p by omega]
    · rw [List.getD_append_right _ _ _ _ (by simp; omega), List.length_replicate]
      simp [show 20 + 12 ≤ p by omega, show p - 20 - 12 = p - (20 + 12) by omega]

/-! ## The bytes the check reads -/

theorem getD_eq_pack (buf : List UInt8) (j : Nat) :
    buf.getD j 0 = UInt8.ofNat (Bits.pack (fun k => bufBit buf (8 * j + k)) 8) := by
  apply UInt8.toNat_inj.mp
  rw [UInt8.toNat_ofNat', Nat.mod_eq_of_lt (Bits.pack_lt _ 8)]
  apply Nat.eq_of_testBit_eq
  intro t
  rw [Bits.testBit_pack]
  by_cases low : t < 8
  · have index : (8 * j + (8 - 1 - t)) / 8 = j := by omega
    have offset : 7 - (8 * j + (8 - 1 - t)) % 8 = t := by omega
    rw [decide_eq_true low, Bool.true_and, bufBit, index, offset]
  · have above : (buf.getD j 0).toNat < 2 ^ t :=
      Nat.lt_of_lt_of_le (UInt8.toNat_lt _) (Nat.pow_le_pow_right (by omega) (by omega))
    rw [decide_eq_false low, Bool.false_and]
    exact Nat.testBit_lt_two_pow above

theorem take_eq_msbBytes {buf : List UInt8} {bits : List Bool} {n : Nat} (enough : n ≤ buf.length)
    (same : ∀ p, bufBit buf p = bits.getD p false) : buf.take n = msbBytes bits n := by
  apply List.ext_getElem
  · simp [msbBytes, enough]
  · intro j inside _
    have below : j < n := by simpa [enough] using inside
    rw [List.getElem_take, ← List.getD_eq_getElem buf 0, getD_eq_pack]
    simp only [msbBytes, List.getElem_map, List.getElem_range, same]

theorem msbBytes_congr {a b : List Bool} {n : Nat} (same : ∀ p < 8 * n, a.getD p false = b.getD p false) :
    msbBytes a n = msbBytes b n := by
  apply List.map_congr_left
  intro j member
  have inside := List.mem_range.mp member
  congr 1
  exact Bits.pack_congr fun k below => same _ (by omega)

theorem msbBytes_add_two (bits : List Bool) (n : Nat) :
    msbBytes bits (n + 2) = msbBytes bits n ++
      [UInt8.ofNat (Bits.pack (fun k => bits.getD (8 * n + k) false) 8),
        UInt8.ofNat (Bits.pack (fun k => bits.getD (8 * (n + 1) + k) false) 8)] := by
  simp [msbBytes, List.range_succ]

theorem toNat_append_bytes (bit : Nat → Bool) :
    (UInt8.ofNat (Bits.pack bit 8)).toBitVec ++ (UInt8.ofNat (Bits.pack (fun k => bit (8 + k)) 8)).toBitVec =
      BitVec.ofNat 16 (Bits.pack bit 16) := by
  apply BitVec.eq_of_toNat_eq
  rw [BitVec.toNat_append, UInt8.toNat_toBitVec, UInt8.toNat_toBitVec, UInt8.toNat_ofNat', UInt8.toNat_ofNat',
    Nat.mod_eq_of_lt (Bits.pack_lt _ 8), Nat.mod_eq_of_lt (Bits.pack_lt _ 8), BitVec.toNat_ofNat,
    Nat.mod_eq_of_lt (Bits.pack_lt _ 16), show (16 : Nat) = 8 + 8 from rfl, Bits.pack_add]

/-- **The IDA CRC check.** CRC-CCITT leaves zero after a message and two bytes
exactly when they are its check, high octet first; so on a 200-bit stream with
a nonzero `da_len`, `ida_decode` sets `crc_ok` exactly when bits 180–195 are the
CRC of the 24 bytes of bits 0–19, twelve zeros and bits 20–179. -/
theorem ida_crc_check_matches_stored :
    (∀ (data : List UInt8) (check : UInt16),
      crcCcitt (data ++ [(check >>> 8).toUInt8, check.toUInt8]) = 0 ↔ crcCcitt data = check) ∧
    ∀ bch : List Bool, 0 < field bch 11 5 →
      ((crcVerify bch 200 (field bch 11 5)).1 = true ↔
        field bch 180 16 = (crcCcitt (msbBytes ((List.range 20).map (bch.getD · false) ++
          List.replicate 12 false ++ (List.range' 20 160).map (bch.getD · false)) 24)).toNat) := by
  refine ⟨crcCcitt_append_check, fun bch nonzero => ?_⟩
  set message := (List.range 20).map (bch.getD · false) ++ List.replicate 12 false ++
    (List.range' 20 160).map (bch.getD · false) with message_def
  set tail := (List.range' 180 16).map (bch.getD · false) with tail_def
  have messageLen : message.length = 192 := by simp [message_def]
  -- `crc_buf` holds the message, then the sixteen bits after it
  have split : crcInput bch 200 = message ++ tail := by
    have ranges : List.range' 20 (200 - 4 - 20) = List.range' 20 160 ++ List.range' 180 16 := by
      rw [show 200 - 4 - 20 = 160 + 16 from rfl, ← List.range'_append]
    simp only [crcInput, message_def, tail_def, List.append_assoc, ← List.map_append, ranges]
  obtain ⟨ended, sized, written⟩ := crcBuffer_spec bch (show 24 ≤ 200 by decide) (by decide)
  rcases buffer : crcBuffer bch 200 with ⟨buf, pos⟩
  rw [buffer] at ended sized written
  simp only at ended sized written
  subst ended
  have bytes : buf.take ((32 + (200 - 24) + 7) / 8) = msbBytes (message ++ tail) (24 + 2) := by
    rw [← split]
    exact take_eq_msbBytes (by rw [sized]; decide) written
  have front : msbBytes (message ++ tail) 24 = msbBytes message 24 :=
    msbBytes_congr fun p below => List.getD_append message tail false p (by omega)
  have back : ∀ k, (message ++ tail).getD (8 * 24 + k) false = tail.getD k false := by
    intro k
    rw [List.getD_append_right message tail false _ (by omega), messageLen, Nat.add_sub_cancel_left]
  have back' : ∀ k, (message ++ tail).getD (8 * (24 + 1) + k) false = tail.getD (8 + k) false := by
    intro k
    rw [show 8 * (24 + 1) + k = 8 * 24 + (8 + k) by omega, back]
  have stored : ∀ k < 16, tail.getD k false = bch.getD (180 + k) false := by
    intro k below
    simp [tail_def, List.getD_eq_getElem?_getD, below]
  rw [msbBytes_add_two, front] at bytes
  simp only [back, back'] at bytes
  simp only [crcVerify, nonzero, show 196 ≤ 200 by decide, and_self, if_true,
    show (20 + 12 + (200 - 20 - 4) + 7) / 8 ≤ 64 by decide, buffer, bytes, beq_iff_eq]
  rw [crcCcitt_append_pair, toNat_append_bytes, ← BitVec.toNat_inj, BitVec.toNat_ofNat,
    Nat.mod_eq_of_lt (Bits.pack_lt _ 16), UInt16.toNat_toBitVec, eq_comm]
  unfold field
  rw [Bits.pack_congr fun k below => stored k below]

/-- A 200-bit stream with `da_len = 1`, payload byte `0x41` and its CRC
`0x025f` in bits 180–195. -/
def sampleStream : List Bool :=
  (List.range 200).map fun i => decide (i ∈ [15, 21, 27, 186, 189, 191, 192, 193, 194, 195])

theorem ida_crc_check_matches_stored_sample :
    0 < field sampleStream 11 5 ∧ (crcVerify sampleStream 200 (field sampleStream 11 5)).1 = true :=
  ⟨by decide, (ida_crc_check_matches_stored.2 sampleStream (by decide)).mpr (by decide +kernel)⟩

end IridiumSniffer.Ida
