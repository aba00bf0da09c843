import IridiumSniffer.IdaDecode
import IridiumSniffer.IdaLcw
import IridiumSniffer.IdaReassembly

/-! `ida_decode` as a whole: the LCW, the payload descrambled into
`bch_stream[512]`, the header fields and the CRC, filled into an `ida_burst_t`;
and the entries of that burst's `bch_stream[256]` that `frame_output_print_ida`
reads. `ida_decode` stores the whole `bch_len` but copies at most 256 bits, and
the printer reads up to `bch_len`: a frame whose payload decodes to more than
256 bits makes it read past the copy. Three full blocks and a last block of 36
bits decode to 260. -/
namespace IridiumSniffer.Ida

/-- The fields of `demod_frame_t` that `ida_decode` reads, without the signal
levels it only copies. -/
structure DemodFrame (K : Type) where
  timestamp : Nat
  centerFrequency : K
  direction : IrDirection
  bits : List Bool
  llr : Option (List K)
  nBits : Nat
deriving DecidableEq, Repr

/-- `ida_burst_t` as `ida_decode` fills it, without the signal levels it copies
from the frame and the formatted LCW header: `payload` holds the `payload_len`
bytes copied and `bchStream` the `min(bch_len, 256)` bits copied. -/
structure DecodedBurst (K : Type) where
  timestamp : Nat
  frequency : K
  direction : IrDirection
  daCtr : Nat
  daLen : Nat
  cont : Bool
  crcOk : Bool
  storedCrc : UInt16
  computedCrc : UInt16
  fixederrs : Nat
  payloadLen : Nat
  payload : List UInt8
  bchLen : Nat
  bchStream : List Bool
  lcw : Lcw
deriving DecidableEq, Repr

variable {K : Type}

/-- The entries of `bch_stream` that `frame_output_print_ida` reads, in order:
bits 0–10 and 16–19 of the header, the trailing bits `196 .. bch_len - 1`, and
bits 20–179 for the SBD preview. -/
def printIdaReads (burst : DecodedBurst K) : List Nat :=
  if burst.bchLen < 20 then []
  else
    List.range 11 ++ List.range' 16 4 ++
      (if 9 * 20 + 16 < burst.bchLen then List.range' (9 * 20 + 16) (burst.bchLen - (9 * 20 + 16)) else []) ++
      -- `bs[1 * 20 + i * 8 + b]` for `i < 20` and `b < 8`
      (if 0 < burst.daLen ∧ 9 * 20 ≤ burst.bchLen then List.range' 20 160 else [])

theorem printIdaReads_lt (burst : DecodedBurst K) : ∀ i ∈ printIdaReads burst, i < burst.bchLen := by
  intro i mem
  unfold printIdaReads at mem
  split at mem
  · simp at mem
  · rename_i long
    simp only [List.mem_append, List.mem_range, List.mem_range'_1] at mem
    rcases mem with ((header | header) | trailing) | preview
    · omega
    · omega
    · split at trailing
      · rw [List.mem_range'_1] at trailing
        omega
      · simp at trailing
    · split at preview
      · rw [List.mem_range'_1] at preview
        omega
      · simp at preview

theorem printIdaReads_last {burst : DecodedBurst K} (long : 9 * 20 + 16 < burst.bchLen) :
    burst.bchLen - 1 ∈ printIdaReads burst := by
  have trailing : burst.bchLen - 1 ∈ List.range' (9 * 20 + 16) (burst.bchLen - (9 * 20 + 16)) := by
    rw [List.mem_range'_1]
    omega
  simp only [printIdaReads, show ¬ burst.bchLen < 20 by omega, if_false, long, if_true, List.mem_append]
  exact .inl (.inr trailing)

variable [LinearOrder K] [Inhabited K]

/-- `ida_decode`, with `stale` what the stack held under the arrays of the last
block; `none` is a return of 0. -/
def idaDecode (frame : DemodFrame K) (stale : Stale K) : Option (DecodedBurst K) := do
  if frame.nBits < 24 + 46 + 124 then none
  if frame.direction = .undef then none
  let data := frame.bits.drop 24
  let dataLlr := frame.llr.map (·.drop 24)
  let dataLen := frame.nBits - 24
  let lcw ← decodeLcw data dataLen
  if lcw.ft ≠ 2 then none
  let payloadLen := dataLen - 46
  if payloadLen < 124 then none
  let (bch, fixederrs) := descramblePayload (data.drop 46) (dataLlr.map (·.drop 46)) payloadLen 512 stale
  let bchLen := bch.length
  if bchLen < 196 then none
  let daLen := field bch 11 5
  if field bch 17 3 ≠ 0 then none
  if 20 < daLen then none
  -- `payload[i]` from bits `20 + 8 i .. 27 + 8 i`
  let payload := msbBytes (bch.drop 20) 20
  let (crcOk, stored, computed) := crcVerify bch bchLen daLen
  let copied := if 0 < daLen then daLen else 20
  pure ⟨frame.timestamp, frame.centerFrequency, frame.direction, field bch 5 3, daLen, bch.getD 3 false,
    crcOk, stored, computed, fixederrs, copied, payload.take copied, bchLen, bch.take 256, lcw⟩

theorem idaDecode_some {frame : DemodFrame K} {stale : Stale K} {b : DecodedBurst K}
    (ok : idaDecode frame stale = some b) :
    ∃ lcw bch fixederrs, 24 + 46 + 124 ≤ frame.nBits ∧ frame.direction ≠ .undef ∧
      decodeLcw (frame.bits.drop 24) (frame.nBits - 24) = some lcw ∧ lcw.ft = 2 ∧
      descramblePayload ((frame.bits.drop 24).drop 46) ((frame.llr.map (·.drop 24)).map (·.drop 46))
        (frame.nBits - 24 - 46) 512 stale = (bch, fixederrs) ∧
      196 ≤ bch.length ∧ field bch 17 3 = 0 ∧ field bch 11 5 ≤ 20 ∧
      b = ⟨frame.timestamp, frame.centerFrequency, frame.direction, field bch 5 3, field bch 11 5,
        bch.getD 3 false, (crcVerify bch bch.length (field bch 11 5)).1,
        (crcVerify bch bch.length (field bch 11 5)).2.1, (crcVerify bch bch.length (field bch 11 5)).2.2,
        fixederrs, if 0 < field bch 11 5 then field bch 11 5 else 20,
        (msbBytes (bch.drop 20) 20).take (if 0 < field bch 11 5 then field bch 11 5 else 20),
        bch.length, bch.take 256, lcw⟩ := by
  unfold idaDecode at ok
  dsimp only at ok
  generalize decoded : descramblePayload ((frame.bits.drop 24).drop 46) ((frame.llr.map (·.drop 24)).map (·.drop 46))
    (frame.nBits - 24 - 46) 512 stale = d at ok
  obtain ⟨bch, fixederrs⟩ := d
  cases lcwResult : decodeLcw (frame.bits.drop 24) (frame.nBits - 24) with
  | none => simp [lcwResult] at ok
  | some lcw =>
    simp [lcwResult] at ok
    obtain ⟨long, sent, ft, -, enough, zero, short, rfl⟩ := ok
    exact ⟨lcw, bch, fixederrs, long, sent, rfl, ft, rfl, enough, zero, short, by simp⟩

section Bounds

variable {frame : DemodFrame K} {stale : Stale K} {b : DecodedBurst K}

/-- When `ida_decode` returns 1 it has decoded at least 196 and at most 512
bits, copied `min(bch_len, 256)` of them, and found `da_len <= 20`. -/
theorem idaDecode_bounds (ok : idaDecode frame stale = some b) :
    196 ≤ b.bchLen ∧ b.bchLen ≤ 512 ∧ b.bchStream.length = min b.bchLen 256 ∧ b.daLen ≤ 20 ∧
      b.payloadLen ≤ 20 := by
  obtain ⟨lcw, bch, fixederrs, -, -, -, -, decoded, enough, -, short, rfl⟩ := idaDecode_some ok
  have bound := descramblePayload_bounded ((frame.bits.drop 24).drop 46)
    ((frame.llr.map (·.drop 24)).map (·.drop 46)) (frame.nBits - 24 - 46) 512 stale
  rw [decoded] at bound
  refine ⟨enough, bound, by simp [Nat.min_comm], short, ?_⟩
  dsimp only
  split <;> omega

end Bounds

/-- A frame whose last payload block has an even number of symbols decodes the
same whatever the stack held. -/
theorem idaDecode_stale (frame : DemodFrame K) (even : (frame.nBits - 24 - 46) % 124 / 2 % 2 = 0)
    (stale stale' : Stale K) : idaDecode frame stale = idaDecode frame stale' := by
  unfold idaDecode
  simp only [descramblePayload_stale _ _ (frame.nBits - 24 - 46) 512 even stale stale']

/-- For a burst `ida_decode` returns, the printer reads only entries it copied
exactly when `bch_len <= 256`. -/
theorem printIdaReads_copied_iff {frame : DemodFrame K} {stale : Stale K} {b : DecodedBurst K}
    (ok : idaDecode frame stale = some b) :
    (∀ i ∈ printIdaReads b, i < b.bchStream.length) ↔ b.bchLen ≤ 256 := by
  obtain ⟨enough, -, copied, -, -⟩ := idaDecode_bounds ok
  rw [copied]
  constructor
  · intro inside
    by_contra long
    have last := inside _ (printIdaReads_last (by omega))
    omega
  · intro short i mem
    have below := printIdaReads_lt b i mem
    omega

/-- A downlink frame of 478 bits, 239 symbols: the 24 bits of the unique word,
an LCW of frame type 2 (its 46 bits zero but for 26, 30, 31 and 39: the codeword
`0100111` of the first component, the others zero), and a zero payload of 408
bits, three full blocks and a last block of 36. -/
def longFrame : DemodFrame ℤ :=
  ⟨0, 0, .downlink, (List.range 478).map fun i => decide (i ∈ [50, 54, 55, 63]), none, 478⟩

/-- `ida_decode` accepts `longFrame`, whatever the stack held, with
`bch_len = 260`: three full blocks of 80 bits and one chunk of the last. It
copies 256 bits, and `frame_output_print_ida` reads `bs[259]`. -/
theorem idaDecode_long_burst_overread (stale : Stale ℤ) :
    ∃ b, idaDecode longFrame stale = some b ∧ b.bchLen = 260 ∧ b.bchStream.length = 256 ∧
      259 ∈ printIdaReads b := by
  have decoded : (idaDecode longFrame quietStack).map (·.bchLen) = some 260 := by
    decide +kernel
  rw [idaDecode_stale longFrame (by decide) stale quietStack]
  obtain ⟨b, ok, long⟩ := Option.map_eq_some_iff.mp decoded
  have copied := (idaDecode_bounds ok).2.2.1
  have last := printIdaReads_last (show 9 * 20 + 16 < b.bchLen by omega)
  rw [long] at copied last
  exact ⟨b, ok, long, copied, last⟩

end IridiumSniffer.Ida
