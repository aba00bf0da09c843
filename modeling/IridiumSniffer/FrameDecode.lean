import IridiumSniffer.Lib.Access
import IridiumSniffer.Bch

/-! `frame_decode` of `frame_decode.c` as a program over the arrays it touches,
with every read and write logged: the frame's `bits` and `llr`, the local
blocks and decoder outputs, the `bch_stream` of the IBC and of the IRA path,
and the paging blocks of `ira`. The demodulator writes every bit as 0 or 1, so
a bit is an entry that is not 0; the fields `parse_ira` derives from the
position with `atan2` and `sqrt` are left out.

Every read of `bits` and `llr` is below `n_bits`, `llr` is read only when the
frame has it, and every write is inside the array it goes to: the two
`bch_stream`s are filled only while another two blocks fit, so the `bch_len`
given to `parse_ibc` and `parse_ira` is at most the stream's size. -/
namespace IridiumSniffer.Frame

open Access
open Bch (synRa synHdr gf2Remainder)

/-- The arrays `frame_decode` reads and writes. -/
inductive Buf where
  | bits | llr
  | di1 | di2 | li1 | li2
  | ra1 | ra2 | ra3 | la1 | la2 | la3
  | d1 | d2 | d3 | c1 | c2 | c3 | rd1 | rd2 | rc1 | rc2
  | hdrData
  | ibcStream | iraStream
  | pageTmsi | pageMscId
deriving DecidableEq, Repr

/-- The length of each array for a frame of `n_bits` bits. -/
def Buf.size (nBits : Nat) : Buf → Nat
  | .bits | .llr => nBits
  | .di1 | .di2 | .li1 | .li2 | .ra1 | .ra2 | .ra3 | .la1 | .la2 | .la3 => 32
  | .d1 | .d2 | .d3 | .rd1 | .rd2 => 21
  | .c1 | .c2 | .c3 | .rc1 | .rc2 => 10
  | .hdrData => 3
  | .ibcStream => 256
  | .iraStream => 512
  | .pageTmsi | .pageMscId => 12

structure IbcData where
  bcType : Nat
  satId : Nat
  beamId : Nat
  timeslot : Nat
  svBlocking : Nat
  iriTime : Nat
deriving DecidableEq, Repr

/-- One paging block of `ira_data_t`. -/
structure Page where
  tmsi : Nat
  mscId : Nat
deriving DecidableEq, Repr

/-- `ira_data_t` without the fields derived from the position. -/
structure IraData where
  satId : Nat
  beamId : Nat
  posXyz : Int × Int × Int
  pages : List Page
deriving DecidableEq, Repr

/-- What `frame_decode` writes to `out` when it returns 1. -/
inductive Decoded where
  | ibc (data : IbcData)
  | ira (data : IraData)
deriving DecidableEq, Repr

def accessDl : List Nat := [0, 0, 1, 1, 0, 0, 0, 0, 0, 0, 1, 1, 0, 0, 0, 0, 1, 1, 1, 1, 0, 0, 1, 1]

def accessUl : List Nat := [1, 1, 0, 0, 1, 1, 0, 0, 0, 0, 1, 1, 1, 1, 0, 0, 1, 1, 1, 1, 1, 1, 0, 0]

variable {K : Type} [Field K] [LinearOrder K] [Inhabited K]

def bitAt (a : Buf) (i : Nat) : Prog Buf K Bool := do
  let v ← load a i
  pure (v ≠ 0)

/-- `n` entries from `start` as bits. -/
def loadBits (a : Buf) (start n : Nat) : Prog Buf K (List Bool) :=
  foldRange 0 n (fun i bits => do
    let b ← bitAt a (start + i)
    pure (bits ++ [b])) []

/-- `n` entries from `start` as reals. -/
def loadValues (a : Buf) (start n : Nat) : Prog Buf K (List K) :=
  foldRange 0 n (fun i vals => do
    let v ← load a (start + i)
    pure (vals ++ [v])) []

/-- `bits_to_uint(&a[start], n)`: `val = (val << 1) | a[i]`. -/
def bitsToUint (a : Buf) (start n : Nat) : Prog Buf K Nat :=
  foldRange 0 n (fun i val => do
    let b ← bitAt a (start + i)
    pure (2 * val + b.toNat)) 0

/-- `extract_uint`, the same loop over `bch_data`. -/
def extractUint (a : Buf) (start n : Nat) : Prog Buf K Nat :=
  bitsToUint a start n

/-- `uint_to_bits(val, a, n)`: `a[i] = val & 1; val >>= 1` from `i = n - 1` down. -/
def uintToBits (a : Buf) (val n : Nat) : Prog Buf K Unit :=
  forRange 0 n fun k => store a (n - 1 - k) (if val.testBit k then 1 else 0)

/-- `memcpy(dst + dstStart, src, n)`. -/
def memcpy (src dst : Buf) (dstStart n : Nat) : Prog Buf K Unit :=
  forRange 0 n fun i => do
    let v ← load src i
    store dst (dstStart + i) v

/-- One output of `de_interleave` or `de_interleave3`:
`for (s = top; ...; s -= stride) { out[p++] = in[2 * s]; out[p++] = in[2 * s + 1]; }`
over its 16 symbols, `in` from `base`. -/
def strided (src : Buf) (base : Nat) (out : Buf) (top stride : Nat) : Prog Buf K Unit :=
  forRange 0 16 fun k => do
    let v ← load src (base + 2 * (top - stride * k))
    store out (2 * k) v
    let w ← load src (base + 2 * (top - stride * k) + 1)
    store out (2 * k + 1) w

/-- `de_interleave` and `de_interleave_llr`: odd symbols from 31 down, even
symbols from 30 down. -/
def deInterleave (src : Buf) (base : Nat) (out1 out2 : Buf) : Prog Buf K Unit := do
  strided src base out1 31 2
  strided src base out2 30 2

/-- `de_interleave3`, and the inline loops that de-interleave the LLRs of the
IRA header the same way. -/
def deInterleave3 (src : Buf) (base : Nat) (out1 out2 out3 : Buf) : Prog Buf K Unit := do
  strided src base out1 47 3
  strided src base out2 46 3
  strided src base out3 45 3

/-- `chase_bch_decode_p(block32, has_llr ? llr32 : NULL, out_data, out_check)`:
`block32[0..30]`, then `llr32[0..30]` only when the hard decision fails (the
selection sort reads each of them), and on success the corrected word written
out by `uint_to_bits`; `-1` on failure. -/
def chaseBchDecodeP (hasLlr : Bool) (block32 llr32 outData outCheck : Buf) : Prog Buf K Int := do
  let bits ← loadBits block32 0 31
  let soft ← (if (Bch.chaseDecode 1207 1024 synRa bits (none : Option (List K))).isSome || !hasLlr then
      pure none
    else do
      let values ← loadValues llr32 0 31
      pure (some values))
  match Bch.chaseDecode 1207 1024 synRa bits soft with
  | none => pure (-1)
  | some (errs, val, _) => do
    uintToBits outData (val >>> 10) 21
    uintToBits outCheck (val &&& 0x3FF) 10
    pure errs

/-- `check_parity32(block32, bch_data, 21, bch_check, 10)`. -/
def checkParity32 (block32 data check : Buf) : Prog Buf K Bool := do
  let ones ← foldRange 0 21 (fun i ones => do
    let b ← bitAt data i
    pure (ones + b.toNat)) 0
  let ones ← foldRange 0 10 (fun i ones => do
    let b ← bitAt check i
    pure (ones + b.toNat)) ones
  let parity ← bitAt block32 31
  pure ((ones + parity.toNat) % 2 = 0)

/-- The `&&` of parity checks, each run only after the ones before it passed. -/
def parityChecks : List (Buf × Buf × Buf) → Prog Buf K Bool
  | [] => pure true
  | (block32, data, check) :: rest => do
    let ok ← checkParity32 block32 data check
    if ok then parityChecks rest else pure false

/-- The loop over the remaining 64-bit blocks that both paths share:
`while (offset + 64 <= limit && bch_len + 2 * BCH_RA_DATA <= sizeof(bch_stream))`,
the LLRs de-interleaved when `llrCond offset`, a failed decode or parity a
`break`; the `bch_len` it stops with. -/
def dataBlocks (hasLlr : Bool) (llrCond : Nat → Bool) (limit : Nat) (stream : Buf) (cap : Nat)
    (out1 out2 : Buf) (offset bchLen : Nat) : Prog Buf K Nat :=
  if going : offset + 64 ≤ limit ∧ bchLen + 2 * 21 ≤ cap then do
    deInterleave .bits (24 + offset) .di1 .di2
    (if llrCond offset then deInterleave .llr (24 + offset) .li1 .li2 else pure ())
    let ea ← chaseBchDecodeP hasLlr .di1 .li1 out1 .rc1
    let eb ← chaseBchDecodeP hasLlr .di2 .li2 out2 .rc2
    if ea < 0 ∨ eb < 0 then pure bchLen
    else do
      let ok ← parityChecks [(.di1, out1, .rc1), (.di2, out2, .rc2)]
      if ok then do
        memcpy out1 stream bchLen 21
        memcpy out2 stream (bchLen + 21) 21
        dataBlocks hasLlr llrCond limit stream cap out1 out2 (offset + 64) (bchLen + 42)
      else pure bchLen
  else pure bchLen
termination_by limit - offset
decreasing_by omega

/-- The block loop of the IBC path: up to `ibc_max = min(262, data_len)`, into
`bch_stream[256]`, from offset 70 with two blocks decoded. -/
def ibcBlocks (hasLlr : Bool) (dataLen : Nat) : Prog Buf K Nat :=
  dataBlocks hasLlr (fun offset => hasLlr && decide (offset + 64 ≤ dataLen)) (min 262 dataLen)
    .ibcStream 256 .d1 .d2 70 42

/-- The block loop of the IRA path: up to `data_len`, into `bch_stream[512]`,
from offset 96 with three blocks decoded. -/
def iraBlocks (hasLlr : Bool) (dataLen : Nat) : Prog Buf K Nat :=
  dataBlocks hasLlr (fun _ => hasLlr) dataLen .iraStream 512 .rd1 .rd2 96 63

def parseIbc (nBits bcType : Nat) : Prog Buf K IbcData :=
  if nBits < 42 then pure ⟨bcType, 0, 0, 0, 0, 0⟩
  else do
    let satId ← extractUint .ibcStream 0 7
    let beamId ← extractUint .ibcStream 7 6
    let timeslot ← bitAt .ibcStream 14
    let svBlocking ← bitAt .ibcStream 15
    let iriTime ← (if 84 ≤ nBits then do
        let type ← extractUint .ibcStream 42 6
        if type = 1 then extractUint .ibcStream 52 32 else pure 0
      else pure 0)
    pure ⟨bcType, satId, beamId, timeslot.toNat, svBlocking.toNat, iriTime⟩

/-- `extract_signed12`: a sign bit, then eleven bits of magnitude. -/
def extractSigned12 (start : Nat) : Prog Buf K Int := do
  let sign ← bitAt .iraStream start
  let mag ← extractUint .iraStream (start + 1) 11
  pure (if sign then (mag : Int) - 2048 else mag)

/-- The all-ones test of a paging block: `page[i]` for the `count` entries
from `i`, up to the first zero. -/
def allOnes (base : Nat) : (count i : Nat) → Prog Buf K Bool
  | 0, _ => pure true
  | count + 1, i => do
    let b ← bitAt .iraStream (base + i)
    if b then allOnes base count (i + 1) else pure false

/-- The paging loop of `parse_ira`: `while (offset + 42 <= n_bits && n_pages < 12)`,
an all-ones block a `break`. -/
def iraPages (nBits offset : Nat) (pages : List Page) : Prog Buf K (List Page) :=
  if going : offset + 42 ≤ nBits ∧ pages.length < 12 then do
    let ones ← allOnes offset 42 0
    if ones then pure pages
    else do
      let tmsi ← bitsToUint .iraStream offset 32
      let mscId ← extractUint .iraStream (offset + 34) 5
      store .pageTmsi pages.length (tmsi : K)
      store .pageMscId pages.length (mscId : K)
      iraPages nBits (offset + 42) (pages ++ [⟨tmsi, mscId⟩])
  else pure pages
termination_by nBits - offset
decreasing_by omega

def parseIra (nBits : Nat) : Prog Buf K IraData :=
  if nBits < 63 then pure ⟨0, 0, (0, 0, 0), []⟩
  else do
    let satId ← extractUint .iraStream 0 7
    let beamId ← extractUint .iraStream 7 6
    let x ← extractSigned12 13
    let y ← extractSigned12 25
    let z ← extractSigned12 37
    let pages ← iraPages nBits 63 []
    pure ⟨satId, beamId, (x, y, z), pages⟩

/-- The IBC path, once `data_len >= 6 + 64`: the header corrected by `syn_hdr`,
the first two blocks decoded and checked, then the rest. -/
def ibcDecode (hasLlr : Bool) (dataLen : Nat) : Prog Buf K (Option IbcData) := do
  let hdrVal ← bitsToUint .bits 24 6
  let hdrSyn := gf2Remainder 29 hdrVal
  let corrected := if hdrSyn = 0 then some hdrVal
    else if hdrSyn < 16 ∧ 0 ≤ (synHdr hdrSyn).errs then some (hdrVal ^^^ (synHdr hdrSyn).locator)
    else none
  match corrected with
  | none => pure none
  | some hdrVal => do
    uintToBits .hdrData (hdrVal >>> 4) 3
    deInterleave .bits (24 + 6) .di1 .di2
    (if hasLlr ∧ 6 + 64 ≤ dataLen then deInterleave .llr (24 + 6) .li1 .li2 else pure ())
    let e1 ← chaseBchDecodeP hasLlr .di1 .li1 .d1 .rc1
    let e2 ← chaseBchDecodeP hasLlr .di2 .li2 .d2 .rc2
    let ok ← (if 0 ≤ e1 ∧ 0 ≤ e2 then parityChecks [(.di1, .d1, .rc1), (.di2, .d2, .rc2)] else pure false)
    if ok then do
      let bcType ← extractUint .hdrData 0 3
      memcpy .d1 .ibcStream 0 21
      memcpy .d2 .ibcStream 21 21
      let bchLen ← ibcBlocks hasLlr dataLen
      let ibc ← parseIbc bchLen bcType
      pure (some ibc)
    else pure none

/-- The IRA path, once `data_len >= 96`: three header blocks decoded and
checked, then the rest. -/
def iraDecode (hasLlr : Bool) (dataLen : Nat) : Prog Buf K (Option IraData) := do
  deInterleave3 .bits 24 .ra1 .ra2 .ra3
  (if hasLlr then deInterleave3 .llr 24 .la1 .la2 .la3 else pure ())
  let e1 ← chaseBchDecodeP hasLlr .ra1 .la1 .d1 .c1
  let e2 ← chaseBchDecodeP hasLlr .ra2 .la2 .d2 .c2
  let e3 ← chaseBchDecodeP hasLlr .ra3 .la3 .d3 .c3
  let ok ← (if 0 ≤ e1 ∧ 0 ≤ e2 ∧ 0 ≤ e3 then
      parityChecks [(.ra1, .d1, .c1), (.ra2, .d2, .c2), (.ra3, .d3, .c3)]
    else pure false)
  if ok then do
    memcpy .d1 .iraStream 0 21
    memcpy .d2 .iraStream 21 21
    memcpy .d3 .iraStream 42 21
    let bchLen ← iraBlocks hasLlr dataLen
    let ira ← parseIra bchLen
    pure (some ira)
  else pure none

/-- `frame_decode` on a frame of `n_bits` bits, with or without LLRs; `none` is
a return of 0. `memcmp` reads at most the 24 bits of the access code. -/
def frameDecode (nBits : Nat) (hasLlr : Bool) : Prog Buf K (Option Decoded) :=
  if nBits < 24 then pure none
  else do
    let code ← loadBits .bits 0 24
    if code.map Bool.toNat ≠ accessDl ∧ code.map Bool.toNat ≠ accessUl then pure none
    else do
      let dataLen := nBits - 24
      let ibc ← (if 6 + 64 ≤ dataLen then ibcDecode hasLlr dataLen else pure none)
      match ibc with
      | some ibc => pure (some (.ibc ibc))
      | none =>
        if 96 ≤ dataLen then do
          let ira ← iraDecode hasLlr dataLen
          pure (ira.map .ira)
        else pure none

end IridiumSniffer.Frame
