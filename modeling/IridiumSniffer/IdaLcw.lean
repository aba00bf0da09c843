import IridiumSniffer.Bch

/-! The link control word of an IDA frame, `decode_lcw` of `ida_decode.c`: 46
bits pair-swapped and permuted into three shortened BCH words of 7, 14 and 26
bits, each corrected from its syndrome table. The third has five check bits, so
its 31 syndromes cannot keep the 26 single-bit and 325 two-bit patterns apart:
`build_syn` fills two-bit patterns only into slots still empty, and a two-bit
error that shares a single-bit syndrome is corrected into another word. -/
namespace IridiumSniffer.Ida

open Bch

structure Lcw where
  ft : Nat
  lcwOk : Bool
  lcwFt : Nat
  lcwCode : Nat
  lcw3Val : Nat
  ecLcw : Nat
deriving DecidableEq, Repr

/-- `lcw_perm`, 1-indexed. -/
def lcwPerm : List Nat :=
  [40, 39, 36, 35, 32, 31, 28, 27, 24, 23, 20, 19, 16, 15, 12, 11, 8, 7, 4, 3,
    41, 38, 37, 34, 33, 30, 29, 26, 25, 22, 21, 18, 17, 14, 13, 10, 9, 6, 5, 2, 1, 46, 45, 44, 43, 42]

/-- `syn_lcw1` after `ida_decode_init`. -/
def synLcw1 : Nat → SynEntry := buildSyn 29 7 1 16

/-- `syn_lcw2` after `ida_decode_init`. -/
def synLcw2 : Nat → SynEntry := buildSyn 465 14 1 256

/-- `syn_lcw3` after `ida_decode_init`: built for two-bit errors. -/
def synLcw3 : Nat → SynEntry := buildSyn 41 26 2 32

/-- `lcw_bits`: `swapped[i] = data[i + 1]`, `swapped[i + 1] = data[i]` for even
`i`, then `lcw_bits[i] = swapped[lcw_perm[i] - 1]`. -/
def lcwBits (data : List Bool) : List Bool :=
  let swapped := (List.range 46).map fun i => data.getD (if i % 2 = 0 then i + 1 else i - 1) false
  lcwPerm.map fun k => swapped.getD (k - 1) false

/-- The correction of one component, common to the three: the word itself on a
zero syndrome, the word with the table's locator when the table has the
syndrome, and otherwise `none`, the return of 0. -/
def correctWord (poly tableSize : Nat) (syn : Nat → SynEntry) (v : Nat) : Option Nat :=
  let s := gf2Remainder poly v
  if s = 0 then some v
  else if tableSize ≤ s ∨ (syn s).errs < 0 then none
  else some (v ^^^ (syn s).locator)

/-- `decode_lcw`; `none` is a return of 0. -/
def decodeLcw (data : List Bool) (dataLen : Nat) : Option Lcw := do
  if dataLen < 46 then none
  let bits := lcwBits data
  let v1 := bitsToUint bits 7
  let c1 ← correctWord 29 16 synLcw1 v1
  let ft := (c1 >>> 4) &&& 0x7
  let v2 := bitsToUint (bits.drop 7) 13 <<< 1
  let c2 ← correctWord 465 256 synLcw2 v2
  let v3 := bitsToUint (bits.drop 20) 26
  let c3 ← correctWord 41 32 synLcw3 v3
  let lcw2Data := (c2 >>> 8) &&& 0x3F
  let corrected := (decide (gf2Remainder 29 v1 ≠ 0)).toNat + (decide (gf2Remainder 465 v2 ≠ 0)).toNat +
    (decide (gf2Remainder 41 v3 ≠ 0)).toNat
  pure ⟨ft, true, (lcw2Data >>> 4) &&& 0x3, lcw2Data &&& 0xF, c3 >>> 5, corrected⟩

/-- Data bits 36 and 41 are bits 0 and 1 of the third component: the all-zero
word with two errors in its third component. -/
def twoErrorLcw : List Bool :=
  (List.range 46).map fun i => decide (i = 36 ∨ i = 41)

/-- The all-zero word, three zero codewords, decodes to zero fields. With two
errors in its third component, which have the syndrome of bit 7 alone,
`decode_lcw` returns the word with bit 7 flipped as well: `lcw3_val = 0x180004`
where the sent word has 0, with one correction reported. -/
theorem decodeLcw_miscorrects_two_errors :
    decodeLcw (List.replicate 46 false) 46 = some ⟨0, true, 0, 0, 0, 0⟩ ∧
      lcwBits twoErrorLcw = (List.range 46).map (fun i => decide (i = 20 ∨ i = 21)) ∧
      decodeLcw twoErrorLcw 46 = some ⟨0, true, 0, 0, 0x180004, 1⟩ := by
  refine ⟨by decide, by decide, by decide +kernel⟩

end IridiumSniffer.Ida
