import IridiumSniffer.Lib.Crc
import IridiumSniffer.SbdAcars

/-! The ACARS checksum of `sbd_acars.c` without libacars: the CRC-16/KERMIT
table of `crc16_init`, the table-driven `crc16_kermit`, and the framing of
`acars_parse_fallback`, which takes off the SOH, the `0x7f` checksum trailer and
the `0x03` header before it checks the CRC and the parity of the text. -/
namespace IridiumSniffer.Acars

open Sbd (sbdMaxData)

/-- One round of the inner loop of `crc16_init`. -/
def crc16Step (crc : UInt16) : UInt16 :=
  if crc &&& 1 != 0 then (crc >>> 1) ^^^ 0x8408 else crc >>> 1

/-- `crc16_table` after `crc16_init`: entry `i` is `i` after eight rounds. -/
def crc16Init : List UInt16 :=
  (List.range 256).map fun i => (List.range 8).foldl (fun crc _ => crc16Step crc) (UInt16.ofNat i)

/-- One byte of `crc16_kermit`: `crc16_table[(crc ^ data[i]) & 0xFF] ^ (crc >> 8)`. -/
def kermitByte (table : List UInt16) (crc : UInt16) (b : UInt8) : UInt16 :=
  table.getD ((crc ^^^ b.toUInt16) &&& 0xFF).toNat 0 ^^^ (crc >>> 8)

/-- `crc16_kermit` over the table it reads, from `crc = 0`. -/
def crc16Kermit (table : List UInt16) (data : List UInt8) : UInt16 :=
  data.foldl (kermitByte table) 0

/-- CRC-16/KERMIT a bit at a time: polynomial `0x8408` reflected, initial
value `0`, no final xor. -/
def crc16KermitBitwise (data : List UInt8) : UInt16 :=
  UInt16.ofBitVec (Crc.crcLsb 0x8408#16 0#16 (data.map UInt8.toBitVec))

/-- The checksum trailer: with at least three bytes and a final `0x7f`, the two
bytes before it are `csum` and all three are dropped. -/
def acarsTrailer (data : List UInt8) : List UInt8 × Option (UInt8 × UInt8) :=
  if 3 ≤ data.length ∧ data.getLast? = some 0x7f then
    (data.take (data.length - 3), some (data.getD (data.length - 3) 0, data.getD (data.length - 2) 0))
  else (data, none)

/-- The `0x03` header: eight bytes starting with `0x03` are `hdr`. -/
def acarsHeader (data : List UInt8) : List UInt8 × List UInt8 :=
  if data.head? = some 0x03 ∧ 8 ≤ data.length then (data.take 8, data.drop 8) else ([], data)

/-- `crc_errors`: without a trailer `1`; with one, `1` when the CRC of the text
and `csum` is not zero, checked only when they fit in `crc_buf[SBD_MAX_DATA]`. -/
def acarsCrcErrors (table : List UInt16) (text : List UInt8) : Option (UInt8 × UInt8) → Nat
  | none => 1
  | some (c0, c1) =>
    if text.length + 2 ≤ sbdMaxData then (if crc16Kermit table (text ++ [c0, c1]) != 0 then 1 else 0)
    else 0

/-- The bits set in a byte, `for (b = c; b; b >>= 1) bits += b & 1`; a byte is
zero after eight shifts. -/
def bitsSet : Nat → UInt8 → Nat
  | 0, _ => 0
  | fuel + 1, b => if b = 0 then 0 else (b &&& 1).toNat + bitsSet fuel (b >>> 1)

/-- What `acars_parse_fallback` passes to `acars_output_json`,
`acars_output_text` and `hub_emit_acars`: the text with its parity bits
cleared, the header, `errors` and the `crc_errors` it counts. -/
structure AcarsReport where
  stripped : List UInt8
  hdr : List UInt8
  errors : Nat
  crcErrors : Nat
deriving DecidableEq, Repr

/-- `acars_parse_fallback` up to its outputs: `none` where it returns before
them. -/
def acarsParseFallback (table : List UInt16) (data : List UInt8) : Option AcarsReport :=
  match data with
  | [] => none
  | soh :: rest =>
    if soh != 0x01 || data.length ≤ 2 then none
    else
      let (body, csum) := acarsTrailer rest
      let (hdr, text) := acarsHeader body
      let crcErrors := acarsCrcErrors table text csum
      if text.length < 13 then none
      else
        let parityOk := text.all fun c => bitsSet 8 c % 2 != 0
        some ⟨text.map (· &&& 0x7F), hdr, crcErrors + (if parityOk then 0 else 1), crcErrors⟩

/-! ## The table is the bit-serial check -/

theorem toBitVec_crc16Step (crc : UInt16) :
    (crc16Step crc).toBitVec = Crc.shiftLsb 0x8408#16 crc.toBitVec :=
  Crc.toBitVec_shiftLsb 0x8408 crc

theorem toBitVec_crc16Init_getD {n : Nat} (inside : n < 256) :
    (crc16Init.getD n 0).toBitVec = Crc.tableLsb 0x8408#16 (BitVec.ofNat 8 n) := by
  have entry : crc16Init.getD n 0 =
      (List.range 8).foldl (fun crc _ => crc16Step crc) (UInt16.ofNat n) := by
    simp [crc16Init, inside]
  have start : (UInt16.ofNat n).toBitVec = (BitVec.ofNat 8 n).setWidth 16 := by
    apply BitVec.eq_of_toNat_eq
    simp [Nat.mod_eq_of_lt inside, Nat.mod_eq_of_lt (show n < 65536 by omega)]
  rw [entry, Crc.toBitVec_rounds_lsb toBitVec_crc16Step, start]
  rfl

/-- The index `(crc ^ data[i]) & 0xFF` is the low octet of the register with
the byte in it. -/
theorem kermitIndex (crc : UInt16) (b : UInt8) :
    ((crc ^^^ b.toUInt16) &&& 0xFF).toNat < 256 ∧
      BitVec.ofNat 8 ((crc ^^^ b.toUInt16) &&& 0xFF).toNat =
        (crc.toBitVec ^^^ b.toBitVec.setWidth 16).setWidth 8 := by
  have low : ((crc ^^^ b.toUInt16) &&& 0xFF).toNat = (crc ^^^ b.toUInt16).toNat % 256 := by
    rw [UInt16.toNat_and]
    exact Nat.and_two_pow_sub_one_eq_mod _ 8
  refine ⟨by rw [low]; omega, ?_⟩
  apply BitVec.eq_of_toNat_eq
  rw [low, BitVec.toNat_ofNat, BitVec.toNat_setWidth]
  simp

theorem toBitVec_kermitByte (crc : UInt16) (b : UInt8) :
    (kermitByte crc16Init crc b).toBitVec = Crc.byteLsb 0x8408#16 crc.toBitVec b.toBitVec := by
  obtain ⟨inside, index⟩ := kermitIndex crc b
  rw [Crc.byteLsb_table, kermitByte, UInt16.toBitVec_xor, toBitVec_crc16Init_getD inside, index,
    UInt16.toBitVec_shiftRight]
  rfl

theorem toBitVec_kermit_foldl (data : List UInt8) (crc : UInt16) :
    (data.foldl (kermitByte crc16Init) crc).toBitVec =
      Crc.crcLsb 0x8408#16 crc.toBitVec (data.map UInt8.toBitVec) := by
  induction data generalizing crc with
  | nil => rfl
  | cons b data ih =>
    rw [List.foldl_cons, ih, toBitVec_kermitByte]
    rfl

theorem crc16Kermit_eq_bitwise (data : List UInt8) : crc16Kermit crc16Init data = crc16KermitBitwise data := by
  apply UInt16.toBitVec_inj.mp
  rw [crc16Kermit, toBitVec_kermit_foldl]
  rfl

/-- **Residue of CRC-16/KERMIT**: two bytes after a message leave zero exactly
when they are its check, low octet first. -/
theorem crc16Kermit_append_pair (data : List UInt8) (c0 c1 : UInt8) :
    crc16Kermit crc16Init (data ++ [c0, c1]) = 0 ↔
      (crc16Kermit crc16Init data).toUInt8 = c0 ∧ (crc16Kermit crc16Init data >>> 8).toUInt8 = c1 := by
  have top : (0x8408#16).msb = true := by decide
  have residue := Crc.crcLsb_append_pair top 0#16 (data.map UInt8.toBitVec) c0.toBitVec c1.toBitVec
  rw [← List.map_singleton, ← List.map_cons, ← List.map_append] at residue
  rw [← UInt16.toBitVec_inj, crc16Kermit, toBitVec_kermit_foldl, UInt16.toBitVec_ofNat]
  rw [← UInt8.toBitVec_inj, ← UInt8.toBitVec_inj, UInt16.toBitVec_toUInt8, UInt16.toBitVec_toUInt8,
    UInt16.toBitVec_shiftRight, crc16Kermit, toBitVec_kermit_foldl]
  rw [Crc.eq_append_iff] at residue
  simpa [And.comm] using residue

theorem eq_iff_bytes (x c : UInt16) : x = c ↔ x.toUInt8 = c.toUInt8 ∧ (x >>> 8).toUInt8 = (c >>> 8).toUInt8 := by
  rw [← UInt16.toBitVec_inj, ← UInt8.toBitVec_inj, ← UInt8.toBitVec_inj, UInt16.toBitVec_toUInt8,
    UInt16.toBitVec_toUInt8, UInt16.toBitVec_toUInt8, UInt16.toBitVec_toUInt8, UInt16.toBitVec_shiftRight,
    UInt16.toBitVec_shiftRight]
  conv => lhs; rw [← Crc.high_append_low c.toBitVec]
  rw [Crc.eq_append_iff]
  exact And.comm

theorem crc16Kermit_append_check (data : List UInt8) (check : UInt16) :
    crc16Kermit crc16Init (data ++ [check.toUInt8, (check >>> 8).toUInt8]) = 0 ↔
      crc16Kermit crc16Init data = check := by
  rw [crc16Kermit_append_pair, eq_iff_bytes]

/-! ## Framing -/

theorem acarsTrailer_append (body : List UInt8) (c0 c1 : UInt8) :
    acarsTrailer (body ++ [c0, c1, 0x7f]) = (body, some (c0, c1)) := by
  simp [acarsTrailer, List.getD_eq_getElem?_getD]

theorem acarsTrailer_some {data body : List UInt8} {c0 c1 : UInt8}
    (found : acarsTrailer data = (body, some (c0, c1))) : data = body ++ [c0, c1, 0x7f] := by
  unfold acarsTrailer at found
  split at found
  · rename_i trailer
    obtain ⟨long, last⟩ := trailer
    simp only [Prod.mk.injEq, Option.some.injEq] at found
    obtain ⟨rfl, rfl, rfl⟩ := found
    -- peel the last three bytes off
    obtain ⟨front, z, rfl⟩ := (List.eq_nil_or_concat data).resolve_left (by rintro rfl; simp at long)
    obtain ⟨front, y, rfl⟩ := (List.eq_nil_or_concat front).resolve_left (by rintro rfl; simp at long)
    obtain ⟨front, x, rfl⟩ := (List.eq_nil_or_concat front).resolve_left (by rintro rfl; simp at long)
    simp at last
    subst last
    simp [List.getD_eq_getElem?_getD]
  · simp at found

theorem acarsHeader_append (data : List UInt8) : (acarsHeader data).1 ++ (acarsHeader data).2 = data := by
  unfold acarsHeader
  split <;> simp

/-- What a report says of its input: SOH, then bytes whose trailer the
header and the text come before, with `crc_errors` counted over that text. -/
theorem acarsParseFallback_some {table : List UInt16} {data : List UInt8} {r : AcarsReport}
    (parsed : acarsParseFallback table data = some r) :
    ∃ rest text csum, data = 0x01 :: rest ∧ acarsTrailer rest = (r.hdr ++ text, csum) ∧
      acarsHeader (r.hdr ++ text) = (r.hdr, text) ∧ r.crcErrors = acarsCrcErrors table text csum := by
  cases data with
  | nil => simp [acarsParseFallback] at parsed
  | cons soh rest =>
    simp only [acarsParseFallback] at parsed
    split at parsed
    · simp at parsed
    · rename_i framed
      rcases trailer : acarsTrailer rest with ⟨body, csum⟩
      rcases header : acarsHeader body with ⟨hdr, text⟩
      simp only [trailer, header] at parsed
      split at parsed
      · simp at parsed
      · simp only [Option.some.injEq] at parsed
        subst parsed
        have start : soh = 0x01 := by simp at framed; exact framed.1
        have whole : hdr ++ text = body := by simpa [header] using acarsHeader_append body
        refine ⟨rest, text, csum, by rw [start], ?_, ?_, rfl⟩
        · rw [whole]
          exact trailer
        · rw [whole]
          exact header

/-- The two bytes before the trailing `0x7f` are the little-endian CRC of the
text between the SOH and header and them. -/
def CheckedFrame (data hdr : List UInt8) : Prop :=
  ∃ text, data = 0x01 :: hdr ++ text ++
    [(crc16Kermit crc16Init text).toUInt8, (crc16Kermit crc16Init text >>> 8).toUInt8, 0x7f]

/-- A reported frame whose trailer fits in `crc_buf` has no CRC error exactly
when its checksum is its text's CRC. -/
theorem crcErrors_eq_zero_iff {data : List UInt8} {r : AcarsReport} (bound : data.length ≤ sbdMaxData)
    (parsed : acarsParseFallback crc16Init data = some r) : r.crcErrors = 0 ↔ CheckedFrame data r.hdr := by
  obtain ⟨rest, text, csum, rfl, trailer, -, counted⟩ := acarsParseFallback_some parsed
  rw [counted]
  constructor
  · intro clean
    cases csum with
    | none => simp [acarsCrcErrors] at clean
    | some pair =>
      obtain ⟨c0, c1⟩ := pair
      have shape := acarsTrailer_some trailer
      have fits : text.length + 2 ≤ sbdMaxData := by
        rw [shape] at bound
        simp at bound
        omega
      have zero : crc16Kermit crc16Init (text ++ [c0, c1]) = 0 := by
        simpa [acarsCrcErrors, fits] using clean
      obtain ⟨rfl, rfl⟩ := (crc16Kermit_append_pair text c0 c1).mp zero
      exact ⟨text, by rw [shape]; simp⟩
  · rintro ⟨text', shape⟩
    have rest_eq : rest = r.hdr ++ text' ++
        [(crc16Kermit crc16Init text').toUInt8, (crc16Kermit crc16Init text' >>> 8).toUInt8, 0x7f] := by
      simpa using shape
    rw [rest_eq, acarsTrailer_append] at trailer
    simp only [Prod.mk.injEq, List.append_cancel_left_eq] at trailer
    obtain ⟨rfl, rfl⟩ := trailer
    have zero := (crc16Kermit_append_pair text' _ _).mpr ⟨rfl, rfl⟩
    simp [acarsCrcErrors, zero]

/-- The table-driven ACARS CRC is CRC-16/KERMIT; a message followed by a check
value, low octet first, leaves zero exactly when the value is its CRC; and a
frame of at most `SBD_MAX_DATA` bytes, as `sbd_process` passes them, is reported
without a CRC error exactly when its checksum is the CRC of its text. -/
theorem acars_kermit_crc_checked :
    (∀ data, crc16Kermit crc16Init data = crc16KermitBitwise data) ∧
    (∀ (data : List UInt8) (check : UInt16),
      crc16Kermit crc16Init (data ++ [check.toUInt8, (check >>> 8).toUInt8]) = 0 ↔
        crc16Kermit crc16Init data = check) ∧
    ∀ data r, data.length ≤ sbdMaxData → acarsParseFallback crc16Init data = some r →
      (r.crcErrors = 0 ↔ CheckedFrame data r.hdr) :=
  ⟨crc16Kermit_eq_bitwise, crc16Kermit_append_check, fun _ _ bound parsed => crcErrors_eq_zero_iff bound parsed⟩

/-- Mode `2`, registration `.N12345`, NAK, label `H1`, block `D`, ETX. -/
def sampleText : List UInt8 := [0x32, 0x2e, 0x4e, 0x31, 0x32, 0x33, 0x34, 0x35, 0x15, 0x48, 0x31, 0x44, 0x03]

/-- `sampleText` framed with its CRC `0x2453`, low octet first. -/
def sampleFrame : List UInt8 := 0x01 :: sampleText ++ [0x53, 0x24, 0x7f]

theorem acars_kermit_crc_checked_sample :
    ∃ r, acarsParseFallback crc16Init sampleFrame = some r ∧ r.crcErrors = 0 := by
  obtain ⟨-, -, framed⟩ := acars_kermit_crc_checked
  have bound : sampleFrame.length ≤ sbdMaxData := by decide
  have parsed : acarsParseFallback crc16Init sampleFrame = some ⟨sampleText.map (· &&& 0x7F), [], 1, 0⟩ := by
    decide +kernel
  exact ⟨_, parsed, (framed sampleFrame _ bound parsed).mpr ⟨sampleText, by decide +kernel⟩⟩

end IridiumSniffer.Acars
