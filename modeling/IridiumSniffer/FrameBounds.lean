import IridiumSniffer.FrameDecode

/-! Where `frame_decode` reads and writes. `ReadOk` and `WriteOk` are the accesses
that stay in bounds: `bits` and `llr` below `n_bits`, `llr` only when the frame has
one, every local array and stream inside its length, and no write to the
frame. Each helper of the model gets one `InBounds` rule with the index ranges
it needs as hypotheses, and the two block loops carry `bch_len ≤ cap` as their
invariant. -/
namespace IridiumSniffer.Frame

open Access

/-- The reads `frame_decode` may make on a frame of `n_bits` bits. -/
def ReadOk (nBits : Nat) (hasLlr : Bool) (x : Buf × Nat) : Prop :=
  x.2 < x.1.size nBits ∧ (x.1 = .llr → hasLlr = true)

/-- The writes it may make: none to the frame. -/
def WriteOk (nBits : Nat) (x : Buf × Nat) : Prop :=
  x.1 ≠ .bits ∧ x.1 ≠ .llr ∧ x.2 < x.1.size nBits

/-- Entries `0 .. n - 1` of a local array, which may be read and written. -/
def Scratch (nBits : Nat) (hasLlr : Bool) (a : Buf) (n : Nat) : Prop :=
  ∀ j < n, ReadOk nBits hasLlr (a, j) ∧ WriteOk nBits (a, j)

variable {nBits : Nat} {hasLlr : Bool}

theorem writeOk_local {a : Buf} {i : Nat} (bits : a ≠ .bits) (llr : a ≠ .llr) (below : i < a.size nBits) :
    WriteOk nBits (a, i) :=
  ⟨bits, llr, below⟩

theorem readOk_local {a : Buf} {i : Nat} (llr : a ≠ .llr) (below : i < a.size nBits) :
    ReadOk nBits hasLlr (a, i) :=
  ⟨below, fun same => absurd same llr⟩

theorem readOk_run {a : Buf} {start n : Nat} (llr : a ≠ .llr) (fits : start + n ≤ a.size nBits) :
    ∀ j < n, ReadOk nBits hasLlr (a, start + j) :=
  fun _ below => readOk_local llr (by omega)

theorem scratch_of_size {a : Buf} {n : Nat} (bits : a ≠ .bits) (llr : a ≠ .llr) (fits : n ≤ a.size nBits) :
    Scratch nBits hasLlr a n :=
  fun _ below => ⟨readOk_local llr (by omega), writeOk_local bits llr (by omega)⟩

theorem readOk_bits {i : Nat} (below : i < nBits) : ReadOk nBits hasLlr (.bits, i) :=
  ⟨below, nofun⟩

theorem readOk_llr {i : Nat} (soft : hasLlr = true) (below : i < nBits) : ReadOk nBits hasLlr (.llr, i) :=
  ⟨below, fun _ => soft⟩

/-- The four arrays one `chase_bch_decode_p` and its `check_parity32` use. -/
structure Decoder (nBits : Nat) (hasLlr : Bool) (block32 llr32 data check : Buf) : Prop where
  block32 : Scratch nBits hasLlr block32 32
  llr32 : Scratch nBits hasLlr llr32 32
  data : Scratch nBits hasLlr data 21
  check : Scratch nBits hasLlr check 10

variable {K : Type}

/-- `p` reads and writes only where `frame_decode` may on a frame of `n_bits`
bits, and returns a value that `post` holds of. -/
abbrev InBounds {α : Type} (nBits : Nat) (hasLlr : Bool) (post : α → Prop) (p : Prog Buf K α) : Prop :=
  Within (ReadOk nBits hasLlr) (WriteOk nBits) post p

/-! ### Reads and copies -/

theorem foldRead_inBounds {β γ : Type} {start n : Nat} (read : Nat → Prog Buf K γ) (combine : β → γ → β)
    (init : β) (each : ∀ j < n, InBounds nBits hasLlr (fun _ => True) (read (start + j))) :
    InBounds nBits hasLlr (fun _ => True) (foldRange 0 n (fun i acc => do
      let x ← read (start + i)
      pure (combine acc x)) init) :=
  within_foldRange trivial fun j _ _ high _ =>
    within_bind (each j (by omega)) fun _ _ => within_pure trivial

theorem loadValues_inBounds {a : Buf} {start n : Nat} (ok : ∀ j < n, ReadOk nBits hasLlr (a, start + j)) :
    InBounds nBits hasLlr (fun _ => True) (loadValues a start n : Prog Buf K (List K)) :=
  foldRead_inBounds (load a) (fun vals v => vals ++ [v]) [] fun j below => within_load (ok j below)

theorem memcpy_inBounds {src dst : Buf} {dstStart n : Nat} (from_ok : ∀ j < n, ReadOk nBits hasLlr (src, j))
    (to_ok : ∀ j < n, WriteOk nBits (dst, dstStart + j)) :
    InBounds nBits hasLlr (fun _ => True) (memcpy src dst dstStart n : Prog Buf K Unit) :=
  within_forRange fun i _ high =>
    within_bind (within_load (from_ok i (by omega))) fun v _ => within_store (to_ok i (by omega)) v

/-- Each of the 16 symbols read is at most `top`, so the entries read are the
first `2 * top + 2` from `base`, whatever the stride. -/
theorem strided_inBounds {src out : Buf} {base top stride : Nat}
    (from_ok : ∀ j ≤ 2 * top + 1, ReadOk nBits hasLlr (src, base + j)) (to_ok : ∀ j < 32, WriteOk nBits (out, j)) :
    InBounds nBits hasLlr (fun _ => True) (strided src base out top stride : Prog Buf K Unit) :=
  within_forRange fun k _ high =>
    within_bind (within_load (from_ok _ (by omega))) fun v _ =>
      within_bind (within_store (to_ok (2 * k) (by omega)) v) fun _ _ =>
        within_bind (within_load (by simpa only [Nat.add_assoc] using from_ok _ (by omega))) fun w _ =>
          within_store (to_ok (2 * k + 1) (by omega)) w

theorem deInterleave_inBounds {src out1 out2 : Buf} {base : Nat}
    (from_ok : ∀ j < 64, ReadOk nBits hasLlr (src, base + j)) (first : Scratch nBits hasLlr out1 32)
    (second : Scratch nBits hasLlr out2 32) :
    InBounds nBits hasLlr (fun _ => True) (deInterleave src base out1 out2 : Prog Buf K Unit) :=
  within_bind (strided_inBounds (fun j le => from_ok j (by omega)) fun j below => (first j below).2) fun _ _ =>
    strided_inBounds (fun j le => from_ok j (by omega)) fun j below => (second j below).2

theorem deInterleave3_inBounds {src out1 out2 out3 : Buf} {base : Nat}
    (from_ok : ∀ j < 96, ReadOk nBits hasLlr (src, base + j)) (first : Scratch nBits hasLlr out1 32)
    (second : Scratch nBits hasLlr out2 32) (third : Scratch nBits hasLlr out3 32) :
    InBounds nBits hasLlr (fun _ => True) (deInterleave3 src base out1 out2 out3 : Prog Buf K Unit) :=
  within_bind (strided_inBounds (fun j le => from_ok j (by omega)) fun j below => (first j below).2) fun _ _ =>
    within_bind (strided_inBounds (fun j le => from_ok j (by omega)) fun j below => (second j below).2) fun _ _ =>
      strided_inBounds (fun j le => from_ok j (by omega)) fun j below => (third j below).2

variable [Field K]

theorem uintToBits_inBounds {a : Buf} {val n : Nat} (ok : ∀ j < n, WriteOk nBits (a, j)) :
    InBounds nBits hasLlr (fun _ => True) (uintToBits a val n : Prog Buf K Unit) :=
  within_forRange fun k _ high => within_store (ok (n - 1 - k) (by omega)) _

variable [LinearOrder K]

/-! ### Bits and parity -/

theorem bitAt_inBounds {a : Buf} {i : Nat} (ok : ReadOk nBits hasLlr (a, i)) :
    InBounds nBits hasLlr (fun _ => True) (bitAt a i : Prog Buf K Bool) :=
  within_bind (within_load ok) fun _ _ => within_pure trivial

theorem loadBits_inBounds {a : Buf} {start n : Nat} (ok : ∀ j < n, ReadOk nBits hasLlr (a, start + j)) :
    InBounds nBits hasLlr (fun _ => True) (loadBits a start n : Prog Buf K (List Bool)) :=
  foldRead_inBounds (bitAt a) (fun bits b => bits ++ [b]) [] fun j below => bitAt_inBounds (ok j below)

theorem bitsToUint_inBounds {a : Buf} {start n : Nat} (ok : ∀ j < n, ReadOk nBits hasLlr (a, start + j)) :
    InBounds nBits hasLlr (fun _ => True) (bitsToUint a start n : Prog Buf K Nat) :=
  foldRead_inBounds (bitAt a) (fun val b => 2 * val + b.toNat) 0 fun j below => bitAt_inBounds (ok j below)

theorem extractUint_inBounds {a : Buf} {start n : Nat} (ok : ∀ j < n, ReadOk nBits hasLlr (a, start + j)) :
    InBounds nBits hasLlr (fun _ => True) (extractUint a start n : Prog Buf K Nat) :=
  bitsToUint_inBounds ok

theorem countOnes_inBounds {a : Buf} {n : Nat} (ok : ∀ j < n, ReadOk nBits hasLlr (a, j)) (ones : Nat) :
    InBounds nBits hasLlr (fun _ => True) (foldRange 0 n (fun i ones => do
      let b ← bitAt a i
      pure (ones + b.toNat)) ones : Prog Buf K Nat) :=
  within_foldRange trivial fun j _ _ high _ =>
    within_bind (bitAt_inBounds (ok j (by omega))) fun _ _ => within_pure trivial

theorem checkParity32_inBounds {block32 llr32 data check : Buf}
    (arrays : Decoder nBits hasLlr block32 llr32 data check) :
    InBounds nBits hasLlr (fun _ => True) (checkParity32 block32 data check : Prog Buf K Bool) := by
  refine within_bind (countOnes_inBounds (fun j below => (arrays.data j below).1) 0) fun ones _ => ?_
  refine within_bind (countOnes_inBounds (fun j below => (arrays.check j below).1) ones) fun ones _ => ?_
  exact within_bind (bitAt_inBounds (arrays.block32 31 (by omega)).1) fun _ _ => within_pure trivial

theorem parityChecks_nil_inBounds : InBounds nBits hasLlr (fun _ => True) (parityChecks [] : Prog Buf K Bool) :=
  within_pure trivial

theorem parityChecks_cons_inBounds {block32 llr32 data check : Buf} {rest : List (Buf × Buf × Buf)}
    (first : Decoder nBits hasLlr block32 llr32 data check)
    (others : InBounds nBits hasLlr (fun _ => True) (parityChecks rest : Prog Buf K Bool)) :
    InBounds nBits hasLlr (fun _ => True) (parityChecks ((block32, data, check) :: rest) : Prog Buf K Bool) :=
  within_bind (checkParity32_inBounds first) fun _ _ => within_ite (fun _ => others) fun _ => within_pure trivial

/-! ### The parsers -/

theorem parseIbc_inBounds (len bcType : Nat) :
    InBounds nBits hasLlr (fun _ => True) (parseIbc len bcType : Prog Buf K IbcData) := by
  unfold parseIbc
  refine within_ite (fun _ => within_pure trivial) fun _ => ?_
  refine within_bind (extractUint_inBounds (readOk_run nofun (by simp [Buf.size]))) fun _ _ => ?_
  refine within_bind (extractUint_inBounds (readOk_run nofun (by simp [Buf.size]))) fun _ _ => ?_
  refine within_bind (bitAt_inBounds (readOk_local nofun (by simp [Buf.size]))) fun _ _ => ?_
  refine within_bind (bitAt_inBounds (readOk_local nofun (by simp [Buf.size]))) fun _ _ => ?_
  refine within_bind (Q := fun _ => True) (within_ite (fun _ => ?_) fun _ => within_pure trivial)
    fun _ _ => within_pure trivial
  exact within_bind (extractUint_inBounds (readOk_run nofun (by simp [Buf.size]))) fun _ _ =>
    within_ite (fun _ => extractUint_inBounds (readOk_run nofun (by simp [Buf.size]))) fun _ => within_pure trivial

theorem extractSigned12_inBounds {start : Nat} (fits : start + 12 ≤ 512) :
    InBounds nBits hasLlr (fun _ => True) (extractSigned12 start : Prog Buf K Int) :=
  within_bind (bitAt_inBounds (readOk_local nofun (show start < 512 by omega))) fun _ _ =>
    within_bind (extractUint_inBounds (readOk_run nofun (show start + 1 + 11 ≤ 512 by omega))) fun _ _ =>
      within_pure trivial

theorem allOnes_inBounds {base : Nat} (count i : Nat) (fits : base + i + count ≤ 512) :
    InBounds nBits hasLlr (fun _ => True) (allOnes base count i : Prog Buf K Bool) := by
  induction count, i using allOnes.induct with
  | case1 i => exact within_pure trivial
  | case2 count i ih =>
    exact within_bind (bitAt_inBounds (readOk_local nofun (show base + i < 512 by omega))) fun _ _ =>
      within_ite (fun _ => ih (by omega)) fun _ => within_pure trivial

theorem iraPages_inBounds {len : Nat} (short : len ≤ 512) (offset : Nat) (pages : List Page) :
    InBounds nBits hasLlr (fun _ => True) (iraPages len offset pages : Prog Buf K (List Page)) := by
  induction offset, pages using iraPages.induct len with
  | case1 offset pages going ih =>
    rw [iraPages, dif_pos going]
    refine within_bind (allOnes_inBounds 42 0 (by omega)) fun _ _ => ?_
    refine within_ite (fun _ => within_pure trivial) fun _ => ?_
    refine within_bind (bitsToUint_inBounds (readOk_run nofun (show offset + 32 ≤ 512 by omega))) fun tmsi _ => ?_
    refine within_bind (extractUint_inBounds (readOk_run nofun (show offset + 34 + 5 ≤ 512 by omega)))
      fun mscId _ => ?_
    -- `ira->pages[ira->n_pages]` with `n_pages < 12`
    refine within_bind (within_store ?_ _) fun _ _ => within_bind (within_store ?_ _) fun _ _ => ih tmsi mscId
    · exact writeOk_local nofun nofun going.2
    · exact writeOk_local nofun nofun going.2
  | case2 offset pages stop =>
    rw [iraPages, dif_neg stop]
    exact within_pure trivial

theorem parseIra_inBounds {len : Nat} (short : len ≤ 512) :
    InBounds nBits hasLlr (fun _ => True) (parseIra len : Prog Buf K IraData) := by
  unfold parseIra
  refine within_ite (fun _ => within_pure trivial) fun _ => ?_
  refine within_bind (extractUint_inBounds (readOk_run nofun (by simp [Buf.size]))) fun _ _ => ?_
  refine within_bind (extractUint_inBounds (readOk_run nofun (by simp [Buf.size]))) fun _ _ => ?_
  refine within_bind (extractSigned12_inBounds (by omega)) fun _ _ => ?_
  refine within_bind (extractSigned12_inBounds (by omega)) fun _ _ => ?_
  refine within_bind (extractSigned12_inBounds (by omega)) fun _ _ => ?_
  exact within_bind (iraPages_inBounds short 63 []) fun _ _ => within_pure trivial

variable [Inhabited K]

/-! ### The decoder and the block loops -/

theorem chaseBchDecodeP_inBounds {block32 llr32 data check : Buf}
    (arrays : Decoder nBits hasLlr block32 llr32 data check) :
    InBounds nBits hasLlr (fun _ => True) (chaseBchDecodeP hasLlr block32 llr32 data check : Prog Buf K Int) := by
  refine within_bind (loadBits_inBounds fun j below => by
    simpa only [Nat.zero_add] using (arrays.block32 j (by omega)).1) fun bits _ => ?_
  -- the LLRs are read only after the hard decision failed
  refine within_bind (Q := fun _ => True) (within_ite (fun _ => within_pure trivial) fun _ => ?_) fun soft _ => ?_
  · exact within_bind (loadValues_inBounds fun j below => by
      simpa only [Nat.zero_add] using (arrays.llr32 j (by omega)).1) fun _ _ => within_pure trivial
  · split
    · exact within_pure trivial
    · exact within_bind (uintToBits_inBounds fun j below => (arrays.data j below).2) fun _ _ =>
        within_bind (uintToBits_inBounds fun j below => (arrays.check j below).2) fun _ _ => within_pure trivial

/-- The loop stays in bounds and keeps `bch_len ≤ cap`: it copies two blocks
only while `bch_len + 42 ≤ cap`, and reads the frame only below
`24 + limit ≤ n_bits`. -/
theorem dataBlocks_inBounds {llrCond : Nat → Bool} {limit cap : Nat} {stream out1 out2 : Buf}
    (input : 24 + limit ≤ nBits) (soft : ∀ offset, llrCond offset = true → hasLlr = true)
    (first : Scratch nBits hasLlr out1 21) (second : Scratch nBits hasLlr out2 21)
    (room : ∀ j < cap, WriteOk nBits (stream, j)) (offset bchLen : Nat) (fits : bchLen ≤ cap) :
    InBounds nBits hasLlr (· ≤ cap)
      (dataBlocks hasLlr llrCond limit stream cap out1 out2 offset bchLen : Prog Buf K Nat) := by
  have dec1 : Decoder nBits hasLlr .di1 .li1 out1 .rc1 := ⟨scratch_of_size nofun nofun le_rfl,
    scratch_of_size nofun nofun le_rfl, first, scratch_of_size nofun nofun le_rfl⟩
  have dec2 : Decoder nBits hasLlr .di2 .li2 out2 .rc2 := ⟨scratch_of_size nofun nofun le_rfl,
    scratch_of_size nofun nofun le_rfl, second, scratch_of_size nofun nofun le_rfl⟩
  induction offset, bchLen using dataBlocks.induct limit cap with
  | case1 offset bchLen going ih =>
    rw [dataBlocks, dif_pos going]
    refine within_bind (deInterleave_inBounds (fun j below => readOk_bits (by omega)) dec1.block32
      dec2.block32) fun _ _ => ?_
    refine within_bind (Q := fun _ => True) (within_ite (fun on => deInterleave_inBounds
      (fun j below => readOk_llr (soft offset on) (by omega)) dec1.llr32 dec2.llr32)
      fun _ => within_pure trivial) fun _ _ => ?_
    refine within_bind (chaseBchDecodeP_inBounds dec1) fun ea _ => ?_
    refine within_bind (chaseBchDecodeP_inBounds dec2) fun eb _ => ?_
    refine within_ite (fun _ => within_pure fits) fun _ => ?_
    refine within_bind (parityChecks_cons_inBounds dec1 (parityChecks_cons_inBounds dec2 parityChecks_nil_inBounds))
      fun ok _ => ?_
    -- both blocks go to `bch_stream[bch_len ..]`, which has room for 42 more
    refine within_ite (fun _ => ?_) fun _ => within_pure fits
    refine within_bind (memcpy_inBounds (fun j below => (first j below).1)
      fun j below => room _ (by omega)) fun _ _ => ?_
    refine within_bind (memcpy_inBounds (fun j below => (second j below).1)
      fun j below => room _ (by omega)) fun _ _ => ?_
    exact ih (by omega)
  | case2 offset bchLen stop =>
    rw [dataBlocks, dif_neg stop]
    exact within_pure fits

theorem ibcBlocks_inBounds {dataLen : Nat} (input : 24 + dataLen ≤ nBits) :
    InBounds nBits hasLlr (· ≤ 256) (ibcBlocks hasLlr dataLen : Prog Buf K Nat) := by
  unfold ibcBlocks
  refine dataBlocks_inBounds ?_ ?_ ?_ ?_ ?_ 70 42 (by omega)
  · -- `ibc_max = min(262, data_len)`
    omega
  · intro _ on
    simp only [Bool.and_eq_true] at on
    exact on.1
  · exact scratch_of_size nofun nofun le_rfl
  · exact scratch_of_size nofun nofun le_rfl
  · exact fun j below => writeOk_local nofun nofun below

theorem iraBlocks_inBounds {dataLen : Nat} (input : 24 + dataLen ≤ nBits) :
    InBounds nBits hasLlr (· ≤ 512) (iraBlocks hasLlr dataLen : Prog Buf K Nat) := by
  unfold iraBlocks
  refine dataBlocks_inBounds input (fun _ on => on) ?_ ?_ ?_ 96 63 (by omega)
  · exact scratch_of_size nofun nofun le_rfl
  · exact scratch_of_size nofun nofun le_rfl
  · exact fun j below => writeOk_local nofun nofun below

/-! ### `frame_decode` -/

theorem ibcDecode_inBounds {dataLen : Nat} (input : 24 + dataLen ≤ nBits) (long : 70 ≤ dataLen) :
    InBounds nBits hasLlr (fun _ => True) (ibcDecode hasLlr dataLen : Prog Buf K (Option IbcData)) := by
  have dec1 : Decoder nBits hasLlr .di1 .li1 .d1 .rc1 := ⟨scratch_of_size nofun nofun le_rfl,
    scratch_of_size nofun nofun le_rfl, scratch_of_size nofun nofun le_rfl, scratch_of_size nofun nofun le_rfl⟩
  have dec2 : Decoder nBits hasLlr .di2 .li2 .d2 .rc2 := ⟨scratch_of_size nofun nofun le_rfl,
    scratch_of_size nofun nofun le_rfl, scratch_of_size nofun nofun le_rfl, scratch_of_size nofun nofun le_rfl⟩
  unfold ibcDecode
  refine within_bind (bitsToUint_inBounds fun j below => readOk_bits (by omega)) fun hdrVal _ => ?_
  dsimp only
  split
  · exact within_pure trivial
  -- the header corrected: the first two blocks, at `data + 6`
  refine within_bind (uintToBits_inBounds fun j below => writeOk_local nofun nofun below) fun _ _ => ?_
  refine within_bind (deInterleave_inBounds (fun j below => readOk_bits (by omega)) dec1.block32
    dec2.block32) fun _ _ => ?_
  refine within_bind (Q := fun _ => True) (within_ite (fun on => deInterleave_inBounds
    (fun j below => readOk_llr on.1 (by omega)) dec1.llr32 dec2.llr32) fun _ => within_pure trivial) fun _ _ => ?_
  refine within_bind (chaseBchDecodeP_inBounds dec1) fun e1 _ => ?_
  refine within_bind (chaseBchDecodeP_inBounds dec2) fun e2 _ => ?_
  refine within_bind (Q := fun _ => True) (within_ite (fun _ => parityChecks_cons_inBounds dec1
    (parityChecks_cons_inBounds dec2 parityChecks_nil_inBounds)) fun _ => within_pure trivial) fun ok _ => ?_
  refine within_ite (fun _ => ?_) fun _ => within_pure trivial
  -- IBC confirmed: `bch_stream[0 .. 41]`, then the remaining blocks
  refine within_bind (extractUint_inBounds (readOk_run nofun (by simp [Buf.size]))) fun bcType _ => ?_
  refine within_bind (memcpy_inBounds (fun j below => (dec1.data j below).1)
    fun j below => writeOk_local nofun nofun (show _ < 256 by omega)) fun _ _ => ?_
  refine within_bind (memcpy_inBounds (fun j below => (dec2.data j below).1)
    fun j below => writeOk_local nofun nofun (show _ < 256 by omega)) fun _ _ => ?_
  refine within_bind (ibcBlocks_inBounds input) fun bchLen _ => ?_
  exact within_bind (parseIbc_inBounds bchLen bcType) fun _ _ => within_pure trivial

theorem iraDecode_inBounds {dataLen : Nat} (input : 24 + dataLen ≤ nBits) (long : 96 ≤ dataLen) :
    InBounds nBits hasLlr (fun _ => True) (iraDecode hasLlr dataLen : Prog Buf K (Option IraData)) := by
  have dec1 : Decoder nBits hasLlr .ra1 .la1 .d1 .c1 := ⟨scratch_of_size nofun nofun le_rfl,
    scratch_of_size nofun nofun le_rfl, scratch_of_size nofun nofun le_rfl, scratch_of_size nofun nofun le_rfl⟩
  have dec2 : Decoder nBits hasLlr .ra2 .la2 .d2 .c2 := ⟨scratch_of_size nofun nofun le_rfl,
    scratch_of_size nofun nofun le_rfl, scratch_of_size nofun nofun le_rfl, scratch_of_size nofun nofun le_rfl⟩
  have dec3 : Decoder nBits hasLlr .ra3 .la3 .d3 .c3 := ⟨scratch_of_size nofun nofun le_rfl,
    scratch_of_size nofun nofun le_rfl, scratch_of_size nofun nofun le_rfl, scratch_of_size nofun nofun le_rfl⟩
  unfold iraDecode
  -- the header blocks, from the 96 bits at `data`
  refine within_bind (deInterleave3_inBounds (fun j below => readOk_bits (by omega)) dec1.block32
    dec2.block32 dec3.block32) fun _ _ => ?_
  refine within_bind (Q := fun _ => True) (within_ite (fun on => deInterleave3_inBounds
    (fun j below => readOk_llr on (by omega)) dec1.llr32 dec2.llr32 dec3.llr32) fun _ => within_pure trivial)
    fun _ _ => ?_
  refine within_bind (chaseBchDecodeP_inBounds dec1) fun e1 _ => ?_
  refine within_bind (chaseBchDecodeP_inBounds dec2) fun e2 _ => ?_
  refine within_bind (chaseBchDecodeP_inBounds dec3) fun e3 _ => ?_
  refine within_bind (Q := fun _ => True) (within_ite (fun _ => parityChecks_cons_inBounds dec1
    (parityChecks_cons_inBounds dec2 (parityChecks_cons_inBounds dec3 parityChecks_nil_inBounds)))
    fun _ => within_pure trivial) fun ok _ => ?_
  refine within_ite (fun _ => ?_) fun _ => within_pure trivial
  -- IRA confirmed: `bch_stream[0 .. 62]`, then the remaining blocks
  refine within_bind (memcpy_inBounds (fun j below => (dec1.data j below).1)
    fun j below => writeOk_local nofun nofun (show _ < 512 by omega)) fun _ _ => ?_
  refine within_bind (memcpy_inBounds (fun j below => (dec2.data j below).1)
    fun j below => writeOk_local nofun nofun (show _ < 512 by omega)) fun _ _ => ?_
  refine within_bind (memcpy_inBounds (fun j below => (dec3.data j below).1)
    fun j below => writeOk_local nofun nofun (show _ < 512 by omega)) fun _ _ => ?_
  refine within_bind (iraBlocks_inBounds input) fun bchLen short => ?_
  exact within_bind (parseIra_inBounds short) fun _ _ => within_pure trivial

theorem frameDecode_inBounds (nBits : Nat) (hasLlr : Bool) :
    InBounds nBits hasLlr (fun _ => True) (frameDecode nBits hasLlr : Prog Buf K (Option Decoded)) := by
  unfold frameDecode
  refine within_ite (fun _ => within_pure trivial) fun long => ?_
  refine within_bind (loadBits_inBounds fun j below => readOk_bits (by omega)) fun code _ => ?_
  refine within_ite (fun _ => within_pure trivial) fun _ => ?_
  dsimp only
  refine within_bind (Q := fun _ => True) (within_ite (fun ibc => ibcDecode_inBounds (by omega) ibc)
    fun _ => within_pure trivial) fun ibc _ => ?_
  split
  · exact within_pure trivial
  · exact within_ite (fun ira => within_bind (iraDecode_inBounds (by omega) ira) fun _ _ => within_pure trivial)
      fun _ => within_pure trivial

/-- On every frame, with LLRs or without: `frame_decode` reads `bits` and `llr`
only below `n_bits` and `llr` only when the frame has one, writes only inside
its local arrays, the two `bch_stream`s and `ira.pages`; and from any memory,
the `bch_len` that the block loops hand to `parse_ibc` and `parse_ira` is at
most 256 and 512. -/
theorem frameDecode_stays_in_bounds (nBits : Nat) (hasLlr : Bool) :
    InBounds nBits hasLlr (fun _ => True) (frameDecode nBits hasLlr : Prog Buf K (Option Decoded)) ∧
      ∀ (dataLen : Nat) (m : Machine Buf K),
        ((ibcBlocks hasLlr dataLen : Prog Buf K Nat).run m).1 ≤ 256 ∧
          ((iraBlocks hasLlr dataLen : Prog Buf K Nat).run m).1 ≤ 512 :=
  ⟨frameDecode_inBounds nBits hasLlr, fun dataLen m =>
    ⟨(ibcBlocks_inBounds (le_refl (24 + dataLen)) m).1, (iraBlocks_inBounds (le_refl (24 + dataLen)) m).1⟩⟩

end IridiumSniffer.Frame
