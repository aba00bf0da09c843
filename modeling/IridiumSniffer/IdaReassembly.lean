import Mathlib
import IridiumSniffer.Lib.Arrivals
import IridiumSniffer.Lib.Slots

/-! Multi-burst reassembly of IDA messages in `ida_decode.c`. `ida_reassemble`
appends a CRC-valid burst to the first of the 16 slots of an `ida_context_t`
that is active in the burst's direction, within 260 Hz of it, at most 280 ms
older than it and one counter step behind it; a burst without continuation then
completes the slot's message. A burst with counter 0 that matches no slot is a
message of its own or opens a slot, evicting the oldest when none is free.
`ida_reassemble_flush` frees slots idle for more than 280 ms.

A slot is matched by direction, frequency, time and counter only. A message
that loses a burst leaves a slot behind that waits for that counter, and the
bursts of the next message on the same channel continue it. When no burst is
lost, messages have at most eight bursts, and messages in flight in one
direction lie on channels apart, every message handed on is one whole message. -/
namespace IridiumSniffer

inductive IrDirection where
  | undef
  | downlink
  | uplink
deriving DecidableEq, Repr

namespace Ida

/-- `ida_burst_t` as `ida_reassemble` reads it, without the magnitude that is
only passed on; `payload` holds the bytes of `payload[32]`. -/
structure IdaBurst (K : Type*) where
  timestamp : Nat
  frequency : K
  direction : IrDirection
  daCtr : Nat
  daLen : Nat
  cont : Bool
  payload : List UInt8
  crcOk : Bool
deriving DecidableEq, Repr

/-- `ida_reassembly_t`; `data` holds the first `data_len` bytes of `data[256]`. -/
structure IdaReassembly (K : Type*) where
  active : Bool
  direction : IrDirection
  frequency : K
  lastTimestamp : Nat
  lastCtr : Nat
  data : List UInt8
deriving DecidableEq, Repr

/-- A call of the `ida_message_cb` callback, without the magnitude. -/
structure IdaCallback (K : Type*) where
  data : List UInt8
  timestamp : Nat
  frequency : K
  direction : IrDirection
deriving DecidableEq, Repr

def idaMaxReassembly : Nat := 16

variable {K : Type*}

/-- A zeroed slot. -/
def IdaReassembly.empty [Zero K] : IdaReassembly K := ⟨false, .undef, 0, 0, 0, []⟩

/-- The slots of a zero-initialised `ida_context_t`. -/
def idaInit [Zero K] : List (IdaReassembly K) := List.replicate idaMaxReassembly .empty

/-- The tests of the matching loop of `ida_reassemble`; `timestamp -
last_timestamp` is only taken when it does not wrap. -/
def idaMatches [Ring K] [LinearOrder K] (s : IdaReassembly K) (b : IdaBurst K) : Bool :=
  s.active && s.direction == b.direction && !decide (|s.frequency - b.frequency| > 260) &&
    !decide (b.timestamp < s.lastTimestamp) && !decide (b.timestamp - s.lastTimestamp > 280000000) &&
    (s.lastCtr + 1) % 8 == b.daCtr

/-- A matching burst appended to its slot, if it fits in the 256 bytes. -/
def idaAppend (s : IdaReassembly K) (b : IdaBurst K) : IdaReassembly K :=
  { s with
    data := if s.data.length + b.daLen ≤ 256 then s.data ++ b.payload.take b.daLen else s.data
    lastTimestamp := b.timestamp
    lastCtr := b.daCtr }

/-- One iteration of the loop that picks the slot of a new message: the index,
the least `last_timestamp` so far, and whether the loop has stopped at a free
slot. -/
def idaSlotStep [Zero K] (slots : List (IdaReassembly K)) (st : Option Nat × Nat × Bool) (i : Nat) :
    Option Nat × Nat × Bool :=
  let s := slots.getD i .empty
  if st.2.2 then st
  else if !s.active then (some i, st.2.1, true)
  else if s.lastTimestamp < st.2.1 then (some i, s.lastTimestamp, false)
  else st

/-- The slot a new message takes: the first free slot, else the first with the
least `last_timestamp` below `UINT64_MAX`, else slot 0. -/
def idaSlotFor [Zero K] (slots : List (IdaReassembly K)) : Nat :=
  ((List.range idaMaxReassembly).foldl (idaSlotStep slots) (none, 2 ^ 64 - 1, false)).1.getD 0

/-- The matching loop of `ida_reassemble`: the first slot the burst continues. -/
def idaMatch [Ring K] [LinearOrder K] (slots : List (IdaReassembly K)) (b : IdaBurst K) : Option Nat :=
  (List.range idaMaxReassembly).find? fun i => idaMatches (slots.getD i .empty) b

/-- `ida_reassemble`: the slots after the burst, and the callback it makes. -/
def idaReassemble [Ring K] [LinearOrder K] (slots : List (IdaReassembly K)) (b : IdaBurst K) :
    List (IdaReassembly K) × Option (IdaCallback K) :=
  if !b.crcOk || b.daLen == 0 then (slots, none)
  else
    match idaMatch slots b with
    | some i =>
      let s := idaAppend (slots.getD i .empty) b
      if !b.cont then
        (slots.set i { s with active := false }, some ⟨s.data, b.timestamp, s.frequency, s.direction⟩)
      else (slots.set i s, none)
    | none =>
      -- a single-burst message, a new multi-burst message, or an orphan fragment
      if b.daCtr = 0 && !b.cont then
        (slots, some ⟨b.payload.take b.daLen, b.timestamp, b.frequency, b.direction⟩)
      else if b.daCtr = 0 && b.cont then
        (slots.set (idaSlotFor slots) ⟨true, b.direction, b.frequency, b.timestamp, b.daCtr, b.payload.take b.daLen⟩,
          none)
      else (slots, none)

/-- One slot in the loop of `ida_reassemble_flush`; `last_timestamp + 280000000`
is a `uint64_t` sum. -/
def idaFlushSlot (nowNs : Nat) (s : IdaReassembly K) : IdaReassembly K :=
  if s.active && decide (nowNs > (s.lastTimestamp + 280000000) % 2 ^ 64) then { s with active := false }
  else s

def idaReassembleFlush (slots : List (IdaReassembly K)) (nowNs : Nat) : List (IdaReassembly K) :=
  slots.map (idaFlushSlot nowNs)

/-- The calls a user of an `ida_context_t` makes. -/
inductive IdaCall (K : Type*) where
  | reassemble (burst : IdaBurst K)
  | flush (nowNs : Nat)
deriving DecidableEq, Repr

/-- One call: the slots after it and the callback it makes. -/
def idaStep [Ring K] [LinearOrder K] (slots : List (IdaReassembly K)) :
    IdaCall K → List (IdaReassembly K) × Option (IdaCallback K)
  | .reassemble b => idaReassemble slots b
  | .flush nowNs => (idaReassembleFlush slots nowNs, none)

/-- A sequence of calls: the final slots and every callback. -/
def idaRun [Ring K] [LinearOrder K] : List (IdaReassembly K) → List (IdaCall K) → List (IdaReassembly K) × List (IdaCallback K)
  | slots, [] => (slots, [])
  | slots, call :: rest =>
    let step := idaStep slots call
    let run := idaRun step.1 rest
    (run.1, step.2.toList ++ run.2)

/-! ### The slot table -/

@[simp] theorem idaFlushSlot_direction (now : Nat) (s : IdaReassembly K) :
    (idaFlushSlot now s).direction = s.direction := by
  unfold idaFlushSlot; split <;> rfl

@[simp] theorem idaFlushSlot_frequency (now : Nat) (s : IdaReassembly K) :
    (idaFlushSlot now s).frequency = s.frequency := by
  unfold idaFlushSlot; split <;> rfl

@[simp] theorem idaFlushSlot_lastTimestamp (now : Nat) (s : IdaReassembly K) :
    (idaFlushSlot now s).lastTimestamp = s.lastTimestamp := by
  unfold idaFlushSlot; split <;> rfl

@[simp] theorem idaFlushSlot_lastCtr (now : Nat) (s : IdaReassembly K) :
    (idaFlushSlot now s).lastCtr = s.lastCtr := by
  unfold idaFlushSlot; split <;> rfl

@[simp] theorem idaFlushSlot_data (now : Nat) (s : IdaReassembly K) : (idaFlushSlot now s).data = s.data := by
  unfold idaFlushSlot; split <;> rfl

theorem active_of_idaFlushSlot {now : Nat} {s : IdaReassembly K} (act : (idaFlushSlot now s).active = true) :
    s.active = true := by
  unfold idaFlushSlot at act
  split at act
  · simp at act
  · exact act

@[simp] theorem length_idaReassembleFlush (slots : List (IdaReassembly K)) (now : Nat) :
    (idaReassembleFlush slots now).length = slots.length := by
  simp [idaReassembleFlush]

theorem getD_idaReassembleFlush [Zero K] (slots : List (IdaReassembly K)) (now i : Nat) :
    (idaReassembleFlush slots now).getD i .empty = idaFlushSlot now (slots.getD i .empty) := by
  have fixed : idaFlushSlot now (.empty : IdaReassembly K) = .empty := by
    simp [idaFlushSlot, IdaReassembly.empty]
  calc (idaReassembleFlush slots now).getD i .empty
      = (slots.map (idaFlushSlot now)).getD i (idaFlushSlot now .empty) := by rw [fixed]; rfl
    _ = idaFlushSlot now (slots.getD i .empty) := List.getD_map slots .empty (idaFlushSlot now)

@[simp] theorem idaAppend_active (s : IdaReassembly K) (b : IdaBurst K) : (idaAppend s b).active = s.active := rfl

@[simp] theorem idaAppend_direction (s : IdaReassembly K) (b : IdaBurst K) :
    (idaAppend s b).direction = s.direction := rfl

@[simp] theorem idaAppend_frequency (s : IdaReassembly K) (b : IdaBurst K) :
    (idaAppend s b).frequency = s.frequency := rfl

@[simp] theorem idaAppend_lastTimestamp (s : IdaReassembly K) (b : IdaBurst K) :
    (idaAppend s b).lastTimestamp = b.timestamp := rfl

@[simp] theorem idaAppend_lastCtr (s : IdaReassembly K) (b : IdaBurst K) : (idaAppend s b).lastCtr = b.daCtr := rfl

theorem idaAppend_data {s : IdaReassembly K} {b : IdaBurst K} (fits : s.data.length + b.daLen ≤ 256) :
    (idaAppend s b).data = s.data ++ b.payload.take b.daLen := by
  simp [idaAppend, fits]

theorem lt_length_of_active [Zero K] {slots : List (IdaReassembly K)} {k : Nat}
    (act : (slots.getD k .empty).active = true) : k < slots.length := by
  by_contra outside
  rw [List.getD_eq_default _ _ (by omega)] at act
  cases act

theorem idaSlotStep_lt [Zero K] {slots : List (IdaReassembly K)} {st : Option Nat × Nat × Bool} {i : Nat}
    (below : i < idaMaxReassembly) (recorded : ∀ k, st.1 = some k → k < idaMaxReassembly) :
    ∀ k, (idaSlotStep slots st i).1 = some k → k < idaMaxReassembly := by
  intro k chosen
  unfold idaSlotStep at chosen
  dsimp only at chosen
  split_ifs at chosen
  · exact recorded k chosen
  · cases chosen
    exact below
  · cases chosen
    exact below
  · exact recorded k chosen

theorem idaSlotFor_lt [Zero K] (slots : List (IdaReassembly K)) : idaSlotFor slots < idaMaxReassembly := by
  -- every index the loop records is one it has scanned
  have scan : ∀ (l : List Nat) (st : Option Nat × Nat × Bool), (∀ i ∈ l, i < idaMaxReassembly) →
      (∀ k, st.1 = some k → k < idaMaxReassembly) →
      ∀ k, (l.foldl (idaSlotStep slots) st).1 = some k → k < idaMaxReassembly := by
    intro l
    induction l with
    | nil => exact fun st _ recorded => recorded
    | cons i rest ih =>
      intro st inside recorded
      exact ih _ (fun k mem => inside k (by simp [mem])) (idaSlotStep_lt (inside i (by simp)) recorded)
  unfold idaSlotFor
  cases found : ((List.range idaMaxReassembly).foldl (idaSlotStep slots) (none, 2 ^ 64 - 1, false)).1 with
  | none => decide
  | some k => exact scan _ _ (fun i mem => List.mem_range.mp mem) (by simp) k found

section Reassemble

variable [Ring K] [LinearOrder K]

theorem idaMatch_some {slots : List (IdaReassembly K)} {b : IdaBurst K} {i : Nat}
    (found : idaMatch slots b = some i) :
    i < idaMaxReassembly ∧ idaMatches (slots.getD i .empty) b = true := by
  unfold idaMatch at found
  have chosen := List.find?_some found
  exact ⟨List.mem_range.mp (List.mem_of_find?_eq_some found), chosen⟩

theorem idaMatch_none {slots : List (IdaReassembly K)} {b : IdaBurst K} (missing : idaMatch slots b = none)
    {i : Nat} (below : i < idaMaxReassembly) : idaMatches (slots.getD i .empty) b = false := by
  unfold idaMatch at missing
  have skipped := List.find?_eq_none.mp missing i (List.mem_range.mpr below)
  simpa using skipped

theorem idaReassemble_ignored (slots : List (IdaReassembly K)) {b : IdaBurst K}
    (ignored : b.crcOk = false ∨ b.daLen = 0) : idaReassemble slots b = (slots, none) := by
  rcases ignored with bad | empty
  · simp [idaReassemble, bad]
  · simp [idaReassemble, empty]

section Valid

variable (slots : List (IdaReassembly K)) {b : IdaBurst K} (crc : b.crcOk = true) (len : b.daLen ≠ 0)
include crc len

/-- A burst that continues slot `i` is appended to it; the last burst of a
message hands the slot on and frees it. -/
theorem idaReassemble_append {i : Nat} (found : idaMatch slots b = some i) :
    idaReassemble slots b =
      if b.cont then (slots.set i (idaAppend (slots.getD i .empty) b), none)
      else (slots.set i { idaAppend (slots.getD i .empty) b with active := false },
        some ⟨(idaAppend (slots.getD i .empty) b).data, b.timestamp, (slots.getD i .empty).frequency,
          (slots.getD i .empty).direction⟩) := by
  cases last : b.cont <;> simp [idaReassemble, crc, len, found, last]

theorem idaReassemble_single (unmatched : idaMatch slots b = none) (ctr : b.daCtr = 0) (last : b.cont = false) :
    idaReassemble slots b = (slots, some ⟨b.payload.take b.daLen, b.timestamp, b.frequency, b.direction⟩) := by
  simp [idaReassemble, crc, len, unmatched, ctr, last]

theorem idaReassemble_start (unmatched : idaMatch slots b = none) (ctr : b.daCtr = 0) (more : b.cont = true) :
    idaReassemble slots b = (slots.set (idaSlotFor slots)
      ⟨true, b.direction, b.frequency, b.timestamp, b.daCtr, b.payload.take b.daLen⟩, none) := by
  simp [idaReassemble, crc, len, unmatched, ctr, more]

theorem idaReassemble_orphan (unmatched : idaMatch slots b = none) (ctr : b.daCtr ≠ 0) :
    idaReassemble slots b = (slots, none) := by
  simp [idaReassemble, crc, len, unmatched, ctr]

end Valid

end Reassemble

/-! ### Messages in flight

A trace labels each call with the burst it carries: burst `j` (from 0) of
message `m`, or none for a flush or a burst that `ida_reassemble` ignores. -/

/-- A message as sent on one channel in one direction: the payloads of its
bursts and the times they are received. A burst's counter is its index, so a
message has at most eight bursts; a burst carries 1 to 20 bytes, and follows
the one before by at most 280 ms. -/
structure SentMessage (K : Type*) where
  direction : IrDirection
  frequency : K
  payloads : List (List UInt8)
  times : List Nat
  short : payloads.length ≤ 8
  sized : ∀ p ∈ payloads, 0 < p.length ∧ p.length ≤ 20
  gaps : ∀ j, j + 1 < payloads.length →
    times.getD j 0 ≤ times.getD (j + 1) 0 ∧ times.getD (j + 1) 0 - times.getD j 0 ≤ 280000000

/-- Bursts of message `m`. -/
def packets (msgs : Nat → SentMessage K) (m : Nat) : Nat := (msgs m).payloads.length

section Messages

variable [Ring K] [LinearOrder K]

/-- Two messages clash when they travel in one direction less than 520 Hz
apart: a burst within 260 Hz of one may then match the slot of the other. -/
def Clash (msgs : Nat → SentMessage K) (m m' : Nat) : Prop :=
  (msgs m).direction = (msgs m').direction ∧ |(msgs m).frequency - (msgs m').frequency| ≤ 520

/-- Burst `b` is burst `j` (from 0) of message `m`: its frequency is the
message's for the first burst and within 260 Hz of it for every burst. -/
structure BurstOf (msgs : Nat → SentMessage K) (m j : Nat) (b : IdaBurst K) : Prop where
  crc : b.crcOk = true
  len : b.daLen = ((msgs m).payloads.getD j []).length
  bytes : b.payload.take b.daLen = (msgs m).payloads.getD j []
  ctr : b.daCtr = j % 8
  cont : b.cont = decide (j + 1 < packets msgs m)
  direction : b.direction = (msgs m).direction
  time : b.timestamp = (msgs m).times.getD j 0
  first : j = 0 → b.frequency = (msgs m).frequency
  near : |b.frequency - (msgs m).frequency| ≤ 260

/-- What a call carries: a burst of a message, or nothing for a flush and for a
burst that fails its CRC or has no payload. -/
def Carries (msgs : Nat → SentMessage K) : Option (Nat × Nat) → IdaCall K → Prop
  | none, .flush _ => True
  | none, .reassemble b => b.crcOk = false ∨ b.daLen = 0
  | some _, .flush _ => False
  | some (m, j), .reassemble b => BurstOf msgs m j b

/-- A callback hands on message `m` whole. -/
def Whole (msgs : Nat → SentMessage K) (call : IdaCallback K) (m : Nat) : Prop :=
  call.data = (msgs m).payloads.flatten ∧ call.direction = (msgs m).direction ∧
    call.frequency = (msgs m).frequency

/-- Two slots in one direction less than 520 Hz apart. -/
def Near (s s' : IdaReassembly K) : Prop :=
  s.direction = s'.direction ∧ |s.frequency - s'.frequency| ≤ 520

/-- Active slots are not `Near`. -/
def Apart (slots : List (IdaReassembly K)) : Prop :=
  ∀ i k, i ≠ k → (slots.getD i .empty).active = true → (slots.getD k .empty).active = true →
    ¬ Near (slots.getD i .empty) (slots.getD k .empty)

open Arrivals

/-- Slot `s` holds the bursts of message `m` received so far. -/
structure Holds (msgs : Nat → SentMessage K) (done : List (Option (Nat × Nat))) (s : IdaReassembly K)
    (m : Nat) : Prop where
  inFlight : Open (packets msgs) done m
  direction : s.direction = (msgs m).direction
  frequency : s.frequency = (msgs m).frequency
  ctr : s.lastCtr + 1 = received m done
  time : s.lastTimestamp = (msgs m).times.getD (received m done - 1) 0
  data : s.data = ((msgs m).payloads.take (received m done)).flatten

/-- Every active slot holds a message in flight, and no two are near. -/
structure Reassembling (msgs : Nat → SentMessage K) (done : List (Option (Nat × Nat)))
    (slots : List (IdaReassembly K)) : Prop where
  size : slots.length = idaMaxReassembly
  owned : ∀ k, (slots.getD k .empty).active = true → ∃ m, Holds msgs done (slots.getD k .empty) m
  apart : Apart slots

end Messages

open Arrivals

variable {msgs : Nat → SentMessage K}

theorem holds_other {done : List (Option (Nat × Nat))} {s : IdaReassembly K} {m : Nat}
    {a : Option (Nat × Nat)} (holds : Holds msgs done s m) (other : a.map Prod.fst ≠ some m) :
    Holds msgs (done ++ [a]) s m := by
  obtain ⟨inFlight, direction, frequency, ctr, time, data⟩ := holds
  refine ⟨(open_other other).mpr inFlight, direction, frequency, ?_, ?_, ?_⟩ <;>
    rw [received_other other] <;> assumption

theorem payload_sized {m j : Nat} (bound : j < packets msgs m) :
    0 < ((msgs m).payloads.getD j []).length ∧ ((msgs m).payloads.getD j []).length ≤ 20 := by
  unfold packets at bound
  rw [List.getD_eq_getElem _ _ bound]
  exact (msgs m).sized _ (List.getElem_mem bound)

section Invariant

variable [Ring K] [LinearOrder K]

theorem clash_symm {m m' : Nat} (clash : Clash msgs m m') : Clash msgs m' m :=
  ⟨clash.1.symm, by rw [abs_sub_comm]; exact clash.2⟩

theorem near_iff_clash {done : List (Option (Nat × Nat))} {s s' : IdaReassembly K} {m m' : Nat}
    (holds : Holds msgs done s m) (holds' : Holds msgs done s' m') : Near s s' ↔ Clash msgs m m' := by
  rw [Near, Clash, holds.direction, holds.frequency, holds'.direction, holds'.frequency]

theorem Apart.of_le {old new : List (IdaReassembly K)} (apart : Apart old)
    (le : ∀ k, (new.getD k .empty).active = true → (old.getD k .empty).active = true ∧
      (new.getD k .empty).direction = (old.getD k .empty).direction ∧
      (new.getD k .empty).frequency = (old.getD k .empty).frequency) :
    Apart new := by
  intro i k differ first second
  obtain ⟨wasFirst, dirFirst, freqFirst⟩ := le i first
  obtain ⟨wasSecond, dirSecond, freqSecond⟩ := le k second
  rw [Near, dirFirst, freqFirst, dirSecond, freqSecond]
  exact apart i k differ wasFirst wasSecond

theorem reassembling_init : Reassembling msgs [] idaInit := by
  have empty : ∀ k, (idaInit : List (IdaReassembly K)).getD k .empty = .empty := by
    intro k
    simp only [idaInit, List.getD_eq_getElem?_getD, List.getElem?_replicate]
    split <;> rfl
  refine ⟨rfl, fun k act => ?_, fun i k _ act => ?_⟩
  · rw [empty] at act
    cases act
  · rw [empty] at act
    cases act

theorem Reassembling.flush {done : List (Option (Nat × Nat))} {slots : List (IdaReassembly K)}
    (inv : Reassembling msgs done slots) (now : Nat) :
    Reassembling msgs done (idaReassembleFlush slots now) := by
  refine ⟨by simp [inv.size], fun k act => ?_, inv.apart.of_le fun k act => ?_⟩
  · rw [getD_idaReassembleFlush] at act ⊢
    obtain ⟨m, holds⟩ := inv.owned k (active_of_idaFlushSlot act)
    obtain ⟨inFlight, direction, frequency, ctr, time, data⟩ := holds
    exact ⟨m, inFlight, by simpa using direction, by simpa using frequency, by simpa using ctr,
      by simpa using time, by simpa using data⟩
  · rw [getD_idaReassembleFlush] at act ⊢
    exact ⟨active_of_idaFlushSlot act, by simp, by simp⟩

theorem Reassembling.other {done : List (Option (Nat × Nat))} {slots : List (IdaReassembly K)}
    (inv : Reassembling msgs done slots) : Reassembling msgs (done ++ [none]) slots := by
  refine ⟨inv.size, fun k act => ?_, inv.apart⟩
  obtain ⟨m, holds⟩ := inv.owned k act
  exact ⟨m, holds_other holds (by simp)⟩

theorem Reassembling.skip {done : List (Option (Nat × Nat))} {slots : List (IdaReassembly K)} {m j : Nat}
    (inv : Reassembling msgs done slots)
    (absent : ∀ k, (slots.getD k .empty).active = true → ¬ Holds msgs done (slots.getD k .empty) m) :
    Reassembling msgs (done ++ [some (m, j)]) slots := by
  refine ⟨inv.size, fun k act => ?_, inv.apart⟩
  obtain ⟨m', holds⟩ := inv.owned k act
  have other : m' ≠ m := fun same => absent k act (same ▸ holds)
  exact ⟨m', holds_other holds (by simp [Ne.symm other])⟩

theorem active_of_idaMatches {s : IdaReassembly K} {b : IdaBurst K} (matched : idaMatches s b = true) :
    s.active = true := by
  simp only [idaMatches, Bool.and_eq_true] at matched
  exact matched.1.1.1.1.1

/-- The slot holding `m` matches the next burst of `m`: one counter step on,
at most 280 ms later, and within 260 Hz of the message's first burst. -/
theorem idaMatches_of_holds {done : List (Option (Nat × Nat))} {s : IdaReassembly K} {b : IdaBurst K}
    {m j : Nat} (holds : Holds msgs done s m) (act : s.active = true) (burst : BurstOf msgs m j b)
    (arrived : j = received m done) : idaMatches s b = true := by
  have started := holds.inFlight.1
  have below := holds.inFlight.2
  obtain ⟨i, rfl⟩ : ∃ i, j = i + 1 := ⟨j - 1, by omega⟩
  have gap := (msgs m).gaps i (by unfold packets at below; omega)
  have last : s.lastTimestamp = (msgs m).times.getD i 0 := by
    rw [holds.time, ← arrived, Nat.add_sub_cancel]
  simp only [idaMatches, Bool.and_eq_true, beq_iff_eq, Bool.not_eq_eq_eq_not, Bool.not_true,
    decide_eq_false_iff_not, not_lt]
  refine ⟨⟨⟨⟨⟨act, ?_⟩, ?_⟩, ?_⟩, ?_⟩, ?_⟩
  · rw [holds.direction, burst.direction]
  · rw [holds.frequency, abs_sub_comm]
    exact burst.near
  · rw [last, burst.time]
    exact gap.1
  · rw [last, burst.time]
    exact gap.2
  · have ctr := holds.ctr
    rw [burst.ctr]
    omega

end Invariant

/-! ### Matching -/

section Matching

variable [Ring K] [LinearOrder K] [IsStrictOrderedRing K]

/-- A slot that a burst of `m` matches is in its direction, within 260 Hz of
it, so the message the slot holds clashes with `m`. -/
theorem clash_of_idaMatches {done : List (Option (Nat × Nat))} {s : IdaReassembly K} {b : IdaBurst K}
    {m m' j : Nat} (matched : idaMatches s b = true) (holds : Holds msgs done s m')
    (burst : BurstOf msgs m j b) : Clash msgs m' m := by
  simp only [idaMatches, Bool.and_eq_true, beq_iff_eq, Bool.not_eq_eq_eq_not, Bool.not_true,
    decide_eq_false_iff_not, not_lt] at matched
  obtain ⟨⟨⟨⟨⟨-, direction⟩, close⟩, -⟩, -⟩, -⟩ := matched
  refine ⟨by rw [← holds.direction, direction, burst.direction], ?_⟩
  calc |(msgs m').frequency - (msgs m).frequency|
      ≤ |(msgs m').frequency - b.frequency| + |b.frequency - (msgs m).frequency| := abs_sub_le _ _ _
    _ ≤ 260 + 260 := add_le_add (holds.frequency ▸ close) burst.near
    _ = 520 := by norm_num

/-- An active slot that a burst of `m` matches holds `m`: the slot of another
message in flight lies in another direction or more than 520 Hz away. -/
theorem holds_of_idaMatches {done : List (Option (Nat × Nat))} {slots : List (IdaReassembly K)}
    {b : IdaBurst K} {m j k : Nat} (exclusive : Exclusive (packets msgs) (Clash msgs) done)
    (inv : Reassembling msgs done slots) (burst : BurstOf msgs m j b)
    (next : Next (packets msgs) (Clash msgs) done (some (m, j)))
    (matched : idaMatches (slots.getD k .empty) b = true) : Holds msgs done (slots.getD k .empty) m := by
  obtain ⟨m', holds⟩ := inv.owned k (active_of_idaMatches matched)
  have clash := clash_of_idaMatches matched holds burst
  by_cases same : m' = m
  · exact same ▸ holds
  · exfalso
    -- a first burst finds no clashing message in flight; a later one is in flight itself
    cases j with
    | zero => exact next.2.2 rfl m' same (clash_symm clash) holds.inFlight
    | succ j => exact same (exclusive m' m holds.inFlight (open_of_next next) clash)

theorem clash_self (m : Nat) : Clash msgs m m := ⟨rfl, by simp⟩

end Matching

/-! ### One burst -/

section Burst

variable [Ring K] [LinearOrder K] [IsStrictOrderedRing K] {done : List (Option (Nat × Nat))}
  {slots : List (IdaReassembly K)} {b : IdaBurst K}

/-- The first burst of `m` matches no slot, since no slot holds `m` yet: it is
a message of its own, or it opens a slot that no active slot is near. -/
theorem reassembling_first {m : Nat} (exclusive : Exclusive (packets msgs) (Clash msgs) done)
    (inv : Reassembling msgs done slots) (burst : BurstOf msgs m 0 b)
    (next : Next (packets msgs) (Clash msgs) done (some (m, 0))) :
    Reassembling msgs (done ++ [some (m, 0)]) (idaReassemble slots b).1 ∧
      ∀ call, (idaReassemble slots b).2 = some call → Whole msgs call m := by
  obtain ⟨arrived, bound, fresh⟩ := id next
  have len : b.daLen ≠ 0 := by rw [burst.len]; exact (payload_sized bound).1.ne'
  have ctr : b.daCtr = 0 := burst.ctr
  have absent : ∀ k, (slots.getD k .empty).active = true → ¬ Holds msgs done (slots.getD k .empty) m :=
    fun k _ holds => absurd holds.inFlight.1 (by omega)
  have unmatched : idaMatch slots b = none := by
    unfold idaMatch
    rw [List.find?_eq_none]
    intro k _ matched
    exact absent k (active_of_idaMatches matched) (holds_of_idaMatches exclusive inv burst next matched)
  have payload : b.payload.take b.daLen = ((msgs m).payloads.take 1).flatten := by
    rw [Slots.flatten_take_one, burst.bytes]
  by_cases more : 1 < packets msgs m
  · -- the message has more bursts: it opens a slot
    have cont : b.cont = true := by rw [burst.cont]; simpa using more
    have now : received m (done ++ [some (m, 0)]) = 1 := by simp [← arrived]
    have opened : Holds msgs (done ++ [some (m, 0)])
        ⟨true, b.direction, b.frequency, b.timestamp, b.daCtr, b.payload.take b.daLen⟩ m :=
      ⟨⟨by omega, by omega⟩, burst.direction, burst.first rfl, by rw [now, ctr],
        by rw [now]; exact burst.time, by rw [now]; exact payload⟩
    -- an active slot holds another message, which does not clash with `m`
    have others : ∀ k, (slots.getD k .empty).active = true →
        ∃ m', m' ≠ m ∧ Holds msgs (done ++ [some (m, 0)]) (slots.getD k .empty) m' ∧ ¬ Clash msgs m m' := by
      intro k act
      obtain ⟨m', holds⟩ := inv.owned k act
      have other : m' ≠ m := fun same => absent k act (same ▸ holds)
      exact ⟨m', other, holds_other holds (by simp [Ne.symm other]),
        fun clash => fresh rfl m' other clash holds.inFlight⟩
    have inside : idaSlotFor slots < slots.length := by rw [inv.size]; exact idaSlotFor_lt slots
    rw [idaReassemble_start slots burst.crc len unmatched ctr cont]
    refine ⟨⟨by simp [inv.size], fun k act => ?_, fun i k differ first second => ?_⟩, by rintro call ⟨⟩⟩
    · rw [Slots.getD_set _ inside] at act ⊢
      split
      · exact ⟨m, opened⟩
      · rename_i other
        rw [if_neg other] at act
        obtain ⟨m', -, holds, -⟩ := others k act
        exact ⟨m', holds⟩
    · rw [Slots.getD_set _ inside] at first second ⊢
      rw [Slots.getD_set _ inside]
      by_cases atFirst : i = idaSlotFor slots
      · have other : k ≠ idaSlotFor slots := by omega
        rw [if_pos atFirst]
        rw [if_neg other] at second ⊢
        obtain ⟨m', -, holds, apart⟩ := others k second
        exact fun near => apart ((near_iff_clash opened holds).mp near)
      · rw [if_neg atFirst] at first ⊢
        by_cases atSecond : k = idaSlotFor slots
        · rw [if_pos atSecond]
          obtain ⟨m', -, holds, apart⟩ := others i first
          exact fun near => apart (clash_symm ((near_iff_clash holds opened).mp near))
        · rw [if_neg atSecond] at second ⊢
          exact inv.apart i k differ first second
  · -- a message of one burst is handed on at once
    have single : packets msgs m = 1 := by omega
    have last : b.cont = false := by rw [burst.cont]; simpa using more
    rw [idaReassemble_single slots burst.crc len unmatched ctr last]
    refine ⟨inv.skip absent, ?_⟩
    rintro call ⟨⟩
    refine ⟨?_, burst.direction, burst.first rfl⟩
    rw [payload, List.take_of_length_le (by unfold packets at single; omega)]

/-- A later burst of `m` continues the slot holding `m`, the only slot it
matches, or is dropped when that slot has been flushed or evicted. -/
theorem reassembling_continue {m j : Nat} (exclusive : Exclusive (packets msgs) (Clash msgs) done)
    (inv : Reassembling msgs done slots) (burst : BurstOf msgs m (j + 1) b)
    (next : Next (packets msgs) (Clash msgs) done (some (m, j + 1))) :
    Reassembling msgs (done ++ [some (m, j + 1)]) (idaReassemble slots b).1 ∧
      ∀ call, (idaReassemble slots b).2 = some call → Whole msgs call m := by
  obtain ⟨arrived, bound, -⟩ := id next
  have len : b.daLen ≠ 0 := by rw [burst.len]; exact (payload_sized bound).1.ne'
  have short : packets msgs m ≤ 8 := (msgs m).short
  have now : received m (done ++ [some (m, j + 1)]) = j + 2 := by simp [← arrived]
  cases found : idaMatch slots b with
  | none =>
    -- the slot of `m` has been flushed or evicted: the burst is dropped
    have ctr : b.daCtr ≠ 0 := by rw [burst.ctr]; omega
    have absent : ∀ k, (slots.getD k .empty).active = true → ¬ Holds msgs done (slots.getD k .empty) m := by
      intro k act holds
      have below : k < idaMaxReassembly := inv.size ▸ lt_length_of_active act
      have matched := idaMatches_of_holds holds act burst arrived
      rw [idaMatch_none found below] at matched
      cases matched
    rw [idaReassemble_orphan slots burst.crc len found ctr]
    exact ⟨inv.skip absent, by rintro call ⟨⟩⟩
  | some i =>
    obtain ⟨below, matched⟩ := idaMatch_some found
    have holds := holds_of_idaMatches exclusive inv burst next matched
    have act := active_of_idaMatches matched
    have inside : i < slots.length := by rw [inv.size]; exact below
    -- another active slot holds another message: two slots of `m` would be near
    have others : ∀ k, k ≠ i → (slots.getD k .empty).active = true →
        ∃ m', Holds msgs (done ++ [some (m, j + 1)]) (slots.getD k .empty) m' := by
      intro k other busy
      obtain ⟨m', holds'⟩ := inv.owned k busy
      have differ : m' ≠ m := by
        rintro rfl
        exact inv.apart k i other busy act ((near_iff_clash holds' holds).mpr (clash_self m'))
      exact ⟨m', holds_other holds' (by simp [Ne.symm differ])⟩
    -- at most eight bursts of at most 20 bytes fit in the 256 bytes of a slot
    have fits : (slots.getD i .empty).data.length + b.daLen ≤ 256 := by
      have filled := Slots.length_flatten_take_le (fun p mem => ((msgs m).sized p mem).2) (j + 1)
      have piece := (payload_sized bound).2
      rw [holds.data, ← arrived, burst.len]
      omega
    have appended : (idaAppend (slots.getD i .empty) b).data = ((msgs m).payloads.take (j + 2)).flatten := by
      rw [idaAppend_data fits, holds.data, ← arrived, burst.bytes, ← Slots.flatten_take_succ bound]
    rw [idaReassemble_append slots burst.crc len found, burst.cont]
    by_cases more : j + 2 < packets msgs m
    · -- a middle burst: the slot now holds one more burst of `m`
      rw [if_pos (by simpa using more)]
      have grown : Holds msgs (done ++ [some (m, j + 1)]) (idaAppend (slots.getD i .empty) b) m :=
        ⟨⟨by omega, by omega⟩, holds.direction, holds.frequency, by rw [idaAppend_lastCtr, burst.ctr, now]; omega,
          by rw [idaAppend_lastTimestamp, burst.time, now]; rfl, by rw [appended, now]⟩
      refine ⟨⟨by simp [inv.size], fun k busy => ?_, inv.apart.of_le fun k busy => ?_⟩, by rintro call ⟨⟩⟩
      · rw [Slots.getD_set _ inside] at busy ⊢
        split
        · exact ⟨m, grown⟩
        · rename_i other
          rw [if_neg other] at busy
          exact others k other busy
      · rw [Slots.getD_set _ inside] at busy ⊢
        split
        · rename_i atSlot
          subst atSlot
          exact ⟨act, rfl, rfl⟩
        · rename_i other
          rw [if_neg other] at busy
          exact ⟨busy, rfl, rfl⟩
    · -- the last burst: the slot is handed on and freed
      have complete : j + 2 = packets msgs m := by omega
      rw [if_neg (by simpa using more)]
      refine ⟨⟨by simp [inv.size], fun k busy => ?_, inv.apart.of_le fun k busy => ?_⟩, ?_⟩
      · rw [Slots.getD_set _ inside] at busy ⊢
        split at busy
        · cases busy
        · rename_i other
          rw [if_neg other]
          exact others k other busy
      · rw [Slots.getD_set _ inside] at busy ⊢
        split at busy
        · cases busy
        · rename_i other
          rw [if_neg other]
          exact ⟨busy, rfl, rfl⟩
      · rintro call ⟨⟩
        refine ⟨?_, holds.direction, holds.frequency⟩
        rw [appended, complete, packets, List.take_length]

theorem reassembling_step {a : Option (Nat × Nat)} {call : IdaCall K}
    (exclusive : Exclusive (packets msgs) (Clash msgs) done) (inv : Reassembling msgs done slots)
    (carried : Carries msgs a call) (next : Next (packets msgs) (Clash msgs) done a) :
    Reassembling msgs (done ++ [a]) (idaStep slots call).1 ∧
      ∀ cb, (idaStep slots call).2 = some cb → ∃ m, Whole msgs cb m := by
  cases a with
  | none =>
    cases call with
    | reassemble b =>
      rw [idaStep, idaReassemble_ignored slots carried]
      exact ⟨inv.other, by rintro cb ⟨⟩⟩
    | flush now => exact ⟨(inv.flush now).other, by rintro cb ⟨⟩⟩
  | some packet =>
    obtain ⟨m, j⟩ := packet
    cases call with
    | flush now => exact False.elim carried
    | reassemble b =>
      -- the burst's index decides between a first and a later burst
      cases j with
      | zero =>
        obtain ⟨kept, made⟩ := reassembling_first exclusive inv carried next
        exact ⟨kept, fun cb given => ⟨m, made cb given⟩⟩
      | succ j =>
        obtain ⟨kept, made⟩ := reassembling_continue exclusive inv carried next
        exact ⟨kept, fun cb given => ⟨m, made cb given⟩⟩

end Burst

section Run

variable [Ring K] [LinearOrder K] [IsStrictOrderedRing K]

/-- Every callback along an ordered trace, from any table that satisfies the
invariant. -/
theorem reassembling_run (trace : List (Option (Nat × Nat) × IdaCall K)) :
    ∀ {done : List (Option (Nat × Nat))} {slots : List (IdaReassembly K)},
      Exclusive (packets msgs) (Clash msgs) done → Reassembling msgs done slots →
      (∀ x ∈ trace, Carries msgs x.1 x.2) → Ordered (packets msgs) (Clash msgs) done (trace.map Prod.fst) →
      ∀ cb ∈ (idaRun slots (trace.map Prod.snd)).2, ∃ m, Whole msgs cb m := by
  induction trace with
  | nil =>
    intro done slots _ _ _ _ cb member
    simp [idaRun] at member
  | cons x rest ih =>
    intro done slots exclusive inv carried ordered cb member
    obtain ⟨next, later⟩ := ordered
    obtain ⟨kept, made⟩ := reassembling_step exclusive inv (carried x (by simp)) next
    simp only [List.map_cons, idaRun, List.mem_append, Option.mem_toList] at member
    rcases member with now | after
    · exact made cb now
    · exact ih (exclusive_next (fun _ _ => clash_symm) exclusive next) kept
        (fun y mem => carried y (by simp [mem])) later cb after

/-- From a zero-initialised `ida_context_t`, while no burst of a message is
lost and messages in flight in one direction lie more than 520 Hz apart,
every callback hands on one whole message: the payloads of its bursts in
counter order, in its direction, at the frequency of its first burst. -/
theorem ida_reassembly_whole_messages (msgs : Nat → SentMessage K)
    (trace : List (Option (Nat × Nat) × IdaCall K)) (carried : ∀ x ∈ trace, Carries msgs x.1 x.2)
    (ordered : Ordered (packets msgs) (Clash msgs) [] (trace.map Prod.fst)) :
    ∀ cb ∈ (idaRun idaInit (trace.map Prod.snd)).2, ∃ m, Whole msgs cb m :=
  reassembling_run trace exclusive_nil reassembling_init carried ordered

end Run

/-- A downlink burst at 1000 Hz with a CRC that checks and one payload byte. -/
def oneByteBurst (timestamp daCtr : Nat) (cont : Bool) (byte : UInt8) : IdaBurst ℤ :=
  ⟨timestamp, 1000, .downlink, daCtr, 1, cont, [byte], true⟩

/-- A downlink message of two one-byte bursts 10 ms apart. -/
def twoBursts : SentMessage ℤ where
  direction := .downlink
  frequency := 1000
  payloads := [[0xA0], [0xA1]]
  times := [0, 10000000]
  short := by decide
  sized := by decide
  gaps := by
    intro j inside
    obtain rfl : j = 0 := by simp at inside; omega
    decide

/-- The two bursts of `twoBursts`, each followed by a flush at its time, as
the main loop calls them. -/
def twoBurstTrace : List (Option (Nat × Nat) × IdaCall ℤ) :=
  [(some (0, 0), .reassemble (oneByteBurst 0 0 true 0xA0)), (none, .flush 0),
    (some (0, 1), .reassemble (oneByteBurst 10000000 1 false 0xA1)), (none, .flush 10000000)]

theorem ida_reassembly_whole_messages_two_bursts :
    (∀ x ∈ twoBurstTrace, Carries (fun _ => twoBursts) x.1 x.2) ∧
      Ordered (packets fun _ => twoBursts) (Clash fun _ => twoBursts) [] (twoBurstTrace.map Prod.fst) ∧
      (idaRun idaInit (twoBurstTrace.map Prod.snd)).2 = [⟨[0xA0, 0xA1], 10000000, 1000, .downlink⟩] ∧
      ∀ cb ∈ (idaRun idaInit (twoBurstTrace.map Prod.snd)).2, Whole (fun _ => twoBursts) cb 0 := by
  have first : BurstOf (fun _ => twoBursts) 0 0 (oneByteBurst 0 0 true 0xA0) :=
    ⟨rfl, rfl, rfl, rfl, by decide, rfl, rfl, fun _ => rfl, by decide⟩
  have second : BurstOf (fun _ => twoBursts) 0 1 (oneByteBurst 10000000 1 false 0xA1) :=
    ⟨rfl, rfl, rfl, rfl, by decide, rfl, rfl, by decide, by decide⟩
  have carried : ∀ x ∈ twoBurstTrace, Carries (fun _ => twoBursts) x.1 x.2 := by
    simp only [twoBurstTrace, List.mem_cons, List.not_mem_nil, or_false, forall_eq_or_imp, forall_eq]
    exact ⟨first, trivial, second, trivial⟩
  -- nothing is in flight before the first burst
  have ordered : Ordered (packets fun _ => twoBursts) (Clash fun _ => twoBursts) []
      (twoBurstTrace.map Prod.fst) :=
    ⟨⟨rfl, by decide, fun _ _ _ _ opened => absurd opened.1 (by simp)⟩, trivial,
      ⟨rfl, by decide, fun later => absurd later (by decide)⟩, trivial, trivial⟩
  refine ⟨carried, ordered, by decide, fun cb member => ?_⟩
  obtain ⟨_, whole⟩ := ida_reassembly_whole_messages (fun _ => twoBursts) twoBurstTrace carried ordered
    cb member
  exact whole

/-- A downlink message of three bursts loses its last two; the next message on
the same channel opens slot 1, but its second burst continues slot 0, which
still waits for counter 1, and the message handed on is a splice of the two. -/
theorem ida_reassembly_splices_after_loss :
    (idaRun idaInit [.reassemble (oneByteBurst 0 0 true 0x10), .flush 0,
      .reassemble (oneByteBurst 10000000 0 true 0x20), .flush 10000000,
      .reassemble (oneByteBurst 20000000 1 true 0x21), .flush 20000000,
      .reassemble (oneByteBurst 30000000 2 false 0x22), .flush 30000000]).2 =
      [⟨[0x10, 0x21, 0x22], 30000000, 1000, .downlink⟩] := by
  decide

end Ida

end IridiumSniffer
