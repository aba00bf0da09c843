import Mathlib
import IridiumSniffer.Lib.Arrivals
import IridiumSniffer.Lib.Slots

/-! Multi-packet SBD reassembly in `sbd_acars.c`. `sbd_extract` parses the SBD
header of an IDA message into a message number, a message count and a payload,
expires stale slots of the static table `sbd_multi`, and then either passes a
short or single-packet payload on, opens a slot for the first packet of a
multi-packet message, or appends a continuation packet to the last slot (from
index 7 down) in the same direction whose message number it continues.

Continuations are matched by direction and number only. Two multi-packet
messages in flight in the same direction can therefore exchange packets; with
at most one message in flight per direction every buffer handed on from a slot
is the concatenation of one message's packets, truncated to the slot size. -/
namespace IridiumSniffer.Sbd

open Arrivals

def sbdMaxMulti : Nat := 8

def sbdMaxData : Nat := 1024

def sbdTimeoutNs : Nat := 5000000000

/-- `sbd_multi_t` without `frequency` and `magnitude`, which are only passed on;
`data` holds the first `data_len` bytes. -/
structure SbdMulti where
  active : Bool
  msgno : Int
  msgcnt : Int
  ul : Bool
  timestamp : Nat
  data : List UInt8
deriving DecidableEq, Repr

/-- A zeroed slot. -/
def SbdMulti.empty : SbdMulti := ⟨false, 0, 0, false, 0, []⟩

/-- `sbd_multi` after the `memset` of `acars_init`. -/
def sbdInit : List SbdMulti := List.replicate sbdMaxMulti SbdMulti.empty

/-- One slot in the loop of `sbd_expire`; `timestamp + SBD_TIMEOUT_NS` is a
`uint64_t` sum. -/
def sbdExpireSlot (nowNs : Nat) (s : SbdMulti) : SbdMulti :=
  if s.active && decide (nowNs > (s.timestamp + sbdTimeoutNs) % 2 ^ 64) then { s with active := false }
  else s

def sbdExpire (nowNs : Nat) (slots : List SbdMulti) : List SbdMulti :=
  slots.map (sbdExpireSlot nowNs)

/-- The SBD markers in the first bytes of an IDA message. -/
def isSbd (data : List UInt8) (ul : Bool) : Bool :=
  let typ0 := data.getD 0 0
  let typ1 := data.getD 1 0
  if typ0 == 0x76 && typ1 != 5 then
    if ul then decide (0x0c ≤ typ1) && decide (typ1 ≤ 0x0e)
    else decide (0x08 ≤ typ1) && decide (typ1 ≤ 0x0b)
  else if typ0 == 0x06 && typ1 == 0x00 then
    [0x00, 0x10, 0x20, 0x40, 0x50, 0x70].contains (data.getD 2 0)
  else false

/-- What `sbd_extract` takes from a packet before it looks at the slots. -/
structure SbdPacket where
  msgno : Int
  msgcnt : Int
  payload : List UInt8
deriving DecidableEq, Repr

/-- The end of the header after the pre-header and the uplink prefix: a `0x10`
packet header with its length and number, or a short message. -/
def sbdBody (data : List UInt8) : Option (Int × List UInt8) :=
  if data.length = 0 then some (0, [])
  else if data.length > 3 && data.getD 0 0 == 0x10 then
    let pktLen := (data.getD 1 0).toNat
    let rest := data.drop 3
    if rest.length < pktLen then none
    else some ((data.getD 2 0).toNat, rest.take pktLen)
  else some (0, data)

/-- The parsing part of `sbd_extract`: none at each of its early returns. -/
def sbdParse (data : List UInt8) (ul : Bool) : Option SbdPacket :=
  if data.length < 5 || !isSbd data ul then none
  else
    let typ0 := data.getD 0 0
    let typ1 := data.getD 1 0
    let data := data.drop 2
    if typ0 == 0x06 && typ1 == 0x00 then
      if data.length < 30 || data.getD 0 0 != 0x20 then none
      else
        let msgcnt : Int := (data.getD 15 0).toNat
        some ⟨if msgcnt = 0 then 0 else 1, msgcnt, data.drop 29⟩
    else do
      -- only the first packet type `0x08` carries the message count, in a pre-header
      let (msgcnt, data) ← if typ1 == 0x08 then
          if data.length < 5 then none
          else
            let prehdrLen := if data.getD 0 0 == 0x26 then 7 else if data.getD 0 0 == 0x20 then 5 else 7
            if data.length < prehdrLen then none
            else some (((data.getD 3 0).toNat : Int), data.drop prehdrLen)
        else some (-1, data)
      let data := if ul && decide (data.length ≥ 3) && (data.getD 0 0 == 0x50 || data.getD 0 0 == 0x51)
        then data.drop 3 else data
      let (msgno, payload) ← sbdBody data
      some ⟨msgno, msgcnt, payload⟩

/-- The three paths on which `sbd_extract` calls `sbd_process`. -/
inductive SbdPath where
  | short
  | single
  | multi
deriving DecidableEq, Repr

/-- A call of `sbd_process`: its path, the bytes, the direction and the time. -/
structure SbdCall where
  path : SbdPath
  data : List UInt8
  ul : Bool
  timestamp : Nat
deriving DecidableEq, Repr

/-- The slot a first packet takes: the first inactive one, else the first with
the least timestamp below `UINT64_MAX`, else slot 0. -/
def sbdSlotFor (slots : List SbdMulti) : Nat :=
  match (List.range sbdMaxMulti).find? (fun i => !(slots.getD i .empty).active) with
  | some i => i
  | none =>
    ((List.range sbdMaxMulti).foldl
      (fun (best : Option Nat × Nat) i =>
        if (slots.getD i .empty).timestamp < best.2 then (some i, (slots.getD i .empty).timestamp) else best)
      (none, 2 ^ 64 - 1)).1.getD 0

/-- The slot a continuation packet goes to: from index 7 down, the first active
slot in the same direction whose `msgno` it continues. -/
def sbdMatch (slots : List SbdMulti) (ul : Bool) (msgno : Int) : Option Nat :=
  (List.range sbdMaxMulti).reverse.find? fun i =>
    let s := slots.getD i .empty
    s.active && s.ul == ul && msgno == s.msgno + 1

/-- A continuation appended to a slot, cut at `SBD_MAX_DATA` bytes. -/
def sbdAppend (s : SbdMulti) (msgno : Int) (timestamp : Nat) (payload : List UInt8) : SbdMulti :=
  let space := sbdMaxData - s.data.length
  let copy := if payload.length > space then space else payload.length
  { s with data := s.data ++ payload.take copy, msgno := msgno, timestamp := timestamp }

/-- The first packet of a multi-packet message opens a slot. -/
def sbdStart (slots : List SbdMulti) (ul : Bool) (timestamp : Nat) (pkt : SbdPacket) : List SbdMulti :=
  slots.set (sbdSlotFor slots) ⟨true, pkt.msgno, pkt.msgcnt, ul, timestamp, pkt.payload.take sbdMaxData⟩

/-- A continuation packet: appended to the matching slot, which is handed to
`sbd_process` and freed when the packet is the last. -/
def sbdContinue (slots : List SbdMulti) (ul : Bool) (timestamp : Nat) (pkt : SbdPacket) :
    List SbdMulti × Option SbdCall :=
  match sbdMatch slots ul pkt.msgno with
  | none => (slots, none)
  | some i =>
    let s := sbdAppend (slots.getD i .empty) pkt.msgno timestamp pkt.payload
    if pkt.msgno = s.msgcnt then
      (slots.set i { s with active := false }, some ⟨.multi, s.data, ul, timestamp⟩)
    else (slots.set i s, none)

/-- The part of `sbd_extract` after parsing: expiry, then the four paths. -/
def sbdDispatch (slots : List SbdMulti) (ul : Bool) (timestamp : Nat) (pkt : SbdPacket) :
    List SbdMulti × Option SbdCall :=
  let slots := sbdExpire timestamp slots
  if pkt.msgno = 0 then
    (slots, if pkt.payload.length > 0 then some ⟨.short, pkt.payload, ul, timestamp⟩ else none)
  else if pkt.msgcnt = 1 ∧ pkt.msgno = 1 then
    (slots, some ⟨.single, pkt.payload, ul, timestamp⟩)
  else if pkt.msgcnt > 1 then (sbdStart slots ul timestamp pkt, none)
  else if pkt.msgno > 1 then sbdContinue slots ul timestamp pkt
  else (slots, none)

def sbdExtract (slots : List SbdMulti) (data : List UInt8) (ul : Bool) (timestamp : Nat) :
    List SbdMulti × Option SbdCall :=
  match sbdParse data ul with
  | none => (slots, none)
  | some pkt => sbdDispatch slots ul timestamp pkt

/-- An IDA message as `acars_ida_cb` receives it, without frequency and magnitude. -/
structure IdaMessage where
  data : List UInt8
  timestamp : Nat
  uplink : Bool
deriving DecidableEq, Repr

def acarsIdaCb (slots : List SbdMulti) (msg : IdaMessage) : List SbdMulti × Option SbdCall :=
  sbdExtract slots msg.data msg.uplink msg.timestamp

/-- A sequence of IDA messages: the final slots and every call of `sbd_process`. -/
def acarsRun : List SbdMulti → List IdaMessage → List SbdMulti × List SbdCall
  | slots, [] => (slots, [])
  | slots, msg :: rest =>
    let step := acarsIdaCb slots msg
    let run := acarsRun step.1 rest
    (run.1, step.2.toList ++ run.2)

/-! ### The slot table -/

@[simp] theorem sbdExpireSlot_ul (now : Nat) (s : SbdMulti) : (sbdExpireSlot now s).ul = s.ul := by
  unfold sbdExpireSlot; split <;> rfl

@[simp] theorem sbdExpireSlot_msgno (now : Nat) (s : SbdMulti) : (sbdExpireSlot now s).msgno = s.msgno := by
  unfold sbdExpireSlot; split <;> rfl

@[simp] theorem sbdExpireSlot_msgcnt (now : Nat) (s : SbdMulti) : (sbdExpireSlot now s).msgcnt = s.msgcnt := by
  unfold sbdExpireSlot; split <;> rfl

@[simp] theorem sbdExpireSlot_data (now : Nat) (s : SbdMulti) : (sbdExpireSlot now s).data = s.data := by
  unfold sbdExpireSlot; split <;> rfl

theorem active_of_sbdExpireSlot {now : Nat} {s : SbdMulti} (act : (sbdExpireSlot now s).active = true) :
    s.active = true := by
  unfold sbdExpireSlot at act
  split at act
  · simp at act
  · exact act

@[simp] theorem length_sbdExpire (now : Nat) (slots : List SbdMulti) :
    (sbdExpire now slots).length = slots.length := by
  simp [sbdExpire]

theorem getD_sbdExpire (now : Nat) (slots : List SbdMulti) (i : Nat) :
    (sbdExpire now slots).getD i .empty = sbdExpireSlot now (slots.getD i .empty) := by
  have fixed : sbdExpireSlot now .empty = .empty := by simp [sbdExpireSlot, SbdMulti.empty]
  calc (sbdExpire now slots).getD i .empty
      = (slots.map (sbdExpireSlot now)).getD i (sbdExpireSlot now .empty) := by rw [fixed]; rfl
    _ = sbdExpireSlot now (slots.getD i .empty) := List.getD_map slots .empty (sbdExpireSlot now)

@[simp] theorem sbdAppend_active (s : SbdMulti) (msgno : Int) (ts : Nat) (payload : List UInt8) :
    (sbdAppend s msgno ts payload).active = s.active := rfl

@[simp] theorem sbdAppend_ul (s : SbdMulti) (msgno : Int) (ts : Nat) (payload : List UInt8) :
    (sbdAppend s msgno ts payload).ul = s.ul := rfl

@[simp] theorem sbdAppend_msgno (s : SbdMulti) (msgno : Int) (ts : Nat) (payload : List UInt8) :
    (sbdAppend s msgno ts payload).msgno = msgno := rfl

@[simp] theorem sbdAppend_msgcnt (s : SbdMulti) (msgno : Int) (ts : Nat) (payload : List UInt8) :
    (sbdAppend s msgno ts payload).msgcnt = s.msgcnt := rfl

theorem lt_length_of_active {slots : List SbdMulti} {k : Nat} (act : (slots.getD k .empty).active = true) :
    k < slots.length := by
  by_contra outside
  rw [List.getD_eq_default _ _ (by omega)] at act
  cases act

/-- Active slots lie in different directions. -/
def Apart (slots : List SbdMulti) : Prop :=
  ∀ i k, i < k → k < sbdMaxMulti → (slots.getD i .empty).active = true →
    (slots.getD k .empty).active = true → (slots.getD i .empty).ul ≠ (slots.getD k .empty).ul

theorem Apart.of_le {old new : List SbdMulti} (apart : Apart old)
    (le : ∀ k, (new.getD k .empty).active = true →
      (old.getD k .empty).active = true ∧ (new.getD k .empty).ul = (old.getD k .empty).ul) :
    Apart new := by
  intro i k order below first second
  obtain ⟨wasFirst, sameFirst⟩ := le i first
  obtain ⟨wasSecond, sameSecond⟩ := le k second
  rw [sameFirst, sameSecond]
  exact apart i k order below wasFirst wasSecond

/-- With active slots in different directions, at most two are active, and one
of the first three is free. -/
theorem exists_inactive {slots : List SbdMulti} (apart : Apart slots) :
    ∃ i < sbdMaxMulti, (slots.getD i .empty).active = false := by
  by_contra busy
  have active : ∀ i < sbdMaxMulti, (slots.getD i .empty).active = true := by
    intro i below
    cases state : (slots.getD i .empty).active
    · exact absurd ⟨i, below, state⟩ busy
    · rfl
  have first := apart 0 1 (by decide) (by decide) (active 0 (by decide)) (active 1 (by decide))
  have second := apart 0 2 (by decide) (by decide) (active 0 (by decide)) (active 2 (by decide))
  have third := apart 1 2 (by decide) (by decide) (active 1 (by decide)) (active 2 (by decide))
  revert first second third
  cases (slots.getD 0 .empty).ul <;> cases (slots.getD 1 .empty).ul <;> cases (slots.getD 2 .empty).ul <;> simp

theorem sbdSlotFor_inactive {slots : List SbdMulti} (free : ∃ i < sbdMaxMulti, (slots.getD i .empty).active = false) :
    sbdSlotFor slots < sbdMaxMulti ∧ (slots.getD (sbdSlotFor slots) .empty).active = false := by
  obtain ⟨i, below, inactive⟩ := free
  unfold sbdSlotFor
  split
  · rename_i k found
    have chosen := List.find?_some found
    simp only [Bool.not_eq_eq_eq_not, Bool.not_true] at chosen
    exact ⟨List.mem_range.mp (List.mem_of_find?_eq_some found), chosen⟩
  · rename_i missing
    have skipped := List.find?_eq_none.mp missing i (List.mem_range.mpr below)
    rw [inactive] at skipped
    exact absurd rfl skipped

theorem sbdMatch_some {slots : List SbdMulti} {ul : Bool} {msgno : Int} {i : Nat}
    (found : sbdMatch slots ul msgno = some i) :
    i < sbdMaxMulti ∧ (slots.getD i .empty).active = true ∧ (slots.getD i .empty).ul = ul ∧
      msgno = (slots.getD i .empty).msgno + 1 := by
  have chosen := List.find?_some found
  have member := List.mem_of_find?_eq_some found
  simp only [Bool.and_eq_true, beq_iff_eq] at chosen
  exact ⟨by simpa using member, chosen.1.1, chosen.1.2, chosen.2⟩

theorem sbdMatch_none {slots : List SbdMulti} {ul : Bool} {msgno : Int} (missing : sbdMatch slots ul msgno = none)
    {i : Nat} (below : i < sbdMaxMulti) (act : (slots.getD i .empty).active = true)
    (same : (slots.getD i .empty).ul = ul) : msgno ≠ (slots.getD i .empty).msgno + 1 := by
  have skipped := List.find?_eq_none.mp missing i (by simpa using below)
  simp only [act, same, beq_self_eq_true, Bool.true_and, beq_iff_eq] at skipped
  exact skipped

theorem take_append_capped (earlier payload : List UInt8) :
    (earlier.take sbdMaxData) ++ payload.take
      (if payload.length > sbdMaxData - (earlier.take sbdMaxData).length then
        sbdMaxData - (earlier.take sbdMaxData).length else payload.length) =
      (earlier ++ payload).take sbdMaxData := by
  have room : sbdMaxData - (earlier.take sbdMaxData).length = sbdMaxData - earlier.length := by
    simp only [List.length_take]
    omega
  rw [List.take_append, room]
  split
  · rfl
  · rename_i fits
    congr 1
    rw [List.take_length, List.take_of_length_le (by omega)]

/-! ### Messages in flight

A trace labels each IDA message with the packet it carries: packet `j` (from 0)
of message `m`, or none for a packet that neither opens nor continues a slot. -/

/-- A multi-packet SBD message: its direction and the payloads of its packets. -/
structure SbdMessage where
  ul : Bool
  payloads : List (List UInt8)
  multi : 1 < payloads.length

/-- Packets of message `m`. -/
def packets (msgs : Nat → SbdMessage) (m : Nat) : Nat := (msgs m).payloads.length

/-- Messages in the same direction compete for the same continuations. -/
def SameDirection (msgs : Nat → SbdMessage) (m m' : Nat) : Prop := (msgs m).ul = (msgs m').ul

/-- What the IDA message `msg` carries. Packet `j` of `m` parses to number
`j + 1`, the payload of packet `j`, and the message's packet count on the first
packet but a count of at most one on the others; any other IDA message parses
to nothing or to number and count at most one. -/
def Carries (msgs : Nat → SbdMessage) : Option (Nat × Nat) → IdaMessage → Prop
  | none, msg => ∀ pkt, sbdParse msg.data msg.uplink = some pkt → pkt.msgno ≤ 1 ∧ pkt.msgcnt ≤ 1
  | some (m, j), msg => msg.uplink = (msgs m).ul ∧ ∃ pkt, sbdParse msg.data msg.uplink = some pkt ∧
      pkt.msgno = j + 1 ∧ pkt.payload = (msgs m).payloads.getD j [] ∧
      (if j = 0 then pkt.msgcnt = packets msgs m else pkt.msgcnt ≤ 1)

/-! ### The invariant of the slot table -/

/-- Slot `s` holds the packets of message `m` received so far. -/
def Holds (msgs : Nat → SbdMessage) (done : List (Option (Nat × Nat))) (s : SbdMulti) (m : Nat) : Prop :=
  Open (packets msgs) done m ∧ (msgs m).ul = s.ul ∧ s.msgno = received m done ∧
    s.msgcnt = packets msgs m ∧
    s.data = (((msgs m).payloads.take (received m done)).flatten).take sbdMaxData

/-- Every active slot holds a message in flight, in a direction of its own. -/
structure Reassembling (msgs : Nat → SbdMessage) (done : List (Option (Nat × Nat)))
    (slots : List SbdMulti) : Prop where
  size : slots.length = sbdMaxMulti
  owned : ∀ k, (slots.getD k .empty).active = true → ∃ m, Holds msgs done (slots.getD k .empty) m
  apart : Apart slots

section Invariant

variable {msgs : Nat → SbdMessage}

theorem holds_other {done : List (Option (Nat × Nat))} {s : SbdMulti} {m : Nat} {a : Option (Nat × Nat)}
    (holds : Holds msgs done s m) (other : a.map Prod.fst ≠ some m) : Holds msgs (done ++ [a]) s m := by
  simpa only [Holds, Open, received_other other] using holds

theorem reassembling_init : Reassembling msgs [] sbdInit := by
  have empty : ∀ k, sbdInit.getD k .empty = .empty := by
    intro k
    simp only [sbdInit, List.getD_eq_getElem?_getD, List.getElem?_replicate]
    split <;> rfl
  refine ⟨rfl, fun k act => ?_, fun i k _ _ act => ?_⟩
  · rw [empty] at act
    cases act
  · rw [empty] at act
    cases act

theorem Reassembling.expire {done : List (Option (Nat × Nat))} {slots : List SbdMulti}
    (inv : Reassembling msgs done slots) (now : Nat) : Reassembling msgs done (sbdExpire now slots) := by
  refine ⟨by simp [inv.size], fun k act => ?_, inv.apart.of_le fun k act => ?_⟩
  · rw [getD_sbdExpire] at act ⊢
    obtain ⟨m, holds⟩ := inv.owned k (active_of_sbdExpireSlot act)
    exact ⟨m, by simpa [Holds] using holds⟩
  · rw [getD_sbdExpire] at act ⊢
    exact ⟨active_of_sbdExpireSlot act, by simp⟩

theorem Reassembling.other {done : List (Option (Nat × Nat))} {slots : List SbdMulti}
    (inv : Reassembling msgs done slots) : Reassembling msgs (done ++ [none]) slots := by
  refine ⟨inv.size, fun k act => ?_, inv.apart⟩
  obtain ⟨m, holds⟩ := inv.owned k act
  exact ⟨m, holds_other holds (by simp)⟩

end Invariant

/-! ### One packet -/

theorem sbdDispatch_quiet (slots : List SbdMulti) (ul : Bool) (ts : Nat) {pkt : SbdPacket}
    (number : pkt.msgno ≤ 1) (count : pkt.msgcnt ≤ 1) :
    (sbdDispatch slots ul ts pkt).1 = sbdExpire ts slots ∧
      ∀ call, (sbdDispatch slots ul ts pkt).2 = some call → call.path ≠ .multi := by
  unfold sbdDispatch
  dsimp only
  split_ifs
  · exact ⟨rfl, by rintro call ⟨⟩; simp⟩
  · exact ⟨rfl, by rintro call ⟨⟩⟩
  · exact ⟨rfl, by rintro call ⟨⟩; simp⟩
  · omega
  · omega
  · exact ⟨rfl, by rintro call ⟨⟩⟩

theorem sbdDispatch_first (slots : List SbdMulti) (ul : Bool) (ts : Nat) {pkt : SbdPacket}
    (number : pkt.msgno ≠ 0) (count : 1 < pkt.msgcnt) :
    sbdDispatch slots ul ts pkt = (sbdStart (sbdExpire ts slots) ul ts pkt, none) := by
  unfold sbdDispatch
  dsimp only
  rw [if_neg number, if_neg (by omega), if_pos count]

theorem sbdDispatch_continue (slots : List SbdMulti) (ul : Bool) (ts : Nat) {pkt : SbdPacket}
    (number : 1 < pkt.msgno) (count : pkt.msgcnt ≤ 1) :
    sbdDispatch slots ul ts pkt = sbdContinue (sbdExpire ts slots) ul ts pkt := by
  unfold sbdDispatch
  dsimp only
  rw [if_neg (by omega), if_neg (by omega), if_neg (by omega), if_pos number]

section Step

variable {msgs : Nat → SbdMessage} {done : List (Option (Nat × Nat))} {slots : List SbdMulti}

/-- The first packet of `m` opens a free slot: its direction has no active slot,
since no other message is in flight there. -/
theorem reassembling_start {m : Nat} {ul : Bool} {ts : Nat} {pkt : SbdPacket}
    (inv : Reassembling msgs done slots) (fresh : received m done = 0)
    (alone : ∀ m', m' ≠ m → SameDirection msgs m m' → ¬ Open (packets msgs) done m')
    (direction : ul = (msgs m).ul) (number : pkt.msgno = 1)
    (count : pkt.msgcnt = packets msgs m) (payload : pkt.payload = (msgs m).payloads.getD 0 []) :
    Reassembling msgs (done ++ [some (m, 0)]) (sbdStart slots ul ts pkt) := by
  obtain ⟨below, inactive⟩ := sbdSlotFor_inactive (exists_inactive inv.apart)
  have inside : sbdSlotFor slots < slots.length := by rw [inv.size]; exact below
  have now : received m (done ++ [some (m, 0)]) = 1 := by simp [fresh]
  -- a slot active before belongs to another message, in another direction
  have before : ∀ k, (slots.getD k .empty).active = true →
      ∃ m', m' ≠ m ∧ Holds msgs done (slots.getD k .empty) m' ∧ (slots.getD k .empty).ul ≠ ul := by
    intro k act
    obtain ⟨m', holds⟩ := inv.owned k act
    have other : m' ≠ m := fun same => by
      have opened := holds.1.1
      rw [same, fresh] at opened
      exact absurd opened (Nat.lt_irrefl 0)
    exact ⟨m', other, holds, fun same => alone m' other (direction ▸ same ▸ holds.2.1).symm holds.1⟩
  have opened : Holds msgs (done ++ [some (m, 0)])
      ⟨true, pkt.msgno, pkt.msgcnt, ul, ts, pkt.payload.take sbdMaxData⟩ m := by
    refine ⟨⟨by omega, by rw [now]; exact (msgs m).multi⟩, direction.symm, by rw [now, number]; rfl,
      count, ?_⟩
    rw [now, Slots.flatten_take_one, payload]
  unfold sbdStart
  refine ⟨by simp [inv.size], fun k act => ?_, fun i k order bound first second => ?_⟩
  · rw [Slots.getD_set _ inside] at act ⊢
    split
    · exact ⟨m, opened⟩
    · rename_i other
      rw [if_neg other] at act
      obtain ⟨m', differ, holds, -⟩ := before k act
      exact ⟨m', holds_other holds (by simp [Ne.symm differ])⟩
  · rw [Slots.getD_set _ inside] at first second ⊢
    rw [Slots.getD_set _ inside]
    by_cases atFirst : i = sbdSlotFor slots
    · have other : k ≠ sbdSlotFor slots := by omega
      rw [if_pos atFirst]
      rw [if_neg other] at second ⊢
      exact fun same => (before k second).choose_spec.2.2 same.symm
    · rw [if_neg atFirst] at first ⊢
      by_cases atSecond : k = sbdSlotFor slots
      · rw [if_pos atSecond]
        exact (before i first).choose_spec.2.2
      · rw [if_neg atSecond] at second ⊢
        exact inv.apart i k order bound first second

/-- A continuation of `m` goes to the slot holding `m`, the only active slot in
its direction, unless that slot has expired. -/
theorem reassembling_continue {m j : Nat} {ul : Bool} {ts : Nat} {pkt : SbdPacket}
    (exclusive : Exclusive (packets msgs) (SameDirection msgs) done) (inv : Reassembling msgs done slots)
    (count : received m done = j + 1) (bound : j + 1 < packets msgs m)
    (direction : ul = (msgs m).ul) (number : pkt.msgno = j + 2)
    (payload : pkt.payload = (msgs m).payloads.getD (j + 1) []) :
    Reassembling msgs (done ++ [some (m, j + 1)]) (sbdContinue slots ul ts pkt).1 ∧
      ∀ call, (sbdContinue slots ul ts pkt).2 = some call →
        call.data = ((msgs m).payloads.flatten).take sbdMaxData := by
  have running : Open (packets msgs) done m := ⟨by omega, by omega⟩
  have now : received m (done ++ [some (m, j + 1)]) = j + 2 := by simp [count]
  -- an active slot in this direction holds `m`; one in the other direction is untouched
  have mine : ∀ k, (slots.getD k .empty).active = true → (slots.getD k .empty).ul = ul →
      Holds msgs done (slots.getD k .empty) m := by
    intro k act same
    obtain ⟨m', holds⟩ := inv.owned k act
    have equal : m' = m := exclusive m' m holds.1 running (holds.2.1.trans (same.trans direction))
    exact equal ▸ holds
  have others : ∀ k, (slots.getD k .empty).active = true → (slots.getD k .empty).ul ≠ ul →
      ∃ m', Holds msgs (done ++ [some (m, j + 1)]) (slots.getD k .empty) m' := by
    intro k act differ
    obtain ⟨m', holds⟩ := inv.owned k act
    have other : m' ≠ m := fun same => differ (by rw [← holds.2.1, same, direction])
    exact ⟨m', holds_other holds (by simp [Ne.symm other])⟩
  unfold sbdContinue
  split
  · -- no slot continues: the slot of `m` has expired, and nothing changes
    rename_i missing
    refine ⟨⟨inv.size, fun k act => ?_, inv.apart⟩, by rintro call ⟨⟩⟩
    by_cases same : (slots.getD k .empty).ul = ul
    · have holds := mine k act same
      have below : k < sbdMaxMulti := inv.size ▸ lt_length_of_active act
      refine absurd ?_ (sbdMatch_none missing below act same)
      rw [number, holds.2.2.1, count]
      omega
    · exact others k act same
  · rename_i i found
    obtain ⟨below, act, same, -⟩ := sbdMatch_some found
    have holds := mine i act same
    have inside : i < slots.length := by rw [inv.size]; exact below
    have alone : ∀ k, k ≠ i → (slots.getD k .empty).active = true → (slots.getD k .empty).ul ≠ ul := by
      intro k other busy equal
      rcases Nat.lt_or_gt_of_ne other with before | after
      · exact inv.apart k i before below busy act (by rw [equal, same])
      · exact inv.apart i k after (inv.size ▸ lt_length_of_active busy) act busy (by rw [same, equal])
    have appended : (sbdAppend (slots.getD i .empty) pkt.msgno ts pkt.payload).data =
        ((msgs m).payloads.take (j + 2)).flatten.take sbdMaxData := by
      unfold sbdAppend
      dsimp only
      rw [holds.2.2.2.2, count, take_append_capped, payload, ← Slots.flatten_take_succ bound]
    have total := holds.2.2.2.1
    dsimp only
    split
    · -- the last packet: the slot is handed on and freed
      rename_i last
      have complete : j + 2 = packets msgs m := by
        rw [sbdAppend_msgcnt, total, number] at last
        omega
      refine ⟨⟨by simp [inv.size], fun k busy => ?_, inv.apart.of_le fun k busy => ?_⟩, ?_⟩
      · rw [Slots.getD_set _ inside] at busy ⊢
        split at busy
        · cases busy
        · rename_i other
          rw [if_neg other]
          exact others k busy (alone k other busy)
      · rw [Slots.getD_set _ inside] at busy ⊢
        split at busy
        · cases busy
        · rename_i other
          rw [if_neg other]
          exact ⟨busy, rfl⟩
      · rintro call ⟨⟩
        rw [appended, complete, packets, List.take_length]
    · -- a middle packet: the slot now holds one more packet of `m`
      rename_i middle
      have short : j + 2 < packets msgs m := by
        rw [sbdAppend_msgcnt, total, number] at middle
        omega
      have grown : Holds msgs (done ++ [some (m, j + 1)])
          (sbdAppend (slots.getD i .empty) pkt.msgno ts pkt.payload) m := by
        refine ⟨⟨by omega, by omega⟩, holds.2.1, by rw [sbdAppend_msgno, number, now]; rfl, total, ?_⟩
        rw [appended, now]
      refine ⟨⟨by simp [inv.size], fun k busy => ?_, inv.apart.of_le fun k busy => ?_⟩, by rintro call ⟨⟩⟩
      · rw [Slots.getD_set _ inside] at busy ⊢
        split
        · exact ⟨m, grown⟩
        · rename_i other
          rw [if_neg other] at busy
          exact others k busy (alone k other busy)
      · rw [Slots.getD_set _ inside] at busy ⊢
        split
        · rename_i atSlot
          subst atSlot
          exact ⟨act, rfl⟩
        · rename_i other
          rw [if_neg other] at busy
          exact ⟨busy, rfl⟩

/-- One IDA message keeps the invariant, and a buffer it hands on from the
multi-packet path is the whole of one message. -/
theorem reassembling_step {a : Option (Nat × Nat)} {msg : IdaMessage}
    (exclusive : Exclusive (packets msgs) (SameDirection msgs) done) (inv : Reassembling msgs done slots)
    (carried : Carries msgs a msg) (next : Next (packets msgs) (SameDirection msgs) done a) :
    Reassembling msgs (done ++ [a]) (acarsIdaCb slots msg).1 ∧
      ∀ call, (acarsIdaCb slots msg).2 = some call → call.path = .multi →
        ∃ m, call.data = ((msgs m).payloads.flatten).take sbdMaxData := by
  unfold acarsIdaCb sbdExtract
  cases a with
  | none =>
    split
    · exact ⟨inv.other, by rintro call ⟨⟩⟩
    · rename_i pkt parsed
      obtain ⟨number, count⟩ := carried pkt parsed
      obtain ⟨expired, quiet⟩ := sbdDispatch_quiet slots msg.uplink msg.timestamp number count
      rw [expired]
      exact ⟨(inv.expire _).other, fun call made multi => absurd multi (quiet call made)⟩
  | some packet =>
    obtain ⟨m, j⟩ := packet
    obtain ⟨direction, pkt, parsed, number, payload, count⟩ := carried
    obtain ⟨arrived, bound, fresh⟩ := next
    rw [parsed]
    dsimp only
    -- the packet index decides between opening a slot and continuing one
    cases j with
    | zero =>
      rw [if_pos rfl] at count
      have several : 1 < pkt.msgcnt := by rw [count]; exact_mod_cast (msgs m).multi
      rw [sbdDispatch_first _ _ _ (by omega) several]
      exact ⟨reassembling_start (inv.expire _) arrived.symm (fresh rfl) direction (by simpa using number)
        count payload, by rintro call ⟨⟩⟩
    | succ j =>
      rw [if_neg (Nat.succ_ne_zero j)] at count
      rw [sbdDispatch_continue _ _ _ (by omega) count]
      obtain ⟨kept, made⟩ := reassembling_continue exclusive (inv.expire _) arrived.symm bound direction
        (by push_cast at number; omega) payload
      exact ⟨kept, fun call given _ => ⟨m, made call given⟩⟩

end Step

/-- Every buffer of the multi-packet path along an ordered trace, from any
table that satisfies the invariant. -/
theorem reassembling_run {msgs : Nat → SbdMessage} (trace : List (Option (Nat × Nat) × IdaMessage)) :
    ∀ {done : List (Option (Nat × Nat))} {slots : List SbdMulti},
      Exclusive (packets msgs) (SameDirection msgs) done → Reassembling msgs done slots →
      (∀ x ∈ trace, Carries msgs x.1 x.2) → Ordered (packets msgs) (SameDirection msgs) done (trace.map Prod.fst) →
      ∀ call ∈ (acarsRun slots (trace.map Prod.snd)).2, call.path = .multi →
        ∃ m, call.data = ((msgs m).payloads.flatten).take sbdMaxData := by
  induction trace with
  | nil =>
    intro done slots _ _ _ _ call member
    simp [acarsRun] at member
  | cons x rest ih =>
    intro done slots exclusive inv carried ordered call member multi
    obtain ⟨next, later⟩ := ordered
    obtain ⟨kept, made⟩ := reassembling_step exclusive inv (carried x (by simp)) next
    simp only [List.map_cons, acarsRun, List.mem_append, Option.mem_toList] at member
    rcases member with now | after
    · exact made call now multi
    · exact ih (exclusive_next (fun _ _ same => same.symm) exclusive next) kept (fun y mem => carried y (by simp [mem])) later
        call after multi

/-- After `acars_init`, while at most one multi-packet message is in flight in
each direction, every buffer handed on from the multi-packet path is the
concatenation of the packets of one message, cut at `SBD_MAX_DATA` bytes. -/
theorem sbd_reassembly_one_message (msgs : Nat → SbdMessage) (trace : List (Option (Nat × Nat) × IdaMessage))
    (carried : ∀ x ∈ trace, Carries msgs x.1 x.2)
    (ordered : Ordered (packets msgs) (SameDirection msgs) [] (trace.map Prod.fst)) :
    ∀ call ∈ (acarsRun sbdInit (trace.map Prod.snd)).2, call.path = .multi →
      ∃ m, call.data = ((msgs m).payloads.flatten).take sbdMaxData :=
  reassembling_run trace exclusive_nil reassembling_init carried ordered

/-- The first packet of a downlink message of `n` packets of one byte each. -/
def firstPacket (n b : UInt8) : List UInt8 := [0x76, 0x08, 0x20, 0, 0, n, 0, 0x10, 1, 1, b]

/-- Packet `n` (from 1) of a downlink message, with one byte. -/
def nextPacket (n b : UInt8) : List UInt8 := [0x76, 0x09, 0x10, 1, n, b]

/-- A downlink message of two one-byte packets. -/
def twoPackets : SbdMessage := ⟨false, [[0xA1], [0xA2]], by decide⟩

/-- The two packets of `twoPackets`, one nanosecond apart. -/
def twoPacketTrace : List (Option (Nat × Nat) × IdaMessage) :=
  [(some (0, 0), ⟨firstPacket 2 0xA1, 0, false⟩), (some (0, 1), ⟨nextPacket 2 0xA2, 1, false⟩)]

theorem sbd_reassembly_one_message_two_packets :
    (∀ x ∈ twoPacketTrace, Carries (fun _ => twoPackets) x.1 x.2) ∧
      Ordered (packets fun _ => twoPackets) (SameDirection fun _ => twoPackets) [] (twoPacketTrace.map Prod.fst) ∧
      (acarsRun sbdInit (twoPacketTrace.map Prod.snd)).2 = [⟨.multi, [0xA1, 0xA2], false, 1⟩] ∧
      ∀ call ∈ (acarsRun sbdInit (twoPacketTrace.map Prod.snd)).2, call.path = .multi →
        call.data = (twoPackets.payloads.flatten).take sbdMaxData := by
  have carried : ∀ x ∈ twoPacketTrace, Carries (fun _ => twoPackets) x.1 x.2 := by
    simp only [twoPacketTrace, List.mem_cons, List.not_mem_nil, or_false, forall_eq_or_imp, forall_eq]
    exact ⟨⟨rfl, _, rfl, by decide, rfl, by decide⟩, ⟨rfl, _, rfl, by decide, rfl, by decide⟩⟩
  -- nothing is in flight before the first packet
  have ordered : Ordered (packets fun _ => twoPackets) (SameDirection fun _ => twoPackets) []
      (twoPacketTrace.map Prod.fst) :=
    ⟨⟨rfl, by decide, fun _ _ _ _ opened => absurd opened.1 (by simp [received])⟩,
      ⟨rfl, by decide, by simp⟩, trivial⟩
  refine ⟨carried, ordered, by decide, fun call member multi => ?_⟩
  obtain ⟨_, whole⟩ := sbd_reassembly_one_message (fun _ => twoPackets) twoPacketTrace carried ordered
    call member multi
  exact whole

/-- Two downlink messages of three packets, interleaved one packet a
nanosecond: each continuation goes to the slot with the higher index whose
number it continues, so each buffer handed on mixes the two messages. -/
theorem sbd_reassembly_mixes_interleaved :
    (acarsRun sbdInit [⟨firstPacket 3 0xA1, 0, false⟩, ⟨firstPacket 3 0xB1, 1, false⟩,
      ⟨nextPacket 2 0xA2, 2, false⟩, ⟨nextPacket 2 0xB2, 3, false⟩,
      ⟨nextPacket 3 0xA3, 4, false⟩, ⟨nextPacket 3 0xB3, 5, false⟩]).2 =
      [⟨.multi, [0xB1, 0xA2, 0xA3], false, 4⟩, ⟨.multi, [0xA1, 0xB2, 0xB3], false, 5⟩] := by
  decide

end IridiumSniffer.Sbd
