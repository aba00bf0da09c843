import Mathlib
import IridiumSniffer.Lib.Access
import IridiumSniffer.Lib.Printf

/-! The text buffers that output is built in: `json_buf` and `hub_buf` of
`sbd_acars.c`, filled by `json_buf_append` and `hub_buf_append` after a reset,
and `line_buf` of `frame_output.c`, filled by `buf_printf` and `buf_char` after
`buf_start` and written out by `buf_flush`. A format call is the text it
formats, and `vsnprintf` is `Access.snprintf`; `json_pos`, `hub_pos` and
`line_pos` are passed in and returned. -/
namespace IridiumSniffer.Output

open Access

inductive Buffer
  | json
  | hub
  | line
deriving DecidableEq

def jsonBufSize : Nat := 8192

def lineBufSize : Nat := 8192

/-- The `size_t` that the `int` difference `size - pos` converts to. -/
def room (size pos : Nat) : Nat := if pos ≤ size then size - pos else 2 ^ 64 - (pos - size)

/-- `json_buf_append` and `hub_buf_append`: nothing once the buffer is full,
else `vsnprintf` at the position, which then moves on by what it returned,
held below the size. -/
def appendGuarded (size : Nat) (b : Buffer) (pos : Nat) (text : List UInt8) : Prog Buffer UInt8 Nat :=
  if size - 1 ≤ pos then pure pos
  else do
    let n ← snprintf b pos (room size pos) text 0
    let pos := if 0 < n then pos + n else pos
    pure (if size ≤ pos then size - 1 else pos)

def jsonBufAppend (pos : Nat) (text : List UInt8) : Prog Buffer UInt8 Nat :=
  appendGuarded jsonBufSize .json pos text

def hubBufAppend (pos : Nat) (text : List UInt8) : Prog Buffer UInt8 Nat :=
  appendGuarded jsonBufSize .hub pos text

/-- `json_buf_reset` and `hub_buf_reset`. -/
def bufReset (b : Buffer) : Prog Buffer UInt8 Nat := do
  store b 0 0
  pure 0

def jsonBufReset : Prog Buffer UInt8 Nat := bufReset .json

def hubBufReset : Prog Buffer UInt8 Nat := bufReset .hub

/-- `buf_printf`, which has no guard before its `vsnprintf`. -/
def bufPrintf (pos : Nat) (text : List UInt8) : Prog Buffer UInt8 Nat := do
  let n ← snprintf .line pos (room lineBufSize pos) text 0
  if 0 < n then
    let pos := pos + n
    pure (if lineBufSize ≤ pos then lineBufSize - 1 else pos)
  else pure pos

def bufChar (pos : Nat) (c : UInt8) : Prog Buffer UInt8 Nat :=
  if pos < lineBufSize - 1 then do
    store .line pos c
    pure (pos + 1)
  else pure pos

/-- A call that builds a line: `buf_printf` of a text or `buf_char`. -/
inductive Piece
  | text (t : List UInt8)
  | char (c : UInt8)

def Piece.bytes : Piece → List UInt8
  | .text t => t
  | .char c => [c]

def bufPiece (pos : Nat) : Piece → Prog Buffer UInt8 Nat
  | .text t => bufPrintf pos t
  | .char c => bufChar pos c

/-- `buf_flush`: the `0` at the position, and the `line_pos` bytes that
`fwrite` sends. -/
def bufFlush (pos : Nat) : Prog Buffer UInt8 (List UInt8) := do
  store .line pos 0
  foldRange 0 pos (fun j out => do
    let c ← load .line j
    pure (out ++ [c])) []

/-- A JSON message: the reset, then the appends. -/
def jsonMessage (texts : List (List UInt8)) : Prog Buffer UInt8 Nat := do
  let pos ← jsonBufReset
  texts.foldlM jsonBufAppend pos

def hubMessage (texts : List (List UInt8)) : Prog Buffer UInt8 Nat := do
  let pos ← hubBufReset
  texts.foldlM hubBufAppend pos

/-- A line of `frame_output.c`: `buf_start`, the pieces, and `buf_flush`. -/
def lineMessage (pieces : List Piece) : Prog Buffer UInt8 (List UInt8) := do
  let pos ← pieces.foldlM bufPiece 0
  bufFlush pos

/-! ### What a buffer holds -/

/-- The buffer `b` holds the first `size - 1` bytes of `out`, and the position
is just after them. -/
def Holds (size : Nat) (b : Buffer) (out : List UInt8) (pos : Nat) (m : Machine Buffer UInt8) : Prop :=
  pos = min out.length (size - 1) ∧ (List.range pos).map (m.mem b) = out.take (size - 1)

/-- ... with the terminating `0` after them. -/
def Filled (size : Nat) (b : Buffer) (out : List UInt8) (pos : Nat) (m : Machine Buffer UInt8) : Prop :=
  Holds size b out pos m ∧ m.mem b pos = 0

section Steps

variable {size : Nat} {b : Buffer} {out : List UInt8} {pos : Nat} {m : Machine Buffer UInt8}

theorem Holds.below (h : Holds size b out pos m) (positive : 0 < size) : pos < size := by
  have := h.1
  omega

theorem filled_bufReset (b : Buffer) (m : Machine Buffer UInt8) :
    Filled size b [] ((bufReset b).run m).1 ((bufReset b).run m).2 := by
  simp only [bufReset, run_bind, run_store, run_pure]
  refine ⟨⟨by simp, by simp⟩, ?_⟩
  simp [write]

/-- `vsnprintf` at the position of a buffer that holds `out`: it holds `out`
and the text up to its last byte, and the `0` follows them. -/
theorem Holds.snprintf (h : Holds size b out pos m) (below : pos < size) (text : List UInt8) :
    Filled size b (out ++ text) (min (pos + text.length) (size - 1))
      ((Access.snprintf b pos (room size pos) text 0).run m).2 := by
  obtain ⟨at_end, held⟩ := h
  have roomy : room size pos = size - pos := if_pos below.le
  obtain ⟨range, nul⟩ := snprintf_range b pos text 0 m (show 0 < room size pos by omega)
  rw [show room size pos - 1 = size - pos - 1 by rw [roomy]] at range nul
  have moved : pos + min text.length (size - pos - 1) = min (pos + text.length) (size - 1) := by omega
  -- when the buffer was full nothing of the text fits, else the text goes on right after `out`
  have rest : size - pos - 1 = size - 1 - out.length := by omega
  refine ⟨⟨by simp only [List.length_append]; omega, ?_⟩, ?_⟩
  · rw [← moved, range, held, rest, ← List.take_append]
  · rw [← moved]
    exact nul

theorem Filled.appendGuarded (h : Filled size b out pos m) (text : List UInt8) :
    Filled size b (out ++ text) ((appendGuarded size b pos text).run m).1 ((appendGuarded size b pos text).run m).2 := by
  unfold IridiumSniffer.Output.appendGuarded
  split
  · -- full: the guard returns, and nothing more of `out ++ text` fits
    obtain ⟨⟨at_end, held⟩, nul⟩ := h
    refine ⟨⟨?_, ?_⟩, nul⟩
    · show pos = min (out ++ text).length (size - 1)
      simp only [List.length_append]
      omega
    · show (List.range pos).map (m.mem b) = (out ++ text).take (size - 1)
      rw [held, List.take_append_of_le_length (by omega)]
  · rename_i space
    have next := h.1.snprintf (by omega) text
    simp only [run_bind, run_pure, snprintf_fst]
    rw [show (if size ≤ (if 0 < text.length then pos + text.length else pos) then size - 1
        else if 0 < text.length then pos + text.length else pos) = min (pos + text.length) (size - 1) by
      split <;> split <;> omega]
    exact next

theorem Holds.bufPrintf (h : Holds lineBufSize .line out pos m) (text : List UInt8) :
    Filled lineBufSize .line (out ++ text) ((bufPrintf pos text).run m).1 ((bufPrintf pos text).run m).2 := by
  have next := h.snprintf (h.below (by decide)) text
  unfold IridiumSniffer.Output.bufPrintf
  simp only [run_bind, snprintf_fst]
  split
  · simp only [run_pure]
    rw [show (if lineBufSize ≤ pos + text.length then lineBufSize - 1 else pos + text.length) =
        min (pos + text.length) (lineBufSize - 1) by split <;> omega]
    exact next
  · -- an empty text: `vsnprintf` writes only the `0`
    have same : min (pos + text.length) (lineBufSize - 1) = pos := by
      have := h.below (by decide)
      omega
    simp only [run_pure]
    rw [same] at next
    exact next

theorem Holds.bufChar (h : Holds lineBufSize .line out pos m) (c : UInt8) :
    Holds lineBufSize .line (out ++ [c]) ((bufChar pos c).run m).1 ((bufChar pos c).run m).2 := by
  obtain ⟨at_end, held⟩ := h
  unfold IridiumSniffer.Output.bufChar
  split
  · rename_i space
    simp only [run_bind, run_pure]
    have whole : out.length = pos := by omega
    refine ⟨by simp only [List.length_append, List.length_singleton]; omega, ?_⟩
    rw [store_range .line pos c m, held, List.take_of_length_le (by omega),
      List.take_of_length_le (by simp only [List.length_append, List.length_singleton]; omega)]
  · simp only [run_pure]
    refine ⟨by simp only [List.length_append, List.length_singleton]; omega, ?_⟩
    rw [held, List.take_append_of_le_length (by omega)]

theorem Holds.bufPiece (h : Holds lineBufSize .line out pos m) (piece : Piece) :
    Holds lineBufSize .line (out ++ piece.bytes) ((bufPiece pos piece).run m).1 ((bufPiece pos piece).run m).2 := by
  cases piece with
  | text t => exact (h.bufPrintf t).1
  | char c => exact h.bufChar c

end Steps

/-! ### Whole messages -/

section Messages

theorem filled_foldlM_appendGuarded (size : Nat) (b : Buffer) :
    ∀ (texts : List (List UInt8)) {out : List UInt8} {pos : Nat} {m : Machine Buffer UInt8}, Filled size b out pos m →
      Filled size b (out ++ texts.flatten) ((texts.foldlM (appendGuarded size b) pos).run m).1
        ((texts.foldlM (appendGuarded size b) pos).run m).2
  | [], _, _, _, h => by
    rw [List.flatten_nil, List.append_nil]
    exact h
  | text :: texts, out, _, _, h => by
    have rest := filled_foldlM_appendGuarded size b texts (h.appendGuarded text)
    simp only [List.foldlM_cons, run_bind]
    rw [List.flatten_cons, ← List.append_assoc]
    exact rest

theorem holds_foldlM_bufPiece :
    ∀ (pieces : List Piece) {out : List UInt8} {pos : Nat} {m : Machine Buffer UInt8},
      Holds lineBufSize .line out pos m →
      Holds lineBufSize .line (out ++ pieces.flatMap Piece.bytes) ((pieces.foldlM bufPiece pos).run m).1
        ((pieces.foldlM bufPiece pos).run m).2
  | [], _, _, _, h => by
    rw [List.flatMap_nil, List.append_nil]
    exact h
  | piece :: pieces, out, _, _, h => by
    have rest := holds_foldlM_bufPiece pieces (h.bufPiece piece)
    simp only [List.foldlM_cons, run_bind]
    rw [List.flatMap_cons, ← List.append_assoc]
    exact rest

theorem bufFlush_fst (pos : Nat) (m : Machine Buffer UInt8) :
    ((bufFlush pos).run m).1 = (List.range pos).map (m.mem .line) := by
  simp only [bufFlush, run_bind, run_store]
  rw [foldRange_load, List.nil_append, ← List.range_eq_range']
  apply List.map_congr_left
  intro j mem
  simp [write, Nat.ne_of_lt (List.mem_range.mp mem)]

theorem appendGuarded_within (size : Nat) (b : Buffer) (pos : Nat) (text : List UInt8) :
    Within (fun _ => False) (fun x => x.1 = b ∧ x.2 < size) (fun _ => True) (appendGuarded size b pos text) := by
  unfold IridiumSniffer.Output.appendGuarded
  refine within_ite (fun _ => within_pure trivial) fun space => ?_
  refine within_bind (within_snprintf fun k below => ⟨rfl, ?_⟩) fun _ _ => within_pure trivial
  rw [room, if_pos (by omega)] at below
  omega

theorem bufPiece_within (pos : Nat) (piece : Piece) (below : pos < lineBufSize) :
    Within (fun x => x.1 = .line ∧ x.2 < lineBufSize) (fun x => x.1 = .line ∧ x.2 < lineBufSize) (fun pos => pos < lineBufSize)
      (bufPiece pos piece) := by
  cases piece with
  | text t =>
    unfold bufPiece IridiumSniffer.Output.bufPrintf
    refine within_bind (within_snprintf fun k inside => ⟨rfl, ?_⟩) fun n _ =>
      within_ite (fun _ => within_pure ?_) fun _ => within_pure below
    · rw [room, if_pos below.le] at inside
      omega
    · split <;> omega
  | char c =>
    unfold bufPiece IridiumSniffer.Output.bufChar
    refine within_ite (fun space => within_bind (within_store ⟨rfl, by omega⟩ c) fun _ _ => within_pure ?_)
      fun _ => within_pure below
    omega

theorem bufFlush_within (pos : Nat) (below : pos < lineBufSize) :
    Within (fun x => x.1 = .line ∧ x.2 < lineBufSize) (fun x => x.1 = .line ∧ x.2 < lineBufSize) (fun _ => True)
      (bufFlush pos) := by
  refine within_bind (within_store ⟨rfl, below⟩ 0) fun _ _ =>
    within_foldRange trivial fun j out _ high _ =>
      within_bind (within_load ⟨rfl, by omega⟩) fun _ _ => within_pure trivial

theorem filled_message (size : Nat) (b : Buffer) (texts : List (List UInt8)) (m : Machine Buffer UInt8) :
    Filled size b texts.flatten ((bufReset b >>= fun pos => texts.foldlM (appendGuarded size b) pos).run m).1
      ((bufReset b >>= fun pos => texts.foldlM (appendGuarded size b) pos).run m).2 := by
  have built := filled_foldlM_appendGuarded size b texts (filled_bufReset b m)
  rw [List.nil_append] at built
  exact built

theorem bufReset_within (size : Nat) (positive : 0 < size) (b : Buffer) :
    Within (fun _ => False) (fun x => x.1 = b ∧ x.2 < size) (fun _ => True) (bufReset b) :=
  within_bind (within_store ⟨rfl, positive⟩ 0) fun _ _ => within_pure trivial

theorem message_within (size : Nat) (positive : 0 < size) (b : Buffer) (texts : List (List UInt8)) :
    Within (fun _ => False) (fun x => x.1 = b ∧ x.2 < size) (fun _ => True)
      (bufReset b >>= fun pos => texts.foldlM (appendGuarded size b) pos) :=
  within_bind (bufReset_within size positive b) fun _ _ =>
    within_foldlM (fun pos text _ => appendGuarded_within size b pos text) texts trivial

end Messages

/-- A JSON message, from `json_buf_reset` and any `json_buf_append`s, leaves
in `json_buf` the first `JSON_BUF_SIZE - 1` bytes of its texts, `json_pos`
after them and a `0` there, and writes nowhere outside `json_buf`; the same
holds of `hub_buf`. -/
theorem jsonMessage_prefix (texts : List (List UInt8)) (m : Machine Buffer UInt8) :
    Filled jsonBufSize .json texts.flatten ((jsonMessage texts).run m).1 ((jsonMessage texts).run m).2 ∧
      Filled jsonBufSize .hub texts.flatten ((hubMessage texts).run m).1 ((hubMessage texts).run m).2 ∧
      Within (fun _ => False) (fun x => x.1 = .json ∧ x.2 < jsonBufSize) (fun _ => True) (jsonMessage texts) ∧
      Within (fun _ => False) (fun x => x.1 = .hub ∧ x.2 < jsonBufSize) (fun _ => True) (hubMessage texts) :=
  ⟨filled_message jsonBufSize .json texts m, filled_message jsonBufSize .hub texts m,
    message_within jsonBufSize (by decide) .json texts, message_within jsonBufSize (by decide) .hub texts⟩

/-- A line, from `buf_start` and any `buf_printf`s and `buf_char`s, goes out
of `buf_flush` as the first `LINE_BUF_SIZE - 1` bytes of its pieces, and every
read and write stays in `line_buf`, though `buf_printf` has no guard before its
`vsnprintf`: the position never passes `LINE_BUF_SIZE - 1`. -/
theorem lineMessage_prefix (pieces : List Piece) (m : Machine Buffer UInt8) :
    ((lineMessage pieces).run m).1 = (pieces.flatMap Piece.bytes).take (lineBufSize - 1) ∧
      Within (fun x => x.1 = .line ∧ x.2 < lineBufSize) (fun x => x.1 = .line ∧ x.2 < lineBufSize) (fun _ => True)
        (lineMessage pieces) := by
  constructor
  · have built := holds_foldlM_bufPiece pieces (show Holds lineBufSize .line [] 0 m from ⟨by simp, by simp⟩)
    rw [List.nil_append] at built
    simp only [lineMessage, run_bind]
    rw [bufFlush_fst]
    exact built.2
  · exact within_bind (within_foldlM (fun pos piece below => bufPiece_within pos piece below) pieces
      (show 0 < lineBufSize by decide)) fun pos below => bufFlush_within pos below

end IridiumSniffer.Output
