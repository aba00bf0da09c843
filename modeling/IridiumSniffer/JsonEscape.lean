import IridiumSniffer.Lib.Access
import IridiumSniffer.Lib.JsonString

/-! `json_escape` and `hub_json_escape` of `sbd_acars.c`, two copies of one
escaper of `in[0..inlen-1]` into `out[0..outsz-1]`. The loop runs while
`i < inlen && o < outsz - 2`; a character that needs more room than is left
ends it with a `break`, and `out[o] = '\0'` follows. What has been written at
each point is the escapes of a prefix of the input, so the result is a JSON
string body that decodes to that prefix. -/
namespace IridiumSniffer.Acars

open Access JsonString

inductive EscArray
  | input
  | out
  deriving DecidableEq

/-- The letter after `\` for `"`, `\`, `\n`, `\r` and `\t`. -/
def shortEscape (c : UInt8) : Option UInt8 :=
  if c = 34 then some 34 else if c = 92 then some 92 else if c = 10 then some 110
  else if c = 13 then some 114 else if c = 9 then some 116 else none

/-- `snprintf(out + o, size, "\\u%04x", c)`: as many of the six characters as
fit before the NUL, the NUL, and the count of six it returns. -/
def snprintfU (o size : Nat) (c : UInt8) : Prog EscArray UInt8 Nat := do
  (if 0 < size then storeAll .out o ((uEscape c.toNat).take (size - 1) ++ [0]) else pure ())
  pure 6

/-- How a pass of the loop body ends: at a `break`, or with the next `o`. -/
inductive Pass
  | stop
  | next (o : Nat)

/-- One pass of the loop body for `c = in[i]` at `o`. -/
def escapeStep (outsz o : Nat) (c : UInt8) : Prog EscArray UInt8 Pass :=
  match shortEscape c with
  | some e =>
    if outsz ≤ o + 2 then pure .stop
    else do
      storeAll .out o [92, e]
      pure (.next (o + 2))
  | none =>
    if c < 0x20 ∨ c = 0x7f then
      if outsz ≤ o + 6 then pure .stop
      else do
        let n ← snprintfU o (outsz - o) c
        pure (.next (o + n))
    else do
      store .out o c
      pure (.next (o + 1))

/-- The loop from `(i, o)`, and the `o` it stops at. -/
def escapeLoop (inlen outsz i o : Nat) : Prog EscArray UInt8 Nat :=
  if i < inlen ∧ o + 2 < outsz then do
    let c ← load .input i
    match ← escapeStep outsz o c with
    | .stop => pure o
    | .next o' => escapeLoop inlen outsz (i + 1) o'
  else pure o
termination_by inlen - i
decreasing_by omega

def escapeString (inlen outsz : Nat) : Prog EscArray UInt8 Unit := do
  let o ← escapeLoop inlen outsz 0 0
  store .out o 0

def jsonEscape (inlen outsz : Nat) : Prog EscArray UInt8 Unit := escapeString inlen outsz

def hubJsonEscape (inlen outsz : Nat) : Prog EscArray UInt8 Unit := escapeString inlen outsz

/-! ### What is written for each character -/

/-- The escape of one character, as the loop writes it when there is room. -/
def escapeByte (c : UInt8) : List UInt8 :=
  match shortEscape c with
  | some e => [92, e]
  | none => if c < 0x20 ∨ c = 0x7f then uEscape c.toNat else [c]

def escapeBytes (text : List UInt8) : List UInt8 := text.flatMap escapeByte

/-- `in[0..i-1]`. -/
def inputPrefix (m : Machine EscArray UInt8) (i : Nat) : List UInt8 := (List.range i).map (m.mem .input)

theorem escapeCode?_of_shortEscape {c e : UInt8} (h : shortEscape c = some e) : escapeCode? e = some c.toNat := by
  unfold shortEscape at h
  repeat' split at h
  all_goals first | (cases h; subst c; decide) | cases h

theorem ne_of_shortEscape {c : UInt8} (h : shortEscape c = none) : c ≠ 34 ∧ c ≠ 92 := by
  unfold shortEscape at h
  constructor
  · rintro rfl
    simp at h
  · rintro rfl
    simp at h

theorem escapeByte_body (c : UInt8) : Body (escapeByte c) [c.toNat] := by
  unfold escapeByte
  split
  · rename_i e short
    exact .single (.escape (escapeCode?_of_shortEscape short))
  · rename_i plain
    split
    · have text := Ch.uEscape (Nat.lt_trans c.toNat_lt (by decide)) []
      rw [List.append_nil] at text
      exact .single text
    · rename_i printable
      have space : 0x20 ≤ c := by
        rw [not_or, UInt8.not_lt] at printable
        exact printable.1
      exact .single (.unescaped space (ne_of_shortEscape plain).1 (ne_of_shortEscape plain).2)

theorem escapeBytes_body (text : List UInt8) : Body (escapeBytes text) (text.map UInt8.toNat) :=
  Body.flatMap escapeByte UInt8.toNat text fun c _ => escapeByte_body c

example : escapeBytes [34, 10, 1, 65] = [92, 34, 92, 110, 92, 117, 48, 48, 48, 49, 65] := by decide

theorem inputPrefix_succ (m : Machine EscArray UInt8) (i : Nat) :
    inputPrefix m (i + 1) = inputPrefix m i ++ [m.mem .input i] := by
  simp [inputPrefix, List.range_succ]

/-! ### One pass of the loop -/

theorem input_ne_out : EscArray.input ≠ EscArray.out := nofun

section Step

variable {outsz o : Nat} {c : UInt8} (m : Machine EscArray UInt8)

/-- A pass either breaks and changes nothing, or appends the escape of `c` to
`out[0..o-1]` and leaves room for the NUL; the input is never written. -/
theorem escapeStep_run (room : o + 2 < outsz) :
    ((escapeStep outsz o c).run m).2.mem .input = m.mem .input ∧
      (((escapeStep outsz o c).run m).1 = .stop ∧ ((escapeStep outsz o c).run m).2 = m ∨
        ∃ o', ((escapeStep outsz o c).run m).1 = .next o' ∧ o' < outsz ∧
          (List.range o').map (((escapeStep outsz o c).run m).2.mem .out) =
            (List.range o).map (m.mem .out) ++ escapeByte c) := by
  unfold escapeStep escapeByte
  cases short : shortEscape c with
  | some e =>
    simp only
    split
    · exact ⟨rfl, .inl ⟨rfl, rfl⟩⟩
    · rename_i fits
      simp only [run_bind, run_pure]
      refine ⟨storeAll_other .out o _ m input_ne_out, .inr ⟨o + 2, rfl, by omega, ?_⟩⟩
      exact storeAll_range .out o [92, e] m (le_refl 2)
  | none =>
    simp only
    split
    · split
      · exact ⟨rfl, .inl ⟨rfl, rfl⟩⟩
      · rename_i control fits
        simp only [snprintfU, run_bind, run_pure, if_pos (show 0 < outsz - o by omega)]
        refine ⟨storeAll_other .out o _ m input_ne_out, .inr ⟨o + 6, rfl, by omega, ?_⟩⟩
        have whole : (uEscape c.toNat).take (outsz - o - 1) = uEscape c.toNat :=
          List.take_of_length_le (by simp [uEscape]; omega)
        rw [storeAll_range .out o _ m (by simp [uEscape]; omega), whole]
        simp [uEscape]
    · simp only [run_bind, run_pure, run_store]
      refine ⟨funext fun j => write_of_ne o j c input_ne_out, .inr ⟨o + 1, rfl, by omega, ?_⟩⟩
      exact store_range .out o c m

end Step

/-! ### The loop -/

/-- Where the loop stands at `(i, o)` when it started on `m₀`: the input as
it was, `out[0..o-1]` the escapes of `in[0..i-1]`, and room for the NUL. -/
structure Escaped (inlen outsz : Nat) (m₀ : Machine EscArray UInt8) (i o : Nat) (m : Machine EscArray UInt8) :
    Prop where
  input : m.mem .input = m₀.mem .input
  upto : i ≤ inlen
  room : o < outsz
  written : (List.range o).map (m.mem .out) = escapeBytes (inputPrefix m₀ i)

theorem escaped_start (inlen outsz : Nat) (m₀ : Machine EscArray UInt8) (room : 1 ≤ outsz) :
    Escaped inlen outsz m₀ 0 0 m₀ :=
  ⟨rfl, Nat.zero_le _, room, rfl⟩

/-- The loop stops, at a `break` or at its test, with everything it wrote the
escapes of some prefix of the input. -/
theorem escapeLoop_run (inlen outsz : Nat) (m₀ : Machine EscArray UInt8) (i o : Nat) :
    ∀ m, Escaped inlen outsz m₀ i o m →
      ∃ k, Escaped inlen outsz m₀ k ((escapeLoop inlen outsz i o).run m).1 ((escapeLoop inlen outsz i o).run m).2 := by
  induction i, o using escapeLoop.induct inlen outsz with
  | case1 i o going ih =>
    intro m h
    rw [escapeLoop, if_pos going]
    simp only [run_bind, run_load]
    -- the pass runs on `m` with the read of `in[i]` logged, the same memory
    have read : Escaped inlen outsz m₀ i o { m with reads := m.reads ++ [(.input, i)] } :=
      ⟨h.input, h.upto, h.room, h.written⟩
    obtain ⟨input, stop | ⟨o', next, room, written⟩⟩ :=
      escapeStep_run (c := m.mem .input i) { m with reads := m.reads ++ [(.input, i)] } going.2
    · rw [stop.1, stop.2]
      exact ⟨i, read⟩
    · rw [next]
      refine ih o' _ ⟨input.trans h.input, going.1, room, ?_⟩
      rw [written, read.written, inputPrefix_succ, h.input]
      simp [escapeBytes]
  | case2 i o stop =>
    intro m h
    rw [escapeLoop, if_neg stop]
    exact ⟨i, h⟩

/-- After `out[o] = '\0'`: the escapes of a prefix of the input, no longer
than `outsz - 1`, and the NUL right after them. -/
theorem escapeString_run (inlen outsz : Nat) (room : 1 ≤ outsz) (m : Machine EscArray UInt8) :
    ∃ k ≤ inlen, ∃ text : List UInt8, text = escapeBytes (inputPrefix m k) ∧ text.length ≤ outsz - 1 ∧
      (List.range text.length).map (((escapeString inlen outsz).run m).2.mem .out) = text ∧
        ((escapeString inlen outsz).run m).2.mem .out text.length = 0 := by
  obtain ⟨k, h⟩ := escapeLoop_run inlen outsz m 0 0 m (escaped_start inlen outsz m room)
  have length : (escapeBytes (inputPrefix m k)).length = ((escapeLoop inlen outsz 0 0).run m).1 := by
    rw [← h.written, List.length_map, List.length_range]
  have terminated := store_range .out ((escapeLoop inlen outsz 0 0).run m).1 0 ((escapeLoop inlen outsz 0 0).run m).2
  rw [List.range_succ, List.map_append, h.written] at terminated
  obtain ⟨kept, nul⟩ := List.append_inj' terminated rfl
  refine ⟨k, h.upto, _, rfl, by have := h.room; omega, ?_, ?_⟩
  · rw [length]
    exact kept
  · rw [length]
    exact List.singleton_inj.mp nul

/-! ### Where the escapers read and write -/

/-- Reads of `in[0..inlen-1]`. -/
def ReadIn (inlen : Nat) (x : EscArray × Nat) : Prop := x.1 = .input ∧ x.2 < inlen

/-- Writes of `out[0..outsz-1]`. -/
def WriteOut (outsz : Nat) (x : EscArray × Nat) : Prop := x.1 = .out ∧ x.2 < outsz

section Within

variable {inlen outsz o : Nat} {c : UInt8}

theorem snprintfU_within (fits : o + 6 < outsz) :
    Within (ReadIn inlen) (WriteOut outsz) (fun n => n = 6) (snprintfU o (outsz - o) c) := by
  refine within_bind (within_ite (fun _ => within_storeAll fun k below => ⟨rfl, ?_⟩) fun _ => within_pure trivial)
    fun _ _ => within_pure rfl
  simp only [List.length_append, List.length_take, List.length_singleton] at below
  omega

theorem next_lt {k : Nat} (fits : o + k < outsz) : ∀ o', Pass.next (o + k) = .next o' → o' < outsz := by
  rintro o' ⟨⟩
  exact fits

theorem escapeStep_within (room : o + 2 < outsz) :
    Within (ReadIn inlen) (WriteOut outsz) (fun r => ∀ o', r = .next o' → o' < outsz) (escapeStep outsz o c) := by
  unfold escapeStep
  cases shortEscape c with
  | some e =>
    refine within_ite (fun _ => within_pure nofun) fun fits => ?_
    refine within_bind (within_storeAll fun k below => ⟨rfl, ?_⟩) fun _ _ => within_pure (next_lt (by omega))
    simp only [List.length_cons, List.length_nil] at below
    omega
  | none =>
    refine within_ite (fun _ => within_ite (fun _ => within_pure nofun) fun fits => ?_) fun _ => ?_
    · refine within_bind (snprintfU_within (by omega)) fun n six => ?_
      rw [six]
      exact within_pure (next_lt (by omega))
    · exact within_bind (within_store ⟨rfl, by omega⟩ c) fun _ _ => within_pure (next_lt (by omega))

theorem escapeLoop_within (i : Nat) (room : o < outsz) :
    Within (ReadIn inlen) (WriteOut outsz) (· < outsz) (escapeLoop inlen outsz i o) := by
  induction i, o using escapeLoop.induct inlen outsz with
  | case1 i o going ih =>
    rw [escapeLoop, if_pos going]
    refine within_bind (within_load ⟨rfl, going.1⟩) fun _ _ => within_bind (escapeStep_within going.2) ?_
    intro r next
    cases r with
    | stop => exact within_pure room
    | next o' => exact ih o' (next o' rfl)
  | case2 i o stop =>
    rw [escapeLoop, if_neg stop]
    exact within_pure room

theorem escapeString_within (room : 1 ≤ outsz) :
    Within (ReadIn inlen) (WriteOut outsz) (fun _ => True) (escapeString inlen outsz) :=
  within_bind (escapeLoop_within 0 room) fun _ below => within_store ⟨rfl, below⟩ 0

end Within

/-- Both escapers write only `out[0..outsz-1]` and read only
`in[0..inlen-1]`, and leave a NUL-terminated JSON string body of at most
`outsz - 1` bytes, none below `0x20`, that decodes to a prefix of the input
and to nothing else. -/
theorem jsonEscape_sound (inlen outsz : Nat) (room : 1 ≤ outsz) :
    ∀ escape ∈ [jsonEscape inlen outsz, hubJsonEscape inlen outsz],
      Within (ReadIn inlen) (WriteOut outsz) (fun _ => True) escape ∧
        ∀ m, ∃ k ≤ inlen, ∃ text : List UInt8, text.length ≤ outsz - 1 ∧
          (List.range text.length).map ((escape.run m).2.mem .out) = text ∧
          (escape.run m).2.mem .out text.length = 0 ∧
          (∀ b ∈ text, 0x20 ≤ b) ∧
          ∀ codes, Body text codes ↔ codes = (inputPrefix m k).map UInt8.toNat := by
  intro escape mem
  have same : escape = escapeString inlen outsz := by
    simp only [List.mem_cons, List.not_mem_nil, or_false] at mem
    rcases mem with rfl | rfl
    · rfl
    · rfl
  subst same
  refine ⟨escapeString_within room, fun m => ?_⟩
  obtain ⟨k, upto, text, rfl, length, written, nul⟩ := escapeString_run inlen outsz room m
  exact ⟨k, upto, _, length, written, nul, (escapeBytes_body _).space_le, (escapeBytes_body _).iff⟩

theorem jsonEscape_sound_eight : 1 ≤ 8 ∧
    ∀ escape ∈ [jsonEscape 3 8, hubJsonEscape 3 8],
      Within (ReadIn 3) (WriteOut 8) (fun _ => True) escape ∧
        ∀ m, ∃ k ≤ 3, ∃ text : List UInt8, text.length ≤ 8 - 1 ∧
          (List.range text.length).map ((escape.run m).2.mem .out) = text ∧
          (escape.run m).2.mem .out text.length = 0 ∧
          (∀ b ∈ text, 0x20 ≤ b) ∧
          ∀ codes, Body text codes ↔ codes = (inputPrefix m k).map UInt8.toNat :=
  ⟨by decide, jsonEscape_sound 3 8 (by decide)⟩

end IridiumSniffer.Acars
