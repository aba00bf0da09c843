import Mathlib

/-! The body of a JSON string, between its quotes, over bytes. A byte at or
above `0x20` other than `"` and `\` stands for itself; `\` starts either a
two-character escape or `\u` and four hex digits. `Ch t c r` says that `t`
begins with the text of one character of code `c` and goes on with `r`, and
`Body t cs` that the whole of `t` is such text for the codes `cs`. The
grammar is unambiguous, so a body has one decoding. -/
namespace JsonString

/-- The value of a hex digit of either case. -/
def hexVal? (d : UInt8) : Option Nat :=
  if 48 ≤ d ∧ d ≤ 57 then some (d.toNat - 48)
  else if 97 ≤ d ∧ d ≤ 102 then some (d.toNat - 87)
  else if 65 ≤ d ∧ d ≤ 70 then some (d.toNat - 55)
  else none

/-- The code that `\e` stands for. -/
def escapeCode? (e : UInt8) : Option Nat :=
  if e = 34 then some 34 else if e = 92 then some 92 else if e = 47 then some 47
  else if e = 98 then some 8 else if e = 102 then some 12 else if e = 110 then some 10
  else if e = 114 then some 13 else if e = 116 then some 9 else none

inductive Ch : List UInt8 → Nat → List UInt8 → Prop
  | unescaped {b : UInt8} {r : List UInt8} : 0x20 ≤ b → b ≠ 34 → b ≠ 92 → Ch (b :: r) b.toNat r
  | escape {e : UInt8} {c : Nat} {r : List UInt8} : escapeCode? e = some c → Ch (92 :: e :: r) c r
  | codePoint {d₁ d₂ d₃ d₄ : UInt8} {v₁ v₂ v₃ v₄ : Nat} {r : List UInt8} :
      hexVal? d₁ = some v₁ → hexVal? d₂ = some v₂ → hexVal? d₃ = some v₃ → hexVal? d₄ = some v₄ →
      Ch (92 :: 117 :: d₁ :: d₂ :: d₃ :: d₄ :: r) (((v₁ * 16 + v₂) * 16 + v₃) * 16 + v₄) r

inductive Body : List UInt8 → List Nat → Prop
  | nil : Body [] []
  | cons {t r : List UInt8} {c : Nat} {cs : List Nat} : Ch t c r → Body r cs → Body t (c :: cs)

/-- The lowercase hex digit of `d < 16`, as `printf` writes it. -/
def hexDigit (d : Nat) : UInt8 :=
  if d < 10 then UInt8.ofNat (48 + d) else UInt8.ofNat (87 + d)

/-- `\u` and the four lowercase hex digits of `v`, as `"\\u%04x"` prints it. -/
def uEscape (v : Nat) : List UInt8 :=
  [92, 117, hexDigit (v / 4096 % 16), hexDigit (v / 256 % 16), hexDigit (v / 16 % 16), hexDigit (v % 16)]

theorem hexVal?_hexDigit {d : Nat} (digit : d < 16) : hexVal? (hexDigit d) = some d := by
  revert d
  decide

theorem space_le_of_hexVal? {d : UInt8} {v : Nat} (h : hexVal? d = some v) : 0x20 ≤ d := by
  unfold hexVal? at h
  split at h
  · exact UInt8.le_trans (show (0x20 : UInt8) ≤ 48 by decide) ‹48 ≤ d ∧ d ≤ 57›.1
  · split at h
    · exact UInt8.le_trans (show (0x20 : UInt8) ≤ 97 by decide) ‹97 ≤ d ∧ d ≤ 102›.1
    · split at h
      · exact UInt8.le_trans (show (0x20 : UInt8) ≤ 65 by decide) ‹65 ≤ d ∧ d ≤ 70›.1
      · cases h

theorem escapeCode?_117 : escapeCode? 117 = none := by decide

theorem space_le_of_escapeCode? {e : UInt8} {c : Nat} (h : escapeCode? e = some c) : 0x20 ≤ e := by
  unfold escapeCode? at h
  repeat' split at h
  all_goals first | (subst e; decide) | cases h

/-! ### Building text -/

theorem Ch.append {t r : List UInt8} {c : Nat} (h : Ch t c r) (s : List UInt8) : Ch (t ++ s) c (r ++ s) := by
  cases h with
  | unescaped space quote backslash => exact .unescaped space quote backslash
  | escape code => exact .escape code
  | codePoint h₁ h₂ h₃ h₄ => exact .codePoint h₁ h₂ h₃ h₄

theorem Body.append {t s : List UInt8} {cs ds : List Nat} (first : Body t cs) (rest : Body s ds) :
    Body (t ++ s) (cs ++ ds) := by
  induction first with
  | nil => exact rest
  | cons ch _ ih => exact .cons (ch.append s) ih

theorem Body.single {t : List UInt8} {c : Nat} (h : Ch t c []) : Body t [c] :=
  .cons h .nil

theorem Body.flatMap {α : Type} (f : α → List UInt8) (g : α → Nat) (l : List α)
    (each : ∀ x ∈ l, Body (f x) [g x]) : Body (l.flatMap f) (l.map g) := by
  induction l with
  | nil => exact .nil
  | cons x l ih =>
    rw [List.flatMap_cons, List.map_cons, ← List.singleton_append]
    exact (each x (by simp)).append (ih fun y mem => each y (by simp [mem]))

theorem Ch.uEscape {v : Nat} (small : v < 65536) (r : List UInt8) : Ch (uEscape v ++ r) v r := by
  have digits := Ch.codePoint (r := r) (hexVal?_hexDigit (Nat.mod_lt (v / 4096) (by omega)))
    (hexVal?_hexDigit (Nat.mod_lt (v / 256) (by omega))) (hexVal?_hexDigit (Nat.mod_lt (v / 16) (by omega)))
    (hexVal?_hexDigit (Nat.mod_lt v (by omega)))
  have value : ((v / 4096 % 16 * 16 + v / 256 % 16) * 16 + v / 16 % 16) * 16 + v % 16 = v := by omega
  rw [value] at digits
  exact digits

/-! ### Reading text -/

theorem Body.space_le {t : List UInt8} {cs : List Nat} (h : Body t cs) : ∀ b ∈ t, 0x20 ≤ b := by
  induction h with
  | nil => simp
  | cons ch _ ih =>
    cases ch with
    | unescaped space _ _ =>
      intro b mem
      rcases List.mem_cons.mp mem with rfl | later
      · exact space
      · exact ih b later
    | escape code =>
      have letter := space_le_of_escapeCode? code
      simp only [List.mem_cons]
      rintro b (rfl | rfl | later)
      · decide
      · exact letter
      · exact ih b later
    | codePoint h₁ h₂ h₃ h₄ =>
      simp only [List.mem_cons]
      rintro b (rfl | rfl | rfl | rfl | rfl | rfl | later)
      · decide
      · decide
      · exact space_le_of_hexVal? h₁
      · exact space_le_of_hexVal? h₂
      · exact space_le_of_hexVal? h₃
      · exact space_le_of_hexVal? h₄
      · exact ih b later

theorem Ch.unique {t r r' : List UInt8} {c c' : Nat} (h : Ch t c r) (h' : Ch t c' r') : c = c' ∧ r = r' := by
  cases h with
  | unescaped _ _ backslash =>
    cases h' with
    | unescaped => exact ⟨rfl, rfl⟩
    | escape => exact absurd rfl backslash
    | codePoint => exact absurd rfl backslash
  | escape code =>
    cases h' with
    | unescaped _ _ backslash => exact absurd rfl backslash
    | escape code' => exact ⟨Option.some.inj (code.symm.trans code'), rfl⟩
    | codePoint => simp [escapeCode?_117] at code
  | codePoint h₁ h₂ h₃ h₄ =>
    cases h' with
    | unescaped _ _ backslash => exact absurd rfl backslash
    | escape code => simp [escapeCode?_117] at code
    | codePoint h₁' h₂' h₃' h₄' =>
      rw [h₁] at h₁'
      rw [h₂] at h₂'
      rw [h₃] at h₃'
      rw [h₄] at h₄'
      cases h₁'
      cases h₂'
      cases h₃'
      cases h₄'
      exact ⟨rfl, rfl⟩

theorem Body.unique {t : List UInt8} {cs ds : List Nat} (h : Body t cs) (h' : Body t ds) : cs = ds := by
  induction h generalizing ds with
  | nil =>
    cases h' with
    | nil => rfl
    | cons ch _ => cases ch
  | cons ch _ ih =>
    cases h' with
    | nil => cases ch
    | cons ch' rest' =>
      obtain ⟨rfl, rfl⟩ := ch.unique ch'
      rw [ih rest']

theorem Body.iff {t : List UInt8} {cs : List Nat} (h : Body t cs) (ds : List Nat) : Body t ds ↔ ds = cs :=
  ⟨fun h' => (h.unique h').symm, fun same => same ▸ h⟩

end JsonString
