import Mathlib

/-! A ring of `N` slots written at a cursor that wraps at `N`, read as the last
`N` elements of the stream written into it. `Stores N buf s` says that each of
the last `N` positions `q` of the stream `s` sits in slot `q % N`, and
`Unwritten N init buf s` that the slots the stream has not reached yet keep
their first contents. A read of `len` slots from a cursor is then a slice of
the stream when it lies in the last `N` positions, and otherwise what the
slots hold: an element `N` positions later or earlier, or a first content. -/
namespace Ring

variable {α : Type*} (N : Nat)

def push (st : (Nat → α) × Nat) (x : α) : (Nat → α) × Nat :=
  (Function.update st.1 st.2 x, (st.2 + 1) % N)

def pushAll (st : (Nat → α) × Nat) (xs : List α) : (Nat → α) × Nat :=
  xs.foldl (push N) st

/-- `len` slots from slot `pos` on, the cursor wrapping at `N`. -/
def readFrom (buf : Nat → α) : Nat → Nat → List α
  | 0, _ => []
  | len + 1, pos => buf pos :: readFrom buf len ((pos + 1) % N)

def Stores (buf : Nat → α) (s : List α) : Prop :=
  ∀ q (h : q < s.length), s.length ≤ q + N → buf (q % N) = s[q]

def Unwritten (init buf : Nat → α) (s : List α) : Prop :=
  ∀ j, s.length ≤ j → j < N → buf j = init j

variable {N}

theorem mod_ne_of_lt {q p : Nat} (before : q < p) (near : p < q + N) : q % N ≠ p % N := by
  intro same
  have dvd : N ∣ p - q := (Nat.modEq_iff_dvd' before.le).mp same
  exact absurd (Nat.le_of_dvd (by omega) dvd) (by omega)

theorem stores_nil (buf : Nat → α) : Stores N buf [] := nofun

theorem unwritten_nil (init : Nat → α) : Unwritten N init init [] := fun _ _ _ => rfl

theorem Stores.push {buf : Nat → α} {s : List α} (h : Stores N buf s) (x : α) :
    Stores N (Function.update buf (s.length % N) x) (s ++ [x]) := by
  intro q below window
  rw [List.length_append, List.length_singleton] at below window
  by_cases last : q = s.length
  · subst last
    rw [Function.update_self, List.getElem_append_right (Nat.le_refl _)]
    simp
  · have earlier : q < s.length := by omega
    rw [Function.update_of_ne (mod_ne_of_lt earlier (by omega)), List.getElem_append_left earlier]
    exact h q earlier (by omega)

theorem Unwritten.push {init buf : Nat → α} {s : List α} (h : Unwritten N init buf s) (x : α) :
    Unwritten N init (Function.update buf (s.length % N) x) (s ++ [x]) := by
  intro j past below
  rw [List.length_append, List.length_singleton] at past
  have other : j ≠ s.length % N := by
    have := Nat.mod_le s.length N
    omega
  rw [Function.update_of_ne other]
  exact h j (by omega) below

theorem push_cursor (buf : Nat → α) (s : List α) (x : α) :
    push N (buf, s.length % N) x = (Function.update buf (s.length % N) x, (s ++ [x]).length % N) := by
  simp [push, Nat.mod_add_mod]

theorem pushAll_stores {buf : Nat → α} {s : List α} (h : Stores N buf s) (xs : List α) :
    (pushAll N (buf, s.length % N) xs).2 = (s ++ xs).length % N ∧
      Stores N (pushAll N (buf, s.length % N) xs).1 (s ++ xs) := by
  induction xs generalizing buf s with
  | nil => exact ⟨by simp [pushAll], by simpa [pushAll] using h⟩
  | cons x xs ih =>
    have rest := ih (h.push x)
    simp only [List.append_assoc, List.singleton_append] at rest
    simpa only [pushAll, List.foldl_cons, push_cursor] using rest

theorem pushAll_unwritten {init buf : Nat → α} {s : List α} (h : Unwritten N init buf s) (xs : List α) :
    Unwritten N init (pushAll N (buf, s.length % N) xs).1 (s ++ xs) := by
  induction xs generalizing buf s with
  | nil => simpa [pushAll] using h
  | cons x xs ih =>
    have rest := ih (h.push x)
    simp only [List.append_assoc, List.singleton_append] at rest
    simpa only [pushAll, List.foldl_cons, push_cursor] using rest

theorem readFrom_eq (buf : Nat → α) (len : Nat) {pos : Nat} (inside : pos < N) :
    readFrom N buf len pos = (List.range len).map fun i => buf ((pos + i) % N) := by
  induction len generalizing pos with
  | zero => rfl
  | succ len ih =>
    rw [readFrom, ih (Nat.mod_lt _ (by omega)), List.range_succ_eq_map, List.map_cons, List.map_map]
    congr 1
    · rw [Nat.add_zero, Nat.mod_eq_of_lt inside]
    · apply List.map_congr_left
      intro i _
      simp only [Function.comp, Nat.mod_add_mod]
      congr 2
      omega

theorem Stores.readFrom {buf : Nat → α} {s : List α} (h : Stores N buf s) {start len : Nat}
    (recent : s.length ≤ start + N) (written : start + len ≤ s.length) :
    Ring.readFrom N buf len (start % N) = (s.drop start).take len := by
  rcases Nat.eq_zero_or_pos N with rfl | positive
  · obtain rfl : len = 0 := by omega
    rfl
  rw [readFrom_eq buf len (Nat.mod_lt start positive)]
  apply List.ext_getElem
  · simp
    omega
  · intro i left _
    simp only [List.length_map, List.length_range] at left
    simp only [List.getElem_map, List.getElem_range, List.getElem_take, List.getElem_drop, Nat.mod_add_mod]
    exact h (start + i) (by omega) (by omega)

theorem Stores.ahead {buf : Nat → α} {s : List α} (h : Stores N buf s) {q : Nat} (past : s.length ≤ q)
    (near : q < s.length + N) (full : N ≤ q) : buf (q % N) = s[q - N] := by
  rw [Nat.mod_eq_sub_mod full]
  exact h (q - N) (by omega) (by omega)

theorem Stores.behind {buf : Nat → α} {s : List α} (h : Stores N buf s) {q : Nat} (old : q + N < s.length)
    (near : s.length ≤ q + N + N) : buf (q % N) = s[q + N] := by
  rw [← Nat.add_mod_right q N]
  exact h (q + N) old near

theorem Unwritten.ahead {init buf : Nat → α} {s : List α} (h : Unwritten N init buf s) {q : Nat}
    (past : s.length ≤ q) (below : q < N) : buf (q % N) = init q := by
  rw [Nat.mod_eq_of_lt below]
  exact h q past below

end Ring
