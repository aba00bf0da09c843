import Mathlib.Data.List.Count
import Mathlib.Order.Basic

/-! Messages sent packet by packet and received interleaved with other traffic.
An arrival is packet `j` (from 0) of message `m`, or `none` for anything else.
A trace is ordered when the packets of each message come in order and a
message begins only while no message it clashes with is in flight; then no two
clashing messages are ever in flight together. -/
namespace Arrivals

variable {α : Type*} [DecidableEq α]

/-- Packets of message `m` among the arrivals `done`. -/
def received (m : α) (done : List (Option (α × Nat))) : Nat :=
  done.countP fun a => a.map Prod.fst == some m

theorem received_append (m : α) (done : List (Option (α × Nat))) (a : Option (α × Nat)) :
    received m (done ++ [a]) = received m done + if a.map Prod.fst = some m then 1 else 0 := by
  simp only [received, List.countP_append, List.countP_singleton, beq_iff_eq]

@[simp] theorem received_nil (m : α) : received m [] = 0 := rfl

@[simp] theorem received_self (m : α) (j : Nat) (done : List (Option (α × Nat))) :
    received m (done ++ [some (m, j)]) = received m done + 1 := by
  simp [received_append]

theorem received_other {m : α} {a : Option (α × Nat)} (other : a.map Prod.fst ≠ some m)
    (done : List (Option (α × Nat))) : received m (done ++ [a]) = received m done := by
  simp [received_append, other]

variable (count : α → Nat) (clash : α → α → Prop)

/-- Message `m` has begun and not ended: some but not all of its `count m`
packets have arrived. -/
def Open (done : List (Option (α × Nat))) (m : α) : Prop :=
  0 < received m done ∧ received m done < count m

/-- The arrival after `done` keeps the order: a message's packets come in
order, and its first packet only when no message it clashes with is open. -/
def Next (done : List (Option (α × Nat))) : Option (α × Nat) → Prop
  | none => True
  | some (m, j) => j = received m done ∧ j < count m ∧
      (j = 0 → ∀ m', m' ≠ m → clash m m' → ¬ Open count done m')

/-- Every arrival after `done` is `Next`. -/
def Ordered : List (Option (α × Nat)) → List (Option (α × Nat)) → Prop
  | _, [] => True
  | done, a :: rest => Next count clash done a ∧ Ordered (done ++ [a]) rest

/-- No two clashing messages are open at once. -/
def Exclusive (done : List (Option (α × Nat))) : Prop :=
  ∀ m m', Open count done m → Open count done m' → clash m m' → m = m'

variable {count clash}

theorem open_other {done : List (Option (α × Nat))} {a : Option (α × Nat)} {m : α}
    (other : a.map Prod.fst ≠ some m) : Open count (done ++ [a]) m ↔ Open count done m := by
  simp only [Open, received_other other]

theorem open_of_next {done : List (Option (α × Nat))} {m : α} {j : Nat}
    (next : Next count clash done (some (m, j + 1))) : Open count done m := by
  obtain ⟨arrived, bound, -⟩ := next
  exact ⟨by omega, by omega⟩

theorem exclusive_nil : Exclusive count clash [] := by
  intro m m' first
  simp [Open] at first

/-- A message opened by a first packet clashes with no other open message, and
one continued was open before. -/
theorem exclusive_next (symm : ∀ m m', clash m m' → clash m' m) {done : List (Option (α × Nat))}
    {a : Option (α × Nat)} (exclusive : Exclusive count clash done) (next : Next count clash done a) :
    Exclusive count clash (done ++ [a]) := by
  -- the arriving message is open after the step only if it was open before or has just begun
  have arriving : ∀ m j, a = some (m, j) → Open count (done ++ [a]) m →
      Open count done m ∨ (j = 0 ∧ ∀ m', m' ≠ m → clash m m' → ¬ Open count done m') := by
    rintro m j rfl opened
    obtain ⟨arrived, -, fresh⟩ := next
    rw [Open, received_self] at opened
    by_cases start : j = 0
    · exact Or.inr ⟨start, fresh start⟩
    · exact Or.inl ⟨by omega, by omega⟩
  -- a message other than the arriving one is open after the step iff it was before
  have before : ∀ m, a.map Prod.fst ≠ some m → Open count (done ++ [a]) m → Open count done m :=
    fun m other opened => (open_other other).mp opened
  intro m1 m2 open1 open2 same
  by_cases first : a.map Prod.fst = some m1
  · cases a with
    | none => simp at first
    | some p =>
      obtain ⟨m, j⟩ := p
      simp only [Option.map_some, Option.some.injEq] at first
      subst first
      by_cases second : m2 = m
      · exact second.symm
      have other2 := before m2 (by simpa using Ne.symm second) open2
      rcases arriving m j rfl open1 with was | ⟨-, fresh⟩
      · exact exclusive m m2 was other2 same
      · exact absurd other2 (fresh m2 second same)
  · by_cases second : a.map Prod.fst = some m2
    · cases a with
      | none => simp at second
      | some p =>
        obtain ⟨m, j⟩ := p
        simp only [Option.map_some, Option.some.injEq] at second
        subst second
        have other1 := before m1 first open1
        rcases arriving m j rfl open2 with was | ⟨-, fresh⟩
        · exact exclusive m1 m other1 was same
        · have differ : m1 ≠ m := fun equal => first (by simp [equal])
          exact absurd other1 (fresh m1 differ (symm m1 m same))
    · exact exclusive m1 m2 (before m1 first open1) (before m2 second open2) same

end Arrivals
