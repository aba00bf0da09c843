import Mathlib.Logic.Function.Basic
import Mathlib.Data.List.Nodup

/-! A lookup table filled by a sequence of guarded writes: each candidate is
written at its key when the guard accepts the key and the entry found there.
When the candidates' keys are distinct, every accepted candidate is what the
finished table holds at its key; an invariant of every entry written and of the
initial entries holds of the whole table. -/
namespace TableFill

variable {κ β : Type*} [DecidableEq κ]

/-- Writes the candidates in order, each only when `guard` accepts it. -/
def fill (guard : κ → β → Bool) (table : κ → β) (cands : List (κ × β)) : κ → β :=
  cands.foldl (fun t c => if guard c.1 (t c.1) then Function.update t c.1 c.2 else t) table

@[simp] theorem fill_nil (guard : κ → β → Bool) (table : κ → β) : fill guard table [] = table := rfl

theorem fill_cons (guard : κ → β → Bool) (table : κ → β) (c : κ × β) (cands : List (κ × β)) :
    fill guard table (c :: cands) =
      fill guard (if guard c.1 (table c.1) then Function.update table c.1 c.2 else table) cands := rfl

theorem fill_of_not_mem (guard : κ → β → Bool) (table : κ → β) (cands : List (κ × β)) (key : κ)
    (absent : key ∉ cands.map Prod.fst) : fill guard table cands key = table key := by
  induction cands generalizing table with
  | nil => rfl
  | cons c cands ih =>
    simp only [List.map_cons, List.mem_cons, not_or] at absent
    rw [fill_cons, ih _ absent.2]
    split
    · exact Function.update_of_ne absent.1 _ _
    · rfl

theorem fill_of_mem (guard : κ → β → Bool) (table : κ → β) (cands : List (κ × β))
    (distinct : (cands.map Prod.fst).Nodup) {c : κ × β} (member : c ∈ cands)
    (accepted : guard c.1 (table c.1) = true) : fill guard table cands c.1 = c.2 := by
  induction cands generalizing table with
  | nil => simp at member
  | cons d cands ih =>
    simp only [List.map_cons, List.nodup_cons] at distinct
    rw [fill_cons]
    rcases List.mem_cons.mp member with rfl | later
    · rw [if_pos accepted, fill_of_not_mem _ _ _ _ distinct.1]
      simp
    · have other : c.1 ≠ d.1 := fun same => distinct.1 (same ▸ List.mem_map_of_mem later)
      apply ih _ distinct.2 later
      split
      · rwa [Function.update_of_ne other]
      · exact accepted

/-- A property of keys and entries that holds initially and of every candidate
holds of the filled table. -/
theorem fill_invariant (guard : κ → β → Bool) (P : κ → β → Prop) (table : κ → β)
    (cands : List (κ × β)) (initial : ∀ key, P key (table key)) (each : ∀ c ∈ cands, P c.1 c.2) :
    ∀ key, P key (fill guard table cands key) := by
  induction cands generalizing table with
  | nil => exact initial
  | cons c cands ih =>
    rw [fill_cons]
    apply ih _ _ (fun d member => each d (List.mem_cons_of_mem _ member))
    intro key
    split
    · by_cases same : key = c.1
      · subst key
        simpa using each c List.mem_cons_self
      · rw [Function.update_of_ne same]
        exact initial key
    · exact initial key

end TableFill
