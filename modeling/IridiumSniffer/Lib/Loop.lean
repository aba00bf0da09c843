import Mathlib.Order.Basic

/-! A `while` loop run for at most a given number of iterations, with the rules
that reasoning about it needs: the loop invariant holds on exit together with
the negated condition, a measure that every iteration lowers bounds the fuel
that suffices, and a run that finished gives the same result with more fuel. -/
namespace Loop

variable {σ : Type*} (cond : σ → Bool) (body : σ → σ)

/-- `while (cond s) s = body s;` run at most `fuel` times: `none` when the fuel
runs out with the condition still true. -/
def run : Nat → σ → Option σ
  | 0, s => if cond s then none else some s
  | fuel + 1, s => if cond s then run fuel (body s) else some s

variable {cond body}

theorem run_of_false {fuel : Nat} {s : σ} (stop : cond s = false) : run cond body fuel s = some s := by
  cases fuel <;> simp [run, stop]

theorem run_of_true {fuel : Nat} {s : σ} (go : cond s = true) :
    run cond body (fuel + 1) s = run cond body fuel (body s) := by
  simp [run, go]

/-- The `while` rule: an invariant that the body keeps whenever the condition
holds is true on exit, and the condition is then false. -/
theorem run_invariant (inv : σ → Prop) (step : ∀ s, inv s → cond s = true → inv (body s)) :
    ∀ {fuel : Nat} {s t : σ}, inv s → run cond body fuel s = some t → inv t ∧ cond t = false := by
  intro fuel
  induction fuel with
  | zero =>
    intro s t start done
    cases test : cond s
    · rw [run_of_false test, Option.some.injEq] at done
      exact done ▸ ⟨start, test⟩
    · simp [run, test] at done
  | succ fuel ih =>
    intro s t start done
    cases test : cond s
    · rw [run_of_false test, Option.some.injEq] at done
      exact done ▸ ⟨start, test⟩
    · rw [run_of_true test] at done
      exact ih (step s start test) done

/-- Termination: if every iteration from an invariant state lowers a measure,
fuel at least the measure of the start runs the loop to its end. -/
theorem run_isSome (inv : σ → Prop) (step : ∀ s, inv s → cond s = true → inv (body s))
    (measure : σ → Nat) (lower : ∀ s, inv s → cond s = true → measure (body s) < measure s) :
    ∀ {fuel : Nat} {s : σ}, inv s → measure s ≤ fuel → ∃ t, run cond body fuel s = some t := by
  intro fuel
  induction fuel with
  | zero =>
    intro s start enough
    cases test : cond s
    · exact ⟨s, run_of_false test⟩
    · exact absurd (lower s start test) (by omega)
  | succ fuel ih =>
    intro s start enough
    cases test : cond s
    · exact ⟨s, run_of_false test⟩
    · rw [run_of_true test]
      exact ih (step s start test) (by have := lower s start test; omega)

theorem run_add {fuel : Nat} {s t : σ} (done : run cond body fuel s = some t) (extra : Nat) :
    run cond body (fuel + extra) s = some t := by
  induction fuel generalizing s with
  | zero =>
    cases test : cond s
    · rw [run_of_false test] at done ⊢
      exact done
    · simp [run, test] at done
  | succ fuel ih =>
    cases test : cond s
    · rw [run_of_false test] at done ⊢
      exact done
    · rw [run_of_true test] at done
      rw [show fuel + 1 + extra = (fuel + extra) + 1 by omega, run_of_true test]
      exact ih done

section Early

variable {α β : Type*}

/-- `inv` holds of what an `Except β β` carries, error or not. -/
def Holds (inv : β → Prop) : Except β β → Prop
  | .ok b => inv b
  | .error e => inv e

/-- A left fold in `Except` whose error leaves the loop early, as a `goto` out
of it does: an invariant that each step keeps, into either outcome, holds of
the outcome of the whole fold. -/
theorem foldlM_invariant (inv : β → Prop) (f : β → α → Except β β)
    (step : ∀ b a, inv b → Holds inv (f b a)) : ∀ (l : List α) {b : β}, inv b → Holds inv (l.foldlM f b)
  | [], _, start => start
  | a :: l, b, start => by
    have first := step b a start
    rw [List.foldlM_cons]
    cases result : f b a with
    | error e =>
      rw [result] at first
      exact first
    | ok b₁ =>
      rw [result] at first
      exact foldlM_invariant inv f step l first

end Early

end Loop
