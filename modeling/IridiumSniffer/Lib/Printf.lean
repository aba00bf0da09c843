import Mathlib
import IridiumSniffer.Lib.Access

/-! `snprintf` into an array of a logged machine. `snprintf(a + p, room, …)` of
a text writes as much of the text as leaves room for the terminating `0`, then
that `0`, when `room > 0`, and returns the length of the whole text, written or
not. Output code calls such functions in sequence, each from the position the
last returned: `within_foldlM` is the rule for that. -/
namespace Access

variable {A K : Type} [DecidableEq A]

def snprintf (a : A) (p room : Nat) (text : List K) (nul : K) : Prog A K Nat := do
  (if 0 < room then storeAll a p (text.take (room - 1) ++ [nul]) else pure ())
  pure text.length

theorem snprintf_run (a : A) (p : Nat) {room : Nat} (text : List K) (nul : K) (m : Machine A K) (positive : 0 < room) :
    (snprintf a p room text nul).run m = (text.length, ((storeAll a p (text.take (room - 1) ++ [nul])).run m).2) := by
  simp only [snprintf, run_bind, run_pure, if_pos positive]

theorem snprintf_fst (a : A) (p room : Nat) (text : List K) (nul : K) (m : Machine A K) :
    ((snprintf a p room text nul).run m).1 = text.length := by
  unfold snprintf
  split <;> rfl

theorem snprintf_range (a : A) (p : Nat) {room : Nat} (text : List K) (nul : K) (m : Machine A K)
    (positive : 0 < room) :
    (List.range (p + min text.length (room - 1))).map (((snprintf a p room text nul).run m).2.mem a) =
        (List.range p).map (m.mem a) ++ text.take (room - 1) ∧
      ((snprintf a p room text nul).run m).2.mem a (p + min text.length (room - 1)) = nul := by
  rw [snprintf_run a p text nul m positive]
  have fit : (text.take (room - 1)).length = min text.length (room - 1) := List.length_take.trans (Nat.min_comm _ _)
  constructor
  · rw [storeAll_range a p _ m (by simp [fit]), ← fit, List.take_left]
  · rw [storeAll_mem, if_pos ⟨rfl, Nat.le_add_right _ _⟩, Nat.add_sub_cancel_left, ← fit, List.getElem?_concat_length]
    rfl

theorem within_snprintf {rd wr : A × Nat → Prop} {a : A} {p room : Nat} {text : List K} {nul : K}
    (ok : ∀ k < room, wr (a, p + k)) : Within rd wr (fun n => n = text.length) (snprintf a p room text nul) := by
  refine within_bind (within_ite (fun positive => within_storeAll fun k below => ok k ?_) fun _ => within_pure trivial)
    fun _ _ => within_pure rfl
  simp only [List.length_append, List.length_take, List.length_singleton] at below
  omega

omit [DecidableEq A] in
theorem foldRange_load (a : A) (p n : Nat) (acc : List K) (m : Machine A K) :
    ((foldRange p n (fun j out => do
        let c ← load a j
        pure (out ++ [c])) acc).run m).1 = acc ++ (List.range' p n).map (m.mem a) := by
  induction n generalizing p acc m with
  | zero => simp only [foldRange, run_pure, List.range'_zero, List.map_nil, List.append_nil]
  | succ n ih =>
    simp only [foldRange, run_bind, run_load, run_pure]
    rw [ih]
    simp [List.range'_succ]

omit [DecidableEq A] in
/-- Calls in sequence, each from what the last returned, stay within the
bounds when each call does from a value `inv` holds of, and keeps `inv`. -/
theorem within_foldlM {β γ : Type} {rd wr : A × Nat → Prop} {inv : β → Prop} {f : β → γ → Prog A K β}
    (each : ∀ b x, inv b → Within rd wr inv (f b x)) :
    ∀ (xs : List γ) {b : β}, inv b → Within rd wr inv (xs.foldlM f b)
  | [], _, init => within_pure init
  | x :: xs, b, init => within_bind (each b x init) fun _ kept => within_foldlM each xs kept

end Access
