import Mathlib.Data.List.Basic
import Mathlib.Algebra.Order.BigOperators.Group.List

/-! A fixed table of slots kept as a list read with a default, and buffers that
collect the payloads of the packets of a message. -/
namespace Slots

variable {α : Type*}

theorem getD_set {slots : List α} {i : Nat} (x : α) (inside : i < slots.length) (k : Nat) (d : α) :
    (slots.set i x).getD k d = if k = i then x else slots.getD k d := by
  simp only [List.getD_eq_getElem?_getD, List.getElem?_set]
  by_cases same : i = k
  · subst k
    simp [inside]
  · simp [same, Ne.symm same]

variable {β : Type*}

theorem flatten_take_one (payloads : List (List β)) :
    (payloads.take 1).flatten = payloads.getD 0 [] := by
  cases payloads with
  | nil => rfl
  | cons first rest => simp

theorem flatten_take_succ {payloads : List (List β)} {j : Nat} (inside : j < payloads.length) :
    (payloads.take (j + 1)).flatten = (payloads.take j).flatten ++ payloads.getD j [] := by
  rw [List.take_add_one, List.flatten_append, List.getElem?_eq_getElem inside,
    List.getD_eq_getElem?_getD, List.getElem?_eq_getElem inside]
  simp

theorem length_flatten_take_le {payloads : List (List β)} {size : Nat}
    (sized : ∀ p ∈ payloads, p.length ≤ size) (j : Nat) :
    ((payloads.take j).flatten).length ≤ size * j := by
  induction payloads generalizing j with
  | nil => simp
  | cons first rest ih =>
    cases j with
    | zero => simp
    | succ j =>
      have head := sized first (by simp)
      have tail := ih (fun p mem => sized p (by simp [mem])) j
      simp only [List.take_succ_cons, List.flatten_cons, List.length_append]
      rw [Nat.mul_succ]
      omega

end Slots
