import Mathlib

/-! Partial selection sort of an index array by a key. Round `i` scans
positions `i+1 .. n-1` for a strictly smaller key than the current minimum and
swaps the minimum into position `i`. After `k` rounds the array is a
permutation of the original whose first `k` entries have keys no larger than
any later entry. -/
namespace Selection

variable {α : Type*} [LinearOrder α]

/-- Position of the least key among positions `i .. n-1`, the first one on ties. -/
def argminFrom (key : Nat → α) (pos : List Nat) (i n : Nat) : Nat :=
  (List.range' (i + 1) (n - (i + 1))).foldl
    (fun m j => if key (pos.getD j 0) < key (pos.getD m 0) then j else m) i

/-- Exchanges the entries at `i` and `j`. -/
def swap (pos : List Nat) (i j : Nat) : List Nat :=
  (pos.set i (pos.getD j 0)).set j (pos.getD i 0)

/-- `k` rounds of selection sort on the first `n` positions. -/
def sortPrefix (key : Nat → α) (n k : Nat) (pos : List Nat) : List Nat :=
  (List.range k).foldl (fun pos i => swap pos i (argminFrom key pos i n)) pos

section
variable (key : Nat → α) (pos : List Nat)

private theorem scan_spec (i : Nat) :
    ∀ (len s m : Nat), i ≤ m → m < s → (∀ j, i ≤ j → j < s → key (pos.getD m 0) ≤ key (pos.getD j 0)) →
      let r := (List.range' s len).foldl
        (fun m j => if key (pos.getD j 0) < key (pos.getD m 0) then j else m) m
      i ≤ r ∧ r < s + len ∧ ∀ j, i ≤ j → j < s + len → key (pos.getD r 0) ≤ key (pos.getD j 0) := by
  intro len
  induction len with
  | zero =>
    intro s m low high least
    exact ⟨low, by simpa using high, by simpa using least⟩
  | succ len ih =>
    intro s m low high least
    simp only [List.range'_succ, List.foldl_cons]
    split
    · rename_i smaller
      have next := ih (s + 1) s (by omega) (by omega) (by
        intro j above below
        by_cases same : j = s
        · subst j; exact le_refl _
        · exact le_of_lt (lt_of_lt_of_le smaller (least j above (by omega))))
      simp only at next
      refine ⟨next.1, by omega, fun j above below => next.2.2 j above (by omega)⟩
    · rename_i notSmaller
      have next := ih (s + 1) m low (by omega) (by
        intro j above below
        by_cases same : j = s
        · subst j; exact le_of_not_gt notSmaller
        · exact least j above (by omega))
      simp only at next
      refine ⟨next.1, by omega, fun j above below => next.2.2 j above (by omega)⟩

theorem argminFrom_spec {i n : Nat} (inside : i < n) :
    i ≤ argminFrom key pos i n ∧ argminFrom key pos i n < n ∧
      ∀ j, i ≤ j → j < n → key (pos.getD (argminFrom key pos i n) 0) ≤ key (pos.getD j 0) := by
  have spec := scan_spec key pos i (n - (i + 1)) (i + 1) i (Nat.le_refl i) (by omega) (by
    intro j above below
    have same : j = i := by omega
    subst j
    exact le_refl _)
  simp only at spec
  unfold argminFrom
  refine ⟨spec.1, by omega, fun j above below => spec.2.2 j above (by omega)⟩

end

theorem getD_swap {pos : List Nat} {i j : Nat} (left : i < pos.length) (right : j < pos.length)
    (b : Nat) : (swap pos i j).getD b 0 =
      if b = j then pos.getD i 0 else if b = i then pos.getD j 0 else pos.getD b 0 := by
  simp only [swap, List.getD_eq_getElem?_getD, List.getElem?_set]
  by_cases atRight : j = b
  · subst b
    simp [right, left]
  · by_cases atLeft : i = b
    · subst b
      simp [left, right, atRight, Ne.symm atRight]
    · simp [atRight, atLeft, Ne.symm atRight, Ne.symm atLeft]

theorem swap_perm {pos : List Nat} {i j : Nat} (left : i < pos.length) (right : j < pos.length) :
    (swap pos i j).Perm pos := by
  have entries : swap pos i j = (pos.set i pos[j]).set j pos[i] := by
    simp [swap, List.getD_eq_getElem?_getD, List.getElem?_eq_getElem left,
      List.getElem?_eq_getElem right]
  rw [entries]
  exact List.set_set_perm left right

/-- Sorted prefix: after `k` rounds each of the first `k` keys is at most every
key after it. -/
def Prefixed (key : Nat → α) (n k : Nat) (pos : List Nat) : Prop :=
  ∀ a < k, ∀ b, a < b → b < n → key (pos.getD a 0) ≤ key (pos.getD b 0)

section
variable {key : Nat → α} {n : Nat}

private theorem round_prefixed {k : Nat} {pos : List Nat} (size : pos.length = n) (inside : k < n)
    (sorted : Prefixed key n k pos) :
    Prefixed key n (k + 1) (swap pos k (argminFrom key pos k n)) := by
  obtain ⟨low, high, least⟩ := argminFrom_spec key pos inside
  set m := argminFrom key pos k n
  intro a below b after bound
  rw [getD_swap (by omega) (by omega), getD_swap (by omega) (by omega)]
  by_cases early : a < k
  · have front : (if a = m then pos.getD k 0 else if a = k then pos.getD m 0 else pos.getD a 0) =
        pos.getD a 0 := by
      rw [if_neg (by omega), if_neg (by omega)]
    rw [front]
    split
    · exact sorted a early k (by omega) inside
    · split
      · exact sorted a early m (by omega) high
      · exact sorted a early b after bound
  · have atK : a = k := by omega
    subst a
    have front : (if k = m then pos.getD k 0 else if k = k then pos.getD m 0 else pos.getD k 0) =
        pos.getD m 0 := by
      by_cases meet : k = m
      · rw [if_pos meet, meet]
      · rw [if_neg meet, if_pos rfl]
    rw [front]
    split
    · exact least k (Nat.le_refl k) inside
    · rw [if_neg (by omega)]
      exact least b (by omega) bound

theorem sortPrefix_succ (pos : List Nat) (k : Nat) :
    sortPrefix key n (k + 1) pos =
      swap (sortPrefix key n k pos) k (argminFrom key (sortPrefix key n k pos) k n) := by
  simp [sortPrefix, List.range_succ, List.foldl_append]

theorem sortPrefix_spec (pos : List Nat) (size : pos.length = n) {k : Nat} (enough : k ≤ n) :
    (sortPrefix key n k pos).Perm pos ∧ Prefixed key n k (sortPrefix key n k pos) := by
  induction k with
  | zero => exact ⟨List.Perm.refl _, fun a below => by omega⟩
  | succ k ih =>
    obtain ⟨perm, sorted⟩ := ih (by omega)
    have length : (sortPrefix key n k pos).length = n := by rw [perm.length_eq, size]
    obtain ⟨low, high, -⟩ := argminFrom_spec key (sortPrefix key n k pos) (show k < n by omega)
    rw [sortPrefix_succ]
    refine ⟨(swap_perm (by omega) (by omega)).trans perm, round_prefixed length (by omega) sorted⟩

theorem least_of_sortPrefix (pos : List Nat) (size : pos.length = n) {k : Nat} (enough : k ≤ n)
    {p q : Nat} (chosen : p ∈ (sortPrefix key n k pos).take k)
    (rest : q ∈ (sortPrefix key n k pos).drop k) : key p ≤ key q := by
  have spec : (sortPrefix key n k pos).Perm pos ∧ Prefixed key n k (sortPrefix key n k pos) :=
    sortPrefix_spec pos size enough
  obtain ⟨perm, sorted⟩ := spec
  set sorted' := sortPrefix key n k pos
  have length : sorted'.length = n := by rw [perm.length_eq, size]
  obtain ⟨a, aBound, rfl⟩ := List.getElem_of_mem chosen
  obtain ⟨b, bBound, rfl⟩ := List.getElem_of_mem rest
  simp only [List.length_take, List.length_drop] at aBound bBound
  have first := sorted a (by omega) (k + b) (by omega) (by omega)
  simpa [List.getD_eq_getElem?_getD, List.getElem?_eq_getElem (show a < sorted'.length by omega),
    List.getElem?_eq_getElem (show k + b < sorted'.length by omega)] using first

end

end Selection
