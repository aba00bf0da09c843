import Mathlib

/-! Programs over a memory of named arrays that log every access. A program
is a state transformer of a `Machine`: `load` reads an entry and logs the read,
`store` writes one and logs the write. The loops are `forRange`, for
`for (i = start; i < start + count; i++)`, `foldRange`, for such a loop that
carries an accumulator, and `forBlocks`, for a vector loop
`for (; i + (width - 1) < n; i += width)` that leaves `i` to a scalar tail.
Their run rules give the effect of a whole loop from the effect of one
iteration on a family of states. -/
namespace Access

/-- Arrays of `K` named by `A`, and the reads and writes made so far. -/
structure Machine (A K : Type) where
  mem : A → Nat → K
  reads : List (A × Nat)
  writes : List (A × Nat)

/-- A program over a `Machine`. -/
abbrev Prog (A K α : Type) := StateM (Machine A K) α

variable {A K : Type}

/-- `mem` with entry `i` of array `a` set to `v`. -/
def write [DecidableEq A] (mem : A → Nat → K) (a : A) (i : Nat) (v : K) : A → Nat → K :=
  fun b j => if b = a ∧ j = i then v else mem b j

def load (a : A) (i : Nat) : Prog A K K :=
  fun m => (m.mem a i, { m with reads := m.reads ++ [(a, i)] })

def store [DecidableEq A] (a : A) (i : Nat) (v : K) : Prog A K Unit :=
  fun m => ((), { m with mem := write m.mem a i v, writes := m.writes ++ [(a, i)] })

/-- `for (i = start; i < start + count; i++) body(i);` -/
def forRange (start : Nat) : Nat → (Nat → Prog A K Unit) → Prog A K Unit
  | 0, _ => pure ()
  | count + 1, body => do
    body start
    forRange (start + 1) count body

/-- `for (i = start; i < start + count; i++) acc = body(i, acc);` -/
def foldRange {β : Type} (start : Nat) : Nat → (Nat → β → Prog A K β) → β → Prog A K β
  | 0, _, acc => pure acc
  | count + 1, body, acc => do
    let acc ← body start acc
    foldRange (start + 1) count body acc

/-- `for (; i + (width - 1) < n; i += width) body(i);` run at most `fuel`
times, and the `i` it stops at. -/
def forBlocks (width n : Nat) (body : Nat → Prog A K Unit) : Nat → Nat → Prog A K Nat
  | 0, i => pure i
  | fuel + 1, i =>
    if i + (width - 1) < n then do
      body i
      forBlocks width n body fuel (i + width)
    else pure i

/-- `for (; i + (width - 1) < n; i += width) acc = body(i, acc);` run at most
`fuel` times, and the `i` it stops at. -/
def foldBlocks {β : Type} (width n : Nat) (body : Nat → β → Prog A K β) : Nat → Nat → β → Prog A K (β × Nat)
  | 0, i, acc => pure (acc, i)
  | fuel + 1, i, acc =>
    if i + (width - 1) < n then do
      let acc ← body i acc
      foldBlocks width n body fuel (i + width) acc
    else pure (acc, i)

@[simp] theorem run_pure {α : Type} (v : α) (m : Machine A K) : (pure v : Prog A K α).run m = (v, m) := rfl

@[simp] theorem run_bind {α β : Type} (x : Prog A K α) (f : α → Prog A K β) (m : Machine A K) :
    (x >>= f).run m = (f (x.run m).1).run (x.run m).2 := rfl

@[simp] theorem run_load (a : A) (i : Nat) (m : Machine A K) :
    (load a i).run m = (m.mem a i, { m with reads := m.reads ++ [(a, i)] }) := rfl

@[simp] theorem run_store [DecidableEq A] (a : A) (i : Nat) (v : K) (m : Machine A K) :
    (store a i v).run m = ((), { m with mem := write m.mem a i v, writes := m.writes ++ [(a, i)] }) := rfl

/-- `mem` with entries `p, …, p + n - 1` of array `a` set to the lanes of `v`. -/
def writeLanes [DecidableEq A] (mem : A → Nat → K) (a : A) (p n : Nat) (v : Fin n → K) : A → Nat → K :=
  fun b j => if h : b = a ∧ p ≤ j ∧ j < p + n then v ⟨j - p, by omega⟩ else mem b j

/-- The entries `p, …, p + n - 1` of array `a`. -/
def offsets (a : A) (p n : Nat) : List (A × Nat) := (List.range n).map fun l => (a, p + l)

@[simp] theorem offsets_zero (a : A) (p : Nat) : offsets a p 0 = [] := rfl

@[simp] theorem mem_offsets {a b : A} {p n j : Nat} : (b, j) ∈ offsets a p n ↔ b = a ∧ p ≤ j ∧ j < p + n := by
  simp only [offsets, List.mem_map, List.mem_range, Prod.mk.injEq]
  constructor
  · rintro ⟨l, below, rfl, rfl⟩
    exact ⟨rfl, by omega, by omega⟩
  · rintro ⟨rfl, low, high⟩
    exact ⟨j - p, by omega, rfl, by omega⟩

/-- A vector load such as `_mm256_loadu_ps(&a[p])`: `n` entries from `p`, as lanes. -/
def loadLanes (a : A) (p n : Nat) : Prog A K (Fin n → K) :=
  fun m => (fun j => m.mem a (p + j), { m with reads := m.reads ++ offsets a p n })

/-- A vector store such as `_mm256_storeu_ps(&a[p], v)`. -/
def storeLanes [DecidableEq A] (a : A) (p n : Nat) (v : Fin n → K) : Prog A K Unit :=
  fun m => ((), { m with mem := writeLanes m.mem a p n v, writes := m.writes ++ offsets a p n })

theorem write_of_ne [DecidableEq A] {mem : A → Nat → K} {a b : A} (i j : Nat) (v : K) (other : b ≠ a) :
    write mem a i v b j = mem b j := by
  simp [write, other]

theorem writeLanes_of_ne [DecidableEq A] {mem : A → Nat → K} {a b : A} (p n j : Nat) (v : Fin n → K)
    (other : b ≠ a) : writeLanes mem a p n v b j = mem b j := by
  simp [writeLanes, other]

@[simp] theorem write_apply_self [DecidableEq A] (mem : A → Nat → K) (a : A) (i : Nat) (v : K) :
    write mem a i v a i = v := by
  simp [write]

theorem write_write [DecidableEq A] (mem : A → Nat → K) (a : A) (i : Nat) (v w : K) :
    write (write mem a i v) a i w = write mem a i w := by
  funext b j
  unfold write
  split <;> simp_all

/-- `a[p], a[p + 1], …` set to the values of `vs` in turn. -/
def storeAll [DecidableEq A] (a : A) (p : Nat) : List K → Prog A K Unit
  | [] => pure ()
  | v :: vs => do
    store a p v
    storeAll a (p + 1) vs

section StoreAll

variable [DecidableEq A]

theorem storeAll_mem (a : A) (p : Nat) (vs : List K) (m : Machine A K) (b : A) (j : Nat) :
    ((storeAll a p vs).run m).2.mem b j = if b = a ∧ p ≤ j then vs[j - p]?.getD (m.mem b j) else m.mem b j := by
  induction vs generalizing p m with
  | nil => simp only [storeAll, run_pure, List.getElem?_nil, Option.getD_none, ite_self]
  | cons v vs ih =>
    simp only [storeAll, run_bind, run_store, ih, write]
    by_cases array : b = a
    · subst array
      rcases Nat.lt_trichotomy j p with below | rfl | above
      · simp [show ¬ p ≤ j by omega, show ¬ p < j by omega, show j ≠ p by omega]
      · simp
      · have shift : j - p = j - (p + 1) + 1 := by omega
        simp [show p ≤ j by omega, show p + 1 ≤ j by omega, show j ≠ p by omega, shift]
    · simp [array]

theorem storeAll_other (a : A) (p : Nat) (vs : List K) (m : Machine A K) {b : A} (other : b ≠ a) :
    ((storeAll a p vs).run m).2.mem b = m.mem b := by
  funext j
  simp [storeAll_mem, other]

/-- The first `p + n` entries of `a` after the stores: the old first `p`,
then the first `n` values stored. -/
theorem storeAll_range (a : A) (p : Nat) (vs : List K) (m : Machine A K) {n : Nat} (le : n ≤ vs.length) :
    (List.range (p + n)).map (((storeAll a p vs).run m).2.mem a) = (List.range p).map (m.mem a) ++ vs.take n := by
  apply List.ext_getElem
  · simp [Nat.min_eq_left le]
  · intro j inside _
    simp only [List.length_map, List.length_range] at inside
    rw [List.getElem_map, List.getElem_range, storeAll_mem]
    by_cases below : j < p
    · rw [List.getElem_append_left (by simpa using below)]
      simp [show ¬ p ≤ j by omega]
    · rw [List.getElem_append_right (by simpa using below)]
      simp [show p ≤ j by omega, List.getElem?_eq_getElem (show j - p < vs.length by omega)]

theorem store_range (a : A) (p : Nat) (v : K) (m : Machine A K) :
    (List.range (p + 1)).map (((store a p v).run m).2.mem a) = (List.range p).map (m.mem a) ++ [v] :=
  storeAll_range a p [v] m (le_refl 1)

end StoreAll

theorem blocks_test {width n : Nat} (wide : 0 < width) (t : Nat) :
    width * t + (width - 1) < n ↔ t < n / width := by
  have whole : t + 1 ≤ n / width ↔ (t + 1) * width ≤ n := Nat.le_div_iff_mul_le wide
  rw [Nat.add_mul, Nat.one_mul, Nat.mul_comm t width] at whole
  calc width * t + (width - 1) < n ↔ width * t + width ≤ n := by omega
    _ ↔ t + 1 ≤ n / width := whole.symm
    _ ↔ t < n / width := Nat.add_one_le_iff

/-! ### Where a program reads and writes -/

/-- From any machine, `p` adds to the log only reads that `rd` allows and
writes that `wr` allows, and returns a value that `post` holds of. -/
def Within (rd wr : A × Nat → Prop) {α : Type} (post : α → Prop) (p : Prog A K α) : Prop :=
  ∀ m, post (p.run m).1 ∧ ∃ r w, (p.run m).2.reads = m.reads ++ r ∧ (p.run m).2.writes = m.writes ++ w ∧
    (∀ x ∈ r, rd x) ∧ ∀ x ∈ w, wr x

section Within

variable {rd wr : A × Nat → Prop}

theorem within_pure {α : Type} {post : α → Prop} {v : α} (ok : post v) :
    Within rd wr post (pure v : Prog A K α) :=
  fun _ => ⟨ok, [], [], (List.append_nil _).symm, (List.append_nil _).symm, by simp, by simp⟩

/-- Sequencing: the first program's accesses, then those of the rest from
whatever the first may return. -/
theorem within_bind {α β : Type} {Q : α → Prop} {R : β → Prop} {x : Prog A K α} {f : α → Prog A K β}
    (first : Within rd wr Q x) (rest : ∀ v, Q v → Within rd wr R (f v)) : Within rd wr R (x >>= f) := by
  intro m
  obtain ⟨returned, r₁, w₁, reads₁, writes₁, rd₁, wr₁⟩ := first m
  obtain ⟨post, r₂, w₂, reads₂, writes₂, rd₂, wr₂⟩ := rest (x.run m).1 returned (x.run m).2
  refine ⟨post, r₁ ++ r₂, w₁ ++ w₂, ?_, ?_, ?_, ?_⟩
  · rw [run_bind, reads₂, reads₁, List.append_assoc]
  · rw [run_bind, writes₂, writes₁, List.append_assoc]
  · intro y mem
    rcases List.mem_append.mp mem with early | late
    · exact rd₁ y early
    · exact rd₂ y late
  · intro y mem
    rcases List.mem_append.mp mem with early | late
    · exact wr₁ y early
    · exact wr₂ y late

theorem within_load {a : A} {i : Nat} (ok : rd (a, i)) :
    Within rd wr (fun _ => True) (load a i : Prog A K K) :=
  fun _ => ⟨trivial, [(a, i)], [], rfl, by simp, by simpa using ok, by simp⟩

theorem within_store [DecidableEq A] {a : A} {i : Nat} (ok : wr (a, i)) (v : K) :
    Within rd wr (fun _ => True) (store a i v) :=
  fun _ => ⟨trivial, [], [(a, i)], by simp, rfl, by simp, by simpa using ok⟩

theorem within_ite {α : Type} {post : α → Prop} {c : Prop} [Decidable c] {p q : Prog A K α}
    (yes : c → Within rd wr post p) (no : ¬ c → Within rd wr post q) :
    Within rd wr post (if c then p else q) := by
  split
  · exact yes ‹c›
  · exact no ‹¬ c›

theorem within_storeAll [DecidableEq A] {a : A} {p : Nat} {vs : List K} (ok : ∀ k < vs.length, wr (a, p + k)) :
    Within rd wr (fun _ => True) (storeAll a p vs) := by
  induction vs generalizing p with
  | nil => exact within_pure trivial
  | cons v vs ih =>
    refine within_bind (within_store (by simpa using ok 0 (by simp)) v) fun _ _ => ih fun k below => ?_
    rw [show p + 1 + k = p + (k + 1) by omega]
    exact ok (k + 1) (by simp [below])

theorem within_forRange {start count : Nat} {body : Nat → Prog A K Unit}
    (each : ∀ i, start ≤ i → i < start + count → Within rd wr (fun _ => True) (body i)) :
    Within rd wr (fun _ => True) (forRange start count body) := by
  induction count generalizing start with
  | zero => exact within_pure trivial
  | succ count ih =>
    exact within_bind (each start (le_refl _) (by omega)) fun _ _ =>
      ih fun i low high => each i (by omega) (by omega)

theorem within_foldRange {β : Type} {inv : β → Prop} {start count : Nat} {body : Nat → β → Prog A K β}
    {acc : β} (init : inv acc)
    (each : ∀ i acc, start ≤ i → i < start + count → inv acc → Within rd wr inv (body i acc)) :
    Within rd wr inv (foldRange start count body acc) := by
  induction count generalizing start acc with
  | zero => exact within_pure init
  | succ count ih =>
    exact within_bind (each start acc (le_refl _) (by omega) init) fun acc' kept =>
      ih kept fun i acc low high => each i acc (by omega) (by omega)

theorem within_foldRange_any {β : Type} {start count : Nat} {body : Nat → β → Prog A K β} {acc : β}
    (each : ∀ i acc, start ≤ i → i < start + count → Within rd wr (fun _ => True) (body i acc)) :
    Within rd wr (fun _ => True) (foldRange start count body acc) :=
  within_foldRange trivial fun i acc low high _ => each i acc low high

theorem within_loadLanes {a : A} {p n : Nat} (ok : ∀ j < n, rd (a, p + j)) :
    Within rd wr (fun _ => True) (loadLanes a p n : Prog A K (Fin n → K)) :=
  fun _ => ⟨trivial, offsets a p n, [], rfl, (List.append_nil _).symm,
    fun x mem => by
      obtain ⟨j, below, rfl⟩ := List.mem_map.mp mem
      exact ok j (List.mem_range.mp below), by simp⟩

theorem within_storeLanes [DecidableEq A] {a : A} {p n : Nat} (ok : ∀ j < n, wr (a, p + j)) (v : Fin n → K) :
    Within rd wr (fun _ => True) (storeLanes a p n v) :=
  fun _ => ⟨trivial, [], offsets a p n, (List.append_nil _).symm, rfl, by simp,
    fun x mem => by
      obtain ⟨j, below, rfl⟩ := List.mem_map.mp mem
      exact ok j (List.mem_range.mp below)⟩

theorem within_forBlocks {width n : Nat} {body : Nat → Prog A K Unit}
    (each : ∀ i, i + (width - 1) < n → Within rd wr (fun _ => True) (body i)) :
    ∀ fuel i, Within rd wr (fun _ => True) (forBlocks width n body fuel i)
  | 0, _ => within_pure trivial
  | fuel + 1, i => by
    unfold forBlocks
    exact within_ite (fun test => within_bind (each i test) fun _ _ => within_forBlocks each fuel (i + width))
      fun _ => within_pure trivial

theorem within_foldBlocks {β : Type} {inv : β → Prop} {width n : Nat} {body : Nat → β → Prog A K β}
    (each : ∀ i acc, i + (width - 1) < n → inv acc → Within rd wr inv (body i acc)) :
    ∀ fuel i {acc : β}, inv acc → Within rd wr (fun r => inv r.1) (foldBlocks width n body fuel i acc)
  | 0, _, _, init => within_pure init
  | fuel + 1, i, acc, init => by
    unfold foldBlocks
    exact within_ite (fun test => within_bind (each i acc test init) fun _ kept =>
      within_foldBlocks each fuel (i + width) kept) fun _ => within_pure init

theorem within_foldBlocks_any {β : Type} {width n : Nat} {body : Nat → β → Prog A K β}
    (each : ∀ i acc, i + (width - 1) < n → Within rd wr (fun _ => True) (body i acc)) (fuel i : Nat) {acc : β} :
    Within rd wr (fun _ => True) (foldBlocks width n body fuel i acc) :=
  within_foldBlocks (fun i acc test (_ : True) => each i acc test) fuel i trivial

end Within

/-! ### What a program computes -/

/-- From every machine whose memory is `mem`, `p` returns `v` and leaves the
memory `mem'`: what the program computes, which its logs never enter. -/
def Evals {α : Type} (p : Prog A K α) (mem : A → Nat → K) (v : α) (mem' : A → Nat → K) : Prop :=
  ∀ m : Machine A K, m.mem = mem → (p.run m).1 = v ∧ (p.run m).2.mem = mem'

section Evals

variable {α β : Type} {mem mem₁ mem₂ : A → Nat → K}

theorem evals_pure (v : α) (mem : A → Nat → K) : Evals (pure v : Prog A K α) mem v mem :=
  fun _ start => ⟨rfl, start⟩

theorem evals_pure_of_eq {v w : α} (same : v = w) (mem : A → Nat → K) : Evals (pure v : Prog A K α) mem w mem :=
  fun _ start => ⟨same, start⟩

theorem evals_load (a : A) (i : Nat) (mem : A → Nat → K) : Evals (load a i) mem (mem a i) mem := by
  rintro m rfl
  exact ⟨rfl, rfl⟩

theorem evals_store [DecidableEq A] (a : A) (i : Nat) (v : K) (mem : A → Nat → K) :
    Evals (store a i v) mem () (write mem a i v) := by
  rintro m rfl
  exact ⟨rfl, rfl⟩

theorem evals_loadLanes (a : A) (p n : Nat) (mem : A → Nat → K) :
    Evals (loadLanes a p n) mem (fun j => mem a (p + j)) mem := by
  rintro m rfl
  exact ⟨rfl, rfl⟩

theorem evals_storeLanes [DecidableEq A] (a : A) (p n : Nat) (v : Fin n → K) (mem : A → Nat → K) :
    Evals (storeLanes a p n v) mem () (writeLanes mem a p n v) := by
  rintro m rfl
  exact ⟨rfl, rfl⟩

theorem Evals.bind {x : Prog A K α} {f : α → Prog A K β} {v : α} {w : β} (first : Evals x mem v mem₁)
    (rest : Evals (f v) mem₁ w mem₂) : Evals (x >>= f) mem w mem₂ := by
  intro m start
  obtain ⟨returned, after⟩ := first m start
  rw [run_bind, returned]
  exact rest _ after

theorem Evals.of_eq {p : Prog A K α} {v : α} {mem' start finish : A → Nat → K} (h : Evals p start v finish)
    (first : start = mem) (last : finish = mem') : Evals p mem v mem' := by
  subst first last
  exact h

theorem Evals.unique {p : Prog A K α} {v w : α} {mem' mem'' : A → Nat → K} (one : Evals p mem v mem')
    (other : Evals p mem w mem'') : v = w ∧ mem' = mem'' := by
  obtain ⟨v_eq, mem_eq⟩ := one ⟨mem, [], []⟩ rfl
  obtain ⟨w_eq, mem_eq'⟩ := other ⟨mem, [], []⟩ rfl
  exact ⟨v_eq.symm.trans w_eq, mem_eq.symm.trans mem_eq'⟩

/-- The loop rule: iterations that take each memory of a family to the next
take the first to the last. -/
theorem evals_forRange (M : Nat → A → Nat → K) {start count : Nat} {body : Nat → Prog A K Unit}
    (step : ∀ i < count, Evals (body (start + i)) (M i) () (M (i + 1))) :
    Evals (forRange start count body) (M 0) () (M count) := by
  induction count generalizing start M with
  | zero => exact evals_pure () (M 0)
  | succ count ih =>
    have first := step 0 (by omega)
    rw [Nat.add_zero] at first
    have rest := @ih (fun i => M (i + 1)) (start + 1) fun i below => by
      rw [show start + 1 + i = start + (i + 1) by omega]
      exact step (i + 1) (by omega)
    exact first.bind rest

theorem evals_foldRange (S : Nat → β × (A → Nat → K)) {start count : Nat} {body : Nat → β → Prog A K β}
    (step : ∀ i < count, Evals (body (start + i) (S i).1) (S i).2 (S (i + 1)).1 (S (i + 1)).2) :
    Evals (foldRange start count body (S 0).1) (S 0).2 (S count).1 (S count).2 := by
  induction count generalizing start S with
  | zero => exact evals_pure _ _
  | succ count ih =>
    have first := step 0 (by omega)
    rw [Nat.add_zero] at first
    have rest := @ih (fun i => S (i + 1)) (start + 1) fun i below => by
      rw [show start + 1 + i = start + (i + 1) by omega]
      exact step (i + 1) (by omega)
    exact first.bind rest

theorem evals_foldRange_sum [AddCommMonoid β] (f : Nat → β) {start count : Nat} {body : Nat → β → Prog A K β}
    (step : ∀ k acc, start ≤ k → k < start + count → Evals (body k acc) mem (acc + f k) mem) (acc : β) :
    Evals (foldRange start count body acc) mem (acc + ∑ k ∈ Finset.range count, f (start + k)) mem := by
  have run : Evals (foldRange start count body (acc + ∑ k ∈ Finset.range 0, f (start + k))) mem
      (acc + ∑ k ∈ Finset.range count, f (start + k)) mem :=
    evals_foldRange (fun i => (acc + ∑ k ∈ Finset.range i, f (start + k), mem)) fun i below => by
      rw [Finset.sum_range_succ, ← add_assoc]
      exact step (start + i) _ (Nat.le_add_right _ _) (by omega)
  simpa only [Finset.range_zero, Finset.sum_empty, add_zero] using run

/-- The vector loop rule: with enough fuel the loop takes the memory of block
`t` to that of block `t + 1` for every whole block, and stops at the first
index past them. -/
theorem evals_forBlocks (M : Nat → A → Nat → K) {width n fuel : Nat} {body : Nat → Prog A K Unit}
    (wide : 0 < width) (enough : n / width ≤ fuel)
    (step : ∀ t < n / width, Evals (body (width * t)) (M t) () (M (t + 1))) :
    Evals (forBlocks width n body fuel 0) (M 0) (width * (n / width)) (M (n / width)) := by
  have from_block : ∀ k t, t ≤ n / width → n / width - t ≤ k →
      Evals (forBlocks width n body k (width * t)) (M t) (width * (n / width)) (M (n / width)) := by
    intro k
    induction k with
    | zero =>
      intro t below left
      obtain rfl : t = n / width := by omega
      exact evals_pure _ _
    | succ k ih =>
      intro t below left
      unfold forBlocks
      by_cases more : t < n / width
      · rw [if_pos ((blocks_test wide t).mpr more)]
        refine (step t more).bind ?_
        rw [show width * t + width = width * (t + 1) by ring]
        exact ih (t + 1) more (by omega)
      · obtain rfl : t = n / width := by omega
        rw [if_neg fun h => more ((blocks_test wide _).mp h)]
        exact evals_pure _ _
  simpa using from_block fuel 0 (Nat.zero_le _) (by omega)

/-- A vector loop of blocks of `width` entries and its scalar tail, over a
family `S i` of the memory after the first `i` entries: each block takes
`S (width t)` to `S (width t + width)` and each entry of the tail `S i` to
`S (i + 1)`. -/
theorem evals_blocks_tail (S : Nat → A → Nat → K) {width n : Nat} {body tail : Nat → Prog A K Unit}
    (wide : 0 < width) (block : ∀ t < n / width, Evals (body (width * t)) (S (width * t)) () (S (width * t + width)))
    (single : ∀ i, width * (n / width) ≤ i → i < n → Evals (tail i) (S i) () (S (i + 1))) :
    Evals (do
        let i ← forBlocks width n body n 0
        forRange i (n - i) tail) (S 0) () (S n) := by
  refine Evals.bind ((evals_forBlocks (fun t => S (width * t)) wide (Nat.div_le_self n width) fun t below => ?_).of_eq
    (by simp) rfl) ?_
  · rw [Nat.mul_succ]
    exact block t below
  · refine (evals_forRange (fun s => S (width * (n / width) + s)) fun s below => ?_).of_eq rfl ?_
    · rw [← Nat.add_assoc]
      exact single _ (Nat.le_add_right _ _) (by omega)
    · rw [Nat.add_sub_of_le (Nat.mul_div_le n width)]
/-- The vector loop rule for a loop that only reads, with an invariant `inv t`
of the accumulator after `t` blocks: with enough fuel it stops at the first
index past the whole blocks. -/
theorem evals_foldBlocks (inv : Nat → β → Prop) {post : β → Prop} {width n fuel : Nat}
    {body : Nat → β → Prog A K β} (wide : 0 < width) (enough : n / width ≤ fuel)
    (step : ∀ t < n / width, ∀ acc, inv t acc → ∃ next, inv (t + 1) next ∧ Evals (body (width * t) acc) mem next mem)
    {acc : β} (init : inv 0 acc) (last : ∀ r, inv (n / width) r → post r) :
    ∃ r, post r ∧ Evals (foldBlocks width n body fuel 0 acc) mem (r, width * (n / width)) mem := by
  have from_block : ∀ k t acc, t ≤ n / width → n / width - t ≤ k → inv t acc →
      ∃ r, post r ∧ Evals (foldBlocks width n body k (width * t) acc) mem (r, width * (n / width)) mem := by
    intro k
    induction k with
    | zero =>
      intro t acc below left holds
      obtain rfl : t = n / width := by omega
      exact ⟨acc, last acc holds, evals_pure _ _⟩
    | succ k ih =>
      intro t acc below left holds
      unfold foldBlocks
      by_cases more : t < n / width
      · obtain ⟨next, kept, first⟩ := step t more acc holds
        obtain ⟨r, done, rest⟩ := ih (t + 1) next more (by omega) kept
        rw [if_pos ((blocks_test wide t).mpr more)]
        refine ⟨r, done, first.bind ?_⟩
        rw [show width * t + width = width * (t + 1) by ring]
        exact rest
      · obtain rfl : t = n / width := by omega
        rw [if_neg fun h => more ((blocks_test wide _).mp h)]
        exact ⟨acc, last acc holds, evals_pure _ _⟩
  simpa using from_block fuel 0 acc (Nat.zero_le _) (by omega) init

theorem evals_foldBlocks_sum [AddCommMonoid β] (f : Nat → β) {width n fuel : Nat} {body : Nat → β → Prog A K β}
    (wide : 0 < width) (enough : n / width ≤ fuel)
    (step : ∀ t < n / width, ∀ acc, Evals (body (width * t) acc) mem (acc + f t) mem) (acc : β) :
    Evals (foldBlocks width n body fuel 0 acc) mem (acc + ∑ t ∈ Finset.range (n / width), f t, width * (n / width))
      mem := by
  obtain ⟨r, sum, run⟩ := evals_foldBlocks (fun T a => a = acc + ∑ t ∈ Finset.range T, f t)
    wide enough
    (fun t below a holds => ⟨a + f t, by rw [holds, Finset.sum_range_succ, add_assoc], step t below a⟩)
    (show acc = acc + ∑ t ∈ Finset.range 0, f t by simp) fun _ => id
  rw [← sum]
  exact run

end Evals

/-! ### Memory written up to a bound -/

/-- `mem` with the entries of `a` below `bound` set to those of `f`: the
output of a loop that has written the first `bound` entries of `a`. -/
def prefixed [DecidableEq A] (mem : A → Nat → K) (a : A) (bound : Nat) (f : Nat → K) : A → Nat → K :=
  fun b j => if b = a ∧ j < bound then f j else mem b j

section Prefixed

variable [DecidableEq A] {mem : A → Nat → K} {a : A} {f : Nat → K}

@[simp] theorem prefixed_zero : prefixed mem a 0 f = mem := by
  funext b j
  simp [prefixed]

@[simp] theorem prefixed_other {b : A} (bound j : Nat) (other : b ≠ a) : prefixed mem a bound f b j = mem b j := by
  simp [prefixed, other]

theorem prefixed_above {bound j : Nat} (above : bound ≤ j) : prefixed mem a bound f a j = mem a j := by
  simp [prefixed, Nat.not_lt.mpr above]

theorem write_prefixed {bound : Nat} {v : K} (fits : v = f bound) :
    write (prefixed mem a bound f) a bound v = prefixed mem a (bound + 1) f := by
  funext b j
  unfold write prefixed
  by_cases same : b = a
  · subst same
    by_cases at_bound : j = bound
    · subst at_bound
      simp [fits]
    · simp only [true_and, at_bound, if_false]
      congr 1
      exact propext (by omega)
  · simp [same]

theorem writeLanes_prefixed {bound n : Nat} {v : Fin n → K} (fits : ∀ j : Fin n, v j = f (bound + j)) :
    writeLanes (prefixed mem a bound f) a bound n v = prefixed mem a (bound + n) f := by
  funext b j
  unfold writeLanes prefixed
  by_cases same : b = a
  · subst same
    by_cases lanes : bound ≤ j ∧ j < bound + n
    · rw [dif_pos ⟨rfl, lanes⟩, fits, if_pos ⟨rfl, lanes.2⟩]
      congr 1
      show bound + (j - bound) = j
      omega
    · rw [dif_neg fun h => lanes h.2]
      simp only [true_and]
      congr 1
      exact propext (by omega)
  · simp [same]

end Prefixed

end Access
