import Mathlib.Data.Nat.Bitwise
import Mathlib.Data.List.OfFn

/-! Most-significant-first packing of a bit sequence into a natural number, the
fixed-width unpacking back into a list, and the Hamming weight of the low bits.
A bitmap fold decides that a list of small keys has no repetition. -/
namespace Bits

/-- Packs `bit 0, ..., bit (n-1)` with `bit 0` most significant. -/
def pack (bit : Nat → Bool) : Nat → Nat
  | 0 => 0
  | n + 1 => (pack bit n <<< 1) ||| (bit n).toNat

/-- The `n`-bit big-endian list of `value`. -/
def unpack (value n : Nat) : List Bool :=
  List.ofFn (fun i : Fin n => value.testBit (n - 1 - i))

/-- Number of set bits of `value` below position `n`. -/
def weight (value : Nat) : Nat → Nat
  | 0 => 0
  | n + 1 => weight value n + (value.testBit n).toNat

/-- Scans keys with the bitmap of those already seen; `true` when none repeats
and none is in the initial bitmap. -/
def fresh : List Nat → Nat → Bool
  | [], _ => true
  | key :: keys, seen => !seen.testBit key && fresh keys (seen ||| 1 <<< key)

theorem testBit_pack (bit : Nat → Bool) (n j : Nat) :
    (pack bit n).testBit j = (decide (j < n) && bit (n - 1 - j)) := by
  induction n generalizing j with
  | zero => simp [pack]
  | succ n ih =>
    cases j with
    | zero =>
      simp only [pack, Nat.testBit_or, Nat.testBit_shiftLeft, Nat.testBit_bool_toNat]
      cases value : bit n <;> simp [value]
    | succ j =>
      have shifted : ((pack bit n <<< 1).testBit (j + 1)) = (pack bit n).testBit j := by
        simp [Nat.testBit_shiftLeft]
      simp only [pack, Nat.testBit_or, shifted, ih, Nat.testBit_bool_toNat]
      have index : n + 1 - 1 - (j + 1) = n - 1 - j := by omega
      simp only [index]
      simp

theorem pack_add (bit : Nat → Bool) (m n : Nat) :
    pack bit (m + n) = pack bit m <<< n ||| pack (fun i => bit (m + i)) n := by
  apply Nat.eq_of_testBit_eq
  intro j
  simp only [Nat.testBit_or, Nat.testBit_shiftLeft, testBit_pack]
  by_cases low : j < n
  · simp [low, show j < m + n by omega, show m + n - 1 - j = m + (n - 1 - j) by omega]
  · by_cases inside : j - n < m
    · simp [low, inside, show n ≤ j by omega, show j < m + n by omega,
        show m + n - 1 - j = m - 1 - (j - n) by omega]
    · simp [low, inside, show ¬ j < m + n by omega]

theorem pack_lt (bit : Nat → Bool) (n : Nat) : pack bit n < 2 ^ n := by
  apply Nat.lt_pow_two_of_testBit
  intro j above
  simp [testBit_pack]
  omega

theorem pack_congr {a b : Nat → Bool} {n : Nat} (same : ∀ i < n, a i = b i) :
    pack a n = pack b n := by
  apply Nat.eq_of_testBit_eq
  intro j
  simp only [testBit_pack]
  by_cases inside : j < n
  · simp [inside, same (n - 1 - j) (by omega)]
  · simp [inside]

@[simp] theorem unpack_length (value n : Nat) : (unpack value n).length = n := by
  simp [unpack]

theorem getD_unpack (value n i : Nat) :
    (unpack value n).getD i false = (decide (i < n) && value.testBit (n - 1 - i)) := by
  by_cases inside : i < n
  · simp [unpack, inside]
  · simp [unpack, inside]

theorem pack_unpack (value n : Nat) :
    pack (fun i => (unpack value n).getD i false) n = value % 2 ^ n := by
  apply Nat.eq_of_testBit_eq
  intro j
  simp only [testBit_pack, getD_unpack, Nat.testBit_mod_two_pow]
  by_cases inside : j < n
  · have index : n - 1 - (n - 1 - j) = j := by omega
    simp [inside, index, show n - 1 - j < n by omega]
  · simp [inside]

theorem pack_unpack_of_lt {value n : Nat} (bound : value < 2 ^ n) :
    pack (fun i => (unpack value n).getD i false) n = value := by
  rw [pack_unpack, Nat.mod_eq_of_lt bound]

theorem weight_congr {a b n : Nat} (same : ∀ i < n, a.testBit i = b.testBit i) :
    weight a n = weight b n := by
  induction n with
  | zero => rfl
  | succ n ih =>
    simp only [weight, same n (by omega), ih (fun i below => same i (by omega))]

theorem weight_zero (n : Nat) : weight 0 n = 0 := by
  induction n with
  | zero => rfl
  | succ n ih => simp [weight, ih]

theorem weight_two_pow {a n : Nat} (inside : a < n) : weight (2 ^ a) n = 1 := by
  induction n with
  | zero => omega
  | succ n ih =>
    simp only [weight, Nat.testBit_two_pow]
    by_cases top : a = n
    · subst a
      have below : weight (2 ^ n) n = 0 := by
        rw [weight_congr (b := 0) (fun i below => by simp [Nat.testBit_two_pow]; omega)]
        exact weight_zero n
      simp [below]
    · simp [top, ih (by omega)]

theorem weight_two_pow_add {a b n : Nat} (order : a < b) (inside : b < n) :
    weight (2 ^ a + 2 ^ b) n = 2 := by
  have disjoint : 2 ^ a + 2 ^ b = 2 ^ a ||| 2 ^ b :=
    (Nat.or_two_pow_eq_add_of_lt (Nat.pow_lt_pow_right (by omega) order)).symm
  rw [disjoint]
  induction n with
  | zero => omega
  | succ n ih =>
    simp only [weight, Nat.testBit_or, Nat.testBit_two_pow]
    by_cases top : b = n
    · subst b
      have below : weight (2 ^ a ||| 2 ^ n) n = 1 := by
        rw [weight_congr (b := 2 ^ a) (fun i below => by simp [Nat.testBit_two_pow]; omega)]
        exact weight_two_pow (by omega)
      simp [below, show a ≠ n by omega]
    · simp [top, ih (by omega), show a ≠ n by omega]

theorem two_pow_add_lt {a b n : Nat} (order : a < b) (inside : b < n) : 2 ^ a + 2 ^ b < 2 ^ n := by
  have first : 2 ^ a < 2 ^ b := Nat.pow_lt_pow_right (by omega) order
  have second : 2 ^ (b + 1) ≤ 2 ^ n := Nat.pow_le_pow_right (by omega) inside
  rw [Nat.pow_succ] at second
  omega

theorem weight_eq_countP (value n : Nat) :
    weight value n = (List.range n).countP (fun k => value.testBit (n - 1 - k)) := by
  induction n with
  | zero => rfl
  | succ n ih =>
    rw [List.range_succ_eq_map, List.countP_cons, List.countP_map, weight, ih]
    have shifted : (List.range n).countP ((fun k => value.testBit (n + 1 - 1 - k)) ∘ Nat.succ) =
        (List.range n).countP (fun k => value.testBit (n - 1 - k)) := by
      apply List.countP_congr
      intro k _
      simp only [Function.comp_apply, show n + 1 - 1 - (k + 1) = n - 1 - k by omega]
    rw [shifted]
    cases top : value.testBit n <;> simp [top]

private theorem split_top (value n : Nat) (bound : value < 2 ^ (n + 1)) :
    value = value % 2 ^ n + 2 ^ n * (value.testBit n).toNat := by
  have parts : value % 2 ^ (n + 1) = value % 2 ^ n + 2 ^ n * (value / 2 ^ n % 2) := Nat.mod_pow_succ
  rw [Nat.mod_eq_of_lt bound] at parts
  rw [Nat.toNat_testBit]
  exact parts

theorem weight_mod (value n : Nat) : weight (value % 2 ^ n) n = weight value n :=
  weight_congr (fun i below => by simp [Nat.testBit_mod_two_pow, below])

theorem eq_of_weight_le_one {value n : Nat} (bound : value < 2 ^ n) (light : weight value n ≤ 1) :
    value = 0 ∨ ∃ a < n, value = 2 ^ a := by
  induction n generalizing value with
  | zero => simp at bound; exact .inl bound
  | succ n ih =>
    have parts := split_top value n bound
    have low : value % 2 ^ n < 2 ^ n := Nat.mod_lt _ (Nat.two_pow_pos n)
    cases top : value.testBit n with
    | false =>
      simp only [top, Bool.toNat_false, Nat.mul_zero, Nat.add_zero] at parts
      simp only [weight, top, Bool.toNat_false, Nat.add_zero] at light
      rw [parts] at light ⊢
      rcases ih low light with zero | ⟨a, inside, single⟩
      · exact .inl zero
      · exact .inr ⟨a, by omega, single⟩
    | true =>
      simp only [top, Bool.toNat_true, Nat.mul_one] at parts
      simp only [weight, top, Bool.toNat_true] at light
      have empty : weight (value % 2 ^ n) n = 0 := by rw [weight_mod]; omega
      rcases ih low (by omega) with zero | ⟨a, inside, single⟩
      · exact .inr ⟨n, by omega, by omega⟩
      · rw [single, weight_two_pow inside] at empty
        omega

/-- A number of `n` bits with at most two set bits is zero, a power of two, or a
sum of two distinct powers of two. -/
theorem eq_of_weight_le_two {value n : Nat} (bound : value < 2 ^ n) (light : weight value n ≤ 2) :
    value = 0 ∨ (∃ a < n, value = 2 ^ a) ∨ ∃ a b, a < b ∧ b < n ∧ value = 2 ^ a + 2 ^ b := by
  induction n generalizing value with
  | zero => simp at bound; exact .inl bound
  | succ n ih =>
    have parts := split_top value n bound
    have low : value % 2 ^ n < 2 ^ n := Nat.mod_lt _ (Nat.two_pow_pos n)
    cases top : value.testBit n with
    | false =>
      simp only [top, Bool.toNat_false, Nat.mul_zero, Nat.add_zero] at parts
      simp only [weight, top, Bool.toNat_false, Nat.add_zero] at light
      rw [parts] at light ⊢
      rcases ih low light with zero | ⟨a, inside, single⟩ | ⟨a, b, order, inside, pair⟩
      · exact .inl zero
      · exact .inr (.inl ⟨a, by omega, single⟩)
      · exact .inr (.inr ⟨a, b, order, by omega, pair⟩)
    | true =>
      simp only [top, Bool.toNat_true, Nat.mul_one] at parts
      simp only [weight, top, Bool.toNat_true] at light
      rcases eq_of_weight_le_one low (by rw [weight_mod]; omega) with zero | ⟨a, inside, single⟩
      · exact .inr (.inl ⟨n, by omega, by omega⟩)
      · exact .inr (.inr ⟨a, n, inside, by omega, by omega⟩)

theorem weight_pos {value n : Nat} (bound : value < 2 ^ n) (nonzero : value ≠ 0) :
    0 < weight value n := by
  rcases Nat.eq_zero_or_pos (weight value n) with empty | positive
  · rcases eq_of_weight_le_one bound (by omega) with zero | ⟨a, inside, rfl⟩
    · exact absurd zero nonzero
    · rw [weight_two_pow inside] at empty
      omega
  · exact positive

/-- A successful bitmap scan certifies distinct keys, none of them in the
initial bitmap. -/
theorem fresh_spec {keys : List Nat} {seen : Nat} (ok : fresh keys seen = true) :
    keys.Nodup ∧ ∀ key ∈ keys, seen.testBit key = false := by
  induction keys generalizing seen with
  | nil => simp
  | cons key keys ih =>
    simp only [fresh, Bool.and_eq_true, Bool.not_eq_true'] at ok
    obtain ⟨unseen, rest⟩ := ok
    obtain ⟨distinct, outside⟩ := ih rest
    refine ⟨List.nodup_cons.mpr ⟨fun member => ?_, distinct⟩, ?_⟩
    · have marked := outside key member
      simp [Nat.testBit_or, Nat.testBit_shiftLeft] at marked
    · intro other member
      rcases List.mem_cons.mp member with rfl | later
      · exact unseen
      · have marked := outside other later
        simp only [Nat.testBit_or, Bool.or_eq_false_iff] at marked
        exact marked.1

end Bits
