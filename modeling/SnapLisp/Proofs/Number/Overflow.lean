import SnapLisp.Proofs.Number.Rounding

/-!
# Which natural numbers have no double

The finite doubles end at `2 ^ 1024 - 2 ^ 971`, and the next number in the row would be `2 ^ 1024`.
A number from the middle between the two on is rounded to the latter, which is no finite double; the
middle itself is, as the significand of the former is odd (`nearest?_eq_none_iff`).
-/

namespace SnapLisp.Number

/-- The number rounds to no finite double: it is `2 ^ 1024 - 2 ^ 970` or more. -/
def TooLarge (n : Nat) : Prop := 2 ^ 1024 ≤ n + 2 ^ 970

theorem TooLarge.mono {m n : Nat} (h : TooLarge m) (hle : m ≤ n) : TooLarge n :=
  Nat.le_trans h (Nat.add_le_add_right hle _)

/-- A number of `k + 54` bits is rounded out of them from half a unit in front of their end on. -/
theorem le_shiftToEven_iff {n k : Nat} (hlt : n < 2 ^ (k + 54)) :
    2 ^ 53 ≤ shiftToEven (n * 2 ^ 52) (k + 53) ↔ 2 ^ (k + 54) ≤ n + 2 ^ k := by
  have hend : 2 ^ (k + 54) = 2 ^ k * 2 ^ 54 := Nat.pow_add ..
  have hunit : 2 ^ (k + 53) = 2 ^ k * 2 ^ 53 := Nat.pow_add ..
  constructor
  · intro h
    have hle := (shiftToEven_bounds (n * 2 ^ 52) (k + 53)).1
    have hmul := Nat.mul_le_mul_right (2 ^ (k + 53)) h
    omega
  · intro h
    exact Nat.le_of_eq (shiftToEven_eq (by omega) (by omega) fun _ => by decide).symm

theorem infinityBits_le_nearestBits_iff {n : Nat} :
    infinityBits ≤ nearestBits n ↔ TooLarge n := by
  -- the exponents stay variables: the powers are too large to compute with
  obtain ⟨k, hk⟩ : ∃ k, k = 970 := ⟨970, rfl⟩
  have hlarge : TooLarge n ↔ 2 ^ (k + 54) ≤ n + 2 ^ k := by rw [hk, TooLarge]
  have hbinade : 2 ^ (k + 53) = 2 ^ k * 2 ^ 53 := Nat.pow_add ..
  have hend : 2 ^ (k + 54) = 2 ^ (k + 53) * 2 := Nat.pow_succ ..
  have hpos : 0 < 2 ^ k := Nat.two_pow_pos k
  rw [hlarge, infinityBits_eq]
  by_cases hn : n = 0
  · rw [hn, nearestBits, if_pos rfl]
    omega
  obtain ⟨hlow, hhigh⟩ := shiftToEven_log2_bounds hn
  rw [nearestBits_eq hn]
  rcases Nat.lt_trichotomy n.log2 (k + 53) with hbelow | hlast | habove
  · have hlt : n < 2 ^ (k + 53) := (Nat.log2_lt hn).mp hbelow
    omega
  · have hlt : n < 2 ^ (k + 54) := (Nat.log2_lt hn).mp (by omega)
    rw [hlast] at hlow hhigh ⊢
    rw [← le_shiftToEven_iff hlt]
    omega
  · have hle : 2 ^ (k + 54) ≤ n := (Nat.le_log2 hn).mp habove
    omega

/-- **Overflow.** Only numbers that are too large have no double. -/
theorem nearest?_eq_none_iff {n : Nat} : nearest? n = none ↔ TooLarge n := by
  rw [← infinityBits_le_nearestBits_iff, nearest?]
  split <;> simp <;> omega

end SnapLisp.Number
