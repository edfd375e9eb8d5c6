import Mathlib.Algebra.Order.Field.Power
import Mathlib.Data.Int.Log
import Mathlib.Data.Rat.Floor
import Mathlib.Tactic.Linarith
import Mathlib.Tactic.NormNum

/-! # Rounding to 53 Binary Digits

    A float of 64 bits has a significand of 53 bits.  A positive rational is
    rounded to the nearest multiple of its last place, a half to the even one.
    The exponent is not bounded.

    * `round_mono`: rounding keeps the order.
    * `round_natCast`: a natural number below `2 ^ 53` is kept. -/

namespace Float64

/-! ## Section 1: Integers -/

/-- The nearest integer; of two, the even one. -/
def nearest (x : ℚ) : ℤ :=
  let n := ⌊x⌋
  if x - n < 1 / 2 then n
  else if 1 / 2 < x - n then n + 1
  else if n % 2 = 0 then n
  else n + 1

theorem nearest_cases (x : ℚ) : nearest x = ⌊x⌋ ∨ nearest x = ⌊x⌋ + 1 := by
  unfold nearest
  dsimp only
  split
  · exact .inl rfl
  · split
    · exact .inr rfl
    · split
      · exact .inl rfl
      · exact .inr rfl

theorem nearest_intCast (n : ℤ) : nearest n = n := by
  unfold nearest
  simp

theorem floor_le_nearest (x : ℚ) : ⌊x⌋ ≤ nearest x := by
  rcases nearest_cases x with h | h <;> omega

theorem nearest_le_floor_succ (x : ℚ) : nearest x ≤ ⌊x⌋ + 1 := by
  rcases nearest_cases x with h | h <;> omega

theorem nearest_mono {x y : ℚ} (h : x ≤ y) : nearest x ≤ nearest y := by
  have hfloor : ⌊x⌋ ≤ ⌊y⌋ := Int.floor_mono h
  have hx := nearest_le_floor_succ x
  have hy := floor_le_nearest y
  rcases eq_or_lt_of_le hfloor with heq | hlt
  -- between the same integers: below the half, above it, or at it
  · by_cases hlow : x - ⌊x⌋ < 1 / 2
    · have hdown : nearest x = ⌊x⌋ := if_pos hlow
      omega
    · by_cases hhigh : 1 / 2 < y - ⌊y⌋
      · have hup : nearest y = ⌊y⌋ + 1 := by
          unfold nearest
          rw [if_neg (not_lt.2 hhigh.le), if_pos hhigh]
        omega
      · have heq' : x = y := by
          rw [heq] at hlow
          linarith
        rw [heq']
  · omega

/-! ## Section 2: Places -/

/-- The exponent of the leading digit. -/
def exponent (q : ℚ) : ℤ := Int.log 2 q

/-- The last of 53 places. -/
def place (q : ℚ) : ℚ := 2 ^ (exponent q - 52)

def round (q : ℚ) : ℚ := if q ≤ 0 then 0 else nearest (q / place q) * place q

example : round (1 / 3) = 6004799503160661 / 2 ^ 54 := by decide +kernel

theorem place_pos (q : ℚ) : 0 < place q := zpow_pos (by norm_num) _

theorem two_zpow_exponent_le {q : ℚ} (hq : 0 < q) : (2 : ℚ) ^ exponent q ≤ q := by
  exact_mod_cast Int.zpow_log_le_self (by norm_num : 1 < 2) hq

theorem lt_two_zpow_exponent (q : ℚ) : q < (2 : ℚ) ^ (exponent q + 1) := by
  exact_mod_cast Int.lt_zpow_succ_log_self (by norm_num : 1 < 2) q

/-- A power of two in units of the last place. -/
theorem two_zpow_eq (q : ℚ) (k : ℤ) : (2 : ℚ) ^ k = 2 ^ (k - exponent q + 52) * place q := by
  unfold place
  rw [← zpow_add₀ (by norm_num : (2 : ℚ) ≠ 0)]
  congr 1
  omega

/-- The significand has 53 digits. -/
theorem round_le_two_zpow {q : ℚ} (hq : 0 < q) : round q ≤ 2 ^ (exponent q + 1) := by
  have hlt := lt_two_zpow_exponent q
  have hscale := two_zpow_eq q (exponent q + 1)
  have hpow : (2 : ℚ) ^ (exponent q + 1 - exponent q + 52) = ((2 ^ 53 : ℤ) : ℚ) := by
    rw [show exponent q + 1 - exponent q + 52 = (53 : ℕ) by omega, zpow_natCast]
    norm_num
  rw [hpow] at hscale
  have hdiv : q / place q ≤ ((2 ^ 53 : ℤ) : ℚ) := by
    rw [div_le_iff₀ (place_pos q), ← hscale]
    exact hlt.le
  have hnearest : nearest (q / place q) ≤ 2 ^ 53 := by
    have := nearest_mono hdiv
    rwa [nearest_intCast] at this
  unfold round
  rw [if_neg (not_le.2 hq), hscale]
  exact mul_le_mul_of_nonneg_right (by exact_mod_cast hnearest) (place_pos q).le

theorem two_zpow_le_round {q : ℚ} (hq : 0 < q) : 2 ^ exponent q ≤ round q := by
  have hle := two_zpow_exponent_le hq
  have hscale := two_zpow_eq q (exponent q)
  have hpow : (2 : ℚ) ^ (exponent q - exponent q + 52) = ((2 ^ 52 : ℤ) : ℚ) := by
    rw [show exponent q - exponent q + 52 = (52 : ℕ) by omega, zpow_natCast]
    norm_num
  rw [hpow] at hscale
  have hdiv : ((2 ^ 52 : ℤ) : ℚ) ≤ q / place q := by
    rw [le_div_iff₀ (place_pos q), ← hscale]
    exact hle
  have hnearest : 2 ^ 52 ≤ nearest (q / place q) := by
    have := nearest_mono hdiv
    rwa [nearest_intCast] at this
  unfold round
  rw [if_neg (not_le.2 hq), hscale]
  exact mul_le_mul_of_nonneg_right (by exact_mod_cast hnearest) (place_pos q).le

theorem round_nonneg (q : ℚ) : 0 ≤ round q := by
  by_cases hq : q ≤ 0
  · unfold round
    rw [if_pos hq]
  · exact (zpow_pos (by norm_num) _).le.trans (two_zpow_le_round (not_le.1 hq))

/-! ## Section 3: Order and exactness -/

theorem exponent_mono {x y : ℚ} (hx : 0 < x) (h : x ≤ y) : exponent x ≤ exponent y :=
  Int.log_mono_right hx h

theorem round_mono {x y : ℚ} (h : x ≤ y) : round x ≤ round y := by
  by_cases hx : x ≤ 0
  · have hzero : round x = 0 := if_pos hx
    rw [hzero]
    exact round_nonneg y
  · have hx' : 0 < x := not_le.1 hx
    have hy' : 0 < y := hx'.trans_le h
    rcases eq_or_lt_of_le (exponent_mono hx' h) with heq | hlt
    · have hplace : place x = place y := by
        unfold place
        rw [heq]
      have hnearest : nearest (x / place y) ≤ nearest (y / place y) :=
        nearest_mono (div_le_div_of_nonneg_right h (place_pos y).le)
      unfold round
      rw [if_neg hx, if_neg (not_le.2 hy'), hplace]
      exact mul_le_mul_of_nonneg_right (by exact_mod_cast hnearest) (place_pos y).le
    · -- a power of two lies between
      calc
        round x ≤ 2 ^ (exponent x + 1) := round_le_two_zpow hx'
        _ ≤ 2 ^ exponent y := zpow_le_zpow_right₀ (by norm_num) (by omega)
        _ ≤ round y := two_zpow_le_round hy'

theorem round_natCast {n : ℕ} (hn : n < 2 ^ 53) : round n = n := by
  by_cases hzero : n = 0
  · subst hzero
    exact if_pos (by norm_num)
  · have hlog : Nat.log 2 n < 53 := Nat.log_lt_of_lt_pow hzero hn
    have hexponent : exponent n = (Nat.log 2 n : ℕ) := Int.log_natCast 2 n
    -- the place divides one
    have hone : (1 : ℚ) = ((2 ^ (52 - Nat.log 2 n) : ℕ) : ℚ) * place n := by
      have hscale := two_zpow_eq (n : ℚ) 0
      rw [hexponent, show (0 : ℤ) - (Nat.log 2 n : ℕ) + 52 = ((52 - Nat.log 2 n : ℕ) : ℤ) by omega,
        zpow_zero, zpow_natCast] at hscale
      exact_mod_cast hscale
    have hdiv : (n : ℚ) / place n = ((n * 2 ^ (52 - Nat.log 2 n) : ℕ) : ℤ) := by
      rw [div_eq_iff (place_pos _).ne']
      push_cast at hone ⊢
      rw [mul_assoc, ← hone, mul_one]
    have hpos : (0 : ℚ) < n := by exact_mod_cast Nat.pos_of_ne_zero hzero
    unfold round
    rw [if_neg (not_le.2 hpos), hdiv, nearest_intCast, ← hdiv, div_mul_cancel₀ _ (place_pos _).ne']

end Float64
