import Mathlib.Algebra.Order.Field.Power
import Mathlib.Data.Int.Log
import Mathlib.Data.Rat.Floor
import Mathlib.Tactic.Linarith
import Mathlib.Tactic.Positivity

/-! Rounding to the nearest number with 53 binary digits, as IEEE 754 rounds to `binary64`.
The exponent is bounded below, by the subnormal numbers, and not above. -/
namespace EdgeAllocator.Foundation

def roundEven (q : ℚ) : ℤ :=
  if q - ⌊q⌋ < 1 / 2 ∨ q - ⌊q⌋ = 1 / 2 ∧ ⌊q⌋ % 2 = 0 then ⌊q⌋ else ⌊q⌋ + 1

/-- The exponent of the last of the 53 digits of a positive number. -/
def lastDigit (q : ℚ) : ℤ := max (Int.log 2 q - 52) (-1074)

def roundMagnitude (q : ℚ) : ℚ := roundEven (q / 2 ^ lastDigit q) * 2 ^ lastDigit q

def nearest (q : ℚ) : ℚ := if q < 0 then -roundMagnitude (-q) else roundMagnitude q

theorem roundEven_intCast (n : ℤ) : roundEven n = n := by
  unfold roundEven
  rw [Int.floor_intCast, sub_self]
  exact if_pos (Or.inl (by norm_num))

theorem floor_le_roundEven (q : ℚ) : ⌊q⌋ ≤ roundEven q := by
  unfold roundEven
  split_ifs
  · exact le_rfl
  · exact Int.le_add_one le_rfl

theorem roundEven_le_floor_add_one (q : ℚ) : roundEven q ≤ ⌊q⌋ + 1 := by
  unfold roundEven
  split_ifs
  · exact Int.le_add_one le_rfl
  · exact le_rfl

theorem roundEven_mono {p q : ℚ} (h : p ≤ q) : roundEven p ≤ roundEven q := by
  obtain heq | hlt := (Int.floor_le_floor h).eq_or_lt
  · unfold roundEven
    rw [heq]
    split_ifs with hdown hdown' hdown'
    · exact le_rfl
    · exact Int.le_add_one le_rfl
    · -- What is rounded up is not rounded down when it grows.
      exfalso
      refine hdown ?_
      rcases hdown' with hbelow | ⟨hhalf, heven⟩
      · exact Or.inl (lt_of_le_of_lt (sub_le_sub_right h _) hbelow)
      · rcases (sub_le_sub_right h (⌊q⌋ : ℚ)).lt_or_eq with hlt | hsame
        · exact Or.inl (hhalf ▸ hlt)
        · exact Or.inr ⟨hsame.trans hhalf, heven⟩
    · exact le_rfl
  · exact (roundEven_le_floor_add_one p).trans ((Int.add_one_le_of_lt hlt).trans
      (floor_le_roundEven q))

theorem roundEven_le {q : ℚ} {n : ℤ} (h : q ≤ n) : roundEven q ≤ n :=
  (roundEven_mono h).trans_eq (roundEven_intCast n)

theorem le_roundEven {q : ℚ} {n : ℤ} (h : n ≤ q) : n ≤ roundEven q :=
  (roundEven_intCast n).symm.trans_le (roundEven_mono h)

section Magnitude

variable {p q : ℚ}

theorem two_zpow_pos (e : ℤ) : (0 : ℚ) < 2 ^ e := zpow_pos (by norm_num) e

theorem two_zpow_add (n : ℕ) (e : ℤ) : (2 : ℚ) ^ (n + e) = ((2 ^ n : ℕ) : ℤ) * 2 ^ e := by
  rw [zpow_add₀ (by norm_num), zpow_natCast]
  push_cast
  rfl

theorem div_lastDigit_le (q : ℚ) : q / 2 ^ lastDigit q ≤ ((2 ^ 53 : ℕ) : ℤ) := by
  have hlog : q < (2 : ℚ) ^ (Int.log 2 q + 1) := by
    exact_mod_cast Int.lt_zpow_succ_log_self one_lt_two q
  rw [div_le_iff₀ (two_zpow_pos _), ← two_zpow_add]
  refine hlog.le.trans (zpow_le_zpow_right₀ (by norm_num) ?_)
  have hdigit := le_max_left (Int.log 2 q - 52) (-1074)
  unfold lastDigit
  push_cast
  linarith

theorem le_div_lastDigit (hq : 0 < q) (hnormal : -1074 < lastDigit q) :
    (((2 ^ 52 : ℕ) : ℤ) : ℚ) ≤ q / 2 ^ lastDigit q := by
  have hdigit : lastDigit q = Int.log 2 q - 52 := by
    unfold lastDigit at hnormal ⊢
    exact max_eq_left ((lt_max_iff.mp hnormal).resolve_right (lt_irrefl _)).le
  rw [le_div_iff₀ (two_zpow_pos _), ← two_zpow_add, hdigit]
  push_cast
  rw [add_sub_cancel]
  exact Int.zpow_log_le_self (by norm_num) hq

theorem digits_nonneg (hq : 0 ≤ q) : 0 ≤ roundEven (q / 2 ^ lastDigit q) := by
  refine le_roundEven ?_
  rw [Int.cast_zero]
  exact div_nonneg hq (two_zpow_pos _).le

theorem roundMagnitude_nonneg (hq : 0 ≤ q) : 0 ≤ roundMagnitude q :=
  mul_nonneg (Int.cast_nonneg (digits_nonneg hq)) (two_zpow_pos _).le

theorem roundMagnitude_zero : roundMagnitude 0 = 0 := by
  have hzero : roundEven 0 = 0 := roundEven_intCast 0
  rw [roundMagnitude, zero_div, hzero, Int.cast_zero, zero_mul]

theorem roundMagnitude_mono (hp : 0 ≤ p) (h : p ≤ q) : roundMagnitude p ≤ roundMagnitude q := by
  obtain rfl | hpos := hp.eq_or_lt
  · rw [roundMagnitude_zero]
    exact roundMagnitude_nonneg h
  have hdigits : lastDigit p ≤ lastDigit q :=
    max_le_max_right _ (sub_le_sub_right (Int.log_mono_right hpos h) _)
  obtain hsame | hless := hdigits.eq_or_lt
  · unfold roundMagnitude
    rw [hsame]
    refine mul_le_mul_of_nonneg_right (Int.cast_le.mpr (roundEven_mono ?_)) (two_zpow_pos _).le
    exact div_le_div_of_nonneg_right h (two_zpow_pos _).le
  · -- The power of two between the two numbers separates their values.
    have hnormal : -1074 < lastDigit q := lt_of_le_of_lt (le_max_right _ _) hless
    have hlow : roundMagnitude p ≤ ((2 ^ 53 : ℕ) : ℤ) * 2 ^ lastDigit p :=
      mul_le_mul_of_nonneg_right (Int.cast_le.mpr (roundEven_le (div_lastDigit_le p)))
        (two_zpow_pos _).le
    have hhigh : ((2 ^ 52 : ℕ) : ℤ) * 2 ^ lastDigit q ≤ roundMagnitude q :=
      mul_le_mul_of_nonneg_right
        (Int.cast_le.mpr (le_roundEven (le_div_lastDigit (hpos.trans_le h) hnormal)))
        (two_zpow_pos _).le
    rw [← two_zpow_add] at hlow hhigh
    refine hlow.trans (le_trans ?_ hhigh)
    refine zpow_le_zpow_right₀ (by norm_num) ?_
    push_cast
    omega

theorem roundMagnitude_of_lt {n : ℕ} {e : ℤ} (hn : n < 2 ^ 53) (he : -1074 ≤ e) :
    roundMagnitude (n * 2 ^ e) = n * 2 ^ e := by
  obtain rfl | hpos := Nat.eq_zero_or_pos n
  · rw [Nat.cast_zero, zero_mul, roundMagnitude_zero]
  have hvalue : (0 : ℚ) < n * 2 ^ e := mul_pos (Nat.cast_pos.mpr hpos) (two_zpow_pos _)
  have hlog : Int.log 2 (n * 2 ^ e : ℚ) < ((53 : ℕ) : ℤ) + e := by
    rw [← Int.lt_zpow_iff_log_lt one_lt_two hvalue, Nat.cast_ofNat, two_zpow_add]
    exact mul_lt_mul_of_pos_right (by exact_mod_cast hn) (two_zpow_pos _)
  have hdigit : lastDigit (n * 2 ^ e) ≤ e := by
    refine max_le ?_ he
    push_cast at hlog
    omega
  obtain ⟨shift, hshift⟩ := Int.eq_ofNat_of_zero_le (sub_nonneg.mpr hdigit)
  have hwhole : (n * 2 ^ e : ℚ) / 2 ^ lastDigit (n * 2 ^ e) = ((n * 2 ^ shift : ℕ) : ℤ) := by
    rw [mul_div_assoc, ← zpow_sub₀ (by norm_num), hshift, zpow_natCast]
    push_cast
    rfl
  rw [roundMagnitude, hwhole, roundEven_intCast, ← hwhole,
    div_mul_cancel₀ _ (two_zpow_pos _).ne']

theorem roundMagnitude_eq_self {n : ℕ} {e : ℤ} (hn : n ≤ 2 ^ 53) (he : -1074 ≤ e) :
    roundMagnitude (n * 2 ^ e) = n * 2 ^ e := by
  obtain rfl | hlt := hn.eq_or_lt
  · have hshifted : (((2 ^ 53 : ℕ) : ℚ) * 2 ^ e) = ((2 ^ 52 : ℕ) : ℚ) * 2 ^ (e + 1) := by
      rw [zpow_add_one₀ (by norm_num)]
      push_cast
      ring
    rw [hshifted]
    exact roundMagnitude_of_lt (by norm_num) (he.trans (Int.le_add_one le_rfl))
  · exact roundMagnitude_of_lt hlt he

theorem roundMagnitude_roundMagnitude (hq : 0 ≤ q) :
    roundMagnitude (roundMagnitude q) = roundMagnitude q := by
  obtain ⟨n, hn⟩ := Int.eq_ofNat_of_zero_le (digits_nonneg hq)
  have hle : n ≤ 2 ^ 53 := by
    have hbound := roundEven_le (div_lastDigit_le q)
    rw [hn] at hbound
    exact_mod_cast hbound
  have hvalue : roundMagnitude q = n * 2 ^ lastDigit q := by
    rw [roundMagnitude, hn]
    push_cast
    rfl
  rw [hvalue]
  exact roundMagnitude_eq_self hle (le_max_right _ _)

end Magnitude

section Nearest

variable {p q : ℚ}

theorem nearest_of_nonneg (hq : 0 ≤ q) : nearest q = roundMagnitude q := if_neg hq.not_gt

theorem nearest_of_neg (hq : q < 0) : nearest q = -roundMagnitude (-q) := if_pos hq

@[simp] theorem nearest_zero : nearest 0 = 0 := by
  rw [nearest_of_nonneg le_rfl, roundMagnitude_zero]

theorem nearest_nonneg (hq : 0 ≤ q) : 0 ≤ nearest q := by
  rw [nearest_of_nonneg hq]
  exact roundMagnitude_nonneg hq

theorem nearest_nonpos (hq : q ≤ 0) : nearest q ≤ 0 := by
  obtain rfl | hneg := hq.eq_or_lt
  · rw [nearest_zero]
  · rw [nearest_of_neg hneg]
    exact neg_nonpos.mpr (roundMagnitude_nonneg (neg_nonneg.mpr hneg.le))

theorem nearest_mono (h : p ≤ q) : nearest p ≤ nearest q := by
  obtain hq | hq := lt_or_ge q 0
  · have hp : p < 0 := lt_of_le_of_lt h hq
    rw [nearest_of_neg hp, nearest_of_neg hq, neg_le_neg_iff]
    exact roundMagnitude_mono (neg_nonneg.mpr hq.le) (neg_le_neg h)
  · obtain hp | hp := lt_or_ge p 0
    · exact (nearest_nonpos hp.le).trans (nearest_nonneg hq)
    · rw [nearest_of_nonneg hp, nearest_of_nonneg hq]
      exact roundMagnitude_mono hp h

theorem nearest_nearest (q : ℚ) : nearest (nearest q) = nearest q := by
  obtain hq | hq := lt_or_ge q 0
  · have hmagnitude : 0 ≤ roundMagnitude (-q) := roundMagnitude_nonneg (neg_nonneg.mpr hq.le)
    rw [nearest_of_neg hq]
    obtain hzero | hpos := hmagnitude.eq_or_lt
    · rw [← hzero, neg_zero, nearest_zero]
    · rw [nearest_of_neg (neg_neg_of_pos hpos), neg_neg,
        roundMagnitude_roundMagnitude (neg_nonneg.mpr hq.le)]
  · rw [nearest_of_nonneg hq, nearest_of_nonneg (roundMagnitude_nonneg hq),
      roundMagnitude_roundMagnitude hq]

end Nearest

end EdgeAllocator.Foundation
