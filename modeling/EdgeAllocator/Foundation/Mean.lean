import Mathlib.Algebra.BigOperators.Ring.List
import Mathlib.Algebra.Order.BigOperators.Group.List
import Mathlib.Algebra.Order.Field.Basic
import Mathlib.Tactic.Linarith
import Mathlib.Tactic.Ring

/-! Means of a list of values, plain and weighted, and the variance around the plain
one. -/
namespace EdgeAllocator.Foundation

variable {F : Type} [Field F]

def mean (xs : List F) : F := xs.sum / xs.length

def squaredDeviation (centre : F) (xs : List F) : F :=
  (xs.map fun x => (x - centre) ^ 2).sum

def variance (xs : List F) : F := squaredDeviation (mean xs) xs / xs.length

def weightedSum (weights xs : List F) : F := (List.zipWith (· * ·) weights xs).sum

@[simp] theorem squaredDeviation_nil (centre : F) : squaredDeviation centre [] = 0 := rfl

@[simp] theorem squaredDeviation_cons (centre x : F) (xs : List F) :
    squaredDeviation centre (x :: xs) = (x - centre) ^ 2 + squaredDeviation centre xs := by
  unfold squaredDeviation
  rw [List.map_cons, List.sum_cons]

/-- Around another centre: the terms that the shift adds. -/
theorem squaredDeviation_shift (centre centre' : F) (xs : List F) :
    squaredDeviation centre' xs = squaredDeviation centre xs +
      2 * (centre - centre') * (xs.sum - xs.length * centre) +
      xs.length * (centre - centre') ^ 2 := by
  induction xs with
  | nil => simp
  | cons x xs ih =>
      rw [squaredDeviation_cons, squaredDeviation_cons, ih, List.sum_cons, List.length_cons]
      push_cast
      ring

variable [LinearOrder F] [IsStrictOrderedRing F]

theorem weightedSum_mem {low high : F} :
    ∀ {weights xs : List F}, weights.length = xs.length → (∀ w ∈ weights, 0 ≤ w) →
      (∀ x ∈ xs, low ≤ x ∧ x ≤ high) →
      weights.sum * low ≤ weightedSum weights xs ∧ weightedSum weights xs ≤ weights.sum * high
  | [], _, _, _, _ => by simp [weightedSum]
  | _ :: _, [], hlength, _, _ => absurd hlength (by simp)
  | w :: weights, x :: xs, hlength, hweights, hxs => by
      have hw : 0 ≤ w := hweights w List.mem_cons_self
      obtain ⟨hlow, hhigh⟩ := hxs x List.mem_cons_self
      obtain ⟨htailLow, htailHigh⟩ := weightedSum_mem (Nat.succ.inj hlength)
        (fun v hv => hweights v (List.mem_cons_of_mem _ hv))
        (fun y hy => hxs y (List.mem_cons_of_mem _ hy))
      have hbelow : w * low ≤ w * x := mul_le_mul_of_nonneg_left hlow hw
      have habove : w * x ≤ w * high := mul_le_mul_of_nonneg_left hhigh hw
      have hsplit : weightedSum (w :: weights) (x :: xs) = w * x + weightedSum weights xs :=
        List.sum_cons
      rw [hsplit, List.sum_cons, add_mul, add_mul]
      exact ⟨add_le_add hbelow htailLow, add_le_add habove htailHigh⟩

theorem length_mul_mean (xs : List F) : xs.length * mean xs = xs.sum := by
  cases xs with
  | nil => simp
  | cons x xs =>
      unfold mean
      rw [mul_div_cancel₀]
      exact Nat.cast_ne_zero.mpr (Nat.succ_ne_zero xs.length)

theorem squaredDeviation_nonneg (centre : F) (xs : List F) : 0 ≤ squaredDeviation centre xs := by
  apply List.sum_nonneg
  intro y hy
  obtain ⟨x, -, rfl⟩ := List.mem_map.mp hy
  exact sq_nonneg _

theorem variance_nonneg (xs : List F) : 0 ≤ variance xs :=
  div_nonneg (squaredDeviation_nonneg _ _) (Nat.cast_nonneg _)

theorem squaredDeviation_mean_le (centre : F) (xs : List F) :
    squaredDeviation (mean xs) xs ≤ squaredDeviation centre xs := by
  rw [squaredDeviation_shift (mean xs) centre, length_mul_mean, sub_self, mul_zero, add_zero]
  have hshift : 0 ≤ (xs.length : F) * (mean xs - centre) ^ 2 :=
    mul_nonneg (Nat.cast_nonneg _) (sq_nonneg _)
  linarith

theorem squaredDeviation_le {centre radius : F} {xs : List F}
    (h : ∀ x ∈ xs, (x - centre) ^ 2 ≤ radius ^ 2) :
    squaredDeviation centre xs ≤ xs.length * radius ^ 2 := by
  have hsum := List.sum_le_card_nsmul (xs.map fun x => (x - centre) ^ 2) (radius ^ 2) (by
    intro y hy
    obtain ⟨x, hx, rfl⟩ := List.mem_map.mp hy
    exact h x hx)
  rwa [List.length_map, nsmul_eq_mul] at hsum

theorem squaredDeviation_eq_zero_iff {centre : F} {xs : List F} :
    squaredDeviation centre xs = 0 ↔ ∀ x ∈ xs, x = centre := by
  induction xs with
  | nil => simp
  | cons x xs ih =>
      rw [squaredDeviation_cons,
        add_eq_zero_iff_of_nonneg (sq_nonneg _) (squaredDeviation_nonneg _ _), ih, sq_eq_zero_iff,
        sub_eq_zero, List.forall_mem_cons]

theorem variance_le {low high : F} {xs : List F} (h : ∀ x ∈ xs, low ≤ x ∧ x ≤ high) :
    variance xs ≤ ((high - low) / 2) ^ 2 := by
  apply div_le_of_le_mul₀ (Nat.cast_nonneg _) (sq_nonneg _)
  rw [mul_comm]
  -- Around the midpoint each distance is half the width or less.
  apply (squaredDeviation_mean_le ((low + high) / 2) xs).trans
  apply squaredDeviation_le
  intro x hx
  obtain ⟨hlow, hhigh⟩ := h x hx
  apply sq_le_sq'
  · linarith
  · linarith

theorem mean_eq_of_forall {value : F} {xs : List F} (hxs : xs ≠ [])
    (h : ∀ x ∈ xs, x = value) : mean xs = value := by
  have hsum : xs.sum = xs.length * value := by
    rw [List.eq_replicate_of_mem h, List.sum_replicate, List.length_replicate, nsmul_eq_mul]
  unfold mean
  rw [hsum, mul_div_cancel_left₀]
  exact Nat.cast_ne_zero.mpr (mt List.length_eq_zero_iff.mp hxs)

theorem variance_eq_zero_iff {xs : List F} :
    variance xs = 0 ↔ ∀ x ∈ xs, ∀ y ∈ xs, x = y := by
  by_cases hxs : xs = []
  · subst hxs
    simp [variance]
  · have hlength : (xs.length : F) ≠ 0 :=
      Nat.cast_ne_zero.mpr (mt List.length_eq_zero_iff.mp hxs)
    unfold variance
    rw [div_eq_zero_iff, or_iff_left hlength, squaredDeviation_eq_zero_iff]
    constructor
    · intro h x hx y hy
      rw [h x hx, h y hy]
    · intro h x hx
      exact (mean_eq_of_forall hxs fun y hy => h y hy x hx).symm

theorem variance_of_length_lt_two {xs : List F} (h : xs.length < 2) : variance xs = 0 := by
  rw [variance_eq_zero_iff]
  match xs with
  | [] => exact nofun
  | [x] =>
      intro a ha b hb
      rw [List.mem_singleton.mp ha, List.mem_singleton.mp hb]
  | _ :: _ :: _ => exact absurd h (by simp)

end EdgeAllocator.Foundation
