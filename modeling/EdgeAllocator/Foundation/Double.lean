import EdgeAllocator.Foundation.Rounding
import Mathlib.Order.WithBot

/-! The numbers of `binary64` and their arithmetic: the operation on rationals, infinities
and NaN, and then one rounding. Zero has no sign; no comparison can tell. -/
namespace EdgeAllocator.Foundation

/-- A rational, an infinity, or NaN. -/
inductive Extended where
  | nan
  | infinite (negative : Bool)
  | finite (value : ℚ)
  deriving DecidableEq

def largest : ℚ := 2 ^ 1024 - 2 ^ 971

namespace Extended

protected def neg : Extended → Extended
  | nan => nan
  | infinite negative => infinite !negative
  | finite p => finite (-p)

protected def add : Extended → Extended → Extended
  | nan, _ | _, nan => nan
  | infinite a, infinite b => if a = b then infinite a else nan
  | infinite a, finite _ | finite _, infinite a => infinite a
  | finite p, finite q => finite (p + q)

protected def mul : Extended → Extended → Extended
  | nan, _ | _, nan => nan
  | infinite a, infinite b => infinite (a ^^ b)
  | infinite a, finite q | finite q, infinite a =>
      if q = 0 then nan else infinite (a ^^ decide (q < 0))
  | finite p, finite q => finite (p * q)

/-- A divisor that is zero counts as positive. -/
protected def div : Extended → Extended → Extended
  | nan, _ | _, nan => nan
  | infinite _, infinite _ => nan
  | infinite a, finite q => infinite (a ^^ decide (q < 0))
  | finite _, infinite _ => finite 0
  | finite p, finite q =>
      if q = 0 then if p = 0 then nan else infinite (decide (p < 0)) else finite (p / q)

instance : Zero Extended := ⟨finite 0⟩
instance : Neg Extended := ⟨Extended.neg⟩
instance : Add Extended := ⟨Extended.add⟩
instance : Sub Extended := ⟨fun x y => x + -y⟩
instance : Mul Extended := ⟨Extended.mul⟩
instance : Div Extended := ⟨Extended.div⟩

def rank : Extended → WithBot (WithTop ℚ)
  | nan | infinite true => ⊥
  | infinite false => ((⊤ : WithTop ℚ) : WithBot (WithTop ℚ))
  | finite q => ((q : WithTop ℚ) : WithBot (WithTop ℚ))

instance : LT Extended := ⟨fun x y => x ≠ nan ∧ y ≠ nan ∧ x.rank < y.rank⟩
instance : LE Extended := ⟨fun x y => x ≠ nan ∧ y ≠ nan ∧ x.rank ≤ y.rank⟩
instance (x y : Extended) : Decidable (x < y) := inferInstanceAs (Decidable (_ ∧ _ ∧ _))
instance (x y : Extended) : Decidable (x ≤ y) := inferInstanceAs (Decidable (_ ∧ _ ∧ _))

section Sum

@[simp] theorem nan_add (x : Extended) : nan + x = nan := by cases x <;> rfl
@[simp] theorem add_nan (x : Extended) : x + nan = nan := by cases x <;> rfl
@[simp] theorem finite_add_finite (p q : ℚ) : finite p + finite q = finite (p + q) := rfl
@[simp] theorem infinite_add_finite (a : Bool) (q : ℚ) : infinite a + finite q = infinite a := rfl
@[simp] theorem finite_add_infinite (a : Bool) (p : ℚ) : finite p + infinite a = infinite a := rfl

@[simp] theorem infinite_add_infinite (a b : Bool) :
    infinite a + infinite b = if a = b then infinite a else nan := rfl

instance : AddCommMonoid Extended where
  add_assoc x y z := by
    cases x <;> cases y <;> cases z <;> simp [add_assoc]
    all_goals split_ifs <;> simp_all
  zero_add x := by
    show finite 0 + x = x
    cases x <;> simp
  add_zero x := by
    show x + finite 0 = x
    cases x <;> simp
  add_comm x y := by
    cases x <;> cases y <;> simp [add_comm]
    rename_i a b
    cases a <;> cases b <;> rfl
  nsmul := nsmulRec

end Sum

section Order

variable {x y z : Extended}

theorem finite_le_iff {p q : ℚ} : finite p ≤ finite q ↔ p ≤ q :=
  ⟨fun h => WithTop.coe_le_coe.mp (WithBot.coe_le_coe.mp h.2.2),
    fun h => ⟨nofun, nofun, WithBot.coe_le_coe.mpr (WithTop.coe_le_coe.mpr h)⟩⟩

theorem finite_lt_iff {p q : ℚ} : finite p < finite q ↔ p < q :=
  ⟨fun h => WithTop.coe_lt_coe.mp (WithBot.coe_lt_coe.mp h.2.2),
    fun h => ⟨nofun, nofun, WithBot.coe_lt_coe.mpr (WithTop.coe_lt_coe.mpr h)⟩⟩

theorem le_infinite (h : x ≠ nan) : x ≤ infinite false := by
  refine ⟨h, nofun, ?_⟩
  cases x with
  | nan => exact absurd rfl h
  | infinite negative =>
      cases negative
      · exact le_rfl
      · exact bot_le
  | finite q => exact WithBot.coe_le_coe.mpr le_top

theorem not_infinite_le (q : ℚ) : ¬infinite false ≤ finite q :=
  fun h => (WithTop.coe_lt_top q).not_ge (WithBot.coe_le_coe.mp h.2.2)

theorem not_le_infinite (q : ℚ) : ¬finite q ≤ infinite true :=
  fun h => (WithBot.bot_lt_coe _).not_ge h.2.2

protected theorem le_trans (hxy : x ≤ y) (hyz : y ≤ z) : x ≤ z :=
  ⟨hxy.1, hyz.2.1, hxy.2.2.trans hyz.2.2⟩

theorem nonneg_cases (h : 0 ≤ x) : x = infinite false ∨ ∃ q : ℚ, 0 ≤ q ∧ x = finite q := by
  cases x with
  | nan => exact absurd rfl h.2.1
  | infinite negative =>
      cases negative
      · exact Or.inl rfl
      · exact absurd h (not_le_infinite 0)
  | finite q => exact Or.inr ⟨q, finite_le_iff.mp h, rfl⟩

protected theorem add_nonneg (hx : 0 ≤ x) (hy : 0 ≤ y) : 0 ≤ x + y := by
  obtain rfl | ⟨p, hp, rfl⟩ := nonneg_cases hx <;> obtain rfl | ⟨q, hq, rfl⟩ := nonneg_cases hy
  · exact le_infinite nofun
  · exact le_infinite nofun
  · exact le_infinite nofun
  · exact finite_le_iff.mpr (add_nonneg hp hq)

theorem add_le_add_left (hx : 0 ≤ x) (h : x ≤ y) (hz : 0 ≤ z) : z + x ≤ z + y := by
  obtain rfl | ⟨r, -, rfl⟩ := nonneg_cases hz <;>
    obtain rfl | ⟨q, hq, rfl⟩ := nonneg_cases (Extended.le_trans hx h) <;>
      obtain rfl | ⟨p, -, rfl⟩ := nonneg_cases hx
  · exact le_infinite nofun
  · exact le_infinite nofun
  · exact le_infinite nofun
  · exact le_infinite nofun
  · exact le_infinite nofun
  · exact le_infinite nofun
  · exact absurd h (not_infinite_le q)
  · exact finite_le_iff.mpr (add_le_add_right (finite_le_iff.mp h) r)

theorem le_add_left (hx : 0 ≤ x) (hz : 0 ≤ z) : x ≤ z + x := by
  obtain rfl | ⟨r, hr, rfl⟩ := nonneg_cases hz <;> obtain rfl | ⟨p, -, rfl⟩ := nonneg_cases hx
  · exact le_infinite nofun
  · exact le_infinite nofun
  · exact le_infinite nofun
  · exact finite_le_iff.mpr (le_add_of_nonneg_left hr)

theorem add_le_of_le_sub (hy : 0 ≤ y) (hx : 0 ≤ x) (h : x ≤ z - y) : y + x ≤ z := by
  have hleft := Extended.le_trans hx h
  obtain rfl | ⟨q, -, rfl⟩ := nonneg_cases hy
  · -- Nothing is left of what an infinity is taken from.
    cases z with
    | nan => exact absurd rfl hleft.2.1
    | infinite negative =>
        cases negative
        · exact absurd rfl hleft.2.1
        · exact absurd hleft (not_le_infinite 0)
    | finite r => exact absurd hleft (not_le_infinite 0)
  · cases z with
    | nan => exact absurd rfl hleft.2.1
    | infinite negative =>
        cases negative
        · exact le_infinite (Extended.add_nonneg hy hx).2.1
        · exact absurd hleft (not_le_infinite 0)
    | finite r =>
        obtain rfl | ⟨p, -, rfl⟩ := nonneg_cases hx
        · exact absurd h (not_infinite_le (r + -q))
        · refine finite_le_iff.mpr ?_
          have hle := finite_le_iff.mp h
          linarith

theorem sub_le (hy : 0 ≤ y) (hx : 0 ≤ x) (h : y - x ≠ nan) : y - x ≤ y := by
  obtain rfl | ⟨q, hq, rfl⟩ := nonneg_cases hy <;> obtain rfl | ⟨p, hp, rfl⟩ := nonneg_cases hx
  · exact absurd rfl h
  · exact le_infinite nofun
  · exact ⟨nofun, nofun, bot_le⟩
  · exact finite_le_iff.mpr (add_le_of_nonpos_right (neg_nonpos.mpr hp))

end Order

def roundFinite (q : ℚ) : Extended :=
  if nearest q < -largest then infinite true
  else if largest < nearest q then infinite false
  else finite (nearest q)

def round : Extended → Extended
  | nan => nan
  | infinite negative => infinite negative
  | finite q => roundFinite q

theorem round_round (x : Extended) : x.round.round = x.round := by
  cases x with
  | finite q =>
      rw [round, roundFinite]
      split_ifs with hlow hhigh
      · rfl
      · rfl
      · rw [round, roundFinite, nearest_nearest, if_neg hlow, if_neg hhigh]
  | _ => rfl

theorem roundFinite_ne_nan (q : ℚ) : roundFinite q ≠ nan := by
  unfold roundFinite
  split_ifs <;> exact nofun

theorem round_ne_nan {x : Extended} (h : x ≠ nan) : x.round ≠ nan := by
  cases x with
  | nan => exact absurd rfl h
  | infinite a => exact nofun
  | finite q => exact roundFinite_ne_nan q

theorem roundFinite_mono {p q : ℚ} (h : p ≤ q) : (roundFinite p).rank ≤ (roundFinite q).rank := by
  have hmono := nearest_mono h
  unfold roundFinite
  split_ifs with hp hq hq' hp' hq hq' hq hq'
  · exact le_rfl
  · exact bot_le
  · exact bot_le
  · linarith
  · exact le_rfl
  · linarith
  · linarith
  · exact WithBot.coe_le_coe.mpr le_top
  · exact WithBot.coe_le_coe.mpr (WithTop.coe_le_coe.mpr hmono)

theorem round_mono {x y : Extended} (h : x ≤ y) : x.round ≤ y.round := by
  obtain ⟨hx, hy, hle⟩ := h
  refine ⟨round_ne_nan hx, round_ne_nan hy, ?_⟩
  match x, y, hle with
  | nan, _, _ => exact absurd rfl hx
  | _, nan, _ => exact absurd rfl hy
  | infinite true, _, _ => exact bot_le
  | infinite false, infinite false, _ => exact le_rfl
  | infinite false, infinite true, hle => exact absurd hle (by decide)
  | infinite false, finite q, hle =>
      exact absurd (WithBot.coe_le_coe.mp hle) (WithTop.coe_lt_top q).not_ge
  | finite p, infinite true, hle => exact absurd hle (WithBot.bot_lt_coe _).not_ge
  | finite p, infinite false, _ =>
      show (roundFinite p).rank ≤ _
      unfold roundFinite
      split_ifs
      · exact bot_le
      · exact le_rfl
      · exact WithBot.coe_le_coe.mpr le_top
  | finite p, finite q, hle =>
      exact roundFinite_mono (WithTop.coe_le_coe.mp (WithBot.coe_le_coe.mp hle))

theorem eq_of_rank_eq {x y : Extended} (hx : x ≠ nan) (hy : y ≠ nan) (h : x.rank = y.rank) :
    x = y := by
  match x, y, h with
  | nan, _, _ => exact absurd rfl hx
  | _, nan, _ => exact absurd rfl hy
  | infinite true, infinite true, _ => rfl
  | infinite false, infinite false, _ => rfl
  | infinite true, infinite false, h => exact absurd h (WithBot.bot_ne_coe)
  | infinite false, infinite true, h => exact absurd h (WithBot.coe_ne_bot)
  | infinite true, finite q, h => exact absurd h (WithBot.bot_ne_coe)
  | finite p, infinite true, h => exact absurd h (WithBot.coe_ne_bot)
  | infinite false, finite q, h =>
      exact absurd (WithBot.coe_inj.mp h) (WithTop.top_ne_coe)
  | finite p, infinite false, h =>
      exact absurd (WithBot.coe_inj.mp h) (WithTop.coe_ne_top)
  | finite p, finite q, h =>
      exact congrArg finite (WithTop.coe_inj.mp (WithBot.coe_inj.mp h))

end Extended

/-- A value that rounding leaves as it is. -/
structure Double where
  value : Extended
  rounded : value.round = value
  deriving DecidableEq

namespace Double

def round (x : Extended) : Double := ⟨x.round, x.round_round⟩

/-- The nearest double, as of a literal or of an integer that is converted. -/
def ofRat (q : ℚ) : Double := round (.finite q)

instance : Zero Double := ⟨ofRat 0⟩
instance : Neg Double := ⟨fun x => round (-x.value)⟩
instance : Add Double := ⟨fun x y => round (x.value + y.value)⟩
instance : Sub Double := ⟨fun x y => round (x.value - y.value)⟩
instance : Mul Double := ⟨fun x y => round (x.value * y.value)⟩
instance : Div Double := ⟨fun x y => round (x.value / y.value)⟩
instance : LT Double := ⟨fun x y => x.value < y.value⟩
instance : LE Double := ⟨fun x y => x.value ≤ y.value⟩
instance (x y : Double) : Decidable (x < y) := inferInstanceAs (Decidable (x.value < y.value))
instance (x y : Double) : Decidable (x ≤ y) := inferInstanceAs (Decidable (x.value ≤ y.value))

@[simp] theorem value_zero : (0 : Double).value = 0 := by decide +kernel

theorem value_nonneg {x : Double} (h : 0 ≤ x) : 0 ≤ x.value := by
  rw [← value_zero]
  exact h

theorem ofRat_mono {p q : ℚ} (h : p ≤ q) : ofRat p ≤ ofRat q :=
  Extended.round_mono (Extended.finite_le_iff.mpr h)

theorem lt_of_le_of_lt {x y z : Double} (hxy : x ≤ y) (hyz : y < z) : x < z :=
  ⟨hxy.1, hyz.2.1, hxy.2.2.trans_lt hyz.2.2⟩

theorem lt_or_eq {x y : Double} (hx : x.value ≠ .nan) (hy : y.value ≠ .nan) (h : ¬y < x) :
    x < y ∨ x = y := by
  rcases lt_trichotomy x.value.rank y.value.rank with hlt | heq | hgt
  · exact Or.inl ⟨hx, hy, hlt⟩
  · obtain ⟨a, _⟩ := x
    obtain ⟨b, _⟩ := y
    obtain rfl : a = b := Extended.eq_of_rank_eq hx hy heq
    exact Or.inr rfl
  · exact absurd ⟨hy, hx, hgt⟩ h

section Exact

variable {x y : Double} {p q : ℚ}

def Is (x : Double) (q : ℚ) : Prop := x.value = .finite q

def Representable (q : ℚ) : Prop := (ofRat q).Is q

theorem Is.representable (hx : x.Is p) : Representable p := by
  have hround := x.rounded
  rw [hx] at hround
  exact hround

theorem Is.add (hx : x.Is p) (hy : y.Is q) (h : Representable (p + q)) : (x + y).Is (p + q) := by
  show (x.value + y.value).round = _
  rw [hx, hy]
  exact h

theorem Is.sub (hx : x.Is p) (hy : y.Is q) (h : Representable (p - q)) : (x - y).Is (p - q) := by
  rw [sub_eq_add_neg] at h ⊢
  show (x.value - y.value).round = _
  rw [hx, hy]
  exact h

theorem Is.lt_iff (hx : x.Is p) (hy : y.Is q) : x < y ↔ p < q := by
  show x.value < y.value ↔ p < q
  rw [hx, hy]
  exact Extended.finite_lt_iff

theorem Is.le_iff (hx : x.Is p) (hy : y.Is q) : x ≤ y ↔ p ≤ q := by
  show x.value ≤ y.value ↔ p ≤ q
  rw [hx, hy]
  exact Extended.finite_le_iff

theorem representable_natCast {n : ℕ} (h : n ≤ 2 ^ 53) : Representable n := by
  have hnearest : nearest n = n := by
    have hexact := roundMagnitude_eq_self h (e := 0) (by norm_num)
    rw [zpow_zero, mul_one] at hexact
    rw [nearest_of_nonneg n.cast_nonneg, hexact]
  have hbound : (n : ℚ) ≤ largest := by
    have hcount : (n : ℚ) ≤ 2 ^ 53 := by exact_mod_cast h
    exact hcount.trans (by decide +kernel)
  show Extended.roundFinite n = _
  rw [Extended.roundFinite, hnearest, if_neg, if_neg hbound.not_gt]
  have hlargest : 0 ≤ largest := by decide +kernel
  exact (neg_nonpos.mpr hlargest).trans n.cast_nonneg |>.not_gt

end Exact

end Double

end EdgeAllocator.Foundation
