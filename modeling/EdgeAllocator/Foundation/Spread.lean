import Mathlib.Algebra.Order.Group.MinMax

/-! The spread of a list of values, and how it grows when the least of them is
raised: the balance that a greedy assignment keeps. -/
namespace EdgeAllocator.Foundation

variable {α β : Type} [AddCommGroup β] [LinearOrder β]

def spread (values : List β) : β :=
  match values.max?, values.min? with
  | some largest, some smallest => largest - smallest
  | _, _ => 0

theorem spread_of_ne_nil {values : List β} (h : values ≠ []) :
    ∃ largest ∈ values, ∃ smallest ∈ values,
      (∀ x ∈ values, smallest ≤ x ∧ x ≤ largest) ∧ spread values = largest - smallest := by
  obtain ⟨largest, hlargest⟩ := Option.ne_none_iff_exists'.mp (mt List.max?_eq_none_iff.mp h)
  obtain ⟨smallest, hsmallest⟩ := Option.ne_none_iff_exists'.mp (mt List.min?_eq_none_iff.mp h)
  obtain ⟨hmem, hle⟩ := List.max?_eq_some_iff.mp hlargest
  obtain ⟨hmem', hge⟩ := List.min?_eq_some_iff.mp hsmallest
  refine ⟨largest, hmem, smallest, hmem', fun x hx => ⟨hge x hx, hle x hx⟩, ?_⟩
  unfold spread
  rw [hlargest, hsmallest]

theorem spread_le {values : List β} {bound : β} (hbound : 0 ≤ bound)
    (h : ∀ x ∈ values, ∀ y ∈ values, x - y ≤ bound) : spread values ≤ bound := by
  by_cases hnil : values = []
  · subst hnil
    exact hbound
  · obtain ⟨largest, hlargest, smallest, hsmallest, -, hspread⟩ := spread_of_ne_nil hnil
    rw [hspread]
    exact h largest hlargest smallest hsmallest

variable [IsOrderedAddMonoid β]

theorem sub_le_spread {values : List β} {x y : β} (hx : x ∈ values) (hy : y ∈ values) :
    x - y ≤ spread values := by
  obtain ⟨largest, -, smallest, -, hbounds, hspread⟩ := spread_of_ne_nil (List.ne_nil_of_mem hx)
  rw [hspread]
  exact sub_le_sub (hbounds x hx).2 (hbounds y hy).1

/-- Raising a least value by `amount` widens the spread to `amount` at most. -/
theorem spread_raise_least {xs : List α} {load load' : α → β} {e : α} {amount : β}
    (he : e ∈ xs) (hleast : ∀ x ∈ xs, load e ≤ load x) (hamount : 0 ≤ amount)
    (hself : load' e = load e + amount) (hothers : ∀ x ∈ xs, x ≠ e → load' x = load x) :
    spread (xs.map load') ≤ max (spread (xs.map load)) amount := by
  have hwithin (x y : α) (hx : x ∈ xs) (hy : y ∈ xs) :
      load x - load y ≤ spread (xs.map load) :=
    sub_le_spread (List.mem_map_of_mem hx) (List.mem_map_of_mem hy)
  apply spread_le (le_max_of_le_right hamount)
  intro a ha b hb
  obtain ⟨x, hx, rfl⟩ := List.mem_map.mp ha
  obtain ⟨y, hy, rfl⟩ := List.mem_map.mp hb
  by_cases hxe : x = e
  · by_cases hye : y = e
    · rw [hxe, hye, sub_self]
      exact le_max_of_le_right hamount
    · -- The raised value stood below `load y`, so it exceeds it by `amount` at most.
      rw [hxe, hself, hothers y hy hye]
      apply le_max_of_le_right
      rw [add_sub_right_comm]
      exact add_le_of_nonpos_left (sub_nonpos.mpr (hleast y hy))
  · rw [hothers x hx hxe]
    apply le_max_of_le_left
    by_cases hye : y = e
    · rw [hye, hself, ← sub_sub]
      exact (sub_le_self _ hamount).trans (hwithin x e hx he)
    · rw [hothers y hy hye]
      exact hwithin x y hx hy

end EdgeAllocator.Foundation
