import Mathlib.Data.List.Basic

/-! `std::max_element` and `std::min_element` as the linear scans they are. The
comparison may fail (it may dereference a null pointer) and may depend on its
place in the scan (it may read a clock), so that neither is assumed to be an
order. -/
namespace EdgeAllocator.Foundation

variable {α : Type}

/-- `wins i best x` is the comparison made when the scan stands at index `i`:
whether the element `x` there replaces the best one so far. -/
def scanFrom (wins : Nat → α → α → Option Bool) (bestIndex : Nat) (best : α) (i : Nat) :
    List α → Option Nat
  | [] => some bestIndex
  | x :: xs => do
      if ← wins i best x then scanFrom wins i x (i + 1) xs
      else scanFrom wins bestIndex best (i + 1) xs

def maxElement (less : Nat → α → α → Option Bool) : List α → Option Nat
  | [] => none
  | x :: xs => scanFrom (fun i best y => less i best y) 0 x 1 xs

def minElement (less : Nat → α → α → Option Bool) : List α → Option Nat
  | [] => none
  | x :: xs => scanFrom (fun i best y => less i y best) 0 x 1 xs

theorem scanFrom_lt {wins : Nat → α → α → Option Bool} {xs : List α} {bestIndex i j : Nat}
    {best : α} (hbest : bestIndex < i)
    (h : scanFrom wins bestIndex best i xs = some j) : j < i + xs.length := by
  induction xs generalizing bestIndex best i with
  | nil =>
      cases Option.some.inj h
      exact hbest
  | cons x xs ih =>
      obtain ⟨taken, -, hrest⟩ := Option.bind_eq_some_iff.mp h
      rw [List.length_cons]
      cases taken with
      | true =>
          have := ih (Nat.lt_succ_self i) hrest
          omega
      | false =>
          have := ih (Nat.lt_succ_of_lt hbest) hrest
          omega

theorem maxElement_lt {less : Nat → α → α → Option Bool} {xs : List α} {j : Nat}
    (h : maxElement less xs = some j) : j < xs.length := by
  cases xs with
  | nil => cases h
  | cons x xs =>
      have := scanFrom_lt Nat.zero_lt_one h
      rw [List.length_cons]
      omega

theorem minElement_lt {less : Nat → α → α → Option Bool} {xs : List α} {j : Nat}
    (h : minElement less xs = some j) : j < xs.length := by
  cases xs with
  | nil => cases h
  | cons x xs =>
      have := scanFrom_lt Nat.zero_lt_one h
      rw [List.length_cons]
      omega

theorem scanFrom_isSome {wins : Nat → α → α → Option Bool} {xs : List α} {best : α}
    (h : ∀ i, ∀ a ∈ best :: xs, ∀ b ∈ xs, (wins i a b).isSome) (bestIndex i : Nat) :
    (scanFrom wins bestIndex best i xs).isSome := by
  induction xs generalizing best bestIndex i with
  | nil => rfl
  | cons x xs ih =>
      obtain ⟨taken, htaken⟩ := Option.isSome_iff_exists.mp
        (h i best List.mem_cons_self x List.mem_cons_self)
      have htail (i : Nat) (a : α) (ha : a ∈ best :: x :: xs) (b : α) (hb : b ∈ xs) :
          (wins i a b).isSome := h i a ha b (List.mem_cons_of_mem _ hb)
      rw [scanFrom, htaken, Option.bind_eq_bind, Option.bind_some]
      cases taken with
      | true => exact ih (fun i a ha => htail i a (List.mem_cons_of_mem _ ha)) _ _
      | false =>
          refine ih (fun i a ha => htail i a ?_) _ _
          rcases List.mem_cons.mp ha with rfl | ha
          · exact List.mem_cons_self
          · exact List.mem_cons_of_mem _ (List.mem_cons_of_mem _ ha)

theorem minElement_isSome {less : Nat → α → α → Option Bool} {xs : List α} (hxs : xs ≠ [])
    (h : ∀ i, ∀ a ∈ xs, ∀ b ∈ xs, (less i a b).isSome) : (minElement less xs).isSome := by
  cases xs with
  | nil => exact absurd rfl hxs
  | cons x xs =>
      exact scanFrom_isSome (fun i a ha b hb => h i b (List.mem_cons_of_mem _ hb) a ha) _ _

/-- Comparison `i` may be off by the rise of `level` there; where it keeps the
best element, by `slack` beyond that. -/
structure Approximates (wins : Nat → α → α → Option Bool) (cost : α → Int) (level : Nat → Int)
    (slack : Int) (i : Nat) (best x : α) : Prop where
  rises : level i ≤ level (i + 1)
  taken : wins i best x = some true → cost x < cost best + (level (i + 1) - level i)
  kept : wins i best x = some false → cost best < cost x + slack + (level (i + 1) - level i)

section Within

variable {cost : α → Int} {level : Nat → Int} {slack : Int} {xs : List α} {i j : Nat}

private theorem getElem?_cons_sub {x : α} (h : i + 1 ≤ j) :
    (x :: xs)[j - i]? = xs[j - (i + 1)]? := by
  have hsucc : j - i = j - (i + 1) + 1 := by omega
  rw [hsucc, List.getElem?_cons_succ]

/-- The errors along a scan do not add up: those of replacing comparisons
telescope with the level, and the slack is paid once. -/
theorem scanFrom_within {wins : Nat → α → α → Option Bool} {bestIndex : Nat} {best : α}
    (hslack : 0 < slack)
    (happrox : ∀ k, i ≤ k → k < i + xs.length → ∀ a ∈ best :: xs, ∀ b ∈ xs,
      Approximates wins cost level slack k a b)
    (h : scanFrom wins bestIndex best i xs = some j) :
    ∃ chosen, (j = bestIndex ∧ chosen = best ∨ i ≤ j ∧ xs[j - i]? = some chosen) ∧
      cost chosen ≤ cost best + (level (i + xs.length) - level i) ∧
      ∀ x ∈ xs, cost chosen < cost x + slack + (level (i + xs.length) - level i) := by
  induction xs generalizing bestIndex best i with
  | nil =>
      cases Option.some.inj h
      exact ⟨best, Or.inl ⟨rfl, rfl⟩, by simp, by simp⟩
  | cons x xs ih =>
      have hend : i + (x :: xs).length = i + 1 + xs.length := by
        rw [List.length_cons]
        omega
      have hhead := happrox i (Nat.le_refl i) (by omega) best List.mem_cons_self x List.mem_cons_self
      have hrise := hhead.rises
      have htail (best' : α) (hbest' : best' ∈ best :: x :: xs) :
          ∀ k, i + 1 ≤ k → k < i + 1 + xs.length → ∀ a ∈ best' :: xs, ∀ b ∈ xs,
            Approximates wins cost level slack k a b := by
        intro k hk hlt a ha b hb
        refine happrox k (by omega) (by omega) a ?_ b (List.mem_cons_of_mem _ hb)
        rcases List.mem_cons.mp ha with rfl | ha
        · exact hbest'
        · exact List.mem_cons_of_mem _ (List.mem_cons_of_mem _ ha)
      obtain ⟨taken, htaken, hrest⟩ := Option.bind_eq_some_iff.mp h
      rw [hend]
      cases taken with
      | true =>
          have hlt := hhead.taken htaken
          obtain ⟨chosen, hplace, hcost, hall⟩ :=
            ih (htail x (List.mem_cons_of_mem _ List.mem_cons_self)) hrest
          refine ⟨chosen, Or.inr ?_, by omega, fun y hy => ?_⟩
          · rcases hplace with ⟨rfl, rfl⟩ | ⟨hj, hget⟩
            · simp
            · exact ⟨by omega, (getElem?_cons_sub hj).trans hget⟩
          · rcases List.mem_cons.mp hy with rfl | hy
            · omega
            · have := hall y hy
              omega
      | false =>
          have hlt := hhead.kept htaken
          obtain ⟨chosen, hplace, hcost, hall⟩ := ih (htail best List.mem_cons_self) hrest
          refine ⟨chosen, hplace.imp_right fun ⟨hj, hget⟩ =>
            ⟨by omega, (getElem?_cons_sub hj).trans hget⟩, by omega, fun y hy => ?_⟩
          rcases List.mem_cons.mp hy with rfl | hy
          · omega
          · have := hall y hy
            omega

theorem minElement_within {less : Nat → α → α → Option Bool} (hslack : 0 < slack)
    (happrox : ∀ k, 1 ≤ k → k < xs.length → ∀ a ∈ xs, ∀ b ∈ xs,
      Approximates (fun i best y => less i y best) cost level slack k a b)
    (h : minElement less xs = some j) :
    ∃ chosen, xs[j]? = some chosen ∧
      ∀ x ∈ xs, cost chosen < cost x + slack + (level xs.length - level 1) := by
  cases xs with
  | nil => cases h
  | cons x xs =>
      have hend : (x :: xs).length = 1 + xs.length := by
        rw [List.length_cons, Nat.add_comm]
      obtain ⟨chosen, hplace, hcost, hall⟩ := scanFrom_within hslack (fun k hk hlt a ha b hb =>
        happrox k hk (hend ▸ hlt) a ha b (List.mem_cons_of_mem _ hb)) h
      rw [hend]
      refine ⟨chosen, ?_, fun y hy => ?_⟩
      · rcases hplace with ⟨rfl, rfl⟩ | ⟨hj, hget⟩
        · rfl
        · exact (getElem?_cons_sub (i := 0) hj).trans hget
      · rcases List.mem_cons.mp hy with rfl | hy
        · omega
        · exact hall y hy

end Within

end EdgeAllocator.Foundation
