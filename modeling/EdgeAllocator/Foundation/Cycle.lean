import Mathlib.Data.List.Chain
import Mathlib.Order.Lattice

/-! A linear order gone around as a cycle, and what a choice that passes over
no candidate owes to the candidates that stay: none of them waits while another
one is chosen twice. -/
namespace EdgeAllocator.Foundation

variable {α : Type} [LinearOrder α]

/-- Going around from `a`, which itself comes last, `x` is met no later than `b`. -/
def MetBy (a x b : α) : Prop := a < x ∧ x ≤ b ∨ b ≤ a ∧ a < x ∨ x ≤ b ∧ b ≤ a

/-- Going around from `e`, which itself comes first, `p` is met before `x`. -/
def Before (e p x : α) : Prop := e ≤ p ∧ p < x ∨ x < e ∧ (e ≤ p ∨ p < x)

theorem before_self {e x : α} (h : x ≠ e) : Before e e x := by
  rcases lt_or_gt_of_ne h with hlt | hgt
  · exact Or.inr ⟨hlt, Or.inl le_rfl⟩
  · exact Or.inl ⟨le_rfl, hgt⟩

theorem Before.next {e p d x : α} (h : Before e p x) (hmet : MetBy p d x) (hd : d ≠ x) :
    Before e d x ∧ d ≠ e := by
  have hdx : d ≤ x → d < x := fun hle => lt_of_le_of_ne hle hd
  rcases hmet with ⟨hpd, hdle⟩ | ⟨hxp, hpd⟩ | ⟨hdle, hxp⟩
  · rcases h with ⟨hep, -⟩ | ⟨hxe, hep | hpx⟩
    · exact ⟨Or.inl ⟨(hep.trans_lt hpd).le, hdx hdle⟩, (hep.trans_lt hpd).ne'⟩
    · exact absurd ((hep.trans_lt hpd).trans_le hdle) (not_lt.mpr hxe.le)
    · exact ⟨Or.inr ⟨hxe, Or.inr (hdx hdle)⟩, ((hdx hdle).trans hxe).ne⟩
  · rcases h with ⟨-, hpx⟩ | ⟨hxe, hep | hpx⟩
    · exact absurd hpx (not_lt.mpr hxp)
    · exact ⟨Or.inr ⟨hxe, Or.inl (hep.trans_lt hpd).le⟩, (hep.trans_lt hpd).ne'⟩
    · exact absurd hpx (not_lt.mpr hxp)
  · rcases h with ⟨-, hpx⟩ | ⟨hxe, -⟩
    · exact absurd hpx (not_lt.mpr hxp)
    · exact ⟨Or.inr ⟨hxe, Or.inr (hdx hdle)⟩, ((hdx hdle).trans hxe).ne⟩

/-- The candidates of one choice, and which of them was chosen. -/
structure Turn (α : Type) where
  candidates : List α
  chosen : α
  deriving DecidableEq

def PassesNone (earlier later : Turn α) : Prop :=
  ∀ x ∈ earlier.candidates, x ∈ later.candidates → MetBy earlier.chosen later.chosen x

/-- Between two choices of one element, whatever else was a candidate all the
time has been chosen too. -/
def Cycles (history : List (Turn α)) : Prop :=
  ∀ before first between second after,
    history = before ++ first :: between ++ second :: after →
    second.chosen = first.chosen → (∀ turn ∈ between, turn.chosen ≠ first.chosen) →
    ∀ x, x ≠ first.chosen → (∀ turn ∈ first :: between ++ [second], x ∈ turn.candidates) →
      ∃ turn ∈ between, turn.chosen = x

theorem chosen_before_return {e x : α} {between : List (Turn α)} {first second : Turn α}
    (hbefore : Before e first.chosen x)
    (hchain : (first :: between ++ [second]).IsChain PassesNone)
    (hx : ∀ turn ∈ first :: between ++ [second], x ∈ turn.candidates)
    (hreturn : second.chosen = e) (hne : x ≠ e) : ∃ turn ∈ between, turn.chosen = x := by
  induction between generalizing first with
  | nil =>
      have hmet := (List.isChain_pair.mp hchain) x (hx first (by simp)) (hx second (by simp))
      have hnext := hbefore.next hmet (by rw [hreturn]; exact hne.symm)
      exact absurd hreturn hnext.2
  | cons turn between ih =>
      have hmet := (List.isChain_cons_cons.mp hchain).1 x (hx first (by simp)) (hx turn (by simp))
      by_cases hchosen : turn.chosen = x
      · exact ⟨turn, List.mem_cons_self, hchosen⟩
      · obtain ⟨later, hlater, hfound⟩ := ih (hbefore.next hmet hchosen).1
          (List.isChain_cons_cons.mp hchain).2 fun later hlater =>
            hx later (List.mem_cons_of_mem _ hlater)
        exact ⟨later, List.mem_cons_of_mem _ hlater, hfound⟩

theorem cycles_of_passesNone {history : List (Turn α)} (h : history.IsChain PassesNone) :
    Cycles history := by
  intro before first between second after hsplit hreturn _ x hne hx
  have hparts : history = before ++ (first :: between ++ [second]) ++ after := by
    rw [hsplit]
    simp
  rw [hparts] at h
  exact chosen_before_return (before_self hne) h.left_of_append.right_of_append hx hreturn hne

section Slots

variable {candidates : List α}

/-- How many candidates a walk around from `last` passes before it is at the
slot, the first one after `last` being passed by none. -/
def passed (last : α) (candidates : List α) (slot : Nat) : Nat :=
  (slot + (candidates.length - candidates.findIdx (last < ·))) % candidates.length

theorem lt_getElem_iff (last : α) (hsorted : candidates.Pairwise (· < ·)) {i : Nat}
    (hi : i < candidates.length) : last < candidates[i] ↔ candidates.findIdx (last < ·) ≤ i := by
  constructor
  · intro hlt
    by_contra hbefore
    have hnot := List.not_of_lt_findIdx (not_le.mp hbefore)
    rw [decide_eq_false_iff_not] at hnot
    exact hnot hlt
  · intro hle
    have hfound := List.findIdx_getElem (p := (last < ·)) (w := lt_of_le_of_lt hle hi)
    rw [decide_eq_true_eq] at hfound
    rcases Nat.eq_or_lt_of_le hle with heq | hlt
    · simpa only [heq] using hfound
    · exact hfound.trans (List.pairwise_iff_getElem.mp hsorted _ _ _ hi hlt)

theorem passed_of_lt {last : α} {i : Nat} (hi : i < candidates.length) :
    passed last candidates i =
      if candidates.findIdx (last < ·) ≤ i then i - candidates.findIdx (last < ·)
      else i + (candidates.length - candidates.findIdx (last < ·)) := by
  have hfirst : candidates.findIdx (last < ·) ≤ candidates.length := List.findIdx_le_length
  unfold passed
  split_ifs with hle
  · have hwrap : i + (candidates.length - candidates.findIdx (last < ·)) =
        i - candidates.findIdx (last < ·) + candidates.length := by omega
    rw [hwrap, Nat.add_mod_right, Nat.mod_eq_of_lt (by omega)]
  · exact Nat.mod_eq_of_lt (by omega)

theorem metBy_of_passed_le {last : α} (hsorted : candidates.Pairwise (· < ·)) {i j : Nat}
    (hi : i < candidates.length) (hj : j < candidates.length)
    (h : passed last candidates i ≤ passed last candidates j) :
    MetBy last candidates[i] candidates[j] := by
  have hle (hij : i ≤ j) : candidates[i] ≤ candidates[j] := by
    rcases Nat.eq_or_lt_of_le hij with rfl | hlt
    · exact le_rfl
    · exact (List.pairwise_iff_getElem.mp hsorted _ _ hi hj hlt).le
  have hafter := lt_getElem_iff last hsorted hi
  have hafter' := lt_getElem_iff last hsorted hj
  have hfirst : candidates.findIdx (last < ·) ≤ candidates.length := List.findIdx_le_length
  rw [passed_of_lt hi, passed_of_lt hj] at h
  split_ifs at h with hpi hpj hpj
  · exact Or.inl ⟨hafter.mpr hpi, hle (by omega)⟩
  · exact Or.inr (Or.inl ⟨not_lt.mp (mt hafter'.mp hpj), hafter.mpr hpi⟩)
  · omega
  · exact Or.inr (Or.inr ⟨hle (by omega), not_lt.mp (mt hafter'.mp hpj)⟩)

end Slots

end EdgeAllocator.Foundation
