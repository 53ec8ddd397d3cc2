import EdgeAllocator.Foundation.Extremum
import Mathlib.Data.List.Basic
import Mathlib.Data.List.Sort

/-! Selection by a key: where the scan of `std::max_element` stops, and what
taking the found element again and again makes of a list. Nothing here knows
the program that is verified with it. -/
namespace EdgeAllocator.Foundation

variable {α κ : Type} [LinearOrder κ]

/-- No key is above that of `x`, and those before `x` are below it. -/
structure Leads (key : α → κ) (before : List α) (x : α) (after : List α) : Prop where
  before : ∀ y ∈ before, key y < key x
  after : ∀ y ∈ after, key y ≤ key x

private theorem scanFrom_leads {wins : Nat → α → α → Option Bool} {key : α → κ}
    {xs before mid : List α} {best : α} (hleads : Leads key before best mid)
    (hwins : ∀ i, ∀ a ∈ best :: xs, ∀ b ∈ xs, wins i a b = some (decide (key a < key b))) :
    ∃ before' x after, before ++ best :: (mid ++ xs) = before' ++ x :: after ∧
      scanFrom wins before.length best (before.length + 1 + mid.length) xs =
        some before'.length ∧ Leads key before' x after := by
  induction xs generalizing before mid best with
  | nil => exact ⟨before, best, mid, by rw [List.append_nil], rfl, hleads⟩
  | cons x xs ih =>
      have hx := hwins (before.length + 1 + mid.length) best List.mem_cons_self x
        List.mem_cons_self
      have hrest : ∀ i, ∀ a ∈ x :: xs, ∀ b ∈ xs, wins i a b = some (decide (key a < key b)) :=
        fun i a ha b hb => hwins i a (List.mem_cons_of_mem _ ha) b (List.mem_cons_of_mem _ hb)
      rw [scanFrom, hx, Option.bind_eq_bind, Option.bind_some]
      by_cases hless : key best < key x
      · have hahead : Leads key (before ++ best :: mid) x [] := by
          refine ⟨fun y hy => ?_, by simp⟩
          rcases List.mem_append.mp hy with hy | hy
          · exact (hleads.before y hy).trans hless
          · rcases List.mem_cons.mp hy with rfl | hy
            · exact hless
            · exact (hleads.after y hy).trans_lt hless
        obtain ⟨before', x', after, hsplit, hscan, hnext⟩ := ih hahead hrest
        refine ⟨before', x', after, ?_, ?_, hnext⟩
        · rw [← hsplit]
          simp
        · rw [if_pos (by simpa using hless), ← hscan]
          congr 1 <;> simp <;> omega
      · have hbehind : Leads key before best (mid ++ [x]) := by
          refine ⟨hleads.before, fun y hy => ?_⟩
          rcases List.mem_append.mp hy with hy | hy
          · exact hleads.after y hy
          · rw [List.mem_singleton.mp hy]
            exact not_lt.mp hless
        obtain ⟨before', x', after, hsplit, hscan, hnext⟩ := ih hbehind
          fun i a ha b hb => hwins i a (by grind) b (List.mem_cons_of_mem _ hb)
        refine ⟨before', x', after, ?_, ?_, hnext⟩
        · rw [← hsplit]
          simp
        · rw [if_neg (by simpa using hless), ← hscan]
          congr 1
          simp
          omega

theorem maxElement_leads {less : Nat → α → α → Option Bool} {key : α → κ} {xs : List α}
    (hxs : xs ≠ []) (hless : ∀ i, ∀ a ∈ xs, ∀ b ∈ xs, less i a b = some (decide (key a < key b))) :
    ∃ before x after, xs = before ++ x :: after ∧ maxElement less xs = some before.length ∧
      Leads key before x after := by
  cases xs with
  | nil => exact absurd rfl hxs
  | cons x xs =>
      have hstart : Leads key [] x [] := ⟨by simp, by simp⟩
      exact scanFrom_leads hstart fun i a ha b hb => hless i a ha b (List.mem_cons_of_mem _ hb)

/-- The elements in descending order of their keys, those of one key in the
order that they had. -/
structure StableSorted (key : α → κ) (xs ys : List α) : Prop where
  descending : ys.Pairwise fun a b => key b ≤ key a
  stable : ∀ k, ys.filter (fun a => key a = k) = xs.filter fun a => key a = k

namespace StableSorted

variable {key : α → κ} {xs ys zs : List α}

theorem mem_iff (h : StableSorted key xs ys) (a : α) : a ∈ ys ↔ a ∈ xs := by
  have hfilter := congrArg (a ∈ ·) (h.stable (key a))
  simpa using hfilter

theorem unique (h : StableSorted key xs ys) (h' : StableSorted key xs zs) : ys = zs := by
  obtain ⟨hys, hstable⟩ := h
  obtain ⟨hzs, hstable'⟩ := h'
  have hsame : ∀ k, ys.filter (fun a => key a = k) = zs.filter fun a => key a = k :=
    fun k => (hstable k).trans (hstable' k).symm
  clear hstable hstable'
  have hmem {as bs : List α} (h : ∀ k, as.filter (fun a => key a = k) =
      bs.filter fun a => key a = k) {a : α} (ha : a ∈ as) : a ∈ bs := by
    have hfilter := congrArg (a ∈ ·) (h (key a))
    simp only [List.mem_filter, decide_true, and_true, eq_iff_iff] at hfilter
    exact hfilter.mp ha
  induction ys generalizing zs with
  | nil =>
      cases zs with
      | nil => rfl
      | cons z zs => cases hmem (fun k => (hsame k).symm) (List.mem_cons_self (a := z))
  | cons y ys ih =>
      cases zs with
      | nil => cases hmem hsame (List.mem_cons_self (a := y))
      | cons z zs =>
          obtain ⟨hy, hysTail⟩ := List.pairwise_cons.mp hys
          obtain ⟨hz, hzsTail⟩ := List.pairwise_cons.mp hzs
          -- Each head is in the other list, so neither key is above the other.
          have hyz : key y ≤ key z := by
            rcases List.mem_cons.mp (hmem hsame (List.mem_cons_self (a := y))) with rfl | hmem
            · exact le_rfl
            · exact hz y hmem
          have hzy : key z ≤ key y := by
            rcases List.mem_cons.mp (hmem (fun k => (hsame k).symm)
              (List.mem_cons_self (a := z))) with rfl | hmem
            · exact le_rfl
            · exact hy z hmem
          have hkey : key y = key z := le_antisymm hyz hzy
          have hheads := hsame (key z)
          simp only [List.filter_cons, hkey, decide_true, if_true, List.cons.injEq] at hheads
          obtain ⟨rfl, -⟩ := hheads
          refine congrArg (y :: ·) (ih hysTail hzsTail fun k => ?_)
          have hk := hsame k
          simp only [List.filter_cons] at hk
          split at hk
          · exact (List.cons.inj hk).2
          · exact hk

theorem mergeSort (key : α → κ) (xs : List α) :
    StableSorted key xs (xs.mergeSort fun a b => decide (key b ≤ key a)) := by
  have htrans (a b c : α) (hab : decide (key b ≤ key a) = true)
      (hbc : decide (key c ≤ key b) = true) : decide (key c ≤ key a) = true := by
    simp only [decide_eq_true_eq] at *
    exact hbc.trans hab
  have htotal (a b : α) : (decide (key b ≤ key a) || decide (key a ≤ key b)) = true := by
    simp only [Bool.or_eq_true, decide_eq_true_eq]
    exact le_total _ _
  have hperm := List.mergeSort_perm xs fun a b => decide (key b ≤ key a)
  refine ⟨(List.pairwise_mergeSort htrans htotal xs).imp fun h => of_decide_eq_true h,
    fun k => ?_⟩
  have hclass : (xs.filter fun a => key a = k).Pairwise fun a b =>
      decide (key b ≤ key a) = true := by
    refine List.pairwise_of_forall_mem_list fun a ha b hb => ?_
    have ha := (List.mem_filter.mp ha).2
    have hb := (List.mem_filter.mp hb).2
    simp only [decide_eq_true_eq] at ha hb ⊢
    rw [ha, hb]
  have hsub := (List.sublist_mergeSort htrans htotal hclass List.filter_sublist).filter
    fun a => decide (key a = k)
  rw [List.filter_filter] at hsub
  simp only [Bool.and_self] at hsub
  exact (hsub.eq_of_length (hperm.filter _).length_eq.symm).symm

theorem cons {before after : List α} {x : α} (hleads : Leads key before x after)
    (h : StableSorted key (before ++ after) ys) :
    StableSorted key (before ++ x :: after) (x :: ys) := by
  constructor
  · refine List.pairwise_cons.mpr ⟨fun y hy => ?_, h.descending⟩
    rcases List.mem_append.mp ((h.mem_iff y).mp hy) with hy | hy
    · exact (hleads.before y hy).le
    · exact hleads.after y hy
  · intro k
    have hrest := h.stable k
    rw [List.filter_append] at hrest
    rw [List.filter_append, List.filter_cons, List.filter_cons, hrest]
    by_cases hk : key x = k
    · -- Nothing before the leading element has its key.
      have hnone : before.filter (fun a => key a = k) = [] := by
        refine List.filter_eq_nil_iff.mpr fun y hy => ?_
        have hless := hleads.before y hy
        rw [hk] at hless
        simpa using hless.ne
      simp [hk, hnone]
    · simp [hk]

end StableSorted
end EdgeAllocator.Foundation
