import Mathlib.Data.List.Induction
import Mathlib.Data.List.Pairwise
import Mathlib.Order.Lattice

/-! Scans for the best key that start from an extreme value in the place of a
first element. Such a scan finds nothing where no key beats that value, and
otherwise the first of the best elements. -/
namespace EdgeAllocator.Foundation

variable {α β : Type} {better : β → β → Bool} {key : α → β} {initial : β} {xs : List α}

/-- The best element so far, if any key has beaten `initial`, and its key. -/
def scanFor (better : β → β → Bool) (key : α → β) (initial : β) (xs : List α) : Option α × β :=
  xs.foldl (fun best x => if better (key x) best.2 then (some x, key x) else best) (none, initial)

@[simp] theorem scanFor_nil : scanFor better key initial [] = (none, initial) := rfl

theorem scanFor_concat (x : α) :
    scanFor better key initial (xs ++ [x]) =
      if better (key x) (scanFor better key initial xs).2 then (some x, key x)
      else scanFor better key initial xs := by
  unfold scanFor
  rw [List.foldl_append]
  rfl

def bestKey (key : α → β) (initial : β) (best : Option α) : β := best.elim initial key

theorem scanFor_snd :
    (scanFor better key initial xs).2 =
      bestKey key initial (scanFor better key initial xs).1 := by
  induction xs using List.reverseRecOn with
  | nil => rfl
  | append_singleton xs x ih =>
      rw [scanFor_concat]
      split_ifs
      · rfl
      · exact ih

theorem scanFor_eq_none_iff :
    (scanFor better key initial xs).1 = none ↔ ∀ x ∈ xs, better (key x) initial = false := by
  induction xs using List.reverseRecOn with
  | nil => simp
  | append_singleton xs x ih =>
      rw [scanFor_concat]
      split_ifs with hbetter
      · apply iff_of_false
        · simp
        · intro hall
          have hnone := ih.mpr fun y hy => hall y (List.mem_append_left _ hy)
          rw [scanFor_snd, hnone, bestKey, Option.elim_none, hall x (by simp)] at hbetter
          contradiction
      · constructor
        · intro hnone y hy
          rw [scanFor_snd, hnone, bestKey, Option.elim_none] at hbetter
          rcases List.mem_append.mp hy with hy | hy
          · exact ih.mp hnone y hy
          · rw [List.mem_singleton.mp hy]
            simpa using hbetter
        · intro hall
          exact ih.mpr fun y hy => hall y (List.mem_append_left _ hy)

theorem scanFor_isSome_iff :
    (scanFor better key initial xs).1.isSome ↔ ∃ x ∈ xs, better (key x) initial = true := by
  rw [← not_iff_not, Option.not_isSome_iff_eq_none, scanFor_eq_none_iff]
  simp

theorem scanFor_mem {e : α} (h : (scanFor better key initial xs).1 = some e) : e ∈ xs := by
  induction xs using List.reverseRecOn with
  | nil => cases h
  | append_singleton xs x ih =>
      rw [scanFor_concat] at h
      split_ifs at h
      · cases h
        simp
      · exact List.mem_append_left _ (ih h)

/-- `better` is the strict part of a total preorder. -/
structure StrictWeak (better : β → β → Bool) : Prop where
  asymm : ∀ a b, better a b = true → better b a = false
  cotrans : ∀ a b c, better a c = true → better a b = true ∨ better b c = true

theorem strictWeak_lt [LinearOrder β] : StrictWeak fun a b : β => decide (a < b) where
  asymm a b h := decide_eq_false (of_decide_eq_true h).not_gt
  cotrans a b c h := by
    simp only [decide_eq_true_eq] at h ⊢
    exact (lt_or_ge a b).imp_right fun hba => lt_of_le_of_lt hba h

def FirstBest (better : β → β → Bool) (key : α → β) (xs : List α) (e : α) : Prop :=
  ∃ before after, xs = before ++ e :: after ∧
    (∀ x ∈ before, better (key e) (key x) = true) ∧
    ∀ x ∈ after, better (key x) (key e) = false

namespace FirstBest

variable {e : α}

theorem mem (h : FirstBest better key xs e) : e ∈ xs := by
  obtain ⟨before, after, hxs, -⟩ := h
  rw [hxs]
  exact List.mem_append_right _ List.mem_cons_self

theorem not_better (hweak : StrictWeak better) (h : FirstBest better key xs e) {x : α}
    (hx : x ∈ xs) : better (key x) (key e) = false := by
  obtain ⟨before, after, hxs, hbefore, hafter⟩ := h
  rw [hxs] at hx
  rcases List.mem_append.mp hx with hx | hx
  · exact hweak.asymm _ _ (hbefore x hx)
  · rcases List.mem_cons.mp hx with rfl | hx
    · apply Bool.eq_false_iff.mpr
      intro hself
      have hirrefl := hweak.asymm _ _ hself
      rw [hself] at hirrefl
      contradiction
    · exact hafter x hx

theorem concat_of_better (hweak : StrictWeak better) (h : FirstBest better key xs e) {x : α}
    (hbetter : better (key x) (key e) = true) : FirstBest better key (xs ++ [x]) x := by
  refine ⟨xs, [], rfl, fun y hy => ?_, by simp⟩
  rcases hweak.cotrans _ (key y) _ hbetter with hxy | hye
  · exact hxy
  · rw [h.not_better hweak hy] at hye
    contradiction

theorem concat_of_not_better (h : FirstBest better key xs e) {x : α}
    (hbetter : better (key x) (key e) = false) : FirstBest better key (xs ++ [x]) e := by
  obtain ⟨before, after, hxs, hbefore, hafter⟩ := h
  refine ⟨before, after ++ [x], by simp [hxs], hbefore, fun y hy => ?_⟩
  rcases List.mem_append.mp hy with hy | hy
  · exact hafter y hy
  · rw [List.mem_singleton.mp hy]
    exact hbetter

theorem least [LinearOrder α] (hweak : StrictWeak better) (hsorted : xs.Pairwise (· < ·))
    (h : FirstBest better key xs e) {x : α} (hx : x ∈ xs) :
    better (key e) (key x) = true ∨ better (key x) (key e) = false ∧ e ≤ x := by
  have hnot := h.not_better hweak hx
  obtain ⟨before, after, hxs, hbefore, -⟩ := h
  rw [hxs] at hx hsorted
  have hafter := List.pairwise_cons.mp (List.pairwise_append.mp hsorted).2.1
  rcases List.mem_append.mp hx with hx | hx
  · exact Or.inl (hbefore x hx)
  · refine Or.inr ⟨hnot, ?_⟩
    rcases List.mem_cons.mp hx with rfl | hx
    · exact le_rfl
    · exact le_of_lt (hafter.1 x hx)

end FirstBest

theorem firstBest_scanFor (hweak : StrictWeak better) {e : α}
    (h : (scanFor better key initial xs).1 = some e) : FirstBest better key xs e := by
  induction xs using List.reverseRecOn generalizing e with
  | nil => cases h
  | append_singleton xs x ih =>
      rw [scanFor_concat, scanFor_snd] at h
      cases hbest : (scanFor better key initial xs).1 with
      | none =>
          rw [hbest] at h
          split_ifs at h with hbetter
          · cases h
            refine ⟨xs, [], rfl, fun y hy => ?_, by simp⟩
            -- No earlier key has beaten the initial one, and this one has.
            rcases hweak.cotrans _ (key y) _ hbetter with hxy | hyinitial
            · exact hxy
            · rw [bestKey, Option.elim_none, scanFor_eq_none_iff.mp hbest y hy] at hyinitial
              contradiction
          · rw [hbest] at h
            cases h
      | some best =>
          rw [hbest] at h
          split_ifs at h with hbetter
          · cases h
            exact (ih hbest).concat_of_better hweak hbetter
          · rw [hbest] at h
            cases h
            exact (ih hbest).concat_of_not_better (Bool.eq_false_iff.mpr hbetter)

theorem scanFor_fst_congr {β' : Type} {better' : β' → β' → Bool} {key' : α → β'} {initial' : β'}
    (hinitial : ∀ x ∈ xs, better (key x) initial = better' (key' x) initial')
    (hkey : ∀ x ∈ xs, ∀ y ∈ xs, better (key x) (key y) = better' (key' x) (key' y)) :
    (scanFor better key initial xs).1 = (scanFor better' key' initial' xs).1 := by
  induction xs using List.reverseRecOn with
  | nil => rfl
  | append_singleton xs x ih =>
      have hsame := ih (fun y hy => hinitial y (List.mem_append_left _ hy))
        fun y hy z hz => hkey y (List.mem_append_left _ hy) z (List.mem_append_left _ hz)
      have hx : x ∈ xs ++ [x] := by simp
      have hcompare : better (key x) (scanFor better key initial xs).2 =
          better' (key' x) (scanFor better' key' initial' xs).2 := by
        rw [scanFor_snd, scanFor_snd, ← hsame]
        cases hbest : (scanFor better key initial xs).1 with
        | none => exact hinitial x hx
        | some best => exact hkey x hx best (List.mem_append_left _ (scanFor_mem hbest))
      rw [scanFor_concat, scanFor_concat, ← hcompare]
      split_ifs
      · rfl
      · exact hsame

/-- `better` is a strict order, and a total preorder on what beats `initial`. -/
structure StrictWeakOn (better : β → β → Bool) (initial : β) : Prop where
  irrefl : ∀ a, better a a = false
  trans : ∀ a b c, better a b = true → better b c = true → better a c = true
  cotrans : ∀ a b c, better b initial = true → better a c = true →
    better a b = true ∨ better b c = true

/-- `e` beats `initial` and all that comes before it, and nothing behind it beats `e`. What
does not beat `initial` itself plays no part. -/
def Foremost [LT α] (better : β → β → Bool) (key : α → β) (initial : β) (xs : List α) (e : α) :
    Prop :=
  e ∈ xs ∧ better (key e) initial = true ∧ ∀ x ∈ xs,
    (x < e → better (key x) initial = true → better (key e) (key x) = true) ∧
      (e < x → better (key x) (key e) = false)

theorem Foremost.unique [LinearOrder α] {e e' : α} (h : Foremost better key initial xs e)
    (h' : Foremost better key initial xs e') : e = e' := by
  obtain ⟨hmem, hinitial, hlead⟩ := h
  obtain ⟨hmem', hinitial', hlead'⟩ := h'
  rcases lt_trichotomy e e' with hlt | heq | hgt
  · have hbetter := (hlead' e hmem).1 hlt hinitial
    rw [(hlead e' hmem').2 hlt] at hbetter
    cases hbetter
  · exact heq
  · have hbetter := (hlead e' hmem').1 hgt hinitial'
    rw [(hlead' e hmem).2 hgt] at hbetter
    cases hbetter

theorem Foremost.not_beaten [LinearOrder α] (hweak : StrictWeakOn better initial) {e x : α}
    (h : Foremost better key initial xs e) (hx : x ∈ xs) (hinitial : better (key x) initial = true) :
    better (key x) (key e) = false := by
  rw [Bool.eq_false_iff]
  intro hbetter
  have hcycle (y : α) (h : better (key y) (key y) = true) : False := by
    rw [hweak.irrefl] at h
    cases h
  rcases lt_trichotomy x e with hlt | rfl | hgt
  · exact hcycle x (hweak.trans _ _ _ hbetter ((h.2.2 x hx).1 hlt hinitial))
  · exact hcycle x hbetter
  · rw [(h.2.2 x hx).2 hgt] at hbetter
    cases hbetter

theorem Foremost.first [LinearOrder α]
    (htotal : ∀ a b, better a initial = true → better b initial = true → better b a = false →
      better a b = true ∨ a = b)
    {e x : α} (h : Foremost better key initial xs e) (hx : x ∈ xs)
    (hinitial : better (key x) initial = true) :
    better (key e) (key x) = true ∨ key e = key x ∧ e ≤ x := by
  rcases lt_trichotomy x e with hlt | rfl | hgt
  · exact Or.inl ((h.2.2 x hx).1 hlt hinitial)
  · exact Or.inr ⟨rfl, le_rfl⟩
  · exact (htotal _ _ h.2.1 hinitial ((h.2.2 x hx).2 hgt)).imp_right fun heq => ⟨heq, hgt.le⟩

theorem foremost_of_scanFor [LinearOrder α] (hweak : StrictWeakOn better initial)
    (hsorted : xs.Pairwise (· < ·)) {e : α}
    (h : (scanFor better key initial xs).1 = some e) : Foremost better key initial xs e := by
  induction xs using List.reverseRecOn generalizing e with
  | nil => cases h
  | append_singleton xs x ih =>
      obtain ⟨hbefore, -, hlast⟩ := List.pairwise_append.mp hsorted
      have hgreatest (y : α) (hy : y ∈ xs) : y < x := hlast y hy x (List.mem_singleton_self x)
      rw [scanFor_concat, scanFor_snd] at h
      cases hbest : (scanFor better key initial xs).1 with
      | none =>
          rw [hbest] at h
          split_ifs at h with hbetter
          · cases h
            refine ⟨by simp, hbetter, fun y hy => ?_⟩
            rcases List.mem_append.mp hy with hold | hnew
            · refine ⟨fun _ hinitial => ?_, fun hlt => absurd hlt (hgreatest y hold).not_gt⟩
              rw [scanFor_eq_none_iff.mp hbest y hold] at hinitial
              cases hinitial
            · rw [List.mem_singleton.mp hnew]
              exact ⟨fun hlt => absurd hlt (lt_irrefl x), fun hlt => absurd hlt (lt_irrefl x)⟩
          · rw [hbest] at h
            cases h
      | some best =>
          have hforemost := ih hbefore hbest
          rw [hbest] at h
          rw [bestKey, Option.elim_some] at h
          split_ifs at h with hbetter
          · cases h
            refine ⟨by simp, hweak.trans _ _ _ hbetter hforemost.2.1, fun y hy => ?_⟩
            rcases List.mem_append.mp hy with hold | hnew
            · refine ⟨fun _ hinitial => ?_, fun hlt => absurd hlt (hgreatest y hold).not_gt⟩
              rcases hweak.cotrans _ (key y) _ hinitial hbetter with hbeats | hbeaten
              · exact hbeats
              · rw [hforemost.not_beaten hweak hold hinitial] at hbeaten
                cases hbeaten
            · rw [List.mem_singleton.mp hnew]
              exact ⟨fun hlt => absurd hlt (lt_irrefl x), fun hlt => absurd hlt (lt_irrefl x)⟩
          · rw [hbest] at h
            cases h
            refine ⟨List.mem_append_left _ hforemost.1, hforemost.2.1, fun y hy => ?_⟩
            rcases List.mem_append.mp hy with hold | hnew
            · exact hforemost.2.2 y hold
            · rw [List.mem_singleton.mp hnew]
              exact ⟨fun hlt => absurd hlt (hgreatest _ hforemost.1).not_gt,
                fun _ => Bool.eq_false_iff.mpr hbetter⟩

theorem scanFor_eq_some_iff [LinearOrder α] (hweak : StrictWeakOn better initial)
    (hsorted : xs.Pairwise (· < ·)) {e : α} :
    (scanFor better key initial xs).1 = some e ↔ Foremost better key initial xs e := by
  refine ⟨foremost_of_scanFor hweak hsorted, fun h => ?_⟩
  obtain ⟨found, hfound⟩ := Option.isSome_iff_exists.mp
    (scanFor_isSome_iff.mpr ⟨e, h.1, h.2.1⟩ : (scanFor better key initial xs).1.isSome)
  rw [hfound, (foremost_of_scanFor hweak hsorted hfound).unique h]

end EdgeAllocator.Foundation
