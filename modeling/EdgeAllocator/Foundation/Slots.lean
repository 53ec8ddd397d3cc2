import Mathlib.Algebra.BigOperators.Ring.List
import Mathlib.Algebra.Order.BigOperators.Group.List
import Mathlib.Algebra.Order.Field.Basic
import Mathlib.Data.List.Nodup
import Mathlib.Data.List.Perm.Basic
import Mathlib.Logic.Function.Basic

/-! What a family of parties holds, one slot each, when one of them changes its slot. -/
namespace EdgeAllocator.Foundation

variable {ι σ α : Type*}

def contents (content : σ → Option α) (ids : List ι) (slot : ι → σ) : List α :=
  ids.filterMap fun i => content (slot i)

theorem mem_contents {content : σ → Option α} {ids : List ι} {slot : ι → σ} {a : α} :
    a ∈ contents content ids slot ↔ ∃ i ∈ ids, content (slot i) = some a := by
  rw [contents, List.mem_filterMap]

theorem contents_congr {content : σ → Option α} {ids : List ι} {slot slot' : ι → σ}
    (h : ∀ i ∈ ids, content (slot' i) = content (slot i)) :
    contents content ids slot' = contents content ids slot := by
  unfold contents
  exact List.filterMap_congr h

theorem contents_eq_nil {content : σ → Option α} {ids : List ι} {slot : ι → σ}
    (h : ∀ i ∈ ids, content (slot i) = none) : contents content ids slot = [] :=
  List.filterMap_eq_nil_iff.mpr h

variable [DecidableEq ι]

theorem contents_update_of_eq {content : σ → Option α} {ids : List ι} {slot : ι → σ} {i : ι}
    {next : σ} (h : content next = content (slot i)) :
    contents content ids (Function.update slot i next) = contents content ids slot := by
  apply contents_congr
  intro j _
  by_cases hj : j = i
  · rw [hj, Function.update_self, h]
  · rw [Function.update_of_ne hj]

theorem contents_update {content : σ → Option α} {ids : List ι} (hnodup : ids.Nodup)
    {slot : ι → σ} {i : ι} (hi : i ∈ ids) (next : σ) :
    (contents content ids (Function.update slot i next)).Perm
      ((content next).toList ++ contents content (ids.erase i) slot) := by
  have hothers : contents content (ids.erase i) (Function.update slot i next) =
      contents content (ids.erase i) slot := by
    apply contents_congr
    intro j hj
    rw [Function.update_of_ne (hnodup.mem_erase_iff.mp hj).1]
  refine ((List.perm_cons_erase hi).filterMap _).trans (.of_eq ?_)
  rw [List.filterMap_cons, Function.update_self]
  unfold contents at hothers ⊢
  rw [hothers]
  cases content next <;> rfl

theorem contents_split {content : σ → Option α} {ids : List ι} (hnodup : ids.Nodup)
    {slot : ι → σ} {i : ι} (hi : i ∈ ids) :
    (contents content ids slot).Perm
      ((content (slot i)).toList ++ contents content (ids.erase i) slot) := by
  have hsplit : (contents content ids (Function.update slot i (slot i))).Perm _ :=
    contents_update hnodup hi (slot i)
  rwa [Function.update_eq_self] at hsplit

/-- What the party gives up is exchanged for what it takes up. -/
theorem contents_update_perm {content : σ → Option α} {ids : List ι} (hnodup : ids.Nodup)
    {slot : ι → σ} {i : ι} (hi : i ∈ ids) (next : σ) :
    ((content (slot i)).toList ++ contents content ids (Function.update slot i next)).Perm
      ((content next).toList ++ contents content ids slot) := by
  refine ((contents_update hnodup hi next).append_left _).trans ?_
  refine .trans ?_ ((contents_split hnodup hi).symm.append_left _)
  rw [← List.append_assoc, ← List.append_assoc]
  exact List.perm_append_comm.append_right _

end EdgeAllocator.Foundation
