import EdgeAllocator.History
import EdgeAllocator.Listing

/-! The lifecycle view while the system runs: how long it shows the round of a task. -/
namespace EdgeAllocator.Referential

open Foundation Schema Scheduler Executor Allocator Allocation Live Recording Pipeline
open Identifiers (generateTaskId_injective)
open History (historyLimit taskLifecycle getTask getTaskAllocationHistory latest entry toJson)

def Journal.latest (j : Journal) : List AllocationRow :=
  j.allocations.reverse.take historyLimit

/-- What the view shows of a task: its row, and the row of its round as long as the
round is over and no more than a limit of rounds have followed. -/
structure Views (s : State) (t : TaskRef) (view : History.Lifecycle) : Prop where
  found : view.found = true ↔ t < s.world.taskCounter
  task : t < s.world.taskCounter → ∃ row,
    Describes s.devices s.world.workload s.world.database t row ∧ view.task = some (toJson row)
  shown : t < s.recording.bound → s.recording.bound ≤ t + historyLimit →
    ∃ allocation ∈ s.recording.allocations, allocation.task = t ∧
      ∃ row, Allocates allocation row ∧ view.allocations = some [entry row]
  pending : t < s.world.taskCounter → s.recording.bound ≤ t → view.allocations = some []
  expired : t + historyLimit < s.recording.bound → view.allocations = some []

theorem mem_take_reverse_range {n limit t : Nat} :
    t ∈ (List.range n).reverse.take limit ↔ t < n ∧ n ≤ t + limit := by
  induction n generalizing limit with
  | zero => simp
  | succ n ih =>
      rw [List.range_succ, List.reverse_append, List.reverse_singleton, List.singleton_append]
      cases limit with
      | zero =>
          rw [List.take_zero]
          refine iff_of_false List.not_mem_nil ?_
          omega
      | succ limit =>
          rw [List.take_succ_cons, List.mem_cons, ih]
          omega

namespace Told

variable {s : State} (h : Told s)
include h

theorem getTask_eq {t : TaskRef} (ht : t < s.world.taskCounter) : ∃ row,
    Describes s.devices s.world.workload s.world.database t row ∧
      getTask s.store (generateTaskId t) = some (toJson row) := by
  have hrows : List.Forall₂ (Describes s.devices s.world.workload s.world.database)
      ((List.range s.world.taskCounter).filter fun other => other = t)
      (s.store.tasks.filter fun row => row.taskId = generateTaskId t) := by
    refine List.rel_filter (fun {other row} hrow => ?_) h.mirrored.tasks
    simp only [decide_eq_true_iff, hrow.taskId, generateTaskId_injective.eq_iff]
  have hnodup : ((List.range s.world.taskCounter).map id).Nodup := by
    rw [List.map_id]
    exact List.nodup_range
  have hfilter := filter_key_of_mem hnodup (List.mem_range.mpr ht)
  obtain ⟨row, hrow, hrest⟩ := forall₂_singleton (hfilter ▸ hrows)
  refine ⟨row, hrow, ?_⟩
  rw [getTask, ← List.head?_filter, hrest]
  rfl

theorem getTask_none {t : TaskRef} (ht : s.world.taskCounter ≤ t) :
    getTask s.store (generateTaskId t) = none := by
  rw [← Option.not_isSome_iff_eq_none, History.getTask_isSome_iff, ids_of_describes h.mirrored.tasks,
    List.mem_map]
  rintro ⟨other, hother, heq⟩
  rw [generateTaskId_injective heq] at hother
  exact absurd (List.mem_range.mp hother) ht.not_gt

theorem latest_tasks : s.journal.latest.map AllocationRow.task =
    (List.range s.recording.bound).reverse.take historyLimit := by
  rw [Journal.latest, List.map_take, List.map_reverse, ← h.rounded.rows]
  rfl

/-- Of a task the query gets the rows that are among the latest of the journal. -/
theorem latestRows (t : TaskRef) : List.Forall₂ Allocates
    (s.journal.latest.filter fun allocation => allocation.task = t)
    ((latest s.store.taskAllocations).filter fun row => row.taskId = generateTaskId t) := by
  refine List.rel_filter (fun {allocation row} hrow => ?_) ?_
  · rw [hrow]
    simp only [decide_eq_true_iff, generateTaskId_injective.eq_iff]
  · exact List.forall₂_take _ (List.forall₂_reverse_iff.mpr h.mirrored.taskAllocations)

theorem latest_nodup : (s.journal.latest.map AllocationRow.task).Nodup := by
  rw [h.latest_tasks]
  exact (List.nodup_reverse.mpr List.nodup_range).sublist (List.take_sublist _ _)

theorem latestRows_of_mem {t : TaskRef} (hbound : t < s.recording.bound)
    (hlimit : s.recording.bound ≤ t + historyLimit) :
    ∃ allocation ∈ s.recording.allocations, allocation.task = t ∧ ∃ row, Allocates allocation row ∧
      (latest s.store.taskAllocations).filter (fun row => row.taskId = generateTaskId t) = [row] := by
  have hmem : t ∈ s.journal.latest.map AllocationRow.task :=
    h.latest_tasks ▸ mem_take_reverse_range.mpr ⟨hbound, hlimit⟩
  obtain ⟨allocation, hallocation, rfl⟩ := List.mem_map.mp hmem
  have hrows := h.latestRows allocation.task
  rw [filter_key_of_mem h.latest_nodup hallocation] at hrows
  obtain ⟨row, hrow, hrest⟩ := forall₂_singleton hrows
  exact ⟨allocation, List.mem_reverse.mp (List.mem_of_mem_take hallocation), rfl, row, hrow, hrest⟩

theorem latestRows_of_not_mem {t : TaskRef}
    (hnone : s.recording.bound ≤ t ∨ t + historyLimit < s.recording.bound) :
    (latest s.store.taskAllocations).filter (fun row => row.taskId = generateTaskId t) = [] := by
  have hmem : t ∉ s.journal.latest.map AllocationRow.task := by
    rw [h.latest_tasks, mem_take_reverse_range]
    rintro ⟨hlt, hle⟩
    obtain hpending | hexpired := hnone
    · exact hlt.not_ge hpending
    · exact hle.not_gt hexpired
  have hrows := h.latestRows t
  rw [filter_key_of_not_mem hmem] at hrows
  exact List.forall₂_nil_left_iff.mp hrows

theorem bound_le : s.recording.bound ≤ s.world.taskCounter := by
  cases hatHand : s.recording.atHand with
  | none => exact (bound_of_none hatHand).le
  | some t =>
      rw [bound_of_atHand hatHand]
      exact Nat.le_of_succ_le (h.rounded.counted t hatHand).le

end Told

/-- In every reachable state, for every task id that the loop has given out or will give
out, and whatever tasks are active. -/
theorem taskLifecycle_views {s : State} (hs : machine.Reachable Machine.free s)
    (active : List History.ActiveJson) (t : TaskRef) :
    Views s t (taskLifecycle s.store active (generateTaskId t)) := by
  have htold := told_of_reachable hs
  by_cases ht : t < s.world.taskCounter
  · obtain ⟨row, hrow, htask⟩ := htold.getTask_eq ht
    have hview : taskLifecycle s.store active (generateTaskId t) =
        { found := true
          task := some (toJson row)
          allocations := some (((latest s.store.taskAllocations).filter
            fun row => row.taskId = generateTaskId t).map entry)
          active := (active.filter fun item => item.taskId = generateTaskId t).getLast? } := by
      rw [taskLifecycle, htask, getTaskAllocationHistory, List.filter_map]
      rfl
    rw [hview]
    refine ⟨iff_of_true rfl ht, fun _ => ⟨row, hrow, rfl⟩, fun hbound hlimit => ?_,
      fun _ hpending => ?_, fun hexpired => ?_⟩
    · obtain ⟨allocation, hallocation, htaskRef, row', hrow', hrest⟩ :=
        htold.latestRows_of_mem hbound hlimit
      exact ⟨allocation, hallocation, htaskRef, row', hrow', by rw [hrest]; rfl⟩
    · rw [htold.latestRows_of_not_mem (Or.inl hpending)]
      rfl
    · rw [htold.latestRows_of_not_mem (Or.inr hexpired)]
      rfl
  · have hview : taskLifecycle s.store active (generateTaskId t) = { found := false } := by
      rw [taskLifecycle, htold.getTask_none (Nat.le_of_not_lt ht)]
    have hbound := htold.bound_le
    rw [hview]
    refine ⟨iff_of_false Bool.false_ne_true ht, fun hlt => absurd hlt ht, fun hlt _ => ?_,
      fun hlt => absurd hlt ht, fun hlt => ?_⟩
    · exact absurd (hlt.trans_le hbound) ht
    · exact absurd ((Nat.le_add_right t _).trans_lt (hlt.trans_le hbound)) ht

theorem taskLifecycle_views_round :
    let s := machine.final smallStart oneRound
    Views s 0 (taskLifecycle s.store [] (generateTaskId 0)) :=
  taskLifecycle_views (Machine.reachable_final smallStart_initial (by decide +kernel)) [] 0

end EdgeAllocator.Referential
