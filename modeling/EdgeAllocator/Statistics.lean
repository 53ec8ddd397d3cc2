import EdgeAllocator.Listing
import EdgeAllocator.Metrics

/-! What `getSystemMetrics` counts in the tables, beside the counters that the threads
keep in memory. -/
namespace EdgeAllocator.Referential

open Foundation Schema Recording Live Pipeline Executor Scheduler
open MetricsCollector (getAverageExecutionTimeMs)

structure SystemMetrics where
  totalTasks : Nat
  successfulAllocations : Nat
  failedAllocations : Nat
  avgExecutionMs : ℚ

/-- `AVG` of no rows is `NULL`, which is read as zero. -/
def average (values : List Int) : ℚ :=
  if values.isEmpty then 0 else (values.sum : ℚ) / values.length

def getSystemMetrics (s : Store) : SystemMetrics where
  totalTasks := s.tasks.length
  successfulAllocations := s.taskAllocations.countP fun row => row.success = 1
  failedAllocations := s.taskAllocations.countP fun row => row.success = 0
  avgExecutionMs := average (s.taskExecution.map TaskExecution.executionTimeMs)

/-- The two accounts differ by what the threads have in hand: the round of the loop, and
the rows that the workers are about to save. -/
structure Agrees (s : State) (m : SystemMetrics) : Prop where
  tasks : m.totalTasks = s.world.taskCounter
  rounds : m.successfulAllocations + m.failedAllocations + s.recording.atHand.toList.length =
    m.totalTasks
  successes : m.successfulAllocations + s.recording.unrecorded.length =
    s.world.allocator.successfulAllocations + s.recording.live.pipe.producer.uncounted
  executed : s.world.executor.totalTasksExecuted =
    (s.store.taskExecution.countP fun row => row.success = 1) +
      s.recording.live.pipe.unsaved.countP ExecutionRow.success
  failed : s.world.executor.totalTasksFailed =
    (s.store.taskExecution.countP fun row => row.success = 0) +
      s.recording.live.pipe.unsaved.countP (!·.success)
  unsaved : s.recording.live.pipe.unsaved.length ≤ s.world.fleet.ids.length
  timeMs : s.world.executor.totalExecutionTimeMs =
    m.avgExecutionMs * s.store.taskExecution.length +
      (s.recording.live.pipe.unsaved.map ExecutionRow.executionTimeMs).sum
  average : s.recording.live.pipe.unsaved = [] →
    m.avgExecutionMs = getAverageExecutionTimeMs s.world.executor

theorem countP_of_forall₂ {α β : Type*} {r : α → β → Prop} {p : α → Bool} {q : β → Bool}
    {as : List α} {bs : List β} (h : List.Forall₂ r as bs)
    (hcount : ∀ a b, r a b → p a = q b) : as.countP p = bs.countP q := by
  have hmap := congrArg (List.countP id) (map_eq_of_forall₂ h hcount)
  rwa [List.countP_map, List.countP_map] at hmap

theorem average_mul_length (values : List Int) : average values * values.length = values.sum := by
  cases values with
  | nil => simp [average]
  | cons first rest =>
      have hpositive : ((first :: rest).length : ℚ) ≠ 0 := by
        rw [Nat.cast_ne_zero]
        exact Nat.succ_ne_zero _
      rw [average, if_neg (by simp)]
      exact div_mul_cancel₀ _ hpositive

theorem length_reservations {rows : List AllocationRow}
    (h : ∀ row ∈ rows, row.success = row.edgeId.isSome) :
    (reservations rows).length = rows.countP AllocationRow.success := by
  induction rows with
  | nil => rfl
  | cons row rest ih =>
      obtain ⟨hhead, hrest⟩ := List.forall_mem_cons.mp h
      have hlength := ih hrest
      unfold reservations at hlength ⊢
      rw [List.filterMap_cons, List.countP_cons, hhead]
      cases row.edgeId <;> simp [hlength]

namespace Told

variable {s : State} (h : Told s)
include h

theorem successes_eq : (s.store.taskAllocations.countP fun row => row.success = 1) =
    (reservations s.recording.allocations).length := by
  rw [length_reservations h.rounded.edges]
  refine (countP_of_forall₂ h.mirrored.taskAllocations fun entry row hrow => ?_).symm
  rw [hrow]
  cases entry.success <;> rfl

theorem failures_eq : (s.store.taskAllocations.countP fun row => row.success = 0) =
    s.recording.allocations.countP (!·.success) := by
  refine (countP_of_forall₂ h.mirrored.taskAllocations fun entry row hrow => ?_).symm
  rw [hrow]
  cases entry.success <;> rfl

theorem executed_eq (success : Bool) :
    (s.store.taskExecution.countP fun row => row.success = if success then 1 else 0) =
      s.world.database.executions.countP (·.success == success) := by
  refine (countP_of_forall₂ h.mirrored.taskExecution fun entry row hrow => ?_).symm
  rw [hrow]
  cases entry.success <;> cases success <;> rfl

theorem times_eq : s.store.taskExecution.map TaskExecution.executionTimeMs =
    s.world.database.executions.map ExecutionRow.executionTimeMs := by
  refine (map_eq_of_forall₂ h.mirrored.taskExecution fun entry row hrow => ?_).symm
  rw [hrow]

theorem rounds_eq : s.recording.allocations.length + s.recording.atHand.toList.length =
    s.world.taskCounter := by
  have hlength := congrArg List.length h.rounded.rows
  rw [List.length_map, List.length_range] at hlength
  rw [hlength]
  cases hatHand : s.recording.atHand with
  | none => exact bound_of_none hatHand
  | some t =>
      rw [bound_of_atHand hatHand]
      exact h.rounded.counted t hatHand

theorem completed_eq :
    s.world.executor.totalTasksExecuted + s.world.executor.totalTasksFailed =
      s.store.taskExecution.length + s.recording.live.pipe.unsaved.length := by
  have hcounts : Counts s.world.executor s.recording.live.pipe.tallied := h.chronicled.counts
  have hlength := List.length_eq_countP_add_countP (l := s.recording.live.pipe.tallied)
    ExecutionRow.success
  simp only [Bool.not_eq_true, Bool.decide_eq_false] at hlength
  rw [hcounts.executed, hcounts.failed, ← hlength, State.tallied, List.length_append,
    ← h.mirrored.taskExecution.length_eq]
  rfl

theorem timeMs_eq : s.world.executor.totalExecutionTimeMs =
    (getSystemMetrics s.store).avgExecutionMs * s.store.taskExecution.length +
      (s.recording.live.pipe.unsaved.map ExecutionRow.executionTimeMs).sum := by
  have haverage := average_mul_length (s.store.taskExecution.map TaskExecution.executionTimeMs)
  have htime := h.chronicled.counts.timeMs
  rw [State.tallied, List.map_append, List.sum_append] at htime
  rw [List.length_map, h.times_eq] at haverage
  show _ = average _ * _ + _
  rw [h.times_eq, haverage]
  exact_mod_cast htime

theorem average_eq (hunsaved : s.recording.live.pipe.unsaved = []) :
    (getSystemMetrics s.store).avgExecutionMs = getAverageExecutionTimeMs s.world.executor := by
  have htime := h.timeMs_eq
  have hcompleted := h.completed_eq
  rw [hunsaved, List.map_nil, List.sum_nil, Int.cast_zero, add_zero] at htime
  rw [hunsaved, List.length_nil, Nat.add_zero] at hcompleted
  unfold getAverageExecutionTimeMs
  dsimp only
  rw [hcompleted, htime]
  split_ifs with hnone
  · show average (s.store.taskExecution.map TaskExecution.executionTimeMs) = 0
    rw [List.length_eq_zero_iff.mp hnone]
    rfl
  · exact (mul_div_cancel_right₀ _ (Nat.cast_ne_zero.mpr hnone)).symm

end Told

/-- In every reachable state the statistics of the tables and those of the counters are
the same, but for what a thread has in hand. -/
theorem getSystemMetrics_agrees {s : State} (hs : machine.Reachable Machine.free s) :
    Agrees s (getSystemMetrics s.store) := by
  have htold := told_of_reachable hs
  have htally := (tally_of_reachable (pipe_reachable (live_reachable hs))).2.2
  have hcounts := htold.chronicled.counts
  have hnot := List.length_eq_countP_add_countP (l := s.recording.allocations) AllocationRow.success
  simp only [Bool.not_eq_true, Bool.decide_eq_false] at hnot
  have htasks : s.store.tasks.length = s.world.taskCounter := by
    rw [← htold.mirrored.tasks.length_eq, List.length_range]
    rfl
  refine ⟨htasks, ?_, ?_, ?_, ?_, List.length_filterMap_le _ _, htold.timeMs_eq, htold.average_eq⟩
  · show (s.store.taskAllocations.countP _) + (s.store.taskAllocations.countP _) + _ =
      s.store.tasks.length
    rw [htasks, htold.successes_eq, length_reservations htold.rounded.edges, htold.failures_eq,
      ← hnot, htold.rounds_eq]
  · show (s.store.taskAllocations.countP _) + _ = _
    rw [htold.successes_eq, ← List.length_append, ← htold.rounded.granted]
    exact htally.successes.symm
  · have hexecuted := hcounts.executed
    have htrue := htold.executed_eq true
    rw [State.tallied, List.countP_append] at hexecuted
    simp only [if_true, beq_true] at htrue
    rw [htrue]
    exact hexecuted
  · have hfailed := hcounts.failed
    have hfalse := htold.executed_eq false
    rw [State.tallied, List.countP_append] at hfailed
    simp only [Bool.false_eq_true, if_false, beq_false] at hfalse
    rw [hfalse]
    exact hfailed

theorem getSystemMetrics_agrees_round :
    let s := machine.final smallStart oneRound
    Agrees s (getSystemMetrics s.store) :=
  getSystemMetrics_agrees (Machine.reachable_final smallStart_initial (by decide +kernel))

end EdgeAllocator.Referential
