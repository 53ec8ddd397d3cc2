import EdgeAllocator.Deadline

/-! The verdict of `simulateTaskExecution` on the deadline against the times it
records: it counts whole milliseconds, up to a reading of its own. -/
namespace EdgeAllocator.Verdict

open Executor Deadline

structure Readings where
  /-- In `isDeadlineExceeded`. -/
  verdict : Int
  /-- The argument of `setCompletionTime`. -/
  completion : Int

/-- What the statements of `simulateTaskExecution` read, in their order. -/
def inputs (estimatedMs : Int) (readings : Readings) : List WorkerInput :=
  [{}, {}, {}, { estimatedMs := estimatedMs }, { now := readings.verdict },
    { now := readings.completion }, {}, {}, {}, {}, {}]

def execute (e : EdgeId) (t : TaskRef) (estimatedMs : Int) (readings : Readings) (w : World) :
    World × ExecStage :=
  (inputs estimatedMs readings).foldl
    (fun (w, stage) input => execStep e input w t stage) (w, .begin)

def simulateTaskExecution (e : EdgeId) (t : TaskRef) (estimatedMs : Int) (readings : Readings)
    (w : World) : World :=
  (execute e t estimatedMs readings w).1

/-- What `met_deadline` is set to. -/
def metDeadline (w : World) (t : TaskRef) (readings : Readings) : Bool :=
  !(w.task t).isDeadlineExceeded (w.workload t) readings.verdict

/-- The task has the status of this verdict and is counted under it. -/
structure EndsAs (met : Bool) (t : TaskRef) (w w' : World) : Prop where
  status : (w'.task t).status = if met then .completed else .failed
  executed : w'.executor.totalTasksExecuted =
    w.executor.totalTasksExecuted + if met then 1 else 0
  failed : w'.executor.totalTasksFailed = w.executor.totalTasksFailed + if met then 0 else 1

def recordedTime (w : World) (t : TaskRef) : Int :=
  (w.task t).completionTime - (w.task t).creationTime

section Call

variable {e : EdgeId} {t : TaskRef} {estimatedMs : Int} {readings : Readings} {w : World}

theorem execute_conclude :
    ((inputs estimatedMs readings).take 5).foldl
        (fun (w, stage) input => execStep e input w t stage) (w, .begin) =
      (((w.modifyTask t (Task.setStatus .running)).modifyDatabase
          (Database.updateTaskStatus t .running)).modifyExecutor (fun executor =>
            { executor with activeTasks := executor.activeTasks.insert t }),
        .conclude ⟨estimatedMs, metDeadline w t readings⟩) := by
  unfold metDeadline Task.isDeadlineExceeded Task.getElapsedTimeMs
  simp only [inputs, List.take, List.foldl, execStep, World.modifyExecutor_task,
    World.modifyDatabase_task, World.modifyTask_self]
  rfl

theorem execute_eq :
    execute e t estimatedMs readings w =
      ((inputs estimatedMs readings).drop 5).foldl
        (fun (w, stage) input => execStep e input w t stage)
        (((inputs estimatedMs readings).take 5).foldl
          (fun (w, stage) input => execStep e input w t stage) (w, .begin)) := by
  rw [← List.foldl_append, List.take_append_drop]
  rfl

theorem simulateTaskExecution_task :
    (simulateTaskExecution e t estimatedMs readings w).task t =
      { w.task t with
        status := if metDeadline w t readings then .completed else .failed
        completionTime := readings.completion } := by
  rw [simulateTaskExecution, execute_eq, execute_conclude]
  simp only [inputs, List.drop, List.foldl, execStep, World.modifyDatabase_task,
    World.modifyExecutor_task, World.modifyNode_task, World.modifyTask_self]
  rfl

theorem simulateTaskExecution_executor :
    (simulateTaskExecution e t estimatedMs readings w).executor =
      countExecution ⟨estimatedMs, metDeadline w t readings⟩
        { w.executor with
          activeTasks := (w.executor.activeTasks.insert t).filter (· ≠ t) } := by
  rw [simulateTaskExecution, execute_eq, execute_conclude]
  rfl

theorem endsAs_metDeadline :
    EndsAs (metDeadline w t readings) t w (simulateTaskExecution e t estimatedMs readings w) where
  status := by rw [simulateTaskExecution_task]
  executed := by
    rw [simulateTaskExecution_executor]
    rfl
  failed := by
    rw [simulateTaskExecution_executor]
    rfl

theorem endsAs_iff {met : Bool} :
    EndsAs met t w (simulateTaskExecution e t estimatedMs readings w) ↔
      met = metDeadline w t readings := by
  constructor
  · intro h
    have hstatus := h.status.symm.trans endsAs_metDeadline.status
    cases met <;> cases hmet : metDeadline w t readings <;> simp [hmet] at hstatus ⊢
  · intro h
    rw [h]
    exact endsAs_metDeadline

theorem recordedTime_eq :
    recordedTime (simulateTaskExecution e t estimatedMs readings w) t =
      readings.completion - (w.task t).creationTime := by
  rw [recordedTime, simulateTaskExecution_task]

end Call

theorem lt_of_lt_getElapsedTimeMs {task : Task} {now deadlineMs : Int}
    (h : deadlineMs < task.getElapsedTimeMs now) :
    deadlineMs * millisecond < now - task.creationTime := by
  unfold Task.getElapsedTimeMs at h
  unfold millisecond
  have hsplit := Int.tmod_add_mul_tdiv (now - task.creationTime) 1000000
  have hrest := Int.lt_tmod_of_pos (now - task.creationTime) (b := 1000000) (by decide)
  omega

theorem lt_of_getElapsedTimeMs_le {task : Task} {now deadlineMs : Int}
    (h : task.getElapsedTimeMs now ≤ deadlineMs) :
    now - task.creationTime < deadlineMs * millisecond + millisecond := by
  unfold Task.getElapsedTimeMs at h
  unfold millisecond
  have hsplit := Int.tmod_add_mul_tdiv (now - task.creationTime) 1000000
  have hrest := Int.tmod_lt_of_pos (now - task.creationTime) (b := 1000000) (by decide)
  omega

/-- The task completes if and only if the whole milliseconds up to the reading
of the verdict keep the deadline. A failed task has recorded more than the
deadline; a completed one can have recorded up to a millisecond and the time
between the two readings more. -/
theorem verdict_of_elapsed (e : EdgeId) (t : TaskRef) (estimatedMs : Int) (readings : Readings)
    (w : World) (h : readings.verdict ≤ readings.completion) :
    let w' := simulateTaskExecution e t estimatedMs readings w
    (EndsAs true t w w' ↔
        (w.task t).getElapsedTimeMs readings.verdict ≤ (w.workload t).deadlineMs) ∧
      (EndsAs false t w w' ↔
        (w.workload t).deadlineMs < (w.task t).getElapsedTimeMs readings.verdict) ∧
      (EndsAs false t w w' → (w.workload t).deadlineMs * millisecond < recordedTime w' t) ∧
      (EndsAs true t w w' → recordedTime w' t <
        (w.workload t).deadlineMs * millisecond + millisecond +
          (readings.completion - readings.verdict)) := by
  intro w'
  have hkept : EndsAs true t w w' ↔
      (w.task t).getElapsedTimeMs readings.verdict ≤ (w.workload t).deadlineMs := by
    rw [endsAs_iff]
    simp [metDeadline, Task.isDeadlineExceeded]
  have hmissed : EndsAs false t w w' ↔
      (w.workload t).deadlineMs < (w.task t).getElapsedTimeMs readings.verdict := by
    rw [endsAs_iff]
    simp [metDeadline, Task.isDeadlineExceeded]
  have hrecorded : recordedTime w' t = readings.completion - (w.task t).creationTime :=
    recordedTime_eq
  rw [hkept, hmissed, hrecorded]
  refine ⟨Iff.rfl, Iff.rfl, ?_, ?_⟩
  · intro hlate
    have hlonger := lt_of_lt_getElapsedTimeMs hlate
    omega
  · intro hintime
    have hshorter := lt_of_getElapsedTimeMs_le hintime
    omega

def ultrasonicTask : World :=
  World.boot singleNode (fun _ => nodeCapacity) (fun _ => TaskProfile.ultrasonic) .leastLoad .fifo

def halfLate : Readings := ⟨100500000, 100500000⟩

theorem verdict_of_elapsed_halfLate :
    let w' := simulateTaskExecution "E01" 0 13 halfLate ultrasonicTask
    (EndsAs true 0 ultrasonicTask w' ↔ (ultrasonicTask.task 0).getElapsedTimeMs 100500000 ≤ 100) ∧
      (EndsAs false 0 ultrasonicTask w' ↔
        100 < (ultrasonicTask.task 0).getElapsedTimeMs 100500000) ∧
      (EndsAs false 0 ultrasonicTask w' → 100 * millisecond < recordedTime w' 0) ∧
      (EndsAs true 0 ultrasonicTask w' →
        recordedTime w' 0 < 100 * millisecond + millisecond + (100500000 - 100500000)) :=
  verdict_of_elapsed "E01" 0 13 halfLate ultrasonicTask (by decide)

/-- The half millisecond that is recorded beyond the deadline does not count. -/
theorem completed_after_deadline :
    (ultrasonicTask.task 0).creationTime ≤ halfLate.verdict ∧
      halfLate.verdict ≤ halfLate.completion ∧
      ¬ (EndsAs true 0 ultrasonicTask (simulateTaskExecution "E01" 0 13 halfLate ultrasonicTask) ↔
        recordedTime (simulateTaskExecution "E01" 0 13 halfLate ultrasonicTask) 0 ≤
          (ultrasonicTask.workload 0).deadlineMs * millisecond) := by
  refine ⟨by decide, by decide, ?_⟩
  rw [endsAs_iff, recordedTime_eq]
  decide

end EdgeAllocator.Verdict
