import EdgeAllocator.Tables
import EdgeAllocator.Foundation.Slots

/-! The rows of `task_execution` beside the counters of the executor, which are ahead
of the table by the rows that the workers have yet to save. -/
namespace EdgeAllocator.Pipeline

open Foundation Scheduler Executor Allocator Allocation
open Simulator (saves saves_eq executions_move executionReturned_move not_executionReturned
  returned_of_saves executionReturned_lt)

/-- The executions that are counted and not saved yet. -/
def State.unsaved (s : State) : List ExecutionRow := contents saves s.world.fleet.ids s.workers

def State.tallied (s : State) : List ExecutionRow := s.world.database.executions ++ s.unsaved

structure Counts (executor : TaskExecutor) (rows : List ExecutionRow) : Prop where
  executed : executor.totalTasksExecuted = rows.countP (·.success)
  failed : executor.totalTasksFailed = rows.countP (!·.success)
  timeMs : executor.totalExecutionTimeMs = (rows.map ExecutionRow.executionTimeMs).sum

theorem Counts.perm {executor : TaskExecutor} {rows rows' : List ExecutionRow}
    (h : Counts executor rows) (hperm : rows'.Perm rows) : Counts executor rows' where
  executed := h.executed.trans (hperm.countP_eq _).symm
  failed := h.failed.trans (hperm.countP_eq _).symm
  timeMs := h.timeMs.trans (hperm.map _).sum_eq.symm

theorem Counts.of_same {executor executor' : TaskExecutor} {rows : List ExecutionRow}
    (h : Counts executor rows) (hexecuted : executor'.totalTasksExecuted = executor.totalTasksExecuted)
    (hfailed : executor'.totalTasksFailed = executor.totalTasksFailed)
    (htime : executor'.totalExecutionTimeMs = executor.totalExecutionTimeMs) :
    Counts executor' rows :=
  ⟨hexecuted.trans h.executed, hfailed.trans h.failed, htime.trans h.timeMs⟩

theorem Counts.count {executor : TaskExecutor} {rows : List ExecutionRow} (h : Counts executor rows)
    (t : TaskRef) (verdict : Verdict) : Counts (countExecution verdict executor)
      (⟨t, verdict.estimatedMs, verdict.metDeadline⟩ :: rows) := by
  obtain ⟨hexecuted, hfailed, htime⟩ := h
  cases hmet : verdict.metDeadline
  all_goals
    constructor
    · simp [countExecution, hmet, hexecuted]
    · simp [countExecution, hmet, hfailed]
    · simp [countExecution, htime, add_comm]

theorem saves_executing (t : TaskRef) (verdict : Verdict) :
    saves (.executing t (.persistExecution verdict)) =
      some ⟨t, verdict.estimatedMs, verdict.metDeadline⟩ := rfl

theorem finishes_eq {t : TaskRef} {pc : WorkerPc} (h : t ∈ pc.finishes) :
    pc = .executing t .returned := by
  unfold WorkerPc.finishes at h
  split at h
  · rw [List.mem_singleton.mp h]
  · cases h

theorem saves_of_returned {e : EdgeId} {input : WorkerInput} {w w' : World} {pc pc' : WorkerPc}
    {t : TaskRef} (h : workerStep e input w pc = some (w', pc'))
    (hreturned : pc' = .executing t .returned) : ∃ row, saves pc = some row ∧ row.task = t := by
  cases workerStep_move h with
  | @exec u stage hstage =>
      cases stage with
      | persistExecution verdict =>
          cases hreturned
          exact ⟨_, rfl, rfl⟩
      | returned => exact absurd rfl hstage
      | _ => cases hreturned
  | _ => cases hreturned

theorem executionReturned_back {s s' : State} {label : Label} {t : TaskRef} (hmove : Move s label s')
    (h : ExecutionReturned s' t) : ExecutionReturned s t ∨
      ∃ e input row, label = .work e input ∧ saves (s.workers e) = some row ∧ row.task = t := by
  obtain ⟨e, h⟩ := h
  cases hmove with
  | @work e' input w pc' hstep =>
      obtain hreturned | hfinished := h
      · change Function.update s.workers e' pc' e = _ at hreturned
        by_cases he : e = e'
        · rw [he, Function.update_self] at hreturned
          obtain ⟨row, hrow, htask⟩ := saves_of_returned hstep hreturned
          exact Or.inr ⟨e', input, row, rfl, hrow, htask⟩
        · rw [Function.update_of_ne he] at hreturned
          exact Or.inl ⟨e, Or.inl hreturned⟩
      · obtain hold | hnew := List.mem_append.mp hfinished
        · exact Or.inl ⟨e, Or.inr hold⟩
        · obtain ⟨u, hu, heq⟩ := List.mem_map.mp hnew
          cases heq
          exact Or.inl ⟨e, Or.inl (finishes_eq hu)⟩
  | @spawn e' todo _ _ =>
      obtain hreturned | hfinished := h
      · change Function.update s.workers e' .loopHead e = _ at hreturned
        by_cases he : e = e'
        · rw [he, Function.update_self] at hreturned
          cases hreturned
        · rw [Function.update_of_ne he] at hreturned
          exact Or.inl ⟨e, Or.inl hreturned⟩
      · exact Or.inl ⟨e, Or.inr hfinished⟩
  | joined _ =>
      obtain hreturned | hfinished := h
      · cases hreturned
      · exact Or.inl ⟨e, Or.inr hfinished⟩
  | _ => exact Or.inl ⟨e, h⟩

theorem workerStep_counts {e : EdgeId} {input : WorkerInput} {w w' : World} {pc pc' : WorkerPc}
    (h : workerStep e input w pc = some (w', pc')) {rows : List ExecutionRow}
    (hcounts : Counts w.executor rows) :
    Counts w'.executor ((saves pc').toList ++ rows) := by
  cases workerStep_move h with
  | fetch hfetch =>
      obtain ⟨queue, mutex, rfl, -⟩ := fetchStep_effect hfetch
      exact hcounts
  | @exec t stage _ =>
      cases stage with
      | count verdict => exact hcounts.count t verdict
      | register => exact hcounts.of_same rfl rfl rfl
      | unregister verdict => exact hcounts.of_same rfl rfl rfl
      | _ => exact hcounts
  | _ => exact hcounts

theorem worker_registered {s : State} (h : Threads s) {e : EdgeId} {input : WorkerInput} {w : World}
    {pc' : WorkerPc} (hstep : workerStep e input s.world (s.workers e) = some (w, pc')) :
    e ∈ s.world.fleet.ids := by
  by_contra hforeign
  rw [h.foreign e hforeign] at hstep
  cases hstep

theorem contents_aside {α : Type} {content : WorkerPc → Option α}
    (hnotStarted : content .notStarted = none) (hloopHead : content .loopHead = none)
    (hexited : content .exited = none) {s s' : State} {label : Label} (hthreads : Threads s)
    (hmove : Move s label s') (haside : ∀ e input, label ≠ .work e input) :
    contents content s'.world.fleet.ids s'.workers =
      contents content s.world.fleet.ids s.workers := by
  rw [hmove.frame.fleet]
  cases hmove with
  | work e input _ => exact absurd rfl (haside e input)
  | @spawn e todo _ hworker =>
      apply contents_update_of_eq
      rw [hloopHead, hworker, hnotStarted]
  | joined hcontrol =>
      apply contents_congr
      intro e he
      rw [hthreads.joining [] hcontrol e he List.not_mem_nil]
      exact hnotStarted.trans hexited.symm
  | _ => rfl

theorem counts_work {s : State} (hthreads : Threads s) {e : EdgeId} {input : WorkerInput} {w : World}
    {pc' : WorkerPc} {log : Log} (hstep : workerStep e input s.world (s.workers e) = some (w, pc'))
    (h : Counts s.world.executor s.tallied) :
    Counts w.executor (State.tallied { s with
      world := w, workers := Function.update s.workers e pc', log := log }) := by
  have hperm : ((saves (s.workers e)).toList ++
      contents saves s.world.fleet.ids (Function.update s.workers e pc')).Perm
        ((saves pc').toList ++ s.unsaved) :=
    contents_update_perm s.world.fleet.nodup (worker_registered hthreads hstep) pc'
  have hfleet := (workerStep_frame hstep).fleet
  refine (workerStep_counts hstep h).perm ?_
  unfold State.tallied State.unsaved
  show (w.database.executions ++ contents saves w.fleet.ids _).Perm _
  rw [hfleet, Simulator.workerStep_executions hstep, List.append_assoc]
  refine (hperm.append_left _).trans ?_
  rw [← List.append_assoc, ← List.append_assoc]
  exact List.perm_append_comm.append_right _

theorem executor_aside {s s' : State} {label : Label} (hmove : Move s label s')
    (haside : ∀ e input, label ≠ .work e input) :
    ∃ isRunning, s'.world.executor = { s.world.executor with isRunning := isRunning } := by
  cases hmove with
  | work e input _ => exact absurd rfl (haside e input)
  | alloc _ _ hstep => exact ⟨_, allocStep_executor hstep⟩
  | schedule _ _ hstep => exact ⟨_, scheduleStep_executor hstep⟩
  | _ => exact ⟨_, rfl⟩

theorem counts_move {s s' : State} {label : Label} (h : Counts s.world.executor s.tallied)
    (hthreads : Threads s) (hmove : Move s label s') : Counts s'.world.executor s'.tallied := by
  by_cases haside : ∀ e input, label ≠ .work e input
  · obtain ⟨isRunning, hexecutor⟩ := executor_aside hmove haside
    have hexecutions := executions_move hmove
    have htallied : s'.tallied = s.tallied := by
      unfold State.tallied State.unsaved
      rw [contents_aside rfl rfl rfl hthreads hmove haside, hexecutions]
      cases label with
      | work e input => exact absurd rfl (haside e input)
      | _ => rw [List.append_nil]
    rw [htallied, hexecutor]
    exact h.of_same rfl rfl rfl
  · simp only [ne_eq, not_forall, not_not] at haside
    obtain ⟨e, input, rfl⟩ := haside
    cases hmove with
    | work _ _ hstep => exact counts_work hthreads hstep h
    | stay _ hlabel => simp at hlabel

theorem stored_kept {s s' : State} {label : Label} (hsound : Sound s) (hstaged : Staged s)
    (hmove : Move s label s') {t : TaskRef} (ht : t < s.world.taskCounter) {status : TaskStatus}
    (hstatus : s.world.database.taskStatus t = some status) (hfinished : status.finished = true) :
    s'.world.database.taskStatus t = some status := by
  obtain ⟨status', hstatus', hadvance⟩ := ((hstaged.move hsound hmove).2 t ht).stored _ hstatus
  rw [hstatus', eq_of_finished hfinished hadvance.to_reflTransGen]

def verdictStatus (success : Bool) : TaskStatus := if success then .completed else .failed

theorem verdictStatus_finished (success : Bool) : (verdictStatus success).finished = true := by
  cases success <;> rfl

def savedBy (s : State) : Label → Option ExecutionRow
  | .work e _ => saves (s.workers e)
  | _ => none

theorem executions_savedBy {s s' : State} {label : Label} (hmove : Move s label s') :
    s'.world.database.executions = s.world.database.executions ++ (savedBy s label).toList := by
  rw [executions_move hmove]
  cases label <;> rfl

theorem savedBy_eq {s : State} {label : Label} {row : ExecutionRow} (h : savedBy s label = some row) :
    ∃ e input, label = .work e input ∧ saves (s.workers e) = some row := by
  unfold savedBy at h
  split at h
  · exact ⟨_, _, rfl, h⟩
  · cases h

/-- What is saved, for whom, and with which verdict. -/
structure Chronicled (s : State) : Prop where
  nodup : (s.world.database.executions.map ExecutionRow.task).Nodup
  returned : ∀ t, t ∈ s.world.database.executions.map ExecutionRow.task ↔ ExecutionReturned s t
  verdict : ∀ row ∈ s.world.database.executions,
    s.world.database.taskStatus row.task = some (verdictStatus row.success)
  counts : Counts s.world.executor s.tallied

namespace Chronicled

variable {s s' : State} {label : Label} (h : Chronicled s) (hsound : Sound s) (hstaged : Staged s)
  (hmove : Move s label s')
include h hsound hstaged hmove

theorem verdict_kept : ∀ row ∈ s.world.database.executions,
    s'.world.database.taskStatus row.task = some (verdictStatus row.success) := by
  intro row hrow
  have hreturned := (h.returned row.task).mp (List.mem_map_of_mem hrow)
  exact stored_kept hsound hstaged hmove (executionReturned_lt hsound hreturned)
    (h.verdict row hrow) (verdictStatus_finished _)

theorem save {row : ExecutionRow} (hsaved : savedBy s label = some row)
    (hstep : step s label = some s') : Chronicled s' := by
  obtain ⟨e, input, rfl, hrow⟩ := savedBy_eq hsaved
  obtain ⟨verdict, hworker⟩ := saves_eq hrow
  have hexecutions := executions_savedBy hmove
  rw [hsaved, Option.toList_some] at hexecutions
  refine ⟨?_, fun t => ?_, ?_, counts_move h.counts hsound.threads hmove⟩
  · rw [hexecutions, List.map_append]
    refine h.nodup.append (List.nodup_singleton _) (List.disjoint_singleton.mpr fun hold => ?_)
    exact not_executionReturned hsound hworker (by rintro ⟨⟩) ((h.returned _).mp hold)
  · rw [hexecutions, List.map_append, List.mem_append, List.map_singleton, List.mem_singleton]
    constructor
    · rintro (hold | rfl)
      · exact executionReturned_move hsound.threads hmove ((h.returned t).mp hold)
      · exact returned_of_saves hrow hstep
    · intro ht
      obtain hold | ⟨e', input', row', heq, hrow', htask⟩ := executionReturned_back hmove ht
      · exact Or.inl ((h.returned t).mpr hold)
      · cases heq
        cases hrow.symm.trans hrow'
        exact Or.inr htask.symm
  · rw [hexecutions]
    refine List.forall_mem_append.mpr ⟨h.verdict_kept hsound hstaged hmove, fun other hother => ?_⟩
    rw [List.mem_singleton.mp hother]
    obtain ⟨stored, hstored, hagrees⟩ := hstaged.executing e _ _ hworker
    have hplace : row.task ∈ s.allPlaces e := by
      simp [State.allPlaces, Account.places, custody, hworker, WorkerPc.held]
    have hlt := hsound.fresh.granted _ (granted_of_mem hsound hplace)
    rw [hworker, saves_executing] at hrow
    rw [hagrees.2] at hstored
    have hstatus : verdict.status = verdictStatus row.success := by
      rw [← Option.some_inj.mp hrow]
      rfl
    rw [hstatus] at hstored
    exact stored_kept hsound hstaged hmove hlt hstored (verdictStatus_finished _)

theorem move (hstep : step s label = some s') : Chronicled s' := by
  cases hsaved : savedBy s label with
  | some row => exact h.save hsound hstaged hmove hsaved hstep
  | none =>
      have hexecutions := executions_savedBy hmove
      rw [hsaved, Option.toList_none, List.append_nil] at hexecutions
      refine ⟨hexecutions ▸ h.nodup, fun t => ?_,
        hexecutions ▸ h.verdict_kept hsound hstaged hmove, counts_move h.counts hsound.threads hmove⟩
      rw [hexecutions]
      refine ⟨fun ht => executionReturned_move hsound.threads hmove ((h.returned t).mp ht),
        fun ht => ?_⟩
      obtain hold | ⟨e, input, row, rfl, hrow, -⟩ := executionReturned_back hmove ht
      · exact (h.returned t).mpr hold
      · cases hsaved.symm.trans hrow

end Chronicled

theorem Chronicled.initial {s : State} (h : Initial s)
    (hexecutions : s.world.database.executions = []) : Chronicled s := by
  have hunsaved : s.unsaved = [] := by
    apply contents_eq_nil
    intro e _
    rw [h.workers]
    rfl
  refine ⟨?_, fun t => ?_, ?_, ?_⟩
  · rw [hexecutions]
    exact List.nodup_nil
  · rw [hexecutions]
    refine iff_of_false List.not_mem_nil ?_
    rintro ⟨e, hreturned | hfinished⟩
    · cases (h.workers e).symm.trans hreturned
    · rw [h.log] at hfinished
      cases hfinished
  · rw [hexecutions]
    exact fun _ hrow => by cases hrow
  · rw [State.tallied, hexecutions, hunsaved, h.executor]
    exact ⟨rfl, rfl, rfl⟩

theorem chronicled_of_run {start s : State} (hstart : Initial start)
    (hexecutions : start.world.database.executions = [])
    (hrun : machine.Run Machine.free start s) : Sound s ∧ Staged s ∧ Chronicled s := by
  have hkeep {s t : State} {label : Label} (hs : Sound s ∧ Staged s ∧ Chronicled s)
      (_ : Machine.free s label) (hstep : machine.step s label = some t) :
      Sound t ∧ Staged t ∧ Chronicled t := by
    obtain ⟨hsound, hstaged, hchronicled⟩ := hs
    have hmove := step_move hstep
    exact ⟨hsound.move hmove, (hstaged.move hsound hmove).1,
      hchronicled.move hsound hstaged hmove hstep⟩
  exact hrun.preserves hkeep
    ⟨Sound.initial hstart, Staged.initial hstart, Chronicled.initial hstart hexecutions⟩

end EdgeAllocator.Pipeline
