import EdgeAllocator.Accounting
import EdgeAllocator.Imbalance

/-! What `MetricsCollector` reads from the counters and the nodes while the threads go
on. -/
namespace EdgeAllocator.MetricsCollector

open Foundation Pipeline Allocation Executor Scheduler

def getAverageExecutionTimeMs (executor : TaskExecutor) : ℚ :=
  let completed := executor.totalTasksExecuted + executor.totalTasksFailed
  if completed = 0 then 0 else executor.totalExecutionTimeMs / completed

/-- What the getters find. Each takes a mutex of its own, so that the threads move on
between any two of them; the usage of the nodes is read twice, node by node. -/
structure Readings where
  waitingTime : World
  cpu : EdgeId → World
  imbalance : EdgeId → World
  executed : World
  failed : World
  successRate : World

def Requested (s : Pipeline.State) : Prop :=
  s.world.allocator.successfulAllocations + Accounting.unsettled s.producer ≤
    s.world.allocator.totalAllocations

theorem allocStep_failures {me : Thread} {call : AllocCall} {w w' : World} {pc pc' : AllocPc}
    (h : allocStep me call w pc = some (w', pc')) :
    w.allocator.failedAllocations ≤ w'.allocator.failedAllocations := by
  cases allocStep_move h with
  | fail => exact Nat.le_succ _
  | _ => exact le_rfl

theorem Requested.move {s s' : Pipeline.State} {label : Pipeline.Label} (h : Requested s)
    (hedges : ∀ e ∈ s.producer.edges, e ∈ s.world.fleet.ids) (hmove : Pipeline.Move s label s') :
    Requested s' := by
  unfold Requested at h ⊢
  cases hmove with
  | produce kind now hidle =>
      rw [hidle] at h
      exact h
  | alloc _ hpc hstep =>
      rw [hpc] at h
      have htotals := (Accounting.allocStep_totals hstep).2
      have hfailures := allocStep_failures hstep
      dsimp only
      omega
  | schedule _ hpc hstep =>
      have heffect := scheduleStep_effect hstep
        (hedges _ (by rw [hpc]; exact List.mem_singleton_self _))
      rw [hpc] at h
      rw [heffect.allocator]
      exact h
  | work _ _ hstep =>
      rw [workerStep_allocator hstep]
      exact h
  | allocated _ hpc _ | refused _ hpc _ | scheduled _ hpc | fluctuate hpc | draw _ hpc
  | passOver _ hpc | fluctuated _ hpc =>
      rw [hpc] at h
      exact h
  | _ => exact h

end EdgeAllocator.MetricsCollector
