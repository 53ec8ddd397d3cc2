import EdgeAllocator.Scheduler

/-! `TaskExecutor`: the loop of the worker thread of one edge and the execution
of a task, statement by statement. -/
namespace EdgeAllocator.Executor

open Scheduler

structure WorkerInput where
  clock : ComparisonClock := fun _ => (0, 0)
  estimatedMs : Int := 0
  now : Int := 0

structure Verdict where
  estimatedMs : Int
  metDeadline : Bool

def Verdict.status (verdict : Verdict) : TaskStatus :=
  if verdict.metDeadline then .completed else .failed

/-- The statement of `simulateTaskExecution` that is due next. -/
inductive ExecStage where
  | begin
  | persistRunning
  | register
  | estimate
  | sleep (estimatedMs : Int)
  | conclude (verdict : Verdict)
  | persistFinal (verdict : Verdict)
  | unregister (verdict : Verdict)
  | release (verdict : Verdict)
  | count (verdict : Verdict)
  | persistExecution (verdict : Verdict)
  | returned

/-- Whether `deallocateResources` has run. -/
def ExecStage.released : ExecStage → Bool
  | .count _ | .persistExecution _ | .returned => true
  | _ => false

def ExecStage.registered : ExecStage → Bool
  | .estimate | .sleep _ | .conclude _ | .persistFinal _ | .unregister _ => true
  | _ => false

def ExecStage.pending : ExecStage → Bool
  | .begin | .persistRunning | .register => true
  | _ => false

def ExecStage.concluded : ExecStage → Bool
  | .persistFinal _ | .unregister _ | .release _ | .count _ | .persistExecution _ | .returned =>
      true
  | _ => false

def countExecution (verdict : Verdict) (executor : TaskExecutor) : TaskExecutor :=
  { executor with
    totalTasksExecuted := executor.totalTasksExecuted + (if verdict.metDeadline then 1 else 0)
    totalTasksFailed := executor.totalTasksFailed + (if verdict.metDeadline then 0 else 1)
    totalExecutionTimeMs := executor.totalExecutionTimeMs + verdict.estimatedMs }

def execStep (e : EdgeId) (input : WorkerInput) (w : World) (t : TaskRef) :
    ExecStage → World × ExecStage
  | .begin => (w.modifyTask t (Task.setStatus .running), .persistRunning)
  | .persistRunning => (w.modifyDatabase (Database.updateTaskStatus t .running), .register)
  | .register =>
      (w.modifyExecutor fun executor =>
        { executor with activeTasks := executor.activeTasks.insert t }, .estimate)
  | .estimate => (w, .sleep input.estimatedMs)
  | .sleep estimatedMs =>
      (w, .conclude ⟨estimatedMs, !(w.task t).isDeadlineExceeded (w.workload t) input.now⟩)
  | .conclude verdict =>
      (w.modifyTask t fun task => (task.setCompletionTime input.now).setStatus verdict.status,
        .persistFinal verdict)
  | .persistFinal verdict =>
      (w.modifyDatabase (Database.updateTaskStatus t verdict.status), .unregister verdict)
  | .unregister verdict =>
      (w.modifyExecutor fun executor =>
        { executor with activeTasks := executor.activeTasks.filter (· ≠ t) }, .release verdict)
  | .release verdict =>
      (w.modifyNode e (EdgeNode.deallocateResources (w.demand t)), .count verdict)
  | .count verdict => (w.modifyExecutor (countExecution verdict), .persistExecution verdict)
  | .persistExecution verdict =>
      (w.modifyDatabase
        (Database.saveTaskExecution ⟨t, verdict.estimatedMs, verdict.metDeadline⟩), .returned)
  | .returned => (w, .returned)

/-- Where the thread of one edge stands in `executeTasksForEdge`. -/
inductive WorkerPc where
  | notStarted
  | loopHead
  | fetching (pc : FetchPc)
  | executing (t : TaskRef) (stage : ExecStage)
  | exited

def WorkerPc.held : WorkerPc → List TaskRef
  | .fetching pc => pc.held
  | .executing t _ => [t]
  | .notStarted | .loopHead | .exited => []

def WorkerPc.scratch : WorkerPc → List TaskRef
  | .fetching pc => pc.held
  | _ => []

def WorkerPc.unregistered : WorkerPc → List TaskRef
  | .executing t stage => if stage.pending then [t] else []
  | _ => []

def WorkerPc.reserved : WorkerPc → List TaskRef
  | .executing t stage => if stage.released then [] else [t]
  | pc => pc.held

def workerStep (e : EdgeId) (input : WorkerInput) (w : World) :
    WorkerPc → Option (World × WorkerPc)
  | .notStarted => none
  | .loopHead => some (w, if w.executor.isRunning then .fetching .lock else .exited)
  | .fetching (.returned none) => some (w, .loopHead)
  | .fetching (.returned (some t)) => some (w, .executing t .begin)
  | .fetching pc =>
      (fetchStep (.worker e) e input.clock w pc).map fun (w', pc') => (w', .fetching pc')
  | .executing _ .returned => some (w, .loopHead)
  | .executing t stage =>
      let (w', stage') := execStep e input w t stage
      some (w', .executing t stage')
  | .exited => none

theorem execStep_node (e : EdgeId) (input : WorkerInput) (w : World) (t : TaskRef)
    (stage : ExecStage) :
    (execStep e input w t stage).1.node = w.node ∧
        (execStep e input w t stage).2.released = stage.released ∨
      (∃ verdict, stage = .release verdict) ∧
        (execStep e input w t stage).1 =
          w.modifyNode e (EdgeNode.deallocateResources (w.demand t)) ∧
        (execStep e input w t stage).2.released = true := by
  cases stage with
  | release verdict => exact Or.inr ⟨⟨verdict, rfl⟩, rfl, rfl⟩
  | _ => exact Or.inl ⟨rfl, rfl⟩

theorem execStep_usage (e : EdgeId) (input : WorkerInput) (w : World) (t : TaskRef)
    (stage : ExecStage) (e' : EdgeId) :
    ∃ usage, (execStep e input w t stage).1.node e' = { w.node e' with currentUsage := usage } := by
  obtain ⟨hnode, -⟩ | ⟨-, hrelease, -⟩ := execStep_node e input w t stage
  · exact ⟨(w.node e').currentUsage, congrFun hnode e'⟩
  · rw [hrelease]
    by_cases he : e' = e
    · rw [he, World.modifyNode_self]
      exact ⟨_, rfl⟩
    · rw [World.modifyNode_of_ne _ _ he]
      exact ⟨_, rfl⟩

theorem execStep_queued (e : EdgeId) (input : WorkerInput) (w : World) (t : TaskRef)
    (stage : ExecStage) (e' : EdgeId) :
    ((execStep e input w t stage).1.node e').queued = (w.node e').queued := by
  obtain ⟨usage, hnode⟩ := execStep_usage e input w t stage e'
  rw [hnode]
  rfl

theorem execStep_frame (e : EdgeId) (input : WorkerInput) (w : World) (t : TaskRef)
    (stage : ExecStage) : Frame w (execStep e input w t stage).1 := by
  cases stage with
  | release verdict => exact Frame.modifyNode w e rfl
  | _ => exact Frame.of_node rfl rfl rfl

theorem execStep_allocator (e : EdgeId) (input : WorkerInput) (w : World) (t : TaskRef)
    (stage : ExecStage) : (execStep e input w t stage).1.allocator = w.allocator := by
  cases stage <;> rfl

theorem execStep_scheduler (e : EdgeId) (input : WorkerInput) (w : World) (t : TaskRef)
    (stage : ExecStage) : (execStep e input w t stage).1.scheduler = w.scheduler := by
  cases stage <;> rfl

theorem execStep_taskCounter (e : EdgeId) (input : WorkerInput) (w : World) (t : TaskRef)
    (stage : ExecStage) : (execStep e input w t stage).1.taskCounter = w.taskCounter := by
  cases stage <;> rfl

theorem execStep_task_of_ne (e : EdgeId) (input : WorkerInput) (w : World) {t t' : TaskRef}
    (stage : ExecStage) (h : t' ≠ t) : (execStep e input w t stage).1.task t' = w.task t' := by
  cases stage with
  | begin => exact Function.update_of_ne h _ _
  | conclude verdict => exact Function.update_of_ne h _ _
  | _ => rfl

theorem execStep_active_of_ne (e : EdgeId) (input : WorkerInput) (w : World) {t t' : TaskRef}
    (stage : ExecStage) (h : t' ≠ t) (hactive : t' ∈ w.executor.activeTasks) :
    t' ∈ (execStep e input w t stage).1.executor.activeTasks := by
  cases stage with
  | register => exact List.mem_insert_of_mem hactive
  | unregister verdict => simpa [execStep, h] using hactive
  | _ => exact hactive

theorem execStep_active (e : EdgeId) (input : WorkerInput) (w : World) (t : TaskRef)
    (stage : ExecStage) (hactive : stage.registered = true → t ∈ w.executor.activeTasks)
    (hregistered : (execStep e input w t stage).2.registered = true) :
    t ∈ (execStep e input w t stage).1.executor.activeTasks := by
  cases stage with
  | register => exact List.mem_insert_self
  | estimate => exact hactive rfl
  | sleep estimatedMs => exact hactive rfl
  | conclude verdict => exact hactive rfl
  | persistFinal verdict => exact hactive rfl
  | _ => cases hregistered

theorem execStep_concluded (e : EdgeId) (input : WorkerInput) (w : World) (t : TaskRef)
    (stage : ExecStage)
    (hstatus : stage.concluded = true → (w.task t).status.finished = true)
    (hconcluded : (execStep e input w t stage).2.concluded = true) :
    ((execStep e input w t stage).1.task t).status.finished = true := by
  cases stage with
  | conclude verdict =>
      rw [execStep, World.modifyTask_self, Task.setStatus_status, Verdict.status]
      split <;> rfl
  | begin => cases hconcluded
  | persistRunning => cases hconcluded
  | register => cases hconcluded
  | estimate => cases hconcluded
  | sleep estimatedMs => cases hconcluded
  | _ => exact hstatus rfl

inductive WorkerMove (e : EdgeId) (input : WorkerInput) (w : World) :
    WorkerPc → World → WorkerPc → Prop where
  | enter (h : w.executor.isRunning = true) : WorkerMove e input w .loopHead w (.fetching .lock)
  | leave (h : w.executor.isRunning = false) : WorkerMove e input w .loopHead w .exited
  | fetch {pc pc' : FetchPc} {w' : World}
      (h : fetchStep (.worker e) e input.clock w pc = some (w', pc')) :
      WorkerMove e input w (.fetching pc) w' (.fetching pc')
  | idle : WorkerMove e input w (.fetching (.returned none)) w .loopHead
  | take (t : TaskRef) : WorkerMove e input w (.fetching (.returned (some t))) w
      (.executing t .begin)
  | exec (t : TaskRef) {stage : ExecStage} (h : stage ≠ .returned) :
      WorkerMove e input w (.executing t stage) (execStep e input w t stage).1
        (.executing t (execStep e input w t stage).2)
  | finish (t : TaskRef) : WorkerMove e input w (.executing t .returned) w .loopHead

theorem workerStep_move {e : EdgeId} {input : WorkerInput} {w w' : World} {pc pc' : WorkerPc}
    (h : workerStep e input w pc = some (w', pc')) : WorkerMove e input w pc w' pc' := by
  cases pc with
  | notStarted => cases h
  | exited => cases h
  | loopHead =>
      cases hrunning : w.executor.isRunning with
      | true =>
          simp only [workerStep, hrunning, if_true, Option.some.injEq, Prod.mk.injEq] at h
          obtain ⟨rfl, rfl⟩ := h
          exact .enter hrunning
      | false =>
          simp only [workerStep, hrunning, Bool.false_eq_true, if_false, Option.some.injEq,
            Prod.mk.injEq] at h
          obtain ⟨rfl, rfl⟩ := h
          exact .leave hrunning
  | fetching pc =>
      have hfetch (hmap : (fetchStep (.worker e) e input.clock w pc).map
          (fun (w₁, pc₁) => (w₁, WorkerPc.fetching pc₁)) = some (w', pc')) :
          WorkerMove e input w (.fetching pc) w' pc' := by
        obtain ⟨⟨w₁, pc₁⟩, hstep, hnext⟩ := Option.map_eq_some_iff.mp hmap
        cases hnext
        exact .fetch hstep
      cases pc with
      | returned selected =>
          cases selected with
          | none =>
              cases h
              exact .idle
          | some t =>
              cases h
              exact .take t
      | _ => exact hfetch h
  | executing t stage =>
      cases stage with
      | returned =>
          cases h
          exact .finish t
      | _ =>
          cases h
          exact .exec t (by rintro ⟨⟩)

theorem workerStep_frame {e : EdgeId} {input : WorkerInput} {w w' : World} {pc pc' : WorkerPc}
    (h : workerStep e input w pc = some (w', pc')) : Frame w w' := by
  cases workerStep_move h with
  | fetch hfetch =>
      obtain ⟨queue, mutex, rfl, -⟩ := fetchStep_effect hfetch
      have hnode := Frame.modifyNode w e
        (f := fun node => { node with taskQueue := queue }) rfl
      exact ⟨rfl, rfl, hnode.capacity⟩
  | exec t _ => exact execStep_frame e input w t _
  | _ => exact .refl w

theorem workerStep_node_of_ne {e e' : EdgeId} {input : WorkerInput} {w w' : World}
    {pc pc' : WorkerPc} (h : workerStep e input w pc = some (w', pc')) (he : e' ≠ e) :
    w'.node e' = w.node e' := by
  cases workerStep_move h with
  | fetch hfetch =>
      obtain ⟨queue, mutex, rfl, -⟩ := fetchStep_effect hfetch
      rw [World.modifyScheduler_node, World.modifyNode_of_ne _ _ he]
  | exec t _ =>
      obtain ⟨hnode, -⟩ | ⟨-, hrelease, -⟩ := execStep_node e input w t _
      · rw [hnode]
      · rw [hrelease, World.modifyNode_of_ne _ _ he]
  | _ => rfl

theorem workerStep_allocator {e : EdgeId} {input : WorkerInput} {w w' : World}
    {pc pc' : WorkerPc} (h : workerStep e input w pc = some (w', pc')) :
    w'.allocator = w.allocator := by
  cases workerStep_move h with
  | fetch hfetch =>
      obtain ⟨queue, mutex, rfl, -⟩ := fetchStep_effect hfetch
      rfl
  | exec t _ => exact execStep_allocator e input w t _
  | _ => rfl

theorem workerStep_schedulingStrategy {e : EdgeId} {input : WorkerInput} {w w' : World}
    {pc pc' : WorkerPc} (h : workerStep e input w pc = some (w', pc')) :
    w'.scheduler.strategy = w.scheduler.strategy := by
  cases workerStep_move h with
  | fetch hfetch =>
      obtain ⟨queue, mutex, rfl, -⟩ := fetchStep_effect hfetch
      rfl
  | exec t _ => exact congrArg TaskScheduler.strategy (execStep_scheduler e input w t _)
  | _ => rfl

theorem workerStep_taskCounter {e : EdgeId} {input : WorkerInput} {w w' : World}
    {pc pc' : WorkerPc} (h : workerStep e input w pc = some (w', pc')) :
    w'.taskCounter = w.taskCounter := by
  cases workerStep_move h with
  | fetch hfetch =>
      obtain ⟨queue, mutex, rfl, -⟩ := fetchStep_effect hfetch
      rfl
  | exec t _ => exact execStep_taskCounter e input w t _
  | _ => rfl

/-- The task that the worker lays down with this step, if any: the one whose
execution it returns from. -/
def WorkerPc.finishes : WorkerPc → List TaskRef
  | .executing t .returned => [t]
  | _ => []

def WorkerPc.releases : WorkerPc → List TaskRef
  | .executing t (.release _) => [t]
  | _ => []

def WorkerPc.begins : WorkerPc → List TaskRef
  | .executing t .begin => [t]
  | _ => []

theorem finishes_executing {t : TaskRef} {stage : ExecStage} (h : stage ≠ .returned) :
    (WorkerPc.executing t stage).finishes = [] := by
  cases stage with
  | returned => exact absurd rfl h
  | _ => rfl

/-- Queue, scratch buffer and hand together keep every task, but for the one
that is finished. -/
theorem workerStep_custody {e : EdgeId} {input : WorkerInput} {w w' : World} {pc pc' : WorkerPc}
    (h : workerStep e input w pc = some (w', pc')) :
    ((w'.node e).queued ++ pc'.held ++ pc.finishes).Perm ((w.node e).queued ++ pc.held) := by
  cases workerStep_move h with
  | fetch hfetch =>
      obtain ⟨queue, mutex, rfl, hperm⟩ := fetchStep_effect hfetch
      simpa [EdgeNode.queued, WorkerPc.held, WorkerPc.finishes] using hperm
  | @exec t stage hstage =>
      rw [execStep_queued, finishes_executing hstage, List.append_nil]
      exact .refl _
  | _ => simp [WorkerPc.held, WorkerPc.finishes, FetchPc.held]

theorem workerStep_reserved {e : EdgeId} {input : WorkerInput} {w w' : World} {pc pc' : WorkerPc}
    (h : workerStep e input w pc = some (w', pc')) :
    ((w'.node e).queued ++ pc'.reserved ++ pc.releases).Perm
      ((w.node e).queued ++ pc.reserved) := by
  cases workerStep_move h with
  | fetch hfetch =>
      obtain ⟨queue, mutex, rfl, hperm⟩ := fetchStep_effect hfetch
      simpa [EdgeNode.queued, WorkerPc.reserved, WorkerPc.held, WorkerPc.releases] using hperm
  | @exec t stage hstage =>
      cases stage with
      | release verdict =>
          simp [execStep, WorkerPc.reserved, WorkerPc.releases, ExecStage.released,
            EdgeNode.queued]
      | returned => exact absurd rfl hstage
      | _ => exact .of_eq (List.append_nil _)
  | _ => simp [WorkerPc.held, WorkerPc.reserved, WorkerPc.releases, FetchPc.held,
      ExecStage.released]

def WorkerPc.begun : WorkerPc → List TaskRef
  | .executing _ .begin => []
  | .executing t _ => [t]
  | .notStarted | .loopHead | .fetching _ | .exited => []

theorem WorkerPc.begun_sublist (pc : WorkerPc) : pc.begun.Sublist pc.held := by
  cases pc with
  | executing t stage => cases stage <;> simp [begun, held]
  | _ => exact List.nil_sublist _

theorem workerStep_begun {e : EdgeId} {input : WorkerInput} {w w' : World} {pc pc' : WorkerPc}
    (h : workerStep e input w pc = some (w', pc')) :
    pc'.begun ++ pc.finishes = pc.begun ++ pc.begins := by
  cases workerStep_move h with
  | @exec t stage hstage =>
      cases stage with
      | returned => exact absurd rfl hstage
      | _ => rfl
  | _ => rfl

def WorkerPc.counts : WorkerPc → List TaskRef
  | .executing t (.count _) => [t]
  | _ => []

def WorkerPc.counted : WorkerPc → List TaskRef
  | .executing t (.persistExecution _) | .executing t .returned => [t]
  | _ => []

theorem workerStep_counted {e : EdgeId} {input : WorkerInput} {w w' : World} {pc pc' : WorkerPc}
    (h : workerStep e input w pc = some (w', pc')) :
    pc'.counted ++ pc.finishes = pc.counted ++ pc.counts := by
  cases workerStep_move h with
  | @exec t stage hstage =>
      cases stage with
      | returned => exact absurd rfl hstage
      | _ => rfl
  | _ => rfl

theorem workerStep_totals {e : EdgeId} {input : WorkerInput} {w w' : World} {pc pc' : WorkerPc}
    (h : workerStep e input w pc = some (w', pc')) :
    w'.executor.totalTasksExecuted + w'.executor.totalTasksFailed =
      w.executor.totalTasksExecuted + w.executor.totalTasksFailed + pc.counts.length := by
  cases workerStep_move h with
  | fetch hfetch =>
      obtain ⟨queue, mutex, rfl, -⟩ := fetchStep_effect hfetch
      rfl
  | @exec t stage hstage =>
      cases stage with
      | count verdict =>
          cases hmet : verdict.metDeadline <;>
            simp [execStep, countExecution, WorkerPc.counts, hmet] <;> omega
      | _ => rfl
  | _ => rfl

theorem workerStep_isRunning {e : EdgeId} {input : WorkerInput} {w w' : World}
    {pc pc' : WorkerPc} (h : workerStep e input w pc = some (w', pc')) :
    w'.executor.isRunning = w.executor.isRunning := by
  cases workerStep_move h with
  | fetch hfetch =>
      obtain ⟨queue, mutex, rfl, -⟩ := fetchStep_effect hfetch
      rfl
  | @exec t stage hstage => cases stage <;> rfl
  | _ => rfl

theorem workerStep_usage {e : EdgeId} {input : WorkerInput} {w w' : World} {pc pc' : WorkerPc}
    (h : workerStep e input w pc = some (w', pc')) :
    ((w'.node e).currentUsage = (w.node e).currentUsage ∧ pc.releases = []) ∨
      ∃ t, pc.releases = [t] ∧
        w'.node e = (w.node e).deallocateResources (w.demand t) := by
  cases workerStep_move h with
  | fetch hfetch =>
      obtain ⟨queue, mutex, rfl, -⟩ := fetchStep_effect hfetch
      exact Or.inl ⟨by simp, rfl⟩
  | @exec t stage hstage =>
      cases stage with
      | release verdict => exact Or.inr ⟨t, rfl, by simp [execStep]⟩
      | _ => exact Or.inl ⟨rfl, rfl⟩
  | _ => exact Or.inl ⟨rfl, rfl⟩

end EdgeAllocator.Executor
