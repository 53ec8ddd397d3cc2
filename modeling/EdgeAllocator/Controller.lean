import EdgeAllocator.Allocator
import EdgeAllocator.Executor
import EdgeAllocator.Foundation.Machine

/-! `ResourceController` with the `TaskManager` and the `ResourceMonitor` whose
callbacks it takes. The operations follow one another without interleaving, and
between them a driver constructs, allocates and schedules tasks of its own and
the workers complete what is queued. -/
namespace EdgeAllocator.Controller

open Foundation Scheduler Executor Allocator

structure TaskManager where
  taskQueue : List TaskPtr := []
  totalTasksCreated : Nat := 0
  totalTasksProcessed : Nat := 0

namespace TaskManager

def enqueueTask (task : TaskPtr) (manager : TaskManager) : TaskManager :=
  { manager with taskQueue := manager.taskQueue ++ [task] }

def dequeueTask (manager : TaskManager) : TaskPtr × TaskManager :=
  match manager.taskQueue with
  | [] => (none, manager)
  | task :: rest => (task, { manager with
      taskQueue := rest, totalTasksProcessed := manager.totalTasksProcessed + 1 })

def hasTasksInQueue (manager : TaskManager) : Bool := !manager.taskQueue.isEmpty

end TaskManager

/-- The statistics of `ResourceController` and of `ResourceMonitor`. -/
structure Counters where
  totalTasksAllocated : Nat := 0
  totalAllocationFailures : Nat := 0
  totalReallocations : Nat := 0
  totalNodeFailures : Nat := 0
  totalNodeRecoveries : Nat := 0

namespace Counters

def allocation (success : Bool) (counters : Counters) : Counters :=
  if success then { counters with totalTasksAllocated := counters.totalTasksAllocated + 1 }
  else { counters with totalAllocationFailures := counters.totalAllocationFailures + 1 }

def reallocation (success : Bool) (counters : Counters) : Counters :=
  if success then { counters with totalReallocations := counters.totalReallocations + 1 }
  else counters

def failure (counters : Counters) : Counters :=
  { counters with totalNodeFailures := counters.totalNodeFailures + 1 }

def recovery (counters : Counters) : Counters :=
  { counters with totalNodeRecoveries := counters.totalNodeRecoveries + 1 }

end Counters

/-- `removed` lists the tasks that the controller has taken out of a queue; no
operation reads it. -/
structure State where
  world : World
  manager : TaskManager := {}
  counters : Counters := {}
  removed : List TaskRef := []

def constructTask (now : Int) (w : World) : World :=
  { w.modifyTask w.taskCounter fun _ => { creationTime := now } with
    taskCounter := w.taskCounter + 1 }

def createTaskFromSensorData (now : Int) (s : State) : State :=
  { s with
    world := constructTask now s.world
    manager := { s.manager with
      totalTasksCreated := s.manager.totalTasksCreated + 1 }.enqueueTask
        (some s.world.taskCounter) }

def allocateTaskNow (t : TaskRef) (s : State) : Option (State × AllocationResult) :=
  (allocateTask s.world t).map fun (w, result) =>
    ({ s with world := w, counters := s.counters.allocation result.success }, result)

def updateResourceMetrics (draws : EdgeId → EdgeNode.Draws) (w : World) : World :=
  w.fleet.ids.foldl (fun w e =>
    if (w.node e).isAvailable then
      w.modifyNode e (EdgeNode.simulateResourceFluctuation (draws e)) else w) w

def processingIteration (draws : EdgeId → EdgeNode.Draws) (s : State) : Option State :=
  (if s.manager.hasTasksInQueue then
    match s.manager.dequeueTask with
    | (none, manager) => some { s with manager := manager }
    | (some t, manager) =>
        (allocateTaskNow t { s with manager := manager, removed := s.removed ++ [t] }).map Prod.fst
  else some s).map fun s => { s with world := updateResourceMetrics draws s.world }

def markReallocated (t : TaskRef) (w : World) : World :=
  w.modifyTask t fun task => (task.setStatus .reallocated).setAssignedEdgeId ""

def reallocateTask (t : TaskRef) (s : State) : Option State :=
  (allocateTaskNow t { s with
    world := markReallocated t s.world, removed := s.removed ++ [t] }).map fun (s, result) =>
      { s with counters := s.counters.reallocation result.success }

/-- The `while` loop, which nothing enqueues in: one pass for each queued task. -/
def reallocateLoop (e : EdgeId) : Nat → State → Option State
  | 0, s => some s
  | n + 1, s =>
      if (s.world.node e).hasTasksInQueue then
        let rest := { s with world := s.world.modifyNode e fun node => node.dequeueTask.2 }
        match (s.world.node e).dequeueTask.1 with
        | none => reallocateLoop e n rest
        | some t => (reallocateTask t rest).bind (reallocateLoop e n)
      else some s

def reallocateTasksFromFailedNode (e : EdgeId) (s : State) : Option State :=
  match s.world.getEdgeNode e with
  | none => some s
  | some e => reallocateLoop e (s.world.node e).getQueueLength s

def handleNodeFailure (e : EdgeId) (s : State) : Option State :=
  reallocateTasksFromFailedNode e s

def onNodeStatusChanged (e : EdgeId) (isAvailable : Bool) (s : State) : Option State :=
  if isAvailable then some s else handleNodeFailure e s

def simulateNodeFailure (e : EdgeId) (s : State) : Option State :=
  match s.world.getEdgeNode e with
  | none => some s
  | some e => onNodeStatusChanged e false { s with
      world := s.world.modifyNode e (EdgeNode.setAvailable false)
      counters := s.counters.failure }

def recoverNodeFromFailure (e : EdgeId) (s : State) : Option State :=
  match s.world.getEdgeNode e with
  | none => some s
  | some e => onNodeStatusChanged e true { s with
      world := s.world.modifyNode e (EdgeNode.setAvailable true)
      counters := s.counters.recovery }

def scheduleTask (e : EdgeId) (t : TaskRef) (w : World) : World :=
  match w.getEdgeNode e with
  | none => w
  | some e =>
      ((w.modifyTask t (Task.setStatus .queued)).modifyNode e
        (EdgeNode.enqueueTask (some t))).modifyScheduler fun scheduler =>
          { scheduler with totalTasksScheduled := scheduler.totalTasksScheduled + 1 }

def getNextTask (e : EdgeId) (clock : ComparisonClock) (w : World) : Option (World × TaskPtr) :=
  if (w.node e).hasTasksInQueue then
    if w.scheduler.strategy = .fifo then
      some (w.modifyNode e fun node => node.dequeueTask.2, (w.node e).dequeueTask.1)
    else
      (select w clock (w.node e).taskQueue).map fun i =>
        (w.modifyNode e fun node => { node with taskQueue := node.taskQueue.eraseIdx i },
          (w.node e).taskQueue[i]?.getD none)
  else some (w, none)

def simulateTaskExecution (e : EdgeId) (input : WorkerInput) (t : TaskRef) (w : World) : World :=
  let running := (w.modifyTask t (Task.setStatus .running)).modifyDatabase
    (Database.updateTaskStatus t .running)
  let active := running.modifyExecutor fun executor =>
    { executor with activeTasks := executor.activeTasks.insert t }
  let verdict : Verdict :=
    ⟨input.estimatedMs, !(active.task t).isDeadlineExceeded (w.workload t) input.now⟩
  let concluded := (active.modifyTask t fun task =>
    (task.setCompletionTime input.now).setStatus verdict.status).modifyDatabase
      (Database.updateTaskStatus t verdict.status)
  let released := (concluded.modifyExecutor fun executor =>
    { executor with activeTasks := executor.activeTasks.filter (· ≠ t) }).modifyNode e
      (EdgeNode.deallocateResources (w.demand t))
  (released.modifyExecutor (countExecution verdict)).modifyDatabase
    (Database.saveTaskExecution ⟨t, input.estimatedMs, verdict.metDeadline⟩)

def executeNextTask (e : EdgeId) (input : WorkerInput) (s : State) : Option State :=
  (getNextTask e input.clock s.world).map fun (w, task) =>
    match task with
    | none => { s with world := w }
    | some t => { s with world := simulateTaskExecution e input t w }

inductive Label where
  | create (now : Int)
  | process (draws : EdgeId → EdgeNode.Draws)
  | construct (now : Int)
  | allocate (t : TaskRef)
  | schedule (t : TaskRef) (e : EdgeId)
  | complete (e : EdgeId) (input : WorkerInput)
  | fail (e : EdgeId)
  | recover (e : EdgeId)

def step (s : State) : Label → Option State
  | .create now => some (createTaskFromSensorData now s)
  | .process draws => processingIteration draws s
  | .construct now => some { s with world := constructTask now s.world }
  | .allocate t => (allocateTaskNow t s).map Prod.fst
  | .schedule t e => some { s with world := scheduleTask e t s.world }
  | .complete e input => executeNextTask e input s
  | .fail e => simulateNodeFailure e s
  | .recover e => recoverNodeFromFailure e s

structure Initial (s : State) : Prop where
  node : ∀ e, ∃ capacity, s.world.node e = { capacity := capacity }
  taskCounter : s.world.taskCounter = 0
  manager : s.manager = {}
  removed : s.removed = []

def machine : Machine State Label := ⟨Initial, step⟩

def bootPair : State :=
  { world := .boot twoNodes (fun _ => nodeCapacity) (fun _ => TaskProfile.ultrasonic) .roundRobin
      .fifo }

theorem bootPair_initial : Initial bootPair :=
  ⟨fun _ => ⟨nodeCapacity, rfl⟩, rfl, rfl, rfl⟩

def handOver : List Label := [.construct 0, .allocate 0, .schedule 0 "E01"]

/-- What an allocation attempt changes of nodes and tasks. -/
inductive AllocEffect (w : World) (t : TaskRef) (w' : World) : Bool → Prop where
  | refused (hnode : w'.node = w.node) (htask : w'.task = w.task) : AllocEffect w t w' false
  | reserved {e : EdgeId} (hviable : e ∈ getViableEdges w t)
      (hnode : w'.node = (w.modifyNode e (EdgeNode.allocateResources (w.demand t))).node)
      (htask : w'.task = (w.modifyTask t (assignTask e)).task) : AllocEffect w t w' true

/-- No operation registers a node, changes requirements or constructs a task,
`constructTask` apart. -/
structure Stable (w w' : World) : Prop where
  fleet : w'.fleet = w.fleet
  workload : w'.workload = w.workload
  taskCounter : w'.taskCounter = w.taskCounter

theorem Stable.trans {w w' w'' : World} (h : Stable w w') (h' : Stable w' w'') : Stable w w'' :=
  ⟨h'.fleet.trans h.fleet, h'.workload.trans h.workload, h'.taskCounter.trans h.taskCounter⟩

theorem allocateTask_effect {w w' : World} {t : TaskRef} {result : AllocationResult}
    (h : allocateTask w t = some (w', result)) :
    Stable w w' ∧ AllocEffect w t w' result.success := by
  obtain ⟨⟨w₁, result₁⟩, hdispatch, hnext⟩ := Option.bind_eq_some_iff.mp h
  cases dispatch_attempt hdispatch with
  | refuse _ =>
      cases hnext
      exact ⟨⟨rfl, rfl, rfl⟩, .refused rfl rfl⟩
  | reserve index hviable =>
      cases hnext
      exact ⟨⟨rfl, rfl, rfl⟩, .reserved hviable rfl rfl⟩

theorem AllocEffect.queue {w w' : World} {t : TaskRef} {success : Bool}
    (h : AllocEffect w t w' success) (e : EdgeId) :
    (w'.node e).taskQueue = (w.node e).taskQueue ∧
      (w'.node e).isAvailable = (w.node e).isAvailable := by
  cases h with
  | refused hnode _ => rw [hnode]; exact ⟨rfl, rfl⟩
  | @reserved e' _ hnode _ =>
      rw [hnode]
      by_cases he : e = e'
      · rw [he, World.modifyNode_self]
        exact ⟨rfl, rfl⟩
      · rw [World.modifyNode_of_ne _ _ he]
        exact ⟨rfl, rfl⟩

theorem AllocEffect.task_of_ne {w w' : World} {t t' : TaskRef} {success : Bool}
    (h : AllocEffect w t w' success) (hne : t' ≠ t) : w'.task t' = w.task t' := by
  cases h with
  | refused _ htask => rw [htask]
  | reserved _ _ htask =>
      rw [htask]
      exact Function.update_of_ne hne _ _

theorem allocateTaskNow_some {t : TaskRef} {s s' : State} {result : AllocationResult}
    (h : allocateTaskNow t s = some (s', result)) :
    allocateTask s.world t = some (s'.world, result) ∧ s'.manager = s.manager ∧
      s'.removed = s.removed := by
  obtain ⟨⟨w, result₁⟩, hallocate, hnext⟩ := Option.map_eq_some_iff.mp h
  cases hnext
  exact ⟨hallocate, rfl, rfl⟩

/-- Background load changes nothing but the usage of nodes. -/
structure OnlyUsage (w w' : World) : Prop where
  stable : Stable w w'
  task : w'.task = w.task
  queue : ∀ e, (w'.node e).taskQueue = (w.node e).taskQueue

theorem updateResourceMetrics_effect (draws : EdgeId → EdgeNode.Draws) (w : World) :
    OnlyUsage w (updateResourceMetrics draws w) := by
  unfold updateResourceMetrics
  generalize w.fleet.ids = ids
  induction ids generalizing w with
  | nil => exact ⟨⟨rfl, rfl, rfl⟩, rfl, fun _ => rfl⟩
  | cons e ids ih =>
      rw [List.foldl_cons]
      split
      · obtain ⟨hstable, htask, hqueue⟩ := ih (w.modifyNode e
          (EdgeNode.simulateResourceFluctuation (draws e)))
        refine ⟨⟨hstable.fleet, hstable.workload, hstable.taskCounter⟩, htask, fun e' =>
          (hqueue e').trans ?_⟩
        by_cases he : e' = e
        · rw [he, World.modifyNode_self]
          rfl
        · rw [World.modifyNode_of_ne _ _ he]
      · exact ih w

theorem getNextTask_effect {e : EdgeId} {clock : ComparisonClock} {w w' : World} {task : TaskPtr}
    (h : getNextTask e clock w = some (w', task)) :
    w' = w ∧ task = none ∨
      ∃ queue, w' = w.modifyNode e (fun node => { node with taskQueue := queue }) ∧
        (w.node e).taskQueue.Perm (task :: queue) := by
  unfold getNextTask at h
  split_ifs at h with hmore hfifo
  · cases h
    cases hqueue : (w.node e).taskQueue with
    | nil => simp [EdgeNode.hasTasksInQueue, hqueue] at hmore
    | cons task rest =>
        refine Or.inr ⟨rest, ?_, ?_⟩
        · simp only [World.modifyNode, EdgeNode.dequeueTask, hqueue]
        · simp only [EdgeNode.dequeueTask, hqueue]
          exact .refl _
  · obtain ⟨i, hi, hnext⟩ := Option.map_eq_some_iff.mp h
    cases hnext
    have hlt := select_lt hi
    refine Or.inr ⟨_, rfl, ?_⟩
    rw [List.getElem?_eq_getElem hlt, Option.getD_some]
    exact (List.getElem_cons_eraseIdx_perm hlt).symm
  · cases h
    exact Or.inl ⟨rfl, rfl⟩

section Execution

variable (e : EdgeId) (input : WorkerInput) (t : TaskRef) (w : World)

theorem simulateTaskExecution_stages :
    (fun s : World × ExecStage => execStep e input s.1 t s.2)^[11] (w, .begin) =
      (simulateTaskExecution e input t w, .returned) := by
  simp only [Function.iterate_succ, Function.iterate_zero, Function.comp_apply, execStep, id_eq,
    simulateTaskExecution]
  rfl

theorem simulateTaskExecution_stable : Stable w (simulateTaskExecution e input t w) := by
  constructor <;>
    simp only [simulateTaskExecution, World.modifyDatabase_fleet, World.modifyDatabase_workload,
      World.modifyDatabase_taskCounter, World.modifyExecutor_fleet, World.modifyExecutor_workload,
      World.modifyExecutor_taskCounter, World.modifyNode_fleet, World.modifyNode_workload,
      World.modifyNode_taskCounter, World.modifyTask_fleet, World.modifyTask_workload,
      World.modifyTask_taskCounter]

theorem simulateTaskExecution_node : (simulateTaskExecution e input t w).node =
    (w.modifyNode e (EdgeNode.deallocateResources (w.demand t))).node := by
  simp only [simulateTaskExecution, World.modifyDatabase_node, World.modifyExecutor_node,
    World.modifyNode, World.modifyTask_node]

theorem simulateTaskExecution_task : ∃ status : TaskStatus, status.finished = true ∧
    (simulateTaskExecution e input t w).task =
      Function.update w.task t (((w.task t).setCompletionTime input.now).setStatus status) := by
  have hfinished (verdict : Verdict) : verdict.status.finished = true := by
    unfold Verdict.status
    split <;> rfl
  refine ⟨_, hfinished ⟨input.estimatedMs, !(((w.task t).setStatus .running).isDeadlineExceeded
    (w.workload t) input.now)⟩, ?_⟩
  simp only [simulateTaskExecution, World.modifyDatabase_task, World.modifyExecutor_task,
    World.modifyNode_task, World.modifyTask, Function.update_self, Function.update_idem]
  rfl

end Execution

end EdgeAllocator.Controller
