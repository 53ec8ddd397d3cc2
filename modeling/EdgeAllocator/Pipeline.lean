import EdgeAllocator.Allocation
import EdgeAllocator.Foundation.Machine

/-! The shipped pipeline: one producer thread that creates, allocates and
schedules tasks, one worker thread for each edge, the thread that starts and
stops the executor, and threads that switch the strategies. `runExperiment` and
`LiveRuntime` are this machine driven in a certain order. -/
namespace EdgeAllocator.Pipeline

open Foundation Scheduler Executor Allocator Allocation

/-- What has happened so far: reservations made, executions begun, resources
given back, executions counted, executions returned from. No step reads it. -/
structure Log where
  granted : List (TaskRef × EdgeId) := []
  begun : List (TaskRef × EdgeId) := []
  released : List (TaskRef × EdgeId) := []
  counted : List (TaskRef × EdgeId) := []
  finished : List (TaskRef × EdgeId) := []

def tasksOn (e : EdgeId) (events : List (TaskRef × EdgeId)) : List TaskRef :=
  (events.filter fun event => event.2 = e).map Prod.fst

inductive ProducerPc where
  | idle
  | allocating (call : AllocCall) (pc : AllocPc)
  | scheduling (t : TaskRef) (e : EdgeId) (pc : SchedulePc)
  | fluctuating (todo : List EdgeId)

inductive ControlPc where
  | idle
  | spawning (todo : List EdgeId)
  | joining (todo : List EdgeId)

structure State where
  world : World
  producer : ProducerPc := .idle
  workers : EdgeId → WorkerPc := fun _ => .notStarted
  control : ControlPc := .idle
  log : Log := {}

inductive Label where
  /-- Create the next task, save it and call the allocator with it. -/
  | produce (kind : AllocKind) (now : Int)
  /-- The next step of the call the producer is in. -/
  | producer (draws : EdgeNode.Draws)
  /-- Call `updateResourceMetrics`. -/
  | fluctuate
  | work (e : EdgeId) (input : WorkerInput)
  | setAllocation (strategy : AllocationStrategy)
  | setScheduling (strategy : SchedulingStrategy)
  | start
  | stop
  | control

def Label.byProducer : Label → Bool
  | .produce _ _ | .producer _ | .fluctuate => true
  | _ => false

def Log.grant (t : TaskRef) (edges : List EdgeId) (log : Log) : Log :=
  { log with granted := log.granted ++ edges.map fun e => (t, e) }

def Log.work (e : EdgeId) (pc : WorkerPc) (log : Log) : Log :=
  { log with
    begun := log.begun ++ pc.begins.map fun t => (t, e)
    released := log.released ++ pc.releases.map fun t => (t, e)
    counted := log.counted ++ pc.counts.map fun t => (t, e)
    finished := log.finished ++ pc.finishes.map fun t => (t, e) }

theorem Log.work_finished {e : EdgeId} {pc : WorkerPc} {log : Log} (h : pc.finishes = []) :
    (log.work e pc).finished = log.finished := by
  rw [Log.work, h, List.map_nil, List.append_nil]

def createTask (now : Int) (w : World) : World :=
  { (w.modifyTask w.taskCounter fun _ => { creationTime := now }).modifyDatabase
      (Database.saveTask w.taskCounter .created) with
    taskCounter := w.taskCounter + 1 }

def produceStep (draws : EdgeNode.Draws) (s : State) : Option State :=
  match s.producer with
  | .idle => none
  | .allocating call (.returned result) =>
      some { s with producer :=
        if result.success then .scheduling call.task result.edgeId .lock else .idle }
  | .allocating call pc =>
      (allocStep .producer call s.world pc).map fun (w, pc') =>
        { s with
          world := w, producer := .allocating call pc', log := s.log.grant call.task pc.grants }
  | .scheduling _ _ .returned => some { s with producer := .idle }
  | .scheduling t e pc =>
      (scheduleStep .producer e t s.world pc).map fun (w, pc') =>
        { s with world := w, producer := .scheduling t e pc' }
  | .fluctuating [] => some { s with producer := .idle }
  | .fluctuating (e :: todo) =>
      some { s with
        world := if (s.world.node e).isAvailable then
          s.world.modifyNode e (EdgeNode.simulateResourceFluctuation draws) else s.world
        producer := .fluctuating todo }

/-- `start` assigns a new thread to each slot of `execution_threads_`; assigning
to a slot whose thread is joinable would terminate the process. -/
def controlStep (s : State) : Option State :=
  match s.control with
  | .idle => none
  | .spawning [] => some { s with control := .idle }
  | .spawning (e :: todo) =>
      match s.workers e with
      | .notStarted => some { s with
          workers := Function.update s.workers e .loopHead, control := .spawning todo }
      | _ => none
  | .joining [] => some { s with workers := fun _ => .notStarted, control := .idle }
  | .joining (e :: todo) =>
      match s.workers e with
      | .exited => some { s with control := .joining todo }
      | _ => none

def setRunning (running : Bool) (executor : TaskExecutor) : TaskExecutor :=
  { executor with isRunning := running }

def step (s : State) : Label → Option State
  | .produce kind now =>
      match s.producer with
      | .idle => some { s with
          world := createTask now s.world
          producer := .allocating ⟨s.world.taskCounter, kind⟩ .lock }
      | _ => none
  | .producer draws => produceStep draws s
  | .fluctuate =>
      match s.producer with
      | .idle => some { s with producer := .fluctuating s.world.fleet.ids }
      | _ => none
  | .work e input =>
      (workerStep e input s.world (s.workers e)).map fun (w, pc') =>
        { s with
          world := w
          workers := Function.update s.workers e pc'
          log := s.log.work e (s.workers e) }
  | .setAllocation strategy =>
      if s.world.allocator.strategyMutex = none then
        some { s with world := s.world.modifyAllocator fun allocator =>
          { allocator with strategy := strategy } }
      else none
  | .setScheduling strategy =>
      if s.world.scheduler.strategyMutex = none then
        some { s with world := s.world.modifyScheduler fun scheduler =>
          { scheduler with strategy := strategy } }
      else none
  | .start =>
      match s.control with
      | .idle =>
          if s.world.executor.isRunning then some s
          else some { s with
            world := s.world.modifyExecutor (setRunning true)
            control := .spawning s.world.fleet.ids }
      | _ => none
  | .stop =>
      match s.control with
      | .idle =>
          if s.world.executor.isRunning then some { s with
            world := s.world.modifyExecutor (setRunning false)
            control := .joining s.world.fleet.ids }
          else some s
      | _ => none
  | .control => controlStep s

structure Initial (s : State) : Prop where
  node : ∀ e, ∃ capacity, s.world.node e = { capacity := capacity }
  taskCounter : s.world.taskCounter = 0
  executor : s.world.executor = {}
  allocator : s.world.allocator.successfulAllocations = 0
  producer : s.producer = .idle
  workers : ∀ e, s.workers e = .notStarted
  control : s.control = .idle
  log : s.log = {}

def machine : Machine State Label := ⟨Initial, step⟩

def boot (fleet : Fleet) (capacity : EdgeId → ResourceCapacity)
    (workload : TaskRef → TaskRequirements) (allocation : AllocationStrategy)
    (scheduling : SchedulingStrategy) : State :=
  { world := World.boot fleet capacity workload allocation scheduling }

theorem boot_initial (fleet : Fleet) (capacity : EdgeId → ResourceCapacity)
    (workload : TaskRef → TaskRequirements) (allocation : AllocationStrategy)
    (scheduling : SchedulingStrategy) :
    Initial (boot fleet capacity workload allocation scheduling) where
  node := fun e => ⟨capacity e, rfl⟩
  taskCounter := rfl
  executor := rfl
  allocator := rfl
  producer := rfl
  workers := fun _ => rfl
  control := rfl
  log := rfl

def bootSingle (workload : TaskRef → TaskRequirements) (scheduling : SchedulingStrategy) : State :=
  boot singleNode (fun _ => nodeCapacity) workload .roundRobin scheduling

theorem bootSingle_capacity (workload : TaskRef → TaskRequirements)
    (scheduling : SchedulingStrategy) (e : EdgeId) :
    0 ≤ ((bootSingle workload scheduling).world.node e).capacity.amounts :=
  show ∀ r, 0 ≤ nodeCapacity.amounts r by decide +kernel

theorem bootSingle_demand {workload : TaskRef → TaskRequirements}
    (h : ∀ t, workload t ∈ TaskProfile.profiles) (scheduling : SchedulingStrategy) (t : TaskRef) :
    0 ≤ (bootSingle workload scheduling).world.demand t :=
  TaskProfile.demand_nonneg _ (h t)

def handOver : List Label := .produce (.withRetry 200) 0 :: List.replicate 15 (.producer {})

inductive Move (s : State) : Label → State → Prop where
  | produce (kind : AllocKind) (now : Int) (h : s.producer = .idle) :
      Move s (.produce kind now) { s with
        world := createTask now s.world
        producer := .allocating ⟨s.world.taskCounter, kind⟩ .lock }
  | alloc (draws : EdgeNode.Draws) {call : AllocCall} {pc pc' : AllocPc} {w : World}
      (hpc : s.producer = .allocating call pc)
      (h : allocStep .producer call s.world pc = some (w, pc')) :
      Move s (.producer draws) { s with
        world := w, producer := .allocating call pc', log := s.log.grant call.task pc.grants }
  | allocated (draws : EdgeNode.Draws) {call : AllocCall} {result : AllocationResult}
      (hpc : s.producer = .allocating call (.returned result)) (h : result.success = true) :
      Move s (.producer draws)
        { s with producer := .scheduling call.task result.edgeId .lock }
  | refused (draws : EdgeNode.Draws) {call : AllocCall} {result : AllocationResult}
      (hpc : s.producer = .allocating call (.returned result)) (h : result.success = false) :
      Move s (.producer draws) { s with producer := .idle }
  | schedule (draws : EdgeNode.Draws) {t : TaskRef} {e : EdgeId} {pc pc' : SchedulePc} {w : World}
      (hpc : s.producer = .scheduling t e pc)
      (h : scheduleStep .producer e t s.world pc = some (w, pc')) :
      Move s (.producer draws) { s with world := w, producer := .scheduling t e pc' }
  | scheduled (draws : EdgeNode.Draws) {t : TaskRef} {e : EdgeId}
      (hpc : s.producer = .scheduling t e .returned) :
      Move s (.producer draws) { s with producer := .idle }
  | fluctuate (h : s.producer = .idle) :
      Move s .fluctuate { s with producer := .fluctuating s.world.fleet.ids }
  | draw (draws : EdgeNode.Draws) {e : EdgeId} {todo : List EdgeId}
      (hpc : s.producer = .fluctuating (e :: todo)) :
      Move s (.producer draws) { s with
        world := s.world.modifyNode e (EdgeNode.simulateResourceFluctuation draws)
        producer := .fluctuating todo }
  | passOver (draws : EdgeNode.Draws) {e : EdgeId} {todo : List EdgeId}
      (hpc : s.producer = .fluctuating (e :: todo)) :
      Move s (.producer draws) { s with producer := .fluctuating todo }
  | fluctuated (draws : EdgeNode.Draws) (hpc : s.producer = .fluctuating []) :
      Move s (.producer draws) { s with producer := .idle }
  | work (e : EdgeId) (input : WorkerInput) {w : World} {pc' : WorkerPc}
      (h : workerStep e input s.world (s.workers e) = some (w, pc')) :
      Move s (.work e input) { s with
        world := w
        workers := Function.update s.workers e pc'
        log := s.log.work e (s.workers e) }
  | setAllocation (strategy : AllocationStrategy) :
      Move s (.setAllocation strategy) { s with
        world := s.world.modifyAllocator fun allocator => { allocator with strategy := strategy } }
  | setScheduling (strategy : SchedulingStrategy) :
      Move s (.setScheduling strategy) { s with
        world := s.world.modifyScheduler fun scheduler => { scheduler with strategy := strategy } }
  | stay (label : Label) (h : label = .start ∨ label = .stop) : Move s label s
  | start (h : s.control = .idle) :
      Move s .start { s with
        world := s.world.modifyExecutor (setRunning true)
        control := .spawning s.world.fleet.ids }
  | stop (h : s.control = .idle) :
      Move s .stop { s with
        world := s.world.modifyExecutor (setRunning false)
        control := .joining s.world.fleet.ids }
  | spawn {e : EdgeId} {todo : List EdgeId} (h : s.control = .spawning (e :: todo))
      (hworker : s.workers e = .notStarted) :
      Move s .control { s with
        workers := Function.update s.workers e .loopHead, control := .spawning todo }
  | spawned (h : s.control = .spawning []) : Move s .control { s with control := .idle }
  | join {e : EdgeId} {todo : List EdgeId} (h : s.control = .joining (e :: todo))
      (hworker : s.workers e = .exited) : Move s .control { s with control := .joining todo }
  | joined (h : s.control = .joining []) :
      Move s .control { s with workers := fun _ => .notStarted, control := .idle }

private theorem produceStep_move {draws : EdgeNode.Draws} {s s' : State}
    (h : produceStep draws s = some s') : Move s (.producer draws) s' := by
  unfold produceStep at h
  split at h
  · cases h
  · cases h
    rename_i call result hpc
    cases hsuccess : result.success with
    | true => exact .allocated draws hpc hsuccess
    | false => exact .refused draws hpc hsuccess
  · obtain ⟨⟨w, pc'⟩, hstep, hnext⟩ := Option.map_eq_some_iff.mp h
    cases hnext
    exact .alloc draws ‹_› hstep
  · cases h
    exact .scheduled draws ‹_›
  · obtain ⟨⟨w, pc'⟩, hstep, hnext⟩ := Option.map_eq_some_iff.mp h
    cases hnext
    exact .schedule draws ‹_› hstep
  · cases h
    exact .fluctuated draws ‹_›
  · cases h
    split
    · exact .draw draws ‹_›
    · exact .passOver draws ‹_›

private theorem controlStep_move {s s' : State} (h : controlStep s = some s') :
    Move s .control s' := by
  unfold controlStep at h
  split at h
  · cases h
  · cases h
    exact .spawned ‹_›
  · split at h
    · cases h
      exact .spawn ‹_› ‹_›
    · cases h
  · cases h
    exact .joined ‹_›
  · split at h
    · cases h
      exact .join ‹_› ‹_›
    · cases h

theorem step_move {s s' : State} {label : Label} (h : step s label = some s') :
    Move s label s' := by
  cases label with
  | produce kind now =>
      simp only [step] at h
      split at h
      · cases h
        exact .produce kind now ‹_›
      · cases h
  | producer draws => exact produceStep_move h
  | fluctuate =>
      simp only [step] at h
      split at h
      · cases h
        exact .fluctuate ‹_›
      · cases h
  | work e input =>
      obtain ⟨⟨w, pc'⟩, hstep, hnext⟩ := Option.map_eq_some_iff.mp h
      cases hnext
      exact .work e input hstep
  | setAllocation strategy =>
      simp only [step] at h
      split_ifs at h
      cases h
      exact .setAllocation strategy
  | setScheduling strategy =>
      simp only [step] at h
      split_ifs at h
      cases h
      exact .setScheduling strategy
  | start =>
      simp only [step] at h
      split at h
      · split_ifs at h <;> cases h
        · exact .stay _ (Or.inl rfl)
        · exact .start ‹_›
      · cases h
  | stop =>
      simp only [step] at h
      split at h
      · split_ifs at h <;> cases h
        · exact .stop ‹_›
        · exact .stay _ (Or.inr rfl)
      · cases h
  | control => exact controlStep_move h

def NotByProducer (label : Label) : Prop := label.byProducer = false

theorem NotByProducer.steady {label : Label} (h : NotByProducer label) : label ≠ .fluctuate := by
  rintro rfl
  cases h

theorem NotByProducer.producer {s s' : State} {label : Label} (h : NotByProducer label)
    (hstep : step s label = some s') : s'.producer = s.producer := by
  cases step_move hstep <;> first | rfl | cases h

end EdgeAllocator.Pipeline
