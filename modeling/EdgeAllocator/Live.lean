import EdgeAllocator.Capacity
import EdgeAllocator.Tally

/-! `LiveRuntime`: the processing thread over the pipeline, the threads of the
HTTP clients that reconfigure it or read its configuration, and the thread that
starts and stops it. -/
namespace EdgeAllocator.Live

open Foundation Scheduler Executor Allocator Allocation Pipeline

structure SimulationConfig where
  taskCount : Nat
  automaticMode : Bool
  strategy : String
  scheduling : String

def allocationFromString (value : String) : Option AllocationStrategy :=
  if value = "round_robin" then some .roundRobin
  else if value = "least_load" then some .leastLoad
  else if value = "priority_based" then some .priorityBased
  else if value = "multi_constraint" then some .multiConstraint
  else none

def schedulingFromString (value : String) : Option SchedulingStrategy :=
  if value = "fifo" then some .fifo
  else if value = "priority_based" then some .priorityBased
  else if value = "edf" then some .earliestDeadlineFirst
  else if value = "round_robin" then some .roundRobinTimeSlice
  else none

def allocationToString : AllocationStrategy → String
  | .roundRobin => "round_robin"
  | .leastLoad => "least_load"
  | .priorityBased => "priority_based"
  | .multiConstraint => "multi_constraint"

def schedulingToString : SchedulingStrategy → String
  | .fifo => "fifo"
  | .priorityBased => "priority_based"
  | .earliestDeadlineFirst => "edf"
  | .roundRobinTimeSlice => "round_robin"

def allocationLabel : AllocationStrategy → String
  | .roundRobin => "Round Robin"
  | .leastLoad => "Least Load"
  | .priorityBased => "Priority Based"
  | .multiConstraint => "Multi-Constraint"

def schedulingLabel : SchedulingStrategy → String
  | .fifo => "FIFO"
  | .priorityBased => "Priority Based"
  | .earliestDeadlineFirst => "EDF (Earliest Deadline First)"
  | .roundRobinTimeSlice => "Round Robin"

/-- The object that `configuration` fills in. -/
structure ConfigurationItem where
  automatic : Bool
  requestedAllocationStrategy : String
  requestedSchedulingAlgorithm : String
  allocationStrategy : String := ""
  allocationStrategyLabel : String := ""
  schedulingAlgorithm : String := ""
  schedulingAlgorithmLabel : String := ""
  deriving DecidableEq

@[simp] theorem allocationFromString_toString (strategy : AllocationStrategy) :
    allocationFromString (allocationToString strategy) = some strategy := by
  cases strategy <;> decide

@[simp] theorem schedulingFromString_toString (strategy : SchedulingStrategy) :
    schedulingFromString (schedulingToString strategy) = some strategy := by
  cases strategy <;> decide

def recommendedAllocation (averageCpu : ℚ) : AllocationStrategy :=
  if 70 ≤ averageCpu then .leastLoad else .multiConstraint

def recommendedScheduling (averageCpu : ℚ) : SchedulingStrategy :=
  if 60 ≤ averageCpu then .earliestDeadlineFirst else .priorityBased

inductive ChoosePc where
  | readUsage (todo : List EdgeId) (cpuTotal : ℚ)
  | lock (averageCpu : ℚ)
  | setAllocation (averageCpu : ℚ)
  | setScheduling (averageCpu : ℚ)
  | unlock
  | returned

inductive ReportPc where
  | lock
  | readConfig
  | allocationStrategy (item : ConfigurationItem)
  | allocationStrategyLabel (item : ConfigurationItem)
  | schedulingAlgorithm (item : ConfigurationItem)
  | schedulingAlgorithmLabel (item : ConfigurationItem)
  | unlock (item : ConfigurationItem)
  | returned (item : ConfigurationItem)

/-- Where a call of `applyConfiguration`, or of `configuration`, stands. The error
text is the one that the caller receives. -/
inductive ClientPc where
  | idle
  | autoLock
  | autoSet
  | autoUnlock
  | autoChoose (pc : ChoosePc)
  | manualLock (allocation scheduling : String)
  | validate (allocation scheduling : String)
  | setAllocation (allocation : AllocationStrategy) (scheduling : SchedulingStrategy)
  | setScheduling (allocation : AllocationStrategy) (scheduling : SchedulingStrategy)
  | setAutomatic (allocation : AllocationStrategy) (scheduling : SchedulingStrategy)
  | nameAllocation (allocation : AllocationStrategy) (scheduling : SchedulingStrategy)
  | nameScheduling (allocation : AllocationStrategy) (scheduling : SchedulingStrategy)
  | unlock (result : Except String Unit)
  | returned (result : Except String Unit)
  | reporting (pc : ReportPc)

def ClientPc.isReporting : ClientPc → Bool
  | .reporting _ => true
  | _ => false

/-- Where `processingLoop` stands. `drained` tells whether the drain loop ended
because neither a queued nor an active task was seen. -/
inductive ProcessingPc where
  | notStarted
  | loopHead (i : Nat)
  | checkAutomatic (i : Nat)
  | choosing (i : Nat) (pc : ChoosePc)
  | create (i : Nat)
  | countGenerated (i : Nat)
  | lockConfiguration (i : Nat)
  | allocating (i : Nat)
  | unlockConfiguration (i : Nat)
  | drainTest
  | polling (todo : List EdgeId)
  | checkActive
  | napping
  | completing (drained : Bool)
  | clearRunning (drained : Bool)
  | exited (drained : Bool)

inductive MainPc where
  | idle
  | clearStop
  | clearComplete
  | startExecutor
  | spawning
  | launch
  | joinProcessing
  | stopExecutor
  | joinWorkers
  | clearRunning
  deriving DecidableEq

structure State where
  pipe : Pipeline.State
  edges : List EdgeId
  config : SimulationConfig
  configurationMutex : Option Thread := none
  processing : ProcessingPc := .notStarted
  clients : Nat → ClientPc := fun _ => .idle
  main : MainPc := .idle
  running : Bool := false
  stopRequested : Bool := false
  processingComplete : Bool := false
  generatedTasks : Nat := 0

structure ProcessInput where
  now : Int := 0
  deadlinePassed : Bool := false

inductive Label where
  | start
  | stop
  | main
  | process (input : ProcessInput)
  | work (e : EdgeId) (input : WorkerInput)
  | apply (k : Nat) (automatic : Bool) (allocation scheduling : String)
  | report (k : Nat)
  | client (k : Nat)

namespace State

def drive (s : State) (label : Pipeline.Label) : Option State :=
  (Pipeline.step s.pipe label).map fun pipe => { s with pipe := pipe }

def lockConfiguration (me : Thread) (s : State) : Option State :=
  if s.configurationMutex = none then some { s with configurationMutex := some me } else none

def unlockConfiguration (s : State) : State := { s with configurationMutex := none }

def mapConfig (f : SimulationConfig → SimulationConfig) (s : State) : State :=
  { s with config := f s.config }

def getAllocation (s : State) : Option AllocationStrategy :=
  if s.pipe.world.allocator.strategyMutex = none then some s.pipe.world.allocator.strategy
  else none

def getScheduling (s : State) : Option SchedulingStrategy :=
  if s.pipe.world.scheduler.strategyMutex = none then some s.pipe.world.scheduler.strategy
  else none

end State

def chooseEntry (s : State) : ChoosePc :=
  if s.edges = [] then .returned else .readUsage s.edges 0

def cpuShare (node : EdgeNode) : ℚ :=
  if 0 < node.capacity.amounts .cpu then
    node.currentUsage .cpu / node.capacity.amounts .cpu * 100
  else 0

def chooseStep (me : Thread) (s : State) : ChoosePc → Option (State × ChoosePc)
  | .readUsage (e :: todo) cpuTotal =>
      some (s, .readUsage todo (cpuTotal + cpuShare (s.pipe.world.node e)))
  | .readUsage [] cpuTotal => some (s, .lock (cpuTotal / s.edges.length))
  | .lock averageCpu => (s.lockConfiguration me).map fun s => (s, .setAllocation averageCpu)
  | .setAllocation averageCpu =>
      (s.drive (.setAllocation (recommendedAllocation averageCpu))).map fun s =>
        (s, .setScheduling averageCpu)
  | .setScheduling averageCpu =>
      (s.drive (.setScheduling (recommendedScheduling averageCpu))).map fun s => (s, .unlock)
  | .unlock => some (s.unlockConfiguration, .returned)
  | .returned => none

def reportStep (me : Thread) (s : State) : ReportPc → Option (State × ReportPc)
  | .lock => (s.lockConfiguration me).map fun s => (s, .readConfig)
  | .readConfig =>
      some (s, .allocationStrategy
        { automatic := s.config.automaticMode
          requestedAllocationStrategy :=
            if s.config.automaticMode then "auto" else s.config.strategy
          requestedSchedulingAlgorithm :=
            if s.config.automaticMode then "auto" else s.config.scheduling })
  | .allocationStrategy item =>
      s.getAllocation.map fun strategy =>
        (s, .allocationStrategyLabel
          { item with allocationStrategy := allocationToString strategy })
  | .allocationStrategyLabel item =>
      s.getAllocation.map fun strategy =>
        (s, .schedulingAlgorithm { item with allocationStrategyLabel := allocationLabel strategy })
  | .schedulingAlgorithm item =>
      s.getScheduling.map fun strategy =>
        (s, .schedulingAlgorithmLabel
          { item with schedulingAlgorithm := schedulingToString strategy })
  | .schedulingAlgorithmLabel item =>
      s.getScheduling.map fun strategy =>
        (s, .unlock { item with schedulingAlgorithmLabel := schedulingLabel strategy })
  | .unlock item => some (s.unlockConfiguration, .returned item)
  | .returned _ => none

def clientStep (me : Thread) (s : State) : ClientPc → Option (State × ClientPc)
  | .idle => none
  | .autoLock => (s.lockConfiguration me).map fun s => (s, .autoSet)
  | .autoSet => some (s.mapConfig fun config => { config with automaticMode := true }, .autoUnlock)
  | .autoUnlock => some (s.unlockConfiguration, .autoChoose (chooseEntry s))
  | .autoChoose .returned => some (s, .returned (.ok ()))
  | .autoChoose pc => (chooseStep me s pc).map fun (s, pc) => (s, .autoChoose pc)
  | .manualLock allocation scheduling =>
      (s.lockConfiguration me).map fun s => (s, .validate allocation scheduling)
  | .validate allocation scheduling =>
      match allocationFromString allocation, schedulingFromString scheduling with
      | none, _ => some (s, .unlock (.error ("Unsupported allocation strategy: " ++ allocation)))
      | some _, none =>
          some (s, .unlock (.error ("Unsupported scheduling algorithm: " ++ scheduling)))
      | some allocation, some scheduling => some (s, .setAllocation allocation scheduling)
  | .setAllocation allocation scheduling =>
      (s.drive (.setAllocation allocation)).map fun s => (s, .setScheduling allocation scheduling)
  | .setScheduling allocation scheduling =>
      (s.drive (.setScheduling scheduling)).map fun s => (s, .setAutomatic allocation scheduling)
  | .setAutomatic allocation scheduling =>
      some (s.mapConfig fun config => { config with automaticMode := false },
        .nameAllocation allocation scheduling)
  | .nameAllocation allocation scheduling =>
      some (s.mapConfig fun config => { config with strategy := allocationToString allocation },
        .nameScheduling allocation scheduling)
  | .nameScheduling _ scheduling =>
      some (s.mapConfig fun config => { config with scheduling := schedulingToString scheduling },
        .unlock (.ok ()))
  | .unlock result => some (s.unlockConfiguration, .returned result)
  | .returned _ => some (s, .idle)
  | .reporting (.returned _) => some (s, .idle)
  | .reporting pc => (reportStep me s pc).map fun (s, pc) => (s, .reporting pc)

def processStep (input : ProcessInput) (s : State) : Option State :=
  match s.processing with
  | .notStarted => none
  | .loopHead i =>
      some { s with processing :=
        if i < s.config.taskCount ∧ s.stopRequested = false then .checkAutomatic i
        else .drainTest }
  | .checkAutomatic i =>
      some { s with processing :=
        if s.config.automaticMode then .choosing i (chooseEntry s) else .create i }
  | .choosing i .returned => some { s with processing := .create i }
  | .choosing i pc =>
      (chooseStep .producer s pc).map fun (s, pc) => { s with processing := .choosing i pc }
  | .create i =>
      (s.drive (.produce (.withRetry 200) input.now)).map fun s =>
        { s with processing := .countGenerated i }
  | .countGenerated i =>
      some { s with generatedTasks := i + 1, processing := .lockConfiguration i }
  | .lockConfiguration i =>
      (s.lockConfiguration .producer).map fun s => { s with processing := .allocating i }
  | .allocating i =>
      match s.pipe.producer with
      | .idle => some { s with processing := .unlockConfiguration i }
      | _ => s.drive (.producer {})
  | .unlockConfiguration i => some { s.unlockConfiguration with processing := .loopHead (i + 1) }
  | .drainTest =>
      some { s with processing :=
        if s.stopRequested || input.deadlinePassed then .completing false else .polling s.edges }
  | .polling (e :: todo) =>
      some { s with processing :=
        if (s.pipe.world.node e).hasTasksInQueue then .napping else .polling todo }
  | .polling [] => some { s with processing := .checkActive }
  | .checkActive =>
      some { s with processing :=
        if s.pipe.world.executor.activeTasks = [] then .completing true else .napping }
  | .napping => some { s with processing := .drainTest }
  | .completing drained =>
      some { s with processingComplete := true, processing := .clearRunning drained }
  | .clearRunning drained => some { s with running := false, processing := .exited drained }
  | .exited _ => none

/-- The thread that called `start` or `stop` goes on. Assigning the new thread to
`processing_thread_` while that is joinable would end the process. -/
def mainStep (s : State) : Option State :=
  match s.main with
  | .idle => none
  | .clearStop => some { s with stopRequested := false, main := .clearComplete }
  | .clearComplete => some { s with processingComplete := false, main := .startExecutor }
  | .startExecutor => (s.drive .start).map fun s => { s with main := .spawning }
  | .spawning =>
      match s.pipe.control with
      | .idle => some { s with main := .launch }
      | _ => s.drive .control
  | .launch =>
      match s.processing with
      | .notStarted => some { s with processing := .loopHead 0, main := .idle }
      | _ => none
  | .joinProcessing =>
      match s.processing with
      | .notStarted => some { s with main := .stopExecutor }
      | .exited _ => some { s with processing := .notStarted, main := .stopExecutor }
      | _ => none
  | .stopExecutor => (s.drive .stop).map fun s => { s with main := .joinWorkers }
  | .joinWorkers =>
      match s.pipe.control with
      | .idle => some { s with main := .clearRunning }
      | _ => s.drive .control
  | .clearRunning => some { s with running := false, main := .idle }

def step (s : State) : Label → Option State
  | .start =>
      match s.main with
      | .idle => some (if s.running then s else { s with running := true, main := .clearStop })
      | _ => none
  | .stop =>
      match s.main with
      | .idle => some { s with stopRequested := true, main := .joinProcessing }
      | _ => none
  | .main => mainStep s
  | .process input => processStep input s
  | .work e input => s.drive (.work e input)
  | .apply k automatic allocation scheduling =>
      match s.clients k with
      | .idle =>
          let entry := if automatic then .autoLock else .manualLock allocation scheduling
          some { s with clients := Function.update s.clients k entry }
      | _ => none
  | .report k =>
      match s.clients k with
      | .idle => some { s with clients := Function.update s.clients k (.reporting .lock) }
      | _ => none
  | .client k =>
      (clientStep (.client k) s (s.clients k)).map fun (s', pc) =>
        { s' with clients := Function.update s'.clients k pc }

/-- The state that `initialize` leaves: the strategies are those that `config_`
names, or in automatic mode the recommendation for idle nodes. -/
structure Initial (s : State) : Prop where
  pipe : Pipeline.Initial s.pipe
  edges : s.edges.Perm s.pipe.world.fleet.ids
  nonempty : s.edges ≠ []
  allocationMutex : s.pipe.world.allocator.strategyMutex = none
  schedulingMutex : s.pipe.world.scheduler.strategyMutex = none
  allocation : if s.config.automaticMode then
      s.pipe.world.allocator.strategy = recommendedAllocation 0
    else allocationFromString s.config.strategy = some s.pipe.world.allocator.strategy
  scheduling : if s.config.automaticMode then
      s.pipe.world.scheduler.strategy = recommendedScheduling 0
    else schedulingFromString s.config.scheduling = some s.pipe.world.scheduler.strategy
  configurationMutex : s.configurationMutex = none
  processing : s.processing = .notStarted
  clients : ∀ k, s.clients k = .idle
  main : s.main = .idle
  running : s.running = false
  stopRequested : s.stopRequested = false
  processingComplete : s.processingComplete = false

def machine : Machine State Label := ⟨Initial, step⟩

theorem drive_some {s t : State} {label : Pipeline.Label} (h : s.drive label = some t) :
    ∃ pipe, Pipeline.step s.pipe label = some pipe ∧ t = { s with pipe := pipe } := by
  obtain ⟨pipe, hpipe, hnext⟩ := Option.map_eq_some_iff.mp h
  exact ⟨pipe, hpipe, hnext.symm⟩

theorem lockConfiguration_some {s t : State} {me : Thread}
    (h : s.lockConfiguration me = some t) :
    s.configurationMutex = none ∧ t = { s with configurationMutex := some me } := by
  unfold State.lockConfiguration at h
  split_ifs at h with hfree
  exact ⟨hfree, (Option.some.inj h).symm⟩

theorem getAllocation_pair {Pc : Type} {s t : State} {next : AllocationStrategy → Pc} {pc : Pc}
    (h : (s.getAllocation.map fun strategy => (s, next strategy)) = some (t, pc)) :
    t = s ∧ pc = next s.pipe.world.allocator.strategy := by
  obtain ⟨strategy, hget, heq⟩ := Option.map_eq_some_iff.mp h
  unfold State.getAllocation at hget
  split_ifs at hget
  cases hget
  cases heq
  exact ⟨rfl, rfl⟩

theorem getScheduling_pair {Pc : Type} {s t : State} {next : SchedulingStrategy → Pc} {pc : Pc}
    (h : (s.getScheduling.map fun strategy => (s, next strategy)) = some (t, pc)) :
    t = s ∧ pc = next s.pipe.world.scheduler.strategy := by
  obtain ⟨strategy, hget, heq⟩ := Option.map_eq_some_iff.mp h
  unfold State.getScheduling at hget
  split_ifs at hget
  cases hget
  cases heq
  exact ⟨rfl, rfl⟩

theorem drive_pair {Pc : Type} {s t : State} {label : Pipeline.Label} {next pc : Pc}
    (h : ((s.drive label).map fun s => (s, next)) = some (t, pc)) :
    ∃ pipe, Pipeline.step s.pipe label = some pipe ∧ t = { s with pipe := pipe } ∧ pc = next := by
  obtain ⟨u, hdrive, heq⟩ := Option.map_eq_some_iff.mp h
  obtain ⟨pipe, hpipe, hu⟩ := drive_some hdrive
  cases heq
  exact ⟨pipe, hpipe, hu, rfl⟩

theorem lock_pair {Pc : Type} {s t : State} {me : Thread} {next pc : Pc}
    (h : ((s.lockConfiguration me).map fun s => (s, next)) = some (t, pc)) :
    s.configurationMutex = none ∧ t = { s with configurationMutex := some me } ∧ pc = next := by
  obtain ⟨u, hlock, heq⟩ := Option.map_eq_some_iff.mp h
  obtain ⟨hfree, hu⟩ := lockConfiguration_some hlock
  cases heq
  exact ⟨hfree, hu, rfl⟩

def Drives (kind : Pipeline.Label → Prop) (s t : Pipeline.State) : Prop :=
  t = s ∨ ∃ label, kind label ∧ Pipeline.step s label = some t

theorem Drives.mono {kind kind' : Pipeline.Label → Prop} {s t : Pipeline.State}
    (h : Drives kind s t) (hkind : ∀ label, kind label → kind' label) : Drives kind' s t :=
  h.imp_right fun ⟨label, hlabel, hstep⟩ => ⟨label, hkind label hlabel, hstep⟩

theorem chooseStep_drives {me : Thread} {s t : State} {pc pc' : ChoosePc}
    (h : chooseStep me s pc = some (t, pc')) : Drives NotByProducer s.pipe t.pipe := by
  cases pc with
  | readUsage todo cpuTotal => cases todo <;> cases h <;> exact Or.inl rfl
  | lock averageCpu =>
      obtain ⟨-, rfl, -⟩ := lock_pair h
      exact Or.inl rfl
  | setAllocation averageCpu =>
      obtain ⟨pipe, hpipe, rfl, -⟩ := drive_pair h
      exact Or.inr ⟨.setAllocation _, rfl, hpipe⟩
  | setScheduling averageCpu =>
      obtain ⟨pipe, hpipe, rfl, -⟩ := drive_pair h
      exact Or.inr ⟨.setScheduling _, rfl, hpipe⟩
  | unlock =>
      cases h
      exact Or.inl rfl
  | returned => cases h

/-- A call that reconfigures leaves the threads and the flags alone. -/
structure SameThreads (s t : State) : Prop where
  clients : t.clients = s.clients
  processing : t.processing = s.processing
  edges : t.edges = s.edges
  stopRequested : t.stopRequested = s.stopRequested
  processingComplete : t.processingComplete = s.processingComplete

theorem chooseStep_frame {me : Thread} {s t : State} {pc pc' : ChoosePc}
    (h : chooseStep me s pc = some (t, pc')) :
    ∃ pipe owner, t = { s with pipe := pipe, configurationMutex := owner } := by
  cases pc with
  | readUsage todo cpuTotal => cases todo <;> cases h <;> exact ⟨_, _, rfl⟩
  | lock averageCpu =>
      obtain ⟨-, rfl, -⟩ := lock_pair h
      exact ⟨_, _, rfl⟩
  | setAllocation averageCpu =>
      obtain ⟨pipe, -, rfl, -⟩ := drive_pair h
      exact ⟨_, _, rfl⟩
  | setScheduling averageCpu =>
      obtain ⟨pipe, -, rfl, -⟩ := drive_pair h
      exact ⟨_, _, rfl⟩
  | unlock =>
      cases h
      exact ⟨_, _, rfl⟩
  | returned => cases h

theorem chooseStep_threads {me : Thread} {s t : State} {pc pc' : ChoosePc}
    (h : chooseStep me s pc = some (t, pc')) : SameThreads s t := by
  obtain ⟨pipe, owner, rfl⟩ := chooseStep_frame h
  exact ⟨rfl, rfl, rfl, rfl, rfl⟩

theorem autoChoose_some {me : Thread} {s t : State} {pc : ChoosePc} {pc' : ClientPc}
    (h : clientStep me s (.autoChoose pc) = some (t, pc')) :
    pc = .returned ∧ t = s ∧ pc' = .returned (.ok ()) ∨
      ∃ next, chooseStep me s pc = some (t, next) ∧ pc' = .autoChoose next := by
  have hchoose (hmap : (chooseStep me s pc).map (fun (s, pc) => (s, ClientPc.autoChoose pc)) =
      some (t, pc')) : ∃ next, chooseStep me s pc = some (t, next) ∧ pc' = .autoChoose next := by
    obtain ⟨⟨u, next⟩, hstep, hnext⟩ := Option.map_eq_some_iff.mp hmap
    cases hnext
    exact ⟨next, hstep, rfl⟩
  cases pc with
  | returned =>
      cases h
      exact Or.inl ⟨rfl, rfl, rfl⟩
  | _ => exact Or.inr (hchoose h)

theorem reportStep_frame {me : Thread} {s t : State} {pc pc' : ReportPc}
    (h : reportStep me s pc = some (t, pc')) :
    ∃ owner, t = { s with configurationMutex := owner } := by
  cases pc with
  | lock =>
      obtain ⟨-, rfl, -⟩ := lock_pair h
      exact ⟨_, rfl⟩
  | allocationStrategy item => exact ⟨_, (getAllocation_pair h).1⟩
  | allocationStrategyLabel item => exact ⟨_, (getAllocation_pair h).1⟩
  | schedulingAlgorithm item => exact ⟨_, (getScheduling_pair h).1⟩
  | schedulingAlgorithmLabel item => exact ⟨_, (getScheduling_pair h).1⟩
  | returned item => cases h
  | _ =>
      cases h
      exact ⟨_, rfl⟩

theorem reporting_some {me : Thread} {s t : State} {pc : ReportPc} {pc' : ClientPc}
    (h : clientStep me s (.reporting pc) = some (t, pc')) :
    (∃ item, pc = .returned item) ∧ t = s ∧ pc' = .idle ∨
      ∃ next, reportStep me s pc = some (t, next) ∧ pc' = .reporting next := by
  have hreport (hmap : (reportStep me s pc).map (fun (s, pc) => (s, ClientPc.reporting pc)) =
      some (t, pc')) : ∃ next, reportStep me s pc = some (t, next) ∧ pc' = .reporting next := by
    obtain ⟨⟨u, next⟩, hstep, hnext⟩ := Option.map_eq_some_iff.mp hmap
    cases hnext
    exact ⟨next, hstep, rfl⟩
  cases pc with
  | returned item =>
      cases h
      exact Or.inl ⟨⟨item, rfl⟩, rfl, rfl⟩
  | _ => exact Or.inr (hreport h)

theorem clientStep_drives {me : Thread} {s t : State} {pc pc' : ClientPc}
    (h : clientStep me s pc = some (t, pc')) : Drives NotByProducer s.pipe t.pipe := by
  cases pc with
  | idle => cases h
  | autoLock =>
      obtain ⟨-, rfl, -⟩ := lock_pair h
      exact Or.inl rfl
  | manualLock allocation scheduling =>
      obtain ⟨-, rfl, -⟩ := lock_pair h
      exact Or.inl rfl
  | autoChoose pc =>
      obtain ⟨-, rfl, -⟩ | ⟨next, hstep, -⟩ := autoChoose_some h
      · exact Or.inl rfl
      · exact chooseStep_drives hstep
  | validate allocation scheduling =>
      simp only [clientStep] at h
      split at h <;> cases h <;> exact Or.inl rfl
  | setAllocation allocation scheduling =>
      obtain ⟨pipe, hpipe, rfl, -⟩ := drive_pair h
      exact Or.inr ⟨.setAllocation _, rfl, hpipe⟩
  | setScheduling allocation scheduling =>
      obtain ⟨pipe, hpipe, rfl, -⟩ := drive_pair h
      exact Or.inr ⟨.setScheduling _, rfl, hpipe⟩
  | reporting pc =>
      obtain ⟨-, rfl, -⟩ | ⟨next, hstep, -⟩ := reporting_some h
      · exact Or.inl rfl
      · obtain ⟨owner, rfl⟩ := reportStep_frame hstep
        exact Or.inl rfl
  | _ =>
      cases h
      exact Or.inl rfl

theorem clientStep_frame {me : Thread} {s t : State} {pc pc' : ClientPc}
    (h : clientStep me s pc = some (t, pc')) :
    ∃ pipe owner config,
      t = { s with pipe := pipe, configurationMutex := owner, config := config } := by
  cases pc with
  | idle => cases h
  | autoLock =>
      obtain ⟨-, rfl, -⟩ := lock_pair h
      exact ⟨_, _, _, rfl⟩
  | manualLock allocation scheduling =>
      obtain ⟨-, rfl, -⟩ := lock_pair h
      exact ⟨_, _, _, rfl⟩
  | autoChoose pc =>
      obtain ⟨-, rfl, -⟩ | ⟨next, hstep, -⟩ := autoChoose_some h
      · exact ⟨_, _, _, rfl⟩
      · obtain ⟨pipe, owner, rfl⟩ := chooseStep_frame hstep
        exact ⟨_, _, _, rfl⟩
  | validate allocation scheduling =>
      simp only [clientStep] at h
      split at h <;> cases h <;> exact ⟨_, _, _, rfl⟩
  | setAllocation allocation scheduling =>
      obtain ⟨pipe, -, rfl, -⟩ := drive_pair h
      exact ⟨_, _, _, rfl⟩
  | setScheduling allocation scheduling =>
      obtain ⟨pipe, -, rfl, -⟩ := drive_pair h
      exact ⟨_, _, _, rfl⟩
  | reporting pc =>
      obtain ⟨-, rfl, -⟩ | ⟨next, hstep, -⟩ := reporting_some h
      · exact ⟨_, _, _, rfl⟩
      · obtain ⟨owner, rfl⟩ := reportStep_frame hstep
        exact ⟨_, _, _, rfl⟩
  | _ =>
      cases h
      exact ⟨_, _, _, rfl⟩

theorem clientStep_threads {me : Thread} {s t : State} {pc pc' : ClientPc}
    (h : clientStep me s pc = some (t, pc')) : SameThreads s t := by
  obtain ⟨pipe, owner, config, rfl⟩ := clientStep_frame h
  exact ⟨rfl, rfl, rfl, rfl, rfl⟩

inductive ProcessMove (input : ProcessInput) (s : State) : State → Prop where
  | next {pc pc' : ProcessingPc} (h : s.processing = pc)
      (hpc : ∃ i, pc = .loopHead i ∨ pc = .checkAutomatic i)
      (hpc' : (∃ i, pc' = .checkAutomatic i ∨ pc' = .create i) ∨ pc' = .drainTest ∨
        ∃ i, pc' = .choosing i (chooseEntry s)) :
      ProcessMove input s { s with processing := pc' }
  | choose {i : Nat} {pc pc' : ChoosePc} {t : State} (h : s.processing = .choosing i pc)
      (hstep : chooseStep .producer s pc = some (t, pc')) :
      ProcessMove input s { t with processing := .choosing i pc' }
  | chosen {i : Nat} (h : s.processing = .choosing i .returned) :
      ProcessMove input s { s with processing := .create i }
  | create {i : Nat} (h : s.processing = .create i) {pipe : Pipeline.State}
      (hpipe : Pipeline.step s.pipe (.produce (.withRetry 200) input.now) = some pipe) :
      ProcessMove input s { s with pipe := pipe, processing := .countGenerated i }
  | count {i : Nat} (h : s.processing = .countGenerated i) :
      ProcessMove input s { s with generatedTasks := i + 1, processing := .lockConfiguration i }
  | lock {i : Nat} (h : s.processing = .lockConfiguration i) (hfree : s.configurationMutex = none) :
      ProcessMove input s
        { s with configurationMutex := some .producer, processing := .allocating i }
  | allocate {i : Nat} (h : s.processing = .allocating i) {pipe : Pipeline.State}
      (hpipe : Pipeline.step s.pipe (.producer {}) = some pipe) :
      ProcessMove input s { s with pipe := pipe }
  | allocated {i : Nat} (h : s.processing = .allocating i) (hidle : s.pipe.producer = .idle) :
      ProcessMove input s { s with processing := .unlockConfiguration i }
  | unlock {i : Nat} (h : s.processing = .unlockConfiguration i) :
      ProcessMove input s { s with configurationMutex := none, processing := .loopHead (i + 1) }
  | round (h : s.processing = .drainTest) :
      ProcessMove input s { s with processing := .polling s.edges }
  | giveUp (h : s.processing = .drainTest)
      (hreason : s.stopRequested = true ∨ input.deadlinePassed = true) :
      ProcessMove input s { s with processing := .completing false }
  | seen {e : EdgeId} {todo : List EdgeId} (h : s.processing = .polling (e :: todo)) :
      ProcessMove input s { s with processing := .napping }
  | empty {e : EdgeId} {todo : List EdgeId} (h : s.processing = .polling (e :: todo))
      (hempty : (s.pipe.world.node e).taskQueue = []) :
      ProcessMove input s { s with processing := .polling todo }
  | polled (h : s.processing = .polling []) :
      ProcessMove input s { s with processing := .checkActive }
  | active (h : s.processing = .checkActive) :
      ProcessMove input s { s with processing := .napping }
  | drained (h : s.processing = .checkActive)
      (hactive : s.pipe.world.executor.activeTasks = []) :
      ProcessMove input s { s with processing := .completing true }
  | wake (h : s.processing = .napping) :
      ProcessMove input s { s with processing := .drainTest }
  | complete {drained : Bool} (h : s.processing = .completing drained) :
      ProcessMove input s { s with processingComplete := true, processing := .clearRunning drained }
  | leave {drained : Bool} (h : s.processing = .clearRunning drained) :
      ProcessMove input s { s with running := false, processing := .exited drained }

theorem processStep_move {input : ProcessInput} {s t : State} (h : processStep input s = some t) :
    ProcessMove input s t := by
  unfold processStep at h
  split at h
  · cases h
  · cases h
    refine .next ‹_› ⟨_, Or.inl rfl⟩ ?_
    split
    · exact Or.inl ⟨_, Or.inl rfl⟩
    · exact Or.inr (Or.inl rfl)
  · cases h
    refine .next ‹_› ⟨_, Or.inr rfl⟩ ?_
    split
    · exact Or.inr (Or.inr ⟨_, rfl⟩)
    · exact Or.inl ⟨_, Or.inr rfl⟩
  · cases h
    exact .chosen ‹_›
  · obtain ⟨⟨u, pc⟩, hstep, hnext⟩ := Option.map_eq_some_iff.mp h
    cases hnext
    exact .choose ‹_› hstep
  · obtain ⟨u, hdrive, hnext⟩ := Option.map_eq_some_iff.mp h
    obtain ⟨pipe, hpipe, rfl⟩ := drive_some hdrive
    cases hnext
    exact .create ‹_› hpipe
  · cases h
    exact .count ‹_›
  · obtain ⟨u, hlock, hnext⟩ := Option.map_eq_some_iff.mp h
    obtain ⟨hfree, rfl⟩ := lockConfiguration_some hlock
    cases hnext
    exact .lock ‹_› hfree
  · split at h
    · cases h
      exact .allocated ‹_› ‹_›
    · obtain ⟨pipe, hpipe, rfl⟩ := drive_some h
      exact .allocate ‹_› hpipe
  · cases h
    exact .unlock ‹_›
  · cases h
    split
    · exact .giveUp ‹_› (Bool.or_eq_true_iff.mp ‹_›)
    · exact .round ‹_›
  · cases h
    split
    · exact .seen ‹_›
    · rename_i hnone
      rw [Bool.not_eq_true, EdgeNode.hasTasksInQueue_eq_false] at hnone
      exact .empty ‹_› hnone
  · cases h
    exact .polled ‹_›
  · cases h
    split
    · exact .drained ‹_› ‹_›
    · exact .active ‹_›
  · cases h
    exact .wake ‹_›
  · cases h
    exact .complete ‹_›
  · cases h
    exact .leave ‹_›
  · cases h

theorem ProcessMove.drives {input : ProcessInput} {s t : State} (h : ProcessMove input s t) :
    Drives (· ≠ .fluctuate) s.pipe t.pipe := by
  cases h with
  | choose _ hstep =>
      have hdrives := (chooseStep_drives hstep).mono fun _ => NotByProducer.steady
      exact hdrives
  | create _ hpipe => exact Or.inr ⟨_, by rintro ⟨⟩, hpipe⟩
  | allocate _ hpipe => exact Or.inr ⟨_, by rintro ⟨⟩, hpipe⟩
  | _ => exact Or.inl rfl

inductive MainMove (s : State) : State → Prop where
  | clearStop (h : s.main = .clearStop) :
      MainMove s { s with stopRequested := false, main := .clearComplete }
  | clearComplete (h : s.main = .clearComplete) :
      MainMove s { s with processingComplete := false, main := .startExecutor }
  | drive {label : Pipeline.Label} {main : MainPc} {pipe : Pipeline.State}
      (hlabel : label = .start ∨ label = .stop ∨ label = .control)
      (hpipe : Pipeline.step s.pipe label = some pipe) :
      MainMove s { s with pipe := pipe, main := main }
  | next (main : MainPc) : MainMove s { s with main := main }
  | launch (h : s.main = .launch) (hjoined : s.processing = .notStarted) :
      MainMove s { s with processing := .loopHead 0, main := .idle }
  | join {drained : Bool} (h : s.main = .joinProcessing) (hexited : s.processing = .exited drained) :
      MainMove s { s with processing := .notStarted, main := .stopExecutor }
  | clearRunning (h : s.main = .clearRunning) :
      MainMove s { s with running := false, main := .idle }

theorem mainStep_move {s t : State} (h : mainStep s = some t) : MainMove s t := by
  have hdriven {label : Pipeline.Label} {main : MainPc}
      (hlabel : label = .start ∨ label = .stop ∨ label = .control)
      (hmap : ((s.drive label).map fun s => { s with main := main }) = some t) :
      MainMove s t := by
    obtain ⟨u, hdrive, hnext⟩ := Option.map_eq_some_iff.mp hmap
    obtain ⟨pipe, hpipe, rfl⟩ := drive_some hdrive
    cases hnext
    exact .drive hlabel hpipe
  have hcontrol (hdrive : s.drive .control = some t) : MainMove s t := by
    obtain ⟨pipe, hpipe, rfl⟩ := drive_some hdrive
    exact .drive (Or.inr (Or.inr rfl)) hpipe
  unfold mainStep at h
  split at h
  · cases h
  · cases h
    exact .clearStop ‹_›
  · cases h
    exact .clearComplete ‹_›
  · exact hdriven (Or.inl rfl) h
  · split at h
    · cases h
      exact .next _
    · exact hcontrol h
  · split at h
    · cases h
      exact .launch ‹_› ‹_›
    · cases h
  · split at h
    · cases h
      exact .next _
    · cases h
      exact .join ‹_› ‹_›
    · cases h
  · exact hdriven (Or.inr (Or.inl rfl)) h
  · split at h
    · cases h
      exact .next _
    · exact hcontrol h
  · cases h
    exact .clearRunning ‹_›

inductive Move (s : State) : Label → State → Prop where
  | enter {label : Label} (running stopRequested : Bool) (main : MainPc)
      (hlabel : label = .start ∨ label = .stop)
      (hstart : label = .start → stopRequested = s.stopRequested) :
      Move s label { s with running := running, stopRequested := stopRequested, main := main }
  | main {t : State} (h : MainMove s t) : Move s .main t
  | process (input : ProcessInput) {t : State} (h : ProcessMove input s t) :
      Move s (.process input) t
  | work (e : EdgeId) (input : WorkerInput) {pipe : Pipeline.State}
      (hpipe : Pipeline.step s.pipe (.work e input) = some pipe) :
      Move s (.work e input) { s with pipe := pipe }
  | apply (k : Nat) (automatic : Bool) (allocation scheduling : String) {entry : ClientPc}
      (h : s.clients k = .idle)
      (hentry : entry = .autoLock ∨ entry = .manualLock allocation scheduling) :
      Move s (.apply k automatic allocation scheduling)
        { s with clients := Function.update s.clients k entry }
  | report (k : Nat) (h : s.clients k = .idle) :
      Move s (.report k) { s with clients := Function.update s.clients k (.reporting .lock) }
  | client (k : Nat) {t : State} {pc : ClientPc}
      (h : clientStep (.client k) s (s.clients k) = some (t, pc)) :
      Move s (.client k) { t with clients := Function.update t.clients k pc }

theorem step_move {s t : State} {label : Label} (h : step s label = some t) : Move s label t := by
  cases label with
  | start =>
      simp only [step] at h
      split at h
      · cases h
        split
        · exact .enter s.running s.stopRequested s.main (Or.inl rfl) fun _ => rfl
        · exact .enter true s.stopRequested .clearStop (Or.inl rfl) fun _ => rfl
      · cases h
  | stop =>
      simp only [step] at h
      split at h
      · cases h
        exact .enter s.running true .joinProcessing (Or.inr rfl) fun hstart => (by cases hstart)
      · cases h
  | main => exact .main (mainStep_move h)
  | process input => exact .process input (processStep_move h)
  | work e input =>
      obtain ⟨pipe, hpipe, rfl⟩ := drive_some h
      exact .work e input hpipe
  | apply k automatic allocation scheduling =>
      simp only [step] at h
      split at h
      · cases h
        refine .apply k automatic allocation scheduling ‹_› ?_
        cases automatic
        · exact Or.inr rfl
        · exact Or.inl rfl
      · cases h
  | report k =>
      simp only [step] at h
      split at h
      · cases h
        exact .report k ‹_›
      · cases h
  | client k =>
      obtain ⟨⟨u, pc⟩, hstep, hnext⟩ := Option.map_eq_some_iff.mp h
      cases hnext
      exact .client k hstep

theorem MainMove.drives {s t : State} (h : MainMove s t) : Drives NotByProducer s.pipe t.pipe := by
  cases h with
  | drive hlabel hpipe =>
      refine Or.inr ⟨_, ?_, hpipe⟩
      obtain rfl | rfl | rfl := hlabel <;> rfl
  | _ => exact Or.inl rfl

theorem Move.drives {s t : State} {label : Label} (h : Move s label t) :
    Drives (· ≠ .fluctuate) s.pipe t.pipe := by
  cases h with
  | enter _ _ _ _ _ => exact Or.inl rfl
  | main hmain => exact hmain.drives.mono fun _ => NotByProducer.steady
  | process _ hprocess => exact hprocess.drives
  | work _ _ hpipe => exact Or.inr ⟨_, by rintro ⟨⟩, hpipe⟩
  | apply _ _ _ _ _ _ => exact Or.inl rfl
  | report _ _ => exact Or.inl rfl
  | client _ hclient =>
      have hdrives := (clientStep_drives hclient).mono fun _ => NotByProducer.steady
      exact hdrives

/-- The live runtime is a run of the pipeline without background load. -/
theorem Move.run {s t : State} {label : Label} (h : Move s label t) :
    Pipeline.machine.Run Steady s.pipe t.pipe := by
  obtain hsame | ⟨label, hlabel, hpipe⟩ := h.drives
  · rw [hsame]
    exact .refl _
  · exact .tail (.refl _) hlabel hpipe

theorem pipe_run {guard : State → Label → Prop} {s t : State} (h : machine.Run guard s t) :
    Pipeline.machine.Run Steady s.pipe t.pipe :=
  h.map State.pipe fun _ hstep => (step_move hstep).run

theorem pipe_reachable {guard : State → Label → Prop} {s : State}
    (h : machine.Reachable guard s) : Pipeline.machine.Reachable Machine.free s.pipe := by
  obtain ⟨start, hstart, hrun⟩ := h
  exact ⟨start.pipe, hstart.pipe, (pipe_run hrun).mono fun _ _ _ => trivial⟩

/-- The account of every node is the sum of what the tasks outstanding there
require; no release is cut off at zero; a node without such a task is unused. -/
theorem usage_eq_outstanding {start s : State} (hstart : machine.initial start)
    (hdemand : ∀ t, 0 ≤ start.pipe.world.demand t) (hrun : machine.Run Machine.free start s) :
    (∀ e, (s.pipe.world.node e).currentUsage = s.pipe.world.load (s.pipe.outstanding e)) ∧
      (∀ e t verdict, s.pipe.workers e = .executing t (.release verdict) →
        ((s.pipe.world.node e).deallocateResources (s.pipe.world.demand t)).currentUsage =
          (s.pipe.world.node e).currentUsage - s.pipe.world.demand t) ∧
      ∀ e, s.pipe.outstanding e = [] → (s.pipe.world.node e).currentUsage = 0 := by
  obtain ⟨hsound, hdemand, hledger⟩ := ledger_of_run hstart.pipe hdemand (pipe_run hrun)
  have hexact (e : EdgeId) :
      (s.pipe.world.node e).currentUsage = s.pipe.world.load (s.pipe.outstanding e) := by
    rw [hledger.exact e, World.load_perm _ (outstanding_perm hsound.reservation e)]
  refine ⟨hexact, fun e t verdict hworker => ?_, fun e hnone => ?_⟩
  · apply EdgeNode.deallocateResources_exact
    have hkept : reservation.kept (.executing t (.release verdict)) = [t] := rfl
    rw [hledger.exact e, Account.places, hworker, hkept, World.load_append, World.load_cons,
      World.load_nil, add_zero]
    exact le_add_of_nonneg_left (World.load_nonneg hdemand _)
  · rw [hexact e, hnone, World.load_nil]

def singleRuntime (automatic : Bool) (allocation : AllocationStrategy)
    (scheduling : SchedulingStrategy) : State :=
  { pipe := boot singleNode (fun _ => nodeCapacity) (fun _ => TaskProfile.ultrasonic) allocation
      scheduling
    edges := ["E01"]
    config :=
      { taskCount := 1
        automaticMode := automatic
        strategy := allocationToString allocation
        scheduling := schedulingToString scheduling } }

theorem singleRuntime_manual (allocation : AllocationStrategy)
    (scheduling : SchedulingStrategy) :
    machine.initial (singleRuntime false allocation scheduling) where
  pipe := boot_initial ..
  edges := .refl _
  nonempty := List.cons_ne_nil _ _
  allocationMutex := rfl
  schedulingMutex := rfl
  allocation := allocationFromString_toString allocation
  scheduling := schedulingFromString_toString scheduling
  configurationMutex := rfl
  processing := rfl
  clients := fun _ => rfl
  main := rfl
  running := rfl
  stopRequested := rfl
  processingComplete := rfl

def startUp : List Label := .start :: List.replicate 7 .main

def processSteps (n : Nat) : List Label := List.replicate n (.process {})

def workSteps (n : Nat) : List Label := List.replicate n (.work "E01" {})

theorem usage_eq_outstanding_single :
    let s := machine.final (singleRuntime false .roundRobin .fifo)
      (startUp ++ processSteps 21 ++ workSteps 14)
    (∀ e, (s.pipe.world.node e).currentUsage = s.pipe.world.load (s.pipe.outstanding e)) ∧
      (∀ e t verdict, s.pipe.workers e = .executing t (.release verdict) →
        ((s.pipe.world.node e).deallocateResources (s.pipe.world.demand t)).currentUsage =
          (s.pipe.world.node e).currentUsage - s.pipe.world.demand t) ∧
      ∀ e, s.pipe.outstanding e = [] → (s.pipe.world.node e).currentUsage = 0 :=
  usage_eq_outstanding (singleRuntime_manual _ _)
    (fun _ => TaskProfile.demand_nonneg TaskProfile.ultrasonic List.mem_cons_self)
    (Machine.run_final (by decide +kernel))

end EdgeAllocator.Live
