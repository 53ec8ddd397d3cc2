import EdgeAllocator.Drain
import EdgeAllocator.Live

/-! `main` without `--web`: it empties the tables once and then runs one experiment,
or with `--compare` one for each strategy, each on a fleet of its own. -/
namespace EdgeAllocator.Simulator

open Foundation Scheduler Executor Allocator Allocation Pipeline

structure SimulationConfig where
  edgeNodeCount : Nat := 10
  taskCount : Nat := 10000
  strategy : String := "multi_constraint"
  scheduling : String := "priority_based"
  runComparison : Bool := false

def strategyFromString (name : String) : AllocationStrategy :=
  if name = "round_robin" then .roundRobin
  else if name = "least_load" then .leastLoad
  else if name = "priority_based" then .priorityBased
  else .multiConstraint

def schedulingFromString (name : String) : SchedulingStrategy :=
  if name = "fifo" then .fifo
  else if name = "edf" then .earliestDeadlineFirst
  else if name = "round_robin" then .roundRobinTimeSlice
  else .priorityBased

def kAllStrategies : List AllocationStrategy :=
  [.roundRobin, .leastLoad, .priorityBased, .multiConstraint]

def SimulationConfig.strategies (config : SimulationConfig) : List AllocationStrategy :=
  if config.runComparison then kAllStrategies else [strategyFromString config.strategy]

/-- The three distributions of `createEdgeNodes`. A draw from one of them reads the
generator and leaves it in another state. -/
structure Distributions (G : Type) where
  ram : G → ℚ × G
  bandwidth : G → ℚ × G
  latency : G → Int × G

variable {G : Type}

def edgeName (i : Nat) : EdgeId :=
  "E" ++ ((if i + 1 < 10 then "0" else "") ++ Nat.repr (i + 1))

def drawCapacity (distributions : Distributions G) (generator : G) : ResourceCapacity × G :=
  let (ramMb, generator) := distributions.ram generator
  let (bandwidthMbps, generator) := distributions.bandwidth generator
  let (latencyMs, generator) := distributions.latency generator
  (⟨amounts 100 ramMb bandwidthMbps, latencyMs⟩, generator)

def createEdgeNodes (distributions : Distributions G) (count : Nat) (generator : G) :
    List (EdgeId × ResourceCapacity) × G :=
  (List.range count).foldl (fun (nodes, generator) i =>
    let (capacity, generator) := drawCapacity distributions generator
    (nodes ++ [(edgeName i, capacity)], generator)) ([], generator)

theorem edgeName_number (i : Nat) : Nat.ofDigitChars 10 (edgeName i).toList.tail 0 = i + 1 := by
  unfold edgeName
  rw [String.toList_append, String.toList_append, Nat.toList_repr]
  split
  · exact Nat.ofDigitChars_ten_toDigits
  · exact Nat.ofDigitChars_ten_toDigits

theorem edgeName_injective : Function.Injective edgeName := by
  intro i j h
  have hnumber := edgeName_number i
  rw [h, edgeName_number j] at hnumber
  omega

theorem edgeName_ne (i : Nat) : edgeName i ≠ "" := by
  intro h
  have hnumber := edgeName_number i
  rw [h] at hnumber
  cases hnumber

def registry : Nat → Fleet
  | 0 => .empty
  | count + 1 => (registry count).register (edgeName count) (edgeName_ne count)

def capacityOf (nodes : List (EdgeId × ResourceCapacity)) (e : EdgeId) : ResourceCapacity :=
  ((nodes.find? fun node => node.1 = e).map Prod.snd).getD ⟨0, 0⟩

def constructExperiment (config : SimulationConfig) (workload : TaskRef → TaskRequirements)
    (strategy : AllocationStrategy) (nodes : List (EdgeId × ResourceCapacity))
    (database : Database) : Experiment.State where
  pipe :=
    { world := { World.boot (registry config.edgeNodeCount) (capacityOf nodes) workload strategy
        (schedulingFromString config.scheduling) with database := database } }
  taskCount := config.taskCount
  edges := nodes.map Prod.fst

inductive Phase where
  | starting
  | between (todo : List AllocationStrategy)
  | running (strategy : AllocationStrategy) (todo : List AllocationStrategy)
      (experiment : Experiment.State)

structure Entry where
  row : AllocationRow
  used : AllocationStrategy

/-- `database` is the one between two experiments; in an experiment it is part of
the experiment's world. `result` is the local variable of `runExperiment` with the
task it is for. The last three are read by no step: the fleets built so far and
the rows that the last experiment wrote. -/
structure State (G : Type) where
  config : SimulationConfig
  workload : TaskRef → TaskRequirements
  generator : G
  database : Database := {}
  allocations : List AllocationRow := []
  phase : Phase := .starting
  result : Option (TaskRef × AllocationResult) := none
  fleets : List (List (EdgeId × ResourceCapacity)) := []
  written : List Entry := []
  executed : List ExecutionRow := []

inductive Label where
  | advance
  | experiment (label : Experiment.Label)

/-- The result that the main thread's next step writes a row for. -/
def recording (experiment : Experiment.State) (result : Option (TaskRef × AllocationResult)) :
    Experiment.Label → Option (TaskRef × AllocationResult)
  | .main _ =>
      match experiment.main, experiment.pipe.producer with
      | .producing _, .idle => result
      | _, _ => none
  | .work _ _ => none

/-- `result` after the step: `allocateTaskWithRetry` may return in it. -/
def resultAfter (experiment : Experiment.State) (result : Option (TaskRef × AllocationResult)) :
    Experiment.Label → Option (TaskRef × AllocationResult)
  | .main _ =>
      match experiment.main, experiment.pipe.producer with
      | .producing _, .idle => none
      | .producing _, .allocating call (.returned result) => some (call.task, result)
      | _, _ => result
  | .work _ _ => result

def allocationRow (config : SimulationConfig) : TaskRef × AllocationResult → AllocationRow
  | (t, result) =>
      if result.success then .allocated t result.edgeId result.score config.strategy
      else .failed t result.reason

def saves : WorkerPc → Option ExecutionRow
  | .executing t (.persistExecution verdict) => some ⟨t, verdict.estimatedMs, verdict.metDeadline⟩
  | _ => none

def saving (experiment : Experiment.State) : Experiment.Label → Option ExecutionRow
  | .work e _ => saves (experiment.pipe.workers e)
  | .main _ => none

namespace State

def entries (s : State G) (experiment : Experiment.State) (label : Experiment.Label) :
    List Entry :=
  (recording experiment s.result label).toList.map fun result =>
    ⟨allocationRow s.config result, experiment.pipe.world.allocator.strategy⟩

def follow (s : State G) (experiment : Experiment.State) (label : Experiment.Label)
    (phase : Phase) : State G :=
  { s with
    phase := phase
    result := resultAfter experiment s.result label
    allocations := s.allocations ++ (s.entries experiment label).map Entry.row
    written := s.written ++ s.entries experiment label
    executed := s.executed ++ (saving experiment label).toList }

/-- `createEdgeNodes` draws from the generator that the previous experiment left. -/
def begin (distributions : Distributions G) (strategy : AllocationStrategy)
    (todo : List AllocationStrategy) (s : State G) : State G :=
  let (nodes, generator) := createEdgeNodes distributions s.config.edgeNodeCount s.generator
  { s with
    generator := generator
    phase := .running strategy todo
      (constructExperiment s.config s.workload strategy nodes s.database)
    result := none
    fleets := s.fleets ++ [nodes]
    written := []
    executed := [] }

def reset (s : State G) : State G :=
  { s with database := {}, allocations := [], phase := .between s.config.strategies }

end State

def step (distributions : Distributions G) (s : State G) : Label → Option (State G)
  | .advance =>
      match s.phase with
      | .starting => some s.reset
      | .between [] => none
      | .between (strategy :: todo) => some (s.begin distributions strategy todo)
      | .running _ todo experiment =>
          match experiment.main with
          | .finished _ => some { s with
              database := experiment.pipe.world.database, phase := .between todo }
          | _ => none
  | .experiment label =>
      match s.phase with
      | .running strategy todo experiment =>
          (Experiment.step experiment label).map fun next =>
            s.follow experiment label (.running strategy todo next)
      | _ => none

/-- The tables may hold the rows of an earlier process. -/
structure Initial (seed : G) (s : State G) : Prop where
  generator : s.generator = seed
  phase : s.phase = .starting
  fleets : s.fleets = []
  written : s.written = []
  executed : s.executed = []

def machine (distributions : Distributions G) (seed : G) : Machine (State G) Label :=
  ⟨Initial seed, step distributions⟩

inductive Move (distributions : Distributions G) (s : State G) : Label → State G → Prop where
  | reset (h : s.phase = .starting) : Move distributions s .advance s.reset
  | begin {strategy : AllocationStrategy} {todo : List AllocationStrategy}
      (h : s.phase = .between (strategy :: todo)) :
      Move distributions s .advance (s.begin distributions strategy todo)
  | finish {strategy : AllocationStrategy} {todo : List AllocationStrategy}
      {experiment : Experiment.State} {drained : Bool}
      (h : s.phase = .running strategy todo experiment) (hmain : experiment.main = .finished drained) :
      Move distributions s .advance { s with
        database := experiment.pipe.world.database, phase := .between todo }
  | follow {strategy : AllocationStrategy} {todo : List AllocationStrategy}
      {experiment next : Experiment.State} {label : Experiment.Label}
      (h : s.phase = .running strategy todo experiment)
      (hstep : Experiment.step experiment label = some next) :
      Move distributions s (.experiment label)
        (s.follow experiment label (.running strategy todo next))

theorem step_move {distributions : Distributions G} {s s' : State G} {label : Label}
    (h : step distributions s label = some s') : Move distributions s label s' := by
  cases label with
  | advance =>
      simp only [step] at h
      split at h
      · cases h
        exact .reset ‹_›
      · cases h
      · cases h
        exact .begin ‹_›
      · split at h
        · cases h
          exact .finish ‹_› ‹_›
        · cases h
  | experiment label =>
      simp only [step] at h
      split at h
      · obtain ⟨next, hstep, hnext⟩ := Option.map_eq_some_iff.mp h
        cases hnext
        exact .follow ‹_› hstep
      · cases h

def skipNode (distributions : Distributions G) (generator : G) : G :=
  (drawCapacity distributions generator).2

theorem createEdgeNodes_eq (distributions : Distributions G) (count : Nat) (generator : G) :
    createEdgeNodes distributions count generator =
      ((List.range count).map fun i => (edgeName i,
        (drawCapacity distributions ((skipNode distributions)^[i] generator)).1),
        (skipNode distributions)^[count] generator) := by
  induction count with
  | zero => rfl
  | succ count ih =>
      unfold createEdgeNodes at ih ⊢
      rw [List.range_succ, List.foldl_append, ih, List.map_append, Function.iterate_succ_apply']
      rfl

theorem registry_perm (count : Nat) :
    (registry count).ids.Perm ((List.range count).map edgeName) := by
  induction count with
  | zero => exact .refl _
  | succ count ih =>
      have hfresh : edgeName count ∉ (registry count).ids := by
        rw [ih.mem_iff, List.mem_map]
        rintro ⟨i, hi, hname⟩
        have hlt := List.mem_range.mp hi
        rw [edgeName_injective hname] at hlt
        omega
      rw [List.range_succ, List.map_append]
      exact (Fleet.register_perm _ hfresh).trans
        ((ih.cons _).trans (List.perm_append_singleton _ _).symm)

theorem constructExperiment_initial (config : SimulationConfig)
    (workload : TaskRef → TaskRequirements) (strategy : AllocationStrategy)
    (distributions : Distributions G) (generator : G) (database : Database) :
    Experiment.Initial (constructExperiment config workload strategy
      (createEdgeNodes distributions config.edgeNodeCount generator).1 database) where
  pipe :=
    { node := fun e => ⟨_, rfl⟩
      taskCounter := rfl
      executor := rfl
      allocator := rfl
      producer := rfl
      workers := fun _ => rfl
      control := rfl
      log := rfl }
  edges := by
    rw [createEdgeNodes_eq]
    show (((List.range config.edgeNodeCount).map _).map Prod.fst).Perm _
    rw [List.map_map]
    exact (registry_perm config.edgeNodeCount).symm
  main := rfl

end EdgeAllocator.Simulator
