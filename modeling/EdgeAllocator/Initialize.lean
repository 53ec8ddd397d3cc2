import EdgeAllocator.CommandLine
import EdgeAllocator.Enabled
import EdgeAllocator.Schema
import EdgeAllocator.Simulator

/-! `LiveRuntime::initialize`: the checks of the configuration, the reset of the tables,
and the fleet and the devices that it builds and saves. -/
namespace EdgeAllocator.Initialize

open Foundation Schema Live CommandLine
open Simulator (Distributions drawCapacity edgeName edgeName_ne edgeName_injective registry
  registry_perm capacityOf)

variable {G : Type}

def perform (s : Store) (statement : Statement) : Store := (executeSql [statement] s).2

/-- What `makeEdges` has built so far. `monitor` is the registry of the nodes. -/
structure Made (G : Type) where
  nodes : List (EdgeId × ResourceCapacity)
  generator : G
  monitor : Fleet
  store : Store

def edgeRow (e : EdgeId) (capacity : ResourceCapacity) : Schema.EdgeNode :=
  ⟨e, capacity.amounts .cpu, capacity.amounts .ram, capacity.amounts .bandwidth,
    capacity.latencyMs⟩

/-- The loop body of `makeEdges`. -/
def makeEdge (distributions : Distributions G) (made : Made G) (i : Nat) : Made G :=
  let (capacity, generator) := drawCapacity distributions made.generator
  { nodes := made.nodes ++ [(edgeName i, capacity)]
    generator := generator
    monitor := made.monitor.register (edgeName i) (edgeName_ne i)
    store := perform made.store (.saveEdgeNode (edgeRow (edgeName i) capacity)) }

def makeEdges (distributions : Distributions G) (count : Nat) (generator : G) (s : Store) :
    Made G :=
  (List.range count).foldl (makeEdge distributions) ⟨[], generator, .empty, s⟩

def deviceTypes : List String := ["ultrasonic", "temperature", "camera", "humidity", "pressure"]

def deviceOf (i : Nat) : Device :=
  ⟨"DEV" ++ zeroFilled 4 (i + 1), deviceTypes.getD (i % deviceTypes.length) ""⟩

def makeDevices (count : Nat) (s : Store) : List Device × Store :=
  (List.range count).foldl (fun (devices, s) i =>
    (devices ++ [deviceOf i], perform s (.saveDevice (deviceOf i)))) ([], s)

/-- What `initialize` depends on beside the configuration and the tables: whether
`DatabaseManager::initialize` succeeds, the profiles that `loadProfiles` ends up
with, and the generator of `makeEdges`. -/
structure Environment (G : Type) where
  opened : Bool
  profiles : List Profile
  distributions : Distributions G
  generator : G

structure Runtime where
  config : CommandLine.SimulationConfig
  allocation : AllocationStrategy
  scheduling : SchedulingStrategy
  monitor : Fleet
  edges : List (EdgeId × ResourceCapacity)
  devices : List Device

/-- `runtime` is `none` where `initialize` returns `false`. -/
structure Initialization where
  runtime : Option Runtime
  store : Store

def averageCpu (edges : List (EdgeId × ResourceCapacity)) : ℚ :=
  (edges.map fun edge => cpuShare { capacity := edge.2 }).sum / edges.length

def chooseRecommendedConfiguration (runtime : Runtime) : Runtime :=
  if runtime.edges = [] then runtime
  else
    { runtime with
      allocation := recommendedAllocation (averageCpu runtime.edges)
      scheduling := recommendedScheduling (averageCpu runtime.edges) }

def construct (environment : Environment G) (config : CommandLine.SimulationConfig) (s : Store) :
    Initialization :=
  match Live.allocationFromString config.strategy with
  | none => ⟨none, s⟩
  | some allocation =>
      match Live.schedulingFromString config.scheduling with
      | none => ⟨none, s⟩
      | some scheduling =>
          let made := makeEdges environment.distributions config.edgeNodeCount
            environment.generator s
          let (devices, s) := makeDevices config.deviceCount made.store
          let runtime : Runtime := ⟨config, allocation, scheduling, made.monitor, made.nodes, devices⟩
          ⟨some (if config.automaticMode then chooseRecommendedConfiguration runtime else runtime), s⟩

def initializeRuntime (environment : Environment G) (config : CommandLine.SimulationConfig)
    (s : Store) : Initialization :=
  if config.deviceCount = 0 ∨ config.edgeNodeCount = 0 then ⟨none, s⟩
  else if environment.opened = false then ⟨none, s⟩
  else
    let (reset, s) := resetSimulationData s
    if reset = false then ⟨none, s⟩
    else
      construct environment config
        ((environment.profiles.map Statement.saveTaskProfile).foldl perform s)

def SameTables (s s' : Store) : Prop :=
  s'.tasks = s.tasks ∧ s'.taskAllocations = s.taskAllocations ∧
    s'.taskExecution = s.taskExecution ∧ s'.resourceHistory = s.resourceHistory ∧
    s'.edgeNodes = s.edgeNodes ∧ s'.devices = s.devices

instance (s s' : Store) : Decidable (SameTables s s') := inferInstanceAs (Decidable (_ ∧ _))

/-- A configuration that is rejected for what it says leaves the tables as they were. -/
def RejectionKeeps (environment : Environment G) (config : CommandLine.SimulationConfig)
    (s : Store) : Prop :=
  (initializeRuntime environment config s).runtime = none →
    SameTables s (initializeRuntime environment config s).store

structure Valid (config : CommandLine.SimulationConfig) : Prop where
  devices : config.deviceCount ≠ 0
  edges : config.edgeNodeCount ≠ 0
  allocation : (Live.allocationFromString config.strategy).isSome = true
  scheduling : (Live.schedulingFromString config.scheduling).isSome = true

theorem perform_of_permitted {s : Store} {statement : Statement}
    (h : statement.Permitted s) : perform s statement = statement.effect s := by
  unfold perform executeSql
  rw [if_pos h]
  rfl

theorem saveProfiles_frame (profiles : List Profile) (s : Store) :
    ∃ saved, (profiles.map Statement.saveTaskProfile).foldl perform s =
      { s with taskProfiles := saved } := by
  induction profiles generalizing s with
  | nil => exact ⟨s.taskProfiles, rfl⟩
  | cons row profiles ih =>
      have hpermitted : (Statement.saveTaskProfile row).Permitted s := trivial
      rw [List.map_cons, List.foldl_cons, perform_of_permitted hpermitted]
      obtain ⟨saved, hsaved⟩ := ih ((Statement.saveTaskProfile row).effect s)
      exact ⟨saved, hsaved⟩

section Checks

variable {environment : Environment G} {config : CommandLine.SimulationConfig} {s : Store}

theorem initializeRuntime_of_zero (h : config.deviceCount = 0 ∨ config.edgeNodeCount = 0) :
    initializeRuntime environment config s = ⟨none, s⟩ := by
  rw [initializeRuntime, if_pos h]

theorem initializeRuntime_of_counts (h : ¬ (config.deviceCount = 0 ∨ config.edgeNodeCount = 0))
    (hopened : environment.opened = true) :
    ∃ saved, initializeRuntime environment config s =
      construct environment config { taskProfiles := saved } := by
  obtain ⟨saved, hsaved⟩ := saveProfiles_frame environment.profiles
    { taskProfiles := s.taskProfiles }
  apply Exists.intro saved
  rw [initializeRuntime, if_neg h, hopened, resetSimulationData_eq]
  simp only [Bool.true_eq_false, if_false]
  rw [hsaved]

theorem construct_isSome_iff :
    (construct environment config s).runtime.isSome = true ↔
      (Live.allocationFromString config.strategy).isSome = true ∧
        (Live.schedulingFromString config.scheduling).isSome = true := by
  unfold construct
  cases Live.allocationFromString config.strategy with
  | none => simp
  | some allocation => cases Live.schedulingFromString config.scheduling <;> simp

theorem construct_of_none (h : (construct environment config s).runtime = none) :
    (construct environment config s).store = s := by
  unfold construct at h ⊢
  cases hallocation : Live.allocationFromString config.strategy with
  | none => rfl
  | some allocation =>
      cases hscheduling : Live.schedulingFromString config.scheduling with
      | none => rfl
      | some scheduling => simp [hallocation, hscheduling] at h

theorem initializeRuntime_isSome_iff (hopened : environment.opened = true) :
    (initializeRuntime environment config s).runtime.isSome = true ↔ Valid config := by
  by_cases hzero : config.deviceCount = 0 ∨ config.edgeNodeCount = 0
  · rw [initializeRuntime_of_zero hzero]
    constructor
    · intro h
      cases h
    · intro h
      exact absurd hzero (not_or.mpr ⟨h.devices, h.edges⟩)
  · obtain ⟨saved, hconstruct⟩ := initializeRuntime_of_counts (s := s) hzero hopened
    rw [hconstruct, construct_isSome_iff]
    obtain ⟨hdevices, hedges⟩ := not_or.mp hzero
    exact ⟨fun h => ⟨hdevices, hedges, h.1, h.2⟩, fun h => ⟨h.allocation, h.scheduling⟩⟩

end Checks

/-- A rejection keeps the tables if and only if a count is zero or there was nothing
in them; the names are looked up after the reset only. -/
theorem rejection_keeps_iff (environment : Environment G) (config : CommandLine.SimulationConfig)
    (s : Store) (hopened : environment.opened = true) :
    RejectionKeeps environment config s ↔
      Valid config ∨ config.deviceCount = 0 ∨ config.edgeNodeCount = 0 ∨ SameTables s {} := by
  unfold RejectionKeeps
  by_cases hvalid : Valid config
  · have hsome := (initializeRuntime_isSome_iff (s := s) hopened).mpr hvalid
    constructor
    · exact fun _ => Or.inl hvalid
    · intro _ hnone
      rw [hnone] at hsome
      cases hsome
  · have hnone : (initializeRuntime environment config s).runtime = none := by
      rw [← Option.not_isSome_iff_eq_none, initializeRuntime_isSome_iff hopened]
      exact hvalid
    by_cases hzero : config.deviceCount = 0 ∨ config.edgeNodeCount = 0
    · rw [initializeRuntime_of_zero hzero]
      constructor
      · intro _
        obtain hdevices | hedges := hzero
        · exact Or.inr (Or.inl hdevices)
        · exact Or.inr (Or.inr (Or.inl hedges))
      · exact fun _ _ => ⟨rfl, rfl, rfl, rfl, rfl, rfl⟩
    · obtain ⟨saved, hconstruct⟩ := initializeRuntime_of_counts (s := s) hzero hopened
      obtain ⟨hdevices, hedges⟩ := not_or.mp hzero
      rw [hconstruct] at hnone ⊢
      rw [construct_of_none hnone]
      simp only [hvalid, hdevices, hedges, hnone, false_or, forall_true_left]
      exact Iff.rfl

section Fleet

variable {distributions : Distributions G} {generator : G} {s : Store}

theorem makeEdges_succ (count : Nat) :
    makeEdges distributions (count + 1) generator s =
      makeEdge distributions (makeEdges distributions count generator s) count := by
  unfold makeEdges
  rw [List.range_succ, List.foldl_append]
  rfl

theorem makeEdges_names (distributions : Distributions G) (generator : G) (s : Store)
    (count : Nat) :
    (makeEdges distributions count generator s).nodes.map Prod.fst =
        (List.range count).map edgeName ∧
      (makeEdges distributions count generator s).monitor = registry count := by
  induction count with
  | zero => exact ⟨rfl, rfl⟩
  | succ count ih =>
      obtain ⟨hnodes, hmonitor⟩ := ih
      rw [makeEdges_succ, List.range_succ, List.map_append, ← hnodes]
      unfold makeEdge
      rw [List.map_append, hmonitor]
      exact ⟨rfl, rfl⟩

theorem makeEdges_store (distributions : Distributions G) (generator : G) (s : Store)
    (count : Nat) :
    ∃ saved, (makeEdges distributions count generator s).store = { s with edgeNodes := saved } ∧
      ∀ e, e ∈ saved.map Schema.EdgeNode.edgeId ↔
        e ∈ s.edgeNodes.map Schema.EdgeNode.edgeId ∨ e ∈ (List.range count).map edgeName := by
  induction count with
  | zero => exact ⟨s.edgeNodes, rfl, fun e => by simp⟩
  | succ count ih =>
      obtain ⟨saved, hstore, hkeys⟩ := ih
      rw [makeEdges_succ]
      unfold makeEdge
      rw [hstore]
      refine ⟨_, rfl, fun e => ?_⟩
      rw [mem_replace_keys, hkeys, List.range_succ, List.map_append, List.mem_append, or_assoc]
      exact Iff.or Iff.rfl (Iff.or Iff.rfl List.mem_singleton.symm)

theorem makeDevices_succ (count : Nat) :
    makeDevices (count + 1) s =
      ((makeDevices count s).1 ++ [deviceOf count],
        perform (makeDevices count s).2 (.saveDevice (deviceOf count))) := by
  unfold makeDevices
  rw [List.range_succ, List.foldl_append]
  rfl

theorem makeDevices_eq (count : Nat) :
    (makeDevices count s).1 = (List.range count).map deviceOf := by
  induction count with
  | zero => rfl
  | succ count ih =>
      rw [makeDevices_succ, List.range_succ, List.map_append, ← ih]
      rfl

theorem makeDevices_store (s : Store) (count : Nat) :
    ∃ saved, (makeDevices count s).2 = { s with devices := saved } ∧
      ∀ id, id ∈ saved.map Device.deviceId ↔
        id ∈ s.devices.map Device.deviceId ∨
          id ∈ ((List.range count).map deviceOf).map Device.deviceId := by
  induction count with
  | zero => exact ⟨s.devices, rfl, fun id => by simp⟩
  | succ count ih =>
      obtain ⟨saved, hstore, hkeys⟩ := ih
      rw [makeDevices_succ, hstore]
      refine ⟨_, rfl, fun id => ?_⟩
      rw [mem_replace_keys, hkeys, List.range_succ, List.map_append, List.map_append,
        List.mem_append, or_assoc]
      exact Iff.or Iff.rfl (Iff.or Iff.rfl List.mem_singleton.symm)

end Fleet

theorem averageCpu_eq (edges : List (EdgeId × ResourceCapacity)) : averageCpu edges = 0 := by
  unfold averageCpu
  have hshare : (edges.map fun edge => cpuShare { capacity := edge.2 }) =
      edges.map fun _ => (0 : ℚ) := by
    apply List.map_congr_left
    intro edge _
    unfold cpuShare
    split
    · simp
    · rfl
  rw [hshare]
  simp

/-- What an accepted configuration leaves in the members and in the tables. -/
structure Installed (config : CommandLine.SimulationConfig) (runtime : Runtime) (s : Store) :
    Prop where
  sameConfig : runtime.config = config
  monitor : runtime.monitor = registry config.edgeNodeCount
  edges : runtime.edges.map Prod.fst = (List.range config.edgeNodeCount).map edgeName
  devices : runtime.devices = (List.range config.deviceCount).map deviceOf
  allocation : if config.automaticMode then runtime.allocation = recommendedAllocation 0
    else Live.allocationFromString config.strategy = some runtime.allocation
  scheduling : if config.automaticMode then runtime.scheduling = recommendedScheduling 0
    else Live.schedulingFromString config.scheduling = some runtime.scheduling
  edgeRows : ∀ e ∈ runtime.edges.map Prod.fst, e ∈ s.edgeNodes.map Schema.EdgeNode.edgeId
  deviceRows : ∀ device ∈ runtime.devices, device.deviceId ∈ s.devices.map Device.deviceId
  empty : s.tasks = [] ∧ s.taskAllocations = [] ∧ s.taskExecution = [] ∧ s.resourceHistory = []

theorem chooseRecommendedConfiguration_eq {runtime : Runtime} (h : runtime.edges ≠ []) :
    chooseRecommendedConfiguration runtime =
      { runtime with
        allocation := recommendedAllocation 0
        scheduling := recommendedScheduling 0 } := by
  rw [chooseRecommendedConfiguration, if_neg h, averageCpu_eq]

theorem makeEdges_ne_nil (distributions : Distributions G) (generator : G) (s : Store)
    {count : Nat} (h : count ≠ 0) : (makeEdges distributions count generator s).nodes ≠ [] := by
  obtain ⟨hnames, -⟩ := makeEdges_names distributions generator s count
  intro hnil
  have hlength := congrArg List.length hnames
  rw [hnil, List.length_map, List.length_map, List.length_range] at hlength
  exact h hlength.symm

theorem construct_eq_some {environment : Environment G} {config : CommandLine.SimulationConfig}
    {s : Store} {runtime : Runtime}
    (h : (construct environment config s).runtime = some runtime) :
    ∃ allocation scheduling made,
      Live.allocationFromString config.strategy = some allocation ∧
        Live.schedulingFromString config.scheduling = some scheduling ∧
        made = makeEdges environment.distributions config.edgeNodeCount environment.generator s ∧
        (construct environment config s).store = (makeDevices config.deviceCount made.store).2 ∧
        ∃ named : Runtime,
          named = ⟨config, allocation, scheduling, made.monitor, made.nodes,
            (makeDevices config.deviceCount made.store).1⟩ ∧
          runtime = if config.automaticMode then chooseRecommendedConfiguration named else named := by
  unfold construct at h ⊢
  cases hallocation : Live.allocationFromString config.strategy with
  | none => simp [hallocation] at h
  | some allocation =>
      cases hscheduling : Live.schedulingFromString config.scheduling with
      | none => simp [hallocation, hscheduling] at h
      | some scheduling =>
          simp only [hallocation, hscheduling, Option.some.injEq] at h
          exact ⟨allocation, scheduling, _, rfl, rfl, rfl, rfl, _, rfl, h.symm⟩

theorem installed_of_construct {environment : Environment G}
    {config : CommandLine.SimulationConfig} {profiles : List Profile} {runtime : Runtime}
    (hedges : config.edgeNodeCount ≠ 0)
    (h : (construct environment config { taskProfiles := profiles }).runtime = some runtime) :
    Installed config runtime (construct environment config { taskProfiles := profiles }).store := by
  obtain ⟨allocation, scheduling, made, hallocation, hscheduling, hmade, hstore, named, rfl,
    rfl⟩ := construct_eq_some h
  have hnonempty := makeEdges_ne_nil environment.distributions environment.generator
    { taskProfiles := profiles } hedges
  obtain ⟨hnames, hmonitor⟩ := makeEdges_names environment.distributions environment.generator
    { taskProfiles := profiles } config.edgeNodeCount
  obtain ⟨nodes, hnodes, hedgeKeys⟩ := makeEdges_store environment.distributions
    environment.generator { taskProfiles := profiles } config.edgeNodeCount
  rw [← hmade] at hnonempty hnames hmonitor hnodes
  obtain ⟨devices, hdevices, hdeviceKeys⟩ := makeDevices_store made.store config.deviceCount
  have hedgeRows : ∀ e ∈ made.nodes.map Prod.fst, e ∈ nodes.map Schema.EdgeNode.edgeId := by
    intro e he
    rw [hnames] at he
    exact (hedgeKeys e).mpr (Or.inr he)
  have hdeviceRows : ∀ device ∈ (List.range config.deviceCount).map deviceOf,
      device.deviceId ∈ devices.map Device.deviceId :=
    fun device hdevice => (hdeviceKeys _).mpr (Or.inr (List.mem_map_of_mem hdevice))
  rw [hstore, hdevices, hnodes, makeDevices_eq, chooseRecommendedConfiguration_eq hnonempty]
  cases hautomatic : config.automaticMode with
  | true =>
      exact ⟨rfl, hmonitor, hnames, rfl, by simp [hautomatic], by simp [hautomatic], hedgeRows,
        hdeviceRows, rfl, rfl, rfl, rfl⟩
  | false =>
      exact ⟨rfl, hmonitor, hnames, rfl, by simp [hautomatic, hallocation],
        by simp [hautomatic, hscheduling], hedgeRows, hdeviceRows, rfl, rfl, rfl, rfl⟩

theorem installed_of_some {environment : Environment G}
    {config : CommandLine.SimulationConfig} {s : Store} {runtime : Runtime}
    (h : (initializeRuntime environment config s).runtime = some runtime)
    (hopened : environment.opened = true) :
    config.edgeNodeCount ≠ 0 ∧
      Installed config runtime (initializeRuntime environment config s).store := by
  have hvalid : Valid config := (initializeRuntime_isSome_iff hopened).mp (by rw [h]; rfl)
  have hcounts : ¬ (config.deviceCount = 0 ∨ config.edgeNodeCount = 0) :=
    not_or.mpr ⟨hvalid.devices, hvalid.edges⟩
  obtain ⟨saved, hconstruct⟩ := initializeRuntime_of_counts (s := s) hcounts hopened
  rw [hconstruct] at h ⊢
  exact ⟨hvalid.edges, installed_of_construct hvalid.edges h⟩

def Runtime.live (runtime : Runtime) (workload : TaskRef → TaskRequirements) : Live.State where
  pipe := Pipeline.boot runtime.monitor (capacityOf runtime.edges) workload runtime.allocation
    runtime.scheduling
  edges := runtime.edges.map Prod.fst
  config :=
    { taskCount := runtime.config.taskCount
      automaticMode := runtime.config.automaticMode
      strategy := runtime.config.strategy
      scheduling := runtime.config.scheduling }

namespace Installed

variable {config : CommandLine.SimulationConfig} {runtime : Runtime} {s : Store}

theorem consistent (h : Installed config runtime s) : s.Consistent := by
  obtain ⟨htasks, hallocations, hexecution, hhistory⟩ := h.empty
  constructor
  · rw [htasks]
    exact .nil
  · rw [hallocations]
    exact .nil
  · rw [hexecution]
    exact .nil
  · rw [hhistory]
    exact .nil

/-- The runs of the live runtime start from what `initialize` leaves. -/
theorem live (h : Installed config runtime s) (hedges : config.edgeNodeCount ≠ 0)
    (workload : TaskRef → TaskRequirements) : Live.machine.initial (runtime.live workload) where
  pipe := Pipeline.boot_initial ..
  edges := by
    show (runtime.edges.map Prod.fst).Perm runtime.monitor.ids
    rw [h.edges, h.monitor]
    exact (registry_perm _).symm
  nonempty := by
    show runtime.edges.map Prod.fst ≠ []
    rw [h.edges]
    simp [hedges]
  allocationMutex := rfl
  schedulingMutex := rfl
  allocation := by
    simp only [Runtime.live, h.sameConfig]
    exact h.allocation
  scheduling := by
    simp only [Runtime.live, h.sameConfig]
    exact h.scheduling
  configurationMutex := rfl
  processing := rfl
  clients := fun _ => rfl
  main := rfl
  running := rfl
  stopRequested := rfl
  processingComplete := rfl

end Installed

section Provision

variable {distributions : Distributions G} {environment : Environment G}
  {config : CommandLine.SimulationConfig} {s : Store} {runtime : Runtime}

/-- The bounds that `makeEdges` gives its distributions. -/
structure InRange (distributions : Distributions G) : Prop where
  ram : ∀ generator, 4096 ≤ (distributions.ram generator).1 ∧
    (distributions.ram generator).1 ≤ 32768
  bandwidth : ∀ generator, 50 ≤ (distributions.bandwidth generator).1 ∧
    (distributions.bandwidth generator).1 ≤ 200
  latency : ∀ generator, 8 ≤ (distributions.latency generator).1 ∧
    (distributions.latency generator).1 ≤ 40

def Ample (capacity : ResourceCapacity) : Prop :=
  0 ≤ capacity.amounts ∧ capacity.amounts .cpu ≤ 100 ∧ capacity.latencyMs ≤ 40

theorem ample_of_draw (h : InRange distributions) (generator : G) :
    Ample (drawCapacity distributions generator).1 := by
  refine ⟨fun r => ?_, le_rfl, (h.latency _).2⟩
  cases r with
  | cpu => exact show (0 : ℚ) ≤ 100 by norm_num
  | ram => exact le_trans (by norm_num) (h.ram generator).1
  | bandwidth => exact le_trans (by norm_num) (h.bandwidth _).1

theorem makeEdges_ample (h : InRange distributions) (generator : G) (s : Store) (count : Nat) :
    ∀ node ∈ (makeEdges distributions count generator s).nodes, Ample node.2 := by
  induction count with
  | zero => exact fun node hnode => absurd hnode List.not_mem_nil
  | succ count ih =>
      rw [makeEdges_succ]
      intro node hnode
      rcases List.mem_append.mp hnode with hold | hnew
      · exact ih node hold
      · rw [List.mem_singleton.mp hnew]
        exact ample_of_draw h _

theorem ample_of_find {nodes : List (EdgeId × ResourceCapacity)} (e : EdgeId)
    (h : ∀ node ∈ nodes, Ample node.2) : Ample (capacityOf nodes e) := by
  unfold capacityOf
  cases hfind : nodes.find? fun node => node.1 = e with
  | none =>
      exact ⟨fun _ => le_rfl, show (0 : ℚ) ≤ 100 by norm_num, show (0 : Int) ≤ 40 by decide⟩
  | some node => exact h node (List.mem_of_find?_eq_some hfind)

/-- What `initialize` builds is what the results on the live runtime ask of its nodes. -/
theorem provisioned_of_some (h : (initializeRuntime environment config s).runtime = some runtime)
    (hopened : environment.opened = true) (hrange : InRange environment.distributions)
    {workload : TaskRef → TaskRequirements} (hdemand : ∀ t, 0 ≤ (workload t).demand) :
    Pipeline.Provisioned (runtime.live workload).pipe.world := by
  have hcounts : ¬ (config.deviceCount = 0 ∨ config.edgeNodeCount = 0) := by
    have hvalid : Valid config := (initializeRuntime_isSome_iff hopened).mp (by rw [h]; rfl)
    exact not_or.mpr ⟨hvalid.devices, hvalid.edges⟩
  obtain ⟨saved, hconstruct⟩ := initializeRuntime_of_counts (s := s) hcounts hopened
  rw [hconstruct] at h
  obtain ⟨allocation, scheduling, made, -, -, rfl, -, named, hnamed, rfl⟩ :=
    construct_eq_some h
  have hedges := makeEdges_ample hrange environment.generator { taskProfiles := saved }
    config.edgeNodeCount
  have hsame : (if config.automaticMode then chooseRecommendedConfiguration named
      else named).edges =
        (makeEdges environment.distributions config.edgeNodeCount environment.generator
          { taskProfiles := saved }).nodes := by
    rw [hnamed]
    unfold chooseRecommendedConfiguration
    split_ifs <;> rfl
  have hample (e : EdgeId) : Ample (capacityOf (if config.automaticMode then
      chooseRecommendedConfiguration named else named).edges e) := by
    rw [hsame]
    exact ample_of_find e hedges
  exact
    { capacity := fun e => (hample e).1
      cpu := fun e => lt_of_le_of_lt (hample e).2.1 (by decide +kernel)
      latency := fun e => lt_of_le_of_lt (Int.cast_le.mpr (hample e).2.2) (by decide +kernel)
      demand := hdemand
      weights := Score.positiveWeights_default }

end Provision

def steadyDistributions : Distributions Unit :=
  ⟨fun generator => (8192, generator), fun generator => (100, generator),
    fun generator => (10, generator)⟩

def steadyEnvironment : Environment Unit := ⟨true, [], steadyDistributions, ()⟩

def oneTask : Store where
  devices := [⟨"DEV0001", "ultrasonic"⟩]
  tasks := [⟨"T000001", "DEV0001", "ultrasonic", 10, 50, 1, 100, 2, 3, ""⟩]

theorem rejection_keeps_iff_noDevice :
    RejectionKeeps steadyEnvironment { deviceCount := 0 } oneTask ↔
      Valid { deviceCount := 0 } ∨ 0 = 0 ∨ 10 = 0 ∨ SameTables oneTask {} :=
  rejection_keeps_iff steadyEnvironment { deviceCount := 0 } oneTask rfl

/-- The scheduling algorithm is no allocation strategy; the task has gone. -/
theorem rejection_deletes :
    (initializeRuntime steadyEnvironment { strategy := "edf" } oneTask).runtime = none ∧
      ¬ RejectionKeeps steadyEnvironment { strategy := "edf" } oneTask := by
  have hnone :
      (initializeRuntime steadyEnvironment { strategy := "edf" } oneTask).runtime = none := by
    rfl
  refine ⟨hnone, fun h => ?_⟩
  exact absurd (h hnone) (by decide)

end EdgeAllocator.Initialize
