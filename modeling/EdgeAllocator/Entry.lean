import EdgeAllocator.Initialize

/-! The two entry points of the program: `main` past the branch for `--web`, which takes
any configuration, against `LiveRuntime::initialize`, which checks it. -/
namespace EdgeAllocator.Entry

open Foundation Schema Live Initialize
open Simulator (strategyFromString kAllStrategies)

variable {G : Type}

def createDevices (count : Nat) (s : Store) : List Device := (makeDevices count s).1

/-- `devices[i % devices.size()]`, which is undefined on an empty vector. -/
def deviceFor (devices : List Device) (i : Nat) : Option Device :=
  if devices.length = 0 then none else devices[i % devices.length]?

structure Experiment where
  allocation : AllocationStrategy
  scheduling : SchedulingStrategy
  devices : Option (List Device)

def runExperiment (config : CommandLine.SimulationConfig) (devices : List Device)
    (strategy : AllocationStrategy) : Experiment where
  allocation := strategy
  scheduling := Simulator.schedulingFromString config.scheduling
  devices := (List.range config.taskCount).mapM (deviceFor devices)

/-- The strategies of the experiments. -/
def strategies (config : CommandLine.SimulationConfig) : List AllocationStrategy :=
  if config.runComparison then kAllStrategies else [strategyFromString config.strategy]

def commandLine (environment : Environment G) (config : CommandLine.SimulationConfig) (s : Store) :
    Option (List Experiment) :=
  if environment.opened = false then none
  else if (resetSimulationData s).1 = false then none
  else some ((strategies config).map
    (runExperiment config (createDevices config.deviceCount (resetSimulationData s).2)))

/-- Both entry points take the configuration or both reject it, the experiments run
under the strategies that `initialize` installs, and no index is undefined. -/
structure Agrees (environment : Environment G) (config : CommandLine.SimulationConfig)
    (s : Store) : Prop where
  accepts : (commandLine environment config s).isSome = true ↔
    (initializeRuntime environment config s).runtime.isSome = true
  installs : ∀ experiments, commandLine environment config s = some experiments →
    ∀ runtime, (initializeRuntime environment config s).runtime = some runtime →
      ∀ experiment ∈ experiments, experiment.allocation = runtime.allocation ∧
        experiment.scheduling = runtime.scheduling
  defined : ∀ experiments, commandLine environment config s = some experiments →
    ∀ experiment ∈ experiments, experiment.devices.isSome = true

theorem strategyFromString_of_some {name : String} {strategy : AllocationStrategy}
    (h : Live.allocationFromString name = some strategy) : strategyFromString name = strategy := by
  unfold Live.allocationFromString at h
  unfold strategyFromString
  split_ifs at h ⊢ <;> cases h <;> rfl

theorem schedulingFromString_of_some {name : String} {strategy : SchedulingStrategy}
    (h : Live.schedulingFromString name = some strategy) :
    Simulator.schedulingFromString name = strategy := by
  unfold Live.schedulingFromString at h
  unfold Simulator.schedulingFromString
  split_ifs at h ⊢ <;> cases h <;> first | rfl | simp_all

theorem eq_of_allocationFromString {name : String} {strategy : AllocationStrategy}
    (h : Live.allocationFromString name = some strategy) : name = allocationToString strategy := by
  unfold Live.allocationFromString at h
  split_ifs at h <;> cases h <;> assumption

theorem eq_of_schedulingFromString {name : String} {strategy : SchedulingStrategy}
    (h : Live.schedulingFromString name = some strategy) : name = schedulingToString strategy := by
  unfold Live.schedulingFromString at h
  split_ifs at h <;> cases h <;> assumption

theorem commandLine_eq {environment : Environment G} (hopened : environment.opened = true)
    (config : CommandLine.SimulationConfig) (s : Store) :
    commandLine environment config s = some ((strategies config).map
      (runExperiment config ((List.range config.deviceCount).map deviceOf))) := by
  unfold commandLine createDevices
  rw [hopened, resetSimulationData_eq, makeDevices_eq]
  rfl

theorem runExperiment_defined (config : CommandLine.SimulationConfig) {devices : List Device}
    (strategy : AllocationStrategy) (h : devices ≠ []) :
    (runExperiment config devices strategy).devices.isSome = true := by
  have hpos : 0 < devices.length := List.length_pos_iff.mpr h
  have hindex : deviceFor devices =
      fun i => pure (devices.get ⟨i % devices.length, Nat.mod_lt i hpos⟩) := by
    funext i
    rw [deviceFor, if_neg (Nat.ne_of_gt hpos), List.getElem?_eq_getElem (Nat.mod_lt i hpos)]
    rfl
  unfold runExperiment
  simp only [hindex, List.mapM_pure]
  rfl

section Agreement

variable {environment : Environment G} {config : CommandLine.SimulationConfig} {s : Store}

/-- What both entry points run under, if they agree. -/
def Unambiguous (config : CommandLine.SimulationConfig) : Prop :=
  config.runComparison = false ∧
    (config.automaticMode = true →
      config.strategy = "multi_constraint" ∧ config.scheduling = "priority_based")

theorem strategies_eq_iff {strategy : AllocationStrategy} :
    (∀ other ∈ strategies config, other = strategy) ↔
      config.runComparison = false ∧ strategyFromString config.strategy = strategy := by
  unfold strategies
  cases config.runComparison with
  | true => cases strategy <;> simp [kAllStrategies]
  | false => simp

theorem strategies_ne_nil (config : CommandLine.SimulationConfig) :
    strategies config ≠ [] := by
  unfold strategies
  split
  · exact List.cons_ne_nil _ _
  · exact List.cons_ne_nil _ _

theorem supported_eq_iff (h : (Live.allocationFromString config.strategy).isSome = true) :
    strategyFromString config.strategy = .multiConstraint ↔
      config.strategy = "multi_constraint" := by
  obtain ⟨strategy, hstrategy⟩ := Option.isSome_iff_exists.mp h
  rw [strategyFromString_of_some hstrategy]
  constructor
  · intro heq
    rw [eq_of_allocationFromString hstrategy, heq]
    rfl
  · intro hname
    rw [hname] at hstrategy
    exact (Option.some.inj hstrategy).symm

theorem supported_scheduling_eq_iff
    (h : (Live.schedulingFromString config.scheduling).isSome = true) :
    Simulator.schedulingFromString config.scheduling = .priorityBased ↔
      config.scheduling = "priority_based" := by
  obtain ⟨strategy, hstrategy⟩ := Option.isSome_iff_exists.mp h
  rw [schedulingFromString_of_some hstrategy]
  constructor
  · intro heq
    rw [eq_of_schedulingFromString hstrategy, heq]
    rfl
  · intro hname
    rw [hname] at hstrategy
    exact (Option.some.inj hstrategy).symm

theorem installs_iff (hvalid : Valid config) {runtime : Runtime} {s' : Store}
    (h : Installed config runtime s') :
    (∀ strategy ∈ strategies config, strategy = runtime.allocation ∧
        Simulator.schedulingFromString config.scheduling = runtime.scheduling) ↔
      Unambiguous config := by
  have hsplit : (∀ strategy ∈ strategies config, strategy = runtime.allocation ∧
        Simulator.schedulingFromString config.scheduling = runtime.scheduling) ↔
      (∀ strategy ∈ strategies config, strategy = runtime.allocation) ∧
        Simulator.schedulingFromString config.scheduling = runtime.scheduling := by
    obtain ⟨first, hfirst⟩ := List.exists_mem_of_ne_nil _ (strategies_ne_nil config)
    exact ⟨fun hall => ⟨fun strategy hmem => (hall strategy hmem).1, (hall first hfirst).2⟩,
      fun hboth strategy hmem => ⟨hboth.1 strategy hmem, hboth.2⟩⟩
  have hallocation := h.allocation
  have hscheduling := h.scheduling
  rw [hsplit, strategies_eq_iff, Unambiguous, and_assoc]
  apply and_congr Iff.rfl
  cases hautomatic : config.automaticMode with
  | true =>
      rw [hautomatic, if_pos rfl] at hallocation hscheduling
      have hmulti : recommendedAllocation 0 = .multiConstraint := by decide +kernel
      have hpriority : recommendedScheduling 0 = .priorityBased := by decide +kernel
      rw [hallocation, hscheduling, hmulti, hpriority, supported_eq_iff hvalid.allocation,
        supported_scheduling_eq_iff hvalid.scheduling]
      simp
  | false =>
      rw [hautomatic, if_neg (by decide)] at hallocation hscheduling
      rw [strategyFromString_of_some hallocation, schedulingFromString_of_some hscheduling]
      simp

end Agreement

/-- The entry points agree on a configuration if and only if both counts are positive,
both names are supported, no comparison is asked for, and automatic mode names the
strategies that it starts with. -/
theorem entry_points_agree_iff (environment : Environment G)
    (config : CommandLine.SimulationConfig) (s : Store) (hopened : environment.opened = true) :
    Agrees environment config s ↔ Valid config ∧ Unambiguous config := by
  have hmain := commandLine_eq hopened config s
  have hruns (runtime : Runtime)
      (hruntime : (initializeRuntime environment config s).runtime = some runtime)
      (hvalid : Valid config) :=
    installs_iff hvalid (installed_of_some hruntime hopened).2
  constructor
  · intro h
    have hsome := h.accepts.mp (by rw [hmain]; rfl)
    have hvalid := (initializeRuntime_isSome_iff hopened).mp hsome
    obtain ⟨runtime, hruntime⟩ := Option.isSome_iff_exists.mp hsome
    apply And.intro hvalid
    rw [← hruns runtime hruntime hvalid]
    intro strategy hmem
    exact h.installs _ hmain runtime hruntime _ (List.mem_map_of_mem hmem)
  · rintro ⟨hvalid, hunambiguous⟩
    have hsome := (initializeRuntime_isSome_iff (s := s) hopened).mpr hvalid
    constructor
    · rw [hmain]
      exact iff_of_true rfl hsome
    · intro experiments hexperiments runtime hruntime experiment hmem
      rw [hmain, Option.some.injEq] at hexperiments
      subst hexperiments
      obtain ⟨strategy, hstrategy, rfl⟩ := List.mem_map.mp hmem
      exact (hruns runtime hruntime hvalid).mpr hunambiguous strategy hstrategy
    · intro experiments hexperiments experiment hmem
      rw [hmain, Option.some.injEq] at hexperiments
      subst hexperiments
      obtain ⟨strategy, -, rfl⟩ := List.mem_map.mp hmem
      apply runExperiment_defined
      simpa using hvalid.devices

theorem entry_points_agree_iff_default :
    Agrees steadyEnvironment {} {} ↔ Valid {} ∧ Unambiguous {} :=
  entry_points_agree_iff steadyEnvironment {} {} rfl

/-- `--devices 0` is rejected by `initialize` only; `main` takes the remainder by zero. -/
theorem noDevice_disagrees :
    CommandLine.parseArgs ["--devices", "0"] = .returned { deviceCount := 0 } ∧
      ¬ Agrees steadyEnvironment { deviceCount := 0 } {} := by
  constructor
  · have htaken : CommandLine.parseArgument {} "--devices" (some "0") =
        .taken { deviceCount := 0 } := by
      decide +kernel
    rw [CommandLine.parseArgs, CommandLine.parseLoop_taken htaken, List.tail_cons,
      CommandLine.parseLoop]
  · intro h
    have haccepted := h.accepts.mp (by rw [commandLine_eq rfl]; rfl)
    rw [initializeRuntime_of_zero (Or.inl rfl)] at haccepted
    cases haccepted

end EdgeAllocator.Entry
