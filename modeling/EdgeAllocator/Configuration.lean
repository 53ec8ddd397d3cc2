import EdgeAllocator.Live
import EdgeAllocator.Foundation.Monitor

/-! Whether the strategies in effect are those of the manual configuration, and what
`configuration` shows of them. The settings are a datum behind `configuration_mutex_`. -/
namespace EdgeAllocator.Live

open Foundation Scheduler Executor Allocator Allocation Pipeline

/-- The configuration together with the strategies in effect. -/
structure Settings where
  automaticMode : Bool
  strategy : String
  schedulingName : String
  allocation : AllocationStrategy
  scheduling : SchedulingStrategy

def Settings.Names (settings : Settings) (allocation : AllocationStrategy)
    (scheduling : SchedulingStrategy) : Prop :=
  allocationFromString settings.strategy = some allocation ∧
    schedulingFromString settings.schedulingName = some scheduling

/-- A manual configuration is the one in effect. -/
def Settings.Truthful (settings : Settings) : Prop :=
  settings.automaticMode = false → settings.Names settings.allocation settings.scheduling

instance (settings : Settings) (allocation : AllocationStrategy)
    (scheduling : SchedulingStrategy) : Decidable (settings.Names allocation scheduling) :=
  inferInstanceAs (Decidable (_ ∧ _))

def State.settings (s : State) : Settings where
  automaticMode := s.config.automaticMode
  strategy := s.config.strategy
  schedulingName := s.config.scheduling
  allocation := s.pipe.world.allocator.strategy
  scheduling := s.pipe.world.scheduler.strategy

def Settings.item (settings : Settings) : ConfigurationItem where
  automatic := settings.automaticMode
  requestedAllocationStrategy := if settings.automaticMode then "auto" else settings.strategy
  requestedSchedulingAlgorithm := if settings.automaticMode then "auto" else settings.schedulingName
  allocationStrategy := allocationToString settings.allocation
  allocationStrategyLabel := allocationLabel settings.allocation
  schedulingAlgorithm := schedulingToString settings.scheduling
  schedulingAlgorithmLabel := schedulingLabel settings.scheduling

def Settings.Allows (settings : Settings) (allocation : AllocationStrategy)
    (scheduling : SchedulingStrategy) : Prop :=
  settings.automaticMode = true ∨ settings.Names allocation scheduling

instance (settings : Settings) (allocation : AllocationStrategy)
    (scheduling : SchedulingStrategy) : Decidable (settings.Allows allocation scheduling) :=
  inferInstanceAs (Decidable (_ ∨ _))

def ChoosePc.promise : ChoosePc → Option (Settings → Prop)
  | .setAllocation averageCpu => some fun settings =>
      settings.Allows (recommendedAllocation averageCpu) (recommendedScheduling averageCpu)
  | .setScheduling averageCpu => some fun settings =>
      settings.Allows (recommendedAllocation averageCpu) (recommendedScheduling averageCpu) ∧
        settings.allocation = recommendedAllocation averageCpu
  | .unlock => some Settings.Truthful
  | .readUsage _ _ | .lock _ | .returned => none

def ReportPc.Shows (settings : Settings) : ReportPc → Prop
  | .lock | .readConfig | .returned _ => True
  | .allocationStrategy item => item =
      { settings.item with
        allocationStrategy := "", allocationStrategyLabel := ""
        schedulingAlgorithm := "", schedulingAlgorithmLabel := "" }
  | .allocationStrategyLabel item => item =
      { settings.item with
        allocationStrategyLabel := "", schedulingAlgorithm := "", schedulingAlgorithmLabel := "" }
  | .schedulingAlgorithm item => item =
      { settings.item with schedulingAlgorithm := "", schedulingAlgorithmLabel := "" }
  | .schedulingAlgorithmLabel item => item = { settings.item with schedulingAlgorithmLabel := "" }
  | .unlock item => item = settings.item

def ReportPc.promise : ReportPc → Option (Settings → Prop)
  | .lock | .returned _ => none
  | pc => some fun settings => settings.Truthful ∧ pc.Shows settings

def ClientPc.promise : ClientPc → Option (Settings → Prop)
  | .autoSet | .autoUnlock | .validate _ _ | .unlock _ => some Settings.Truthful
  | .autoChoose pc => pc.promise
  | .setAllocation _ _ => some fun _ => True
  | .setScheduling allocation _ => some fun settings => settings.allocation = allocation
  | .setAutomatic allocation scheduling | .nameAllocation allocation scheduling =>
      some fun settings => settings.allocation = allocation ∧ settings.scheduling = scheduling
  | .nameScheduling allocation scheduling => some fun settings =>
      settings.allocation = allocation ∧ settings.scheduling = scheduling ∧
        settings.strategy = allocationToString allocation
  | .reporting pc => pc.promise
  | .idle | .autoLock | .manualLock _ _ | .returned _ => none

def ProcessingPc.promise : ProcessingPc → Option (Settings → Prop)
  | .choosing _ pc => pc.promise
  | .allocating _ | .unlockConfiguration _ => some Settings.Truthful
  | _ => none

def State.monitor (s : State) : Monitor Thread Settings where
  owner := s.configurationMutex
  data := s.settings
  promise
    | .producer => s.processing.promise
    | .client k => (s.clients k).promise
    | .worker _ | .monitor _ => none

/-- The average with which a call of `chooseRecommendedConfiguration` goes to take
the mutex in this step. -/
def choosing (s : State) : Label → Option ℚ
  | .process _ =>
      match s.processing with
      | .choosing _ (.lock averageCpu) => some averageCpu
      | _ => none
  | .client k =>
      match s.clients k with
      | .autoChoose (.lock averageCpu) => some averageCpu
      | _ => none
  | _ => none

/-- `chooseRecommendedConfiguration` takes the mutex in automatic mode only, or
with a recommendation that is the manual configuration. -/
def ChoosesAsConfigured (s : State) (label : Label) : Prop :=
  ∀ averageCpu ∈ choosing s label,
    s.settings.Allows (recommendedAllocation averageCpu) (recommendedScheduling averageCpu)

instance (s : State) (label : Label) : Decidable (ChoosesAsConfigured s label) :=
  inferInstanceAs (Decidable (∀ averageCpu ∈ choosing s label, _))

theorem strategies_move {s s' : Pipeline.State} {label : Pipeline.Label}
    (h : Pipeline.Move s label s') (hallocation : ∀ strategy, label ≠ .setAllocation strategy)
    (hscheduling : ∀ strategy, label ≠ .setScheduling strategy) :
    s'.world.allocator.strategy = s.world.allocator.strategy ∧
      s'.world.scheduler.strategy = s.world.scheduler.strategy := by
  cases h with
  | alloc _ _ hstep =>
      obtain ⟨hstrategy, hscheduler⟩ := allocStep_strategies hstep
      exact ⟨hstrategy, congrArg TaskScheduler.strategy hscheduler⟩
  | schedule _ _ hstep =>
      obtain ⟨hallocator, hstrategy⟩ := scheduleStep_strategies hstep
      exact ⟨congrArg ResourceAllocator.strategy hallocator, hstrategy⟩
  | work _ _ hstep =>
      exact ⟨congrArg ResourceAllocator.strategy (workerStep_allocator hstep),
        workerStep_schedulingStrategy hstep⟩
  | setAllocation strategy => exact absurd rfl (hallocation strategy)
  | setScheduling strategy => exact absurd rfl (hscheduling strategy)
  | _ => exact ⟨rfl, rfl⟩

theorem settings_drive {s : State} {label : Pipeline.Label} {pipe : Pipeline.State}
    (hpipe : Pipeline.step s.pipe label = some pipe)
    (hallocation : ∀ strategy, label ≠ .setAllocation strategy)
    (hscheduling : ∀ strategy, label ≠ .setScheduling strategy) :
    ({ s with pipe := pipe } : State).settings = s.settings := by
  obtain ⟨hallocator, hscheduler⟩ :=
    strategies_move (Pipeline.step_move hpipe) hallocation hscheduling
  simp only [State.settings, hallocator, hscheduler]

theorem settings_setAllocation {s : State} {strategy : AllocationStrategy}
    {pipe : Pipeline.State} (hpipe : Pipeline.step s.pipe (.setAllocation strategy) = some pipe) :
    ({ s with pipe := pipe } : State).settings = { s.settings with allocation := strategy } := by
  cases Pipeline.step_move hpipe with
  | setAllocation _ => rfl
  | stay _ hlabel => simp at hlabel

theorem settings_setScheduling {s : State} {strategy : SchedulingStrategy}
    {pipe : Pipeline.State} (hpipe : Pipeline.step s.pipe (.setScheduling strategy) = some pipe) :
    ({ s with pipe := pipe } : State).settings = { s.settings with scheduling := strategy } := by
  cases Pipeline.step_move hpipe with
  | setScheduling _ => rfl
  | stay _ hlabel => simp at hlabel

theorem settings_mainMove {s t : State} (h : MainMove s t) : t.settings = s.settings := by
  cases h with
  | drive hlabel hpipe =>
      exact settings_drive hpipe (by rintro _ rfl; simp at hlabel) (by rintro _ rfl; simp at hlabel)
  | _ => rfl

theorem settings_processMove {input : ProcessInput} {s t : State} (h : ProcessMove input s t)
    (hchoosing : ∀ i pc, s.processing ≠ .choosing i pc) : t.settings = s.settings := by
  cases h with
  | @choose i pc _ _ hpc _ => exact absurd hpc (hchoosing i pc)
  | create _ hpipe => exact settings_drive hpipe (by rintro _ ⟨⟩) (by rintro _ ⟨⟩)
  | allocate _ hpipe => exact settings_drive hpipe (by rintro _ ⟨⟩) (by rintro _ ⟨⟩)
  | _ => rfl

theorem chooseStep_monitor {me : Thread} {s t : State} {pc pc' : ChoosePc}
    (h : chooseStep me s pc = some (t, pc'))
    (hallows : ∀ averageCpu, pc = .lock averageCpu → s.settings.Allows
      (recommendedAllocation averageCpu) (recommendedScheduling averageCpu)) :
    Monitor.Step Settings.Truthful me s.configurationMutex s.settings pc.promise
      t.configurationMutex t.settings pc'.promise := by
  cases pc with
  | readUsage todo cpuTotal => cases todo <;> cases h <;> exact .keep _ _ _
  | lock averageCpu =>
      obtain ⟨hfree, rfl, rfl⟩ := lock_pair h
      rw [hfree]
      exact .enter _ fun _ => hallows averageCpu rfl
  | setAllocation averageCpu =>
      obtain ⟨pipe, hpipe, rfl, rfl⟩ := drive_pair h
      rw [settings_setAllocation hpipe]
      exact .within _ fun hold => ⟨hold, rfl⟩
  | setScheduling averageCpu =>
      obtain ⟨pipe, hpipe, rfl, rfl⟩ := drive_pair h
      rw [settings_setScheduling hpipe]
      refine .within _ fun ⟨hold, hallocation⟩ hmanual => ?_
      obtain hautomatic | hnames := hold
      · cases hmanual.symm.trans hautomatic
      · exact hallocation ▸ hnames
  | unlock =>
      cases h
      exact .leave _ id
  | returned => cases h

theorem reportStep_monitor {me : Thread} {s t : State} {pc pc' : ReportPc}
    (h : reportStep me s pc = some (t, pc')) :
    Monitor.Step Settings.Truthful me s.configurationMutex s.settings pc.promise
      t.configurationMutex t.settings pc'.promise := by
  cases pc with
  | lock =>
      obtain ⟨hfree, rfl, rfl⟩ := lock_pair h
      rw [hfree]
      exact .enter _ fun htruthful => ⟨htruthful, trivial⟩
  | readConfig =>
      cases h
      exact .within _ fun ⟨htruthful, _⟩ => ⟨htruthful, rfl⟩
  | allocationStrategy item =>
      obtain ⟨rfl, rfl⟩ := getAllocation_pair h
      exact .within _ fun ⟨htruthful, hitem⟩ => ⟨htruthful, by rw [hitem]; rfl⟩
  | allocationStrategyLabel item =>
      obtain ⟨rfl, rfl⟩ := getAllocation_pair h
      exact .within _ fun ⟨htruthful, hitem⟩ => ⟨htruthful, by rw [hitem]; rfl⟩
  | schedulingAlgorithm item =>
      obtain ⟨rfl, rfl⟩ := getScheduling_pair h
      exact .within _ fun ⟨htruthful, hitem⟩ => ⟨htruthful, by rw [hitem]; rfl⟩
  | schedulingAlgorithmLabel item =>
      obtain ⟨rfl, rfl⟩ := getScheduling_pair h
      exact .within _ fun ⟨htruthful, hitem⟩ => ⟨htruthful, by rw [hitem]; rfl⟩
  | unlock item =>
      cases h
      exact .leave _ And.left
  | returned item => cases h

theorem clientStep_monitor {me : Thread} {s t : State} {pc pc' : ClientPc}
    (h : clientStep me s pc = some (t, pc'))
    (hallows : ∀ averageCpu, pc = .autoChoose (.lock averageCpu) → s.settings.Allows
      (recommendedAllocation averageCpu) (recommendedScheduling averageCpu)) :
    Monitor.Step Settings.Truthful me s.configurationMutex s.settings pc.promise
      t.configurationMutex t.settings pc'.promise := by
  cases pc with
  | idle => cases h
  | autoLock =>
      obtain ⟨hfree, rfl, rfl⟩ := lock_pair h
      rw [hfree]
      exact .enter _ id
  | autoSet =>
      cases h
      exact .within _ fun _ hmanual => (by cases hmanual)
  | autoUnlock =>
      cases h
      have hnone : (chooseEntry s).promise = none := by
        unfold chooseEntry
        split <;> rfl
      rw [ClientPc.promise, ClientPc.promise, hnone]
      exact .leave _ id
  | autoChoose pc =>
      obtain ⟨rfl, rfl, rfl⟩ | ⟨next, hstep, rfl⟩ := autoChoose_some h
      · exact .keep _ _ _
      · exact chooseStep_monitor hstep fun averageCpu hpc => hallows averageCpu (by rw [hpc])
  | manualLock allocation scheduling =>
      obtain ⟨hfree, rfl, rfl⟩ := lock_pair h
      rw [hfree]
      exact .enter _ id
  | validate allocation scheduling =>
      simp only [clientStep] at h
      split at h <;> cases h
      · exact .keep _ _ _
      · exact .keep _ _ _
      · exact .within _ fun _ => trivial
  | setAllocation allocation scheduling =>
      obtain ⟨pipe, hpipe, rfl, rfl⟩ := drive_pair h
      rw [settings_setAllocation hpipe]
      exact .within _ fun _ => rfl
  | setScheduling allocation scheduling =>
      obtain ⟨pipe, hpipe, rfl, rfl⟩ := drive_pair h
      rw [settings_setScheduling hpipe]
      exact .within _ fun hold => ⟨hold, rfl⟩
  | setAutomatic allocation scheduling =>
      cases h
      exact .within _ id
  | nameAllocation allocation scheduling =>
      cases h
      exact .within _ fun hold => ⟨hold.1, hold.2, rfl⟩
  | nameScheduling allocation scheduling =>
      cases h
      refine .within _ fun hsettings _ => ?_
      obtain ⟨hallocation, hscheduling, hname⟩ := hsettings
      constructor
      · show allocationFromString s.config.strategy = some s.pipe.world.allocator.strategy
        rw [show s.config.strategy = _ from hname, show s.pipe.world.allocator.strategy = _ from
          hallocation, allocationFromString_toString]
      · show schedulingFromString (schedulingToString scheduling) =
          some s.pipe.world.scheduler.strategy
        rw [schedulingFromString_toString, show s.pipe.world.scheduler.strategy = _ from
          hscheduling]
  | unlock result =>
      cases h
      exact .leave _ id
  | returned result =>
      cases h
      exact .keep _ _ _
  | reporting pc =>
      obtain ⟨⟨item, rfl⟩, rfl, rfl⟩ | ⟨next, hstep, rfl⟩ := reporting_some h
      · exact .keep _ _ _
      · exact reportStep_monitor hstep

theorem chooseEntry_promise (s : State) : (chooseEntry s).promise = none := by
  unfold chooseEntry
  split <;> rfl

theorem processMove_monitor {input : ProcessInput} {s t : State} (h : ProcessMove input s t)
    (hallows : ChoosesAsConfigured s (.process input)) :
    Monitor.Step Settings.Truthful .producer s.configurationMutex s.settings s.processing.promise
      t.configurationMutex t.settings t.processing.promise := by
  have hsame (hsettings : t.settings = s.settings)
      (howner : t.configurationMutex = s.configurationMutex)
      (hpromise : t.processing.promise = s.processing.promise) :
      Monitor.Step Settings.Truthful .producer s.configurationMutex s.settings s.processing.promise
        t.configurationMutex t.settings t.processing.promise := by
    rw [hsettings, howner, hpromise]
    exact .keep _ _ _
  have hsettings := settings_processMove h
  cases h with
  | next hpc hstart hend =>
      refine hsame rfl rfl ?_
      have hnone : s.processing.promise = none := by
        obtain ⟨i, hi | hi⟩ := hstart <;> rw [hpc, hi] <;> rfl
      rw [hnone]
      obtain ⟨i, rfl | rfl⟩ | rfl | ⟨i, rfl⟩ := hend
      · rfl
      · rfl
      · rfl
      · exact chooseEntry_promise s
  | choose hpc hstep =>
      have hmonitor := chooseStep_monitor hstep fun averageCpu hlock =>
        hallows averageCpu (by simp [choosing, hpc, hlock])
      rw [hpc]
      exact hmonitor
  | lock hpc hfree =>
      rw [hpc, hfree]
      exact .enter _ id
  | unlock hpc =>
      rw [hpc]
      exact .leave _ id
  | create hpc _ =>
      exact hsame (hsettings (by simp [hpc])) rfl (by rw [hpc]; rfl)
  | allocate hpc _ =>
      exact hsame (hsettings (by simp [hpc])) rfl rfl
  | chosen hpc => exact hsame rfl rfl (by rw [hpc]; rfl)
  | count hpc => exact hsame rfl rfl (by rw [hpc]; rfl)
  | allocated hpc _ => exact hsame rfl rfl (by rw [hpc]; rfl)
  | round hpc => exact hsame rfl rfl (by rw [hpc]; rfl)
  | giveUp hpc _ => exact hsame rfl rfl (by rw [hpc]; rfl)
  | seen hpc => exact hsame rfl rfl (by rw [hpc]; rfl)
  | empty hpc _ => exact hsame rfl rfl (by rw [hpc]; rfl)
  | polled hpc => exact hsame rfl rfl (by rw [hpc]; rfl)
  | active hpc => exact hsame rfl rfl (by rw [hpc]; rfl)
  | drained hpc _ => exact hsame rfl rfl (by rw [hpc]; rfl)
  | wake hpc => exact hsame rfl rfl (by rw [hpc]; rfl)
  | complete hpc => exact hsame rfl rfl (by rw [hpc]; rfl)
  | leave hpc => exact hsame rfl rfl (by rw [hpc]; rfl)

theorem processMove_clients {input : ProcessInput} {s t : State} (h : ProcessMove input s t) :
    t.clients = s.clients := by
  cases h with
  | choose _ hstep => exact (chooseStep_threads hstep).clients
  | _ => rfl

theorem monitor_congr {s t : State} (howner : t.configurationMutex = s.configurationMutex)
    (hsettings : t.settings = s.settings)
    (hprocessing : t.processing.promise = s.processing.promise)
    (hclients : ∀ k, (t.clients k).promise = (s.clients k).promise) : t.monitor = s.monitor := by
  simp only [State.monitor, howner, hsettings, Monitor.mk.injEq, true_and]
  funext thread
  cases thread with
  | producer => exact hprocessing
  | client k => exact hclients k
  | _ => rfl

theorem mainMove_monitor {s t : State} (h : MainMove s t) : t.monitor = s.monitor := by
  have hsettings := settings_mainMove h
  cases h with
  | drive _ _ => exact monitor_congr rfl hsettings rfl fun _ => rfl
  | launch _ hjoined =>
      exact monitor_congr rfl rfl (by rw [hjoined]; rfl) fun _ => rfl
  | join _ hexited =>
      exact monitor_congr rfl rfl (by rw [hexited]; rfl) fun _ => rfl
  | _ => rfl

/-- A client that begins a call has made no promise yet. -/
theorem promise_update {clients : Nat → ClientPc} {k : Nat} {entry : ClientPc}
    (hidle : clients k = .idle) (hentry : entry.promise = none) (k' : Nat) :
    (Function.update clients k entry k').promise = (clients k').promise := by
  by_cases hk : k' = k
  · rw [hk, Function.update_self, hidle, hentry]
    rfl
  · rw [Function.update_of_ne hk]

theorem protects_move {s t : State} {label : Label}
    (h : s.monitor.Protects Settings.Truthful) (hmove : Move s label t)
    (hallows : ChoosesAsConfigured s label) : t.monitor.Protects Settings.Truthful := by
  cases hmove with
  | enter _ _ _ _ _ => exact h
  | main hmain =>
      rw [mainMove_monitor hmain]
      exact h
  | process input hprocess =>
      refine h.step (processMove_monitor hprocess hallows) fun thread hne => ?_
      cases thread with
      | producer => exact absurd rfl hne
      | client k =>
          exact congrArg (fun clients => (clients k).promise) (processMove_clients hprocess)
      | _ => rfl
  | @work e input pipe hpipe =>
      have hsame : ({ s with pipe := pipe } : State).monitor = s.monitor :=
        monitor_congr rfl (settings_drive hpipe (by rintro _ ⟨⟩) (by rintro _ ⟨⟩)) rfl
          fun _ => rfl
      rw [hsame]
      exact h
  | @apply k automatic allocation scheduling entry hidle hentry =>
      have hnone : entry.promise = none := by obtain rfl | rfl := hentry <;> rfl
      have hsame : ({ s with clients := Function.update s.clients k entry } : State).monitor =
          s.monitor := monitor_congr rfl rfl rfl (promise_update hidle hnone)
      rw [hsame]
      exact h
  | @report k hidle =>
      have hsame : ({ s with clients := Function.update s.clients k (.reporting .lock) } :
          State).monitor = s.monitor := monitor_congr rfl rfl rfl (promise_update hidle rfl)
      rw [hsame]
      exact h
  | @client k t pc hclient =>
      have hthreads := clientStep_threads hclient
      have hstep := clientStep_monitor hclient fun averageCpu hlock =>
        hallows averageCpu (by simp [choosing, hlock])
      refine Monitor.Protects.step h ?_ fun thread (hne : thread ≠ .client k) => ?_
      · show Monitor.Step _ _ _ _ _ t.configurationMutex t.settings
          (Function.update t.clients k pc k).promise
        rw [Function.update_self]
        exact hstep
      · cases thread with
        | producer => exact congrArg ProcessingPc.promise hthreads.processing
        | client k' =>
            have hk : k' ≠ k := fun heq => hne (by rw [heq])
            show (Function.update t.clients k pc k').promise = (s.clients k').promise
            rw [Function.update_of_ne hk, hthreads.clients]
        | _ => rfl

theorem protects_initial {s : State} (h : Initial s) :
    s.monitor.Protects Settings.Truthful := by
  refine ⟨fun thread p hp => ?_, fun _ hmanual => ?_⟩
  · cases thread with
    | producer =>
        rw [State.monitor, h.processing] at hp
        cases hp
    | client k =>
        simp only [State.monitor, h.clients k] at hp
        cases hp
    | _ => cases hp
  · have hallocation := h.allocation
    have hscheduling := h.scheduling
    rw [show s.config.automaticMode = false from hmanual] at hallocation hscheduling
    exact ⟨hallocation, hscheduling⟩

theorem protects_reachable {s : State} (hs : machine.Reachable ChoosesAsConfigured s) :
    s.monitor.Protects Settings.Truthful := by
  have hkeep {s t : State} {label : Label} (h : s.monitor.Protects Settings.Truthful)
      (hallows : ChoosesAsConfigured s label) (hstep : machine.step s label = some t) :
      t.monitor.Protects Settings.Truthful :=
    protects_move h (step_move hstep) hallows
  exact hs.invariant protects_initial hkeep

/-- As long as recommendations are taken in automatic mode only, a manual
configuration is in effect whenever the mutex is free. -/
theorem manual_configuration_in_effect {s : State}
    (hs : machine.Reachable ChoosesAsConfigured s) (hfree : s.configurationMutex = none)
    (hmanual : s.config.automaticMode = false) :
    allocationFromString s.config.strategy = some s.pipe.world.allocator.strategy ∧
      schedulingFromString s.config.scheduling = some s.pipe.world.scheduler.strategy :=
  (protects_reachable hs).free hfree hmanual

theorem allocationToString_fromString {name : String} {strategy : AllocationStrategy}
    (h : allocationFromString name = some strategy) : allocationToString strategy = name := by
  unfold allocationFromString at h
  split_ifs at h with hname hname hname hname <;> cases h <;> exact hname.symm

theorem schedulingToString_fromString {name : String} {strategy : SchedulingStrategy}
    (h : schedulingFromString name = some strategy) : schedulingToString strategy = name := by
  unfold schedulingFromString at h
  split_ifs at h with hname hname hname hname <;> cases h <;> exact hname.symm

/-- `configuration` shows the settings of one instant, and of a manual configuration the
strategies that are in effect. -/
theorem configuration_shows {s : State} (hs : machine.Reachable ChoosesAsConfigured s) {k : Nat}
    {item : ConfigurationItem} (hunlock : s.clients k = .reporting (.unlock item)) :
    item = s.settings.item ∧ (item.automatic = false →
      item.requestedAllocationStrategy = item.allocationStrategy ∧
        item.requestedSchedulingAlgorithm = item.schedulingAlgorithm) := by
  have hpromise : s.monitor.promise (.client k) = some fun settings =>
      settings.Truthful ∧ (ReportPc.unlock item).Shows settings := by
    show (s.clients k).promise = _
    rw [hunlock]
    rfl
  obtain ⟨-, htruthful, hitem⟩ := (protects_reachable hs).inside _ _ hpromise
  replace hitem : item = s.settings.item := hitem
  refine ⟨hitem, fun hmanual => ?_⟩
  rw [hitem] at hmanual ⊢
  have hmode : s.settings.automaticMode = false := hmanual
  obtain ⟨hallocation, hscheduling⟩ := htruthful hmode
  simp only [Settings.item, hmode, Bool.false_eq_true, if_false]
  exact ⟨(allocationToString_fromString hallocation).symm,
    (schedulingToString_fromString hscheduling).symm⟩

theorem singleRuntime_automatic :
    machine.initial (singleRuntime true .multiConstraint .priorityBased) where
  pipe := boot_initial ..
  edges := .refl _
  nonempty := List.cons_ne_nil _ _
  allocationMutex := rfl
  schedulingMutex := rfl
  allocation := by decide +kernel
  scheduling := by decide +kernel
  configurationMutex := rfl
  processing := rfl
  clients := fun _ => rfl
  main := rfl
  running := rfl
  stopRequested := rfl
  processingComplete := rfl

def applyManually : List Label :=
  .apply 0 false "round_robin" "fifo" :: List.replicate 8 (.client 0)

def requestAfterChoice : List Label := startUp ++ processSteps 8 ++ applyManually

theorem manual_configuration_in_effect_afterChoice :
    let s := machine.final (singleRuntime true .multiConstraint .priorityBased) requestAfterChoice
    allocationFromString s.config.strategy = some s.pipe.world.allocator.strategy ∧
      schedulingFromString s.config.scheduling = some s.pipe.world.scheduler.strategy :=
  manual_configuration_in_effect
    ⟨_, singleRuntime_automatic, Machine.run_of_checks (by decide +kernel)⟩
    (by decide +kernel) (by decide +kernel)

def requestDuringChoice : List Label :=
  startUp ++ processSteps 4 ++ applyManually ++ processSteps 4

theorem manual_configuration_overridden :
    ¬ ∀ s, machine.Reachable Machine.free s → s.configurationMutex = none →
      s.config.automaticMode = false →
        allocationFromString s.config.strategy = some s.pipe.world.allocator.strategy ∧
          schedulingFromString s.config.scheduling = some s.pipe.world.scheduler.strategy := by
  intro h
  have hnames := h
    (machine.final (singleRuntime true .multiConstraint .priorityBased) requestDuringChoice)
    (Machine.reachable_final singleRuntime_automatic (by decide +kernel)) (by decide +kernel)
    (by decide +kernel)
  exact absurd hnames (by decide +kernel)

end EdgeAllocator.Live
