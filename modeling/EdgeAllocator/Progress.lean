import EdgeAllocator.Enabled
import EdgeAllocator.Recorded

/-! Who waits for whom in the live runtime. The mutexes are taken in one order, the
configuration before the strategies, and only the thread that stops the runtime
waits for the end of others. -/
namespace EdgeAllocator.Progress

open Foundation Scheduler Executor Allocator Allocation Pipeline Live Recording

/-- The threads of the process. -/
inductive Party where
  | main
  | processing
  | worker (e : EdgeId)
  | client (k : Nat)

def Party.thread : Party → Option Thread
  | .main => none
  | .processing => some .producer
  | .worker e => some (.worker e)
  | .client k => some (.client k)

/-- The order in which the mutexes are taken. -/
def rank : Mutex → Nat
  | .configuration => 0
  | .allocation => 1
  | .scheduling => 2

theorem rank_lt (m : Mutex) : rank m < 3 := by
  cases m <;> decide

def choosePcWants : ChoosePc → Option Mutex
  | .lock _ => some .configuration
  | .setAllocation _ => some .allocation
  | .setScheduling _ => some .scheduling
  | .readUsage _ _ | .unlock | .returned => none

def reportPcWants : ReportPc → Option Mutex
  | .lock => some .configuration
  | .allocationStrategy _ | .allocationStrategyLabel _ => some .allocation
  | .schedulingAlgorithm _ | .schedulingAlgorithmLabel _ => some .scheduling
  | .readConfig | .unlock _ | .returned _ => none

def clientPcWants : ClientPc → Option Mutex
  | .autoLock | .manualLock _ _ => some .configuration
  | .autoChoose pc => choosePcWants pc
  | .reporting pc => reportPcWants pc
  | .setAllocation _ _ => some .allocation
  | .setScheduling _ _ => some .scheduling
  | _ => none

def workerPcWants : WorkerPc → Option Mutex
  | .fetching .lock => some .scheduling
  | _ => none

def roundWants (s : Live.State) : Option Mutex :=
  match s.processing with
  | .choosing _ pc => choosePcWants pc
  | .lockConfiguration _ => some .configuration
  | .allocating _ => s.pipe.producer.wants
  | _ => none

def processingWants (s : Recording.State) : Option Mutex :=
  match s.record with
  | .getStrategy _ _ => some .allocation
  | .save _ _ _ | .saveFailure _ _ => none
  | .idle | .scheduling _ _ => roundWants s.live

/-- The mutex that the next statement of the thread locks. -/
def wants (s : Recording.State) : Party → Option Mutex
  | .main => none
  | .processing => processingWants s
  | .worker e => workerPcWants (s.live.pipe.workers e)
  | .client k => clientPcWants (s.live.clients k)

def owner (s : Live.State) : Mutex → Option Thread
  | .configuration => s.configurationMutex
  | .allocation => s.pipe.world.allocator.strategyMutex
  | .scheduling => s.pipe.world.scheduler.strategyMutex

def Alive (s : Recording.State) : Party → Prop
  | .main => s.live.main ≠ .idle
  | .processing => s.live.processing ≠ .notStarted ∧ ∀ drained, s.live.processing ≠ .exited drained
  | .worker e => s.live.pipe.workers e ≠ .notStarted ∧ s.live.pipe.workers e ≠ .exited
  | .client k => s.live.clients k ≠ .idle

/-- The next statement of the thread is enabled, whatever it reads from outside. -/
def Moves (s : Recording.State) : Party → Prop
  | .main => (Recording.step s .main).isSome
  | .processing => ∀ input, (Recording.step s (.process input)).isSome
  | .worker e => ∀ input, (Recording.step s (.work e input)).isSome
  | .client k => (Recording.step s (.client k)).isSome

def joined (s : Live.State) : Option Party :=
  match s.main, s.pipe.control with
  | .joinProcessing, _ => some .processing
  | .joinWorkers, .joining (e :: _) => some (.worker e)
  | _, _ => none

def waiting (s : Recording.State) : Waiting Party Mutex where
  wants := wants s
  holds := fun p m => p.thread.isSome ∧ owner s.live m = p.thread
  joins := fun p q => p = .main ∧ joined s.live = some q ∧ Alive s q

def configuring (s : Live.State) (thread : Thread) : Bool := (s.monitor.promise thread).isSome

theorem configuring_update {s : Live.State} {k : Nat} {entry : ClientPc}
    (hidle : s.clients k = .idle) (hentry : entry.promise = none) :
    configuring { s with clients := Function.update s.clients k entry } = configuring s := by
  funext thread
  cases thread with
  | client k' => exact congrArg Option.isSome (promise_update hidle hentry k')
  | _ => rfl

theorem configuring_move {s t : Live.State} {label : Live.Label}
    (h : Exclusive s.configurationMutex (configuring s)) (hmove : Live.Move s label t) :
    Exclusive t.configurationMutex (configuring t) := by
  cases hmove with
  | enter _ _ _ _ _ => exact h
  | main hmain =>
      have hsame := mainMove_monitor hmain
      have howner : t.configurationMutex = s.configurationMutex := congrArg Monitor.owner hsame
      have hinside : configuring t = configuring s := by
        funext thread
        rw [configuring, configuring, hsame]
      rw [howner, hinside]
      exact h
  | process input hprocess =>
      have hmine := (processMove_section hprocess).lockStep
      rw [Option.isSome_map, Option.isSome_map] at hmine
      refine h.step hmine fun thread hne => ?_
      cases thread with
      | producer => exact absurd rfl hne
      | client k =>
          exact congrArg (fun clients => (clients k).promise.isSome) (processMove_clients hprocess)
      | _ => rfl
  | work e input hpipe => exact h
  | @apply k automatic allocation scheduling entry hidle hentry =>
      have hnone : entry.promise = none := by obtain rfl | rfl := hentry <;> rfl
      rw [configuring_update hidle hnone]
      exact h
  | @report k hidle =>
      rw [configuring_update hidle rfl]
      exact h
  | @client k t pc hclient =>
      have hthreads := clientStep_threads hclient
      have hmine := (clientStep_section hclient).lockStep
      rw [Option.isSome_map, Option.isSome_map] at hmine
      have hinside : LockStep (.client k) s.configurationMutex (configuring s (.client k))
          t.configurationMutex (Function.update t.clients k pc k).promise.isSome := by
        rw [Function.update_self]
        exact hmine
      refine h.step hinside fun thread hne => ?_
      cases thread with
      | producer => exact congrArg (fun pc => pc.promise.isSome) hthreads.processing
      | client k' =>
          have hk : k' ≠ k := fun heq => hne (by rw [heq])
          show (Function.update t.clients k pc k').promise.isSome = (s.clients k').promise.isSome
          rw [Function.update_of_ne hk, hthreads.clients]
      | _ => rfl

/-- What `TaskExecutor::start` or `stop` is in the middle of follows from where the
thread stands that calls it. -/
def Phased : MainPc → ControlPc → Prop
  | .spawning, control => ∀ todo, control ≠ .joining todo
  | .joinWorkers, control => ∀ todo, control ≠ .spawning todo
  | _, control => control = .idle

theorem control_step {s t : Pipeline.State} {label : Pipeline.Label}
    (h : Pipeline.step s label = some t)
    (hlabel : label ≠ .start ∧ label ≠ .stop ∧ label ≠ .control) : t.control = s.control := by
  obtain ⟨hstart, hstop, hcontrol⟩ := hlabel
  cases Pipeline.step_move h with
  | start _ => exact absurd rfl hstart
  | stop _ => exact absurd rfl hstop
  | spawn _ _ => exact absurd rfl hcontrol
  | spawned _ => exact absurd rfl hcontrol
  | join _ _ => exact absurd rfl hcontrol
  | joined _ => exact absurd rfl hcontrol
  | _ => rfl

theorem setAllocation_control {s t : Pipeline.State} {strategy : AllocationStrategy}
    (h : Pipeline.step s (.setAllocation strategy) = some t) : t.control = s.control :=
  control_step h (by simp)

theorem setScheduling_control {s t : Pipeline.State} {strategy : SchedulingStrategy}
    (h : Pipeline.step s (.setScheduling strategy) = some t) : t.control = s.control :=
  control_step h (by simp)

theorem chooseStep_control {me : Thread} {s t : Live.State} {pc pc' : ChoosePc}
    (h : chooseStep me s pc = some (t, pc')) :
    t.pipe.control = s.pipe.control ∧ t.main = s.main := by
  cases pc with
  | readUsage todo cpuTotal => cases todo <;> cases h <;> exact ⟨rfl, rfl⟩
  | lock averageCpu =>
      obtain ⟨-, rfl, -⟩ := lock_pair h
      exact ⟨rfl, rfl⟩
  | setAllocation averageCpu =>
      obtain ⟨pipe, hpipe, rfl, -⟩ := drive_pair h
      exact ⟨setAllocation_control hpipe, rfl⟩
  | setScheduling averageCpu =>
      obtain ⟨pipe, hpipe, rfl, -⟩ := drive_pair h
      exact ⟨setScheduling_control hpipe, rfl⟩
  | unlock =>
      cases h
      exact ⟨rfl, rfl⟩
  | returned => cases h

theorem clientStep_control {me : Thread} {s t : Live.State} {pc pc' : ClientPc}
    (h : clientStep me s pc = some (t, pc')) :
    t.pipe.control = s.pipe.control ∧ t.main = s.main := by
  cases pc with
  | idle => cases h
  | autoLock =>
      obtain ⟨-, rfl, -⟩ := lock_pair h
      exact ⟨rfl, rfl⟩
  | manualLock allocation scheduling =>
      obtain ⟨-, rfl, -⟩ := lock_pair h
      exact ⟨rfl, rfl⟩
  | autoChoose pc =>
      obtain ⟨-, rfl, -⟩ | ⟨next, hstep, -⟩ := autoChoose_some h
      · exact ⟨rfl, rfl⟩
      · exact chooseStep_control hstep
  | validate allocation scheduling =>
      simp only [clientStep] at h
      split at h <;> cases h <;> exact ⟨rfl, rfl⟩
  | setAllocation allocation scheduling =>
      obtain ⟨pipe, hpipe, rfl, -⟩ := drive_pair h
      exact ⟨setAllocation_control hpipe, rfl⟩
  | setScheduling allocation scheduling =>
      obtain ⟨pipe, hpipe, rfl, -⟩ := drive_pair h
      exact ⟨setScheduling_control hpipe, rfl⟩
  | reporting pc =>
      obtain ⟨-, rfl, -⟩ | ⟨next, hstep, -⟩ := reporting_some h
      · exact ⟨rfl, rfl⟩
      · obtain ⟨owner, rfl⟩ := reportStep_frame hstep
        exact ⟨rfl, rfl⟩
  | _ =>
      cases h
      exact ⟨rfl, rfl⟩

theorem processMove_control {input : ProcessInput} {s t : Live.State} (h : ProcessMove input s t) :
    t.pipe.control = s.pipe.control ∧ t.main = s.main := by
  cases h with
  | choose _ hstep =>
      have hkept := chooseStep_control hstep
      exact hkept
  | create _ hpipe => exact ⟨control_step hpipe (by simp), rfl⟩
  | allocate _ hpipe => exact ⟨control_step hpipe (by simp), rfl⟩
  | _ => exact ⟨rfl, rfl⟩

theorem control_move {s t : Pipeline.State} (h : Pipeline.step s .control = some t) :
    ((∀ todo, s.control ≠ .joining todo) → ∀ todo, t.control ≠ .joining todo) ∧
      ((∀ todo, s.control ≠ .spawning todo) → ∀ todo, t.control ≠ .spawning todo) := by
  cases Pipeline.step_move h with
  | stay _ hlabel => simp at hlabel
  | spawn hcontrol _ => exact ⟨by simp, fun hnot => absurd hcontrol (hnot _)⟩
  | spawned _ => simp
  | join hcontrol _ => exact ⟨fun hnot => absurd hcontrol (hnot _), by simp⟩
  | joined _ => simp

theorem start_control {s t : Pipeline.State} (h : Pipeline.step s .start = some t)
    (hidle : s.control = .idle) (todo : List EdgeId) : t.control ≠ .joining todo := by
  cases Pipeline.step_move h with
  | start _ => simp
  | stay _ _ => simp [hidle]

theorem stop_control {s t : Pipeline.State} (h : Pipeline.step s .stop = some t)
    (hidle : s.control = .idle) (todo : List EdgeId) : t.control ≠ .spawning todo := by
  cases Pipeline.step_move h with
  | stop _ => simp
  | stay _ _ => simp [hidle]

theorem phased_main {s t : Live.State} (h : Phased s.main s.pipe.control)
    (hstep : mainStep s = some t) : Phased t.main t.pipe.control := by
  unfold mainStep at hstep
  split at hstep
  · cases hstep
  · rename_i hmain
    rw [hmain] at h
    cases hstep
    exact h
  · rename_i hmain
    rw [hmain] at h
    cases hstep
    exact h
  · rename_i hmain
    rw [hmain] at h
    obtain ⟨u, hdrive, hnext⟩ := Option.map_eq_some_iff.mp hstep
    obtain ⟨pipe, hpipe, rfl⟩ := drive_some hdrive
    cases hnext
    exact start_control hpipe h
  · rename_i hmain
    rw [hmain] at h
    split at hstep
    · rename_i hidle
      cases hstep
      exact hidle
    · obtain ⟨pipe, hpipe, rfl⟩ := drive_some hstep
      rw [hmain]
      exact (control_move hpipe).1 h
  · rename_i hmain
    rw [hmain] at h
    split at hstep
    · cases hstep
      exact h
    · cases hstep
  · rename_i hmain
    rw [hmain] at h
    split at hstep
    · cases hstep
      exact h
    · cases hstep
      exact h
    · cases hstep
  · rename_i hmain
    rw [hmain] at h
    obtain ⟨u, hdrive, hnext⟩ := Option.map_eq_some_iff.mp hstep
    obtain ⟨pipe, hpipe, rfl⟩ := drive_some hdrive
    cases hnext
    exact stop_control hpipe h
  · rename_i hmain
    rw [hmain] at h
    split at hstep
    · rename_i hidle
      cases hstep
      exact hidle
    · obtain ⟨pipe, hpipe, rfl⟩ := drive_some hstep
      rw [hmain]
      exact (control_move hpipe).2 h
  · rename_i hmain
    rw [hmain] at h
    cases hstep
    exact h

theorem phased_step {s t : Live.State} {label : Live.Label} (h : Phased s.main s.pipe.control)
    (hstep : Live.step s label = some t) : Phased t.main t.pipe.control := by
  cases label with
  | start =>
      simp only [Live.step] at hstep
      split at hstep
      · rename_i hmain
        rw [hmain] at h
        cases hstep
        split
        · rw [hmain]
          exact h
        · exact h
      · cases hstep
  | stop =>
      simp only [Live.step] at hstep
      split at hstep
      · rename_i hmain
        rw [hmain] at h
        cases hstep
        exact h
      · cases hstep
  | main => exact phased_main h hstep
  | process input =>
      obtain ⟨hcontrol, hmain⟩ := processMove_control (processStep_move hstep)
      rw [hcontrol, hmain]
      exact h
  | work e input =>
      obtain ⟨pipe, hpipe, rfl⟩ := drive_some hstep
      show Phased s.main pipe.control
      rw [control_step hpipe (by simp)]
      exact h
  | apply k automatic allocation scheduling =>
      simp only [Live.step] at hstep
      split at hstep
      · cases hstep
        exact h
      · cases hstep
  | report k =>
      simp only [Live.step] at hstep
      split at hstep
      · cases hstep
        exact h
      · cases hstep
  | client k =>
      obtain ⟨⟨u, pc⟩, hclient, hnext⟩ := Option.map_eq_some_iff.mp hstep
      cases hnext
      obtain ⟨hcontrol, hmain⟩ := clientStep_control hclient
      show Phased u.main u.pipe.control
      rw [hcontrol, hmain]
      exact h

/-- What every reachable state keeps so that the threads can go on. -/
structure Fluent (s : Recording.State) : Prop where
  honest : Honest s
  smooth : Smooth s.live.pipe
  configuration : Exclusive s.live.configurationMutex (configuring s.live)
  phased : Phased s.live.main s.live.pipe.control

section Enabled

variable {s : Live.State} {me : Thread}

theorem drive_isSome {label : Pipeline.Label} (h : (Pipeline.step s.pipe label).isSome) :
    (s.drive label).isSome := by
  rw [State.drive, Option.isSome_map]
  exact h

theorem chooseStep_isSome {pc : ChoosePc} (hreturned : pc ≠ .returned)
    (hfree : ∀ m, choosePcWants pc = some m → owner s m = none) : (chooseStep me s pc).isSome := by
  cases pc with
  | readUsage todo cpuTotal => cases todo <;> rfl
  | lock averageCpu =>
      have hnone : s.configurationMutex = none := hfree _ rfl
      simp [chooseStep, State.lockConfiguration, hnone]
  | setAllocation averageCpu =>
      have hnone : s.pipe.world.allocator.strategyMutex = none := hfree _ rfl
      simp [chooseStep, State.drive, Pipeline.step, hnone]
  | setScheduling averageCpu =>
      have hnone : s.pipe.world.scheduler.strategyMutex = none := hfree _ rfl
      simp [chooseStep, State.drive, Pipeline.step, hnone]
  | unlock => rfl
  | returned => exact absurd rfl hreturned

theorem reportStep_isSome {pc : ReportPc} (hreturned : ∀ item, pc ≠ .returned item)
    (hfree : ∀ m, reportPcWants pc = some m → owner s m = none) : (reportStep me s pc).isSome := by
  have hallocation (hwants : reportPcWants pc = some .allocation) :
      s.pipe.world.allocator.strategyMutex = none := hfree _ hwants
  have hscheduling (hwants : reportPcWants pc = some .scheduling) :
      s.pipe.world.scheduler.strategyMutex = none := hfree _ hwants
  cases pc with
  | lock =>
      have hnone : s.configurationMutex = none := hfree _ rfl
      simp [reportStep, State.lockConfiguration, hnone]
  | allocationStrategy item => simp [reportStep, State.getAllocation, hallocation rfl]
  | allocationStrategyLabel item => simp [reportStep, State.getAllocation, hallocation rfl]
  | schedulingAlgorithm item => simp [reportStep, State.getScheduling, hscheduling rfl]
  | schedulingAlgorithmLabel item => simp [reportStep, State.getScheduling, hscheduling rfl]
  | returned item => exact absurd rfl (hreturned item)
  | _ => rfl

theorem clientStep_isSome {pc : ClientPc} (hidle : pc ≠ .idle)
    (hfree : ∀ m, clientPcWants pc = some m → owner s m = none) : (clientStep me s pc).isSome := by
  cases pc with
  | idle => exact absurd rfl hidle
  | autoLock =>
      have hnone : s.configurationMutex = none := hfree _ rfl
      simp [clientStep, State.lockConfiguration, hnone]
  | manualLock allocation scheduling =>
      have hnone : s.configurationMutex = none := hfree _ rfl
      simp [clientStep, State.lockConfiguration, hnone]
  | autoChoose pc =>
      by_cases hreturned : pc = .returned
      · rw [hreturned]
        rfl
      · have hchoose : (chooseStep me s pc).isSome := chooseStep_isSome hreturned hfree
        cases pc with
        | returned => exact absurd rfl hreturned
        | _ => simpa only [clientStep, Option.isSome_map] using hchoose
  | validate allocation scheduling =>
      simp only [clientStep]
      split <;> rfl
  | setAllocation allocation scheduling =>
      have hnone : s.pipe.world.allocator.strategyMutex = none := hfree _ rfl
      simp [clientStep, State.drive, Pipeline.step, hnone]
  | setScheduling allocation scheduling =>
      have hnone : s.pipe.world.scheduler.strategyMutex = none := hfree _ rfl
      simp [clientStep, State.drive, Pipeline.step, hnone]
  | reporting pc =>
      by_cases hreturned : ∃ item, pc = .returned item
      · obtain ⟨item, rfl⟩ := hreturned
        rfl
      · have hreport : (reportStep me s pc).isSome :=
          reportStep_isSome (fun item heq => hreturned ⟨item, heq⟩) hfree
        cases pc with
        | returned item => exact absurd ⟨item, rfl⟩ hreturned
        | _ => simpa only [clientStep, Option.isSome_map] using hreport
  | _ => rfl

theorem processStep_isSome {input : ProcessInput} (hsmooth : Smooth s.pipe)
    (hquiet : s.processing.busy = false → s.pipe.producer = .idle)
    (hstarted : s.processing ≠ .notStarted) (hexited : ∀ drained, s.processing ≠ .exited drained)
    (hfree : ∀ m, roundWants s = some m → owner s m = none) :
    (Live.processStep input s).isSome := by
  unfold roundWants at hfree
  cases hpc : s.processing with
  | notStarted => exact absurd hpc hstarted
  | exited drained => exact absurd hpc (hexited drained)
  | choosing i pc =>
      rw [hpc] at hfree
      by_cases hreturned : pc = .returned
      · simp only [Live.processStep, hpc, hreturned]
        rfl
      · have hchoose : (chooseStep .producer s pc).isSome := chooseStep_isSome hreturned hfree
        cases pc with
        | returned => exact absurd rfl hreturned
        | _ => simpa only [Live.processStep, hpc, Option.isSome_map] using hchoose
  | create i =>
      have hidle := hquiet (by rw [hpc]; rfl)
      simp [Live.processStep, hpc, State.drive, Pipeline.step, hidle]
  | lockConfiguration i =>
      rw [hpc] at hfree
      have hnone : s.configurationMutex = none := hfree _ rfl
      simp [Live.processStep, hpc, State.lockConfiguration, hnone]
  | allocating i =>
      rw [hpc] at hfree
      by_cases hidle : s.pipe.producer = .idle
      · simp [Live.processStep, hpc, hidle]
      · have hproduce := drive_isSome (s := s) (hsmooth.produce hidle
          (fun hwants => hfree _ hwants) (fun hwants => hfree _ hwants) {})
        simp only [Live.processStep, hpc]
        exact hproduce
  | polling todo => cases todo <;> simp [Live.processStep, hpc]
  | _ => simp [Live.processStep, hpc]

end Enabled

section Fluent

variable {s : Recording.State}

theorem alive_of_producer (h : Fluent s) (hbusy : s.live.pipe.producer ≠ .idle) :
    Alive s .processing := by
  refine ⟨fun hnot => hbusy (h.honest.tracked.quiet ?_),
    fun drained hexited => hbusy (h.honest.tracked.quiet ?_)⟩
  · rw [hnot]
    rfl
  · rw [hexited]
    rfl

theorem producer_owns (h : Fluent s) :
    (owner s.live .allocation = some .producer ↔
        s.live.pipe.producer.allocationLocked = true) ∧
      (owner s.live .scheduling = some .producer ↔
        s.live.pipe.producer.schedulingLocked = true) ∧
      (owner s.live .configuration = some .producer ↔
        s.live.processing.promise.isSome = true) :=
  ⟨(h.smooth.owned.allocation .producer).symm, (h.smooth.owned.scheduling .producer).symm,
    (h.configuration .producer).symm⟩

theorem worker_owns (h : Fluent s) {e : EdgeId} {m : Mutex}
    (howner : owner s.live m = some (.worker e)) :
    m = .scheduling ∧ (s.live.pipe.workers e).schedulingLocked = true := by
  cases m with
  | configuration => cases (h.configuration (.worker e)).mpr howner
  | allocation => cases (h.smooth.owned.allocation (.worker e)).mpr howner
  | scheduling => exact ⟨rfl, (h.smooth.owned.scheduling (.worker e)).mpr howner⟩

theorem client_owns (h : Fluent s) {k : Nat} {m : Mutex}
    (howner : owner s.live m = some (.client k)) :
    m = .configuration ∧ (s.live.clients k).promise.isSome = true := by
  cases m with
  | configuration => exact ⟨rfl, (h.configuration (.client k)).mpr howner⟩
  | allocation => cases (h.smooth.owned.allocation (.client k)).mpr howner
  | scheduling => cases (h.smooth.owned.scheduling (.client k)).mpr howner

theorem owner_alive (h : Fluent s) {m : Mutex} {thread : Thread}
    (howner : owner s.live m = some thread) : ∃ p, p.thread = some thread ∧ Alive s p := by
  cases thread with
  | producer =>
      refine ⟨.processing, rfl, ?_⟩
      obtain ⟨hallocation, hscheduling, hconfiguration⟩ := producer_owns h
      cases m with
      | configuration =>
          have hinside := hconfiguration.mp howner
          refine ⟨fun hnot => ?_, fun drained hexited => ?_⟩
          · rw [hnot] at hinside
            cases hinside
          · rw [hexited] at hinside
            cases hinside
      | allocation =>
          refine alive_of_producer h fun hidle => ?_
          have hinside := hallocation.mp howner
          rw [hidle] at hinside
          cases hinside
      | scheduling =>
          refine alive_of_producer h fun hidle => ?_
          have hinside := hscheduling.mp howner
          rw [hidle] at hinside
          cases hinside
  | worker e =>
      obtain ⟨-, hinside⟩ := worker_owns h howner
      refine ⟨.worker e, rfl, fun hnot => ?_, fun hexited => ?_⟩
      · rw [hnot] at hinside
        cases hinside
      · rw [hexited] at hinside
        cases hinside
  | client k =>
      obtain ⟨-, hinside⟩ := client_owns h howner
      refine ⟨.client k, rfl, fun hidle => ?_⟩
      rw [hidle] at hinside
      cases hinside
  | monitor k =>
      cases m with
      | configuration => cases (h.configuration (.monitor k)).mpr howner
      | allocation => cases (h.smooth.owned.allocation (.monitor k)).mpr howner
      | scheduling => cases (h.smooth.owned.scheduling (.monitor k)).mpr howner

theorem choosePc_outside {pc : ChoosePc} (h : choosePcWants pc = some .configuration) :
    pc.promise = none := by
  cases pc <;> first | rfl | cases h

theorem reportPc_outside {pc : ReportPc} (h : reportPcWants pc = some .configuration) :
    pc.promise = none := by
  cases pc <;> first | rfl | cases h

theorem clientPc_outside {pc : ClientPc} (h : clientPcWants pc = some .configuration) :
    pc.promise = none := by
  cases pc with
  | autoChoose pc => exact choosePc_outside h
  | reporting pc => exact reportPc_outside h
  | _ => first | rfl | cases h

theorem producer_outside {producer : ProducerPc} {m : Mutex} (h : producer.wants = some m) :
    producer.allocationLocked = false ∧ producer.schedulingLocked = false ∧ m ≠ .configuration := by
  unfold ProducerPc.wants at h
  split at h
  · cases h
    exact ⟨rfl, rfl, by simp⟩
  · cases h
    exact ⟨rfl, rfl, by simp⟩
  · cases h

theorem round_ascends (h : Fluent s) {m m' : Mutex} (hwants : roundWants s.live = some m')
    (howner : owner s.live m = some .producer) : rank m < rank m' := by
  obtain ⟨hallocation, hscheduling, hconfiguration⟩ := producer_owns h
  -- Outside of the pipeline's calls only the configuration is held.
  have honly (hallocationFree : s.live.pipe.producer.allocationLocked = false)
      (hschedulingFree : s.live.pipe.producer.schedulingLocked = false) :
      m = .configuration ∧ s.live.processing.promise.isSome = true := by
    cases m with
    | configuration => exact ⟨rfl, hconfiguration.mp howner⟩
    | allocation => cases hallocationFree.symm.trans (hallocation.mp howner)
    | scheduling => cases hschedulingFree.symm.trans (hscheduling.mp howner)
  have hlower (hne : m' ≠ .configuration) : rank .configuration < rank m' := by
    cases m' with
    | configuration => exact absurd rfl hne
    | allocation => exact Nat.zero_lt_one
    | scheduling => exact Nat.zero_lt_two
  unfold roundWants at hwants
  split at hwants
  · rename_i i pc hpc
    have hidle := h.honest.tracked.quiet (by rw [hpc]; rfl)
    obtain ⟨rfl, hinside⟩ := honly (by rw [hidle]; rfl) (by rw [hidle]; rfl)
    refine hlower fun heq => ?_
    rw [heq] at hwants
    rw [hpc] at hinside
    have hnone : ChoosePc.promise pc = none := choosePc_outside hwants
    rw [ProcessingPc.promise, hnone] at hinside
    cases hinside
  · rename_i i hpc
    obtain ⟨call, hcall⟩ := h.honest.tracked.waiting i (Or.inr hpc)
    obtain ⟨rfl, hinside⟩ := honly (by rw [hcall]; rfl) (by rw [hcall]; rfl)
    rw [hpc] at hinside
    cases hinside
  · obtain ⟨hallocationFree, hschedulingFree, hne⟩ := producer_outside hwants
    obtain ⟨rfl, -⟩ := honly hallocationFree hschedulingFree
    exact hlower hne
  · cases hwants

theorem idle_behind (h : Fluent s) {t : TaskRef} {result : AllocationResult}
    (hrecord : s.record = .getStrategy t result) : s.live.pipe.producer = .idle := by
  have hstage := h.honest.tracked.stage
  simp only [State.Stage, hrecord] at hstage
  split at hstage <;> first | assumption | contradiction

theorem processing_ascends (h : Fluent s) {m m' : Mutex} (hwants : processingWants s = some m')
    (howner : owner s.live m = some .producer) : rank m < rank m' := by
  unfold processingWants at hwants
  split at hwants
  · rename_i t result hrecord
    obtain ⟨hallocation, hscheduling, -⟩ := producer_owns h
    have hidle := idle_behind h hrecord
    cases hwants
    cases m with
    | configuration => exact Nat.zero_lt_one
    | allocation =>
        have hinside := hallocation.mp howner
        rw [hidle] at hinside
        cases hinside
    | scheduling =>
        have hinside := hscheduling.mp howner
        rw [hidle] at hinside
        cases hinside
  · cases hwants
  · cases hwants
  · exact round_ascends h hwants howner
  · exact round_ascends h hwants howner

theorem ordered (h : Fluent s) : (waiting s).Ordered rank where
  ascending := by
    intro p m m' hholds hwants
    obtain ⟨-, howner⟩ := hholds
    cases p with
    | main => cases hwants
    | processing => exact processing_ascends h hwants howner
    | worker e =>
        obtain ⟨rfl, hinside⟩ := worker_owns h howner
        change workerPcWants (s.live.pipe.workers e) = some m' at hwants
        unfold workerPcWants at hwants
        split at hwants
        · rename_i hpc
          rw [hpc] at hinside
          cases hinside
        · cases hwants
    | client k =>
        obtain ⟨rfl, hinside⟩ := client_owns h howner
        cases m' with
        | configuration =>
            rw [clientPc_outside hwants] at hinside
            cases hinside
        | allocation => exact Nat.zero_lt_one
        | scheduling => exact Nat.zero_lt_two
  unburdened := by
    rintro p q ⟨rfl, -⟩ m ⟨hthread, -⟩
    cases hthread
  unawaited := by
    rintro p q ⟨rfl, -⟩ r ⟨-, hjoined, -⟩
    change joined s.live = some .main at hjoined
    unfold joined at hjoined
    split at hjoined <;> cases hjoined

theorem main_next (h : Fluent s) (hlaunch : s.live.main = .launch → s.live.processing = .notStarted)
    (halive : Alive s .main) :
    Moves s .main ∨ ∃ q, (waiting s).WaitsFor .main q ∧ Alive s q := by
  have hcrew := h.smooth.crew
  have hphased := h.phased
  have hjoin {q : Party} (hjoined : joined s.live = some q) (hq : Alive s q) :
      Moves s .main ∨ ∃ q, (waiting s).WaitsFor .main q ∧ Alive s q :=
    Or.inr ⟨q, Or.inr ⟨rfl, hjoined, hq⟩, hq⟩
  have hmoves (hstep : (mainStep s.live).isSome) :
      Moves s .main ∨ ∃ q, (waiting s).WaitsFor .main q ∧ Alive s q := by
    refine Or.inl ?_
    rw [Moves, Recording.step, Option.isSome_map]
    · exact hstep
    · simp
  unfold Phased at hphased
  cases hmain : s.live.main with
  | idle => exact absurd hmain halive
  | clearStop => exact hmoves (by simp [mainStep, hmain])
  | clearComplete => exact hmoves (by simp [mainStep, hmain])
  | clearRunning => exact hmoves (by simp [mainStep, hmain])
  | launch => exact hmoves (by simp [mainStep, hmain, hlaunch hmain])
  | startExecutor =>
      rw [hmain] at hphased
      refine hmoves ?_
      simp only [mainStep, hmain, State.drive, Pipeline.step, hphased]
      split <;> rfl
  | stopExecutor =>
      rw [hmain] at hphased
      refine hmoves ?_
      simp only [mainStep, hmain, State.drive, Pipeline.step, hphased]
      split <;> rfl
  | spawning =>
      rw [hmain] at hphased
      refine hmoves ?_
      cases hcontrol : s.live.pipe.control with
      | idle => simp [mainStep, hmain, hcontrol]
      | joining todo => exact absurd hcontrol (hphased todo)
      | spawning todo =>
          cases todo with
          | nil => simp [mainStep, hmain, hcontrol, State.drive, Pipeline.step, controlStep]
          | cons e todo =>
              have hmem := h.honest.sound.threads.spawning _ hcontrol e List.mem_cons_self
              have hworker : s.live.pipe.workers e = .notStarted :=
                ((hcrew.spawning _ hcontrol).2.2 e hmem).mpr List.mem_cons_self
              simp [mainStep, hmain, hcontrol, State.drive, Pipeline.step, controlStep, hworker]
  | joinProcessing =>
      cases hpc : s.live.processing with
      | notStarted => exact hmoves (by simp [mainStep, hmain, hpc])
      | exited drained => exact hmoves (by simp [mainStep, hmain, hpc])
      | _ =>
          refine hjoin (q := .processing) (by simp [joined, hmain]) ?_
          simp [Alive, hpc]
  | joinWorkers =>
      rw [hmain] at hphased
      cases hcontrol : s.live.pipe.control with
      | idle => exact hmoves (by simp [mainStep, hmain, hcontrol])
      | spawning todo => exact absurd hcontrol (hphased todo)
      | joining todo =>
          cases todo with
          | nil =>
              refine hmoves ?_
              simp [mainStep, hmain, hcontrol, State.drive, Pipeline.step, controlStep]
          | cons e todo =>
              obtain ⟨-, hknown, hspawned⟩ := hcrew.joining _ hcontrol
              by_cases hexited : s.live.pipe.workers e = .exited
              · refine hmoves ?_
                simp [mainStep, hmain, hcontrol, State.drive, Pipeline.step, controlStep, hexited]
              · refine hjoin (q := .worker e) (by simp [joined, hmain, hcontrol]) ?_
                exact ⟨hspawned e (hknown e List.mem_cons_self), hexited⟩

theorem thread_next (h : Fluent s) {p : Party} (hthread : p ≠ .main) (halive : Alive s p) :
    Moves s p ∨ ∃ m q, (waiting s).wants p = some m ∧ (waiting s).holds q m ∧ Alive s q := by
  by_cases hfree : ∀ m, wants s p = some m → owner s.live m = none
  · refine Or.inl ?_
    cases p with
    | main => exact absurd rfl hthread
    | processing =>
        intro input
        change ∀ m, processingWants s = some m → owner s.live m = none at hfree
        have hround (hrecord : processingWants s = roundWants s.live) :
            (Live.processStep input s.live).isSome :=
          processStep_isSome h.smooth h.honest.tracked.quiet halive.1 halive.2 fun m hm =>
            hfree m (hrecord.trans hm)
        simp only [Recording.step, Recording.processStep]
        cases hrecord : s.record with
        | getStrategy t result =>
            have hnone : s.allocator.strategyMutex = none :=
              hfree .allocation (by rw [processingWants, hrecord])
            simp [hnone]
        | save t result strategy => rfl
        | saveFailure t result => rfl
        | idle =>
            rw [Option.isSome_map]
            exact hround (by rw [processingWants, hrecord])
        | scheduling t result =>
            rw [Option.isSome_map]
            exact hround (by rw [processingWants, hrecord])
    | worker e =>
        intro input
        rw [Recording.step, Option.isSome_map]
        · exact drive_isSome (h.smooth.worker halive.1 halive.2
            (fun hlock => hfree .scheduling (by rw [wants, hlock]; rfl)) input)
        · simp
    | client k =>
        rw [Moves, Recording.step, Option.isSome_map]
        · rw [Live.step, Option.isSome_map]
          exact clientStep_isSome halive hfree
        · simp
  · push Not at hfree
    obtain ⟨m, hwants, howner⟩ := hfree
    obtain ⟨thread, hthread⟩ := Option.ne_none_iff_exists'.mp howner
    obtain ⟨q, hq, hqalive⟩ := owner_alive h hthread
    exact Or.inr ⟨m, q, hwants, by simp [waiting, hq, hthread], hqalive⟩

theorem next (h : Fluent s) (hlaunch : s.live.main = .launch → s.live.processing = .notStarted)
    (p : Party) (halive : Alive s p) :
    Moves s p ∨ ∃ q, (waiting s).WaitsFor p q ∧ Alive s q := by
  by_cases hmain : p = .main
  · subst hmain
    exact main_next h hlaunch halive
  · obtain hmoves | ⟨m, q, hwants, hholds, hq⟩ := thread_next h hmain halive
    · exact Or.inl hmoves
    · exact Or.inr ⟨q, Or.inl ⟨m, hwants, hholds⟩, hq⟩

end Fluent

theorem Fluent.initial {s : Recording.State} (h : Recording.Initial s) (hsmooth : Smooth s.live.pipe) :
    Fluent s := by
  refine ⟨Honest.initial h, hsmooth, ?_, ?_⟩
  · rw [h.live.configurationMutex]
    refine .free fun thread => ?_
    cases thread with
    | producer => simp [configuring, Live.State.monitor, h.live.processing, ProcessingPc.promise]
    | client k => simp [configuring, Live.State.monitor, h.live.clients k, ClientPc.promise]
    | _ => rfl
  · rw [h.live.main]
    exact h.live.pipe.control

theorem sections_of_run {guard : Recording.State → Live.Label → Prop} {start s : Recording.State}
    (hstart : Recording.Initial start) (hsmooth : Smooth start.live.pipe)
    (hrun : Recording.machine.Run guard start s) :
    Honest s ∧ Exclusive s.live.configurationMutex (configuring s.live) ∧
      Phased s.live.main s.live.pipe.control := by
  have hkeep {s t : Recording.State} {label : Live.Label}
      (hs : Honest s ∧ Exclusive s.live.configurationMutex (configuring s.live) ∧
        Phased s.live.main s.live.pipe.control) (_ : guard s label)
      (hstep : Recording.machine.step s label = some t) :
      Honest t ∧ Exclusive t.live.configurationMutex (configuring t.live) ∧
        Phased t.live.main t.live.pipe.control := by
    obtain ⟨hhonest, hconfiguration, hphased⟩ := hs
    refine ⟨hhonest.step hstep, ?_⟩
    obtain hsame | hlive := live_step hstep
    · rw [hsame]
      exact ⟨hconfiguration, hphased⟩
    · exact ⟨configuring_move hconfiguration (Live.step_move hlive), phased_step hphased hlive⟩
  have hinitial := Fluent.initial hstart hsmooth
  exact hrun.preserves hkeep ⟨hinitial.honest, hinitial.configuration, hinitial.phased⟩

theorem fluent_of_run {start s : Recording.State} (hstart : Recording.machine.initial start)
    (hprovisioned : Provisioned start.live.pipe.world)
    (hrun : Recording.machine.Run Machine.free start s)
    (hcounter : (s.live.pipe.world.taskCounter : ℚ) < doubleMax) : Fluent s := by
  have hfirst : Smooth start.live.pipe := Smooth.initial hstart.live.pipe
    hstart.live.allocationMutex hstart.live.schedulingMutex
  obtain ⟨-, hsmooth⟩ := smooth_of_run hstart.live.pipe hstart.live.allocationMutex
    hstart.live.schedulingMutex hprovisioned (pipe_run (live_run hrun)) hcounter
  obtain ⟨hhonest, hconfiguration, hphased⟩ := sections_of_run hstart hfirst hrun
  exact ⟨hhonest, hsmooth, hconfiguration, hphased⟩

/-- In every reachable state each thread that is alive moves, or waits, through
other threads that wait, for one that moves; and no thread waits for itself. The
state excluded is the one in which `start` assigns to a joinable thread. -/
theorem every_wait_ends {start s : Recording.State} (hstart : Recording.machine.initial start)
    (hprovisioned : Provisioned start.live.pipe.world)
    (hrun : Recording.machine.Run Machine.free start s)
    (hcounter : (s.live.pipe.world.taskCounter : ℚ) < doubleMax)
    (hlaunch : s.live.main = .launch → s.live.processing = .notStarted) :
    (∀ p, Alive s p → ∃ q, Relation.ReflTransGen (waiting s).WaitsFor p q ∧ Moves s q) ∧
      ∀ p, ¬ Relation.TransGen (waiting s).WaitsFor p p := by
  have hfluent := fluent_of_run hstart hprovisioned hrun hcounter
  have hordered := ordered hfluent
  exact ⟨fun p hp => hordered.chain rank_lt (next hfluent hlaunch) hp,
    hordered.acyclic rank_lt⟩

theorem singleRuntime_provisioned (automatic : Bool) (allocation : AllocationStrategy)
    (scheduling : SchedulingStrategy) :
    Provisioned (singleRuntime automatic allocation scheduling).pipe.world where
  capacity := fun _ => show ∀ r, 0 ≤ nodeCapacity.amounts r by decide +kernel
  cpu := fun _ => show nodeCapacity.amounts .cpu < doubleMax by decide +kernel
  latency := fun _ => show (nodeCapacity.latencyMs : ℚ) < int64Max by decide +kernel
  demand := fun _ => TaskProfile.demand_nonneg TaskProfile.ultrasonic List.mem_cons_self
  weights := Score.positiveWeights_default

/-- A client waits for the configuration, which the processing thread holds. -/
theorem every_wait_ends_request :
    let s := Recording.machine.final { live := singleRuntime false .leastLoad .fifo }
      (startUp ++ processSteps 12 ++ [.apply 0 false "round_robin" "fifo"])
    (∀ p, Alive s p → ∃ q, Relation.ReflTransGen (waiting s).WaitsFor p q ∧ Moves s q) ∧
      ∀ p, ¬ Relation.TransGen (waiting s).WaitsFor p p :=
  every_wait_ends requested_initial (singleRuntime_provisioned _ _ _)
    (Machine.run_final (by decide +kernel)) (by decide +kernel)
    fun hmain => absurd hmain (by decide +kernel)

end EdgeAllocator.Progress
