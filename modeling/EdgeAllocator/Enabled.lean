import EdgeAllocator.Ownership
import EdgeAllocator.Capacity
import EdgeAllocator.Score

/-! Where the threads of the pipeline can come to a halt: at a mutex that another
thread holds. A scan finds a node, a comparison meets no null pointer, and no
slot for a thread is taken when a new one is spawned. -/
namespace EdgeAllocator.Pipeline

open Foundation Scheduler Executor Allocator Allocation Placement

/-- Everything that the strategies measure is below the value that the scan of
the strategy starts from. -/
structure Measured (w : World) : Prop where
  usedCpu : ∀ e, usedCpu w e < doubleMax
  latency : ∀ e, latency w e < int64Max
  queueLength : ∀ e, queueLength w e < doubleMax
  weights : Score.PositiveWeights w.allocator.weights

/-- The values read so far, where the strategy compares candidates. -/
def Credible (strategy : AllocationStrategy) (priority : TaskPriority) (reads : List ℚ) : Prop :=
  reads.length ≤ probeCount strategy ∧
    match strategy with
    | .multiConstraint => ∀ x ∈ reads, 0 ≤ x
    | _ => ∀ x ∈ reads, x < initialKey strategy priority

theorem credible_nil (strategy : AllocationStrategy) (priority : TaskPriority) :
    Credible strategy priority [] := by
  refine ⟨Nat.zero_le _, ?_⟩
  cases strategy <;> exact fun _ hx => (by cases hx)

theorem Measured.probe_lt {w : World} (h : Measured w) (priority : TaskPriority) (j : Nat)
    (e : EdgeId) : probe .leastLoad priority j (w.node e) < initialKey .leastLoad priority ∧
      probe .priorityBased priority j (w.node e) < initialKey .priorityBased priority := by
  constructor
  · have husage := h.usedCpu e
    rw [← capacity_sub_available] at husage
    exact husage
  · unfold probe initialKey
    split_ifs
    · exact h.latency e
    · exact h.queueLength e

theorem probe_nonneg (priority : TaskPriority) (j : Nat) (node : EdgeNode) :
    0 ≤ probe .multiConstraint priority j node := by
  have hlatency : (0 : ℚ) ≤ 1 / 100 := by norm_num
  match j with
  | 0 => exact (Score.normalizeScore_mem .cpu node).1
  | 1 => exact (Score.normalizeScore_mem .ram node).1
  | 2 => exact (Score.normalizeScore_mem .bandwidth node).1
  | 3 => exact hlatency.trans (Score.normalizeLatencyScore_mem node).1
  | _ + 4 => exact (Score.normalizeQueueScore_mem node).1

theorem Credible.read {w : World} (hmeasured : Measured w) {strategy : AllocationStrategy}
    {priority : TaskPriority} {reads : List ℚ} (h : Credible strategy priority reads)
    (hmore : reads.length < probeCount strategy) (e : EdgeId) :
    Credible strategy priority
      (reads ++ [probe strategy priority reads.length (w.node e)]) := by
  obtain ⟨-, hvalues⟩ := h
  have hlast := hmeasured.probe_lt priority reads.length e
  refine ⟨by simpa using hmore, ?_⟩
  cases strategy with
  | roundRobin => cases hmore
  | leastLoad =>
      exact List.forall_mem_append.mpr ⟨hvalues, List.forall_mem_singleton.mpr hlast.1⟩
  | priorityBased =>
      exact List.forall_mem_append.mpr ⟨hvalues, List.forall_mem_singleton.mpr hlast.2⟩
  | multiConstraint =>
      exact List.forall_mem_append.mpr
        ⟨hvalues, List.forall_mem_singleton.mpr (probe_nonneg priority _ _)⟩

theorem totalScore_nonneg {weights : AllocationWeights} (hweights : Score.PositiveWeights weights)
    (priority : TaskPriority) {cpu ram bandwidth latency queue : ℚ} (hcpu : 0 ≤ cpu)
    (hram : 0 ≤ ram) (hbandwidth : 0 ≤ bandwidth) (hlatency : 0 ≤ latency) (hqueue : 0 ≤ queue) :
    0 ≤ totalScore weights priority cpu ram bandwidth latency queue := by
  unfold totalScore
  have hcpu := mul_nonneg hweights.cpu.le hcpu
  have hram := mul_nonneg hweights.ram.le hram
  have hbandwidth := mul_nonneg hweights.bandwidth.le hbandwidth
  have hlatency := mul_nonneg hweights.latency.le hlatency
  have hqueue := mul_nonneg hweights.queue.le hqueue
  have hpriority := mul_nonneg hweights.priority.le (Score.priorityScore_pos priority).le
  exact mul_nonneg (by linarith) (by norm_num)

theorem doubleMax_pos : 0 < doubleMax := by decide +kernel

theorem Credible.improves {strategy : AllocationStrategy} {priority : TaskPriority}
    {reads : List ℚ} (h : Credible strategy priority reads) (hstrategy : strategy ≠ .roundRobin)
    (hread : ¬ reads.length < probeCount strategy) {weights : AllocationWeights}
    (hweights : Score.PositiveWeights weights) :
    improves strategy (candidateKey weights priority reads) (initialKey strategy priority) = true := by
  obtain ⟨hlength, hvalues⟩ := h
  have hall : reads.length = probeCount strategy := le_antisymm hlength (not_lt.mp hread)
  cases strategy with
  | roundRobin => exact absurd rfl hstrategy
  | leastLoad | priorityBased =>
      obtain ⟨x, rfl⟩ := List.length_eq_one_iff.mp hall
      exact decide_eq_true (hvalues x List.mem_cons_self)
  | multiConstraint =>
      match reads, hall with
      | [cpu, ram, bandwidth, latency, queue], _ =>
        simp only [List.forall_mem_cons] at hvalues
        obtain ⟨hcpu, hram, hbandwidth, hlatency, hqueue, -⟩ := hvalues
        have hscore := totalScore_nonneg hweights priority hcpu hram hbandwidth hlatency hqueue
        exact decide_eq_true (lt_of_lt_of_le (neg_lt_zero.mpr doubleMax_pos) hscore)

/-- A scan that has no best node so far has candidates to come, and the next of
them is going to be the best. -/
def Seeks (call : AllocCall) (w : World) : AllocPc → Prop
  | .compare _ todo reads best key => w.allocator.strategy ≠ .roundRobin ∧ (best = none →
      todo ≠ [] ∧ key = initialKey w.allocator.strategy (w.workload call.task).priority ∧
        Credible w.allocator.strategy (w.workload call.task).priority reads)
  | _ => True

theorem Seeks.step {me : Thread} {call : AllocCall} {w w' : World} {pc pc' : AllocPc}
    (h : Seeks call w pc) (hmeasured : Measured w)
    (hstep : allocStep me call w pc = some (w', pc')) : Seeks call w' pc' := by
  cases pc with
  | scan n todo viable =>
      cases todo with
      | nil =>
          simp only [allocStep] at hstep
          split_ifs at hstep with hempty hrobin
          · cases hstep
            trivial
          · obtain ⟨e, -, hnext⟩ := Option.map_eq_some_iff.mp hstep
            cases hnext
            trivial
          · cases hstep
            exact ⟨hrobin, fun _ => ⟨hempty, rfl, credible_nil _ _⟩⟩
      | cons e todo =>
          simp only [allocStep] at hstep
          split_ifs at hstep <;> cases hstep <;> trivial
  | compare n todo reads best key =>
      obtain ⟨hstrategy, hnone⟩ := h
      cases todo with
      | nil =>
          obtain ⟨e, -, hnext⟩ := Option.map_eq_some_iff.mp hstep
          cases hnext
          trivial
      | cons e todo =>
          simp only [allocStep] at hstep
          split_ifs at hstep with hmore hbetter <;> cases hstep
          · refine ⟨hstrategy, fun hbest => ?_⟩
            obtain ⟨-, hkey, hcredible⟩ := hnone hbest
            exact ⟨List.cons_ne_nil _ _, hkey, hcredible.read hmeasured hmore e⟩
          · exact ⟨hstrategy, fun hbest => by cases hbest⟩
          · refine ⟨hstrategy, fun hbest => ?_⟩
            obtain ⟨-, hkey, hcredible⟩ := hnone hbest
            rw [hkey] at hbetter
            exact absurd (hcredible.improves hstrategy hmore hmeasured.weights) hbetter
  | lock =>
      simp only [allocStep] at hstep
      split_ifs at hstep
      cases hstep
      trivial
  | examine n e todo viable =>
      cases hstep
      trivial
  | retry n =>
      simp only [allocStep] at hstep
      split at hstep
      · cases hstep
        trivial
      · cases hstep
        split_ifs <;> trivial
  | returned result => cases hstep
  | _ =>
      cases hstep
      trivial

theorem allocStep_isSome {me : Thread} {call : AllocCall} {w : World} {pc : AllocPc}
    (h : Seeks call w pc) (hlock : pc = .lock → w.allocator.strategyMutex = none)
    (hreturned : ∀ result, pc ≠ .returned result) : (allocStep me call w pc).isSome := by
  cases pc with
  | lock => simp [allocStep, hlock rfl]
  | scan n todo viable =>
      cases todo with
      | nil =>
          simp only [allocStep]
          split_ifs with hempty
          · rfl
          · have hplace := Nat.mod_lt w.allocator.roundRobinIndex (List.length_pos_iff.mpr hempty)
            rw [List.getElem?_eq_getElem hplace]
            rfl
          · rfl
      | cons e todo =>
          simp only [allocStep]
          split_ifs <;> rfl
  | compare n todo reads best key =>
      cases todo with
      | nil =>
          cases best with
          | none => exact absurd rfl (h.2 rfl).1
          | some e => rfl
      | cons e todo =>
          simp only [allocStep]
          split_ifs <;> rfl
  | retry n =>
      simp only [allocStep]
      split <;> rfl
  | returned result => exact absurd rfl (hreturned result)
  | _ => rfl

def Filled : FetchPc → Prop
  | .choose scratch => scratch ≠ []
  | _ => True

theorem fetchStep_filled {me : Thread} {e : EdgeId} {clock : ComparisonClock} {w w' : World}
    {pc pc' : FetchPc} (h : fetchStep me e clock w pc = some (w', pc')) : Filled pc' := by
  cases pc with
  | lock =>
      simp only [fetchStep] at h
      split_ifs at h
      cases h
      trivial
  | checkQueue =>
      simp only [fetchStep] at h
      split_ifs at h <;> cases h <;> trivial
  | drainCheck scratch =>
      simp only [fetchStep] at h
      split_ifs at h with hmore hempty <;> cases h
      · trivial
      · trivial
      · exact hempty
  | choose scratch =>
      obtain ⟨i, -, hnext⟩ := Option.map_eq_some_iff.mp h
      cases hnext
      trivial
  | restore selected rest => cases rest <;> cases h <;> trivial
  | returned selected => cases h
  | _ =>
      cases h
      trivial

theorem select_isSome {w : World} {clock : ComparisonClock} {scratch : List TaskPtr}
    (hfilled : scratch ≠ []) (hsolid : none ∉ scratch) : (select w clock scratch).isSome := by
  have hsome (a : TaskPtr) (ha : a ∈ scratch) : ∃ t, a = some t :=
    Option.ne_none_iff_exists'.mp fun hnone => hsolid (hnone ▸ ha)
  unfold select
  split
  · cases hscratch : scratch with
    | nil => exact absurd hscratch hfilled
    | cons first rest =>
        rw [hscratch] at hsome
        refine scanFrom_isSome (fun i a ha b hb => ?_) _ _
        obtain ⟨t, rfl⟩ := hsome a ha
        obtain ⟨u, rfl⟩ := hsome b (List.mem_cons_of_mem _ hb)
        rfl
  · refine minElement_isSome hfilled fun i a ha b hb => ?_
    obtain ⟨t, rfl⟩ := hsome a ha
    obtain ⟨u, rfl⟩ := hsome b hb
    rfl
  · rw [if_neg hfilled]
    rfl
  · rw [if_neg hfilled]
    rfl

theorem fetchStep_isSome {me : Thread} {e : EdgeId} {clock : ComparisonClock} {w : World}
    {queue : List TaskPtr} {pc : FetchPc} (hsolid : SolidFetch queue pc) (hfilled : Filled pc)
    (hlock : pc = .lock → w.scheduler.strategyMutex = none)
    (hreturned : ∀ selected, pc ≠ .returned selected) : (fetchStep me e clock w pc).isSome := by
  cases pc with
  | lock => simp [fetchStep, hlock rfl]
  | checkQueue =>
      simp only [fetchStep]
      split_ifs <;> rfl
  | drainCheck scratch =>
      simp only [fetchStep]
      split_ifs <;> rfl
  | choose scratch =>
      rw [fetchStep, Option.isSome_map]
      exact select_isSome hfilled hsolid
  | restore selected rest => cases rest <;> rfl
  | returned selected => exact absurd rfl (hreturned selected)
  | _ => rfl

theorem scheduleStep_isSome {me : Thread} {e : EdgeId} {t : TaskRef} {w : World}
    {pc : SchedulePc} (hlock : pc = .lock → w.scheduler.strategyMutex = none)
    (hreturned : pc ≠ .returned) : (scheduleStep me e t w pc).isSome := by
  cases pc with
  | lock => simp [scheduleStep, hlock rfl]
  | returned => exact absurd rfl hreturned
  | _ => rfl

/-- Which edges have a thread: all of them while the executor runs, and those
that are still to come while they are spawned have none. -/
structure Crew (s : State) : Prop where
  idle : s.control = .idle → ∀ e ∈ s.world.fleet.ids,
    (s.workers e = .notStarted ↔ s.world.executor.isRunning = false)
  spawning : ∀ todo, s.control = .spawning todo → s.world.executor.isRunning = true ∧
    todo.Nodup ∧ ∀ e ∈ s.world.fleet.ids, (s.workers e = .notStarted ↔ e ∈ todo)
  joining : ∀ todo, s.control = .joining todo → s.world.executor.isRunning = false ∧
    (∀ e ∈ todo, e ∈ s.world.fleet.ids) ∧ ∀ e ∈ s.world.fleet.ids, s.workers e ≠ .notStarted

theorem Crew.initial {s : State} (h : Initial s) : Crew s := by
  refine ⟨fun _ e _ => ?_, fun todo htodo => ?_, fun todo htodo => ?_⟩
  · simp [h.workers e, h.executor]
  · rw [h.control] at htodo
    cases htodo
  · rw [h.control] at htodo
    cases htodo

theorem workerStep_started {e : EdgeId} {input : WorkerInput} {w w' : World} {pc pc' : WorkerPc}
    (h : workerStep e input w pc = some (w', pc')) : pc ≠ .notStarted ∧ pc' ≠ .notStarted := by
  cases workerStep_move h <;> exact ⟨by rintro ⟨⟩, by rintro ⟨⟩⟩

section Crew

variable {s s' : State}

theorem Crew.of_eq (h : Crew s) (hfleet : s'.world.fleet = s.world.fleet)
    (hrunning : s'.world.executor.isRunning = s.world.executor.isRunning)
    (hcontrol : s'.control = s.control)
    (hworkers : ∀ e, s'.workers e = .notStarted ↔ s.workers e = .notStarted) : Crew s' := by
  obtain ⟨hidle, hspawning, hjoining⟩ := h
  constructor
  · intro hnow e he
    rw [hworkers, hrunning]
    exact hidle (hcontrol ▸ hnow) e (hfleet ▸ he)
  · intro todo htodo
    obtain ⟨hruns, hnodup, hspawned⟩ := hspawning todo (hcontrol ▸ htodo)
    refine ⟨hrunning.trans hruns, hnodup, fun e he => ?_⟩
    rw [hworkers]
    exact hspawned e (hfleet ▸ he)
  · intro todo htodo
    obtain ⟨hruns, hknown, hspawned⟩ := hjoining todo (hcontrol ▸ htodo)
    refine ⟨hrunning.trans hruns, fun e he => hfleet ▸ hknown e he, fun e he hnot => ?_⟩
    exact hspawned e (hfleet ▸ he) ((hworkers e).mp hnot)

theorem Crew.step {label : Label} (h : Crew s)
    (hstep : step s label = some s') : Crew s' := by
  cases step_move hstep with
  | alloc _ _ halloc =>
      refine h.of_eq (allocStep_frame halloc).fleet ?_ rfl fun _ => Iff.rfl
      exact congrArg TaskExecutor.isRunning (allocStep_executor halloc)
  | schedule _ _ hschedule =>
      refine h.of_eq (scheduleStep_frame hschedule).fleet ?_ rfl fun _ => Iff.rfl
      exact congrArg TaskExecutor.isRunning (scheduleStep_executor hschedule)
  | @work e input w pc' hwork =>
      refine h.of_eq (workerStep_frame hwork).fleet (workerStep_isRunning hwork) rfl fun e' => ?_
      obtain ⟨hbefore, hafter⟩ := workerStep_started hwork
      show Function.update s.workers e pc' e' = .notStarted ↔ _
      by_cases he : e' = e
      · rw [he, Function.update_self]
        exact iff_of_false hafter hbefore
      · rw [Function.update_of_ne he]
  | start hidle =>
      have hstopped : s.world.executor.isRunning = false := by
        by_contra hruns
        simp only [Pipeline.step, hidle, eq_true_of_ne_false hruns, if_true] at hstep
        have hcontrol := congrArg State.control (Option.some.inj hstep)
        rw [hidle] at hcontrol
        cases hcontrol
      refine ⟨fun hnow => (by cases hnow), fun todo htodo => ?_, fun todo htodo => (by cases htodo)⟩
      cases htodo
      exact ⟨rfl, s.world.fleet.nodup, fun e he =>
        iff_of_true ((h.idle hidle e he).mpr hstopped) he⟩
  | stop hidle =>
      have hruns : s.world.executor.isRunning ≠ false := by
        intro hstopped
        simp only [Pipeline.step, hidle, hstopped, Bool.false_eq_true, if_false] at hstep
        have hcontrol := congrArg State.control (Option.some.inj hstep)
        rw [hidle] at hcontrol
        cases hcontrol
      refine ⟨fun hnow => (by cases hnow), fun todo htodo => (by cases htodo), fun todo htodo => ?_⟩
      cases htodo
      exact ⟨rfl, fun _ => id, fun e he hnot => hruns ((h.idle hidle e he).mp hnot)⟩
  | @spawn e todo hcontrol hworker =>
      obtain ⟨hruns, hnodup, hspawned⟩ := h.spawning _ hcontrol
      obtain ⟨hnew, hnodup⟩ := List.nodup_cons.mp hnodup
      refine ⟨fun hnow => (by cases hnow), fun rest hrest => ?_, fun rest hrest => (by cases hrest)⟩
      cases hrest
      refine ⟨hruns, hnodup, fun e' he' => ?_⟩
      show Function.update s.workers e .loopHead e' = .notStarted ↔ _
      by_cases he : e' = e
      · rw [he, Function.update_self]
        exact iff_of_false (by rintro ⟨⟩) hnew
      · rw [Function.update_of_ne he, hspawned e' he', List.mem_cons]
        simp [he]
  | spawned hcontrol =>
      obtain ⟨hruns, -, hspawned⟩ := h.spawning _ hcontrol
      refine ⟨fun _ e he => ?_, fun todo htodo => (by cases htodo), fun todo htodo => (by cases htodo)⟩
      rw [hspawned e he, hruns]
      simp
  | @join e todo hcontrol hworker =>
      obtain ⟨hruns, hknown, hspawned⟩ := h.joining _ hcontrol
      refine ⟨fun hnow => (by cases hnow), fun rest hrest => (by cases hrest), fun rest hrest => ?_⟩
      cases hrest
      exact ⟨hruns, fun e he => hknown e (List.mem_cons_of_mem _ he), hspawned⟩
  | joined hcontrol =>
      obtain ⟨hruns, -, -⟩ := h.joining _ hcontrol
      exact ⟨fun _ e _ => iff_of_true rfl hruns, fun todo htodo => (by cases htodo),
        fun todo htodo => (by cases htodo)⟩
  | _ => exact h.of_eq rfl rfl rfl fun _ => Iff.rfl

end Crew

/-- What keeps every thread of the pipeline going. -/
structure Smooth (s : State) : Prop where
  solid : Solid s
  owned : Owned s
  crew : Crew s
  seeks : ∀ call pc, s.producer = .allocating call pc → Seeks call s.world pc
  filled : ∀ e pc, s.workers e = .fetching pc → Filled pc

theorem Smooth.initial {s : State} (h : Initial s)
    (hallocation : s.world.allocator.strategyMutex = none)
    (hscheduling : s.world.scheduler.strategyMutex = none) : Smooth s := by
  refine ⟨⟨fun e => ?_, fun e pc hpc => ?_⟩, Owned.initial h hallocation hscheduling,
    Crew.initial h, fun call pc hpc => ?_, fun e pc hpc => ?_⟩
  · obtain ⟨capacity, hnode⟩ := h.node e
    rw [hnode]
    exact List.not_mem_nil
  · rw [h.workers] at hpc
    cases hpc
  · rw [h.producer] at hpc
    cases hpc
  · rw [h.workers] at hpc
    cases hpc

theorem seeks_outside {call : AllocCall} {w : World} {pc : AllocPc} (h : pc.locked = false) :
    Seeks call w pc := by
  cases pc <;> trivial

theorem seeks_congr {call : AllocCall} {w w' : World} {pc : AllocPc} (h : Seeks call w pc)
    (hallocator : w'.allocator = w.allocator) (hworkload : w'.workload = w.workload) :
    Seeks call w' pc := by
  cases pc with
  | compare n todo reads best key =>
      unfold Seeks
      rw [hallocator, hworkload]
      exact h
  | _ => trivial

section Smooth

variable {s s' : State}

theorem seeks_step {label : Label} (h : Smooth s) (hmeasured : Measured s.world)
    (hstep : step s label = some s') {call : AllocCall} {pc : AllocPc}
    (hpc : s'.producer = .allocating call pc) : Seeks call s'.world pc := by
  cases step_move hstep with
  | produce kind now hidle =>
      cases hpc
      trivial
  | @alloc draws call' pc₁ pc' w hproducer halloc =>
      cases hpc
      exact (h.seeks _ _ hproducer).step hmeasured halloc
  | work e input hwork =>
      exact seeks_congr (h.seeks call pc hpc) (workerStep_allocator hwork)
        (workerStep_frame hwork).workload
  | setAllocation strategy =>
      -- The setter waits for the mutex, which no call can hold then.
      have hfree : s.world.allocator.strategyMutex = none := by
        by_contra hheld
        simp only [step, hheld, if_false] at hstep
        cases hstep
      refine seeks_outside (Bool.eq_false_iff.mpr fun hlocked => ?_)
      have howner := (h.owned.allocation .producer).mp (by
        rw [State.allocating, show s.producer = .allocating call pc from hpc]
        exact hlocked)
      rw [hfree] at howner
      cases howner
  | allocated _ _ _ => cases hpc
  | refused _ _ _ => cases hpc
  | schedule _ _ _ => cases hpc
  | scheduled _ _ => cases hpc
  | fluctuate _ => cases hpc
  | draw _ _ => cases hpc
  | passOver _ _ => cases hpc
  | fluctuated _ _ => cases hpc
  | _ => exact seeks_congr (h.seeks call pc hpc) rfl rfl

theorem filled_move {label : Label} (h : ∀ e pc, s.workers e = .fetching pc → Filled pc)
    (hmove : Move s label s') (e : EdgeId) (pc : FetchPc) (hpc : s'.workers e = .fetching pc) :
    Filled pc := by
  cases hmove with
  | @work e' input w pc' hwork =>
      change Function.update s.workers e' pc' e = .fetching pc at hpc
      by_cases he : e = e'
      · rw [he, Function.update_self] at hpc
        rw [hpc] at hwork
        generalize s.workers e' = start at hwork
        cases workerStep_move hwork with
        | enter _ => trivial
        | fetch hfetch => exact fetchStep_filled hfetch
      · rw [Function.update_of_ne he] at hpc
        exact h e pc hpc
  | @spawn e' todo _ _ =>
      change Function.update s.workers e' .loopHead e = .fetching pc at hpc
      by_cases he : e = e'
      · rw [he, Function.update_self] at hpc
        cases hpc
      · rw [Function.update_of_ne he] at hpc
        exact h e pc hpc
  | joined _ => cases hpc
  | _ => exact h e pc hpc

theorem Smooth.step {label : Label} (h : Smooth s) (hthreads : Threads s)
    (hmeasured : Measured s.world) (hstep : step s label = some s') : Smooth s' where
  solid := h.solid.move (step_move hstep)
  owned := h.owned.move hthreads (step_move hstep)
  crew := h.crew.step hstep
  seeks := fun _ _ hpc => seeks_step h hmeasured hstep hpc
  filled := filled_move h.filled (step_move hstep)

theorem Smooth.worker (h : Smooth s) {e : EdgeId} (hstarted : s.workers e ≠ .notStarted)
    (hexited : s.workers e ≠ .exited)
    (hlock : s.workers e = .fetching .lock → s.world.scheduler.strategyMutex = none)
    (input : WorkerInput) : (Pipeline.step s (.work e input)).isSome := by
  rw [Pipeline.step, Option.isSome_map]
  have hsolid := h.solid.fetch e
  have hfilled := h.filled e
  cases hpc : s.workers e with
  | notStarted => exact absurd hpc hstarted
  | exited => exact absurd hpc hexited
  | loopHead => rfl
  | executing t stage => cases stage <;> rfl
  | fetching pc =>
      by_cases hreturned : ∃ selected, pc = .returned selected
      · obtain ⟨selected, rfl⟩ := hreturned
        cases selected <;> rfl
      · have hnot (selected : TaskPtr) : pc ≠ .returned selected :=
          fun heq => hreturned ⟨selected, heq⟩
        have hfetch : (fetchStep (.worker e) e input.clock s.world pc).isSome :=
          fetchStep_isSome (hsolid pc hpc) (hfilled pc hpc)
            (fun heq => hlock (hpc.trans (by rw [heq]))) hnot
        cases pc with
        | returned selected => exact absurd rfl (hnot selected)
        | _ => simpa only [workerStep, Option.isSome_map] using hfetch

def ProducerPc.wants : ProducerPc → Option Mutex
  | .allocating _ .lock => some .allocation
  | .scheduling _ _ .lock => some .scheduling
  | _ => none

theorem Smooth.produce (h : Smooth s) (hbusy : s.producer ≠ .idle)
    (hallocation : s.producer.wants = some .allocation → s.world.allocator.strategyMutex = none)
    (hscheduling : s.producer.wants = some .scheduling → s.world.scheduler.strategyMutex = none)
    (draws : EdgeNode.Draws) : (Pipeline.step s (.producer draws)).isSome := by
  have hseeks := h.seeks
  rw [Pipeline.step, produceStep]
  cases hpc : s.producer with
  | idle => exact absurd hpc hbusy
  | allocating call pc =>
      rw [hpc] at hallocation
      by_cases hreturned : ∃ result, pc = .returned result
      · obtain ⟨result, rfl⟩ := hreturned
        rfl
      · have hnot (result : AllocationResult) : pc ≠ .returned result :=
          fun heq => hreturned ⟨result, heq⟩
        have halloc : (allocStep .producer call s.world pc).isSome :=
          allocStep_isSome (hseeks call pc hpc) (fun heq => hallocation (by rw [heq]; rfl)) hnot
        cases pc with
        | returned result => exact absurd rfl (hnot result)
        | _ => simpa only [Option.isSome_map] using halloc
  | scheduling t e pc =>
      rw [hpc] at hscheduling
      by_cases hreturned : pc = .returned
      · rw [hreturned]
        rfl
      · have hschedule : (scheduleStep .producer e t s.world pc).isSome :=
          scheduleStep_isSome (fun heq => hscheduling (by rw [heq]; rfl)) hreturned
        cases pc with
        | returned => exact absurd rfl hreturned
        | _ => simpa only [Option.isSome_map] using hschedule
  | fluctuating todo => cases todo <;> rfl

/-- What the nodes and the workload are like that the program starts with. -/
structure Provisioned (w : World) : Prop where
  capacity : ∀ e, 0 ≤ (w.node e).capacity.amounts
  cpu : ∀ e, (w.node e).capacity.amounts .cpu < doubleMax
  latency : ∀ e, latency w e < int64Max
  demand : ∀ t, 0 ≤ w.demand t
  weights : Score.PositiveWeights w.allocator.weights

end Smooth

theorem queueLength_le {s : State} (hsound : Sound s) (hsolid : Solid s) (e : EdgeId) :
    (s.world.node e).getQueueLength ≤ s.world.taskCounter := by
  have hgranted : (s.log.granted.map Prod.fst).length ≤ (List.range s.world.taskCounter).length :=
    (hsound.fresh.nodup.subperm fun t ht => by
      obtain ⟨grant, hgrant, rfl⟩ := List.mem_map.mp ht
      exact List.mem_range.mpr (hsound.fresh.granted grant hgrant)).length_le
  have hplaces := (hsound.custody e).length_eq
  have hedge : (tasksOn e s.log.granted).length ≤ s.log.granted.length := by
    rw [tasksOn, List.length_map]
    exact List.length_filter_le _ _
  rw [EdgeNode.getQueueLength, EdgeNode.taskQueue_eq_map (hsolid.queue e), List.length_map]
  simp only [Account.places, List.length_append, List.length_map, List.length_range]
    at hgranted hplaces
  omega

theorem Move.weights {s s' : State} {label : Label} (h : Move s label s') :
    s'.world.allocator.weights = s.world.allocator.weights := by
  cases h with
  | alloc _ _ halloc => cases allocStep_move halloc <;> rfl
  | schedule _ _ hschedule =>
      exact congrArg ResourceAllocator.weights (scheduleStep_strategies hschedule).1
  | work _ _ hwork => exact congrArg ResourceAllocator.weights (workerStep_allocator hwork)
  | _ => rfl

theorem Move.taskCounter_le {s s' : State} {label : Label} (h : Move s label s') :
    s.world.taskCounter ≤ s'.world.taskCounter := by
  cases h with
  | produce _ _ _ => exact Nat.le_succ _
  | alloc _ _ halloc => exact (allocStep_taskCounter halloc).ge
  | schedule _ _ hschedule => exact (scheduleStep_taskCounter hschedule).ge
  | work _ _ hwork => exact (workerStep_taskCounter hwork).ge
  | _ => exact le_rfl

theorem Provisioned.move {s s' : State} {label : Label} (h : Provisioned s.world)
    (hmove : Move s label s') : Provisioned s'.world := by
  have hcapacity (e : EdgeId) := hmove.frame.capacity e
  refine ⟨fun e => hcapacity e ▸ h.capacity e, fun e => hcapacity e ▸ h.cpu e, fun e => ?_,
    fun t => hmove.frame.demand t ▸ h.demand t, hmove.weights ▸ h.weights⟩
  have hlatency := h.latency e
  unfold Placement.latency EdgeNode.getLatencyMs at hlatency ⊢
  rw [hcapacity]
  exact hlatency

theorem Provisioned.measured {s : State} (h : Provisioned s.world) (hbounded : Bounded s)
    (hsound : Sound s) (hsolid : Solid s) (hcounter : (s.world.taskCounter : ℚ) < doubleMax) :
    Measured s.world where
  usedCpu := fun e => lt_of_le_of_lt ((hbounded.within e).2 .cpu) (h.cpu e)
  latency := h.latency
  queueLength := fun e =>
    lt_of_le_of_lt (Nat.cast_le.mpr (queueLength_le hsound hsolid e)) hcounter
  weights := h.weights

/-- As long as the counter of the tasks stays within the numbers that the queue
lengths are compared with, the pipeline runs smoothly. -/
theorem smooth_of_run {guard : State → Label → Prop} {start s : State} (hstart : Initial start)
    (hallocation : start.world.allocator.strategyMutex = none)
    (hscheduling : start.world.scheduler.strategyMutex = none) (hprovisioned : Provisioned start.world)
    (hrun : machine.Run guard start s) (hcounter : (s.world.taskCounter : ℚ) < doubleMax) :
    Sound s ∧ Smooth s := by
  have hinv : Sound start ∧ Bounded start ∧ Provisioned start.world ∧
      ((start.world.taskCounter : ℚ) < doubleMax → Smooth start) :=
    ⟨Sound.initial hstart, Bounded.initial hstart hprovisioned.capacity hprovisioned.demand,
      hprovisioned, fun _ => Smooth.initial hstart hallocation hscheduling⟩
  have hkeep {s t : State} {label : Label} (hs : Sound s ∧ Bounded s ∧ Provisioned s.world ∧
        ((s.world.taskCounter : ℚ) < doubleMax → Smooth s)) (_ : guard s label)
      (hstep : machine.step s label = some t) : Sound t ∧ Bounded t ∧ Provisioned t.world ∧
        ((t.world.taskCounter : ℚ) < doubleMax → Smooth t) := by
    obtain ⟨hsound, hbounded, hprovisioned, hsmooth⟩ := hs
    have hmove := step_move hstep
    refine ⟨hsound.move hmove, hbounded.move hsound hmove, hprovisioned.move hmove, fun hlater => ?_⟩
    have hnow : (s.world.taskCounter : ℚ) < doubleMax :=
      lt_of_le_of_lt (Nat.cast_le.mpr hmove.taskCounter_le) hlater
    have hsmooth := hsmooth hnow
    exact hsmooth.step hsound.threads
      (hprovisioned.measured hbounded hsound hsmooth.solid hnow) hstep
  obtain ⟨hsound, -, -, hsmooth⟩ := hrun.preserves hkeep hinv
  exact ⟨hsound, hsmooth hcounter⟩

end EdgeAllocator.Pipeline
