import EdgeAllocator.Lifecycle
import EdgeAllocator.Naming

/-! What the experiments of one process leave in `task_allocations` and
`task_execution`. Both tables are appended to and emptied once. -/
namespace EdgeAllocator.Simulator

open Foundation Scheduler Executor Allocator Allocation Pipeline
open Experiment (MainPc)

def rowsWritten (taskCount : Nat) : MainPc → Nat
  | .starting | .spawning => 0
  | .generating i | .producing i => i
  | .fluctuating i => i + 1
  | .draining _ | .polling _ | .napping _ | .stopping _ | .finished _ => taskCount

def tasksCreated (taskCount : Nat) : MainPc → Nat
  | .starting | .spawning => 0
  | .generating i => i
  | .producing i | .fluctuating i => i + 1
  | .draining _ | .polling _ | .napping _ | .stopping _ | .finished _ => taskCount

def Current (i : Nat) (result : Option (TaskRef × AllocationResult)) : ProducerPc → Prop
  | .allocating call _ => call.task = i
  | _ => ∃ outcome, result = some (i, outcome)

/-- Where the generation loop stands: each task before the current one has a row. -/
structure Progress (experiment : Experiment.State)
    (result : Option (TaskRef × AllocationResult)) (rows : List TaskRef) : Prop where
  rows : rows = List.range (rowsWritten experiment.taskCount experiment.main)
  created : experiment.pipe.world.taskCounter =
    tasksCreated experiment.taskCount experiment.main
  bound : tasksCreated experiment.taskCount experiment.main ≤ experiment.taskCount
  current : ∀ i, experiment.main = .producing i → Current i result experiment.pipe.producer

theorem taskCounter_step {s s' : Pipeline.State} {label : Pipeline.Label}
    (hstep : Pipeline.step s label = some s') (hlabel : ∀ kind now, label ≠ .produce kind now) :
    s'.world.taskCounter = s.world.taskCounter := by
  cases Pipeline.step_move hstep with
  | produce kind now _ => exact absurd rfl (hlabel kind now)
  | alloc _ _ halloc => exact allocStep_taskCounter halloc
  | schedule _ _ hschedule => exact scheduleStep_taskCounter hschedule
  | work _ _ hwork => exact workerStep_taskCounter hwork
  | _ => rfl

theorem generate_lt {experiment next : Experiment.State} {input : Experiment.MainInput} {i : Nat}
    (hmain : experiment.main = .generating i) (hnext : next.main = .producing i)
    (hstep : Experiment.step experiment (.main input) = some next) : i < experiment.taskCount := by
  simp only [Experiment.step, Experiment.mainStep, hmain] at hstep
  split_ifs at hstep with hlt
  · exact hlt
  · cases hstep
    cases hnext

theorem current_produce {experiment : Experiment.State} {pipe : Pipeline.State}
    {result : Option (TaskRef × AllocationResult)} {input : Experiment.MainInput} {i : Nat}
    (hmain : experiment.main = .producing i)
    (hcurrent : Current i result experiment.pipe.producer)
    (hpipe : Pipeline.step experiment.pipe (.producer input.draws) = some pipe) :
    recording experiment result (.main input) = none ∧
      Current i (resultAfter experiment result (.main input)) pipe.producer := by
  simp only [recording, resultAfter, hmain]
  cases Pipeline.step_move hpipe with
  | @alloc _ call pc pc' w hpc hstep =>
      rw [hpc] at hcurrent ⊢
      exact ⟨rfl, hcurrent⟩
  | allocated _ hpc _ | refused _ hpc _ =>
      rw [hpc] at hcurrent ⊢
      exact ⟨rfl, _, congrArg (fun t => some (t, _)) hcurrent⟩
  | schedule _ hpc _ | scheduled _ hpc | draw _ hpc | passOver _ hpc | fluctuated _ hpc =>
      rw [hpc] at hcurrent ⊢
      exact ⟨rfl, hcurrent⟩
  | stay _ hlabel => simp at hlabel

theorem recording_idle {experiment : Experiment.State}
    {result : Option (TaskRef × AllocationResult)} {input : Experiment.MainInput} {i : Nat}
    (hmain : experiment.main = .producing i) (hidle : experiment.pipe.producer = .idle)
    (hcurrent : Current i result experiment.pipe.producer) :
    (recording experiment result (.main input)).toList.map Prod.fst = [i] := by
  rw [hidle] at hcurrent
  obtain ⟨outcome, hresult⟩ := hcurrent
  simp only [recording, hmain, hidle, hresult, Option.toList_some, List.map_cons, List.map_nil]

theorem recording_of_ne {experiment : Experiment.State}
    {result : Option (TaskRef × AllocationResult)} {input : Experiment.MainInput}
    (hmain : ∀ i, experiment.main ≠ .producing i) :
    recording experiment result (.main input) = none := by
  unfold recording
  dsimp only
  split
  · exact absurd ‹_› (hmain _)
  · rfl

theorem Progress.quiet {experiment : Experiment.State}
    {result : Option (TaskRef × AllocationResult)} {rows : List TaskRef}
    (h : Progress experiment result rows) {input : Experiment.MainInput}
    {pipe : Pipeline.State} {main : MainPc} (hmain : ∀ i, experiment.main ≠ .producing i)
    (hmain' : ∀ i, main ≠ .producing i)
    (hcounter : pipe.world.taskCounter = experiment.pipe.world.taskCounter)
    (hwritten : rowsWritten experiment.taskCount main =
      rowsWritten experiment.taskCount experiment.main)
    (hnumber : tasksCreated experiment.taskCount main =
      tasksCreated experiment.taskCount experiment.main) :
    Progress { experiment with pipe := pipe, main := main }
      (resultAfter experiment result (.main input))
      (rows ++ (recording experiment result (.main input)).toList.map Prod.fst) := by
  rw [recording_of_ne hmain]
  refine ⟨?_, ?_, ?_, fun i hi => absurd hi (hmain' i)⟩
  · rw [hwritten, ← h.rows]
    exact List.append_nil _
  · rw [hnumber, ← h.created]
    exact hcounter
  · rw [hnumber]
    exact h.bound

theorem Progress.step {experiment next : Experiment.State}
    {result : Option (TaskRef × AllocationResult)} {rows : List TaskRef}
    {label : Experiment.Label} (h : Progress experiment result rows)
    (hstep : Experiment.step experiment label = some next) :
    Progress next (resultAfter experiment result label)
      (rows ++ (recording experiment result label).toList.map Prod.fst) := by
  have hquiet := @h.quiet
  obtain ⟨hrows, hcreated, hbound, hcurrent⟩ := h
  have hmove := Experiment.step_move hstep
  cases hmove with
  | start input hmain hpipe =>
      exact hquiet (by simp [hmain]) nofun (taskCounter_step hpipe nofun) (by rw [hmain]; rfl)
        (by rw [hmain]; rfl)
  | spawn input hmain hpipe =>
      exact hquiet (by simp [hmain]) nofun (taskCounter_step hpipe nofun) (by rw [hmain])
        (by rw [hmain])
  | spawned input hmain _ =>
      exact hquiet (by simp [hmain]) nofun rfl (by rw [hmain]; rfl) (by rw [hmain]; rfl)
  | @generate input i hmain pipe hpipe =>
      have hlt := generate_lt hmain rfl hstep
      rw [recording_of_ne (by simp [hmain])]
      rw [hmain] at hrows hcreated
      cases Pipeline.step_move hpipe with
      | produce kind now _ =>
          refine ⟨?_, ?_, hlt, fun j hj => ?_⟩
          · rw [hrows]
            exact List.append_nil _
          · exact congrArg (· + 1) hcreated
          · cases hj
            exact hcreated
      | stay _ hlabel => simp at hlabel
  | @generated input i hmain hlast =>
      rw [hmain] at hbound
      have hall : i = experiment.taskCount := Nat.le_antisymm hbound hlast
      exact hquiet (by simp [hmain]) nofun rfl (by rw [hmain, hall]; rfl) (by rw [hmain, hall]; rfl)
  | @produce input i hmain pipe hpipe =>
      obtain ⟨hnone, hnext⟩ := current_produce hmain (hcurrent i hmain) hpipe
      rw [hnone]
      rw [hmain] at hrows hcreated hbound
      refine ⟨?_, ?_, hbound, fun j hj => ?_⟩
      · rw [hrows]
        exact List.append_nil _
      · exact (taskCounter_step hpipe nofun).trans hcreated
      · cases hj
        exact hnext
  | @update input i hmain pipe hpipe =>
      have hcounter := taskCounter_step hpipe nofun
      cases Pipeline.step_move hpipe with
      | fluctuate hidle =>
          rw [recording_idle hmain hidle (hcurrent i hmain)]
          rw [hmain] at hrows hcreated hbound
          refine ⟨?_, hcounter.trans hcreated, hbound, nofun⟩
          rw [hrows]
          exact List.range_succ.symm
      | stay _ hlabel => simp at hlabel
  | fluctuate input hmain hpipe =>
      exact hquiet (by simp [hmain]) nofun (taskCounter_step hpipe nofun) (by rw [hmain])
        (by rw [hmain])
  | @next input i hmain hidle =>
      obtain hmain | hmain := hmain
      · rw [recording_idle hmain hidle (hcurrent i hmain)]
        rw [hmain] at hrows hcreated hbound
        refine ⟨?_, hcreated, hbound, nofun⟩
        rw [hrows]
        exact List.range_succ.symm
      · exact hquiet (by simp [hmain]) nofun rfl (by rw [hmain]; rfl) (by rw [hmain]; rfl)
  | @poll input main main' hmain hpoll hpoll' =>
      obtain ⟨_, rfl | rfl⟩ | ⟨_, rfl⟩ := hpoll
      all_goals
        obtain ⟨_, rfl | rfl⟩ | ⟨_, rfl⟩ := hpoll'
        all_goals
          exact hquiet (by simp [hmain]) nofun rfl (by rw [hmain]; rfl) (by rw [hmain]; rfl)
  | stop input hmain hpipe =>
      exact hquiet (by simp [hmain]) nofun (taskCounter_step hpipe nofun) (by rw [hmain]; rfl)
        (by rw [hmain]; rfl)
  | join input hmain hpipe =>
      exact hquiet (by simp [hmain]) nofun (taskCounter_step hpipe nofun) (by rw [hmain])
        (by rw [hmain])
  | joined input hmain _ =>
      exact hquiet (by simp [hmain]) nofun rfl (by rw [hmain]; rfl) (by rw [hmain]; rfl)
  | @work e input pipe hpipe =>
      have hcounter := taskCounter_step hpipe nofun
      have hother : NotByProducer (.work e input) := rfl
      have hproducer := hother.producer hpipe
      refine ⟨(List.append_nil _).trans hrows, hcounter.trans hcreated, hbound, fun i hi => ?_⟩
      rw [hproducer]
      exact hcurrent i hi

theorem workerStep_executions {e : EdgeId} {input : WorkerInput} {w w' : World}
    {pc pc' : WorkerPc} (h : workerStep e input w pc = some (w', pc')) :
    w'.database.executions = w.database.executions ++ (saves pc).toList := by
  cases workerStep_move h with
  | fetch hfetch =>
      obtain ⟨queue, mutex, rfl, -⟩ := fetchStep_effect hfetch
      exact (List.append_nil _).symm
  | @exec t stage _ =>
      cases stage with
      | persistExecution verdict => rfl
      | _ => exact (List.append_nil _).symm
  | _ => exact (List.append_nil _).symm

theorem allocStep_executions {me : Thread} {call : AllocCall} {w w' : World} {pc pc' : AllocPc}
    (h : allocStep me call w pc = some (w', pc')) :
    w'.database.executions = w.database.executions := by
  cases allocStep_move h <;> rfl

theorem scheduleStep_executions {me : Thread} {e : EdgeId} {t : TaskRef} {w w' : World}
    {pc pc' : SchedulePc} (h : scheduleStep me e t w pc = some (w', pc')) :
    w'.database.executions = w.database.executions := by
  cases pc with
  | lock =>
      simp only [scheduleStep] at h
      split_ifs at h <;> cases h <;> rfl
  | returned => cases h
  | _ =>
      cases h
      rfl

theorem executions_move {s s' : Pipeline.State} {label : Pipeline.Label}
    (hmove : Pipeline.Move s label s') : s'.world.database.executions =
      s.world.database.executions ++ (match label with
        | .work e _ => (saves (s.workers e)).toList
        | _ => []) := by
  cases hmove with
  | alloc _ _ halloc => exact (allocStep_executions halloc).trans (List.append_nil _).symm
  | schedule _ _ hschedule =>
      exact (scheduleStep_executions hschedule).trans (List.append_nil _).symm
  | work _ _ hwork => exact workerStep_executions hwork
  | stay _ hlabel =>
      obtain rfl | rfl := hlabel
      · exact (List.append_nil _).symm
      · exact (List.append_nil _).symm
  | _ => exact (List.append_nil _).symm

theorem executions_step {experiment next : Experiment.State} {label : Experiment.Label}
    (hstep : Experiment.step experiment label = some next) :
    next.pipe.world.database.executions =
      experiment.pipe.world.database.executions ++ (saving experiment label).toList := by
  obtain ⟨⟨input, rfl⟩, hsame⟩ | ⟨pipeLabel, hdrives, hpipe⟩ := (Experiment.step_move hstep).pipeline
  · rw [hsame]
    exact (List.append_nil _).symm
  · rw [executions_move (Pipeline.step_move hpipe)]
    cases label with
    | work e input =>
        cases hdrives
        rfl
    | main input =>
        cases pipeLabel with
        | work e input => exact absurd rfl (hdrives.1 e input)
        | _ => rfl

theorem executionReturned_move {s s' : Pipeline.State} {label : Pipeline.Label} {t : TaskRef}
    (hthreads : Threads s) (hmove : Pipeline.Move s label s') (h : ExecutionReturned s t) :
    ExecutionReturned s' t := by
  obtain ⟨e, h⟩ := h
  cases hmove with
  | @work e' input w pc' hstep =>
      refine ⟨e, ?_⟩
      obtain hworker | hfinished := h
      · by_cases he : e = e'
        · subst he
          refine Or.inr (List.mem_append_right _ ?_)
          rw [hworker]
          exact List.mem_singleton_self _
        · exact Or.inl ((Function.update_of_ne he _ _).trans hworker)
      · exact Or.inr (List.mem_append_left _ hfinished)
  | @spawn e' todo hcontrol hnone =>
      refine ⟨e, h.imp_left fun hworker => ?_⟩
      have he : e ≠ e' := by
        rintro rfl
        cases hnone.symm.trans hworker
      exact (Function.update_of_ne he _ _).trans hworker
  | joined hcontrol =>
      obtain hworker | hfinished := h
      · by_cases he : e ∈ s.world.fleet.ids
        · have hexited := hthreads.joining [] hcontrol e he List.not_mem_nil
          cases hexited.symm.trans hworker
        · cases (hthreads.foreign e he).symm.trans hworker
      · exact ⟨e, Or.inr hfinished⟩
  | _ => exact ⟨e, h⟩

theorem not_executionReturned {s : Pipeline.State} (h : Sound s) {e : EdgeId} {t : TaskRef}
    {stage : ExecStage} (hworker : s.workers e = .executing t stage) (hstage : stage ≠ .returned) :
    ¬ExecutionReturned s t := by
  rintro ⟨e', hreturned⟩
  have hheld : t ∈ (s.workers e).held := by
    rw [hworker]
    exact List.mem_singleton_self t
  have hother : (e' ≠ e ∧ t ∈ (s.workers e').held) ∨ (t, e') ∈ s.log.finished := by
    refine hreturned.imp_left fun hworker' => ?_
    constructor
    · rintro rfl
      cases hworker.symm.trans hworker'
      exact hstage rfl
    · rw [hworker']
      exact List.mem_singleton_self t
  exact hand_ne h hheld hother rfl

theorem executionReturned_lt {s : Pipeline.State} (h : Sound s) {t : TaskRef}
    (hreturned : ExecutionReturned s t) : t < s.world.taskCounter := by
  obtain ⟨e, hreturned⟩ := hreturned
  have hplace : t ∈ s.allPlaces e := by
    obtain hworker | hfinished := hreturned
    · simp [State.allPlaces, Account.places, custody, hworker, WorkerPc.held]
    · exact List.mem_append_right _ (mem_tasksOn.mpr hfinished)
  exact h.fresh.granted _ (granted_of_mem h hplace)

/-- The rows of `task_execution` that the experiment has written: one for a task,
whose execution has returned. -/
structure Saved (experiment : Experiment.State) (rows : List ExecutionRow) : Prop where
  nodup : (rows.map ExecutionRow.task).Nodup
  returned : ∀ row ∈ rows, ExecutionReturned experiment.pipe row.task

theorem saves_eq {pc : WorkerPc} {row : ExecutionRow} (h : saves pc = some row) :
    ∃ verdict, pc = .executing row.task (.persistExecution verdict) := by
  unfold saves at h
  split at h
  · cases h
    exact ⟨_, rfl⟩
  · cases h

theorem returned_of_saves {s s' : Pipeline.State} {e : EdgeId} {input : WorkerInput}
    {row : ExecutionRow} (h : saves (s.workers e) = some row)
    (hstep : Pipeline.step s (.work e input) = some s') : ExecutionReturned s' row.task := by
  obtain ⟨verdict, hworker⟩ := saves_eq h
  simp only [Pipeline.step, hworker] at hstep
  cases hstep
  exact ⟨e, Or.inl (Function.update_self ..)⟩

theorem Saved.step {experiment next : Experiment.State} {rows : List ExecutionRow}
    {label : Experiment.Label} (h : Saved experiment rows) (hsound : Sound experiment.pipe)
    (hstep : Experiment.step experiment label = some next) :
    Saved next (rows ++ (saving experiment label).toList) := by
  have hkept : ∀ row ∈ rows, ExecutionReturned next.pipe row.task := by
    intro row hrow
    obtain ⟨-, hsame⟩ | ⟨pipeLabel, -, hpipe⟩ := (Experiment.step_move hstep).pipeline
    · rw [hsame]
      exact h.returned row hrow
    · exact executionReturned_move hsound.threads (Pipeline.step_move hpipe) (h.returned row hrow)
  cases hsaving : saving experiment label with
  | none =>
      rw [Option.toList_none, List.append_nil]
      exact ⟨h.nodup, hkept⟩
  | some row =>
      cases label with
      | main input => cases hsaving
      | work e input =>
          obtain ⟨pipe, hpipe, rfl⟩ := Experiment.drive_some hstep
          obtain ⟨verdict, hworker⟩ := saves_eq hsaving
          constructor
          · rw [List.map_append]
            refine h.nodup.append (List.nodup_singleton _) (List.disjoint_singleton.mpr ?_)
            intro hold
            obtain ⟨old, hmem, hsame⟩ := List.mem_map.mp hold
            apply not_executionReturned hsound hworker nofun
            rw [← hsame]
            exact h.returned old hmem
          · intro row' hrow'
            obtain hold | hnew := List.mem_append.mp hrow'
            · exact hkept row' hold
            · cases List.mem_singleton.mp hnew
              exact returned_of_saves hsaving hpipe

theorem taskCount_step {experiment next : Experiment.State} {label : Experiment.Label}
    (hstep : Experiment.step experiment label = some next) :
    next.taskCount = experiment.taskCount := by
  cases Experiment.step_move hstep <;> rfl

theorem allocationRow_task (config : SimulationConfig) (result : TaskRef × AllocationResult) :
    (allocationRow config result).task = result.1 := by
  obtain ⟨t, result⟩ := result
  unfold allocationRow
  dsimp only
  split
  · rfl
  · rfl

variable {G : Type} {distributions : Distributions G} {seed : G} {s s' : State G}

def State.writtenTasks (s : State G) : List TaskRef := s.written.map fun entry => entry.row.task

def State.executions (s : State G) : List ExecutionRow :=
  match s.phase with
  | .running _ _ experiment => experiment.pipe.world.database.executions
  | _ => s.database.executions

theorem executions_running {strategy : AllocationStrategy} {todo : List AllocationStrategy}
    {experiment : Experiment.State} (hphase : s.phase = .running strategy todo experiment) :
    s.executions = experiment.pipe.world.database.executions := by
  unfold State.executions
  rw [hphase]

theorem executions_between {todo : List AllocationStrategy} (hphase : s.phase = .between todo) :
    s.executions = s.database.executions := by
  unfold State.executions
  rw [hphase]

theorem writtenTasks_follow (s : State G) (experiment : Experiment.State)
    (label : Experiment.Label) (phase : Phase) :
    (s.follow experiment label phase).writtenTasks =
      s.writtenTasks ++ (recording experiment s.result label).toList.map Prod.fst := by
  unfold State.writtenTasks State.follow State.entries
  rw [List.map_append, List.map_map]
  congr 1
  exact List.map_congr_left fun result _ => allocationRow_task s.config result

/-- Both tables hold the rows of the last experiment after the rows of those before,
each of which has left one row for a task in `task_allocations`. -/
structure Appended (s : State G) : Prop where
  allocations : ∃ earlier, s.allocations = earlier ++ s.written.map Entry.row ∧
    earlier.length = (s.fleets.length - 1) * s.config.taskCount
  executions : ∃ earlier, s.executions = earlier ++ s.executed ∧
    (s.fleets.length ≤ 1 → earlier = []) ∧ ∀ row ∈ earlier, row.task < s.config.taskCount

structure Complete (s : State G) : Prop where
  written : s.writtenTasks = List.range s.config.taskCount
  nodup : (s.executed.map ExecutionRow.task).Nodup
  bound : ∀ row ∈ s.executed, row.task < s.config.taskCount

structure Underway (s : State G) (experiment : Experiment.State) : Prop where
  fleets : s.fleets ≠ []
  appended : Appended s
  taskCount : experiment.taskCount = s.config.taskCount
  reachable : Experiment.machine.Reachable Machine.free experiment
  progress : Progress experiment s.result s.writtenTasks
  saved : Saved experiment s.executed

inductive Standing (s : State G) : Prop where
  | starting (hphase : s.phase = .starting) (hfleets : s.fleets = []) (hwritten : s.written = [])
      (hexecuted : s.executed = [])
  | ready {todo : List AllocationStrategy} (hphase : s.phase = .between todo)
      (hfleets : s.fleets = []) (hallocations : s.allocations = []) (hwritten : s.written = [])
      (hexecutions : s.executions = []) (hexecuted : s.executed = [])
  | running {strategy : AllocationStrategy} {todo : List AllocationStrategy}
      {experiment : Experiment.State} (hphase : s.phase = .running strategy todo experiment)
      (hunderway : Underway s experiment)
  | between {todo : List AllocationStrategy} (hphase : s.phase = .between todo)
      (hfleets : s.fleets ≠ []) (happended : Appended s) (hcomplete : Complete s)

theorem Standing.initial (h : Initial seed s) : Standing s :=
  .starting h.phase h.fleets h.written h.executed

theorem Standing.underway {strategy : AllocationStrategy} {todo : List AllocationStrategy}
    {experiment : Experiment.State} (h : Standing s)
    (hphase : s.phase = .running strategy todo experiment) : Underway s experiment := by
  cases h with
  | starting hstarting => cases hphase.symm.trans hstarting
  | ready hready => cases hphase.symm.trans hready
  | between hbetween => cases hphase.symm.trans hbetween
  | running hrunning hunderway =>
      cases hphase.symm.trans hrunning
      exact hunderway

theorem Standing.begin {strategy : AllocationStrategy} {todo : List AllocationStrategy}
    (h : Standing s) (hphase : s.phase = .between (strategy :: todo)) :
    Standing (s.begin distributions strategy todo) := by
  have hlength : (s.begin distributions strategy todo).fleets.length = s.fleets.length + 1 :=
    List.length_append
  have hexecutions : (s.begin distributions strategy todo).executions = s.executions :=
    (executions_between hphase).symm
  have happended : Appended (s.begin distributions strategy todo) := by
    cases h with
    | starting hstarting => cases hphase.symm.trans hstarting
    | running hrunning => cases hphase.symm.trans hrunning
    | ready _ hfleets hallocations _ hempty _ =>
        constructor
        · refine ⟨[], hallocations, ?_⟩
          rw [hlength, hfleets]
          exact (Nat.zero_mul _).symm
        · exact ⟨[], hexecutions.trans hempty, fun _ => rfl, nofun⟩
    | between _ hfleets happended hcomplete =>
        have hpos : 0 < s.fleets.length := List.length_pos_of_ne_nil hfleets
        constructor
        · obtain ⟨earlier, hallocations, hearlier⟩ := happended.allocations
          refine ⟨s.allocations, (List.append_nil _).symm, ?_⟩
          have hwritten : s.written.length = s.config.taskCount := by
            have hlast := congrArg List.length hcomplete.written
            rwa [State.writtenTasks, List.length_map, List.length_range] at hlast
          calc s.allocations.length
              = (s.fleets.length - 1) * s.config.taskCount + s.config.taskCount := by
                rw [hallocations, List.length_append, List.length_map, hearlier, hwritten]
            _ = s.fleets.length * s.config.taskCount := by
                rw [← Nat.succ_mul, Nat.succ_eq_add_one, Nat.sub_add_cancel hpos]
            _ = _ := by
                rw [hlength, Nat.add_sub_cancel]
                rfl
        · obtain ⟨earlier, hrows, -, hearlier⟩ := happended.executions
          refine ⟨s.executions, hexecutions.trans (List.append_nil _).symm, ?_, ?_⟩
          · intro hle
            rw [hlength] at hle
            omega
          · intro row hrow
            rw [hrows] at hrow
            obtain hold | hlast := List.mem_append.mp hrow
            · exact hearlier row hold
            · exact hcomplete.bound row hlast
  refine .running rfl ?_
  constructor
  · exact List.append_ne_nil_of_right_ne_nil _ (List.cons_ne_nil _ _)
  · exact happended
  · rfl
  · exact ⟨_, constructExperiment_initial _ _ _ _ _ _, .refl _⟩
  · exact ⟨rfl, rfl, Nat.zero_le _, nofun⟩
  · exact ⟨List.nodup_nil, nofun⟩

theorem Standing.follow {strategy : AllocationStrategy} {todo : List AllocationStrategy}
    {experiment next : Experiment.State} {label : Experiment.Label} (h : Standing s)
    (hphase : s.phase = .running strategy todo experiment)
    (hstep : Experiment.step experiment label = some next) :
    Standing (s.follow experiment label (.running strategy todo next)) := by
  have hunderway := h.underway hphase
  have hsound := (Experiment.sound_of_reachable hunderway.reachable).2.1
  refine .running rfl ?_
  constructor
  · exact hunderway.fleets
  · obtain ⟨earlier, hallocations, hlength⟩ := hunderway.appended.allocations
    obtain ⟨earlier', hexecutions, hfirst, hbound⟩ := hunderway.appended.executions
    refine ⟨⟨earlier, ?_, hlength⟩, earlier', ?_, hfirst, hbound⟩
    · show s.allocations ++ _ = earlier ++ List.map Entry.row (s.written ++ _)
      rw [hallocations, List.map_append, List.append_assoc]
    · rw [executions_running hphase] at hexecutions
      show next.pipe.world.database.executions = earlier' ++ (s.executed ++ _)
      rw [executions_step hstep, hexecutions, List.append_assoc]
  · exact (taskCount_step hstep).trans hunderway.taskCount
  · exact hunderway.reachable.run (.tail (.refl _) trivial hstep)
  · rw [writtenTasks_follow]
    exact hunderway.progress.step hstep
  · exact hunderway.saved.step hsound hstep

theorem Standing.finish {strategy : AllocationStrategy} {todo : List AllocationStrategy}
    {experiment : Experiment.State} {drained : Bool} (h : Standing s)
    (hphase : s.phase = .running strategy todo experiment)
    (hmain : experiment.main = .finished drained) :
    Standing { s with
      database := experiment.pipe.world.database, phase := .between todo } := by
  have hunderway := h.underway hphase
  have hsound := (Experiment.sound_of_reachable hunderway.reachable).2.1
  have happended := hunderway.appended
  refine .between rfl hunderway.fleets ⟨happended.allocations, ?_⟩ ⟨?_, hunderway.saved.nodup, ?_⟩
  · obtain ⟨earlier, hexecutions, hrest⟩ := happended.executions
    exact ⟨earlier, (executions_running hphase).symm.trans hexecutions, hrest⟩
  · have hrows := hunderway.progress.rows
    rw [hmain] at hrows
    rw [← hunderway.taskCount]
    exact hrows
  · intro row hrow
    have hcreated := hunderway.progress.created
    rw [hmain] at hcreated
    rw [← hunderway.taskCount]
    exact (executionReturned_lt hsound (hunderway.saved.returned row hrow)).trans_eq hcreated

theorem Standing.move {label : Label} (h : Standing s) (hmove : Move distributions s label s') :
    Standing s' := by
  cases hmove with
  | reset hphase =>
      cases h with
      | starting _ hfleets hwritten hexecuted =>
          exact .ready rfl hfleets rfl hwritten rfl hexecuted
      | ready hready => cases hphase.symm.trans hready
      | running hrunning => cases hphase.symm.trans hrunning
      | between hbetween => cases hphase.symm.trans hbetween
  | begin hphase => exact h.begin hphase
  | finish hphase hmain => exact h.finish hphase hmain
  | follow hphase hstep => exact h.follow hphase hstep

theorem standing_of_reachable (hs : (machine distributions seed).Reachable Machine.free s) :
    Standing s :=
  hs.invariant Standing.initial fun h _ hstep => h.move (step_move hstep)

/-- The tables hold the rows of the last experiment only, and so at most one
allocation and one execution of each task. -/
structure Uncontaminated (s : State G) : Prop where
  allocations : s.allocations = s.written.map Entry.row
  executions : s.database.executions = s.executed
  allocatedOnce : ∀ t, (s.allocations.countP fun row => row.success && row.task = t) ≤ 1
  executedOnce : ∀ t, (s.database.executions.countP fun row => row.task = t) ≤ 1

theorem countP_task_le {Row : Type} (task : Row → TaskRef) {rows : List Row}
    (h : (rows.map task).Nodup) {selects : Row → Bool} {t : TaskRef}
    (hselects : ∀ row ∈ rows, selects row = true → task row = t) : rows.countP selects ≤ 1 := by
  calc rows.countP selects
      ≤ rows.countP ((· == t) ∘ task) := by
        refine List.countP_mono_left fun row hrow hselected => ?_
        exact beq_iff_eq.mpr (hselects row hrow hselected)
    _ = (rows.map task).count t := List.countP_map.symm
    _ ≤ 1 := List.nodup_iff_count_le_one.mp h t

theorem Complete.uncontaminated (h : Complete s)
    (hallocations : s.allocations = s.written.map Entry.row)
    (hexecutions : s.database.executions = s.executed) : Uncontaminated s where
  allocations := hallocations
  executions := hexecutions
  allocatedOnce := by
    intro t
    have hnodup : (s.allocations.map AllocationRow.task).Nodup := by
      have htasks : (s.allocations.map AllocationRow.task) = s.writtenTasks := by
        rw [hallocations, List.map_map]
        rfl
      rw [htasks, h.written]
      exact List.nodup_range
    exact countP_task_le AllocationRow.task hnodup fun row _ hselected =>
      of_decide_eq_true (Bool.and_eq_true_iff.mp hselected).2
  executedOnce := by
    intro t
    rw [hexecutions]
    exact countP_task_le ExecutionRow.task h.nodup fun row _ hselected =>
      of_decide_eq_true hselected

/-- The experiments begun so far have ended. -/
def Phase.Between : Phase → Prop
  | .between _ => True
  | _ => False

instance (phase : Phase) : Decidable phase.Between :=
  match phase with
  | .between _ => .isTrue trivial
  | .starting => .isFalse id
  | .running .. => .isFalse id

/-- After an experiment the tables hold what it has written exactly if it was the
first one or there are no tasks. -/
theorem uncontaminated_iff (hs : (machine distributions seed).Reachable Machine.free s)
    (hbetween : s.phase.Between) :
    Uncontaminated s ↔ s.fleets.length ≤ 1 ∨ s.config.taskCount = 0 := by
  cases standing_of_reachable hs with
  | starting hphase =>
      rw [hphase] at hbetween
      exact hbetween.elim
  | running hphase =>
      rw [hphase] at hbetween
      exact hbetween.elim
  | ready hphase hfleets hallocations hwritten hexecutions hexecuted =>
      rw [executions_between hphase] at hexecutions
      refine iff_of_true ?_ (Or.inl ?_)
      · constructor
        · rw [hallocations, hwritten]
          rfl
        · rw [hexecutions, hexecuted]
        · intro t
          rw [hallocations]
          exact Nat.zero_le 1
        · intro t
          rw [hexecutions]
          exact Nat.zero_le 1
      · rw [hfleets]
        exact Nat.zero_le 1
  | between hphase hfleets happended hcomplete =>
      obtain ⟨earlier, hallocations, hlength⟩ := happended.allocations
      obtain ⟨earlier', hexecutions, hfirst, hbound⟩ := happended.executions
      rw [executions_between hphase] at hexecutions
      constructor
      · intro h
        have hempty : earlier = [] := by
          have hlast := h.allocations
          rw [hallocations] at hlast
          exact List.append_left_eq_self.mp hlast
        rw [hempty, List.length_nil] at hlength
        obtain hlast | hcount := Nat.mul_eq_zero.mp hlength.symm
        · exact Or.inl (Nat.le_of_sub_eq_zero hlast)
        · exact Or.inr hcount
      · intro h
        have hempty : earlier = [] := by
          apply List.eq_nil_of_length_eq_zero
          rw [hlength, Nat.mul_eq_zero]
          exact h.imp_left Nat.sub_eq_zero_of_le
        have hempty' : earlier' = [] := by
          obtain hone | hcount := h
          · exact hfirst hone
          · apply List.eq_nil_iff_forall_not_mem.mpr
            intro row hrow
            have hlt := hbound row hrow
            rw [hcount] at hlt
            exact Nat.not_lt_zero _ hlt
        rw [hempty] at hallocations
        rw [hempty'] at hexecutions
        exact hcomplete.uncontaminated hallocations hexecutions

def taskExperiment (n : Nat) : List Label :=
  [.advance] ++ mainSteps n ++ workSteps 22 ++ mainSteps 5 ++ workSteps 1 ++ mainSteps 3 ++
    [.advance]

def compared (labels : List Label) : State Mt19937 :=
  (machine mt19937 (Mt19937.seeded 42)).final
    (launched { taskCount := 1, runComparison := true }) labels

theorem uncontaminated_iff_first :
    let ended := compared (.advance :: taskExperiment 25)
    Uncontaminated ended ↔ ended.fleets.length ≤ 1 ∨ ended.config.taskCount = 0 :=
  uncontaminated_iff (Machine.reachable_final (launched_initial _) (by decide +kernel))
    (by decide +kernel)

/-- After two experiments the first task has two executions. -/
theorem second_experiment_contaminates :
    ¬∀ s : State Mt19937, (machine mt19937 (Mt19937.seeded 42)).Reachable Machine.free s →
      s.phase.Between → Uncontaminated s := by
  intro h
  have hreachable : (machine mt19937 (Mt19937.seeded 42)).Reachable Machine.free
      (compared (.advance :: (taskExperiment 25 ++ taskExperiment 28))) :=
    Machine.reachable_final (launched_initial _) (by decide +kernel)
  have honce := (h _ hreachable (by decide +kernel)).executedOnce 0
  exact absurd honce (by decide +kernel)

end EdgeAllocator.Simulator
