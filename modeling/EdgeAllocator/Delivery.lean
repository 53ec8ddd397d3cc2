import EdgeAllocator.Lifecycle
import EdgeAllocator.Liveness

/-! No task is left in a queue where the scheduler is fair: while the executor runs, the
worker of its edge executes it to the end, whatever the policy. -/
namespace EdgeAllocator

namespace Executor

open Scheduler Pipeline

/-- The steps of a worker until an execution of its own has returned, where it finds a
task and the queue holds no more than `bound`. -/
def WorkerPc.service (bound queue : Nat) : WorkerPc → Nat
  | .fetching (.unlock none) => 3 * bound + 24
  | .fetching (.returned none) => 3 * bound + 23
  | .loopHead => 3 * bound + 22
  | .fetching .lock => 3 * bound + 21
  | pc => pc.effort queue

theorem effort_le_service {bound queue : Nat} (h : queue ≤ bound) (pc : FetchPc) :
    pc.effort queue + 15 ≤ (WorkerPc.fetching pc).service bound queue := by
  cases pc with
  | lock =>
      simp only [WorkerPc.service, FetchPc.effort]
      omega
  | unlock selected =>
      cases selected <;> simp only [WorkerPc.service, WorkerPc.effort, FetchPc.effort] <;> omega
  | returned selected =>
      cases selected <;> simp only [WorkerPc.service, WorkerPc.effort, FetchPc.effort] <;> omega
  | _ => exact le_rfl

theorem service_eq {bound queue : Nat} {pc : FetchPc} (hlock : pc ≠ .lock)
    (hunlock : pc ≠ .unlock none) (hreturned : pc ≠ .returned none) :
    (WorkerPc.fetching pc).service bound queue = pc.effort queue + 15 := by
  cases pc with
  | lock => exact absurd rfl hlock
  | unlock selected =>
      cases selected with
      | none => exact absurd rfl hunlock
      | some t => rfl
  | returned selected =>
      cases selected with
      | none => exact absurd rfl hreturned
      | some t => rfl
  | _ => rfl

theorem service_unlocked {bound queue queue' : Nat} {pc : WorkerPc}
    (h : pc.schedulingLocked = false) : pc.service bound queue = pc.service bound queue' := by
  cases pc with
  | fetching pc =>
      cases pc with
      | lock => rfl
      | returned selected => cases selected <;> rfl
      | _ => cases h
  | _ => rfl

theorem fetchStep_finds {me : Thread} {e : EdgeId} {clock : ComparisonClock} {w w' : World}
    {pc pc' : FetchPc} (h : fetchStep me e clock w pc = some (w', pc')) {t : TaskRef}
    (hthere : t ∈ (w.node e).queued ++ pc.held) (hqueue : none ∉ (w.node e).taskQueue)
    (hsolid : SolidFetch (w.node e).taskQueue pc) :
    pc' ≠ .lock ∧ pc' ≠ .unlock none ∧ (pc' = .returned none → pc = .unlock none) := by
  have hfound (hempty : (w.node e).taskQueue = []) : t ∈ pc.held := by
    simpa [EdgeNode.queued, hempty] using hthere
  cases pc with
  | lock =>
      simp only [fetchStep] at h
      split_ifs at h
      cases h
      simp
  | checkQueue =>
      simp only [fetchStep] at h
      split_ifs at h with htasks hfifo
      · cases h
        simp
      · cases h
        simp
      · have hempty : (w.node e).taskQueue = [] := by
          simpa [EdgeNode.hasTasksInQueue] using htasks
        cases hfound hempty
  | popFront =>
      cases h
      refine ⟨by simp, ?_, by simp⟩
      intro hnone
      cases htasks : (w.node e).taskQueue with
      | nil => exact hsolid htasks
      | cons task rest =>
          simp only [EdgeNode.dequeueTask, htasks, FetchPc.unlock.injEq] at hnone
          rw [htasks, hnone] at hqueue
          exact hqueue List.mem_cons_self
  | drainCheck scratch =>
      simp only [fetchStep] at h
      split_ifs at h with htasks hscratch
      · cases h
        simp
      · have hempty : (w.node e).taskQueue = [] := by
          simpa [EdgeNode.hasTasksInQueue] using htasks
        have hheld := hfound hempty
        rw [hscratch] at hheld
        cases hheld
      · cases h
        simp
  | drainPop scratch =>
      cases h
      simp
  | choose scratch =>
      obtain ⟨i, hi, hnext⟩ := Option.map_eq_some_iff.mp h
      cases hnext
      simp
  | restore selected rest =>
      cases rest with
      | nil =>
          cases h
          refine ⟨by simp, ?_, by simp⟩
          intro hnone
          exact hsolid.1 (FetchPc.unlock.inj hnone)
      | cons task rest =>
          cases h
          simp
  | unlock selected =>
      cases h
      simp
  | returned selected => cases h

theorem workerStep_service {e : EdgeId} {input : WorkerInput} {w w' : World} {pc pc' : WorkerPc}
    {bound : Nat} (h : workerStep e input w pc = some (w', pc'))
    (hrunning : w.executor.isRunning = true) (hbound : (w.node e).taskQueue.length ≤ bound)
    {t : TaskRef} (hthere : t ∈ (w.node e).queued ++ pc.held)
    (hqueue : none ∉ (w.node e).taskQueue)
    (hsolid : ∀ fetch, pc = .fetching fetch → SolidFetch (w.node e).taskQueue fetch)
    (hopen : pc.finishes = []) :
    pc'.service bound (w'.node e).taskQueue.length <
      pc.service bound (w.node e).taskQueue.length := by
  cases workerStep_move h with
  | enter _ => exact Nat.lt_succ_self _
  | leave hstopped =>
      rw [hrunning] at hstopped
      cases hstopped
  | @fetch pc pc' _ hfetch =>
      obtain ⟨hlock, hunlock, hreturned⟩ := fetchStep_finds hfetch hthere hqueue (hsolid pc rfl)
      by_cases hnone : pc' = .returned none
      · rw [hreturned hnone, hnone]
        exact Nat.lt_succ_self _
      · rw [service_eq hlock hunlock hnone]
        have hless := fetchStep_effort hfetch
        have hle := effort_le_service hbound pc
        omega
  | idle => exact Nat.lt_succ_self _
  | take t => simp [WorkerPc.service, WorkerPc.effort, FetchPc.effort, ExecStage.effort]
  | exec t hreturned => exact Nat.add_lt_add_right (execStep_effort hreturned) 2
  | finish t => cases hopen

end Executor

namespace Pipeline

open Scheduler Executor Allocation

theorem mem_queued_enqueueTask {node : EdgeNode} {t : TaskRef} (task : TaskPtr)
    (h : t ∈ node.queued) : t ∈ (node.enqueueTask task).queued := by
  rw [EdgeNode.queued_enqueueTask]
  exact List.mem_append_left _ h

theorem handedOver_move {s s' : State} {label : Label} (hsound : Sound s)
    (hmove : Move s label s') {t : TaskRef} {e : EdgeId} (h : t ∈ s.handedOver e) :
    t ∈ s'.handedOver e := by
  have hkept (hqueue : t ∈ (s.world.node e).queued → t ∈ (s'.world.node e).queued)
      (hheld : (s'.workers e).held = (s.workers e).held)
      (hfinished : (t, e) ∈ s.log.finished → (t, e) ∈ s'.log.finished) : t ∈ s'.handedOver e := by
    rw [mem_handedOver] at h ⊢
    rw [hheld]
    exact h.imp hqueue (Or.imp_right hfinished)
  cases hmove with
  | @alloc _ call pc pc' w _ halloc =>
      refine hkept (fun ht => ?_) rfl id
      obtain ⟨hnode, -, -⟩ | ⟨n, e', score, -, -, hnext⟩ := allocStep_node halloc
      · rw [hnode]
        exact ht
      · rw [hnext]
        by_cases heq : e = e'
        · rw [← heq, World.modifyNode_self]
          exact ht
        · rw [World.modifyNode_of_ne _ _ heq]
          exact ht
  | @schedule _ u e' pc pc' w _ hschedule =>
      refine hkept (fun ht => ?_) rfl id
      obtain ⟨-, hnode⟩ | ⟨-, -, hnode⟩ := scheduleStep_node hschedule
      · rw [hnode]
        exact ht
      · rw [hnode]
        by_cases heq : e = e'
        · rw [← heq, World.modifyNode_self]
          exact mem_queued_enqueueTask _ ht
        · rw [World.modifyNode_of_ne _ _ heq]
          exact ht
  | @draw _ e' todo _ =>
      refine hkept (fun ht => ?_) rfl id
      by_cases heq : e = e'
      · rw [← heq, World.modifyNode_self]
        exact ht
      · rw [World.modifyNode_of_ne _ _ heq]
        exact ht
  | @work e' input w pc' hwork =>
      by_cases heq : e = e'
      · subst heq
        rw [mem_handedOver, ← or_assoc, ← List.mem_append] at h
        rw [mem_handedOver]
        show t ∈ (w.node e).queued ∨ t ∈ (Function.update s.workers e pc' e).held ∨
          (t, e) ∈ s.log.finished ++ (s.workers e).finishes.map fun t => (t, e)
        rw [Function.update_self]
        obtain hhands | hfinished := h
        · have hafter := (workerStep_custody hwork).mem_iff.mpr hhands
          simp only [List.mem_append] at hafter
          obtain (hqueued | hheld) | hfinishes := hafter
          · exact Or.inl hqueued
          · exact Or.inr (Or.inl hheld)
          · exact Or.inr (Or.inr (List.mem_append_right _ (List.mem_map_of_mem hfinishes)))
        · exact Or.inr (Or.inr (List.mem_append_left _ hfinished))
      · refine hkept (fun ht => ?_) ?_ fun hfinished => List.mem_append_left _ hfinished
        · rw [workerStep_node_of_ne hwork heq]
          exact ht
        · exact congrArg WorkerPc.held (Function.update_of_ne heq _ _)
  | @spawn e' todo _ hworker =>
      refine hkept id ?_ id
      by_cases heq : e = e'
      · show (Function.update s.workers e' .loopHead e).held = (s.workers e).held
        rw [heq, Function.update_self, hworker]
        rfl
      · exact congrArg WorkerPc.held (Function.update_of_ne heq _ _)
  | joined hcontrol =>
      refine hkept id ?_ id
      by_cases he : e ∈ s.world.fleet.ids
      · rw [hsound.threads.joining [] hcontrol e he List.not_mem_nil]
        rfl
      · rw [hsound.threads.foreign e he]
  | _ => exact hkept id rfl id

theorem finished_grows {s s' : State} {label : Label} (hmove : Move s label s') :
    s.log.finished <+: s'.log.finished := by
  cases hmove with
  | work e input _ => exact List.prefix_append _ _
  | _ => exact List.prefix_rfl

theorem finished_le_move {s s' : State} {label : Label} (hmove : Move s label s') (e : EdgeId) :
    (tasksOn e s.log.finished).length ≤ (tasksOn e s'.log.finished).length :=
  (((finished_grows hmove).sublist.filter _).map _).length_le

theorem finished_le_taskCounter {s : State} (hsound : Sound s) (e : EdgeId) :
    (tasksOn e s.log.finished).length ≤ s.world.taskCounter := by
  have hlength : (s.handedOver e).length ≤ (List.range s.world.taskCounter).length :=
    ((handedOver_nodup hsound e).subperm fun t ht => List.mem_range.mpr
      (hsound.fresh.granted _ (granted_of_handedOver hsound ht))).length_le
  simp only [State.handedOver, List.length_append, List.length_range] at hlength
  omega

def State.service (bound : Nat) (s : State) (e : EdgeId) : Nat :=
  (bound - (tasksOn e s.log.finished).length) * (3 * bound + 23) +
    (s.workers e).service bound (s.world.node e).taskQueue.length

theorem returned_of_finishes {pc : WorkerPc} (h : pc.finishes ≠ []) :
    ∃ t, pc = .executing t .returned := by
  cases pc with
  | executing t stage =>
      cases stage with
      | returned => exact ⟨t, rfl⟩
      | _ => exact absurd rfl h
  | _ => exact absurd rfl h

theorem service_work {s s' : State} {e : EdgeId} {input : WorkerInput} {bound : Nat} {t : TaskRef}
    (hmove : Move s (.work e input) s') (hsolid : Solid s)
    (hrunning : s.world.executor.isRunning = true)
    (hqueue : (s.world.node e).taskQueue.length ≤ bound)
    (hfinished : (tasksOn e s'.log.finished).length ≤ bound)
    (hthere : t ∈ (s.world.node e).queued ++ (s.workers e).held) :
    s'.service bound e < s.service bound e := by
  cases hmove with
  | @work _ _ w pc' hwork =>
      have hevents : (tasksOn e (s.log.work e (s.workers e)).finished).length =
          (tasksOn e s.log.finished).length + (s.workers e).finishes.length := by
        rw [Log.work, tasksOn_append, tasksOn_map_self, List.length_append]
      change (tasksOn e (s.log.work e (s.workers e)).finished).length ≤ bound at hfinished
      show (bound - (tasksOn e (s.log.work e (s.workers e)).finished).length) * (3 * bound + 23) +
        (Function.update s.workers e pc' e).service bound (w.node e).taskQueue.length <
          s.service bound e
      rw [Function.update_self, State.service]
      rw [hevents] at hfinished ⊢
      by_cases hopen : (s.workers e).finishes = []
      · rw [hopen, List.length_nil, Nat.add_zero]
        exact Nat.add_lt_add_left (workerStep_service hwork hrunning hqueue hthere
          (hsolid.queue e) (hsolid.fetch e) hopen) _
      · obtain ⟨u, hpc⟩ := returned_of_finishes hopen
        rw [hpc] at hwork hfinished ⊢
        cases hwork
        have hone : (WorkerPc.executing u .returned).finishes.length = 1 := rfl
        rw [hone] at hfinished ⊢
        have hleft : bound - (tasksOn e s.log.finished).length =
            bound - ((tasksOn e s.log.finished).length + 1) + 1 := by omega
        rw [hleft, Nat.add_one_mul (bound - ((tasksOn e s.log.finished).length + 1))]
        show _ * _ + (3 * bound + 22) < _
        omega
  | stay _ hlabel => simp at hlabel

end Pipeline

namespace Progress

open Foundation Scheduler Executor Allocator Allocation Pipeline Live Recording

section Service

variable {s t : Recording.State} {label : Live.Label} {e : EdgeId} {bound : Nat}

theorem service_foreign (h : Fluent s) (hstep : Recording.step s label = some t)
    (hparty : schedule.party label ≠ some (.worker e)) (halive : Alive s (.worker e)) :
    t.live.pipe.service bound e ≤ s.live.pipe.service bound e := by
  obtain hsame | hmove := live_move hstep
  · rw [hsame]
  have hlabel : ∀ input, label ≠ .work e input := fun input heq => hparty (heq ▸ rfl)
  have hworker : t.live.pipe.workers e = s.live.pipe.workers e := by
    obtain hsame | ⟨hbefore, -⟩ | ⟨hbefore | hbefore, -⟩ :=
      worker_foreign hmove h.honest.sound.threads hlabel
    · exact hsame
    · exact absurd hbefore halive.1
    · exact absurd hbefore halive.1
    · exact absurd hbefore halive.2
  have hfinished : (tasksOn e s.live.pipe.log.finished).length ≤
      (tasksOn e t.live.pipe.log.finished).length := by
    obtain hsame | ⟨driven, -, hpipe⟩ := origin_move hmove
    · rw [hsame]
    · exact finished_le_move (Pipeline.step_move hpipe) e
  have hservice : (t.live.pipe.workers e).service bound
        (t.live.pipe.world.node e).taskQueue.length =
      (s.live.pipe.workers e).service bound (s.live.pipe.world.node e).taskQueue.length := by
    rw [hworker]
    cases hlocked : (s.live.pipe.workers e).schedulingLocked with
    | false => exact service_unlocked hlocked
    | true =>
        have hholds : (waiting s).holds (.worker e) .scheduling := (holds_iff h).mpr hlocked
        rw [queue_foreign hmove hlabel (not_scheduling h hholds)]
  unfold State.service
  rw [hservice]
  exact Nat.add_le_add_right
    (Nat.mul_le_mul_right _ (Nat.sub_le_sub_left hfinished bound)) _

theorem service_falls {u : TaskRef} {input : WorkerInput} (h : Fluent s) (ht : Fluent t)
    (hstep : Recording.step s (.work e input) = some t)
    (hrunning : s.live.pipe.world.executor.isRunning = true)
    (hbefore : s.live.pipe.world.taskCounter ≤ bound)
    (hafter : t.live.pipe.world.taskCounter ≤ bound)
    (hthere : u ∈ s.live.pipe.handedOver e) (hopen : (u, e) ∉ s.live.pipe.log.finished) :
    t.live.pipe.service bound e < s.live.pipe.service bound e := by
  obtain ⟨-, hmove⟩ := record_foreign hstep fun input heq => by cases heq
  have hqueue := queueLength_le h.honest.sound h.smooth.solid e
  have hfinished := finished_le_taskCounter ht.honest.sound e
  have hhands : u ∈ (s.live.pipe.world.node e).queued ++ (s.live.pipe.workers e).held := by
    rw [mem_handedOver, ← or_assoc, ← List.mem_append] at hthere
    exact hthere.resolve_right hopen
  generalize t.live = live at hmove hafter hfinished ⊢
  cases hmove with
  | work _ _ hpipe =>
      exact service_work (Pipeline.step_move hpipe) h.smooth.solid hrunning
        (hqueue.trans hbefore) (hfinished.trans hafter) hhands
  | enter _ _ _ hlabel _ => simp at hlabel

theorem worker_stays (h : Fluent s) (hstep : Recording.step s label = some t)
    (hrunning : s.live.pipe.world.executor.isRunning = true) (halive : Alive s (.worker e)) :
    Alive t (.worker e) := by
  by_cases hparty : schedule.party label = some (.worker e)
  · cases label with
    | work e' input =>
        cases hparty
        obtain ⟨-, hmove⟩ := record_foreign hstep fun input heq => by cases heq
        simp only [Alive]
        generalize t.live = live at hmove ⊢
        cases hmove with
        | work _ _ hpipe =>
            cases Pipeline.step_move hpipe with
            | @work _ _ w pc' hwork =>
                show Function.update s.live.pipe.workers e pc' e ≠ .notStarted ∧
                  Function.update s.live.pipe.workers e pc' e ≠ .exited
                rw [Function.update_self]
                generalize s.live.pipe.workers e = pc at hwork
                cases workerStep_move hwork with
                | leave hstopped =>
                    rw [hrunning] at hstopped
                    cases hstopped
                | _ => simp
            | stay _ hlabel => simp at hlabel
        | enter _ _ _ hlabel _ => simp at hlabel
    | _ => cases hparty
  · exact (stays_foreign h hstep hparty (by simp) halive).1

end Service

section Execution

variable {start : Recording.State} {x : Recording.machine.Execution}
  (hstart : Recording.machine.initial start) (hprovisioned : Provisioned start.live.pipe.world)
  (hreached : Recording.machine.Run Machine.free start (x.state 0))
  (hcounter : ∀ n, ((x.state n).live.pipe.world.taskCounter : ℚ) < doubleMax)
  (hfair : x.StronglyFair schedule)

include hcounter in
theorem taskCounter_le_ceil (m : ℕ) :
    (x.state m).live.pipe.world.taskCounter ≤ ⌈doubleMax⌉₊ :=
  Nat.cast_le.mp ((hcounter m).le.trans (Nat.le_ceil doubleMax))

include hstart hprovisioned hreached hcounter hfair

theorem handed_finishes {n : ℕ} {u : TaskRef} {e : EdgeId}
    (hthere : u ∈ (x.state n).live.pipe.handedOver e) (halive : Alive (x.state n) (.worker e)) :
    ∃ m ≥ n, (u, e) ∈ (x.state m).live.pipe.log.finished ∨
      (x.state m).live.pipe.world.executor.isRunning = false := by
  have hlively := lively hstart hprovisioned hreached hcounter
  by_contra hnever
  simp only [not_exists, not_and, not_or, Bool.not_eq_false] at hnever
  have hworker : ∀ m ≥ n, Alive (x.state m) (.worker e) :=
    x.forever (fun s => Alive s (.worker e)) halive fun m hm label hlabel =>
      worker_stays (hlively m).fluent (x.step_label hlabel) (hnever m hm).2
  have hthere : ∀ m ≥ n, u ∈ (x.state m).live.pipe.handedOver e := by
    refine x.forever (fun s => u ∈ s.live.pipe.handedOver e) hthere
      fun m hm label hlabel hm_there => ?_
    obtain hsame | hmove := live_move (x.step_label hlabel)
    · rw [hsame]
      exact hm_there
    · obtain hsame | ⟨driven, -, hpipe⟩ := origin_move hmove
      · rw [hsame]
        exact hm_there
      · exact handedOver_move (hlively m).fluent.honest.sound (Pipeline.step_move hpipe) hm_there
  have hbound := taskCounter_le_ceil hcounter
  refine x.not_takes_forever (fun s => s.live.pipe.service ⌈doubleMax⌉₊ e) (n := n) ?_ ?_
    (sections.takes_forever hlively hfair rank_lt (p := .worker e) (n := n)
      fun m hm => ⟨by simp, hworker m hm⟩)
  · intro m hm label hlabel hparty
    exact service_foreign (hlively m).fluent (x.step_label hlabel) hparty (hworker m hm)
  · intro m hm label hlabel hparty
    cases label with
    | work e' input =>
        cases hparty
        exact service_falls (hlively m).fluent (hlively (m + 1)).fluent (x.step_label hlabel)
          (hnever m hm).2 (hbound m) (hbound (m + 1)) (hthere m hm) (hnever m hm).1
    | _ => cases hparty

/-- A task in the queue of a node with a worker is executed to the end, unless the executor
is stopped first. -/
theorem task_finishes {n : ℕ} {u : TaskRef} {e : EdgeId}
    (hqueued : u ∈ ((x.state n).live.pipe.world.node e).queued)
    (halive : Alive (x.state n) (.worker e)) :
    ∃ m ≥ n, (u, e) ∈ (x.state m).live.pipe.log.finished ∨
      (x.state m).live.pipe.world.executor.isRunning = false :=
  handed_finishes hstart hprovisioned hreached hcounter hfair
    (mem_handedOver.mpr (Or.inl hqueued)) halive

end Execution

theorem stoppedExecution_worker : Alive (stoppedExecution.state 45) (.worker "E01") :=
  ⟨fun hpc => absurd (congrArg (WorkerPc.effort 0) hpc) (by decide +kernel),
    fun hpc => absurd (congrArg (WorkerPc.effort 0) hpc) (by decide +kernel)⟩

theorem task_finishes_stopped :
    ∃ m ≥ 45, (0, "E01") ∈ (stoppedExecution.state m).live.pipe.log.finished ∨
      (stoppedExecution.state m).live.pipe.world.executor.isRunning = false :=
  task_finishes requested_initial (singleRuntime_provisioned _ _ _) (.refl _)
    stoppedExecution_counter stoppedExecution_fair (by decide +kernel) stoppedExecution_worker

end Progress
end EdgeAllocator
