import EdgeAllocator.Delivery
import EdgeAllocator.Presence
import EdgeAllocator.Stopping

/-! `processingLoop` returns where the scheduler is fair: it creates finitely many tasks,
the workers execute them, and then its polls find nothing. -/
namespace EdgeAllocator

namespace Live

open Scheduler Executor Allocator Allocation Pipeline Progress

/-- The places behind the loop that creates the tasks. -/
def ProcessingPc.drains : ProcessingPc → Bool
  | .drainTest | .polling _ | .checkActive | .napping | .completing _ | .clearRunning _
  | .exited _ => true
  | _ => false

def ProcessingPc.begun : ProcessingPc → Nat
  | .checkAutomatic _ | .choosing _ _ | .create _ => 1
  | _ => 0

/-- The steps until the thread has left the loop, where its polls find nothing. -/
def ProcessingPc.drain (edges : Nat) : ProcessingPc → Nat
  | .napping => edges + 10
  | .drainTest => edges + 9
  | .polling todo => todo.length + 6
  | .checkActive => 5
  | .completing _ => 2
  | .clearRunning _ => 1
  | _ => 0

theorem processStep_begun {input : ProcessInput} {s t : State} (h : processStep input s = some t)
    (hmono : s.pipe.world.taskCounter ≤ t.pipe.world.taskCounter) :
    s.pipe.world.taskCounter + s.processing.begun ≤
      t.pipe.world.taskCounter + t.processing.begun := by
  cases hpc : s.processing with
  | checkAutomatic i =>
      rw [processStep, hpc] at h
      cases h
      show _ + 1 ≤ _ + ProcessingPc.begun (if _ then _ else _)
      split <;> exact le_rfl
  | choosing i pc =>
      rw [processStep, hpc] at h
      cases pc with
      | returned =>
          cases h
          exact le_rfl
      | _ =>
          obtain ⟨next, -, hnext⟩ := Option.map_eq_some_iff.mp h
          cases hnext
          exact Nat.add_le_add_right hmono 1
  | create i =>
      rw [processStep, hpc] at h
      obtain ⟨u, hdrive, hnext⟩ := Option.map_eq_some_iff.mp h
      obtain ⟨pipe, hpipe, rfl⟩ := drive_some hdrive
      cases hnext
      cases Pipeline.step_move hpipe with
      | produce _ _ _ => exact le_rfl
      | stay _ hlabel => simp at hlabel
  | _ => exact hmono.trans (Nat.le_add_right _ _)

theorem processStep_drains {input : ProcessInput} {s t : State} (h : processStep input s = some t)
    (hdrains : s.processing.drains = true) :
    t.processing.drains = true ∧ t.pipe = s.pipe := by
  cases hpc : s.processing with
  | drainTest =>
      rw [processStep, hpc] at h
      cases h
      refine ⟨?_, rfl⟩
      show ProcessingPc.drains (if _ then _ else _) = true
      split <;> rfl
  | polling todo =>
      rw [processStep, hpc] at h
      cases todo with
      | nil =>
          cases h
          exact ⟨rfl, rfl⟩
      | cons e todo =>
          cases h
          refine ⟨?_, rfl⟩
          show ProcessingPc.drains (if _ then _ else _) = true
          split <;> rfl
  | checkActive =>
      rw [processStep, hpc] at h
      cases h
      refine ⟨?_, rfl⟩
      show ProcessingPc.drains (if _ then _ else _) = true
      split <;> rfl
  | napping | completing drained | clearRunning drained =>
      rw [processStep, hpc] at h
      cases h
      exact ⟨rfl, rfl⟩
  | exited drained =>
      rw [processStep, hpc] at h
      cases h
  | _ =>
      rw [hpc] at hdrains
      cases hdrains

theorem processStep_drain {input : ProcessInput} {s t : State} (h : processStep input s = some t)
    (hdrains : s.processing.drains = true)
    (hqueues : ∀ e, (s.pipe.world.node e).hasTasksInQueue = false)
    (hactive : s.pipe.world.executor.activeTasks = []) :
    t.processing.drain s.edges.length < s.processing.drain s.edges.length := by
  cases hpc : s.processing with
  | drainTest =>
      rw [processStep, hpc] at h
      cases h
      show ProcessingPc.drain _ (if _ then _ else _) < _
      split <;> simp only [ProcessingPc.drain] <;> omega
  | polling todo =>
      rw [processStep, hpc] at h
      cases todo with
      | nil =>
          cases h
          exact Nat.lt_succ_self _
      | cons e todo =>
          simp only [hqueues e, Bool.false_eq_true, if_false] at h
          cases h
          exact Nat.lt_succ_self _
  | checkActive =>
      rw [processStep, hpc] at h
      simp only [hactive, if_true] at h
      cases h
      show (2 : Nat) < 5
      decide
  | napping | completing drained | clearRunning drained =>
      rw [processStep, hpc] at h
      cases h
      exact Nat.lt_succ_self _
  | exited drained =>
      rw [processStep, hpc] at h
      cases h
  | _ =>
      rw [hpc] at hdrains
      cases hdrains

theorem processStep_started {input : ProcessInput} {s t : State}
    (h : processStep input s = some t) : t.processing ≠ .notStarted := by
  cases processStep_move h with
  | next _ _ hnew =>
      obtain ⟨j, rfl | rfl⟩ | rfl | ⟨j, rfl⟩ := hnew <;> simp
  | allocate hpc _ => simp [hpc]
  | _ => simp

theorem isRunning_step {s t : State} {label : Label} (hstopping : Stopping s)
    (hstep : step s label = some t) (hstarted : s.processing ≠ .notStarted)
    (hrunning : s.pipe.world.executor.isRunning = true) :
    t.pipe.world.executor.isRunning = true := by
  by_cases hlabel : label = .main
  · subst hlabel
    change mainStep s = some t at hstep
    cases hmain : s.main with
    | stopExecutor =>
        rw [Stopping, hmain] at hstopping
        exact absurd hstopping hstarted
    | startExecutor =>
        simp only [mainStep, hmain] at hstep
        obtain ⟨u, hdrive, hnext⟩ := Option.map_eq_some_iff.mp hstep
        obtain ⟨pipe, hpipe, rfl⟩ := drive_some hdrive
        cases hnext
        cases Pipeline.step_move hpipe with
        | start _ => rfl
        | stay _ _ => exact hrunning
    | spawning | joinWorkers =>
        simp only [mainStep, hmain] at hstep
        split at hstep
        · cases hstep
          exact hrunning
        · obtain ⟨pipe, hpipe, rfl⟩ := drive_some hstep
          exact (control_isRunning hpipe).trans hrunning
    | launch =>
        simp only [mainStep, hmain] at hstep
        cases hstep
    | joinProcessing =>
        simp only [mainStep, hmain] at hstep
        split at hstep <;> cases hstep <;> exact hrunning
    | idle =>
        simp only [mainStep, hmain] at hstep
        cases hstep
    | _ =>
        simp only [mainStep, hmain] at hstep
        cases hstep
        exact hrunning
  · exact (main_foreign (step_move hstep) hlabel).2.trans hrunning

end Live

namespace Pipeline

open Foundation Scheduler Executor Allocation

theorem handedOver_of_granted {s : State} (hsound : Sound s) (hidle : s.producer = .idle)
    {t : TaskRef} {e : EdgeId} (h : (t, e) ∈ s.log.granted) : t ∈ s.handedOver e := by
  have hplace : t ∈ s.allPlaces e := (hsound.custody e).mem_iff.mpr (mem_tasksOn.mpr h)
  rw [allPlaces_eq, hidle] at hplace
  exact hplace

theorem not_finished_of_hands {s : State} (hsound : Sound s) {t : TaskRef} {e : EdgeId}
    (h : t ∈ (s.world.node e).queued ++ (s.workers e).held) : (t, e) ∉ s.log.finished := by
  intro hfinished
  have hnodup := handedOver_nodup hsound e
  exact List.disjoint_of_nodup_append hnodup h (mem_tasksOn.mpr hfinished)

theorem at_rest {s : State} (hsound : Sound s) (hsolid : Solid s) (hpresent : Present s)
    (h : ∀ grant ∈ s.log.granted, grant ∈ s.log.finished) :
    (∀ e, (s.world.node e).hasTasksInQueue = false) ∧ s.world.executor.activeTasks = [] := by
  have hempty {t : TaskRef} {e : EdgeId} :
      t ∉ (s.world.node e).queued ++ (s.workers e).held := by
    intro hhands
    refine not_finished_of_hands hsound hhands (h _ (granted_of_handedOver hsound ?_))
    exact List.mem_append_left _ hhands
  refine ⟨fun e => ?_, List.eq_nil_iff_forall_not_mem.mpr fun t ht => ?_⟩
  · have hqueue : (s.world.node e).taskQueue = [] := by
      refine (queued_eq_nil hsolid e).mp (List.eq_nil_iff_forall_not_mem.mpr fun t ht => ?_)
      exact hempty (List.mem_append_left _ ht)
    simp [EdgeNode.hasTasksInQueue, hqueue]
  · obtain ⟨e, -, hactive⟩ := mem_contents.mp (hpresent.listed.mem_iff.mp ht)
    exact hempty (List.mem_append_right _ (active_held hactive))

end Pipeline

namespace Progress

open Foundation Scheduler Executor Allocator Allocation Pipeline Live Recording

def generation (bound : Nat) (s : Recording.State) : Nat :=
  (bound + 1 - (s.live.pipe.world.taskCounter + s.live.processing.begun)) *
      (roundEffort s.live.pipe.world.fleet.ids.length + s.live.edges.length + 17) +
    effort s .processing

section Generation

variable {s t : Recording.State} {label : Live.Label} {input : ProcessInput} {bound : Nat}

theorem taskCounter_move (hmove : Live.Move s.live label t.live) :
    s.live.pipe.world.taskCounter ≤ t.live.pipe.world.taskCounter := by
  obtain hsame | ⟨driven, -, hpipe⟩ := origin_move hmove
  · rw [hsame]
  · exact (Pipeline.step_move hpipe).taskCounter_le

theorem processing_stays (hstep : Recording.step s label = some t)
    (hparty : schedule.party label ≠ some .processing) (halive : Alive s .processing) :
    t.live.processing = s.live.processing := by
  obtain ⟨-, hmove⟩ := record_foreign hstep fun input heq => hparty (heq ▸ rfl)
  obtain ⟨-, hsame | ⟨hbefore, -⟩ | ⟨⟨drained, hbefore⟩, -⟩⟩ :=
    processing_foreign hmove fun input heq => hparty (heq ▸ rfl)
  · exact hsame
  · exact absurd hbefore halive.1
  · exact absurd hbefore (halive.2 drained)

theorem generation_foreign (h : Fluent s) (hstep : Recording.step s label = some t)
    (hparty : schedule.party label ≠ some .processing) (halive : Alive s .processing) :
    generation bound t ≤ generation bound s := by
  have heffort := effort_foreign h hstep hparty halive fun e he => by cases he
  obtain ⟨-, hmove⟩ := record_foreign hstep fun input heq => hparty (heq ▸ rfl)
  have hcounter := taskCounter_move hmove
  rw [generation, generation, processing_stays hstep hparty halive, fleet_live hmove, hmove.edges]
  refine Nat.add_le_add (Nat.mul_le_mul_right _ ?_) heffort
  omega

theorem process_live (h : Fluent s) (hstep : Recording.step s (.process input) = some t)
    (hpc : ∀ i, s.live.processing ≠ .allocating i) :
    Live.processStep input s.live = some t.live ∧ t.record = .idle := by
  have hrecord := h.honest.tracked.free hpc
  simp only [Recording.step, Recording.processStep, hrecord] at hstep
  obtain ⟨live, hlive, hnext⟩ := Option.map_eq_some_iff.mp hstep
  cases hnext
  exact ⟨hlive, (advance_elsewhere hpc).trans hrecord⟩

theorem generation_falls (h : Lively s)
    (hstep : Recording.step s (.process input) = some t)
    (hbound : t.live.pipe.world.taskCounter ≤ bound)
    (hdrains : s.live.processing.drains = false) :
    t.live.processing.drains = true ∨ generation bound t < generation bound s := by
  by_cases hhead : ∃ i, s.live.processing = .loopHead i
  · obtain ⟨i, hpc⟩ := hhead
    have helsewhere : ∀ j, s.live.processing ≠ .allocating j := by simp [hpc]
    obtain ⟨hlive, hrecord'⟩ := process_live h.fluent hstep helsewhere
    have hrecord := h.fluent.honest.tracked.free helsewhere
    simp only [Live.processStep, hpc] at hlive
    by_cases hmore : i < s.live.config.taskCount ∧ s.live.stopRequested = false
    · rw [if_pos hmore] at hlive
      have hnext := Option.some.inj hlive
      refine Or.inr ?_
      rw [← hnext] at hbound
      simp only [generation, effort, Recording.State.effort, ← hnext, hrecord, hrecord', hpc,
        ProcessingPc.begun, ProcessingPc.effort, Nat.add_zero]
      have hleft : bound + 1 - s.live.pipe.world.taskCounter =
          bound + 1 - (s.live.pipe.world.taskCounter + 1) + 1 := by
        have hcounter : s.live.pipe.world.taskCounter ≤ bound := hbound
        omega
      rw [hleft, Nat.add_one_mul (bound + 1 - (s.live.pipe.world.taskCounter + 1))]
      omega
    · rw [if_neg hmore] at hlive
      rw [← Option.some.inj hlive]
      exact Or.inl rfl
  · refine Or.inr ?_
    have hturns : s.live.processing.turns = false := by
      cases hpc : s.live.processing with
      | loopHead i => exact absurd ⟨i, hpc⟩ hhead
      | drainTest =>
          rw [hpc] at hdrains
          cases hdrains
      | _ => rfl
    have heffort := process_falls hstep h.persistent fun hturn => by
      rw [hturns] at hturn
      cases hturn
    obtain hsame | hlive := live_step hstep
    · simp only [generation, hsame]
      exact Nat.add_lt_add_left heffort _
    · have hmove := Live.step_move hlive
      have hbegun := processStep_begun hlive (taskCounter_move hmove)
      rw [generation, generation, fleet_live hmove, hmove.edges]
      refine Nat.add_lt_add_of_le_of_lt (Nat.mul_le_mul_right _ ?_) heffort
      omega

theorem not_allocating_of_drains (h : s.live.processing.drains = true) (i : Nat) :
    s.live.processing ≠ .allocating i := by
  intro hpc
  rw [hpc] at h
  cases h

theorem not_busy_of_drains (h : s.live.processing.drains = true) :
    s.live.processing.busy = false := by
  cases hpc : s.live.processing with
  | countGenerated i | lockConfiguration i | allocating i | unlockConfiguration i =>
      rw [hpc] at h
      cases h
  | _ => rfl

theorem drains_step (h : Fluent s) (hstep : Recording.step s label = some t)
    (halive : Alive s .processing) (hdrains : s.live.processing.drains = true) :
    t.live.processing.drains = true ∧ t.live.pipe.log.granted = s.live.pipe.log.granted := by
  by_cases hparty : schedule.party label = some .processing
  · cases label with
    | process input =>
        obtain ⟨hlive, -⟩ := process_live h hstep (not_allocating_of_drains hdrains)
        obtain ⟨hkept, hpipe⟩ := processStep_drains hlive hdrains
        exact ⟨hkept, by rw [hpipe]⟩
    | _ => cases hparty
  · rw [processing_stays hstep hparty halive]
    obtain ⟨-, hmove⟩ := record_foreign hstep fun input heq => hparty (heq ▸ rfl)
    have haside := aside_of_drives ((origin_move hmove).mono fun _ =>
      origin_notByProducer fun input heq => hparty (heq ▸ rfl))
    exact ⟨hdrains, haside.granted⟩

end Generation

theorem started_step {s t : Recording.State} {label : Live.Label}
    (hstep : Recording.step s label = some t) (halive : Alive s .processing) :
    t.live.processing ≠ .notStarted := by
  by_cases hparty : schedule.party label = some .processing
  · obtain hsame | hlive := live_step hstep
    · rw [hsame]
      exact halive.1
    · cases label with
      | process input => exact processStep_started hlive
      | _ => cases hparty
  · rw [processing_stays hstep hparty halive]
    exact halive.1

theorem finished_forever {x : Recording.machine.Execution} {n : ℕ} {grant : TaskRef × EdgeId}
    (h : grant ∈ (x.state n).live.pipe.log.finished) :
    ∀ m ≥ n, grant ∈ (x.state m).live.pipe.log.finished := by
  refine x.forever (fun s => grant ∈ s.live.pipe.log.finished) h fun m _ label hlabel hm => ?_
  obtain hsame | hmove := live_move (x.step_label hlabel)
  · rw [hsame]
    exact hm
  · obtain hsame | ⟨driven, -, hpipe⟩ := origin_move hmove
    · rw [hsame]
      exact hm
    · exact (finished_grows (Pipeline.step_move hpipe)).subset hm

section Execution

variable {start : Recording.State} {x : Recording.machine.Execution}
  (hstart : Recording.machine.initial start) (hprovisioned : Provisioned start.live.pipe.world)
  (hreached : Recording.machine.Run Machine.free start (x.state 0))
  (hcounter : ∀ n, ((x.state n).live.pipe.world.taskCounter : ℚ) < doubleMax)
  (hfair : x.StronglyFair schedule)

include hstart hprovisioned hreached hcounter hfair

theorem generation_ends {n : ℕ} (halive : ∀ m ≥ n, Alive (x.state m) .processing) :
    ∃ m ≥ n, (x.state m).live.processing.drains = true := by
  have hlively := lively hstart hprovisioned hreached hcounter
  by_contra hnever
  simp only [not_exists, not_and, Bool.not_eq_true] at hnever
  have hbound := taskCounter_le_ceil hcounter
  refine x.not_takes_forever (generation ⌈doubleMax⌉₊) (n := n) ?_ ?_
    (sections.takes_forever hlively hfair rank_lt (p := .processing) (n := n)
      fun m hm => ⟨by simp, halive m hm⟩)
  · intro m hm label hlabel hparty
    exact generation_foreign (hlively m).fluent (x.step_label hlabel) hparty (halive m hm)
  · intro m hm label hlabel hparty
    cases label with
    | process input =>
        obtain hdrains | hless := generation_falls (hlively m)
          (x.step_label hlabel) (hbound (m + 1)) (hnever m hm)
        · rw [hnever (m + 1) (by omega)] at hdrains
          cases hdrains
        · exact hless
    | _ => cases hparty

omit hfair in
theorem granted_stays {j : ℕ} (halive : ∀ m ≥ j, Alive (x.state m) .processing)
    (hdrains : (x.state j).live.processing.drains = true) : ∀ m ≥ j,
      (x.state m).live.processing.drains = true ∧
        (x.state m).live.pipe.log.granted = (x.state j).live.pipe.log.granted := by
  have hlively := lively hstart hprovisioned hreached hcounter
  refine x.forever (fun s => s.live.processing.drains = true ∧
    s.live.pipe.log.granted = (x.state j).live.pipe.log.granted) ⟨hdrains, rfl⟩
    fun m hm label hlabel hgood => ?_
  obtain ⟨hnext, hgranted⟩ := drains_step (hlively m).fluent (x.step_label hlabel)
    (halive m hm) hgood.1
  exact ⟨hnext, hgranted.trans hgood.2⟩

theorem granted_finished {j : ℕ} (hdrains : (x.state j).live.processing.drains = true)
    (hworkers : ∀ e ∈ (x.state j).live.pipe.world.fleet.ids, Alive (x.state j) (.worker e))
    (hrunning : ∀ m ≥ j, (x.state m).live.pipe.world.executor.isRunning = true) :
    ∃ i, ∀ m ≥ i, ∀ grant ∈ (x.state j).live.pipe.log.granted,
      grant ∈ (x.state m).live.pipe.log.finished := by
  have hhonest := (lively hstart hprovisioned hreached hcounter j).fluent.honest
  have hfinishes : ∀ grant ∈ (x.state j).live.pipe.log.granted,
      ∀ᶠ m in Filter.atTop, grant ∈ (x.state m).live.pipe.log.finished := by
    rintro ⟨u, e⟩ hgrant
    have hthere := handedOver_of_granted hhonest.sound
      (hhonest.tracked.quiet (not_busy_of_drains hdrains)) hgrant
    have he : e ∈ (x.state j).live.pipe.world.fleet.ids := by
      obtain ⟨-, -, htally⟩ := tally_of_reachable
        ⟨_, hstart.live.pipe, pipe_run (live_run (hreached.trans (x.run j)))⟩
      exact htally.registered _ hgrant
    obtain ⟨m, hm, hfinished | hstopped⟩ := handed_finishes hstart hprovisioned hreached hcounter
      hfair hthere (hworkers e he)
    · exact Filter.eventually_atTop.mpr ⟨m, finished_forever hfinished⟩
    · rw [hrunning m hm] at hstopped
      cases hstopped
  exact Filter.eventually_atTop.mp
    ((Filter.eventually_all_finite (List.finite_toSet _)).mpr hfinishes)

/-- `processingLoop` returns once the executor runs with a worker for every edge. -/
theorem processingLoop_returns {n : ℕ} (halive : Alive (x.state n) .processing)
    (hworkers : ∀ e ∈ (x.state n).live.pipe.world.fleet.ids, Alive (x.state n) (.worker e))
    (hrunning : (x.state n).live.pipe.world.executor.isRunning = true) :
    ∃ m ≥ n, ∃ drained, (x.state m).live.processing = .exited drained := by
  have hlively := lively hstart hprovisioned hreached hcounter
  by_contra hnever
  have halive : ∀ m ≥ n, Alive (x.state m) .processing := by
    refine x.forever (fun s => Alive s .processing) halive fun m hm label hlabel hm_alive => ?_
    refine ⟨?_, fun drained hexited => hnever ⟨m + 1, by omega, drained, hexited⟩⟩
    exact started_step (x.step_label hlabel) hm_alive
  have hrunning : ∀ m ≥ n, (x.state m).live.pipe.world.executor.isRunning = true := by
    refine x.forever (fun s => s.live.pipe.world.executor.isRunning = true) hrunning
      fun m hm label hlabel hm_running => ?_
    obtain hsame | hlive := live_step (x.step_label hlabel)
    · rw [hsame]
      exact hm_running
    · exact isRunning_step (stopping hstart hreached m) hlive (halive m hm).1 hm_running
  have hworker {e : EdgeId} (he : e ∈ (x.state n).live.pipe.world.fleet.ids) :
      ∀ m ≥ n, Alive (x.state m) (.worker e) :=
    x.forever (fun s => Alive s (.worker e)) (hworkers e he) fun m hm label hlabel =>
      worker_stays (hlively m).fluent (x.step_label hlabel) (hrunning m hm)
  obtain ⟨j, hj, hdrains⟩ := generation_ends hstart hprovisioned hreached hcounter hfair halive
  have halive_later : ∀ m ≥ j, Alive (x.state m) .processing := fun m hm => halive m (hj.trans hm)
  have hkept := granted_stays hstart hprovisioned hreached hcounter halive_later hdrains
  have hfleet := Pipeline.fleet_run (pipe_run (live_run (x.run_between hj)))
  obtain ⟨i, hi⟩ := granted_finished hstart hprovisioned hreached hcounter hfair hdrains
    (fun e he => hworker (hfleet ▸ he) j hj) fun m hm => hrunning m (hj.trans hm)
  have hlater {m : ℕ} (hm : m ≥ max i j) : m ≥ j := (le_max_right i j).trans hm
  -- From here on the polls find nothing.
  refine x.not_takes_forever (fun s => s.live.processing.drain s.live.edges.length)
    (n := max i j) ?_ ?_ (sections.takes_forever hlively hfair rank_lt (p := .processing)
      (n := max i j) fun m hm => ⟨by simp, halive_later m (hlater hm)⟩)
  · intro m hm label hlabel hparty
    have hstep := x.step_label hlabel
    obtain ⟨-, hmove⟩ := record_foreign hstep fun input heq => hparty (heq ▸ rfl)
    rw [processing_stays hstep hparty (halive_later m (hlater hm)), hmove.edges]
  · intro m hm label hlabel hparty
    obtain ⟨hdrains, hgranted⟩ := hkept m (hlater hm)
    obtain ⟨hsound, hpresent⟩ := present_of_run hstart.live.pipe
      ((pipe_run (live_run (hreached.trans (x.run m)))).mono fun _ _ _ => trivial)
    obtain ⟨hqueues, hactive⟩ := at_rest hsound (hlively m).fluent.smooth.solid hpresent
      fun grant hgrant => hi m ((le_max_left i j).trans hm) grant (hgranted ▸ hgrant)
    cases label with
    | process input =>
        obtain ⟨hlive, -⟩ := process_live (hlively m).fluent (x.step_label hlabel)
          (not_allocating_of_drains hdrains)
        have hmove : Live.Move (x.state m).live (.process input) (x.state (m + 1)).live :=
          .process input (processStep_move hlive)
        rw [hmove.edges]
        exact processStep_drain hlive hdrains hqueues hactive
    | _ => cases hparty

end Execution

theorem stoppedExecution_processing : Alive (stoppedExecution.state 45) .processing := by
  have hhead : (stoppedExecution.state 45).live.processing.turns = true := by decide +kernel
  constructor
  · intro hpc
    rw [hpc] at hhead
    cases hhead
  · intro drained hpc
    rw [hpc] at hhead
    cases hhead

theorem processingLoop_returns_stopped :
    ∃ m ≥ 45, ∃ drained, (stoppedExecution.state m).live.processing = .exited drained :=
  processingLoop_returns requested_initial (singleRuntime_provisioned _ _ _) (.refl _)
    stoppedExecution_counter stoppedExecution_fair stoppedExecution_processing
    (fun e he => by
      have hids : (stoppedExecution.state 45).live.pipe.world.fleet.ids = ["E01"] := by
        decide +kernel
      rw [hids, List.mem_singleton] at he
      exact he ▸ stoppedExecution_worker)
    (by decide +kernel)

end Progress
end EdgeAllocator
