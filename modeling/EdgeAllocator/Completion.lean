import EdgeAllocator.Live
import EdgeAllocator.Outcome

/-! What `processing_complete_` says: the drain loop observes the queues one after
the other and the active tasks last. -/
namespace EdgeAllocator.Live

open Foundation Scheduler Executor Allocator Allocation Pipeline

/-- The queue of the edge is empty and its worker keeps no task that neither the
queue nor `active_tasks_` shows. -/
structure Polled (s : Pipeline.State) (e : EdgeId) : Prop where
  queue : (s.world.node e).taskQueue = []
  scratch : (s.workers e).scratch = []
  unregistered : (s.workers e).unregistered = []

def Inactive (pc : WorkerPc) : Prop :=
  ∀ t stage, pc = .executing t stage → stage.registered = false

theorem workerStep_settled {e : EdgeId} {input : WorkerInput} {w w' : World} {pc pc' : WorkerPc}
    (hstep : workerStep e input w pc = some (w', pc')) (hqueue : (w.node e).queued = [])
    (hscratch : pc.scratch = []) (hunregistered : pc.unregistered = []) :
    ((w'.node e).queued = [] ∧ pc'.scratch = [] ∧ pc'.unregistered = []) ∧
      (Inactive pc → Inactive pc') := by
  cases workerStep_move hstep with
  | enter _ => exact ⟨⟨hqueue, rfl, rfl⟩, fun _ _ _ hpc => by cases hpc⟩
  | leave _ => exact ⟨⟨hqueue, rfl, rfl⟩, fun _ _ _ hpc => by cases hpc⟩
  | fetch hfetch =>
      obtain ⟨queue, mutex, rfl, hperm⟩ := fetchStep_effect hfetch
      rw [hqueue, show FetchPc.held _ = [] from hscratch] at hperm
      obtain ⟨hqueue', hheld'⟩ := List.append_eq_nil_iff.mp hperm.eq_nil
      refine ⟨⟨?_, hheld', rfl⟩, fun _ _ _ hpc => by cases hpc⟩
      rw [World.modifyScheduler_node, World.modifyNode_self]
      exact hqueue'
  | idle => exact ⟨⟨hqueue, rfl, rfl⟩, fun _ _ _ hpc => by cases hpc⟩
  | take t => cases hscratch
  | @exec t stage _ =>
      have hqueue' : ((execStep e input w t stage).1.node e).queued = [] := by
        rw [execStep_queued]
        exact hqueue
      refine ⟨⟨hqueue', rfl, ?_⟩, fun hinactive t' stage' hpc => ?_⟩
      · cases stage with
        | begin => cases hunregistered
        | persistRunning => cases hunregistered
        | register => cases hunregistered
        | _ => rfl
      · have hstage := hinactive t stage rfl
        cases hpc
        cases stage with
        | begin => cases hunregistered
        | persistRunning => cases hunregistered
        | register => cases hunregistered
        | release verdict => rfl
        | count verdict => rfl
        | persistExecution verdict => rfl
        | returned => rfl
        | _ => cases hstage
  | finish t => exact ⟨⟨hqueue, rfl, rfl⟩, fun _ _ _ hpc => by cases hpc⟩

theorem polled_move {s s' : Pipeline.State} {label : Pipeline.Label} {e : EdgeId}
    (hmove : Pipeline.Move s label s') (hidle : s.producer = .idle) (hsolid : Solid s)
    (h : Polled s e) : Polled s' e ∧ (Inactive (s.workers e) → Inactive (s'.workers e)) := by
  have hqueued : (s.world.node e).queued = [] := by
    rw [EdgeNode.queued, h.queue]
    rfl
  have hsolid' := hsolid.move hmove
  cases hmove with
  | work e' input hstep =>
      by_cases he : e = e'
      · subst he
        obtain ⟨⟨hqueue, hscratch, hunregistered⟩, hinactive⟩ :=
          workerStep_settled hstep hqueued h.scratch h.unregistered
        refine ⟨⟨(queued_eq_nil hsolid' e).mp hqueue, ?_, ?_⟩, ?_⟩
        all_goals simpa only [Function.update_self]
      · refine ⟨⟨?_, ?_, ?_⟩, ?_⟩
        · show (World.node _ e).taskQueue = []
          rw [workerStep_node_of_ne hstep he]
          exact h.queue
        all_goals simp only [Function.update_of_ne he]
        · exact h.scratch
        · exact h.unregistered
        · exact id
  | @spawn e' todo _ hworker =>
      by_cases he : e = e'
      · subst he
        refine ⟨⟨h.queue, ?_, ?_⟩, fun _ t stage hpc => ?_⟩
        all_goals simp only [Function.update_self] at *
        · rfl
        · rfl
        · cases hpc
      · refine ⟨⟨h.queue, ?_, ?_⟩, ?_⟩
        all_goals simp only [Function.update_of_ne he]
        · exact h.scratch
        · exact h.unregistered
        · exact id
  | joined _ => exact ⟨⟨h.queue, rfl, rfl⟩, fun _ _ _ hpc => by cases hpc⟩
  | alloc _ hpc _ => cases hidle.symm.trans hpc
  | allocated _ hpc _ => cases hidle.symm.trans hpc
  | refused _ hpc _ => cases hidle.symm.trans hpc
  | schedule _ hpc _ => cases hidle.symm.trans hpc
  | scheduled _ hpc => cases hidle.symm.trans hpc
  | draw _ hpc => cases hidle.symm.trans hpc
  | passOver _ hpc => cases hidle.symm.trans hpc
  | fluctuated _ hpc => cases hidle.symm.trans hpc
  | _ => exact ⟨⟨h.queue, h.scratch, h.unregistered⟩, id⟩

def ProcessingPc.busy : ProcessingPc → Bool
  | .countGenerated _ | .lockConfiguration _ | .allocating _ => true
  | _ => false

def ProcessingPc.seen : ProcessingPc → EdgeId → Prop
  | .polling todo, e => e ∉ todo
  | .checkActive, _ | .completing true, _ => True
  | _, _ => False

/-- What the drain loop knows at each of its positions. -/
structure Draining (s : State) : Prop where
  idle : s.processing.busy = false → s.pipe.producer = .idle
  polled : ∀ e ∈ s.edges, s.processing.seen e → Polled s.pipe e
  inactive : s.processing = .completing true → ∀ e ∈ s.edges, Inactive (s.pipe.workers e)

def pollsEmpty (s : State) : Label → Option EdgeId
  | .process _ =>
      match s.processing with
      | .polling (e :: _) => if (s.pipe.world.node e).taskQueue = [] then some e else none
      | _ => none
  | _ => none

/-- A poll that reads an empty queue does not miss a task that the worker of the
edge has taken and not yet registered. -/
def PollsSettled (s : State) (label : Label) : Prop :=
  ∀ e ∈ pollsEmpty s label,
    (s.pipe.workers e).scratch = [] ∧ (s.pipe.workers e).unregistered = []

instance (s : State) (label : Label) : Decidable (PollsSettled s label) :=
  inferInstanceAs (Decidable (∀ e ∈ pollsEmpty s label, _))

def Undisturbed : Label → Prop
  | .stop => False
  | .process input => input.deadlinePassed = false
  | _ => True

instance (label : Label) : Decidable (Undisturbed label) := by
  cases label <;> simp only [Undisturbed] <;> infer_instance

theorem ProcessingPc.not_busy {pc : ProcessingPc} {e : EdgeId} (h : pc.seen e) :
    pc.busy = false := by
  cases pc with
  | polling todo => rfl
  | checkActive => rfl
  | completing drained => rfl
  | _ => exact h.elim

theorem Draining.other {s t : State} (h : Draining s) (hsolid : Solid s.pipe)
    (hdrives : Drives NotByProducer s.pipe t.pipe) (hprocessing : t.processing = s.processing)
    (hedges : t.edges = s.edges) : Draining t := by
  obtain hsame | ⟨label, hlabel, hstep⟩ := hdrives
  · refine ⟨?_, ?_, ?_⟩ <;> rw [hprocessing, hsame]
    · exact h.idle
    · rw [hedges]
      exact h.polled
    · rw [hedges]
      exact h.inactive
  · have hmove := Pipeline.step_move hstep
    refine ⟨fun hbusy => ?_, fun e he hseen => ?_, fun hcompleting e he => ?_⟩
    · rw [hprocessing] at hbusy
      exact (hlabel.producer hstep).trans (h.idle hbusy)
    · rw [hprocessing] at hseen
      rw [hedges] at he
      exact (polled_move hmove (h.idle (ProcessingPc.not_busy hseen)) hsolid
        (h.polled e he hseen)).1
    · rw [hprocessing] at hcompleting
      rw [hedges] at he
      have hseen : s.processing.seen e := by rw [hcompleting]; trivial
      exact (polled_move hmove (h.idle (ProcessingPc.not_busy hseen)) hsolid
        (h.polled e he hseen)).2 (h.inactive hcompleting e he)

theorem Draining.of_unseen {s : State}
    (hidle : s.processing.busy = false → s.pipe.producer = .idle)
    (hseen : ∀ e, ¬ s.processing.seen e) : Draining s := by
  refine ⟨hidle, fun e _ h => absurd h (hseen e), fun hpc e _ => absurd ?_ (hseen e)⟩
  rw [hpc]
  trivial

theorem inactive_of_no_active {s : Pipeline.State} (houtcomes : Outcomes s)
    (hactive : s.world.executor.activeTasks = []) (e : EdgeId) : Inactive (s.workers e) := by
  intro t stage hworker
  rw [← Bool.not_eq_true]
  intro hregistered
  have hmem := houtcomes.active e t stage hworker hregistered
  rw [hactive] at hmem
  cases hmem

theorem Draining.process {s t : State} {input : ProcessInput} (h : Draining s)
    (houtcomes : Outcomes s.pipe) (hsettled : PollsSettled s (.process input))
    (hmove : ProcessMove input s t) : Draining t := by
  have hidle {pc : ProcessingPc} (hpc : s.processing = pc) (hbusy : pc.busy = false) :
      s.pipe.producer = .idle :=
    h.idle (by rw [hpc]; exact hbusy)
  cases hmove with
  | next hpc hold hnew =>
      obtain ⟨i, rfl | rfl⟩ := hold
      all_goals
        have hproducer := hidle hpc rfl
        obtain ⟨j, rfl | rfl⟩ | rfl | ⟨j, rfl⟩ := hnew
        all_goals exact .of_unseen (fun _ => hproducer) fun _ => id
  | @choose i pc pc' t hpc hstep =>
      have hproducer := hidle hpc rfl
      refine .of_unseen (fun _ => ?_) fun _ => id
      obtain hsame | ⟨label, hlabel, hpipe⟩ := chooseStep_drives hstep
      · exact (congrArg Pipeline.State.producer hsame).trans hproducer
      · exact (hlabel.producer hpipe).trans hproducer
  | chosen hpc =>
      exact .of_unseen (fun _ => hidle hpc rfl) fun _ => id
  | create hpc hpipe =>
      exact .of_unseen (fun hbusy => by cases hbusy) fun _ => id
  | count hpc =>
      exact .of_unseen (fun hbusy => by cases hbusy) fun _ => id
  | lock hpc hfree =>
      exact .of_unseen (fun hbusy => by cases hbusy) fun _ => id
  | allocate hpc hpipe =>
      refine .of_unseen (fun hbusy => ?_) fun e hseen => ?_
      · rw [hpc] at hbusy
        cases hbusy
      · rw [hpc] at hseen
        exact hseen
  | allocated hpc hproducer => exact .of_unseen (fun _ => hproducer) fun _ => id
  | unlock hpc =>
      exact .of_unseen (fun _ => hidle hpc rfl) fun _ => id
  | round hpc =>
      have hproducer := hidle hpc rfl
      exact ⟨fun _ => hproducer, fun e he hseen => absurd he hseen,
        fun hcompleting => by cases hcompleting⟩
  | giveUp hpc _ =>
      exact .of_unseen (fun _ => hidle hpc rfl) fun _ => id
  | seen hpc =>
      exact .of_unseen (fun _ => hidle hpc rfl) fun _ => id
  | @empty e todo hpc hempty =>
      have hproducer := hidle hpc rfl
      refine ⟨fun _ => hproducer, fun e' he' hseen => ?_, fun hcompleting => by cases hcompleting⟩
      by_cases heq : e' = e
      · have hpoll : e ∈ pollsEmpty s (.process input) := by
          rw [pollsEmpty, hpc]
          exact if_pos hempty
        obtain ⟨hscratch, hunregistered⟩ := hsettled e hpoll
        rw [heq]
        exact ⟨hempty, hscratch, hunregistered⟩
      · refine h.polled e' he' ?_
        rw [hpc]
        exact fun hmem => hseen ((List.mem_cons.mp hmem).resolve_left heq)
  | polled hpc =>
      have hproducer := hidle hpc rfl
      refine ⟨fun _ => hproducer, fun e he _ => h.polled e he ?_,
        fun hcompleting => by cases hcompleting⟩
      rw [hpc]
      exact List.not_mem_nil
  | active hpc =>
      exact .of_unseen (fun _ => hidle hpc rfl) fun _ => id
  | drained hpc hactive =>
      have hproducer := hidle hpc rfl
      refine ⟨fun _ => hproducer, fun e he _ => h.polled e he ?_,
        fun _ e _ => inactive_of_no_active houtcomes hactive e⟩
      rw [hpc]
      trivial
  | wake hpc =>
      exact .of_unseen (fun _ => hidle hpc rfl) fun _ => id
  | complete hpc =>
      exact .of_unseen (fun _ => hidle hpc rfl) fun _ => id
  | leave hpc =>
      exact .of_unseen (fun _ => hidle hpc rfl) fun _ => id

theorem Draining.move {s t : State} {label : Label} (h : Draining s) (hsolid : Solid s.pipe)
    (houtcomes : Outcomes s.pipe) (hsettled : PollsSettled s label) (hmove : Move s label t) :
    Draining t := by
  cases hmove with
  | enter _ _ _ _ _ => exact ⟨h.idle, h.polled, h.inactive⟩
  | main hmain =>
      cases hmain with
      | launch _ hprocessing =>
          exact .of_unseen (fun _ => h.idle (by rw [hprocessing]; rfl)) fun _ => id
      | join _ hprocessing =>
          exact .of_unseen (fun _ => h.idle (by rw [hprocessing]; rfl)) fun _ => id
      | drive hlabel hpipe =>
          refine h.other hsolid (Or.inr ⟨_, ?_, hpipe⟩) rfl rfl
          obtain rfl | rfl | rfl := hlabel <;> rfl
      | _ => exact ⟨h.idle, h.polled, h.inactive⟩
  | process input hprocess => exact h.process houtcomes hsettled hprocess
  | work e input hpipe => exact h.other hsolid (Or.inr ⟨.work e input, rfl, hpipe⟩) rfl rfl
  | apply _ _ _ _ _ _ => exact ⟨h.idle, h.polled, h.inactive⟩
  | report _ _ => exact ⟨h.idle, h.polled, h.inactive⟩
  | client k hclient =>
      have hthreads := clientStep_threads hclient
      have hdrives := clientStep_drives hclient
      exact h.other hsolid hdrives hthreads.processing hthreads.edges

/-- Every allocated task is completed or failed, and none is in a queue, in a
scratch buffer, or taken and not in `active_tasks_`. -/
def Executed (s : Pipeline.State) : Prop :=
  (∀ grant ∈ s.log.granted, (s.world.task grant.1).status.finished = true) ∧
    ∀ e ∈ s.world.fleet.ids, (s.world.node e).taskQueue = [] ∧
      (s.workers e).scratch = [] ∧ (s.workers e).unregistered = []

instance (s : Pipeline.State) : Decidable (Executed s) := inferInstanceAs (Decidable (_ ∧ _))

theorem ExecStage.concluded_of {stage : ExecStage} (hpending : stage.pending = false)
    (hregistered : stage.registered = false) : stage.concluded = true := by
  cases stage <;> first | rfl | exact hpending.symm | exact hregistered.symm

theorem executed_of_polled {s : Pipeline.State} (hsound : Sound s) (htally : Tally s)
    (houtcomes : Outcomes s) (hidle : s.producer = .idle)
    (hpolled : ∀ e ∈ s.world.fleet.ids, Polled s e)
    (hinactive : ∀ e ∈ s.world.fleet.ids, Inactive (s.workers e)) : Executed s := by
  refine ⟨fun ⟨t, e⟩ hgrant => ?_, fun e he =>
    ⟨(hpolled e he).queue, (hpolled e he).scratch, (hpolled e he).unregistered⟩⟩
  have he : e ∈ s.world.fleet.ids := htally.registered _ hgrant
  obtain ⟨hqueue, hscratch, hunregistered⟩ := hpolled e he
  have hplace : t ∈ s.allPlaces e := (hsound.custody e).mem_iff.mpr (mem_tasksOn.mpr hgrant)
  have hplaces : custody.places s e = (s.workers e).held := by
    rw [Account.places, hidle, EdgeNode.queued, hqueue]
    rfl
  rw [State.allPlaces, hplaces] at hplace
  rcases List.mem_append.mp hplace with hheld | hfinished
  · cases hworker : s.workers e with
    | executing t' stage =>
        rw [hworker] at hheld hunregistered
        rw [List.mem_singleton.mp hheld]
        have hpending : stage.pending = false := by
          rw [← Bool.not_eq_true]
          intro hpending
          rw [WorkerPc.unregistered, if_pos hpending] at hunregistered
          cases hunregistered
        exact houtcomes.concluded e t' stage hworker
          (ExecStage.concluded_of hpending (hinactive e he t' stage hworker))
    | fetching pc =>
        rw [hworker] at hheld hscratch
        rw [WorkerPc.held, show pc.held = [] from hscratch] at hheld
        cases hheld
    | _ =>
        rw [hworker] at hheld
        cases hheld
  · exact houtcomes.finished t e (mem_tasksOn.mp hfinished)

/-- Without a stop and a deadline the drain loop does not give up. -/
structure Patient (s : State) : Prop where
  stopRequested : s.stopRequested = false
  completing : s.processing ≠ .completing false

theorem Patient.move {s t : State} {label : Label} (h : Patient s)
    (hundisturbed : Undisturbed label) (hmove : Move s label t) : Patient t := by
  obtain ⟨hstop, hcompleting⟩ := h
  cases hmove with
  | enter running stopRequested main hlabel hstart =>
      obtain rfl | rfl := hlabel
      · exact ⟨(hstart rfl).trans hstop, hcompleting⟩
      · exact hundisturbed.elim
  | main hmain =>
      cases hmain with
      | clearStop _ => exact ⟨rfl, hcompleting⟩
      | launch _ _ => exact ⟨hstop, fun hpc => by cases hpc⟩
      | join _ _ => exact ⟨hstop, fun hpc => by cases hpc⟩
      | _ => exact ⟨hstop, hcompleting⟩
  | process input hprocess =>
      cases hprocess with
      | next _ _ hnew =>
          refine ⟨hstop, fun hpc => ?_⟩
          obtain ⟨j, rfl | rfl⟩ | rfl | ⟨j, rfl⟩ := hnew
          all_goals cases hpc
      | choose _ hstep => exact ⟨(chooseStep_threads hstep).stopRequested.trans hstop,
          fun hpc => by cases hpc⟩
      | giveUp _ hreason =>
          obtain hreason | hreason := hreason
          · rw [hstop] at hreason
            cases hreason
          · exact absurd hreason (by rw [show input.deadlinePassed = false from hundisturbed]; decide)
      | allocate _ _ => exact ⟨hstop, hcompleting⟩
      | _ => exact ⟨hstop, fun hpc => by cases hpc⟩
  | work _ _ _ => exact ⟨hstop, hcompleting⟩
  | apply _ _ _ _ _ _ => exact ⟨hstop, hcompleting⟩
  | report _ _ => exact ⟨hstop, hcompleting⟩
  | client k hclient =>
      have hthreads := clientStep_threads hclient
      exact ⟨hthreads.stopRequested.trans hstop,
        fun hpc => hcompleting (hthreads.processing.symm.trans hpc)⟩

def Covers (s : State) : Prop := ∀ e ∈ s.pipe.world.fleet.ids, e ∈ s.edges

theorem Move.edges {s t : State} {label : Label} (h : Move s label t) : t.edges = s.edges := by
  cases h with
  | main hmain => cases hmain <;> rfl
  | process _ hprocess =>
      cases hprocess with
      | choose _ hstep => exact (chooseStep_threads hstep).edges
      | _ => rfl
  | client _ hclient => exact (clientStep_threads hclient).edges
  | _ => rfl

theorem Covers.move {s t : State} {label : Label} (h : Covers s) (hmove : Move s label t) :
    Covers t := by
  intro e he
  rw [fleet_run hmove.run] at he
  rw [hmove.edges]
  exact h e he

def SettledDrain (s : State) (label : Label) : Prop := Undisturbed label ∧ PollsSettled s label

instance (s : State) (label : Label) : Decidable (SettledDrain s label) :=
  inferInstanceAs (Decidable (_ ∧ _))

theorem draining_of_reachable {s : State} (hs : machine.Reachable SettledDrain s) :
    Draining s ∧ Patient s ∧ Covers s := by
  let inv (u : State) : Prop :=
    machine.Reachable SettledDrain u ∧ Draining u ∧ Patient u ∧ Covers u
  have hinit {u : State} (hu : machine.initial u) : inv u := by
    refine ⟨⟨u, hu, .refl u⟩, .of_unseen (fun _ => hu.pipe.producer) fun e => ?_,
      ⟨hu.stopRequested, ?_⟩, fun e he => hu.edges.mem_iff.mpr he⟩
    · rw [hu.processing]
      exact id
    · rw [hu.processing]
      exact fun hpc => by cases hpc
  have hkeep {u v : State} {label : Label} (hu : inv u) (hguard : SettledDrain u label)
      (hstep : machine.step u label = some v) : inv v := by
    obtain ⟨hreachable, hdraining, hpatient, hcovers⟩ := hu
    obtain ⟨-, hsolid, -⟩ := tally_of_reachable (pipe_reachable hreachable)
    have houtcomes := outcomes_of_reachable (pipe_reachable hreachable)
    have hmove := step_move hstep
    exact ⟨hreachable.run (.tail (.refl _) hguard hstep),
      hdraining.move hsolid houtcomes hguard.2 hmove, hpatient.move hguard.1 hmove,
      hcovers.move hmove⟩
  exact (hs.invariant hinit hkeep).2

theorem completes {s t : State} {label : Label} (hmove : Move s label t)
    (hbefore : s.processingComplete = false) (hafter : t.processingComplete = true) :
    t.pipe = s.pipe ∧ ∃ drained, s.processing = .completing drained := by
  have hsame (h : t.processingComplete = s.processingComplete) : False := by
    rw [hbefore, hafter] at h
    cases h
  cases hmove with
  | main hmain =>
      cases hmain with
      | clearComplete _ => cases hafter
      | _ => exact (hsame rfl).elim
  | process input hprocess =>
      cases hprocess with
      | complete hpc => exact ⟨rfl, _, hpc⟩
      | choose _ hstep => exact (hsame (chooseStep_threads hstep).processingComplete).elim
      | _ => exact (hsame rfl).elim
  | client k hclient => exact (hsame (clientStep_threads hclient).processingComplete).elim
  | _ => exact (hsame rfl).elim

/-- If every poll that reads an empty queue is settled, `processing_complete_` is
set only when everything is executed. -/
theorem executed_when_complete {s t : State} {label : Label}
    (hs : machine.Reachable SettledDrain s) (hstep : machine.step s label = some t)
    (hbefore : s.processingComplete = false) (hafter : t.processingComplete = true) :
    Executed t.pipe := by
  have hmove : Move s label t := step_move hstep
  obtain ⟨hpipe, drained, hcompleting⟩ := completes hmove hbefore hafter
  obtain ⟨hdraining, hpatient, hcovers⟩ := draining_of_reachable hs
  have hdrained : drained = true := by
    rw [← Bool.not_eq_false]
    rintro rfl
    exact hpatient.completing hcompleting
  rw [hdrained] at hcompleting
  obtain ⟨hsound, -, htally⟩ := tally_of_reachable (pipe_reachable hs)
  rw [hpipe]
  refine executed_of_polled hsound htally (outcomes_of_reachable (pipe_reachable hs))
    (hdraining.idle (by rw [hcompleting]; rfl)) (fun e he => ?_) fun e he => ?_
  · refine hdraining.polled e (hcovers e he) ?_
    rw [hcompleting]
    trivial
  · exact hdraining.inactive hcompleting e (hcovers e he)

def takeThenPoll (work process : Nat) : State :=
  machine.final (singleRuntime false .roundRobin .fifo)
    (startUp ++ processSteps 24 ++ workSteps work ++ processSteps process)

theorem executed_when_complete_single :
    Executed (machine.final (takeThenPoll 18 3) [.process {}]).pipe :=
  executed_when_complete
    ⟨_, singleRuntime_manual _ _, Machine.run_of_checks (by decide +kernel)⟩
    (Machine.step_final (by decide +kernel)) (by decide +kernel) (by decide +kernel)

/-- The queue is polled after the worker has popped the task, and `active_tasks_`
read before it has put the task there. -/
theorem complete_before_executed :
    ¬ ∀ s label t, machine.Reachable (fun _ label => Undisturbed label) s →
      machine.step s label = some t → s.processingComplete = false →
      t.processingComplete = true → Executed t.pipe := by
  intro h
  have hexecuted := h (takeThenPoll 6 3) (.process {}) (machine.final (takeThenPoll 6 3)
    [.process {}]) ⟨_, singleRuntime_manual _ _, Machine.run_of_checks (by decide +kernel)⟩
    (Machine.step_final (by decide +kernel)) (by decide +kernel) (by decide +kernel)
  exact absurd hexecuted (by decide +kernel)

end EdgeAllocator.Live
