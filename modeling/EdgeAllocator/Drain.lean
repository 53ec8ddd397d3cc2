import EdgeAllocator.Experiment

/-! What the drain loop of an experiment leaves behind: the tasks that no call
of `getNextTask` will return any more once `stop` has cleared `is_running_`. -/
namespace EdgeAllocator.Experiment

open Foundation Scheduler Executor Allocator Allocation Pipeline

def delivers : WorkerPc → Nat
  | .fetching (.unlock none) | .fetching (.returned none) => 0
  | .fetching _ => 1
  | _ => 0

/-- The tasks in the queue of the edge or in the scratch buffer for it. -/
def waiting (s : Pipeline.State) (e : EdgeId) : Nat :=
  (s.world.node e).queued.length + (s.workers e).scratch.length

theorem fetchStep_delivers {me : Thread} {e : EdgeId} {clock : ComparisonClock} {w w' : World}
    {pc pc' : FetchPc} (hstep : fetchStep me e clock w pc = some (w', pc'))
    (hqueue : none ∉ (w.node e).taskQueue) (hsolid : SolidFetch (w.node e).taskQueue pc) :
    delivers (.fetching pc') = delivers (.fetching pc) ∨
      (w.node e).queued = [] ∧ pc.held = [] := by
  have hempty (hnone : ¬(w.node e).hasTasksInQueue = true) : (w.node e).queued = [] := by
    rw [Bool.not_eq_true, EdgeNode.hasTasksInQueue_eq_false] at hnone
    rw [EdgeNode.queued, hnone]
    rfl
  cases pc with
  | lock =>
      simp only [fetchStep] at hstep
      split_ifs at hstep
      cases hstep
      exact Or.inl rfl
  | checkQueue =>
      simp only [fetchStep] at hstep
      split_ifs at hstep with hmore hfifo <;> cases hstep
      · exact Or.inl rfl
      · exact Or.inl rfl
      · exact Or.inr ⟨hempty hmore, rfl⟩
  | popFront =>
      obtain ⟨task, rest, hfront, htask, -⟩ := dequeueTask_of_ne hsolid
      cases hstep
      rw [htask]
      cases task with
      | none =>
          rw [hfront] at hqueue
          exact absurd List.mem_cons_self hqueue
      | some t => exact Or.inl rfl
  | drainCheck buffer =>
      simp only [fetchStep] at hstep
      split_ifs at hstep with hmore hbuffer <;> cases hstep
      · exact Or.inl rfl
      · exact Or.inr ⟨hempty hmore, by rw [hbuffer]; rfl⟩
      · exact Or.inl rfl
  | drainPop buffer =>
      cases hstep
      exact Or.inl rfl
  | choose buffer =>
      obtain ⟨i, -, hnext⟩ := Option.map_eq_some_iff.mp hstep
      cases hnext
      exact Or.inl rfl
  | restore selected rest =>
      cases rest with
      | nil =>
          cases hstep
          cases selected with
          | none => exact absurd rfl hsolid.1
          | some t => exact Or.inl rfl
      | cons task rest =>
          cases hstep
          exact Or.inl rfl
  | unlock selected =>
      cases hstep
      cases selected <;> exact Or.inl rfl
  | returned selected => cases hstep

theorem workerStep_leftBehind {e : EdgeId} {input : WorkerInput} {w w' : World}
    {pc pc' : WorkerPc} (hstep : workerStep e input w pc = some (w', pc'))
    (hstopped : w.executor.isRunning = false) (hqueue : none ∉ (w.node e).taskQueue)
    (hsolid : ∀ fetch, pc = .fetching fetch → SolidFetch (w.node e).taskQueue fetch) :
    (w'.node e).queued.length + pc'.scratch.length - delivers pc' =
      (w.node e).queued.length + pc.scratch.length - delivers pc := by
  cases workerStep_move hstep with
  | enter hrunning =>
      rw [hstopped] at hrunning
      cases hrunning
  | leave _ => rfl
  | @fetch fetch fetch' w' hfetch =>
      obtain ⟨queue, mutex, hworld, hperm⟩ := fetchStep_effect hfetch
      have hlength : (w'.node e).queued.length + fetch'.held.length =
          (w.node e).queued.length + fetch.held.length := by
        have hlength := hperm.length_eq
        rw [List.length_append, List.length_append] at hlength
        simpa [hworld, EdgeNode.queued] using hlength
      obtain hsame | ⟨hqueued, hheld⟩ := fetchStep_delivers hfetch hqueue (hsolid fetch rfl)
      · simp only [WorkerPc.scratch, hsame, hlength]
      · rw [hqueued, hheld] at hlength
        simp only [WorkerPc.scratch, hqueued, hheld, List.length_nil] at hlength ⊢
        omega
  | idle => rfl
  | take t =>
      simp only [WorkerPc.scratch, delivers, FetchPc.held, Option.toList_some, List.length_cons,
        List.length_nil]
      omega
  | @exec t stage _ =>
      rw [execStep_queued]
      rfl
  | finish t => rfl

/-- What the main thread's position says about the executor and the producer. -/
def Shape (pipe : Pipeline.State) : MainPc → Prop
  | .starting =>
      pipe.world.executor.isRunning = false ∧ pipe.producer = .idle ∧ pipe.control = .idle
  | .spawning => pipe.world.executor.isRunning = true ∧ pipe.producer = .idle
  | .producing _ | .fluctuating _ =>
      pipe.world.executor.isRunning = true ∧ pipe.control = .idle
  | .generating _ | .draining _ | .polling _ | .napping _ =>
      pipe.world.executor.isRunning = true ∧ pipe.producer = .idle ∧ pipe.control = .idle
  | .stopping _ =>
      pipe.world.executor.isRunning = false ∧ pipe.producer = .idle ∧
        (∀ todo, pipe.control ≠ .spawning todo) ∧
        (pipe.control = .idle → ∀ e, pipe.workers e = .notStarted)
  | .finished _ =>
      pipe.world.executor.isRunning = false ∧ pipe.producer = .idle ∧
        ∀ e, pipe.workers e = .notStarted

theorem producer_frame {s s' : Pipeline.State} {draws : EdgeNode.Draws}
    (h : Pipeline.step s (.producer draws) = some s') :
    s'.world.executor = s.world.executor ∧ s'.control = s.control := by
  cases Pipeline.step_move h with
  | alloc _ _ hstep => exact ⟨allocStep_executor hstep, rfl⟩
  | schedule _ _ hstep => exact ⟨scheduleStep_executor hstep, rfl⟩
  | stay _ hlabel => simp at hlabel
  | _ => exact ⟨rfl, rfl⟩

theorem Shape.work {s s' : Pipeline.State} {main : MainPc} (h : Shape s main) {e : EdgeId}
    {input : WorkerInput} (hstep : Pipeline.step s (.work e input) = some s') : Shape s' main := by
  obtain ⟨⟨w, pc'⟩, hworker, hnext⟩ := Option.map_eq_some_iff.mp hstep
  have hrunning := workerStep_isRunning hworker
  have hstarted (hnone : ∀ e, s.workers e = .notStarted) : False := by
    rw [hnone e] at hworker
    cases hworker
  cases hnext
  cases main with
  | stopping drained => exact ⟨hrunning.trans h.1, h.2.1, h.2.2.1, fun hidle =>
      (hstarted (h.2.2.2 hidle)).elim⟩
  | finished drained => exact (hstarted h.2.2).elim
  | _ => exact ⟨hrunning.trans h.1, h.2⟩

theorem Shape.move {s s' : State} {label : Label} (h : Shape s.pipe s.main)
    (hmove : Move s label s') : Shape s'.pipe s'.main := by
  cases hmove with
  | start input hmain hpipe =>
      rw [hmain] at h
      obtain ⟨hrunning, hproducer, hcontrol⟩ := h
      simp only [Pipeline.step, hcontrol, hrunning, Bool.false_eq_true, if_false] at hpipe
      cases hpipe
      exact ⟨rfl, hproducer⟩
  | spawn input hmain hpipe =>
      rw [hmain] at h
      cases Pipeline.step_move hpipe with
      | stay _ hlabel => simp at hlabel
      | _ => exact h
  | spawned input hmain hidle =>
      rw [hmain] at h
      exact ⟨h.1, h.2, hidle⟩
  | generate input hmain hpipe =>
      rw [hmain] at h
      cases Pipeline.step_move hpipe with
      | produce kind now _ => exact ⟨h.1, h.2.2⟩
      | stay _ hlabel => simp at hlabel
  | generated input hmain _ =>
      rw [hmain] at h
      exact h
  | produce input hmain hpipe =>
      rw [hmain] at h
      obtain ⟨hexecutor, hcontrol⟩ := producer_frame hpipe
      exact ⟨(congrArg TaskExecutor.isRunning hexecutor).trans h.1, hcontrol.trans h.2⟩
  | update input hmain hpipe =>
      rw [hmain] at h
      cases Pipeline.step_move hpipe with
      | fluctuate _ => exact h
      | stay _ hlabel => simp at hlabel
  | fluctuate input hmain hpipe =>
      rw [hmain] at h
      obtain ⟨hexecutor, hcontrol⟩ := producer_frame hpipe
      exact ⟨(congrArg TaskExecutor.isRunning hexecutor).trans h.1, hcontrol.trans h.2⟩
  | next input hmain hidle =>
      obtain hmain | hmain := hmain
      all_goals
        rw [hmain] at h
        exact ⟨h.1, hidle, h.2⟩
  | poll input hmain hpoll hpoll' =>
      rw [hmain] at h
      obtain ⟨_, rfl | rfl⟩ | ⟨_, rfl⟩ := hpoll
      all_goals
        obtain ⟨_, rfl | rfl⟩ | ⟨_, rfl⟩ := hpoll'
        all_goals exact h
  | stop input hmain hpipe =>
      rw [hmain] at h
      obtain ⟨hrunning, hproducer, hcontrol⟩ := h
      simp only [Pipeline.step, hcontrol, hrunning, if_true] at hpipe
      cases hpipe
      exact ⟨rfl, hproducer, fun _ htodo => (by cases htodo), fun hidle => (by cases hidle)⟩
  | join input hmain hpipe =>
      rw [hmain] at h
      obtain ⟨hrunning, hproducer, hspawning, hnone⟩ := h
      cases Pipeline.step_move hpipe with
      | stay _ hlabel => simp at hlabel
      | spawn hcontrol _ => exact absurd hcontrol (hspawning _)
      | spawned hcontrol => exact absurd hcontrol (hspawning _)
      | join _ _ =>
          exact ⟨hrunning, hproducer, fun _ htodo => (by cases htodo),
            fun hidle => (by cases hidle)⟩
      | joined _ => exact ⟨hrunning, hproducer, fun _ htodo => (by cases htodo), fun _ _ => rfl⟩
  | joined input hmain hidle =>
      rw [hmain] at h
      exact ⟨h.1, h.2.1, h.2.2.2 hidle⟩
  | work e input hpipe => exact h.work hpipe

/-- The tasks that would stay behind if `is_running_` were cleared now. -/
def leftBehind (s : Pipeline.State) (e : EdgeId) : Nat := waiting s e - delivers (s.workers e)

def Stopped (s : State) : Prop := ∃ drained, s.main = .stopping drained ∨ s.main = .finished drained

theorem leftBehind_move {s s' : State} {label : Label} (hmain : Stopped s)
    (hshape : Shape s.pipe s.main) (hsound : Sound s.pipe) (hsolid : Solid s.pipe)
    (hmove : Move s label s') :
    Stopped s' ∧ ∀ e, leftBehind s'.pipe e = leftBehind s.pipe e := by
  have hstopped : s.pipe.world.executor.isRunning = false := by
    obtain ⟨drained, hstopping | hfinished⟩ := hmain
    · rw [hstopping] at hshape
      exact hshape.1
    · rw [hfinished] at hshape
      exact hshape.1
  cases hmove with
  | work e input hpipe =>
      refine ⟨hmain, fun e' => ?_⟩
      obtain ⟨⟨w, pc'⟩, hworker, hnext⟩ := Option.map_eq_some_iff.mp hpipe
      cases hnext
      simp only [leftBehind, waiting]
      by_cases he : e' = e
      · subst he
        rw [Function.update_self]
        exact workerStep_leftBehind hworker hstopped (hsolid.queue e') (hsolid.fetch e')
      · rw [Function.update_of_ne he, workerStep_node_of_ne hworker he]
  | @join input drained hstopping pipe hpipe =>
      refine ⟨⟨drained, Or.inl rfl⟩, fun e => ?_⟩
      rw [hstopping] at hshape
      cases Pipeline.step_move hpipe with
      | stay _ hlabel => simp at hlabel
      | spawn hcontrol _ => exact absurd hcontrol (hshape.2.2.1 _)
      | spawned hcontrol => exact absurd hcontrol (hshape.2.2.1 _)
      | join _ _ => rfl
      | joined hcontrol =>
          have hworker : s.pipe.workers e = .exited ∨ s.pipe.workers e = .notStarted := by
            by_cases he : e ∈ s.pipe.world.fleet.ids
            · exact Or.inl (hsound.threads.joining [] hcontrol e he List.not_mem_nil)
            · exact Or.inr (hsound.threads.foreign e he)
          simp only [leftBehind, waiting]
          obtain hexited | hnone := hworker
          · rw [hexited]
            rfl
          · rw [hnone]
  | @joined input drained _ _ => exact ⟨⟨drained, Or.inr rfl⟩, fun _ => rfl⟩
  | poll input hold hpoll _ =>
      exfalso
      obtain ⟨drained, hstopping | hfinished⟩ := hmain
      all_goals
        obtain ⟨_, rfl | rfl⟩ | ⟨_, rfl⟩ := hpoll
        all_goals simp_all
  | _ =>
      exfalso
      obtain ⟨drained, hstopping | hfinished⟩ := hmain
      all_goals simp_all

def Drained (s : Pipeline.State) : Prop :=
  s.world.executor.totalTasksExecuted + s.world.executor.totalTasksFailed =
      s.world.allocator.successfulAllocations ∧
    ∀ e ∈ s.world.fleet.ids, (s.world.node e).taskQueue = []

instance (s : Pipeline.State) : Decidable (Drained s) := inferInstanceAs (Decidable (_ ∧ _))

/-- Each edge has at most the one task waiting that the call of `getNextTask` at
hand will return. -/
def Quiet (s : Pipeline.State) : Prop :=
  ∀ e ∈ s.world.fleet.ids, waiting s e ≤ delivers (s.workers e)

theorem totals_of_empty {s : Pipeline.State} (hsound : Sound s) (htally : Tally s)
    (hidle : s.producer = .idle) (hworkers : ∀ e, s.workers e = .notStarted)
    (hempty : ∀ e ∈ s.world.fleet.ids, (s.world.node e).queued = []) :
    s.world.executor.totalTasksExecuted + s.world.executor.totalTasksFailed =
      s.world.allocator.successfulAllocations := by
  have hsame (e : EdgeId) : (tasksOn e s.log.counted).Perm (tasksOn e s.log.granted) := by
    have hcounted : (tasksOn e s.log.counted).Perm (tasksOn e s.log.finished) := by
      have htracked := hsound.counted e
      rw [hworkers e] at htracked
      exact htracked.trans (.of_eq (List.append_nil _))
    have hcustody : ((s.world.node e).queued ++ tasksOn e s.log.finished).Perm
        (tasksOn e s.log.granted) := by
      have hbalance := hsound.custody e
      simpa [Account.places, hidle, hworkers e, custody, ProducerPc.held, WorkerPc.held]
        using hbalance
    by_cases he : e ∈ s.world.fleet.ids
    · rw [hempty e he] at hcustody
      exact hcounted.trans hcustody
    · have hnone : tasksOn e s.log.granted = [] := by
        refine List.eq_nil_iff_forall_not_mem.mpr fun t ht => he ?_
        exact htally.registered _ (mem_tasksOn.mp ht)
      rw [hnone] at hcustody ⊢
      have hfinished := (List.append_eq_nil_iff.mp hcustody.eq_nil).2
      rw [hfinished] at hcounted
      exact hcounted
  have hperm : s.log.counted.Perm s.log.granted := by
    rw [List.perm_iff_count]
    rintro ⟨t, e⟩
    rw [← count_tasksOn, ← count_tasksOn, (hsame e).count_eq]
  have hsuccesses := htally.successes
  rw [hidle] at hsuccesses
  rw [htally.totals, hperm.length_eq]
  exact hsuccesses.symm

theorem sound_of_reachable {s : State} (hs : machine.Reachable Machine.free s) :
    Shape s.pipe s.main ∧ Sound s.pipe ∧ Solid s.pipe ∧ Tally s.pipe := by
  refine ⟨?_, tally_of_reachable (pipe_reachable hs)⟩
  have hinit {s : State} (hs : machine.initial s) : Shape s.pipe s.main := by
    rw [hs.main]
    exact ⟨congrArg TaskExecutor.isRunning hs.pipe.executor, hs.pipe.producer, hs.pipe.control⟩
  have hkeep {s t : State} {label : Label} (hs : Shape s.pipe s.main) (_ : Machine.free s label)
      (hstep : machine.step s label = some t) : Shape t.pipe t.main :=
    hs.move (step_move hstep)
  exact hs.invariant hinit hkeep

theorem leftBehind_run {s t : State} (hs : machine.Reachable Machine.free s) (hmain : Stopped s)
    (hrun : machine.Run Machine.free s t) (e : EdgeId) :
    leftBehind t.pipe e = leftBehind s.pipe e := by
  let inv (u : State) : Prop := machine.Reachable Machine.free u ∧ Stopped u ∧
    ∀ e, leftBehind u.pipe e = leftBehind s.pipe e
  have hkeep {u v : State} {label : Label} (hu : inv u) (_ : Machine.free u label)
      (hstep : machine.step u label = some v) : inv v := by
    obtain ⟨hreachable, hstopped, hleft⟩ := hu
    obtain ⟨hshape, hsound, hsolid, -⟩ := sound_of_reachable hreachable
    obtain ⟨hstopped', hleft'⟩ := leftBehind_move hstopped hshape hsound hsolid (step_move hstep)
    exact ⟨hreachable.run (.tail (.refl _) trivial hstep), hstopped',
      fun e => (hleft' e).trans (hleft e)⟩
  exact (hrun.preserves hkeep (⟨hs, hmain, fun _ => rfl⟩ : inv s)).2.2 e

/-- The step from `s` to `s'` is the one in which the main thread clears
`is_running_`, in a run that goes on to `t`. -/
structure Stops (drained : Bool) (s s' t : State) : Prop where
  reachable : machine.Reachable Machine.free s
  draining : s.main = .draining !drained
  step : ∃ input, machine.step s (.main input) = some s'
  cleared : s'.main = .stopping drained
  run : machine.Run Machine.free s' t

variable {s s' t : State} {drained : Bool}

theorem Stops.reachable_next (h : Stops drained s s' t) : machine.Reachable Machine.free s' := by
  obtain ⟨input, hstep⟩ := h.step
  exact h.reachable.run (.tail (.refl _) trivial hstep)

theorem Stops.effect (h : Stops drained s s' t) : s'.pipe.world.fleet = s.pipe.world.fleet ∧
    ∀ e, leftBehind s'.pipe e = leftBehind s.pipe e := by
  have hshape := (sound_of_reachable h.reachable).1
  have hdraining := h.draining
  have hcleared := h.cleared
  rw [hdraining] at hshape
  obtain ⟨hrunning, hproducer, hcontrol⟩ := hshape
  obtain ⟨input, hstep⟩ := h.step
  have hmove : Move s (.main input) s' := step_move hstep
  cases hmove with
  | stop _ _ hpipe =>
      simp only [Pipeline.step, hcontrol, hrunning, if_true] at hpipe
      cases hpipe
      exact ⟨rfl, fun _ => rfl⟩
  | poll _ _ _ hpoll' =>
      exfalso
      obtain ⟨_, rfl | rfl⟩ | ⟨_, rfl⟩ := hpoll'
      all_goals cases hcleared
  | join _ hstopping _ =>
      rw [hdraining] at hstopping
      cases hstopping
  | _ => cases hcleared

theorem Stops.drained_iff_quiet (h : Stops drained s s' t) (hfinished : t.main = .finished drained) :
    Drained t.pipe ↔ Quiet s.pipe := by
  obtain ⟨hfleet, hstopLeft⟩ := h.effect
  obtain ⟨hshape, hsound, hsolid, htally⟩ := sound_of_reachable (h.reachable_next.run h.run)
  rw [hfinished] at hshape
  obtain ⟨-, hidle, hworkers⟩ := hshape
  have hrunFleet : t.pipe.world.fleet = s.pipe.world.fleet :=
    (fleet_run (h.run.map State.pipe fun _ hstep => (step_move hstep).pipe)).trans hfleet
  have hleft (e : EdgeId) : (t.pipe.world.node e).queued.length = leftBehind s.pipe e := by
    rw [← hstopLeft e,
      ← leftBehind_run h.reachable_next ⟨drained, Or.inl h.cleared⟩ h.run e, leftBehind, waiting,
      hworkers e]
    rfl
  have hempty : (∀ e ∈ t.pipe.world.fleet.ids, (t.pipe.world.node e).queued = []) ↔
      Quiet s.pipe := by
    rw [hrunFleet]
    refine forall_congr' fun e => imp_congr_right fun _ => ?_
    rw [← List.length_eq_zero_iff, hleft e, leftBehind, Nat.sub_eq_zero_iff_le]
  rw [← hempty]
  constructor
  · rintro ⟨-, hqueues⟩ e he
    exact (queued_eq_nil hsolid e).mpr (hqueues e he)
  · intro hqueues
    exact ⟨totals_of_empty hsound htally hidle hworkers hqueues,
      fun e he => (queued_eq_nil hsolid e).mp (hqueues e he)⟩

theorem exists_stops (ht : machine.Reachable Machine.free t)
    (hfinished : t.main = .finished drained) : ∃ s s', Stops drained s s' t := by
  let inv (u : State) : Prop := machine.Reachable Machine.free u ∧
    ∀ drained, u.main = .stopping drained ∨ u.main = .finished drained →
      ∃ s s', Stops drained s s' u
  have hinit {u : State} (hu : machine.initial u) : inv u := by
    refine ⟨⟨u, hu, .refl u⟩, fun drained hmain => ?_⟩
    rw [hu.main] at hmain
    rcases hmain with hmain | hmain <;> cases hmain
  have hkeep {u v : State} {label : Label} (hu : inv u) (_ : Machine.free u label)
      (hstep : machine.step u label = some v) : inv v := by
    obtain ⟨hreachable, hpassed⟩ := hu
    refine ⟨hreachable.run (.tail (.refl _) trivial hstep), fun drained hmain => ?_⟩
    have hextend (hold : u.main = .stopping drained ∨ u.main = .finished drained) :
        ∃ s s', Stops drained s s' v := by
      obtain ⟨s, s', h⟩ := hpassed drained hold
      exact ⟨s, s', { h with run := .tail h.run trivial hstep }⟩
    cases step_move hstep with
    | @stop input anyQueued hdraining pipe hpipe =>
        rcases hmain with hmain | hmain <;> cases hmain
        exact ⟨u, _, hreachable, (by rw [hdraining, Bool.not_not]), ⟨input, hstep⟩, rfl, .refl _⟩
    | join _ hstopping _ =>
        rcases hmain with hmain | hmain <;> cases hmain
        exact hextend (Or.inl hstopping)
    | joined _ hstopping _ =>
        rcases hmain with hmain | hmain <;> cases hmain
        exact hextend (Or.inl hstopping)
    | work e input hpipe => exact hextend hmain
    | poll _ _ _ hpoll' =>
        exfalso
        obtain ⟨_, rfl | rfl⟩ | ⟨_, rfl⟩ := hpoll'
        all_goals rcases hmain with hmain | hmain <;> cases hmain
    | _ => rcases hmain with hmain | hmain <;> cases hmain
  exact (ht.invariant hinit hkeep).2 drained (Or.inr hfinished)

/-- An experiment whose drain loop saw the queues empty has executed everything
that it allocated exactly if the edges were quiet when `stop` cleared
`is_running_`. -/
theorem drained_iff_quiet_at_stop (ht : machine.Reachable Machine.free t)
    (hfinished : t.main = .finished true) :
    (∃ s s', Stops true s s' t) ∧
      ∀ s s', Stops true s s' t → (Drained t.pipe ↔ Quiet s.pipe) :=
  ⟨exists_stops ht hfinished, fun _ _ h => h.drained_iff_quiet hfinished⟩

def twoTasks : State :=
  { pipe := bootSingle (fun _ => TaskProfile.ultrasonic) .priorityBased
    taskCount := 2
    edges := ["E01"] }

theorem twoTasks_initial : machine.initial twoTasks :=
  ⟨boot_initial .., .refl _, rfl⟩

def mainSteps (n : Nat) : List Label := List.replicate n (.main {})

def workSteps (n : Nat) : List Label := List.replicate n (.work "E01" {})

def pollDuringDrain : List Label :=
  mainSteps 42 ++ workSteps 7 ++ mainSteps 5 ++ workSteps 19 ++ mainSteps 3

theorem drained_iff_quiet_twoTasks :
    let t := machine.final twoTasks pollDuringDrain
    (∃ s s', Stops true s s' t) ∧
      ∀ s s', Stops true s s' t → (Drained t.pipe ↔ Quiet s.pipe) :=
  drained_iff_quiet_at_stop (Machine.reachable_final twoTasks_initial (by decide +kernel))
    (by decide +kernel)

/-- The drain loop can end with a task left over. -/
theorem drain_leaves_task :
    ¬ ∀ t, machine.Reachable Machine.free t → t.main = .finished true → Drained t.pipe := by
  intro h
  have hdrained := h (machine.final twoTasks pollDuringDrain)
    (Machine.reachable_final twoTasks_initial (by decide +kernel)) (by decide +kernel)
  exact absurd hdrained (by decide +kernel)

end EdgeAllocator.Experiment
