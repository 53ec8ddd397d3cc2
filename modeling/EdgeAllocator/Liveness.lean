import EdgeAllocator.Effort
import EdgeAllocator.Foundation.Fairness

/-! No thread of the live runtime starves where the scheduler is fair: every call that
reconfigures it or reads its configuration returns. -/
namespace EdgeAllocator.Progress

open Foundation Scheduler Executor Allocator Allocation Pipeline Live Recording

def Reconfigures (label : Pipeline.Label) : Prop :=
  (∃ strategy, label = .setAllocation strategy) ∨ ∃ strategy, label = .setScheduling strategy

theorem chooseStep_reconfigures {me : Thread} {s t : Live.State} {pc pc' : ChoosePc}
    (h : chooseStep me s pc = some (t, pc')) : Drives Reconfigures s.pipe t.pipe := by
  cases pc with
  | readUsage todo cpuTotal => cases todo <;> cases h <;> exact Or.inl rfl
  | lock averageCpu =>
      obtain ⟨-, rfl, -⟩ := lock_pair h
      exact Or.inl rfl
  | setAllocation averageCpu =>
      obtain ⟨pipe, hpipe, rfl, -⟩ := drive_pair h
      exact Or.inr ⟨_, Or.inl ⟨_, rfl⟩, hpipe⟩
  | setScheduling averageCpu =>
      obtain ⟨pipe, hpipe, rfl, -⟩ := drive_pair h
      exact Or.inr ⟨_, Or.inr ⟨_, rfl⟩, hpipe⟩
  | unlock =>
      cases h
      exact Or.inl rfl
  | returned => cases h

theorem clientStep_reconfigures {me : Thread} {s t : Live.State} {pc pc' : ClientPc}
    (h : clientStep me s pc = some (t, pc')) : Drives Reconfigures s.pipe t.pipe := by
  cases pc with
  | idle => cases h
  | autoLock =>
      obtain ⟨-, rfl, -⟩ := lock_pair h
      exact Or.inl rfl
  | manualLock allocation scheduling =>
      obtain ⟨-, rfl, -⟩ := lock_pair h
      exact Or.inl rfl
  | autoChoose pc =>
      obtain ⟨-, rfl, -⟩ | ⟨next, hstep, -⟩ := autoChoose_some h
      · exact Or.inl rfl
      · exact chooseStep_reconfigures hstep
  | validate allocation scheduling =>
      simp only [clientStep] at h
      split at h <;> cases h <;> exact Or.inl rfl
  | setAllocation allocation scheduling =>
      obtain ⟨pipe, hpipe, rfl, -⟩ := drive_pair h
      exact Or.inr ⟨_, Or.inl ⟨_, rfl⟩, hpipe⟩
  | setScheduling allocation scheduling =>
      obtain ⟨pipe, hpipe, rfl, -⟩ := drive_pair h
      exact Or.inr ⟨_, Or.inr ⟨_, rfl⟩, hpipe⟩
  | reporting pc =>
      obtain ⟨-, rfl, -⟩ | ⟨next, hstep, -⟩ := reporting_some h
      · exact Or.inl rfl
      · obtain ⟨owner, rfl⟩ := reportStep_frame hstep
        exact Or.inl rfl
  | _ =>
      cases h
      exact Or.inl rfl

/-- The steps of the pipeline that a step of the runtime may consist of. -/
def Origin : Live.Label → Pipeline.Label → Prop
  | .main, driven => driven = .start ∨ driven = .stop ∨ driven = .control
  | .process _, driven => Reconfigures driven ∨ driven.byProducer = true
  | .work e input, driven => driven = .work e input
  | .client _, driven => Reconfigures driven
  | .start, _ | .stop, _ | .apply _ _ _ _, _ | .report _, _ => False

theorem Reconfigures.notByProducer {driven : Pipeline.Label} (h : Reconfigures driven) :
    NotByProducer driven := by
  obtain ⟨strategy, rfl⟩ | ⟨strategy, rfl⟩ := h <;> rfl

section Foreign

variable {s t : Live.State} {label : Live.Label}

theorem origin_move (hmove : Live.Move s label t) : Drives (Origin label) s.pipe t.pipe := by
  cases hmove with
  | enter _ _ _ _ _ => exact Or.inl rfl
  | main hmain =>
      cases hmain with
      | drive hlabel hpipe => exact Or.inr ⟨_, hlabel, hpipe⟩
      | _ => exact Or.inl rfl
  | process input hprocess =>
      cases hprocess with
      | choose _ hchoose => exact (chooseStep_reconfigures hchoose).mono fun _ => Or.inl
      | create _ hpipe => exact Or.inr ⟨_, Or.inr rfl, hpipe⟩
      | allocate _ hpipe => exact Or.inr ⟨_, Or.inr rfl, hpipe⟩
      | _ => exact Or.inl rfl
  | work e input hpipe => exact Or.inr ⟨_, rfl, hpipe⟩
  | apply _ _ _ _ _ _ => exact Or.inl rfl
  | report _ _ => exact Or.inl rfl
  | client k hclient =>
      have hdrives := clientStep_reconfigures hclient
      exact hdrives

theorem origin_notByProducer {driven : Pipeline.Label} (hlabel : ∀ input, label ≠ .process input)
    (h : Origin label driven) : NotByProducer driven := by
  cases label with
  | main => obtain rfl | rfl | rfl := h <;> rfl
  | process input => exact absurd rfl (hlabel input)
  | work e input =>
      cases h
      rfl
  | client k => exact Reconfigures.notByProducer h
  | _ => exact h.elim

theorem origin_not_work {e : EdgeId} {driven : Pipeline.Label}
    (hlabel : ∀ input, label ≠ .work e input) (h : Origin label driven) (input : WorkerInput) :
    driven ≠ .work e input := by
  rintro rfl
  cases label with
  | work e' input' =>
      cases h
      exact hlabel input rfl
  | main => simp [Origin] at h
  | process input' => simp [Origin, Reconfigures, Label.byProducer] at h
  | client k => simp [Origin, Reconfigures] at h
  | _ => exact h.elim

theorem origin_not_control {driven : Pipeline.Label} (hlabel : label ≠ .main)
    (h : Origin label driven) : driven ≠ .start ∧ driven ≠ .stop ∧ driven ≠ .control := by
  refine ⟨?_, ?_, ?_⟩ <;> rintro rfl <;> cases label <;>
    simp [Origin, Reconfigures, Label.byProducer] at h hlabel

theorem processing_foreign (hmove : Live.Move s label t)
    (hlabel : ∀ input, label ≠ .process input) :
    t.pipe.producer = s.pipe.producer ∧ (t.processing = s.processing ∨
      s.processing = .notStarted ∧ t.processing = .loopHead 0 ∨
      (∃ drained, s.processing = .exited drained) ∧ t.processing = .notStarted) := by
  refine ⟨((origin_move hmove).mono fun _ => origin_notByProducer hlabel).producer.1, ?_⟩
  cases hmove with
  | main hmain =>
      cases hmain with
      | launch _ hjoined => exact Or.inr (Or.inl ⟨hjoined, rfl⟩)
      | join _ hexited => exact Or.inr (Or.inr ⟨⟨_, hexited⟩, rfl⟩)
      | _ => exact Or.inl rfl
  | process input _ => exact absurd rfl (hlabel input)
  | client _ hclient => exact Or.inl (clientStep_threads hclient).processing
  | _ => exact Or.inl rfl

theorem client_foreign {k : Nat} (hmove : Live.Move s label t) (hlabel : label ≠ .client k) :
    t.clients k = s.clients k ∨ s.clients k = .idle ∧ (t.clients k).promise = none := by
  cases hmove with
  | main hmain => cases hmain <;> exact Or.inl rfl
  | process _ hprocess => exact Or.inl (congrFun (processMove_clients hprocess) k)
  | @apply k' _ _ _ entry hidle hentry =>
      by_cases heq : k = k'
      · have hnone : entry.promise = none := by obtain rfl | rfl := hentry <;> rfl
        exact Or.inr ⟨heq ▸ hidle, (promise_update hidle hnone k).trans (by rw [heq, hidle]; rfl)⟩
      · exact Or.inl (Function.update_of_ne heq _ _)
  | @report k' hidle =>
      by_cases heq : k = k'
      · exact Or.inr ⟨heq ▸ hidle, (promise_update hidle rfl k).trans (by rw [heq, hidle]; rfl)⟩
      · exact Or.inl (Function.update_of_ne heq _ _)
  | @client k' u pc hclient =>
      have hne : k ≠ k' := fun heq => hlabel (heq ▸ rfl)
      refine Or.inl ?_
      show Function.update u.clients k' pc k = s.clients k
      rw [Function.update_of_ne hne, (clientStep_threads hclient).clients]
  | _ => exact Or.inl rfl

theorem worker_foreign {e : EdgeId} (hmove : Live.Move s label t) (hthreads : Threads s.pipe)
    (hlabel : ∀ input, label ≠ .work e input) :
    t.pipe.workers e = s.pipe.workers e ∨
      s.pipe.workers e = .notStarted ∧ t.pipe.workers e = .loopHead ∨
      (s.pipe.workers e = .notStarted ∨ s.pipe.workers e = .exited) ∧
        t.pipe.workers e = .notStarted := by
  obtain hsame | ⟨driven, horigin, hstep⟩ := origin_move hmove
  · rw [hsame]
    exact Or.inl rfl
  · have hnot := origin_not_work hlabel horigin
    generalize t.pipe = pipe at hstep ⊢
    cases Pipeline.step_move hstep with
    | @work e' input w pc' _ =>
        have hne : e ≠ e' := fun heq => hnot input (heq ▸ rfl)
        exact Or.inl (Function.update_of_ne hne _ _)
    | @spawn e' todo _ hworker =>
        by_cases heq : e = e'
        · refine Or.inr (Or.inl ⟨heq ▸ hworker, ?_⟩)
          show Function.update s.pipe.workers e' .loopHead e = .loopHead
          rw [heq, Function.update_self]
        · exact Or.inl (Function.update_of_ne heq _ _)
    | joined hcontrol =>
        refine Or.inr (Or.inr ⟨?_, rfl⟩)
        by_cases he : e ∈ s.pipe.world.fleet.ids
        · exact Or.inr (hthreads.joining [] hcontrol e he List.not_mem_nil)
        · exact Or.inl (hthreads.foreign e he)
    | _ => exact Or.inl rfl

theorem queue_foreign {e : EdgeId} (hmove : Live.Move s label t)
    (hlabel : ∀ input, label ≠ .work e input)
    (hlocked : s.pipe.producer.schedulingLocked = false) :
    (t.pipe.world.node e).taskQueue = (s.pipe.world.node e).taskQueue := by
  obtain hsame | ⟨driven, horigin, hstep⟩ := origin_move hmove
  · rw [hsame]
  · have hnot := origin_not_work hlabel horigin
    have hmodify (e' : EdgeId) {w : World} {f : EdgeNode → EdgeNode}
        (hf : ∀ node, (f node).taskQueue = node.taskQueue) :
        ((w.modifyNode e' f).node e).taskQueue = (w.node e).taskQueue := by
      by_cases heq : e = e'
      · rw [heq, World.modifyNode_self, hf]
      · rw [World.modifyNode_of_ne _ _ heq]
    generalize t.pipe = pipe at hstep ⊢
    cases Pipeline.step_move hstep with
    | @alloc _ call pc pc' w _ halloc =>
        obtain ⟨hnode, -, -⟩ | ⟨n, e', score, -, -, hnext⟩ := allocStep_node halloc
        · exact congrArg (fun node => (node e).taskQueue) hnode
        · rw [hnext]
          exact hmodify e' fun _ => rfl
    | @schedule _ u e' pc pc' w hpc hschedule =>
        obtain ⟨-, hnode⟩ | ⟨henqueue, -, -⟩ := scheduleStep_node hschedule
        · exact congrArg (fun node => (node e).taskQueue) hnode
        · rw [hpc, henqueue] at hlocked
          cases hlocked
    | @draw _ e' todo _ => exact hmodify e' fun _ => rfl
    | @work e' input w pc' hwork =>
        have hne : e ≠ e' := fun heq => hnot input (heq ▸ rfl)
        exact congrArg EdgeNode.taskQueue (workerStep_node_of_ne hwork hne)
    | _ => rfl

theorem main_foreign (hmove : Live.Move s label t) (hlabel : label ≠ .main) :
    t.pipe.control = s.pipe.control ∧
      t.pipe.world.executor.isRunning = s.pipe.world.executor.isRunning := by
  obtain hsame | ⟨driven, horigin, hstep⟩ := origin_move hmove
  · rw [hsame]
    exact ⟨rfl, rfl⟩
  · have hnot := origin_not_control hlabel horigin
    refine ⟨control_step hstep hnot, ?_⟩
    obtain ⟨hstart, hstop, -⟩ := hnot
    generalize t.pipe = pipe at hstep ⊢
    cases Pipeline.step_move hstep with
    | alloc _ _ halloc => exact congrArg TaskExecutor.isRunning (allocStep_executor halloc)
    | schedule _ _ hschedule =>
        exact congrArg TaskExecutor.isRunning (scheduleStep_executor hschedule)
    | work _ _ hwork => exact workerStep_isRunning hwork
    | start _ => exact absurd rfl hstart
    | stop _ => exact absurd rfl hstop
    | _ => rfl

end Foreign

theorem Party.thread_injective : Function.Injective Party.thread := by
  intro p q h
  cases p <;> cases q <;> first | rfl | (cases h; done) | (cases h; rfl)

def schedule : Machine.Schedule Recording.State Live.Label Party where
  party
    | .main => some .main
    | .process _ => some .processing
    | .work e _ => some (.worker e)
    | .client k => some (.client k)
    | .start | .stop | .apply _ _ _ _ | .report _ => none
  enabled := Moves

def inside (s : Recording.State) : Party → Mutex → Bool
  | .processing, .configuration => s.live.processing.promise.isSome
  | .processing, .allocation => s.live.pipe.producer.allocationLocked
  | .processing, .scheduling => s.live.pipe.producer.schedulingLocked
  | .worker e, .scheduling => (s.live.pipe.workers e).schedulingLocked
  | .client k, .configuration => (s.live.clients k).promise.isSome
  | _, _ => false

/-- What is left of the thread's call, or of its loop once that is to end. -/
def effort (s : Recording.State) : Party → Nat
  | .main => 0
  | .processing => s.effort
  | .worker e => (s.live.pipe.workers e).effort (s.live.pipe.world.node e).taskQueue.length
  | .client k => (s.live.clients k).effort s.live.edges.length

section Sections

variable {s t : Recording.State} {label : Live.Label} {p : Party}

theorem holds_iff (h : Fluent s) {m : Mutex} : (waiting s).holds p m ↔ inside s p m = true := by
  obtain ⟨hallocation, hscheduling, hconfiguration⟩ := producer_owns h
  have howns (thread : Thread) (hthread : p.thread = some thread) :
      (waiting s).holds p m ↔ owner s.live m = some thread := by
    simp [waiting, hthread]
  cases p with
  | main => simp [waiting, Party.thread, inside]
  | processing =>
      rw [howns .producer rfl]
      cases m with
      | configuration => exact hconfiguration
      | allocation => exact hallocation
      | scheduling => exact hscheduling
  | worker e =>
      rw [howns (.worker e) rfl]
      constructor
      · intro howner
        obtain ⟨rfl, hinside⟩ := worker_owns h howner
        exact hinside
      · intro hinside
        cases m with
        | scheduling => exact (h.smooth.owned.scheduling (.worker e)).mp hinside
        | _ => cases hinside
  | client k =>
      rw [howns (.client k) rfl]
      constructor
      · intro howner
        obtain ⟨rfl, hinside⟩ := client_owns h howner
        exact hinside
      · intro hinside
        cases m with
        | configuration => exact (h.configuration (.client k)).mp hinside
        | _ => cases hinside

theorem holds_alive (h : Fluent s) {m : Mutex} (hholds : (waiting s).holds p m) :
    Alive s p ∧ p ≠ .main := by
  obtain ⟨hsome, howner⟩ := hholds
  obtain ⟨thread, hthread⟩ := Option.isSome_iff_exists.mp hsome
  obtain ⟨q, hq, halive⟩ := owner_alive h (howner.trans hthread)
  have hsame : q = p := Party.thread_injective (hq.trans hthread.symm)
  refine ⟨hsame ▸ halive, ?_⟩
  rintro rfl
  cases hthread

theorem live_move (hstep : Recording.step s label = some t) :
    t.live = s.live ∨ Live.Move s.live label t.live :=
  (live_step hstep).imp_right Live.step_move

theorem record_foreign (hstep : Recording.step s label = some t)
    (hlabel : ∀ input, label ≠ .process input) :
    t.record = s.record ∧ Live.Move s.live label t.live := by
  cases Recording.step_move hstep with
  | other _ hmove => exact ⟨rfl, hmove⟩
  | process input _ _ => exact absurd rfl (hlabel input)
  | read input _ => exact absurd rfl (hlabel input)
  | write input _ => exact absurd rfl (hlabel input)
  | writeFailure input _ => exact absurd rfl (hlabel input)

theorem inside_foreign (h : Fluent s) (hstep : Recording.step s label = some t)
    (hparty : schedule.party label ≠ some p) (m : Mutex) : inside t p m = inside s p m := by
  cases p with
  | main => rfl
  | processing =>
      obtain ⟨-, hmove⟩ := record_foreign hstep fun input heq => hparty (heq ▸ rfl)
      obtain ⟨hproducer, hprocessing⟩ := processing_foreign hmove fun input heq =>
        hparty (heq ▸ rfl)
      cases m with
      | configuration =>
          simp only [inside]
          obtain hsame | ⟨hbefore, hafter⟩ | ⟨⟨drained, hbefore⟩, hafter⟩ := hprocessing
          · rw [hsame]
          · rw [hbefore, hafter]
            rfl
          · rw [hbefore, hafter]
            rfl
      | allocation => simp only [inside, hproducer]
      | scheduling => simp only [inside, hproducer]
  | worker e =>
      obtain hsame | hmove := live_move hstep
      · simp only [inside, hsame]
      · cases m with
        | scheduling =>
            simp only [inside]
            obtain hsame | ⟨hbefore, hafter⟩ | ⟨hbefore | hbefore, hafter⟩ :=
              worker_foreign hmove h.honest.sound.threads fun input heq => hparty (heq ▸ rfl)
            · rw [hsame]
            · rw [hbefore, hafter]
              rfl
            · rw [hbefore, hafter]
            · rw [hbefore, hafter]
              rfl
        | _ => rfl
  | client k =>
      obtain hsame | hmove := live_move hstep
      · simp only [inside, hsame]
      · cases m with
        | configuration =>
            simp only [inside]
            obtain hsame | ⟨hbefore, hafter⟩ := client_foreign hmove fun heq => hparty (heq ▸ rfl)
            · rw [hsame]
            · rw [hbefore, hafter]
              rfl
        | _ => rfl

theorem stays_foreign (h : Fluent s) (hstep : Recording.step s label = some t)
    (hparty : schedule.party label ≠ some p) (hmain : p ≠ .main) (halive : Alive s p) :
    Alive t p ∧ wants t p = wants s p := by
  cases p with
  | main => exact absurd rfl hmain
  | processing =>
      obtain ⟨hrecord, hmove⟩ := record_foreign hstep fun input heq => hparty (heq ▸ rfl)
      obtain ⟨hproducer, hprocessing⟩ := processing_foreign hmove fun input heq =>
        hparty (heq ▸ rfl)
      obtain ⟨hstarted, hexited⟩ := halive
      obtain hsame | ⟨hbefore, -⟩ | ⟨⟨drained, hbefore⟩, -⟩ := hprocessing
      · simp only [Alive, wants, processingWants, roundWants, hsame, hrecord, hproducer]
        exact ⟨⟨hstarted, hexited⟩, trivial⟩
      · exact absurd hbefore hstarted
      · exact absurd hbefore (hexited drained)
  | worker e =>
      obtain hsame | hmove := live_move hstep
      · simp only [Alive, wants, hsame]
        exact ⟨halive, trivial⟩
      · obtain hsame | ⟨hbefore, -⟩ | ⟨hbefore | hbefore, -⟩ :=
          worker_foreign hmove h.honest.sound.threads fun input heq => hparty (heq ▸ rfl)
        · simp only [Alive, wants, hsame]
          exact ⟨halive, trivial⟩
        · exact absurd hbefore halive.1
        · exact absurd hbefore halive.1
        · exact absurd hbefore halive.2
  | client k =>
      obtain hsame | hmove := live_move hstep
      · simp only [Alive, wants, hsame]
        exact ⟨halive, trivial⟩
      · obtain hsame | ⟨hbefore, -⟩ := client_foreign hmove fun heq => hparty (heq ▸ rfl)
        · simp only [Alive, wants, hsame]
          exact ⟨halive, trivial⟩
        · exact absurd hbefore halive

theorem clientStep_ends {me : Thread} {s t : Live.State} {pc : ClientPc}
    (h : clientStep me s pc = some (t, .idle)) :
    (∃ result, pc = .returned result) ∨ ∃ item, pc = .reporting (.returned item) := by
  cases pc with
  | idle => cases h
  | returned result => exact Or.inl ⟨result, rfl⟩
  | reporting pc =>
      obtain ⟨⟨item, rfl⟩, -, -⟩ | ⟨next, -, heq⟩ := reporting_some h
      · exact Or.inr ⟨item, rfl⟩
      · cases heq
  | autoLock =>
      obtain ⟨-, -, heq⟩ := lock_pair h
      cases heq
  | manualLock allocation scheduling =>
      obtain ⟨-, -, heq⟩ := lock_pair h
      cases heq
  | autoChoose pc =>
      obtain ⟨-, -, heq⟩ | ⟨next, -, heq⟩ := autoChoose_some h <;> cases heq
  | validate allocation scheduling =>
      simp only [clientStep] at h
      split at h <;> cases h
  | setAllocation allocation scheduling =>
      obtain ⟨-, -, -, heq⟩ := drive_pair h
      cases heq
  | setScheduling allocation scheduling =>
      obtain ⟨-, -, -, heq⟩ := drive_pair h
      cases heq
  | _ => cases h

theorem clientStep_isReporting {me : Thread} {s t : Live.State} {pc pc' : ClientPc}
    (h : clientStep me s pc = some (t, pc')) (hbusy : pc' ≠ .idle) :
    pc'.isReporting = pc.isReporting := by
  cases pc with
  | idle => cases h
  | reporting pc =>
      obtain ⟨-, -, rfl⟩ | ⟨next, -, rfl⟩ := reporting_some h
      · exact absurd rfl hbusy
      · rfl
  | autoLock =>
      obtain ⟨-, -, rfl⟩ := lock_pair h
      rfl
  | manualLock allocation scheduling =>
      obtain ⟨-, -, rfl⟩ := lock_pair h
      rfl
  | autoChoose pc =>
      obtain ⟨-, -, rfl⟩ | ⟨next, -, rfl⟩ := autoChoose_some h <;> rfl
  | validate allocation scheduling =>
      simp only [clientStep] at h
      split at h <;> cases h <;> rfl
  | setAllocation allocation scheduling =>
      obtain ⟨-, -, -, rfl⟩ := drive_pair h
      rfl
  | setScheduling allocation scheduling =>
      obtain ⟨-, -, -, rfl⟩ := drive_pair h
      rfl
  | _ =>
      cases h
      rfl

/-- The call in which a client stands at the first place returns at the second. -/
inductive Returns : ClientPc → ClientPc → Prop where
  | applied {pc : ClientPc} (result : Except String Unit) (h : pc.isReporting = false) :
      Returns pc (.returned result)
  | reported {pc : ClientPc} (item : ConfigurationItem) (h : pc.isReporting = true) :
      Returns pc (.reporting (.returned item))

theorem Returns.congr {pc pc' answered : ClientPc} (h : Returns pc answered)
    (hsame : pc.isReporting = pc'.isReporting) : Returns pc' answered := by
  cases h with
  | applied result hpc => exact .applied result (hsame ▸ hpc)
  | reported item hpc => exact .reported item (hsame ▸ hpc)

theorem client_stays_busy {k : Nat} (hstep : Recording.step s label = some t)
    (hbusy : s.live.clients k ≠ .idle)
    (hopen : ¬ Returns (s.live.clients k) (s.live.clients k)) :
    t.live.clients k ≠ .idle ∧
      (t.live.clients k).isReporting = (s.live.clients k).isReporting := by
  obtain hsame | hmove := live_move hstep
  · rw [hsame]
    exact ⟨hbusy, rfl⟩
  · by_cases hlabel : label = .client k
    · subst hlabel
      generalize t.live = live at hmove ⊢
      cases hmove with
      | enter _ _ _ hlabel _ => simp at hlabel
      | @client _ u pc hclient =>
          have hnext : pc ≠ .idle := by
            rintro rfl
            obtain ⟨result, hpc⟩ | ⟨item, hpc⟩ := clientStep_ends hclient
            · exact hopen (hpc ▸ .applied result rfl)
            · exact hopen (hpc ▸ .reported item rfl)
          show Function.update u.clients k pc k ≠ .idle ∧
            (Function.update u.clients k pc k).isReporting = _
          rw [Function.update_self]
          exact ⟨hnext, clientStep_isReporting hclient hnext⟩
    · obtain hsame | ⟨hidle, -⟩ := client_foreign hmove hlabel
      · rw [hsame]
        exact ⟨hbusy, rfl⟩
      · exact absurd hidle hbusy

theorem fleet_live (hmove : Live.Move s.live label t.live) :
    t.live.pipe.world.fleet = s.live.pipe.world.fleet := fleet_run hmove.run

/-- A thread that is alive has no more to do after another thread's step, a worker as
long as nobody is about to put a task on its queue. -/
theorem effort_foreign (h : Fluent s) (hstep : Recording.step s label = some t)
    (hparty : schedule.party label ≠ some p) (halive : Alive s p)
    (hqueue : ∀ e, p = .worker e → s.live.pipe.producer.schedulingLocked = false) :
    effort t p ≤ effort s p := by
  cases p with
  | main => exact le_rfl
  | processing =>
      obtain ⟨hrecord, hmove⟩ := record_foreign hstep fun input heq => hparty (heq ▸ rfl)
      obtain ⟨hproducer, hprocessing⟩ := processing_foreign hmove fun input heq =>
        hparty (heq ▸ rfl)
      obtain hsame | ⟨hbefore, -⟩ | ⟨⟨drained, hbefore⟩, -⟩ := hprocessing
      · simp only [effort, State.effort, hsame, hrecord, hproducer, fleet_live hmove, hmove.edges]
        exact le_rfl
      · exact absurd hbefore halive.1
      · exact absurd hbefore (halive.2 drained)
  | worker e =>
      obtain hsame | hmove := live_move hstep
      · simp only [effort, hsame]
        exact le_rfl
      · have hqueue := queue_foreign hmove (fun input heq => hparty (heq ▸ rfl)) (hqueue e rfl)
        obtain hsame | ⟨hbefore, -⟩ | ⟨hbefore | hbefore, -⟩ :=
          worker_foreign hmove h.honest.sound.threads fun input heq => hparty (heq ▸ rfl)
        · simp only [effort, hsame, hqueue]
          exact le_rfl
        · exact absurd hbefore halive.1
        · exact absurd hbefore halive.1
        · exact absurd hbefore halive.2
  | client k =>
      obtain hsame | hmove := live_move hstep
      · simp only [effort, hsame]
        exact le_rfl
      · obtain hsame | ⟨hbefore, -⟩ := client_foreign hmove fun heq => hparty (heq ▸ rfl)
        · simp only [effort, hsame, hmove.edges]
          exact le_rfl
        · exact absurd hbefore halive

theorem not_turns (h : Fluent s) {m : Mutex} (hinside : inside s .processing m = true) :
    s.live.processing.turns = false := by
  cases hpc : s.live.processing with
  | loopHead i =>
      have hidle := h.honest.tracked.quiet (by rw [hpc]; rfl)
      cases m <;> simp [inside, hpc, hidle, ProcessingPc.promise, ProducerPc.allocationLocked,
        ProducerPc.schedulingLocked] at hinside
  | drainTest =>
      have hidle := h.honest.tracked.quiet (by rw [hpc]; rfl)
      cases m <;> simp [inside, hpc, hidle, ProcessingPc.promise, ProducerPc.allocationLocked,
        ProducerPc.schedulingLocked] at hinside
  | _ => rfl

theorem process_falls {input : ProcessInput} (hstep : Recording.step s (.process input) = some t)
    (hpersistent : Persistent s.live.pipe.producer)
    (hstop : s.live.processing.turns = true → s.live.stopRequested = true) :
    effort t .processing < effort s .processing :=
  processStep_effort hstep hpersistent hstop

theorem work_falls {e : EdgeId} {input : WorkerInput}
    (hstep : Recording.step s (.work e input) = some t)
    (hpc : s.live.pipe.workers e = .loopHead →
      s.live.pipe.world.executor.isRunning = false) :
    effort t (.worker e) < effort s (.worker e) := by
  obtain ⟨-, hmove⟩ := record_foreign hstep fun input heq => by cases heq
  simp only [effort]
  generalize t.live = live at hmove ⊢
  cases hmove with
  | work _ _ hpipe =>
      cases Pipeline.step_move hpipe with
      | work _ _ hwork =>
          show WorkerPc.effort _ (Function.update s.live.pipe.workers e _ e) < _
          rw [Function.update_self]
          exact workerStep_effort hwork hpc
      | stay _ hlabel => simp at hlabel
  | enter _ _ _ hlabel _ => simp at hlabel

theorem client_falls {k : Nat} (hstep : Recording.step s (.client k) = some t) :
    effort t (.client k) < effort s (.client k) := by
  obtain ⟨-, hmove⟩ := record_foreign hstep fun input heq => by cases heq
  simp only [effort]
  rw [hmove.edges]
  generalize t.live = live at hmove ⊢
  cases hmove with
  | enter _ _ _ hlabel _ => simp at hlabel
  | @client _ u pc hclient =>
      show ClientPc.effort _ (Function.update u.clients k pc k) < _
      rw [Function.update_self]
      exact clientStep_effort hclient

theorem not_scheduling (h : Fluent s) {e : EdgeId} {m : Mutex}
    (hholds : (waiting s).holds (.worker e) m) :
    s.live.pipe.producer.schedulingLocked = false := by
  obtain ⟨rfl, hinside⟩ := worker_owns h hholds.2
  have hlocked : s.live.pipe.scheduling (.worker e) = true := hinside
  have hproducer : s.live.pipe.scheduling .producer = false :=
    h.smooth.owned.scheduling.outside hlocked fun heq => by cases heq
  exact hproducer

/-- What every reachable state keeps so that the calls of the threads end. -/
structure Lively (s : Recording.State) : Prop where
  fluent : Fluent s
  persistent : Persistent s.live.pipe.producer

theorem sections : Machine.Sections Recording.machine schedule Lively waiting
    (fun s p => p ≠ .main ∧ Alive s p) effort rank where
  ordered := fun h => ordered h.fluent
  unique := fun _ p q m hp hq => Party.thread_injective (hp.2.symm.trans hq.2)
  next := by
    intro s h p hp
    obtain hmoves | ⟨m, q, hwants, hholds, -⟩ := thread_next h.fluent hp.1 hp.2
    · exact Or.inl hmoves
    · exact Or.inr ⟨m, q, hwants, hholds, (holds_alive h.fluent hholds).symm⟩
  stays := by
    intro s label t h _ hstep p hparty hp
    obtain ⟨halive, hwants⟩ := stays_foreign h.fluent hstep hparty hp.1 hp.2
    exact ⟨⟨hp.1, halive⟩, hwants⟩
  keeps := by
    intro s label t h ht hstep p hparty m
    rw [holds_iff h.fluent, holds_iff ht.fluent, inside_foreign h.fluent hstep hparty]
  undisturbed := by
    intro s label t h _ hstep p m hparty hholds
    exact effort_foreign h.fluent hstep hparty (holds_alive h.fluent hholds).1 fun e he =>
      not_scheduling h.fluent (he ▸ hholds)
  falls := by
    intro s label t h _ hstep p m hparty hholds _
    have hinside := (holds_iff h.fluent).mp hholds
    cases label with
    | main =>
        cases hparty
        cases hinside
    | process input =>
        cases hparty
        refine process_falls hstep h.persistent fun hturns => ?_
        rw [not_turns h.fluent hinside] at hturns
        cases hturns
    | work e input =>
        cases hparty
        refine work_falls hstep fun hpc => ?_
        obtain ⟨rfl, hlocked⟩ := worker_owns h.fluent hholds.2
        rw [hpc] at hlocked
        cases hlocked
    | client k =>
        cases hparty
        exact client_falls hstep
    | _ => cases hparty

theorem persistent_run {guard : Recording.State → Live.Label → Prop} {start : Recording.State}
    (hrun : Recording.machine.Run guard start s) (h : Persistent start.live.pipe.producer) :
    Persistent s.live.pipe.producer := by
  have hkeep {u v : Recording.State} {label : Live.Label} (hu : Persistent u.live.pipe.producer)
      (_ : guard u label) (hstep : Recording.machine.step u label = some v) :
      Persistent v.live.pipe.producer := by
    obtain hsame | hmove := live_move hstep
    · exact hsame ▸ hu
    · exact persistent_move hu hmove
  exact hrun.preserves hkeep h

end Sections

section Quiet

variable {s t : Recording.State} {label : Live.Label}

theorem not_moves_worker {e : EdgeId} (h : s.live.pipe.workers e = .notStarted) :
    ¬ Moves s (.worker e) := by
  intro hmoves
  have hstep := hmoves {}
  simp [Recording.step, Live.step, State.drive, Pipeline.step, workerStep, h] at hstep

theorem not_moves_client {k : Nat} (h : s.live.clients k = .idle) : ¬ Moves s (.client k) := by
  intro hmoves
  simp [Moves, Recording.step, Live.step, clientStep, h] at hmoves

def asks : Live.Label → Option Nat
  | .apply k _ _ _ => some k
  | .report k => some k
  | _ => none

theorem idle_step {k : Nat} (hmove : Live.Move s.live label t.live) (hasks : asks label ≠ some k)
    (hidle : s.live.clients k = .idle) : t.live.clients k = .idle := by
  by_cases hlabel : label = .client k
  · subst hlabel
    generalize t.live = live at hmove ⊢
    cases hmove with
    | enter _ _ _ hlabel _ => simp at hlabel
    | client _ hclient =>
        rw [hidle] at hclient
        cases hclient
  · generalize t.live = live at hmove ⊢
    cases hmove with
    | main hmain => cases hmain <;> exact hidle
    | process _ hprocess => exact (congrFun (processMove_clients hprocess) k).trans hidle
    | @apply k' _ _ _ entry _ _ =>
        have hne : k ≠ k' := fun heq => hasks (congrArg some heq.symm)
        exact (Function.update_of_ne hne _ _).trans hidle
    | @report k' _ =>
        have hne : k ≠ k' := fun heq => hasks (congrArg some heq.symm)
        exact (Function.update_of_ne hne _ _).trans hidle
    | @client k' u pc hclient =>
        have hne : k ≠ k' := fun heq => hlabel (heq ▸ rfl)
        refine (Function.update_of_ne hne _ _).trans ?_
        rw [(clientStep_threads hclient).clients]
        exact hidle
    | _ => exact hidle

theorem idle_run {k : Nat} {start : Recording.State}
    (hrun : Recording.machine.Run (fun _ label => asks label ≠ some k) start s)
    (hidle : start.live.clients k = .idle) : s.live.clients k = .idle := by
  have hkeep {u v : Recording.State} {label : Live.Label} (hu : u.live.clients k = .idle)
      (hguard : asks label ≠ some k) (hstep : Recording.machine.step u label = some v) :
      v.live.clients k = .idle := by
    obtain hsame | hmove := live_move hstep
    · rw [hsame]
      exact hu
    · exact idle_step hmove hguard hu
  exact hrun.preserves hkeep hidle

theorem taskCounter_run {guard : Recording.State → Live.Label → Prop} {start : Recording.State}
    (hrun : Recording.machine.Run guard start s) :
    start.live.pipe.world.taskCounter ≤ s.live.pipe.world.taskCounter := by
  have hkeep {u v : Pipeline.State} {label : Pipeline.Label}
      (hu : start.live.pipe.world.taskCounter ≤ u.world.taskCounter) (_ : Steady u label)
      (hstep : Pipeline.machine.step u label = some v) :
      start.live.pipe.world.taskCounter ≤ v.world.taskCounter :=
    hu.trans (Pipeline.step_move hstep).taskCounter_le
  exact (pipe_run (live_run hrun)).preserves hkeep le_rfl

theorem taskCounter_ofLabels {labels : List Live.Label}
    {h : (Recording.machine.exec s labels).isSome} {bound : ℚ}
    (hbound : ((Recording.machine.final s labels).live.pipe.world.taskCounter : ℚ) < bound)
    (n : ℕ) :
    ((((Machine.Execution.ofLabels s labels h).state n).live.pipe.world.taskCounter : ℕ) : ℚ) <
      bound := by
  have hrun := (Machine.Execution.ofLabels s labels h).run_between (le_max_left n labels.length)
  rw [Machine.Execution.ofLabels_state (le_max_right n labels.length)] at hrun
  exact (Nat.cast_le.mpr (taskCounter_run hrun)).trans_lt hbound

end Quiet

/-- A client asks for another strategy while the processing thread holds the
configuration. The request is answered and the task executed, then `stop` joins the threads. -/
def stoppedRun : List Live.Label :=
  requestDuringAllocation ++ List.replicate 6 (.client 0) ++ workSteps 18 ++
    (.stop :: processSteps 4 ++ List.replicate 2 .main ++ workSteps 1 ++ List.replicate 4 .main)

def stopped : Recording.State :=
  Recording.machine.final { live := singleRuntime false .leastLoad .fifo } stoppedRun

theorem stoppedRun_quiet (p : Party) : ¬ Moves stopped p := by
  have hchecked : Recording.machine.checks
      (fun _ label => asks label = none ∨ asks label = some 0)
      { live := singleRuntime false .leastLoad .fifo } stoppedRun := by decide +kernel
  have hrun := Machine.run_of_checks hchecked
  cases p with
  | main =>
      show ¬ (Recording.step stopped .main).isSome
      decide +kernel
  | processing => exact fun hmoves => absurd (hmoves {}) (by decide +kernel)
  | worker e =>
      by_cases he : e = "E01"
      · subst he
        exact fun hmoves => absurd (hmoves {}) (by decide +kernel)
      · have hfleet : stopped.live.pipe.world.fleet.ids = ["E01"] := by decide +kernel
        obtain ⟨hhonest, -, -⟩ := sections_of_run requested_initial
          (Smooth.initial requested_initial.live.pipe rfl rfl) hrun
        refine not_moves_worker (hhonest.sound.threads.foreign e ?_)
        show e ∉ stopped.live.pipe.world.fleet.ids
        rw [hfleet]
        simpa using he
  | client k =>
      by_cases hk : k = 0
      · subst hk
        show ¬ (Recording.step stopped (.client 0)).isSome
        decide +kernel
      · refine not_moves_client (idle_run (hrun.mono fun _ label hasks hother => ?_) rfl)
        obtain hnone | hzero := hasks
        · rw [hnone] at hother
          cases hother
        · rw [hzero] at hother
          exact hk (Option.some.inj hother).symm

def stoppedExecution : Recording.machine.Execution :=
  .ofLabels { live := singleRuntime false .leastLoad .fifo } stoppedRun (by decide +kernel)

theorem stoppedExecution_fair : stoppedExecution.StronglyFair schedule :=
  Machine.Execution.stronglyFair_ofLabels stoppedRun_quiet

theorem stoppedExecution_counter (n : ℕ) :
    ((stoppedExecution.state n).live.pipe.world.taskCounter : ℚ) < doubleMax :=
  taskCounter_ofLabels (by decide +kernel) n

section Execution

variable {start : Recording.State} {x : Recording.machine.Execution}
  (hstart : Recording.machine.initial start) (hprovisioned : Provisioned start.live.pipe.world)
  (hreached : Recording.machine.Run Machine.free start (x.state 0))
  (hcounter : ∀ n, ((x.state n).live.pipe.world.taskCounter : ℚ) < doubleMax)

include hstart hprovisioned hreached hcounter

theorem lively (n : ℕ) : Lively (x.state n) where
  fluent := fluent_of_run hstart hprovisioned (hreached.trans (x.run n)) (hcounter n)
  persistent := by
    refine persistent_run (hreached.trans (x.run n)) ?_
    rw [hstart.live.pipe.producer]
    rintro _ _ ⟨⟩

variable (hfair : x.StronglyFair schedule)

include hfair

/-- A call of `applyConfiguration` or of `configuration` returns, whatever it waits for. -/
theorem request_returns {n k : ℕ} (hasked : (x.state n).live.clients k ≠ .idle) :
    ∃ m ≥ n, Returns ((x.state n).live.clients k) ((x.state m).live.clients k) := by
  have hlively := lively hstart hprovisioned hreached hcounter
  by_contra hnever
  have hbusy : ∀ m ≥ n, (x.state m).live.clients k ≠ .idle ∧
      ((x.state m).live.clients k).isReporting = ((x.state n).live.clients k).isReporting := by
    refine x.forever (fun s => s.live.clients k ≠ .idle ∧
      (s.live.clients k).isReporting = ((x.state n).live.clients k).isReporting)
      ⟨hasked, rfl⟩ fun m hm label hlabel ⟨hbusy, hsame⟩ => ?_
    obtain ⟨hnext, hkept⟩ := client_stays_busy (x.step_label hlabel) hbusy fun hreturned =>
      hnever ⟨m, hm, hreturned.congr hsame⟩
    exact ⟨hnext, hkept.trans hsame⟩
  obtain ⟨m, hm, hended⟩ := sections.exists_ended hlively hfair rank_lt
    (fun s => effort s (.client k)) (p := .client k) (n := n)
    (fun m _ label hlabel hparty halive => effort_foreign (hlively m).fluent
      (x.step_label hlabel) hparty halive.2 fun e he => by cases he)
    (fun m _ label hlabel hparty _ => by
      cases label with
      | client k' =>
          cases hparty
          exact client_falls (x.step_label hlabel)
      | _ => cases hparty)
  exact hended ⟨fun heq => (by cases heq), (hbusy m hm).1⟩

end Execution

theorem request_returns_stopped :
    ∃ m ≥ 21, Returns ((stoppedExecution.state 21).live.clients 0)
      ((stoppedExecution.state m).live.clients 0) :=
  request_returns requested_initial (singleRuntime_provisioned _ _ _) (.refl _)
    stoppedExecution_counter stoppedExecution_fair
    fun hidle => absurd (congrArg (ClientPc.effort 1) hidle) (by decide +kernel)

end EdgeAllocator.Progress
