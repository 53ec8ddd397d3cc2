import EdgeAllocator.Completion
import EdgeAllocator.Configuration

/-! What `processingLoop` writes to `task_allocations`. The strategy of a row is
read anew after the allocation, still under `configuration_mutex_`. -/
namespace EdgeAllocator.Recording

open Foundation Scheduler Executor Allocator Allocation Pipeline Live

/-- Where `processingLoop` stands with `result` after the allocation. -/
inductive RecordPc where
  | idle
  | scheduling (t : TaskRef) (result : AllocationResult)
  | getStrategy (t : TaskRef) (result : AllocationResult)
  | save (t : TaskRef) (result : AllocationResult) (strategy : AllocationStrategy)
  | saveFailure (t : TaskRef) (result : AllocationResult)

/-- `consulted` tells under which strategy each step of a selection was taken,
`scheduled` on whose queue a task was put. No step reads either. -/
structure State where
  live : Live.State
  record : RecordPc := .idle
  allocations : List AllocationRow := []
  consulted : List (TaskRef × AllocationStrategy) := []
  scheduled : List (TaskRef × EdgeId) := []

/-- The steps of an attempt that `switch (strategy_)` decides. -/
def consults : AllocPc → Bool
  | .attempt _ | .scan _ [] _ | .compare _ _ _ _ _ => true
  | _ => false

def enqueues : SchedulePc → Bool
  | .enqueue => true
  | _ => false

namespace State

def allocator (s : State) : ResourceAllocator := s.live.pipe.world.allocator

def consulting (s : State) : List (TaskRef × AllocationStrategy) :=
  match s.live.processing, s.live.pipe.producer with
  | .allocating _, .allocating call pc =>
      if consults pc then [(call.task, s.allocator.strategy)] else []
  | _, _ => []

def enqueuing (s : State) : List (TaskRef × EdgeId) :=
  match s.live.processing, s.live.pipe.producer with
  | .allocating _, .scheduling t e pc => if enqueues pc then [(t, e)] else []
  | _, _ => []

/-- Where the processing thread's next step leads: past the return of the
allocation, or past that of `scheduleTask`. -/
def advance (s : State) : RecordPc :=
  match s.live.processing, s.live.pipe.producer with
  | .allocating _, .allocating call (.returned result) =>
      if result.success then .scheduling call.task result else .saveFailure call.task result
  | .allocating _, .scheduling _ _ .returned =>
      match s.record with
      | .scheduling t result => .getStrategy t result
      | record => record
  | _, _ => s.record

def save (row : AllocationRow) (s : State) : State :=
  { s with allocations := s.allocations ++ [row], record := .idle }

end State

def processStep (input : ProcessInput) (s : State) : Option State :=
  match s.record with
  | .getStrategy t result =>
      if s.allocator.strategyMutex = none then
        some { s with record := .save t result s.allocator.strategy }
      else none
  | .save t result strategy =>
      some (s.save (.allocated t result.edgeId result.score (allocationToString strategy)))
  | .saveFailure t result => some (s.save (.failed t result.reason))
  | .idle | .scheduling _ _ =>
      (Live.processStep input s.live).map fun live =>
        { s with
          live := live
          record := s.advance
          consulted := s.consulted ++ s.consulting
          scheduled := s.scheduled ++ s.enqueuing }

def step (s : State) : Live.Label → Option State
  | .process input => processStep input s
  | label => (Live.step s.live label).map fun live => { s with live := live }

structure Initial (s : State) : Prop where
  live : Live.Initial s.live
  record : s.record = .idle
  allocations : s.allocations = []
  consulted : s.consulted = []
  scheduled : s.scheduled = []

def machine : Machine State Live.Label := ⟨Initial, step⟩

/-- The possible steps. Those of other threads, and those of the processing thread
before it has a row to write, are steps of the live runtime. -/
inductive Move (s : State) : Live.Label → State → Prop where
  | other {label : Live.Label} {live : Live.State} (hlabel : ∀ input, label ≠ .process input)
      (h : Live.Move s.live label live) : Move s label { s with live := live }
  | process (input : ProcessInput) {live : Live.State}
      (hrecord : s.record = .idle ∨ ∃ t result, s.record = .scheduling t result)
      (h : ProcessMove input s.live live) :
      Move s (.process input) { s with
        live := live
        record := s.advance
        consulted := s.consulted ++ s.consulting
        scheduled := s.scheduled ++ s.enqueuing }
  | read (input : ProcessInput) {t : TaskRef} {result : AllocationResult}
      (h : s.record = .getStrategy t result) :
      Move s (.process input) { s with record := .save t result s.allocator.strategy }
  | write (input : ProcessInput) {t : TaskRef} {result : AllocationResult}
      {strategy : AllocationStrategy} (h : s.record = .save t result strategy) :
      Move s (.process input)
        (s.save (.allocated t result.edgeId result.score (allocationToString strategy)))
  | writeFailure (input : ProcessInput) {t : TaskRef} {result : AllocationResult}
      (h : s.record = .saveFailure t result) :
      Move s (.process input) (s.save (.failed t result.reason))

theorem step_move {s s' : State} {label : Live.Label} (h : step s label = some s') :
    Move s label s' := by
  have hother (hlabel : ∀ input, label ≠ .process input)
      (hstep : (Live.step s.live label).map (fun live => { s with live := live }) = some s') :
      Move s label s' := by
    obtain ⟨live, hlive, hnext⟩ := Option.map_eq_some_iff.mp hstep
    cases hnext
    exact .other hlabel (Live.step_move hlive)
  cases label with
  | process input =>
      simp only [step, processStep] at h
      split at h
      · split_ifs at h
        cases h
        exact .read input ‹_›
      · cases h
        exact .write input ‹_›
      · cases h
        exact .writeFailure input ‹_›
      · obtain ⟨live, hlive, hnext⟩ := Option.map_eq_some_iff.mp h
        cases hnext
        exact .process input (Or.inl ‹_›) (processStep_move hlive)
      · obtain ⟨live, hlive, hnext⟩ := Option.map_eq_some_iff.mp h
        cases hnext
        exact .process input (Or.inr ⟨_, _, ‹_›⟩) (processStep_move hlive)
  | _ => exact hother (by rintro _ ⟨⟩) h

/-- The task of the current round, from its creation to its row. -/
def State.atHand (s : State) : Option TaskRef :=
  match s.record, s.live.pipe.producer with
  | .scheduling t _, _ | .getStrategy t _, _ | .save t _ _, _ | .saveFailure t _, _ => some t
  | .idle, .allocating call _ => some call.task
  | .idle, _ => none

def State.Placed (s : State) (t : TaskRef) (e : EdgeId) : Prop :=
  (t, e) ∈ s.live.pipe.log.granted ∧ edgesOf t s.scheduled = [e] ∧
    ∃ strategy, (t, strategy) ∈ s.consulted

def switched : AllocPc → Bool
  | .lock | .attempt _ => false
  | _ => true

/-- What is known of the task at hand at each place of its round. -/
def State.Stage (s : State) : Prop :=
  match s.record, s.live.pipe.producer with
  | .idle, .idle => True
  | .idle, .allocating call pc => edgesOf call.task s.scheduled = [] ∧
      (switched pc = true → ∃ strategy, (call.task, strategy) ∈ s.consulted)
  | .scheduling t result, .scheduling t' e pc => t' = t ∧ e = result.edgeId ∧
      (t, e) ∈ s.live.pipe.log.granted ∧ (∃ strategy, (t, strategy) ∈ s.consulted) ∧
      edgesOf t s.scheduled = if pc.held t = [] then [e] else []
  | .getStrategy t result, .idle | .save t result _, .idle => s.Placed t result.edgeId
  | .saveFailure _ _, .idle => True
  | _, _ => False

/-- What the processing thread does under `configuration_mutex_` before it has a
row to write. -/
inductive Handling (s : State) : State → Prop where
  | select {call : AllocCall} {pc pc' : AllocPc} {w : World} (hrecord : s.record = .idle)
      (hproducer : s.live.pipe.producer = .allocating call pc)
      (h : allocStep .producer call s.live.pipe.world pc = some (w, pc')) :
      Handling s { s with
        live := { s.live with pipe := { s.live.pipe with
          world := w
          producer := .allocating call pc'
          log := s.live.pipe.log.grant call.task pc.grants } }
        consulted := s.consulted ++
          if consults pc then [(call.task, s.allocator.strategy)] else [] }
  | allocated {call : AllocCall} {result : AllocationResult} (hrecord : s.record = .idle)
      (hproducer : s.live.pipe.producer = .allocating call (.returned result))
      (h : result.success = true) :
      Handling s { s with
        live := { s.live with pipe := { s.live.pipe with
          producer := .scheduling call.task result.edgeId .lock } }
        record := .scheduling call.task result }
  | refused {call : AllocCall} {result : AllocationResult} (hrecord : s.record = .idle)
      (hproducer : s.live.pipe.producer = .allocating call (.returned result)) :
      Handling s { s with
        live := { s.live with pipe := { s.live.pipe with producer := .idle } }
        record := .saveFailure call.task result }
  | schedule {t : TaskRef} {result : AllocationResult} {pc pc' : SchedulePc} {w : World}
      (hrecord : s.record = .scheduling t result)
      (hproducer : s.live.pipe.producer = .scheduling t result.edgeId pc)
      (h : scheduleStep .producer result.edgeId t s.live.pipe.world pc = some (w, pc')) :
      Handling s { s with
        live := { s.live with pipe := { s.live.pipe with
          world := w, producer := .scheduling t result.edgeId pc' } }
        scheduled := s.scheduled ++ if enqueues pc then [(t, result.edgeId)] else [] }
  | scheduled {t : TaskRef} {result : AllocationResult}
      (hrecord : s.record = .scheduling t result)
      (hproducer : s.live.pipe.producer = .scheduling t result.edgeId .returned) :
      Handling s { s with
        live := { s.live with pipe := { s.live.pipe with producer := .idle } }
        record := .getStrategy t result }

section Next

variable {s : State} {i : Nat} (hprocessing : s.live.processing = .allocating i)
include hprocessing

theorem next_allocating {call : AllocCall} {pc : AllocPc}
    (hproducer : s.live.pipe.producer = .allocating call pc)
    (hpc : ∀ result, pc ≠ .returned result) :
    s.advance = s.record ∧
      s.consulting = (if consults pc then [(call.task, s.allocator.strategy)] else []) ∧
      s.enqueuing = [] := by
  unfold State.advance State.consulting State.enqueuing
  rw [hprocessing, hproducer]
  cases pc with
  | returned result => exact absurd rfl (hpc result)
  | _ => exact ⟨rfl, rfl, rfl⟩

theorem next_allocated {call : AllocCall} {result : AllocationResult}
    (hproducer : s.live.pipe.producer = .allocating call (.returned result)) :
    s.advance = (if result.success then .scheduling call.task result
        else .saveFailure call.task result) ∧
      s.consulting = [] ∧ s.enqueuing = [] := by
  unfold State.advance State.consulting State.enqueuing
  rw [hprocessing, hproducer]
  exact ⟨rfl, rfl, rfl⟩

theorem next_scheduling {t : TaskRef} {e : EdgeId} {pc : SchedulePc}
    (hproducer : s.live.pipe.producer = .scheduling t e pc) (hpc : pc ≠ .returned) :
    s.advance = s.record ∧ s.consulting = [] ∧
      s.enqueuing = if enqueues pc then [(t, e)] else [] := by
  unfold State.advance State.consulting State.enqueuing
  rw [hprocessing, hproducer]
  cases pc with
  | returned => exact absurd rfl hpc
  | _ => exact ⟨rfl, rfl, rfl⟩

theorem next_scheduled {t : TaskRef} {e : EdgeId} {result : AllocationResult}
    (hproducer : s.live.pipe.producer = .scheduling t e .returned)
    (hrecord : s.record = .scheduling t result) :
    s.advance = .getStrategy t result ∧ s.consulting = [] ∧ s.enqueuing = [] := by
  unfold State.advance State.consulting State.enqueuing
  rw [hprocessing, hproducer, hrecord]
  exact ⟨rfl, rfl, rfl⟩

theorem handling_of_allocate {pipe : Pipeline.State} (hstage : s.Stage)
    (hrecord : s.record = .idle ∨ ∃ t result, s.record = .scheduling t result)
    (hpipe : Pipeline.step s.live.pipe (.producer {}) = some pipe) :
    Handling s { s with
      live := { s.live with pipe := pipe }
      record := s.advance
      consulted := s.consulted ++ s.consulting
      scheduled := s.scheduled ++ s.enqueuing } := by
  obtain hidle | ⟨t, result, hscheduling⟩ := hrecord
  · simp only [State.Stage, hidle] at hstage
    cases Pipeline.step_move hpipe with
    | @alloc _ call pc pc' w hproducer hstep =>
        obtain ⟨hadvance, hconsulting, henqueuing⟩ := next_allocating hprocessing hproducer
          (by rintro result rfl; cases hstep)
        rw [hadvance, hconsulting, henqueuing, List.append_nil]
        exact .select hidle hproducer hstep
    | allocated _ hproducer hsuccess =>
        obtain ⟨hadvance, hconsulting, henqueuing⟩ := next_allocated hprocessing hproducer
        rw [hadvance, hconsulting, henqueuing, List.append_nil, List.append_nil, if_pos hsuccess]
        exact .allocated hidle hproducer hsuccess
    | refused _ hproducer hfailure =>
        obtain ⟨hadvance, hconsulting, henqueuing⟩ := next_allocated hprocessing hproducer
        rw [hadvance, hconsulting, henqueuing, List.append_nil, List.append_nil, hfailure]
        exact .refused hidle hproducer
    | schedule _ hproducer _ => simp [hproducer] at hstage
    | scheduled _ hproducer => simp [hproducer] at hstage
    | draw _ hproducer => simp [hproducer] at hstage
    | passOver _ hproducer => simp [hproducer] at hstage
    | fluctuated _ hproducer => simp [hproducer] at hstage
    | stay _ hlabel => simp at hlabel
  · simp only [State.Stage, hscheduling] at hstage
    cases Pipeline.step_move hpipe with
    | @schedule _ t' e pc pc' w hproducer hstep =>
        rw [hproducer] at hstage
        obtain ⟨rfl, rfl, -⟩ := hstage
        obtain ⟨hadvance, hconsulting, henqueuing⟩ := next_scheduling hprocessing hproducer
          (by rintro rfl; cases hstep)
        rw [hadvance, hconsulting, henqueuing, List.append_nil]
        exact .schedule hscheduling hproducer hstep
    | @scheduled _ t' e hproducer =>
        rw [hproducer] at hstage
        obtain ⟨rfl, rfl, -⟩ := hstage
        obtain ⟨hadvance, hconsulting, henqueuing⟩ :=
          next_scheduled hprocessing hproducer hscheduling
        rw [hadvance, hconsulting, henqueuing, List.append_nil, List.append_nil]
        exact .scheduled hscheduling hproducer
    | alloc _ hproducer _ => simp [hproducer] at hstage
    | allocated _ hproducer _ => simp [hproducer] at hstage
    | refused _ hproducer _ => simp [hproducer] at hstage
    | draw _ hproducer => simp [hproducer] at hstage
    | passOver _ hproducer => simp [hproducer] at hstage
    | fluctuated _ hproducer => simp [hproducer] at hstage
    | stay _ hlabel => simp at hlabel

end Next

/-- What the round at hand keeps to, whatever the other threads do. -/
structure Tracked (s : State) : Prop where
  quiet : s.live.processing.busy = false → s.live.pipe.producer = .idle
  waiting : ∀ i, s.live.processing = .countGenerated i ∨ s.live.processing = .lockConfiguration i →
    ∃ call, s.live.pipe.producer = .allocating call .lock
  free : (∀ i, s.live.processing ≠ .allocating i) → s.record = .idle
  atHand : ∀ t, s.atHand = some t → t < s.live.pipe.world.taskCounter
  unread : ∀ call, s.live.pipe.producer = .allocating call .lock →
    ∀ strategy, (call.task, strategy) ∉ s.consulted
  consulted : ∀ event ∈ s.consulted, event.1 < s.live.pipe.world.taskCounter
  scheduled : ∀ event ∈ s.scheduled, event.1 < s.live.pipe.world.taskCounter
  stage : s.Stage

/-- What a step of another thread leaves as it is. -/
structure Aside (s t : Pipeline.State) : Prop where
  producer : t.producer = s.producer
  taskCounter : t.world.taskCounter = s.world.taskCounter
  granted : t.log.granted = s.log.granted

theorem aside_of_drives {s t : Pipeline.State} (h : Drives NotByProducer s t) : Aside s t := by
  obtain hsame | ⟨label, hlabel, hstep⟩ := h
  · rw [hsame]
    exact ⟨rfl, rfl, rfl⟩
  · refine ⟨hlabel.producer hstep, ?_, ?_⟩
    · cases Pipeline.step_move hstep with
      | work _ _ hwork => exact workerStep_taskCounter hwork
      | produce _ _ _ => cases hlabel
      | alloc _ _ _ => cases hlabel
      | schedule _ _ _ => cases hlabel
      | _ => rfl
    · cases Pipeline.step_move hstep with
      | alloc _ _ _ => cases hlabel
      | _ => rfl

theorem Tracked.aside {s : State} (h : Tracked s) {live : Live.State}
    (haside : Aside s.live.pipe live.pipe)
    (hquiet : live.processing.busy = false → s.live.pipe.producer = .idle)
    (hwaiting : ∀ i, live.processing = .countGenerated i ∨ live.processing = .lockConfiguration i →
      ∃ call, s.live.pipe.producer = .allocating call .lock)
    (hfree : (∀ i, live.processing ≠ .allocating i) → s.record = .idle) :
    Tracked { s with live := live } where
  quiet := fun hbusy => haside.producer.trans (hquiet hbusy)
  waiting := fun i hi => haside.producer ▸ hwaiting i hi
  free := hfree
  atHand := fun t ht => by
    rw [haside.taskCounter]
    apply h.atHand t
    simpa only [State.atHand, haside.producer] using ht
  unread := fun call hcall => h.unread call (haside.producer ▸ hcall)
  consulted := haside.taskCounter ▸ h.consulted
  scheduled := haside.taskCounter ▸ h.scheduled
  stage := by
    have hstage := h.stage
    simp only [State.Stage, State.Placed] at hstage ⊢
    rw [haside.producer, haside.granted]
    exact hstage

theorem Tracked.inside {s : State} (h : Tracked s) (hrecord : s.record ≠ .idle) :
    ∃ i, s.live.processing = .allocating i := by
  by_contra hnone
  push Not at hnone
  exact hrecord (h.free hnone)

theorem next_idle {s : State} (h : s.live.pipe.producer = .idle) :
    s.advance = s.record ∧ s.consulting = [] ∧ s.enqueuing = [] := by
  unfold State.advance State.consulting State.enqueuing
  rw [h]
  cases s.live.processing <;> exact ⟨rfl, rfl, rfl⟩

theorem next_elsewhere {s : State} (h : ∀ i, s.live.processing ≠ .allocating i) :
    s.advance = s.record ∧ s.consulting = [] ∧ s.enqueuing = [] := by
  unfold State.advance State.consulting State.enqueuing
  generalize s.live.processing = processing at h
  cases processing with
  | allocating i => exact absurd rfl (h i)
  | _ => exact ⟨rfl, rfl, rfl⟩

theorem switched_step {me : Thread} {call : AllocCall} {w w' : World} {pc pc' : AllocPc}
    (h : allocStep me call w pc = some (w', pc')) :
    pc' ≠ .lock ∧ (switched pc' = true → consults pc = true ∨ switched pc = true) := by
  cases allocStep_move h with
  | enter _ => exact ⟨by rintro ⟨⟩, fun hswitched => by cases hswitched⟩
  | start _ => exact ⟨by rintro ⟨⟩, fun _ => Or.inl rfl⟩
  | again _ _ => exact ⟨by rintro ⟨⟩, fun hswitched => by cases hswitched⟩
  | _ => exact ⟨by rintro ⟨⟩, fun _ => Or.inr rfl⟩

theorem forall_mem_ite {Event : Type} {p : Event → Prop} {c : Prop} [Decidable c] {event : Event}
    (h : p event) : ∀ other ∈ (if c then [event] else []), p other := by
  intro other hother
  split_ifs at hother
  · rw [List.mem_singleton.mp hother]
    exact h
  · cases hother

theorem edges_schedule {s : State} {t : TaskRef} {e : EdgeId} {pc pc' : SchedulePc} {w : World}
    (hregistered : e ∈ s.live.pipe.world.fleet.ids)
    (hstep : scheduleStep .producer e t s.live.pipe.world pc = some (w, pc'))
    (hedges : edgesOf t s.scheduled = if pc.held t = [] then [e] else []) :
    edgesOf t (s.scheduled ++ if enqueues pc then [(t, e)] else []) =
      if pc'.held t = [] then [e] else [] := by
  cases pc with
  | lock =>
      simp only [scheduleStep, World.getEdgeNode, hregistered, if_true,
        Option.isSome_some] at hstep
      split_ifs at hstep
      cases hstep
      simpa [enqueues, SchedulePc.held] using hedges
  | markQueued =>
      cases hstep
      simpa [enqueues, SchedulePc.held] using hedges
  | enqueue =>
      cases hstep
      have hnone : edgesOf t s.scheduled = [] := hedges
      simpa [enqueues, edgesOf, SchedulePc.held] using hnone
  | unlock =>
      cases hstep
      simpa [enqueues, SchedulePc.held] using hedges
  | returned => cases hstep

theorem Tracked.handle {s s' : State} {i : Nat} (h : Tracked s) (hsound : Sound s.live.pipe)
    (hprocessing : s.live.processing = .allocating i) (hmove : Handling s s') : Tracked s' := by
  have hbusy (processing : ProcessingPc) (hsame : processing = s.live.processing) :
      (processing.busy = false → s'.live.pipe.producer = .idle) ∧
        (∀ i, processing = .countGenerated i ∨ processing = .lockConfiguration i →
          ∃ call, s'.live.pipe.producer = .allocating call .lock) ∧
        ((∀ i, processing ≠ .allocating i) → s'.record = .idle) := by
    rw [hsame, hprocessing]
    refine ⟨fun hfalse => (by cases hfalse), fun i hi => ?_, fun hne => absurd rfl (hne i)⟩
    obtain hi | hi := hi <;> cases hi
  have hstage := h.stage
  have hatHand := h.atHand
  cases hmove with
  | @select call pc pc' w hrecord hproducer hstep =>
      obtain ⟨hquiet, hwaiting, hfree⟩ := hbusy _ rfl
      have hcounter := allocStep_taskCounter hstep
      obtain ⟨hlock, hswitched⟩ := switched_step hstep
      simp only [State.Stage, hrecord, hproducer] at hstage
      have htask : call.task < s.live.pipe.world.taskCounter :=
        hatHand _ (by simp only [State.atHand, hrecord, hproducer])
      refine ⟨hquiet, hwaiting, hfree, fun t ht => ?_, fun call' hcall => ?_, ?_,
        hcounter ▸ h.scheduled, ?_⟩
      · simp only [State.atHand, hrecord] at ht
        cases ht
        exact hcounter ▸ htask
      · cases hcall
        exact absurd rfl hlock
      · show ∀ event ∈ _, Prod.fst event < w.taskCounter
        rw [hcounter]
        exact List.forall_mem_append.mpr ⟨h.consulted, forall_mem_ite htask⟩
      · simp only [State.Stage, hrecord]
        refine ⟨hstage.1, fun hpc' => ?_⟩
        obtain hconsults | hpc := hswitched hpc'
        · refine ⟨s.allocator.strategy, List.mem_append_right _ ?_⟩
          rw [if_pos hconsults]
          exact List.mem_singleton_self _
        · obtain ⟨strategy, hmem⟩ := hstage.2 hpc
          exact ⟨strategy, List.mem_append_left _ hmem⟩
  | @allocated call result hrecord hproducer hsuccess =>
      obtain ⟨hquiet, hwaiting, hfree⟩ := hbusy _ rfl
      simp only [State.Stage, hrecord, hproducer] at hstage
      refine ⟨hquiet, hwaiting, hfree, fun t ht => ?_, fun call' hcall => (by cases hcall),
        h.consulted, h.scheduled, ?_⟩
      · apply hatHand t
        simpa only [State.atHand, hrecord, hproducer] using ht
      · exact ⟨rfl, rfl, granted_of_returned hsound hproducer hsuccess, hstage.2 rfl, hstage.1⟩
  | @refused call result hrecord hproducer =>
      obtain ⟨hquiet, hwaiting, hfree⟩ := hbusy _ rfl
      refine ⟨hquiet, hwaiting, hfree, fun t ht => ?_, fun call' hcall => (by cases hcall),
        h.consulted, h.scheduled, trivial⟩
      apply hatHand t
      simpa only [State.atHand, hrecord, hproducer] using ht
  | @schedule t result pc pc' w hrecord hproducer hstep =>
      obtain ⟨hquiet, hwaiting, hfree⟩ := hbusy _ rfl
      have hcounter := scheduleStep_taskCounter hstep
      simp only [State.Stage, hrecord, hproducer] at hstage
      obtain ⟨-, -, hgranted, hconsulted, hedges⟩ := hstage
      have htask : t < s.live.pipe.world.taskCounter :=
        hatHand _ (by simp only [State.atHand, hrecord])
      refine ⟨hquiet, hwaiting, hfree, fun t' ht => ?_, fun call' hcall => (by cases hcall),
        hcounter ▸ h.consulted, ?_, ?_⟩
      · simp only [State.atHand, hrecord] at ht
        cases ht
        exact hcounter ▸ htask
      · show ∀ event ∈ _, Prod.fst event < w.taskCounter
        rw [hcounter]
        exact List.forall_mem_append.mpr ⟨h.scheduled, forall_mem_ite htask⟩
      · have hregistered : result.edgeId ∈ s.live.pipe.world.fleet.ids :=
          hsound.edges _ (by rw [hproducer]; exact List.mem_singleton_self _)
        simp only [State.Stage, hrecord, true_and]
        exact ⟨hgranted, hconsulted, edges_schedule hregistered hstep hedges⟩
  | @scheduled t result hrecord hproducer =>
      obtain ⟨hquiet, hwaiting, hfree⟩ := hbusy _ rfl
      simp only [State.Stage, hrecord, hproducer] at hstage
      obtain ⟨-, -, hgranted, hconsulted, hedges⟩ := hstage
      refine ⟨hquiet, hwaiting, hfree, fun t' ht => ?_, fun call' hcall => (by cases hcall),
        h.consulted, h.scheduled, ⟨hgranted, hedges, hconsulted⟩⟩
      apply hatHand t'
      simpa only [State.atHand, hrecord] using ht

def resting : ProcessingPc → Bool
  | .notStarted | .loopHead _ | .exited _ => true
  | _ => false

theorem other_aside {s live : Live.State} {label : Live.Label}
    (hlabel : ∀ input, label ≠ .process input) (h : Live.Move s label live) :
    Aside s.pipe live.pipe ∧ (live.processing = s.processing ∨
      resting s.processing = true ∧ resting live.processing = true) := by
  cases h with
  | enter _ _ _ _ _ => exact ⟨⟨rfl, rfl, rfl⟩, Or.inl rfl⟩
  | main hmain =>
      refine ⟨aside_of_drives hmain.drives, ?_⟩
      cases hmain with
      | launch _ hprocessing => exact Or.inr ⟨by rw [hprocessing]; rfl, rfl⟩
      | join _ hprocessing => exact Or.inr ⟨by rw [hprocessing]; rfl, rfl⟩
      | _ => exact Or.inl rfl
  | process input _ => exact absurd rfl (hlabel input)
  | work e input hpipe =>
      exact ⟨aside_of_drives (Or.inr ⟨.work e input, rfl, hpipe⟩), Or.inl rfl⟩
  | apply _ _ _ _ _ _ => exact ⟨⟨rfl, rfl, rfl⟩, Or.inl rfl⟩
  | report _ _ => exact ⟨⟨rfl, rfl, rfl⟩, Or.inl rfl⟩
  | client k hclient =>
      have hdrives := clientStep_drives hclient
      have hthreads := clientStep_threads hclient
      exact ⟨aside_of_drives hdrives, Or.inl hthreads.processing⟩

theorem not_allocating_of_resting {processing : ProcessingPc} (h : resting processing = true)
    (i : Nat) : processing ≠ .allocating i := by
  rintro rfl
  cases h

theorem idle_of_stage {s : State} (h : s.Stage) (hidle : s.record ≠ .idle)
    (hscheduling : ∀ t result, s.record ≠ .scheduling t result) :
    s.live.pipe.producer = .idle := by
  unfold State.Stage at h
  split at h
  · assumption
  · exact absurd ‹_› hidle
  · exact absurd ‹_› (hscheduling _ _)
  · assumption
  · assumption
  · assumption
  · exact h.elim

theorem placed_of_stage {s : State} (h : s.Stage) {t : TaskRef} {result : AllocationResult}
    (hrecord : s.record = .getStrategy t result ∨ ∃ read, s.record = .save t result read) :
    s.Placed t result.edgeId := by
  obtain hrecord | ⟨read, hrecord⟩ := hrecord
  all_goals
    have hproducer := idle_of_stage h (by rw [hrecord]; rintro ⟨⟩) (by rw [hrecord]; rintro _ _ ⟨⟩)
    simpa only [State.Stage, hrecord, hproducer] using h

theorem Tracked.save {s : State} (h : Tracked s) (hidle : s.live.pipe.producer = .idle)
    (row : AllocationRow) : Tracked (s.save row) where
  quiet := h.quiet
  waiting := h.waiting
  free := fun _ => rfl
  atHand := fun t ht => by simp [State.atHand, State.save, hidle] at ht
  unread := h.unread
  consulted := h.consulted
  scheduled := h.scheduled
  stage := by simp [State.Stage, State.save, hidle]

/-- The steps once more, by what they do to the round at hand. -/
inductive Round (s : State) : State → Prop where
  | aside {live : Live.State} (haside : Aside s.live.pipe live.pipe)
      (hquiet : live.processing.busy = false → s.live.pipe.producer = .idle)
      (hwaiting : ∀ i, live.processing = .countGenerated i ∨
        live.processing = .lockConfiguration i → ∃ call, s.live.pipe.producer = .allocating call .lock)
      (hfree : (∀ i, live.processing ≠ .allocating i) → s.record = .idle) :
      Round s { s with live := live }
  | create {i : Nat} {kind : AllocKind} {now : Int} (hidle : s.live.pipe.producer = .idle)
      (hrecord : s.record = .idle) :
      Round s { s with live := { s.live with
        pipe := { s.live.pipe with
          world := createTask now s.live.pipe.world
          producer := .allocating ⟨s.live.pipe.world.taskCounter, kind⟩ .lock }
        processing := .countGenerated i } }
  | handle {i : Nat} {s' : State} (hprocessing : s.live.processing = .allocating i)
      (h : Handling s s') : Round s s'
  | read {t : TaskRef} {result : AllocationResult} (h : s.record = .getStrategy t result)
      (hidle : s.live.pipe.producer = .idle) :
      Round s { s with record := .save t result s.allocator.strategy }
  | write {t : TaskRef} {result : AllocationResult} {strategy : AllocationStrategy}
      (h : s.record = .save t result strategy) (hidle : s.live.pipe.producer = .idle) :
      Round s (s.save (.allocated t result.edgeId result.score (allocationToString strategy)))
  | writeFailure {t : TaskRef} {result : AllocationResult} (h : s.record = .saveFailure t result)
      (hidle : s.live.pipe.producer = .idle) : Round s (s.save (.failed t result.reason))

theorem round_of_other {s : State} (h : Tracked s) {live : Live.State} {label : Live.Label}
    (hlabel : ∀ input, label ≠ .process input) (hmove : Live.Move s.live label live) :
    Round s { s with live := live } := by
  obtain ⟨haside, hsame | ⟨hrest, hrest'⟩⟩ := other_aside hlabel hmove
  · exact .aside haside (hsame ▸ h.quiet) (hsame ▸ h.waiting) (hsame ▸ h.free)
  · refine .aside haside (fun _ => h.quiet ?_) (fun i hi => ?_)
      fun _ => h.free (not_allocating_of_resting hrest)
    · generalize s.live.processing = processing at hrest
      cases processing <;> first | rfl | cases hrest
    · obtain hi | hi := hi <;> rw [hi] at hrest' <;> cases hrest'

theorem round_of_process {s : State} (h : Tracked s) {input : ProcessInput} {live : Live.State}
    (hrecord : s.record = .idle ∨ ∃ t result, s.record = .scheduling t result)
    (hmove : ProcessMove input s.live live) :
    Round s { s with
      live := live
      record := s.advance
      consulted := s.consulted ++ s.consulting
      scheduled := s.scheduled ++ s.enqueuing } := by
  have hcalm (hbusy : s.live.processing.busy = false) (hbusy' : live.processing.busy = false)
      (haside : Aside s.live.pipe live.pipe) :
      Round s { s with
        live := live
        record := s.advance
        consulted := s.consulted ++ s.consulting
        scheduled := s.scheduled ++ s.enqueuing } := by
    have hpc (i : Nat) : s.live.processing ≠ .allocating i := fun hi => by
      rw [hi] at hbusy
      cases hbusy
    obtain ⟨hadvance, hconsulting, henqueuing⟩ := next_elsewhere hpc
    rw [hadvance, hconsulting, henqueuing, List.append_nil, List.append_nil]
    refine .aside haside (fun _ => h.quiet hbusy) (fun i hi => ?_) fun _ => h.free hpc
    obtain hi | hi := hi <;> rw [hi] at hbusy' <;> cases hbusy'
  have houtside {pc : ProcessingPc} (hpc : s.live.processing = pc)
      (hne : ∀ i, pc ≠ .allocating i) :
      s.record = .idle ∧ s.advance = s.record ∧ s.consulting = [] ∧ s.enqueuing = [] := by
    rw [← hpc] at hne
    exact ⟨h.free hne, next_elsewhere hne⟩
  cases hmove with
  | create hpc hpipe =>
      have hidle := h.quiet (by rw [hpc]; rfl)
      obtain ⟨hfree, hadvance, hconsulting, henqueuing⟩ := houtside hpc (by rintro _ ⟨⟩)
      rw [hadvance, hconsulting, henqueuing, List.append_nil, List.append_nil]
      cases Pipeline.step_move hpipe with
      | produce _ _ _ => exact .create hidle hfree
      | stay _ hlabel => simp at hlabel
  | @count i hpc =>
      obtain ⟨hfree, hadvance, hconsulting, henqueuing⟩ := houtside hpc (by rintro _ ⟨⟩)
      rw [hadvance, hconsulting, henqueuing, List.append_nil, List.append_nil]
      exact .aside ⟨rfl, rfl, rfl⟩ (fun hbusy => by cases hbusy)
        (fun _ _ => h.waiting i (Or.inl hpc)) fun _ => hfree
  | @lock i hpc _ =>
      obtain ⟨hfree, hadvance, hconsulting, henqueuing⟩ := houtside hpc (by rintro _ ⟨⟩)
      rw [hadvance, hconsulting, henqueuing, List.append_nil, List.append_nil]
      exact .aside ⟨rfl, rfl, rfl⟩ (fun hbusy => by cases hbusy)
        (fun _ _ => h.waiting i (Or.inr hpc)) fun _ => hfree
  | allocate hpc hpipe => exact .handle hpc (handling_of_allocate hpc h.stage hrecord hpipe)
  | allocated hpc hidle =>
      obtain ⟨hadvance, hconsulting, henqueuing⟩ := next_idle hidle
      rw [hadvance, hconsulting, henqueuing, List.append_nil, List.append_nil]
      refine .aside ⟨rfl, rfl, rfl⟩ (fun _ => hidle) (fun i hi => ?_) fun _ => ?_
      · obtain hi | hi := hi <;> cases hi
      · obtain hrecord | ⟨t, result, hrecord⟩ := hrecord
        · exact hrecord
        · have hstage := h.stage
          simp [State.Stage, hrecord, hidle] at hstage
  | choose hpc hstep =>
      have hdrives := chooseStep_drives hstep
      exact hcalm (by rw [hpc]; rfl) rfl (aside_of_drives hdrives)
  | next hpc hold hnew =>
      refine hcalm ?_ ?_ ⟨rfl, rfl, rfl⟩
      · obtain ⟨i, rfl | rfl⟩ := hold <;> rw [hpc] <;> rfl
      · obtain ⟨i, rfl | rfl⟩ | rfl | ⟨i, rfl⟩ := hnew <;> rfl
  | chosen hpc => exact hcalm (by rw [hpc]; rfl) rfl ⟨rfl, rfl, rfl⟩
  | unlock hpc => exact hcalm (by rw [hpc]; rfl) rfl ⟨rfl, rfl, rfl⟩
  | round hpc => exact hcalm (by rw [hpc]; rfl) rfl ⟨rfl, rfl, rfl⟩
  | giveUp hpc _ => exact hcalm (by rw [hpc]; rfl) rfl ⟨rfl, rfl, rfl⟩
  | seen hpc => exact hcalm (by rw [hpc]; rfl) rfl ⟨rfl, rfl, rfl⟩
  | empty hpc _ => exact hcalm (by rw [hpc]; rfl) rfl ⟨rfl, rfl, rfl⟩
  | polled hpc => exact hcalm (by rw [hpc]; rfl) rfl ⟨rfl, rfl, rfl⟩
  | active hpc => exact hcalm (by rw [hpc]; rfl) rfl ⟨rfl, rfl, rfl⟩
  | drained hpc _ => exact hcalm (by rw [hpc]; rfl) rfl ⟨rfl, rfl, rfl⟩
  | wake hpc => exact hcalm (by rw [hpc]; rfl) rfl ⟨rfl, rfl, rfl⟩
  | complete hpc => exact hcalm (by rw [hpc]; rfl) rfl ⟨rfl, rfl, rfl⟩
  | leave hpc => exact hcalm (by rw [hpc]; rfl) rfl ⟨rfl, rfl, rfl⟩

theorem round_of_move {s s' : State} {label : Live.Label} (h : Tracked s)
    (hmove : Move s label s') : Round s s' := by
  cases hmove with
  | other hlabel hlive => exact round_of_other h hlabel hlive
  | process input hrecord hlive => exact round_of_process h hrecord hlive
  | read input hrecord =>
      exact .read hrecord (idle_of_stage h.stage (by rw [hrecord]; rintro ⟨⟩)
        (by rw [hrecord]; rintro _ _ ⟨⟩))
  | write input hrecord =>
      exact .write hrecord (idle_of_stage h.stage (by rw [hrecord]; rintro ⟨⟩)
        (by rw [hrecord]; rintro _ _ ⟨⟩))
  | writeFailure input hrecord =>
      exact .writeFailure hrecord (idle_of_stage h.stage (by rw [hrecord]; rintro ⟨⟩)
        (by rw [hrecord]; rintro _ _ ⟨⟩))

theorem Tracked.create {s : State} (h : Tracked s) {i : Nat} {kind : AllocKind} {now : Int}
    (hrecord : s.record = .idle) :
    Tracked { s with live := { s.live with
      pipe := { s.live.pipe with
        world := createTask now s.live.pipe.world
        producer := .allocating ⟨s.live.pipe.world.taskCounter, kind⟩ .lock }
      processing := .countGenerated i } } where
  quiet := fun hbusy => by cases hbusy
  waiting := fun _ _ => ⟨_, rfl⟩
  free := fun _ => hrecord
  atHand := fun t ht => by
    simp only [State.atHand, hrecord] at ht
    cases ht
    exact Nat.lt_succ_self _
  unread := fun call hcall strategy hmem => by
    cases hcall
    exact absurd (h.consulted _ hmem) (lt_irrefl _)
  consulted := fun event hevent => Nat.lt_succ_of_lt (h.consulted event hevent)
  scheduled := fun event hevent => Nat.lt_succ_of_lt (h.scheduled event hevent)
  stage := by
    have hnone : edgesOf s.live.pipe.world.taskCounter s.scheduled = [] := by
      simp only [edgesOf, List.map_eq_nil_iff, List.filter_eq_nil_iff, decide_eq_true_eq]
      intro event hevent heq
      exact (h.scheduled event hevent).ne heq
    simp only [State.Stage, hrecord]
    exact ⟨hnone, fun hswitched => by cases hswitched⟩

theorem Tracked.round {s s' : State} (h : Tracked s) (hsound : Sound s.live.pipe)
    (hround : Round s s') : Tracked s' := by
  cases hround with
  | aside haside hquiet hwaiting hfree => exact h.aside haside hquiet hwaiting hfree
  | create _ hrecord => exact h.create hrecord
  | handle hprocessing hhandling => exact h.handle hsound hprocessing hhandling
  | read hrecord hidle =>
      refine ⟨h.quiet, h.waiting, fun hne => ?_, fun t' ht => ?_, h.unread, h.consulted,
        h.scheduled, ?_⟩
      · cases hrecord.symm.trans (h.free hne)
      · apply h.atHand t'
        simpa only [State.atHand, hrecord] using ht
      · have hplaced := placed_of_stage h.stage (Or.inl hrecord)
        simp only [State.Stage, hidle]
        exact hplaced
  | write _ hidle => exact h.save hidle _
  | writeFailure _ hidle => exact h.save hidle _

theorem live_step {s t : State} {label : Live.Label} (h : step s label = some t) :
    t.live = s.live ∨ Live.step s.live label = some t.live := by
  have hlive {f : Live.State → State} (hf : ∀ live, (f live).live = live)
      (hmap : (Live.step s.live label).map f = some t) : Live.step s.live label = some t.live := by
    obtain ⟨live, hstep, rfl⟩ := Option.map_eq_some_iff.mp hmap
    rw [hf, hstep]
  cases label with
  | process input =>
      simp only [step, processStep] at h
      split at h
      · split_ifs at h
        cases h
        exact Or.inl rfl
      · cases h
        exact Or.inl rfl
      · cases h
        exact Or.inl rfl
      · exact Or.inr (hlive (fun _ => rfl) h)
      · exact Or.inr (hlive (fun _ => rfl) h)
  | _ => exact Or.inr (hlive (fun _ => rfl) h)

theorem live_run {guard : State → Live.Label → Prop} {start s : State}
    (hrun : machine.Run guard start s) : Live.machine.Run Machine.free start.live s.live :=
  hrun.map State.live fun _ hstep => by
    obtain hsame | hlive := live_step hstep
    · rw [hsame]
      exact .refl _
    · exact .tail (.refl _) trivial hlive

end EdgeAllocator.Recording
