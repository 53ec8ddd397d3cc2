import EdgeAllocator.Initialize
import EdgeAllocator.Recorded

/-! The statements that a live run sends to the tables. No caller looks at their
results, so that a row which violates a foreign key would be lost. -/
namespace EdgeAllocator.Referential

open Foundation Schema Executor Live Recording Initialize

/-- Where the processing thread stands in `recordResourceSnapshots`. -/
inductive SnapshotPc where
  | idle
  | next (todo : List EdgeId)
  | readQueue (e : EdgeId) (usage : Amounts) (todo : List EdgeId)
  | save (e : EdgeId) (usage : Amounts) (queueLength : Nat) (todo : List EdgeId)

def SnapshotPc.edges : SnapshotPc → List EdgeId
  | .idle => []
  | .next todo => todo
  | .readQueue e _ todo | .save e _ _ todo => e :: todo

structure State where
  recording : Recording.State
  devices : List Device
  store : Store
  snapshot : SnapshotPc := .idle

/-- `now` is what `CURRENT_TIMESTAMP` gives; `due` tells whether 250 ms have passed
since the last snapshot. -/
structure Label where
  live : Live.Label
  now : String := ""
  due : Bool := false

def ordinal : TaskStatus → Int
  | .created => 0
  | .queued => 1
  | .running => 2
  | .completed => 3
  | .failed => 4
  | .reallocated => 5

def deviceAt (devices : List Device) (i : Nat) : Device :=
  devices.getD (i % devices.length) ⟨"", ""⟩

def taskRow (w : World) (device : Device) (now : String) : Schema.Task :=
  let requirements := w.workload w.taskCounter
  ⟨generateTaskId w.taskCounter, device.deviceId, device.deviceType, requirements.demand .cpu,
    requirements.demand .ram, requirements.demand .bandwidth, requirements.deadlineMs,
    requirements.priority.rank, ordinal .created, now⟩

def workerStatement (now : String) : WorkerPc → Option Statement
  | .executing t .persistRunning =>
      some (.updateTaskStatus (generateTaskId t) (ordinal .running))
  | .executing t (.persistFinal verdict) =>
      some (.updateTaskStatus (generateTaskId t) (ordinal verdict.status))
  | .executing t (.persistExecution verdict) =>
      some (saveTaskExecution (generateTaskId t) verdict.estimatedMs verdict.metDeadline now)
  | _ => none

namespace State

def world (s : State) : World := s.recording.live.pipe.world

/-- The statement of the processing thread that is due in its round. -/
def roundStatement (s : State) (now : String) : Option Statement :=
  match s.recording.record with
  | .save t result strategy =>
      some (saveAllocation (generateTaskId t) result.edgeId result.score
        (allocationToString strategy) now)
  | .saveFailure t result => some (saveAllocationFailure (generateTaskId t) result.reason now)
  | .getStrategy _ _ => none
  | .idle | .scheduling _ _ =>
      match s.recording.live.processing, s.recording.live.pipe.producer with
      | .create i, _ => some (.saveTask (taskRow s.world (deviceAt s.devices i) now))
      | .allocating _, .allocating call (.persist _ _) =>
          some (.updateTaskStatus (generateTaskId call.task) (ordinal .queued))
      | _, _ => none

def issues (s : State) (label : Label) : Option Statement :=
  match label.live with
  | .process _ =>
      match s.snapshot with
      | .idle => s.roundStatement label.now
      | .save e usage queueLength _ =>
          some (saveResourceSnapshot e usage queueLength label.now)
      | _ => none
  | .work e _ => workerStatement label.now (s.recording.live.pipe.workers e)
  | _ => none

/-- The tables after the step. The result of the statement is not looked at. -/
def written (s : State) (label : Label) : Store :=
  match s.issues label with
  | some statement => perform s.store statement
  | none => s.store

end State

def snapshotCalled (due : Bool) : ProcessingPc → ProcessingPc → Bool
  | .unlockConfiguration _, _ => due
  | .polling _, .napping => true
  | .checkActive, .napping => true
  | _, _ => false

def snapshotStep (s : State) : Option SnapshotPc :=
  match s.snapshot with
  | .idle => none
  | .next [] => some .idle
  | .next (e :: todo) => some (.readQueue e (s.world.node e).currentUsage todo)
  | .readQueue e usage todo => some (.save e usage (s.world.node e).getQueueLength todo)
  | .save _ _ _ todo => some (.next todo)

def follow (s : State) (label : Label) : Option State :=
  (Recording.step s.recording label.live).map fun recording =>
    { s with
      recording := recording
      store := s.written label
      snapshot := match label.live with
        | .process _ =>
            if snapshotCalled label.due s.recording.live.processing recording.live.processing then
              .next s.recording.live.edges
            else s.snapshot
        | _ => s.snapshot }

def step (s : State) (label : Label) : Option State :=
  match label.live with
  | .process _ =>
      match snapshotStep s with
      | some pc => some { s with snapshot := pc, store := s.written label }
      | none => follow s label
  | _ => follow s label

def start (runtime : Runtime) (workload : TaskRef → TaskRequirements) (s : Store) : State where
  recording := { live := runtime.live workload }
  devices := runtime.devices
  store := s

/-- Whatever the tables held before. -/
def Initial (s : State) : Prop :=
  ∃ (G : Type) (environment : Environment G) (config : CommandLine.SimulationConfig)
    (before : Store) (runtime : Runtime) (workload : TaskRef → TaskRequirements),
    environment.opened = true ∧
      (initializeRuntime environment config before).runtime = some runtime ∧
      s = start runtime workload (initializeRuntime environment config before).store

def machine : Machine State Label := ⟨Initial, step⟩

theorem processMove_taskCounter {input : ProcessInput} {s t : Live.State}
    (h : ProcessMove input s t) :
    t.pipe.world.taskCounter = s.pipe.world.taskCounter ∨
      (∃ i, s.processing = .create i) ∧
        t.pipe.world.taskCounter = s.pipe.world.taskCounter + 1 := by
  cases h with
  | choose _ hstep => exact Or.inl (aside_of_drives (chooseStep_drives hstep)).taskCounter
  | create hpc hpipe =>
      cases Pipeline.step_move hpipe with
      | produce _ _ _ => exact Or.inr ⟨⟨_, hpc⟩, rfl⟩
      | stay _ hlabel => simp at hlabel
  | allocate _ hpipe =>
      cases Pipeline.step_move hpipe with
      | alloc _ _ hstep => exact Or.inl (Allocation.allocStep_taskCounter hstep)
      | schedule _ _ hstep => exact Or.inl (Scheduler.scheduleStep_taskCounter hstep)
      | stay _ hlabel => simp at hlabel
      | _ => exact Or.inl rfl
  | _ => exact Or.inl rfl

theorem recording_taskCounter {s t : Recording.State} {label : Live.Label}
    (h : Recording.step s label = some t) :
    t.live.pipe.world.taskCounter = s.live.pipe.world.taskCounter ∨
      (∃ input i, label = .process input ∧ s.live.processing = .create i) ∧
        (s.record = .idle ∨ ∃ task result, s.record = .scheduling task result) ∧
        t.live.pipe.world.taskCounter = s.live.pipe.world.taskCounter + 1 := by
  cases Recording.step_move h with
  | other hlabel hlive => exact Or.inl (other_aside hlabel hlive).1.taskCounter
  | process input hrecord hlive =>
      obtain hsame | ⟨⟨i, hcreate⟩, hnext⟩ := processMove_taskCounter hlive
      · exact Or.inl hsame
      · exact Or.inr ⟨⟨input, i, rfl, hcreate⟩, hrecord, hnext⟩
  | _ => exact Or.inl rfl

theorem recording_edges {s t : Recording.State} {label : Live.Label}
    (h : Recording.step s label = some t) : t.live.edges = s.live.edges := by
  cases Recording.step_move h with
  | other _ hlive => exact hlive.edges
  | process input _ hlive => exact (Live.Move.process input hlive).edges
  | _ => rfl

theorem held_lt_taskCounter {s : Pipeline.State} (h : Pipeline.Sound s) {e : EdgeId} {t : TaskRef}
    (ht : t ∈ (s.workers e).held) : t < s.world.taskCounter := by
  have hplace : t ∈ Pipeline.custody.places s e :=
    List.mem_append_right _ ht
  have hgranted := (h.custody e).mem_iff.mp (List.mem_append_left _ hplace)
  obtain ⟨grant, hgrant, rfl⟩ := List.mem_map.mp hgranted
  exact h.fresh.granted grant (List.mem_of_mem_filter hgrant)

/-- The rows that others refer to stay. -/
structure Grows (s s' : Store) : Prop where
  devices : ∀ id ∈ s.devices.map Device.deviceId, id ∈ s'.devices.map Device.deviceId
  edgeNodes : ∀ e ∈ s.edgeNodes.map Schema.EdgeNode.edgeId,
    e ∈ s'.edgeNodes.map Schema.EdgeNode.edgeId
  tasks : ∀ t ∈ s.tasks.map Schema.Task.taskId, t ∈ s'.tasks.map Schema.Task.taskId

theorem Grows.refl (s : Store) : Grows s s := ⟨fun _ h => h, fun _ h => h, fun _ h => h⟩

def Written : Statement → Prop
  | .saveTask _ | .updateTaskStatus _ _ | .insertAllocation _ | .insertExecution _
  | .insertSample _ => True
  | _ => False

theorem Grows.effect (s : Store) {statement : Statement} (h : Written statement) :
    Grows s (statement.effect s) := by
  cases statement with
  | saveTask row =>
      exact { Grows.refl s with tasks := fun _ ht => mem_replace_keys.mpr (Or.inl ht) }
  | updateTaskStatus taskId status =>
      exact { Grows.refl s with tasks := fun _ ht => by rwa [updateTaskStatus_keys] }
  | insertAllocation row => exact { Grows.refl s with }
  | insertExecution row => exact { Grows.refl s with }
  | insertSample row => exact { Grows.refl s with }
  | _ => cases h

/-- What holds of the tables and of the run together: the parents of every row that
can still be written are there. -/
structure Parented (s : State) : Prop where
  honest : Honest s.recording
  consistent : s.store.Consistent
  devices : s.devices ≠ []
  deviceRows : ∀ device ∈ s.devices, device.deviceId ∈ s.store.devices.map Device.deviceId
  edgeRows : ∀ e ∈ s.recording.live.edges, e ∈ s.store.edgeNodes.map Schema.EdgeNode.edgeId
  taskRows : ∀ t < s.world.taskCounter, generateTaskId t ∈ s.store.tasks.map Schema.Task.taskId
  snapshot : ∀ e ∈ s.snapshot.edges, e ∈ s.recording.live.edges

theorem deviceAt_mem {devices : List Device} (h : devices ≠ []) (i : Nat) :
    deviceAt devices i ∈ devices := by
  have hlt : i % devices.length < devices.length := Nat.mod_lt i (List.length_pos_iff.mpr h)
  rw [deviceAt, List.getD_eq_getElem?_getD, List.getElem?_eq_getElem hlt]
  exact List.getElem_mem hlt

namespace Parented

variable {s : State} (h : Parented s)
include h

theorem worker {e : EdgeId} {now : String} {statement : Statement}
    (hstatement : workerStatement now (s.recording.live.pipe.workers e) = some statement) :
    Written statement ∧ statement.Permitted s.store := by
  cases hworker : s.recording.live.pipe.workers e with
  | executing t stage =>
      have hheld : t ∈ (s.recording.live.pipe.workers e).held := by
        rw [hworker]
        exact List.mem_singleton_self t
      have hrow := h.taskRows t (held_lt_taskCounter h.honest.sound hheld)
      rw [hworker] at hstatement
      cases stage <;> cases hstatement
      · exact ⟨trivial, trivial⟩
      · exact ⟨trivial, trivial⟩
      · exact ⟨trivial, hrow⟩
  | _ =>
      rw [hworker] at hstatement
      cases hstatement

theorem round {now : String} {statement : Statement}
    (hstatement : s.roundStatement now = some statement) :
    Written statement ∧ statement.Permitted s.store := by
  have hatHand (t : TaskRef) (ht : s.recording.atHand = some t) :
      generateTaskId t ∈ s.store.tasks.map Schema.Task.taskId :=
    h.taskRows t (h.honest.tracked.atHand t ht)
  unfold State.roundStatement at hstatement
  split at hstatement
  · rename_i t result strategy hrecord
    cases hstatement
    exact ⟨trivial, hatHand t (by simp only [State.atHand, hrecord])⟩
  · rename_i t result hrecord
    cases hstatement
    exact ⟨trivial, hatHand t (by simp only [State.atHand, hrecord])⟩
  · cases hstatement
  all_goals
    split at hstatement
    · cases hstatement
      exact ⟨trivial, h.deviceRows _ (deviceAt_mem h.devices _)⟩
    · cases hstatement
      exact ⟨trivial, trivial⟩
    · cases hstatement

theorem issues {label : Label} {statement : Statement}
    (hstatement : s.issues label = some statement) :
    Written statement ∧ statement.Permitted s.store := by
  unfold State.issues at hstatement
  split at hstatement
  · split at hstatement
    · exact h.round hstatement
    · rename_i e usage queueLength todo hsnapshot
      cases hstatement
      refine ⟨trivial, h.edgeRows e (h.snapshot e ?_)⟩
      rw [hsnapshot]
      exact List.mem_cons_self
    · cases hstatement
  · exact h.worker hstatement
  · cases hstatement

theorem written (label : Label) :
    (s.written label).Consistent ∧ Grows s.store (s.written label) := by
  unfold State.written
  cases hissues : s.issues label with
  | none => exact ⟨h.consistent, .refl _⟩
  | some statement =>
      obtain ⟨hwritten, hpermitted⟩ := h.issues hissues
      simp only [perform_of_permitted hpermitted]
      exact ⟨h.consistent.effect hpermitted, .effect _ hwritten⟩

end Parented

theorem Parented.store {s : State} (h : Parented s) (label : Label) {snapshot : SnapshotPc}
    (hsnapshot : ∀ e ∈ snapshot.edges, e ∈ s.recording.live.edges) :
    Parented { s with snapshot := snapshot, store := s.written label } := by
  obtain ⟨hconsistent, hgrows⟩ := h.written label
  exact
    { h with
      consistent := hconsistent
      deviceRows := fun device hdevice => hgrows.devices _ (h.deviceRows device hdevice)
      edgeRows := fun e he => hgrows.edgeNodes _ (h.edgeRows e he)
      taskRows := fun t ht => hgrows.tasks _ (h.taskRows t ht)
      snapshot := hsnapshot }

theorem snapshotStep_edges {s : State} {pc : SnapshotPc} (h : snapshotStep s = some pc) :
    ∀ e ∈ pc.edges, e ∈ s.snapshot.edges := by
  unfold snapshotStep at h
  split at h <;> rename_i hsnapshot <;> cases h <;> rw [hsnapshot]
  · exact fun e he => by cases he
  · exact fun e he => he
  · exact fun e he => he
  · exact fun e he => List.mem_cons_of_mem _ he

theorem Parented.created {s : State} (h : Parented s) {label : Label} {input : ProcessInput}
    {i : Nat} (hlabel : label.live = .process input)
    (hcreate : s.recording.live.processing = .create i)
    (hrecord : s.recording.record = .idle ∨ ∃ t result, s.recording.record = .scheduling t result)
    (hsnapshot : s.snapshot = .idle) :
    generateTaskId s.world.taskCounter ∈ (s.written label).tasks.map Schema.Task.taskId := by
  have hissues : s.issues label =
      some (.saveTask (taskRow s.world (deviceAt s.devices i) label.now)) := by
    unfold State.issues State.roundStatement
    rw [hlabel, hsnapshot, hcreate]
    obtain hrecord | ⟨t, result, hrecord⟩ := hrecord
    · rw [hrecord]
    · rw [hrecord]
  obtain ⟨-, hpermitted⟩ := h.issues hissues
  unfold State.written
  simp only [hissues, perform_of_permitted hpermitted]
  exact mem_replace_keys.mpr (Or.inr rfl)

theorem Parented.follow {s t : State} (h : Parented s) {label : Label}
    (hsnapshot : ∀ input, label.live = .process input → s.snapshot = .idle)
    (hstep : follow s label = some t) : Parented t := by
  obtain ⟨recording, hrecording, rfl⟩ := Option.map_eq_some_iff.mp hstep
  obtain ⟨hconsistent, hgrows⟩ := h.written label
  have hedges := recording_edges hrecording
  constructor
  · exact h.honest.step hrecording
  · exact hconsistent
  · exact h.devices
  · exact fun device hdevice => hgrows.devices _ (h.deviceRows device hdevice)
  · intro e he
    rw [hedges] at he
    exact hgrows.edgeNodes _ (h.edgeRows e he)
  · intro t ht
    obtain hsame | ⟨⟨input, i, hlabel, hcreate⟩, hrecord, hnext⟩ :=
      recording_taskCounter hrecording
    · exact hgrows.tasks _ (h.taskRows t (hsame ▸ ht))
    · have hcreated := h.created hlabel hcreate hrecord (hsnapshot input hlabel)
      have hlt : t < s.world.taskCounter + 1 := hnext ▸ ht
      obtain hbefore | hnew := Nat.lt_succ_iff_lt_or_eq.mp hlt
      · exact hgrows.tasks _ (h.taskRows t hbefore)
      · rw [hnew]
        exact hcreated
  · have hkept : ∀ e ∈ s.snapshot.edges, e ∈ recording.live.edges := by
      rw [hedges]
      exact h.snapshot
    show ∀ e ∈ SnapshotPc.edges _, e ∈ recording.live.edges
    split
    · split
      · rw [hedges]
        exact fun e he => he
      · exact hkept
    · exact hkept

theorem Parented.step {s t : State} (h : Parented s) {label : Label}
    (hstep : step s label = some t) : Parented t := by
  unfold Referential.step at hstep
  split at hstep
  · split at hstep
    · rename_i pc hsnapshot
      cases hstep
      exact h.store label fun e he => h.snapshot e (snapshotStep_edges hsnapshot e he)
    · rename_i hnone
      refine h.follow (fun _ _ => ?_) hstep
      unfold snapshotStep at hnone
      split at hnone <;> first | assumption | cases hnone
  · rename_i hother
    exact h.follow (fun input hlabel => absurd hlabel (hother input)) hstep

theorem Parented.initial {s : State} (h : Initial s) : Parented s := by
  obtain ⟨G, environment, config, before, runtime, workload, hopened, hruntime, rfl⟩ := h
  have hvalid : Valid config :=
    (initializeRuntime_isSome_iff hopened).mp (by rw [hruntime]; rfl)
  obtain ⟨hedges, hinstalled⟩ := installed_of_some hruntime hopened
  constructor
  · exact Honest.initial ⟨hinstalled.live hedges workload, rfl, rfl, rfl, rfl⟩
  · exact hinstalled.consistent
  · show runtime.devices ≠ []
    rw [hinstalled.devices]
    simpa using hvalid.devices
  · exact hinstalled.deviceRows
  · exact hinstalled.edgeRows
  · exact fun t ht => absurd ht (Nat.not_lt_zero t)
  · exact fun e he => by cases he

/-- Whatever step comes next, the statement that it executes finds the parents of its row
and succeeds; and the reset violates no foreign key. -/
theorem no_row_dropped {s : State} (hs : machine.Reachable Machine.free s) (label : Label) :
    (∀ statement, s.issues label = some statement →
        statement.Permitted s.store ∧
          executeSql [statement] s.store = (true, statement.effect s.store)) ∧
      ∀ before : Store, before.Consistent →
        (resetSimulationData before).1 = true ∧ (resetSimulationData before).2.Consistent := by
  have hparented : Parented s := hs.invariant Parented.initial fun h _ hstep => h.step hstep
  constructor
  · intro statement hissues
    obtain ⟨-, hpermitted⟩ := hparented.issues hissues
    refine ⟨hpermitted, ?_⟩
    rw [executeSql, if_pos hpermitted]
    rfl
  · intro before _
    rw [resetSimulationData_eq]
    exact ⟨rfl, .nil, .nil, .nil, .nil⟩

def smallConfig : CommandLine.SimulationConfig :=
  { deviceCount := 1, edgeNodeCount := 1, taskCount := 1, strategy := "least_load" }

def smallRuntime : Runtime :=
  (initializeRuntime steadyEnvironment smallConfig oneTask).runtime.get (by decide +kernel)

def smallStart : State :=
  start smallRuntime (fun _ => TaskProfile.ultrasonic)
    (initializeRuntime steadyEnvironment smallConfig oneTask).store

theorem smallStart_initial : machine.initial smallStart :=
  ⟨Unit, steadyEnvironment, smallConfig, oneTask, smallRuntime, _, rfl, (Option.some_get _).symm,
    rfl⟩

def plain (labels : List Live.Label) : List Label := labels.map fun label => { live := label }

theorem no_row_dropped_create :
    let s := machine.final smallStart (plain (startUp ++ processSteps 2))
    (∀ statement, s.issues { live := .process {} } = some statement →
        statement.Permitted s.store ∧
          executeSql [statement] s.store = (true, statement.effect s.store)) ∧
      ∀ before : Store, before.Consistent →
        (resetSimulationData before).1 = true ∧ (resetSimulationData before).2.Consistent :=
  no_row_dropped (Machine.reachable_final smallStart_initial (by decide +kernel)) _

end EdgeAllocator.Referential
