import EdgeAllocator.Referential
import EdgeAllocator.Identifiers
import EdgeAllocator.Rounds
import EdgeAllocator.Chronicle

/-! What a run has put on record, and that the tables hold just that: the statements
by key and the foreign keys lose nothing and mix nothing up. -/
namespace EdgeAllocator.Referential

open Foundation Schema Scheduler Executor Allocator Allocation Live Recording Initialize
open Identifiers (generateTaskId_injective)

/-- The record of a run, task by task and without the times. -/
structure Journal where
  created : Nat
  database : Database
  allocations : List AllocationRow

def State.journal (s : State) : Journal :=
  ⟨s.world.taskCounter, s.world.database, s.recording.allocations⟩

inductive Entry where
  | create
  | status (t : TaskRef) (status : TaskStatus)
  | allocation (row : AllocationRow)
  | execution (row : ExecutionRow)

namespace Journal

def enter (j : Journal) : Entry → Journal
  | .create =>
      { j with
        created := j.created + 1
        database := j.database.saveTask j.created .created }
  | .status t status => { j with database := j.database.updateTaskStatus t status }
  | .allocation row => { j with allocations := j.allocations ++ [row] }
  | .execution row => { j with database := j.database.saveTaskExecution row }

end Journal

structure Describes (devices : List Device) (workload : TaskRef → TaskRequirements)
    (database : Database) (t : TaskRef) (row : Schema.Task) : Prop where
  taskId : row.taskId = generateTaskId t
  device : ⟨row.deviceId, row.sensorType⟩ ∈ devices
  demand : amounts row.cpuPercent row.ramMb row.bandwidthMbps = (workload t).demand
  deadlineMs : row.deadlineMs = (workload t).deadlineMs
  priority : row.priority = (workload t).priority.rank
  status : ∃ status, database.taskStatus t = some status ∧ row.status = ordinal status

def Allocates (entry : AllocationRow) (row : TaskAllocation) : Prop :=
  row = ⟨generateTaskId entry.task, entry.edgeId, entry.score, if entry.success then 1 else 0,
    entry.strategy, some entry.reason, row.allocatedAt⟩

def Executes (entry : ExecutionRow) (row : TaskExecution) : Prop :=
  row = ⟨generateTaskId entry.task, entry.executionTimeMs, if entry.success then 1 else 0,
    row.executedAt⟩

/-- The three tables have a row for every entry, in the same order, and no other. -/
structure Mirrors (devices : List Device) (workload : TaskRef → TaskRequirements) (j : Journal)
    (store : Store) : Prop where
  tasks : List.Forall₂ (Describes devices workload j.database) (List.range j.created) store.tasks
  taskAllocations : List.Forall₂ Allocates j.allocations store.taskAllocations
  taskExecution : List.Forall₂ Executes j.database.executions store.taskExecution

inductive Puts (s : State) : Entry → Statement → Prop where
  | create {device : Device} (h : device ∈ s.devices) (now : String) :
      Puts s .create (.saveTask (taskRow s.world device now))
  | status (t : TaskRef) (status : TaskStatus) :
      Puts s (.status t status) (.updateTaskStatus (generateTaskId t) (ordinal status))
  | allocated (t : TaskRef) (e : EdgeId) (score : ℚ) (strategy now : String) :
      Puts s (.allocation (.allocated t e score strategy))
        (saveAllocation (generateTaskId t) e score strategy now)
  | failed (t : TaskRef) (reason now : String) :
      Puts s (.allocation (.failed t reason))
        (saveAllocationFailure (generateTaskId t) reason now)
  | execution (t : TaskRef) (verdict : Verdict) (now : String) :
      Puts s (.execution ⟨t, verdict.estimatedMs, verdict.metDeadline⟩)
        (saveTaskExecution (generateTaskId t) verdict.estimatedMs verdict.metDeadline now)

theorem Describes.congr {devices : List Device} {workload : TaskRef → TaskRequirements}
    {database database' : Database} {t : TaskRef} {row : Schema.Task}
    (h : Describes devices workload database t row)
    (hstatus : database'.taskStatus t = database.taskStatus t) :
    Describes devices workload database' t row :=
  { h with status := hstatus ▸ h.status }

theorem map_eq_of_forall₂ {α β γ : Type*} {r : α → β → Prop} {f : α → γ} {g : β → γ} {as : List α}
    {bs : List β} (h : List.Forall₂ r as bs) (hmap : ∀ a b, r a b → f a = g b) :
    as.map f = bs.map g := by
  induction h with
  | nil => rfl
  | cons hhead _ ih => rw [List.map_cons, List.map_cons, ih, hmap _ _ hhead]

theorem ids_of_describes {devices : List Device} {workload : TaskRef → TaskRequirements}
    {database : Database} {tasks : List TaskRef} {rows : List Schema.Task}
    (h : List.Forall₂ (Describes devices workload database) tasks rows) :
    rows.map Schema.Task.taskId = tasks.map generateTaskId :=
  (map_eq_of_forall₂ h fun _ _ hrow => hrow.taskId.symm).symm

theorem forall₂_snoc {α β : Type*} {r : α → β → Prop} {as : List α} {bs : List β} {a : α} {b : β}
    (h : List.Forall₂ r as bs) (hlast : r a b) : List.Forall₂ r (as ++ [a]) (bs ++ [b]) :=
  List.rel_append h (.cons hlast .nil)

namespace Mirrors

variable {s : State} {store : Store}
  (h : Mirrors s.devices s.world.workload s.journal store)
include h

theorem fresh {row : Schema.Task} (hrow : row.taskId = generateTaskId s.world.taskCounter) :
    row.taskId ∉ store.tasks.map Schema.Task.taskId := by
  rw [ids_of_describes h.tasks, hrow, List.mem_map]
  rintro ⟨t, ht, heq⟩
  exact (List.mem_range.mp ht).ne (generateTaskId_injective heq)

theorem create {device : Device} (hdevice : device ∈ s.devices) (now : String) :
    Mirrors s.devices s.world.workload (s.journal.enter .create)
      ((Statement.saveTask (taskRow s.world device now)).effect store) := by
  refine ⟨?_, h.taskAllocations, h.taskExecution⟩
  show List.Forall₂ _ (List.range (s.world.taskCounter + 1)) (replace _ _ _)
  rw [replace_of_fresh (h.fresh rfl), List.range_succ]
  apply forall₂_snoc
  · refine (List.forall₂_iff_get.mpr ⟨?_, ?_⟩)
    · exact h.tasks.length_eq
    · intro i hi hi'
      have hold := (List.forall₂_iff_get.mp h.tasks).2 i hi hi'
      refine hold.congr (Function.update_of_ne ?_ _ _)
      have hlt : (List.range s.world.taskCounter).get ⟨i, hi⟩ < s.world.taskCounter :=
        List.mem_range.mp (List.get_mem _ _)
      exact hlt.ne
  · refine ⟨rfl, hdevice, ?_, rfl, rfl, .created, Function.update_self .., rfl⟩
    funext r
    cases r <;> rfl

theorem status (t : TaskRef) (status : TaskStatus) :
    Mirrors s.devices s.world.workload (s.journal.enter (.status t status))
      ((Statement.updateTaskStatus (generateTaskId t) (ordinal status)).effect store) := by
  refine ⟨?_, h.taskAllocations, h.taskExecution⟩
  refine List.forall₂_map_right_iff.mpr (h.tasks.imp fun u row hrow => ?_)
  obtain ⟨stored, hstored, hcolumn⟩ := hrow.status
  by_cases hu : u = t
  · subst hu
    rw [if_pos hrow.taskId]
    refine { hrow with status := ⟨status, ?_, rfl⟩ }
    show (Function.update _ _ _) u = _
    rw [Function.update_self, hstored, Option.map_some]
  · rw [if_neg]
    · exact hrow.congr (Function.update_of_ne hu _ _)
    · rw [hrow.taskId]
      exact fun heq => hu (generateTaskId_injective heq)

theorem puts {entry : Entry} {statement : Statement} (hputs : Puts s entry statement) :
    Mirrors s.devices s.world.workload (s.journal.enter entry) (statement.effect store) := by
  cases hputs with
  | create hdevice now => exact h.create hdevice now
  | status t status => exact h.status t status
  | allocated t e score strategy now =>
      exact ⟨h.tasks, forall₂_snoc h.taskAllocations rfl, h.taskExecution⟩
  | failed t reason now => exact ⟨h.tasks, forall₂_snoc h.taskAllocations rfl, h.taskExecution⟩
  | execution t verdict now =>
      exact ⟨h.tasks.imp fun _ _ hrow => hrow.congr rfl, h.taskAllocations,
        forall₂_snoc h.taskExecution rfl⟩

end Mirrors

/-- What a step does to the journal and to the three tables: nothing, or one entry
and the statement that puts it there. -/
inductive Posts (s t : State) : Prop where
  | nothing (hjournal : t.journal = s.journal) (htasks : t.store.tasks = s.store.tasks)
      (hallocations : t.store.taskAllocations = s.store.taskAllocations)
      (hexecution : t.store.taskExecution = s.store.taskExecution)
  | entry {entry : Entry} {statement : Statement} (hputs : Puts s entry statement)
      (hjournal : t.journal = s.journal.enter entry)
      (hstore : t.store = statement.effect s.store)

theorem written_of_none {s : State} {label : Label} (h : s.issues label = none) :
    s.written label = s.store := by
  unfold State.written
  rw [h]

theorem written_of_some {s : State} (h : Parented s) {label : Label} {statement : Statement}
    (hissues : s.issues label = some statement) :
    s.written label = statement.effect s.store := by
  unfold State.written
  rw [hissues]
  exact perform_of_permitted (h.issues hissues).2

theorem posts_snapshot {s : State} (h : Parented s) {label : Label} {input : ProcessInput}
    (hlabel : label.live = .process input) {pc : SnapshotPc} (hstep : snapshotStep s = some pc) :
    Posts s { s with snapshot := pc, store := s.written label } := by
  have hsame (hnone : s.issues label = none) :
      Posts s { s with snapshot := pc, store := s.written label } := by
    rw [written_of_none hnone]
    exact .nothing rfl rfl rfl rfl
  unfold snapshotStep at hstep
  cases hsnapshot : s.snapshot with
  | idle =>
      rw [hsnapshot] at hstep
      cases hstep
  | save e usage queueLength todo =>
      have hissues : s.issues label =
          some (saveResourceSnapshot e usage queueLength label.now) := by
        unfold State.issues
        rw [hlabel, hsnapshot]
      rw [written_of_some h hissues]
      exact .nothing rfl rfl rfl rfl
  | next todo =>
      apply hsame
      unfold State.issues
      rw [hlabel, hsnapshot]
  | readQueue e usage todo =>
      apply hsame
      unfold State.issues
      rw [hlabel, hsnapshot]

section Post

variable {s t : State} {label : Label} (hstore : t.store = s.written label)
include hstore

theorem posts_of_none (hissues : s.issues label = none) (hjournal : t.journal = s.journal) :
    Posts s t := by
  rw [written_of_none hissues] at hstore
  exact .nothing hjournal (by rw [hstore]) (by rw [hstore]) (by rw [hstore])

variable (h : Parented s)
include h

theorem posts_of_some {entry : Entry} {statement : Statement}
    (hissues : s.issues label = some statement) (hputs : Puts s entry statement)
    (hjournal : t.journal = s.journal.enter entry) : Posts s t :=
  .entry hputs hjournal (hstore.trans (written_of_some h hissues))

theorem posts_work {e : EdgeId} {input : WorkerInput} (hlabel : label.live = .work e input)
    {w : World} {pc' : WorkerPc}
    (hstep : workerStep e input s.world (s.recording.live.pipe.workers e) = some (w, pc'))
    (hjournal : t.journal = ⟨w.taskCounter, w.database, s.recording.allocations⟩) : Posts s t := by
  have hissues : s.issues label = workerStatement label.now (s.recording.live.pipe.workers e) := by
    unfold State.issues
    rw [hlabel]
  rw [workerStep_taskCounter hstep] at hjournal
  generalize s.recording.live.pipe.workers e = pc at hstep hissues
  cases workerStep_move hstep with
  | fetch hfetch =>
      obtain ⟨queue, mutex, rfl, -⟩ := fetchStep_effect hfetch
      exact posts_of_none hstore hissues hjournal
  | @exec u stage _ =>
      cases stage with
      | persistRunning => exact posts_of_some hstore h hissues (.status u .running) hjournal
      | persistFinal verdict =>
          exact posts_of_some hstore h hissues (.status u verdict.status) hjournal
      | persistExecution verdict =>
          exact posts_of_some hstore h hissues (.execution u verdict label.now) hjournal
      | _ => exact posts_of_none hstore hissues hjournal
  | _ => exact posts_of_none hstore hissues hjournal

end Post

structure SameRecord (s t : Pipeline.State) : Prop where
  taskCounter : t.world.taskCounter = s.world.taskCounter
  database : t.world.database = s.world.database

theorem journal_congr {s t : State} (h : SameRecord s.recording.live.pipe t.recording.live.pipe)
    (hallocations : t.recording.allocations = s.recording.allocations) :
    t.journal = s.journal := by
  simp only [State.journal, State.world, h.taskCounter, h.database, hallocations]

/-- Strategies and threads are changed without a trace in the tables. -/
def traceless : Pipeline.Label → Bool
  | .setAllocation _ | .setScheduling _ | .start | .stop | .control => true
  | _ => false

theorem sameRecord_of_traceless {s t : Pipeline.State} {label : Pipeline.Label}
    (hlabel : traceless label = true) (hstep : Pipeline.step s label = some t) :
    SameRecord s t := by
  cases Pipeline.step_move hstep with
  | produce _ _ _ => cases hlabel
  | alloc _ _ _ => cases hlabel
  | schedule _ _ _ => cases hlabel
  | work _ _ _ => cases hlabel
  | draw _ _ => cases hlabel
  | _ => exact ⟨rfl, rfl⟩

theorem scheduleStep_database {me : Thread} {e : EdgeId} {t : TaskRef} {w w' : World}
    {pc pc' : SchedulePc} (h : scheduleStep me e t w pc = some (w', pc')) :
    w'.database = w.database := by
  cases pc with
  | lock =>
      simp only [scheduleStep] at h
      split_ifs at h <;> cases h <;> rfl
  | returned => cases h
  | _ =>
      cases h
      rfl

theorem chooseStep_record {me : Thread} {s t : Live.State} {pc pc' : ChoosePc}
    (h : chooseStep me s pc = some (t, pc')) : SameRecord s.pipe t.pipe := by
  cases pc with
  | readUsage todo cpuTotal => cases todo <;> cases h <;> exact ⟨rfl, rfl⟩
  | lock averageCpu =>
      obtain ⟨-, rfl, -⟩ := lock_pair h
      exact ⟨rfl, rfl⟩
  | setAllocation averageCpu =>
      obtain ⟨pipe, hpipe, rfl, -⟩ := drive_pair h
      exact sameRecord_of_traceless rfl hpipe
  | setScheduling averageCpu =>
      obtain ⟨pipe, hpipe, rfl, -⟩ := drive_pair h
      exact sameRecord_of_traceless rfl hpipe
  | unlock =>
      cases h
      exact ⟨rfl, rfl⟩
  | returned => cases h

theorem clientStep_record {me : Thread} {s t : Live.State} {pc pc' : ClientPc}
    (h : clientStep me s pc = some (t, pc')) : SameRecord s.pipe t.pipe := by
  cases pc with
  | idle => cases h
  | autoLock =>
      obtain ⟨-, rfl, -⟩ := lock_pair h
      exact ⟨rfl, rfl⟩
  | manualLock allocation scheduling =>
      obtain ⟨-, rfl, -⟩ := lock_pair h
      exact ⟨rfl, rfl⟩
  | autoChoose pc =>
      obtain ⟨-, rfl, -⟩ | ⟨next, hstep, -⟩ := autoChoose_some h
      · exact ⟨rfl, rfl⟩
      · exact chooseStep_record hstep
  | validate allocation scheduling =>
      simp only [clientStep] at h
      split at h <;> cases h <;> exact ⟨rfl, rfl⟩
  | setAllocation allocation scheduling =>
      obtain ⟨pipe, hpipe, rfl, -⟩ := drive_pair h
      exact sameRecord_of_traceless rfl hpipe
  | setScheduling allocation scheduling =>
      obtain ⟨pipe, hpipe, rfl, -⟩ := drive_pair h
      exact sameRecord_of_traceless rfl hpipe
  | reporting pc =>
      obtain ⟨-, rfl, -⟩ | ⟨next, hstep, -⟩ := reporting_some h
      · exact ⟨rfl, rfl⟩
      · obtain ⟨owner, rfl⟩ := reportStep_frame hstep
        exact ⟨rfl, rfl⟩
  | _ =>
      cases h
      exact ⟨rfl, rfl⟩

theorem mainMove_record {s t : Live.State} (h : MainMove s t) : SameRecord s.pipe t.pipe := by
  cases h with
  | drive hlabel hpipe =>
      refine sameRecord_of_traceless ?_ hpipe
      obtain rfl | rfl | rfl := hlabel <;> rfl
  | _ => exact ⟨rfl, rfl⟩

theorem move_record {s t : Live.State} {label : Live.Label} (h : Live.Move s label t)
    (hprocess : ∀ input, label ≠ .process input) (hwork : ∀ e input, label ≠ .work e input) :
    SameRecord s.pipe t.pipe := by
  cases h with
  | enter _ _ _ _ _ => exact ⟨rfl, rfl⟩
  | main hmain => exact mainMove_record hmain
  | process input _ => exact absurd rfl (hprocess input)
  | work e input _ => exact absurd rfl (hwork e input)
  | apply _ _ _ _ _ _ => exact ⟨rfl, rfl⟩
  | report _ _ => exact ⟨rfl, rfl⟩
  | client k hclient =>
      have hrecord := clientStep_record hclient
      exact ⟨hrecord.taskCounter, hrecord.database⟩

section Round

variable {s : State} (now : String)
  (hrecord : s.recording.record = .idle ∨ ∃ u result, s.recording.record = .scheduling u result)
include hrecord

theorem roundStatement_create {i : Nat} (hpc : s.recording.live.processing = .create i) :
    s.roundStatement now = some (.saveTask (taskRow s.world (deviceAt s.devices i) now)) := by
  unfold State.roundStatement
  obtain hrecord | ⟨u, result, hrecord⟩ := hrecord <;> rw [hrecord, hpc]

theorem roundStatement_persist {i : Nat} (hpc : s.recording.live.processing = .allocating i)
    {call : AllocCall} {e : EdgeId} {score : ℚ}
    (hproducer : s.recording.live.pipe.producer = .allocating call (.persist e score)) :
    s.roundStatement now =
      some (.updateTaskStatus (generateTaskId call.task) (ordinal .queued)) := by
  unfold State.roundStatement
  obtain hrecord | ⟨u, result, hrecord⟩ := hrecord <;> rw [hrecord, hpc, hproducer]

theorem roundStatement_elsewhere (hpc : ∀ i, s.recording.live.processing ≠ .create i)
    (hproducer : ∀ i, s.recording.live.processing = .allocating i → ∀ call e score,
      s.recording.live.pipe.producer ≠ .allocating call (.persist e score)) :
    s.roundStatement now = none := by
  unfold State.roundStatement
  obtain hrecord | ⟨u, result, hrecord⟩ := hrecord
  all_goals
    rw [hrecord]
    dsimp only
    split
    · exact absurd ‹_› (hpc _)
    · exact absurd ‹_› (hproducer _ ‹_› _ _ _)
    · rfl

end Round

section Process

variable {s t : State} {label : Label} (hstore : t.store = s.written label) (h : Parented s)
  {input : ProcessInput} (hlabel : label.live = .process input) (hsnapshot : s.snapshot = .idle)
include hlabel hsnapshot

theorem issues_eq_roundStatement : s.issues label = s.roundStatement label.now := by
  unfold State.issues
  rw [hlabel, hsnapshot]

include hstore h

theorem posts_process
    (hrecord : s.recording.record = .idle ∨ ∃ u result, s.recording.record = .scheduling u result)
    {live : Live.State} (hmove : ProcessMove input s.recording.live live)
    (hjournal : t.journal =
      ⟨live.pipe.world.taskCounter, live.pipe.world.database, s.recording.allocations⟩) :
    Posts s t := by
  have hissues := issues_eq_roundStatement hlabel hsnapshot
  have hnone (hpc : ∀ i, s.recording.live.processing ≠ .create i)
      (hproducer : ∀ i, s.recording.live.processing = .allocating i → ∀ call e score,
        s.recording.live.pipe.producer ≠ .allocating call (.persist e score))
      (hsame : SameRecord s.recording.live.pipe live.pipe) : Posts s t := by
    rw [hsame.taskCounter, hsame.database] at hjournal
    have helsewhere := roundStatement_elsewhere label.now hrecord hpc hproducer
    exact posts_of_none hstore (hissues.trans helsewhere) hjournal
  cases hmove with
  | @create i hpc pipe hpipe =>
      cases Pipeline.step_move hpipe with
      | produce _ _ _ =>
          exact posts_of_some hstore h (hissues.trans (roundStatement_create _ hrecord hpc))
            (.create (deviceAt_mem h.devices i) _) hjournal
      | stay _ hlabel => simp at hlabel
  | @allocate i hpc pipe hpipe =>
      have hcreate (j : Nat) : s.recording.live.processing ≠ .create j := by
        rw [hpc]
        rintro ⟨⟩
      cases Pipeline.step_move hpipe with
      | @alloc _ call pc pc' w hproducer hstep =>
          have hother (hne : ∀ e score, pc ≠ .persist e score)
              (hsame : w.taskCounter = s.world.taskCounter ∧ w.database = s.world.database) :
              Posts s t := by
            refine hnone hcreate (fun _ _ call e score heq => ?_) ⟨hsame.1, hsame.2⟩
            cases hproducer.symm.trans heq
            exact hne e score rfl
          cases allocStep_move hstep with
          | persist e score reason =>
              exact posts_of_some hstore h
                (hissues.trans (roundStatement_persist _ hrecord hpc hproducer))
                (.status _ .queued) hjournal
          | _ => exact hother (by rintro _ _ ⟨⟩) ⟨rfl, rfl⟩
      | schedule _ hproducer hstep =>
          refine hnone hcreate (fun _ _ call e score heq => ?_)
            ⟨scheduleStep_taskCounter hstep, scheduleStep_database hstep⟩
          cases hproducer.symm.trans heq
      | stay _ hlabel => simp at hlabel
      | _ => exact hnone hcreate (by simp_all) ⟨rfl, rfl⟩
  | choose hpc hstep =>
      have hsame := chooseStep_record hstep
      exact hnone (by simp_all) (by simp_all) ⟨hsame.taskCounter, hsame.database⟩
  | next hpc hold hnew =>
      refine hnone ?_ ?_ ⟨rfl, rfl⟩
      · obtain ⟨i, rfl | rfl⟩ := hold <;> rw [hpc] <;> rintro _ ⟨⟩
      · obtain ⟨i, rfl | rfl⟩ := hold <;> rw [hpc] <;> rintro _ ⟨⟩
  | allocated hpc hidle =>
      refine hnone (by simp_all) (fun _ _ call e score heq => ?_) ⟨rfl, rfl⟩
      cases hidle.symm.trans heq
  | _ => exact hnone (by simp_all) (by simp_all) ⟨rfl, rfl⟩

theorem posts_allocation {row : AllocationRow} {statement : Statement}
    (hround : s.roundStatement label.now = some statement)
    (hputs : Puts s (.allocation row) statement)
    (hjournal : t.journal = s.journal.enter (.allocation row)) : Posts s t :=
  posts_of_some hstore h ((issues_eq_roundStatement hlabel hsnapshot).trans hround) hputs hjournal

end Process

theorem posts_follow {s t : State} (h : Parented s) {label : Label}
    (hsnapshot : ∀ input, label.live = .process input → s.snapshot = .idle)
    (hstep : follow s label = some t) : Posts s t := by
  obtain ⟨recording, hrecording, rfl⟩ := Option.map_eq_some_iff.mp hstep
  cases hlabel : label.live with
  | process input =>
      have hidle := hsnapshot input hlabel
      rw [hlabel] at hrecording
      have hround := issues_eq_roundStatement hlabel hidle
      cases Recording.step_move hrecording with
      | other hother _ => exact absurd rfl (hother input)
      | process input hrecord hmove =>
          exact posts_process rfl h hlabel hidle hrecord hmove rfl
      | read input hrecord =>
          refine posts_of_none rfl (hround.trans ?_) rfl
          unfold State.roundStatement
          rw [hrecord]
      | @write _ u result strategy hrecord =>
          have hround : s.roundStatement label.now = some (saveAllocation (generateTaskId u)
              result.edgeId result.score (allocationToString strategy) label.now) := by
            unfold State.roundStatement
            rw [hrecord]
          exact posts_allocation rfl h hlabel hidle hround (.allocated ..) rfl
      | @writeFailure _ u result hrecord =>
          have hround : s.roundStatement label.now =
              some (saveAllocationFailure (generateTaskId u) result.reason label.now) := by
            unfold State.roundStatement
            rw [hrecord]
          exact posts_allocation rfl h hlabel hidle hround (.failed ..) rfl
  | work e input =>
      rw [hlabel] at hrecording
      cases Recording.step_move hrecording with
      | other _ hmove =>
          cases hmove with
          | enter _ _ _ henter _ => obtain henter | henter := henter <;> cases henter
          | work _ _ hpipe =>
              cases Pipeline.step_move hpipe with
              | work _ _ hwork => exact posts_work rfl h hlabel hwork rfl
              | stay _ hlabel => simp at hlabel
  | _ =>
      have hissues : s.issues label = none := by
        unfold State.issues
        rw [hlabel]
      rw [hlabel] at hrecording
      cases Recording.step_move hrecording with
      | other _ hmove =>
          have hsame := move_record hmove (by rintro _ ⟨⟩) (by rintro _ _ ⟨⟩)
          exact posts_of_none rfl hissues (journal_congr hsame rfl)

theorem posts_step {s t : State} (h : Parented s) {label : Label} (hstep : step s label = some t) :
    Posts s t := by
  unfold Referential.step at hstep
  split at hstep
  · rename_i input hlabel
    split at hstep
    · rename_i pc hsnapshot
      cases hstep
      exact posts_snapshot h hlabel hsnapshot
    · rename_i hnone
      refine posts_follow h (fun _ _ => ?_) hstep
      unfold snapshotStep at hnone
      split at hnone <;> first | assumption | cases hnone
  · rename_i hother
    exact posts_follow h (fun input hlabel => absurd hlabel (hother input)) hstep

def State.Mirrored (s : State) : Prop := Mirrors s.devices s.world.workload s.journal s.store

theorem Posts.mirrored {s t : State} (h : s.Mirrored) (hdevices : t.devices = s.devices)
    (hworkload : t.world.workload = s.world.workload) (hposts : Posts s t) : t.Mirrored := by
  unfold State.Mirrored
  rw [hdevices, hworkload]
  cases hposts with
  | nothing hjournal htasks hallocations hexecution =>
      rw [hjournal]
      exact ⟨htasks ▸ h.tasks, hallocations ▸ h.taskAllocations, hexecution ▸ h.taskExecution⟩
  | entry hputs hjournal hstore =>
      rw [hjournal, hstore]
      exact Mirrors.puts h hputs

theorem step_recording {s t : State} {label : Label} (hstep : step s label = some t) :
    t.devices = s.devices ∧ (t.recording = s.recording ∨
      Recording.step s.recording label.live = some t.recording) := by
  have hfollow (hfollow : follow s label = some t) : t.devices = s.devices ∧
      (t.recording = s.recording ∨ Recording.step s.recording label.live = some t.recording) := by
    obtain ⟨recording, hrecording, rfl⟩ := Option.map_eq_some_iff.mp hfollow
    exact ⟨rfl, Or.inr hrecording⟩
  unfold Referential.step at hstep
  split at hstep
  · split at hstep
    · cases hstep
      exact ⟨rfl, Or.inl rfl⟩
    · exact hfollow hstep
  · exact hfollow hstep

theorem recording_run {guard : State → Label → Prop} {s t : State} (hrun : machine.Run guard s t) :
    Recording.machine.Run Machine.free s.recording t.recording :=
  hrun.map State.recording fun _ hstep => by
    obtain ⟨-, hsame | hrecording⟩ := step_recording hstep
    · rw [hsame]
      exact .refl _
    · exact .tail (.refl _) trivial hrecording

theorem workload_step {s t : State} {label : Label} (hstep : step s label = some t) :
    t.world.workload = s.world.workload := by
  obtain ⟨-, hsame | hrecording⟩ := step_recording hstep
  · unfold State.world
    rw [hsame]
  · obtain hlive | hlive := live_step hrecording
    · unfold State.world
      rw [hlive]
    · have hkeep {u v : Pipeline.State} {label : Pipeline.Label}
          (hu : u.world.workload = s.world.workload) (_ : Pipeline.Steady u label)
          (hpipe : Pipeline.machine.step u label = some v) :
          v.world.workload = s.world.workload :=
        (Pipeline.step_move hpipe).frame.workload.trans hu
      exact (Live.step_move hlive).run.preserves hkeep rfl

/-- What every state of a run keeps: the tables hold the record of the run, and the
record has one row for each round and for each execution. -/
structure Told (s : State) : Prop where
  parented : Parented s
  mirrored : s.Mirrored
  rounded : Rounded s.recording
  chronicled : Pipeline.Chronicled s.recording.live.pipe

theorem Told.initial {s : State} (h : Initial s) : s.Mirrored ∧ Recording.Initial s.recording ∧
    s.world.database.executions = [] := by
  obtain ⟨G, environment, config, before, runtime, workload, hopened, hruntime, rfl⟩ := h
  obtain ⟨hedges, hinstalled⟩ := installed_of_some hruntime hopened
  obtain ⟨htasks, hallocations, hexecution, -⟩ := hinstalled.empty
  refine ⟨⟨?_, ?_, ?_⟩, ⟨hinstalled.live hedges workload, rfl, rfl, rfl, rfl⟩, rfl⟩
  · show List.Forall₂ _ [] (initializeRuntime environment config before).store.tasks
    rw [htasks]
    exact .nil
  · show List.Forall₂ _ [] (initializeRuntime environment config before).store.taskAllocations
    rw [hallocations]
    exact .nil
  · show List.Forall₂ _ [] (initializeRuntime environment config before).store.taskExecution
    rw [hexecution]
    exact .nil

theorem live_reachable {s : State} (hs : machine.Reachable Machine.free s) :
    Live.machine.Reachable Machine.free s.recording.live := by
  obtain ⟨start, hstart, hrun⟩ := hs
  exact ⟨start.recording.live, (Told.initial hstart).2.1.live, live_run (recording_run hrun)⟩

theorem told_of_reachable {s : State} (hs : machine.Reachable Machine.free s) : Told s := by
  obtain ⟨start, hstart, hrun⟩ := hs
  obtain ⟨hmirrored, hrecording, hexecutions⟩ := Told.initial hstart
  have hkeep {u v : State} {label : Label}
      (hu : Parented u ∧ u.Mirrored ∧ Rounded u.recording) (_ : Machine.free u label)
      (hstep : machine.step u label = some v) : Parented v ∧ v.Mirrored ∧ Rounded v.recording := by
    obtain ⟨hparented, hmirrored, hrounded⟩ := hu
    obtain ⟨hdevices, hnext⟩ := step_recording hstep
    refine ⟨hparented.step hstep,
      (posts_step hparented hstep).mirrored hmirrored hdevices (workload_step hstep), ?_⟩
    obtain hsame | hrecording := hnext
    · rw [hsame]
      exact hrounded
    · exact hrounded.step hparented.honest hrecording
  obtain ⟨hparented, hmirrored, hrounded⟩ :=
    hrun.preserves hkeep ⟨.initial hstart, hmirrored, .initial hrecording⟩
  have hpipe := (pipe_run (live_run (recording_run hrun))).mono fun _ _ _ => trivial
  exact ⟨hparented, hmirrored, hrounded,
    (Pipeline.chronicled_of_run hrecording.live.pipe hexecutions hpipe).2.2⟩

/-- In every reachable state `tasks` has one row for each created task, in the order of
creation and with the last status put on record; `task_allocations` one for each round
that is over, which names the edge if a reservation was made; and `task_execution` one
for each execution that has returned, with the verdict that the status tells. -/
theorem tables_mirror_run {s : State} (hs : machine.Reachable Machine.free s) :
    s.Mirrored ∧
      s.recording.allocations.map AllocationRow.task = List.range s.recording.bound ∧
      s.recording.live.pipe.log.granted =
        reservations s.recording.allocations ++ s.recording.unrecorded ∧
      (s.world.database.executions.map ExecutionRow.task).Nodup ∧
      (∀ t, t ∈ s.world.database.executions.map ExecutionRow.task ↔
        Pipeline.ExecutionReturned s.recording.live.pipe t) ∧
      ∀ row ∈ s.world.database.executions,
        s.world.database.taskStatus row.task = some (Pipeline.verdictStatus row.success) := by
  have htold := told_of_reachable hs
  exact ⟨htold.mirrored, htold.rounded.rows, htold.rounded.granted, htold.chronicled.nodup,
    htold.chronicled.returned, htold.chronicled.verdict⟩

def oneRound : List Label := plain (startUp ++ processSteps 26 ++ workSteps 22)

theorem tables_mirror_run_round :
    let s := machine.final smallStart oneRound
    s.Mirrored ∧
      s.recording.allocations.map AllocationRow.task = List.range s.recording.bound ∧
      s.recording.live.pipe.log.granted =
        reservations s.recording.allocations ++ s.recording.unrecorded ∧
      (s.world.database.executions.map ExecutionRow.task).Nodup ∧
      (∀ t, t ∈ s.world.database.executions.map ExecutionRow.task ↔
        Pipeline.ExecutionReturned s.recording.live.pipe t) ∧
      ∀ row ∈ s.world.database.executions,
        s.world.database.taskStatus row.task = some (Pipeline.verdictStatus row.success) :=
  tables_mirror_run (Machine.reachable_final smallStart_initial (by decide +kernel))

end EdgeAllocator.Referential
