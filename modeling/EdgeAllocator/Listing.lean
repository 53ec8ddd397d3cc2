import EdgeAllocator.Journal

/-! The listing of the tasks, which joins the three tables: what it shows of a task is
what the run has put on record about it. -/
namespace EdgeAllocator.Referential

open Foundation Schema Recording Live Pipeline
open Identifiers (generateTaskId_injective)

structure TaskItem where
  taskId : String
  deviceId : String
  sensorType : String
  cpuPercent : ℚ
  ramMb : ℚ
  bandwidthMbps : ℚ
  deadlineMs : Int
  priority : Int
  status : Int
  createdAt : String
  edgeId : String
  allocationStrategy : String
  executedAt : String

/-- `LIMIT ?` with a `std::size_t` that is cast to a signed number. A negative limit is none. -/
def limited {α : Type} (limit : Nat) (rows : List α) : List α :=
  if limit < 2 ^ 63 then rows.take limit else rows

def latestAllocation (s : Store) (taskId : String) : Option TaskAllocation :=
  (s.taskAllocations.filter fun row => row.taskId = taskId ∧ row.success = 1).getLast?

def latestExecution (s : Store) (taskId : String) : Option TaskExecution :=
  (s.taskExecution.filter fun row => row.taskId = taskId).getLast?

def taskItem (s : Store) (row : Schema.Task) : TaskItem where
  taskId := row.taskId
  deviceId := row.deviceId
  sensorType := row.sensorType
  cpuPercent := row.cpuPercent
  ramMb := row.ramMb
  bandwidthMbps := row.bandwidthMbps
  deadlineMs := row.deadlineMs
  priority := row.priority
  status := row.status
  createdAt := row.createdAt
  edgeId := ((latestAllocation s row.taskId).bind TaskAllocation.edgeId).getD ""
  allocationStrategy := ((latestAllocation s row.taskId).bind TaskAllocation.strategy).getD ""
  executedAt := ((latestExecution s row.taskId).map TaskExecution.executedAt).getD ""

def getTasksJson (s : Store) (limit : Nat) : List TaskItem :=
  limited limit (s.tasks.reverse.map (taskItem s))

/-- What an item says of its task is what the run knows: the requirements, the last
status on record, the edge and the strategy of a reservation that has its row, and the
time of the execution that has returned. -/
structure Shows (s : State) (t : TaskRef) (item : TaskItem) : Prop where
  taskId : item.taskId = generateTaskId t
  device : ⟨item.deviceId, item.sensorType⟩ ∈ s.devices
  demand : amounts item.cpuPercent item.ramMb item.bandwidthMbps = s.world.demand t
  deadlineMs : item.deadlineMs = (s.world.workload t).deadlineMs
  priority : item.priority = (s.world.workload t).priority.rank
  status : ∃ status, s.world.database.taskStatus t = some status ∧ item.status = ordinal status
  reserved : ∀ e, (t, e) ∈ s.recording.live.pipe.log.granted → (t, e) ∉ s.recording.unrecorded →
    item.edgeId = e ∧ ∃ strategy, item.allocationStrategy = allocationToString strategy ∧
      (t, strategy) ∈ s.recording.consulted ∧
      ∀ other, (t, other) ∈ s.recording.consulted → other = strategy
  unreserved : (∀ e, (t, e) ∈ s.recording.live.pipe.log.granted → (t, e) ∈ s.recording.unrecorded) →
    item.edgeId = "" ∧ item.allocationStrategy = ""
  executed : ExecutionReturned s.recording.live.pipe t →
    ∃ row ∈ s.store.taskExecution, row.taskId = generateTaskId t ∧ item.executedAt = row.executedAt
  unexecuted : ¬ ExecutionReturned s.recording.live.pipe t → item.executedAt = ""

theorem forall₂_singleton {α β : Type*} {r : α → β → Prop} {a : α} {bs : List β}
    (h : List.Forall₂ r [a] bs) : ∃ b, r a b ∧ bs = [b] := by
  cases h with
  | cons hab hrest =>
      cases hrest
      exact ⟨_, hab, rfl⟩

namespace Told

variable {s : State} (h : Told s)
include h

theorem tasks_nodup : (s.recording.allocations.map AllocationRow.task).Nodup := by
  rw [h.rounded.rows]
  exact List.nodup_range

theorem allocationRows (t : TaskRef) : List.Forall₂ Allocates
    (s.recording.allocations.filter fun entry => entry.task = t ∧ entry.success)
    (s.store.taskAllocations.filter fun row => row.taskId = generateTaskId t ∧ row.success = 1) := by
  refine List.rel_filter (fun {entry row} hrow => ?_) h.mirrored.taskAllocations
  rw [hrow]
  simp only [decide_eq_true_iff, generateTaskId_injective.eq_iff]
  cases entry.success <;> simp

theorem latestAllocation_of_success {entry : AllocationRow}
    (hentry : entry ∈ s.recording.allocations) (hsuccess : entry.success = true) :
    ∃ row, Allocates entry row ∧
      latestAllocation s.store (generateTaskId entry.task) = some row := by
  have hrows := h.allocationRows entry.task
  have hfilter : s.recording.allocations.filter
      (fun other => other.task = entry.task ∧ other.success) = [entry] := by
    have hsplit : s.recording.allocations.filter
        (fun other => other.task = entry.task ∧ other.success) =
          (s.recording.allocations.filter fun other => other.task = entry.task).filter
            AllocationRow.success := by
      rw [List.filter_filter]
      apply List.filter_congr
      intro other _
      simp [and_comm]
    rw [hsplit, filter_key_of_mem h.tasks_nodup hentry, List.filter_cons_of_pos hsuccess,
      List.filter_nil]
  rw [hfilter] at hrows
  obtain ⟨row, hrow, hrest⟩ := forall₂_singleton hrows
  exact ⟨row, hrow, by rw [latestAllocation, hrest]; rfl⟩

theorem latestAllocation_of_none {t : TaskRef}
    (hnone : ∀ entry ∈ s.recording.allocations, entry.task = t → entry.success = false) :
    latestAllocation s.store (generateTaskId t) = none := by
  have hrows := h.allocationRows t
  rw [List.filter_eq_nil_iff.mpr] at hrows
  · rw [latestAllocation, List.forall₂_nil_left_iff.mp hrows]
    rfl
  · intro entry hentry
    by_cases htask : entry.task = t
    · simp [hnone entry hentry htask]
    · simp [htask]

theorem row_of_granted {t : TaskRef} {e : EdgeId}
    (hgranted : (t, e) ∈ s.recording.live.pipe.log.granted)
    (hrecorded : (t, e) ∉ s.recording.unrecorded) :
    ∃ entry ∈ s.recording.allocations, entry.task = t ∧ entry.edgeId = some e ∧
      entry.success = true := by
  rw [h.rounded.granted, List.mem_append] at hgranted
  obtain ⟨entry, hentry, hedge⟩ := List.mem_filterMap.mp (hgranted.resolve_right hrecorded)
  obtain ⟨e', he, heq⟩ := Option.map_eq_some_iff.mp hedge
  cases heq
  refine ⟨entry, hentry, rfl, he, ?_⟩
  rw [h.rounded.edges entry hentry, he]
  rfl

theorem granted_of_row {entry : AllocationRow} (hentry : entry ∈ s.recording.allocations)
    (hsuccess : entry.success = true) :
    ∃ e, (entry.task, e) ∈ s.recording.live.pipe.log.granted ∧
      (entry.task, e) ∉ s.recording.unrecorded := by
  rw [h.rounded.edges entry hentry] at hsuccess
  obtain ⟨e, he⟩ := Option.isSome_iff_exists.mp hsuccess
  have hmem : (entry.task, e) ∈ reservations s.recording.allocations :=
    List.mem_filterMap.mpr ⟨entry, hentry, by rw [he]; rfl⟩
  have hnodup := h.parented.honest.sound.fresh.nodup
  rw [h.rounded.granted, List.map_append] at hnodup
  refine ⟨e, ?_, fun hunrecorded => ?_⟩
  · rw [h.rounded.granted]
    exact List.mem_append_left _ hmem
  · exact List.disjoint_of_nodup_append hnodup (List.mem_map_of_mem hmem)
      (List.mem_map_of_mem hunrecorded)

theorem executionRows (t : TaskRef) : List.Forall₂ Executes
    (s.world.database.executions.filter fun entry => entry.task = t)
    (s.store.taskExecution.filter fun row => row.taskId = generateTaskId t) := by
  refine List.rel_filter (fun {entry row} hrow => ?_) h.mirrored.taskExecution
  rw [hrow]
  simp only [decide_eq_true_iff, generateTaskId_injective.eq_iff]

theorem latestExecution_of_returned {t : TaskRef}
    (hreturned : ExecutionReturned s.recording.live.pipe t) :
    ∃ row ∈ s.store.taskExecution, row.taskId = generateTaskId t ∧
      latestExecution s.store (generateTaskId t) = some row := by
  obtain ⟨entry, hentry, rfl⟩ := List.mem_map.mp ((h.chronicled.returned t).mpr hreturned)
  have hfilter := filter_key_of_mem h.chronicled.nodup hentry
  have hrows : List.Forall₂ Executes [entry] _ := hfilter ▸ h.executionRows entry.task
  obtain ⟨row, hrow, hrest⟩ := forall₂_singleton hrows
  have hmem : row ∈ s.store.taskExecution.filter fun row => row.taskId = generateTaskId entry.task := by
    rw [hrest]
    exact List.mem_singleton_self row
  refine ⟨row, List.mem_of_mem_filter hmem, by rw [hrow], ?_⟩
  rw [latestExecution, hrest]
  rfl

theorem latestExecution_of_not_returned {t : TaskRef}
    (hreturned : ¬ ExecutionReturned s.recording.live.pipe t) :
    latestExecution s.store (generateTaskId t) = none := by
  have hfilter := filter_key_of_not_mem fun hmem => hreturned ((h.chronicled.returned t).mp hmem)
  have hrows : List.Forall₂ Executes [] _ := hfilter ▸ h.executionRows t
  rw [latestExecution, List.forall₂_nil_left_iff.mp hrows]
  rfl

theorem shows {t : TaskRef} {row : Schema.Task}
    (hrow : Describes s.devices s.world.workload s.world.database t row) :
    Shows s t (taskItem s.store row) where
  taskId := hrow.taskId
  device := hrow.device
  demand := hrow.demand
  deadlineMs := hrow.deadlineMs
  priority := hrow.priority
  status := hrow.status
  reserved := by
    intro e hgranted hrecorded
    obtain ⟨entry, hentry, rfl, hedge, hsuccess⟩ := h.row_of_granted hgranted hrecorded
    obtain ⟨row', hrow', hlatest⟩ := h.latestAllocation_of_success hentry hsuccess
    obtain ⟨-, e', strategy, -, hname, -, -, hmem, hall⟩ :=
      h.parented.honest.booked entry hentry hsuccess
    simp only [taskItem, hrow.taskId, hlatest, Option.bind_some]
    rw [hrow', hedge, hname]
    exact ⟨rfl, strategy, rfl, hmem, hall⟩
  unreserved := by
    intro hnone
    have hlatest := h.latestAllocation_of_none (t := t) fun entry hentry htask => by
      by_contra hsuccess
      rw [Bool.not_eq_false] at hsuccess
      obtain ⟨e, hgranted, hrecorded⟩ := h.granted_of_row hentry hsuccess
      rw [htask] at hgranted hrecorded
      exact hrecorded (hnone e hgranted)
    simp only [taskItem, hrow.taskId, hlatest]
    exact ⟨rfl, rfl⟩
  executed := by
    intro hreturned
    obtain ⟨row', hmem, hid, hlatest⟩ := h.latestExecution_of_returned hreturned
    refine ⟨row', hmem, hid, ?_⟩
    simp only [taskItem, hrow.taskId, hlatest]
    rfl
  unexecuted := by
    intro hreturned
    simp only [taskItem, hrow.taskId, h.latestExecution_of_not_returned hreturned]
    rfl

end Told

theorem forall₂_limited {α β : Type} {r : α → β → Prop} {as : List α} {bs : List β}
    (h : List.Forall₂ r as bs) (limit : Nat) :
    List.Forall₂ r (limited limit as) (limited limit bs) := by
  unfold limited
  split
  · exact List.forall₂_take limit h
  · exact h

/-- In every reachable state the listing has an item for each of the tasks that were
created last, the newest first, and every item shows what is known of its task. -/
theorem getTasksJson_shows {s : State} (hs : machine.Reachable Machine.free s) (limit : Nat) :
    List.Forall₂ (Shows s) (limited limit (List.range s.world.taskCounter).reverse)
      (getTasksJson s.store limit) := by
  have htold := told_of_reachable hs
  apply forall₂_limited
  refine List.forall₂_map_right_iff.mpr (List.forall₂_reverse_iff.mpr ?_)
  exact htold.mirrored.tasks.imp fun _ _ hrow => htold.shows hrow

theorem getTasksJson_shows_round :
    let s := machine.final smallStart oneRound
    List.Forall₂ (Shows s) (limited 500 (List.range s.world.taskCounter).reverse)
      (getTasksJson s.store 500) :=
  getTasksJson_shows (Machine.reachable_final smallStart_initial (by decide +kernel)) 500

end EdgeAllocator.Referential
