import EdgeAllocator.Schema

/-! The task lifecycle view. It filters the rows of one task out of the history
query, which has a limit of its own. -/
namespace EdgeAllocator.History

open Schema

/-- What `Task::toJson` shows of a task that `getTask` has read. -/
structure TaskJson where
  taskId : String
  deviceId : String
  sensorType : String
  cpuPercent : ℚ
  ramMb : ℚ
  bandwidthMbps : ℚ
  deadlineMs : Int
  priority : Int
  status : Int
  assignedEdgeId : String := ""
  deriving DecidableEq

structure ActiveJson extends TaskJson where
  elapsedMs : Int
  remainingMs : Int
  deriving DecidableEq

structure AllocationJson where
  taskId : String
  edgeId : String
  score : ℚ
  success : Bool
  reason : String
  allocatedAt : String
  strategy : String
  deriving DecidableEq

/-- The answer of `taskLifecycle`; fields that are not set are `none`. -/
structure Lifecycle where
  found : Bool
  task : Option TaskJson := none
  allocations : Option (List AllocationJson) := none
  active : Option ActiveJson := none
  deriving DecidableEq

def toJson (row : Schema.Task) : TaskJson where
  taskId := row.taskId
  deviceId := row.deviceId
  sensorType := row.sensorType
  cpuPercent := row.cpuPercent
  ramMb := row.ramMb
  bandwidthMbps := row.bandwidthMbps
  deadlineMs := row.deadlineMs
  priority := row.priority
  status := row.status

def entry (row : TaskAllocation) : AllocationJson where
  taskId := row.taskId
  edgeId := row.edgeId.getD ""
  score := row.score.getD 0
  success := row.success ≠ 0
  reason := row.reason.getD ""
  allocatedAt := row.allocatedAt
  strategy := row.strategy.getD ""

def getTask (s : Store) (taskId : String) : Option TaskJson :=
  (s.tasks.find? fun row => row.taskId = taskId).map toJson

def historyLimit : Nat := 1000

/-- The rows that `ORDER BY id DESC LIMIT 1000` selects. -/
def latest (rows : List TaskAllocation) : List TaskAllocation := rows.reverse.take historyLimit

def older (rows : List TaskAllocation) : List TaskAllocation := rows.reverse.drop historyLimit

def getTaskAllocationHistory (s : Store) : List AllocationJson :=
  (latest s.taskAllocations).map entry

/-- `active` is what `getActiveTasks` returns, or nothing without an executor. -/
def taskLifecycle (s : Store) (active : List ActiveJson) (taskId : String) : Lifecycle :=
  match getTask s taskId with
  | none => { found := false }
  | some task =>
      { found := true
        task := some task
        allocations := some
          ((getTaskAllocationHistory s).filter fun allocation => allocation.taskId = taskId)
        active := (active.filter fun item => item.taskId = taskId).getLast? }

/-- All rows of the task, newest first. -/
def rowsOf (s : Store) (taskId : String) : List TaskAllocation :=
  (s.taskAllocations.filter fun row => row.taskId = taskId).reverse

def Complete (s : Store) (active : List ActiveJson) (taskId : String) : Prop :=
  (taskLifecycle s active taskId).found = true ∧
    (taskLifecycle s active taskId).allocations = some ((rowsOf s taskId).map entry)

section View

variable {s : Store} {active : List ActiveJson} {taskId : String}

theorem getTask_isSome_iff :
    (getTask s taskId).isSome ↔ taskId ∈ s.tasks.map Schema.Task.taskId := by
  simp [getTask, List.find?_isSome]

theorem taskLifecycle_found (active : List ActiveJson)
    (h : taskId ∈ s.tasks.map Schema.Task.taskId) :
    (taskLifecycle s active taskId).found = true ∧
      (taskLifecycle s active taskId).allocations =
        some (((latest s.taskAllocations).filter fun row => row.taskId = taskId).map entry) := by
  obtain ⟨task, htask⟩ := Option.isSome_iff_exists.mp (getTask_isSome_iff.mpr h)
  unfold taskLifecycle
  rw [htask]
  refine ⟨rfl, ?_⟩
  rw [getTaskAllocationHistory, List.filter_map]
  rfl

theorem rowsOf_split :
    rowsOf s taskId = ((latest s.taskAllocations).filter fun row => row.taskId = taskId) ++
      (older s.taskAllocations).filter fun row => row.taskId = taskId := by
  rw [rowsOf, ← List.filter_reverse, ← List.filter_append, latest, older, List.take_append_drop]

theorem latest_eq_iff :
    ((latest s.taskAllocations).filter fun row => row.taskId = taskId).map entry =
        (rowsOf s taskId).map entry ↔
      ∀ row ∈ older s.taskAllocations, row.taskId ≠ taskId := by
  rw [rowsOf_split, List.map_append, List.self_eq_append_right, List.map_eq_nil_iff,
    List.filter_eq_nil_iff]
  simp

/-- The view of a stored task is complete if and only if none of its rows is older
than the latest thousand of the table. -/
theorem taskLifecycle_complete_iff (s : Store) (active : List ActiveJson) (taskId : String)
    (h : taskId ∈ s.tasks.map Schema.Task.taskId) :
    Complete s active taskId ↔ ∀ row ∈ older s.taskAllocations, row.taskId ≠ taskId := by
  obtain ⟨hfound, hallocations⟩ := taskLifecycle_found active h
  rw [Complete, hallocations, Option.some_inj, latest_eq_iff]
  exact and_iff_right hfound

end View

def afterRun (n : Nat) : Store where
  devices := [⟨"DEV0001", "ultrasonic"⟩]
  edgeNodes := [⟨"E01", 100, 8192, 100, 10⟩]
  tasks := (List.range n).map fun t =>
    ⟨generateTaskId t, "DEV0001", "ultrasonic", 10, 50, 1, 100, 2, 3, ""⟩
  taskAllocations := (List.range n).map fun t =>
    ⟨generateTaskId t, some "E01", some 1, 1, some "least_load", some "allocated", ""⟩

theorem older_afterRun (n : Nat) :
    older (afterRun (n + historyLimit)).taskAllocations =
      (afterRun n).taskAllocations.reverse := by
  unfold older afterRun
  rw [← List.map_reverse, ← List.map_drop, ← List.map_reverse, List.range_add,
    List.reverse_append, List.drop_left' (by simp)]

theorem taskLifecycle_complete_iff_afterRun :
    Complete (afterRun 2) [] "T000001" ↔
      ∀ row ∈ older (afterRun 2).taskAllocations, row.taskId ≠ "T000001" :=
  taskLifecycle_complete_iff (afterRun 2) [] "T000001" (by decide)

/-- After one task more than the limit the row of the first has gone. -/
theorem taskLifecycle_loses_row :
    generateTaskId 0 ∈ (afterRun (1 + historyLimit)).tasks.map Schema.Task.taskId ∧
      ¬ Complete (afterRun (1 + historyLimit)) [] (generateTaskId 0) := by
  have hstored :
      generateTaskId 0 ∈ (afterRun (1 + historyLimit)).tasks.map Schema.Task.taskId := by
    simp only [afterRun, List.map_map, List.mem_map]
    exact ⟨0, List.mem_range.mpr (by decide), rfl⟩
  refine ⟨hstored, fun hcomplete => ?_⟩
  have hshown := hcomplete.2
  rw [(taskLifecycle_found _ hstored).2, Option.some_inj, latest_eq_iff, older_afterRun] at hshown
  exact absurd hshown (by decide)

end EdgeAllocator.History
