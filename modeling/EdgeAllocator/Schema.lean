import EdgeAllocator.Task
import EdgeAllocator.Foundation.Relational

/-! The tables that `createSchemas` sets up, and the statements of
`DatabaseManager` on them with their foreign keys enforced. Texts are without
NUL, as `c_str` binds them; the rows of a table are in the order of their ids. -/
namespace EdgeAllocator.Schema

open Foundation

structure Device where
  deviceId : String
  deviceType : String
  deriving DecidableEq

structure Profile where
  sensorType : String
  cpuPercent : ℚ
  ramMb : ℚ
  bandwidthMbps : ℚ
  deadlineMs : Int
  priority : Int
  deriving DecidableEq

structure EdgeNode where
  edgeId : String
  cpuCapacity : ℚ
  ramCapacityMb : ℚ
  bandwidthCapacityMbps : ℚ
  latencyMs : Int
  deriving DecidableEq

structure Task where
  taskId : String
  deviceId : String
  sensorType : String
  cpuPercent : ℚ
  ramMb : ℚ
  bandwidthMbps : ℚ
  deadlineMs : Int
  priority : Int
  status : Int
  createdAt : String
  deriving DecidableEq

structure TaskAllocation where
  taskId : String
  edgeId : Option String
  score : Option ℚ
  success : Int
  strategy : Option String
  reason : Option String
  allocatedAt : String
  deriving DecidableEq

structure TaskExecution where
  taskId : String
  executionTimeMs : Int
  success : Int
  executedAt : String
  deriving DecidableEq

structure ResourceSample where
  edgeId : String
  cpuPercent : ℚ
  ramMb : ℚ
  bandwidthMbps : ℚ
  queueLength : Int
  recordedAt : String
  deriving DecidableEq

structure Store where
  devices : List Device := []
  taskProfiles : List Profile := []
  edgeNodes : List EdgeNode := []
  tasks : List Task := []
  taskAllocations : List TaskAllocation := []
  taskExecution : List TaskExecution := []
  resourceHistory : List ResourceSample := []
  deriving DecidableEq

/-- Every `FOREIGN KEY` holds. -/
structure Store.Consistent (s : Store) : Prop where
  tasks : Refers Task.deviceId s.tasks Device.deviceId s.devices
  taskAllocations : Refers TaskAllocation.taskId s.taskAllocations Task.taskId s.tasks
  taskExecution : Refers TaskExecution.taskId s.taskExecution Task.taskId s.tasks
  resourceHistory : Refers ResourceSample.edgeId s.resourceHistory EdgeNode.edgeId s.edgeNodes

inductive Statement where
  | saveDevice (row : Device)
  | saveTaskProfile (row : Profile)
  | saveEdgeNode (row : EdgeNode)
  | saveTask (row : Task)
  | updateTaskStatus (taskId : String) (status : Int)
  | insertAllocation (row : TaskAllocation)
  | insertExecution (row : TaskExecution)
  | insertSample (row : ResourceSample)
  | deleteExecutions
  | deleteAllocations
  | deleteSamples
  | deleteTasks
  | deleteEdgeNodes
  | deleteDevices
  deriving DecidableEq

def zeroFilled (width n : Nat) : String :=
  String.ofList (List.replicate (width - (Nat.repr n).length) '0') ++ Nat.repr n

def generateTaskId (t : TaskRef) : String := "T" ++ zeroFilled 6 (t + 1)

example : generateTaskId 0 = "T000001" := by decide

def saveAllocation (taskId edgeId : String) (score : ℚ) (strategy now : String) : Statement :=
  .insertAllocation ⟨taskId, some edgeId, some score, 1, some strategy, some "allocated", now⟩

def saveAllocationFailure (taskId reason now : String) : Statement :=
  .insertAllocation ⟨taskId, none, none, 0, none, some reason, now⟩

def saveTaskExecution (taskId : String) (executionTimeMs : Int) (successFlag : Bool)
    (now : String) : Statement :=
  .insertExecution ⟨taskId, executionTimeMs, if successFlag then 1 else 0, now⟩

def saveResourceSnapshot (edgeId : String) (usage : Amounts) (queueLength : Int)
    (now : String) : Statement :=
  .insertSample ⟨edgeId, usage .cpu, usage .ram, usage .bandwidth, queueLength, now⟩

namespace Statement

def effect (s : Store) : Statement → Store
  | .saveDevice row => { s with devices := replace Device.deviceId row s.devices }
  | .saveTaskProfile row => { s with taskProfiles := replace Profile.sensorType row s.taskProfiles }
  | .saveEdgeNode row => { s with edgeNodes := replace EdgeNode.edgeId row s.edgeNodes }
  | .saveTask row => { s with tasks := replace Task.taskId row s.tasks }
  | .updateTaskStatus taskId status => { s with tasks := s.tasks.map fun task =>
      if task.taskId = taskId then { task with status := status } else task }
  | .insertAllocation row => { s with taskAllocations := s.taskAllocations ++ [row] }
  | .insertExecution row => { s with taskExecution := s.taskExecution ++ [row] }
  | .insertSample row => { s with resourceHistory := s.resourceHistory ++ [row] }
  | .deleteExecutions => { s with taskExecution := [] }
  | .deleteAllocations => { s with taskAllocations := [] }
  | .deleteSamples => { s with resourceHistory := [] }
  | .deleteTasks => { s with tasks := [] }
  | .deleteEdgeNodes => { s with edgeNodes := [] }
  | .deleteDevices => { s with devices := [] }

/-- The statement leaves no reference dangling that was not: the row that it
inserts has its parent, and none that it deletes is one. -/
def Permitted (s : Store) : Statement → Prop
  | .saveTask row => row.deviceId ∈ s.devices.map Device.deviceId
  | .insertAllocation row => row.taskId ∈ s.tasks.map Task.taskId
  | .insertExecution row => row.taskId ∈ s.tasks.map Task.taskId
  | .insertSample row => row.edgeId ∈ s.edgeNodes.map EdgeNode.edgeId
  | .deleteTasks => Unreferenced TaskAllocation.taskId s.taskAllocations Task.taskId s.tasks ∧
      Unreferenced TaskExecution.taskId s.taskExecution Task.taskId s.tasks
  | .deleteEdgeNodes =>
      Unreferenced ResourceSample.edgeId s.resourceHistory EdgeNode.edgeId s.edgeNodes
  | .deleteDevices => Unreferenced Task.deviceId s.tasks Device.deviceId s.devices
  | _ => True

instance (s : Store) (statement : Statement) : Decidable (statement.Permitted s) := by
  cases statement <;> unfold Permitted <;> infer_instance

end Statement

/-- Statements up to the first that violates a foreign key, with the result that
`sqlite3_exec` returns. -/
def executeSql : List Statement → Store → Bool × Store
  | [], s => (true, s)
  | statement :: later, s =>
      if statement.Permitted s then executeSql later (statement.effect s) else (false, s)

def kResetSql : List Statement :=
  [.deleteExecutions, .deleteAllocations, .deleteSamples, .deleteTasks, .deleteEdgeNodes,
    .deleteDevices]

def resetSimulationData (s : Store) : Bool × Store := executeSql kResetSql s

theorem updateTaskStatus_keys (s : Store) (taskId : String) (status : Int) :
    ((Statement.updateTaskStatus taskId status).effect s).tasks.map Task.taskId =
      s.tasks.map Task.taskId := by
  rw [Statement.effect, List.map_map]
  apply List.map_congr_left
  intro task _
  rw [Function.comp_apply]
  split <;> rfl

theorem Store.Consistent.effect {s : Store} (h : s.Consistent) {statement : Statement}
    (hpermitted : statement.Permitted s) : (statement.effect s).Consistent := by
  cases statement with
  | saveDevice row => exact { h with tasks := h.tasks.replace_parent row }
  | saveTaskProfile row => exact { h with }
  | saveEdgeNode row => exact { h with resourceHistory := h.resourceHistory.replace_parent row }
  | saveTask row =>
      exact
        { h with
          tasks := (refers_replace_child_iff h.tasks).mpr hpermitted
          taskAllocations := h.taskAllocations.replace_parent row
          taskExecution := h.taskExecution.replace_parent row }
  | updateTaskStatus taskId status =>
      have hkeys := updateTaskStatus_keys s taskId status
      exact
        { h with
          tasks := h.tasks.map_child fun task => by split_ifs <;> rfl
          taskAllocations := h.taskAllocations.mono fun k hk => by rwa [hkeys]
          taskExecution := h.taskExecution.mono fun k hk => by rwa [hkeys] }
  | insertAllocation row =>
      exact { h with taskAllocations := refers_append_iff.mpr ⟨h.taskAllocations, hpermitted⟩ }
  | insertExecution row =>
      exact { h with taskExecution := refers_append_iff.mpr ⟨h.taskExecution, hpermitted⟩ }
  | insertSample row =>
      exact { h with resourceHistory := refers_append_iff.mpr ⟨h.resourceHistory, hpermitted⟩ }
  | deleteExecutions => exact { h with taskExecution := .nil }
  | deleteAllocations => exact { h with taskAllocations := .nil }
  | deleteSamples => exact { h with resourceHistory := .nil }
  | deleteTasks =>
      obtain ⟨hallocations, hexecution⟩ := hpermitted
      rw [unreferenced_iff h.taskAllocations] at hallocations
      rw [unreferenced_iff h.taskExecution] at hexecution
      exact
        { h with
          tasks := .nil
          taskAllocations := refers_nil_iff.mpr hallocations
          taskExecution := refers_nil_iff.mpr hexecution }
  | deleteEdgeNodes =>
      have hsamples := (unreferenced_iff h.resourceHistory).mp hpermitted
      exact { h with resourceHistory := refers_nil_iff.mpr hsamples }
  | deleteDevices =>
      have htasks := (unreferenced_iff h.tasks).mp hpermitted
      exact { h with tasks := refers_nil_iff.mpr htasks }

theorem permitted_of_effect {s : Store} (h : s.Consistent) {statement : Statement}
    (heffect : (statement.effect s).Consistent) : statement.Permitted s := by
  cases statement with
  | saveTask row => exact (refers_replace_child_iff h.tasks).mp heffect.tasks
  | insertAllocation row => exact (refers_append_iff.mp heffect.taskAllocations).2
  | insertExecution row => exact (refers_append_iff.mp heffect.taskExecution).2
  | insertSample row => exact (refers_append_iff.mp heffect.resourceHistory).2
  | deleteTasks =>
      exact ⟨(unreferenced_iff h.taskAllocations).mpr (refers_nil_iff.mp heffect.taskAllocations),
        (unreferenced_iff h.taskExecution).mpr (refers_nil_iff.mp heffect.taskExecution)⟩
  | deleteEdgeNodes =>
      exact (unreferenced_iff h.resourceHistory).mpr (refers_nil_iff.mp heffect.resourceHistory)
  | deleteDevices => exact (unreferenced_iff h.tasks).mpr (refers_nil_iff.mp heffect.tasks)
  | _ => trivial

/-- The children are deleted before the parents, so that no statement of the reset
fails, whatever the tables hold. -/
theorem resetSimulationData_eq (s : Store) :
    resetSimulationData s = (true, { taskProfiles := s.taskProfiles }) := by
  simp [resetSimulationData, kResetSql, executeSql, Statement.Permitted, Statement.effect,
    unreferenced_nil_child]

end EdgeAllocator.Schema
