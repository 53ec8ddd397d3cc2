import Mathlib.Tactic
import Mathlib.Algebra.Order.Field.Rat
import Mathlib.Data.Fintype.Basic
import Mathlib.Data.String.Basic

/-! Tasks, their requirements and the clock arithmetic on their deadlines.
Quantities that the program keeps as `double` are exact rationals here. -/
namespace EdgeAllocator

abbrev EdgeId := String

/-- The identity of a `Task` object: the value `task_counter_` had when the
task was created, from which `generateTaskId` prints its `task_id_`. -/
abbrev TaskRef := Nat

abbrev TaskPtr := Option TaskRef

/-- The three dimensions that are reserved and released together. -/
inductive Resource where
  | cpu
  | ram
  | bandwidth
  deriving DecidableEq, Repr

instance : Fintype Resource where
  elems := {.cpu, .ram, .bandwidth}
  complete := by rintro (_ | _ | _) <;> decide

abbrev Amounts := Resource → ℚ

def amounts (cpuPercent ramMb bandwidthMbps : ℚ) : Amounts
  | .cpu => cpuPercent
  | .ram => ramMb
  | .bandwidth => bandwidthMbps

inductive TaskPriority where
  | low
  | medium
  | high
  | critical
  deriving DecidableEq, Repr

def TaskPriority.rank : TaskPriority → Nat
  | .low => 0
  | .medium => 1
  | .high => 2
  | .critical => 3

inductive TaskStatus where
  | created
  | queued
  | running
  | completed
  | failed
  | reallocated
  deriving DecidableEq, Repr

def TaskStatus.finished : TaskStatus → Bool
  | .completed | .failed => true
  | _ => false

structure TaskRequirements where
  demand : Amounts
  deadlineMs : Int
  priority : TaskPriority

namespace TaskProfile

def ultrasonic : TaskRequirements := ⟨amounts 10 50 1, 100, .high⟩
def temperature : TaskRequirements := ⟨amounts 5 20 (1 / 2), 500, .medium⟩
def camera : TaskRequirements := ⟨amounts 60 1024 20, 50, .critical⟩
def humidity : TaskRequirements := ⟨amounts 5 20 (1 / 2), 500, .low⟩
def pressure : TaskRequirements := ⟨amounts 5 20 (1 / 2), 500, .low⟩

def profiles : List TaskRequirements := [ultrasonic, temperature, camera, humidity, pressure]

theorem demand_nonneg : ∀ profile ∈ profiles, 0 ≤ profile.demand := by
  have hentries : ∀ profile ∈ profiles, ∀ r, 0 ≤ profile.demand r := by decide +kernel
  exact hentries

end TaskProfile

/-- The fields of a `Task` that change after its construction, and the time of
its construction. The requirements never change and are kept apart. Times are
readings of `system_clock` in nanoseconds. -/
structure Task where
  status : TaskStatus := .created
  assignedEdgeId : EdgeId := ""
  creationTime : Int := 0
  completionTime : Int := 0

namespace Task

def setStatus (status : TaskStatus) (task : Task) : Task := { task with status := status }

def setAssignedEdgeId (edgeId : EdgeId) (task : Task) : Task :=
  { task with assignedEdgeId := edgeId }

def setCompletionTime (time : Int) (task : Task) : Task := { task with completionTime := time }

@[simp] theorem setStatus_status (status : TaskStatus) (task : Task) :
    (task.setStatus status).status = status := rfl

@[simp] theorem setStatus_assignedEdgeId (status : TaskStatus) (task : Task) :
    (task.setStatus status).assignedEdgeId = task.assignedEdgeId := rfl

@[simp] theorem setAssignedEdgeId_status (edgeId : EdgeId) (task : Task) :
    (task.setAssignedEdgeId edgeId).status = task.status := rfl

@[simp] theorem setAssignedEdgeId_assignedEdgeId (edgeId : EdgeId) (task : Task) :
    (task.setAssignedEdgeId edgeId).assignedEdgeId = edgeId := rfl

@[simp] theorem setCompletionTime_status (time : Int) (task : Task) :
    (task.setCompletionTime time).status = task.status := rfl

@[simp] theorem setCompletionTime_assignedEdgeId (time : Int) (task : Task) :
    (task.setCompletionTime time).assignedEdgeId = task.assignedEdgeId := rfl

/-- `duration_cast<milliseconds>` drops the fraction of a millisecond. -/
def getElapsedTimeMs (task : Task) (now : Int) : Int :=
  (now - task.creationTime).tdiv 1000000

def getRemainingTimeMs (task : Task) (requirements : TaskRequirements) (now : Int) : Int :=
  requirements.deadlineMs - task.getElapsedTimeMs now

def isDeadlineExceeded (task : Task) (requirements : TaskRequirements) (now : Int) : Bool :=
  requirements.deadlineMs < task.getElapsedTimeMs now

end Task

end EdgeAllocator
