import EdgeAllocator.Task
import Mathlib.Data.List.ReduceOption

/-! The simulated edge node: its resource account and its task queue. Each
operation below is one `resource_mutex_` section of the class. -/
namespace EdgeAllocator

structure ResourceCapacity where
  amounts : Amounts
  latencyMs : Int

structure EdgeNode where
  capacity : ResourceCapacity
  currentUsage : Amounts := 0
  taskQueue : List TaskPtr := []
  isAvailable : Bool := true
  totalTasksProcessed : Nat := 0

namespace EdgeNode

def getAvailable (node : EdgeNode) : Amounts :=
  node.capacity.amounts - node.currentUsage

def getLatencyMs (node : EdgeNode) : Int := node.capacity.latencyMs

def getQueueLength (node : EdgeNode) : Nat := node.taskQueue.length

def hasTasksInQueue (node : EdgeNode) : Bool := !node.taskQueue.isEmpty

def enqueueTask (task : TaskPtr) (node : EdgeNode) : EdgeNode :=
  { node with taskQueue := node.taskQueue ++ [task] }

def dequeueTask (node : EdgeNode) : TaskPtr × EdgeNode :=
  match node.taskQueue with
  | [] => (none, node)
  | task :: rest => (task, { node with taskQueue := rest })

def canAllocate (demand : Amounts) (node : EdgeNode) : Bool :=
  node.isAvailable &&
    decide (demand .cpu ≤ node.getAvailable .cpu) &&
    decide (demand .ram ≤ node.getAvailable .ram) &&
    decide (demand .bandwidth ≤ node.getAvailable .bandwidth)

def allocateResources (demand : Amounts) (node : EdgeNode) : EdgeNode :=
  { node with
    currentUsage := node.currentUsage + demand
    totalTasksProcessed := node.totalTasksProcessed + 1 }

/-- The lower bounds `kMinCpuPercent`, `kMinRamMb` and the literal for the
bandwidth are all `0.0`. -/
def deallocateResources (demand : Amounts) (node : EdgeNode) : EdgeNode :=
  { node with currentUsage := fun r => max 0 (node.currentUsage r - demand r) }

def setAvailable (available : Bool) (node : EdgeNode) : EdgeNode :=
  { node with isAvailable := available }

def clamp (value low high : ℚ) : ℚ :=
  if value < low then low else if high < value then high else value

structure Draws where
  cpu : ℚ := 0
  ram : ℚ := 0

def simulateResourceFluctuation (draws : Draws) (node : EdgeNode) : EdgeNode :=
  { node with
    currentUsage := fun
      | .cpu => clamp (node.currentUsage .cpu + draws.cpu) 0 (node.capacity.amounts .cpu)
      | .ram => clamp (node.currentUsage .ram + draws.ram * (node.capacity.amounts .ram / 100))
          0 (node.capacity.amounts .ram)
      | .bandwidth => node.currentUsage .bandwidth }

/-- The tasks in the queue, null pointers left out. -/
def queued (node : EdgeNode) : List TaskRef := node.taskQueue.reduceOption

def Fits (demand : Amounts) (node : EdgeNode) : Prop :=
  node.currentUsage + demand ≤ node.capacity.amounts

def WithinCapacity (node : EdgeNode) : Prop :=
  0 ≤ node.currentUsage ∧ node.currentUsage ≤ node.capacity.amounts

theorem fits_of_canAllocate {demand : Amounts} {node : EdgeNode}
    (h : node.canAllocate demand = true) : node.Fits demand := by
  simp only [canAllocate, Bool.and_eq_true, decide_eq_true_eq] at h
  obtain ⟨⟨⟨-, hcpu⟩, hram⟩, hbandwidth⟩ := h
  simp only [getAvailable, Pi.sub_apply] at hcpu hram hbandwidth
  intro r
  cases r <;> simp only [Pi.add_apply] <;> linarith

theorem canAllocate_iff_fits {demand : Amounts} {node : EdgeNode}
    (havailable : node.isAvailable = true) : node.canAllocate demand = true ↔ node.Fits demand := by
  refine ⟨fits_of_canAllocate, fun hfits => ?_⟩
  have hroom (r : Resource) : demand r ≤ node.getAvailable r := by
    have hr : node.currentUsage r + demand r ≤ node.capacity.amounts r := hfits r
    rw [getAvailable, Pi.sub_apply]
    linarith
  simp [canAllocate, havailable, hroom]

section Frame

variable (demand : Amounts) (node : EdgeNode) (task : TaskPtr) (draws : Draws) (available : Bool)

@[simp] theorem enqueueTask_capacity : (node.enqueueTask task).capacity = node.capacity := rfl
@[simp] theorem enqueueTask_currentUsage :
    (node.enqueueTask task).currentUsage = node.currentUsage := rfl
@[simp] theorem enqueueTask_isAvailable :
    (node.enqueueTask task).isAvailable = node.isAvailable := rfl
@[simp] theorem enqueueTask_taskQueue :
    (node.enqueueTask task).taskQueue = node.taskQueue ++ [task] := rfl

@[simp] theorem dequeueTask_capacity : node.dequeueTask.2.capacity = node.capacity := by
  unfold dequeueTask; split <;> rfl
@[simp] theorem dequeueTask_currentUsage :
    node.dequeueTask.2.currentUsage = node.currentUsage := by
  unfold dequeueTask; split <;> rfl
@[simp] theorem dequeueTask_isAvailable :
    node.dequeueTask.2.isAvailable = node.isAvailable := by
  unfold dequeueTask; split <;> rfl

@[simp] theorem allocateResources_capacity :
    (node.allocateResources demand).capacity = node.capacity := rfl
@[simp] theorem allocateResources_taskQueue :
    (node.allocateResources demand).taskQueue = node.taskQueue := rfl
@[simp] theorem allocateResources_isAvailable :
    (node.allocateResources demand).isAvailable = node.isAvailable := rfl
@[simp] theorem allocateResources_currentUsage :
    (node.allocateResources demand).currentUsage = node.currentUsage + demand := rfl

@[simp] theorem deallocateResources_capacity :
    (node.deallocateResources demand).capacity = node.capacity := rfl
@[simp] theorem deallocateResources_taskQueue :
    (node.deallocateResources demand).taskQueue = node.taskQueue := rfl
@[simp] theorem deallocateResources_isAvailable :
    (node.deallocateResources demand).isAvailable = node.isAvailable := rfl

@[simp] theorem setAvailable_capacity :
    (node.setAvailable available).capacity = node.capacity := rfl
@[simp] theorem setAvailable_taskQueue :
    (node.setAvailable available).taskQueue = node.taskQueue := rfl
@[simp] theorem setAvailable_currentUsage :
    (node.setAvailable available).currentUsage = node.currentUsage := rfl
@[simp] theorem setAvailable_isAvailable :
    (node.setAvailable available).isAvailable = available := rfl

@[simp] theorem simulateResourceFluctuation_capacity :
    (node.simulateResourceFluctuation draws).capacity = node.capacity := rfl
@[simp] theorem simulateResourceFluctuation_taskQueue :
    (node.simulateResourceFluctuation draws).taskQueue = node.taskQueue := rfl
@[simp] theorem simulateResourceFluctuation_isAvailable :
    (node.simulateResourceFluctuation draws).isAvailable = node.isAvailable := rfl
@[simp] theorem simulateResourceFluctuation_bandwidth :
    (node.simulateResourceFluctuation draws).currentUsage .bandwidth =
      node.currentUsage .bandwidth := rfl

end Frame

theorem queued_dequeueTask (node : EdgeNode) :
    node.queued = node.dequeueTask.1.toList ++ node.dequeueTask.2.queued := by
  unfold queued dequeueTask
  cases hqueue : node.taskQueue with
  | nil => simp [hqueue]
  | cons task rest => cases task <;> simp

@[simp] theorem queued_enqueueTask (node : EdgeNode) (task : TaskPtr) :
    (node.enqueueTask task).queued = node.queued ++ task.toList := by
  cases task <;> simp [queued, List.reduceOption_append]

theorem taskQueue_eq_map {node : EdgeNode} (h : none ∉ node.taskQueue) :
    node.taskQueue = node.queued.map some := by
  unfold queued
  generalize node.taskQueue = queue at h
  induction queue with
  | nil => rfl
  | cons task rest ih =>
      cases task with
      | none => exact absurd List.mem_cons_self h
      | some t =>
          rw [List.reduceOption_cons_of_some, List.map_cons,
            ← ih fun hmem => h (List.mem_cons_of_mem _ hmem)]

theorem hasTasksInQueue_eq_false (node : EdgeNode) :
    node.hasTasksInQueue = false ↔ node.taskQueue = [] := by
  simp [hasTasksInQueue]

theorem clamp_mem {value low high : ℚ} (h : low ≤ high) :
    low ≤ clamp value low high ∧ clamp value low high ≤ high := by
  unfold clamp
  split_ifs with hlow hhigh
  · exact ⟨le_rfl, h⟩
  · exact ⟨h, le_rfl⟩
  · exact ⟨not_lt.mp hlow, not_lt.mp hhigh⟩

theorem deallocateResources_le {demand : Amounts} {node : EdgeNode} (hdemand : 0 ≤ demand)
    (husage : 0 ≤ node.currentUsage) :
    (node.deallocateResources demand).currentUsage ≤ node.currentUsage := by
  intro r
  have hr : 0 ≤ demand r := hdemand r
  exact max_le (husage r) (by linarith)

theorem WithinCapacity.deallocateResources {demand : Amounts} {node : EdgeNode}
    (h : node.WithinCapacity) (hdemand : 0 ≤ demand) :
    (node.deallocateResources demand).WithinCapacity :=
  ⟨fun _ => le_max_left _ _, (deallocateResources_le hdemand h.1).trans h.2⟩

theorem WithinCapacity.allocateResources {demand : Amounts} {node : EdgeNode}
    (h : node.WithinCapacity) (hdemand : 0 ≤ demand) (hfits : node.Fits demand) :
    (node.allocateResources demand).WithinCapacity :=
  ⟨add_nonneg h.1 hdemand, hfits⟩

theorem WithinCapacity.simulateResourceFluctuation {node : EdgeNode} (h : node.WithinCapacity)
    (draws : Draws) : (node.simulateResourceFluctuation draws).WithinCapacity := by
  have hcapacity : ∀ r, 0 ≤ node.capacity.amounts r := fun r => (h.1 r).trans (h.2 r)
  constructor
  · intro r
    cases r with
    | cpu => exact (clamp_mem (hcapacity .cpu)).1
    | ram => exact (clamp_mem (hcapacity .ram)).1
    | bandwidth => exact h.1 .bandwidth
  · intro r
    cases r with
    | cpu => exact (clamp_mem (hcapacity .cpu)).2
    | ram => exact (clamp_mem (hcapacity .ram)).2
    | bandwidth => exact h.2 .bandwidth

theorem deallocateResources_exact {demand : Amounts} {node : EdgeNode}
    (h : demand ≤ node.currentUsage) :
    (node.deallocateResources demand).currentUsage = node.currentUsage - demand := by
  funext r
  exact max_eq_right (sub_nonneg.mpr (h r))

end EdgeNode
end EdgeAllocator
