import EdgeAllocator.Allocator
import EdgeAllocator.Foundation.Double
import EdgeAllocator.Foundation.Sentinel

/-! `EdgeNode` and `ResourceAllocator` in the arithmetic of `double`. Every result is
rounded, and capacities, usages, requirements and weights may be infinite or NaN. -/
namespace EdgeAllocator.Doubles

open Foundation
open Allocator (sizeModulus)

abbrev Amounts := Resource → Double

def amounts (cpuPercent ramMb bandwidthMbps : Double) : Amounts
  | .cpu => cpuPercent
  | .ram => ramMb
  | .bandwidth => bandwidthMbps

/-- `priority` is the value of the enumerator, or whatever `static_cast` made of an
integer that is none of them. -/
structure TaskRequirements where
  demand : Amounts
  priority : Int

structure ResourceCapacity where
  amounts : Amounts
  latencyMs : Int

structure EdgeNode where
  capacity : ResourceCapacity
  currentUsage : Amounts := fun _ => 0
  taskQueue : List TaskPtr := []
  isAvailable : Bool := true
  totalTasksProcessed : Nat := 0

def one : Double := .ofRat 1
def hundred : Double := .ofRat 100

/-- `std::clamp`, which requires `low ≤ high` and gives NaN back. -/
def clamp (value low high : Double) : Double :=
  if value < low then low else if high < value then high else value

/-- `std::max(0.0, value)`, which is zero for NaN. -/
def maxZero (value : Double) : Double := if 0 < value then value else 0

theorem maxZero_sub_le {usage demand : Double} (husage : 0 ≤ usage.value)
    (hdemand : 0 ≤ demand.value) : (maxZero (usage - demand)).value ≤ usage.value := by
  unfold maxZero
  split_ifs with hpos
  · have hnumber : usage.value - demand.value ≠ .nan := by
      intro hnan
      refine hpos.2.1 ?_
      show (usage.value - demand.value).round = .nan
      rw [hnan]
      rfl
    have hround := Extended.round_mono (Extended.sub_le husage hdemand hnumber)
    rw [usage.rounded] at hround
    exact hround
  · rw [Double.value_zero]
    exact husage

namespace EdgeNode

def setAvailable (available : Bool) (node : EdgeNode) : EdgeNode :=
  { node with isAvailable := available }

def hasTasksInQueue (node : EdgeNode) : Bool := !node.taskQueue.isEmpty

def dequeueTask (node : EdgeNode) : TaskPtr × EdgeNode :=
  match node.taskQueue with
  | [] => (none, node)
  | task :: rest => (task, { node with taskQueue := rest })

def getAvailable (r : Resource) (node : EdgeNode) : Double :=
  node.capacity.amounts r - node.currentUsage r

def getLatencyMs (node : EdgeNode) : Int := node.capacity.latencyMs

def getQueueLength (node : EdgeNode) : Int := Int.bmod node.taskQueue.length sizeModulus

def canAllocate (demand : Amounts) (node : EdgeNode) : Bool :=
  node.isAvailable &&
    decide (demand .cpu ≤ node.getAvailable .cpu) &&
    decide (demand .ram ≤ node.getAvailable .ram) &&
    decide (demand .bandwidth ≤ node.getAvailable .bandwidth)

def allocateResources (demand : Amounts) (node : EdgeNode) : EdgeNode :=
  { node with
    currentUsage := fun r => node.currentUsage r + demand r
    totalTasksProcessed := node.totalTasksProcessed + 1 }

def deallocateResources (demand : Amounts) (node : EdgeNode) : EdgeNode :=
  { node with currentUsage := fun r => maxZero (node.currentUsage r - demand r) }

structure Draws where
  cpu : Double := 0
  ram : Double := 0

def simulateResourceFluctuation (draws : Draws) (node : EdgeNode) : EdgeNode :=
  { node with
    currentUsage := fun
      | .cpu => clamp (node.currentUsage .cpu + draws.cpu) 0 (node.capacity.amounts .cpu)
      | .ram =>
          clamp (node.currentUsage .ram + draws.ram * (node.capacity.amounts .ram / hundred)) 0
            (node.capacity.amounts .ram)
      | .bandwidth => node.currentUsage .bandwidth }

section

variable (demand : Amounts) (node : EdgeNode)

@[simp] theorem allocateResources_currentUsage (r : Resource) :
    (node.allocateResources demand).currentUsage r = node.currentUsage r + demand r := rfl

@[simp] theorem allocateResources_taskQueue :
    (node.allocateResources demand).taskQueue = node.taskQueue := rfl

@[simp] theorem allocateResources_capacity :
    (node.allocateResources demand).capacity = node.capacity := rfl

@[simp] theorem allocateResources_isAvailable :
    (node.allocateResources demand).isAvailable = node.isAvailable := rfl

theorem dequeueTask_currentUsage : node.dequeueTask.2.currentUsage = node.currentUsage := by
  unfold dequeueTask
  split <;> rfl

theorem dequeueTask_capacity : node.dequeueTask.2.capacity = node.capacity := by
  unfold dequeueTask
  split <;> rfl

end

end EdgeNode

structure AllocationWeights where
  cpuWeight : Double := .ofRat (1 / 4)
  ramWeight : Double := .ofRat (1 / 5)
  bandwidthWeight : Double := .ofRat (3 / 20)
  latencyWeight : Double := .ofRat (3 / 20)
  queueWeight : Double := .ofRat (3 / 20)
  priorityWeight : Double := .ofRat (1 / 10)

structure ResourceAllocator where
  strategy : AllocationStrategy
  weights : AllocationWeights := {}
  totalAllocations : Nat := 0
  successfulAllocations : Nat := 0
  failedAllocations : Nat := 0
  roundRobinIndex : Nat := 0
  strategyMutex : Option Thread := none

structure World where
  fleet : Fleet
  workload : TaskRef → TaskRequirements
  node : EdgeId → EdgeNode
  task : TaskRef → Task := fun _ => {}
  taskCounter : Nat := 0
  allocator : ResourceAllocator

namespace World

def demand (w : World) (t : TaskRef) : Amounts := (w.workload t).demand

def modifyNode (e : EdgeId) (f : EdgeNode → EdgeNode) (w : World) : World :=
  { w with node := Function.update w.node e (f (w.node e)) }

def modifyTask (t : TaskRef) (f : Task → Task) (w : World) : World :=
  { w with task := Function.update w.task t (f (w.task t)) }

def modifyAllocator (f : ResourceAllocator → ResourceAllocator) (w : World) : World :=
  { w with allocator := f w.allocator }

section

variable (w : World) (t : TaskRef) (e : EdgeId)

@[simp] theorem modifyNode_workload (f : EdgeNode → EdgeNode) :
    (w.modifyNode e f).workload = w.workload := rfl

@[simp] theorem modifyNode_self (f : EdgeNode → EdgeNode) :
    (w.modifyNode e f).node e = f (w.node e) :=
  Function.update_self ..

@[simp] theorem modifyNode_of_ne (f : EdgeNode → EdgeNode) {e e' : EdgeId} (h : e' ≠ e) :
    (w.modifyNode e f).node e' = w.node e' :=
  Function.update_of_ne h ..

@[simp] theorem modifyTask_node (f : Task → Task) : (w.modifyTask t f).node = w.node := rfl

@[simp] theorem modifyTask_self (f : Task → Task) : (w.modifyTask t f).task t = f (w.task t) :=
  Function.update_self ..

@[simp] theorem modifyAllocator_node (f : ResourceAllocator → ResourceAllocator) :
    (w.modifyAllocator f).node = w.node := rfl

end

end World

def constructTask (now : Int) (w : World) : World :=
  { w.modifyTask w.taskCounter fun _ => { creationTime := now } with
    taskCounter := w.taskCounter + 1 }

structure AllocationResult where
  success : Bool
  edgeId : EdgeId := ""
  reason : String
  score : Double := 0

def doubleMax : Double := .ofRat largest

def int64Max : Int := 2 ^ 63 - 1

def kMaxQueueLengthForScore : Double := hundred

def normalizeScore (r : Resource) (node : EdgeNode) : Double :=
  if node.capacity.amounts r ≤ 0 then 0
  else clamp (node.getAvailable r / node.capacity.amounts r) 0 one

def normalizeCpuScore : EdgeNode → Double := normalizeScore .cpu
def normalizeRamScore : EdgeNode → Double := normalizeScore .ram
def normalizeBandwidthScore : EdgeNode → Double := normalizeScore .bandwidth

def normalizeLatencyScore (node : EdgeNode) : Double :=
  clamp (one - .ofRat node.getLatencyMs / hundred) (.ofRat (1 / 100)) one

def normalizeQueueScore (node : EdgeNode) : Double :=
  clamp (one - .ofRat node.getQueueLength / kMaxQueueLengthForScore) 0 one

def priorityScore (priority : Int) : Double :=
  if priority = TaskPriority.critical.rank then one
  else if priority = TaskPriority.high.rank then .ofRat (3 / 4)
  else if priority = TaskPriority.medium.rank then .ofRat (1 / 2)
  else if priority = TaskPriority.low.rank then .ofRat (1 / 4)
  else 0

def totalScore (weights : AllocationWeights) (priority : Int)
    (cpu ram bandwidth latency queue : Double) : Double :=
  (weights.cpuWeight * cpu + weights.ramWeight * ram + weights.bandwidthWeight * bandwidth +
    weights.latencyWeight * latency + weights.queueWeight * queue +
    weights.priorityWeight * priorityScore priority) * hundred

def calculateAllocationScore (weights : AllocationWeights) (priority : Int)
    (node : EdgeNode) : Double :=
  totalScore weights priority (normalizeCpuScore node) (normalizeRamScore node)
    (normalizeBandwidthScore node) (normalizeLatencyScore node) (normalizeQueueScore node)

def isHighPriority (priority : Int) : Bool :=
  priority = TaskPriority.high.rank ∨ priority = TaskPriority.critical.rank

def getViableEdges (w : World) (t : TaskRef) : List EdgeId :=
  w.fleet.ids.filter fun e =>
    (w.node e).isAvailable && (w.node e).canAllocate (w.demand t)

def noViableEdge : AllocationResult :=
  { success := false, reason := "No viable edge node has sufficient resources" }

/-- Reserve on the edge that was chosen. Where a scan found none the program
dereferences a null pointer, and there is no result. -/
def reserve (w : World) (t : TaskRef) (reason : String) (score : Double) :
    Option EdgeId → Option (World × AllocationResult)
  | none => none
  | some e =>
      some (w.modifyNode e (EdgeNode.allocateResources (w.demand t)),
        { success := true, edgeId := e, reason := reason, score := score })

def allocateRoundRobin (w : World) (t : TaskRef) : Option (World × AllocationResult) :=
  let viable := getViableEdges w t
  if viable.isEmpty then some (w, noViableEdge)
  else
    let chosen := viable[w.allocator.roundRobinIndex % viable.length]?
    let w := w.modifyAllocator fun allocator =>
      { allocator with roundRobinIndex := (allocator.roundRobinIndex + 1) % sizeModulus }
    reserve w t "Round-robin selection" 0 chosen

def usedCpu (node : EdgeNode) : Double := node.capacity.amounts .cpu - node.getAvailable .cpu

def allocateLeastLoad (w : World) (t : TaskRef) : Option (World × AllocationResult) :=
  let viable := getViableEdges w t
  if viable.isEmpty then some (w, noViableEdge)
  else
    let best := scanFor (fun key lowest => key < lowest) (fun e => usedCpu (w.node e)) doubleMax
      viable
    reserve w t "Lowest current CPU usage" best.2 best.1

def allocatePriorityBased (w : World) (t : TaskRef) : Option (World × AllocationResult) :=
  let viable := getViableEdges w t
  if viable.isEmpty then some (w, noViableEdge)
  else if isHighPriority (w.workload t).priority then
    let best := scanFor (fun key lowest => key < lowest) (fun e => (w.node e).getLatencyMs)
      int64Max viable
    reserve w t "High-priority task routed to lowest-latency edge" (.ofRat best.2) best.1
  else
    let queueLength (e : EdgeId) : Double := .ofRat (w.node e).getQueueLength
    let best := scanFor (fun key lowest => key < lowest) queueLength doubleMax viable
    reserve w t "Standard-priority task routed to shortest queue" best.2 best.1

def allocateMultiConstraint (w : World) (t : TaskRef) : Option (World × AllocationResult) :=
  let viable := getViableEdges w t
  if viable.isEmpty then some (w, noViableEdge)
  else
    let score e := calculateAllocationScore w.allocator.weights (w.workload t).priority (w.node e)
    let best := scanFor (fun key greatest => greatest < key) score (-doubleMax) viable
    reserve w t "Highest multi-constraint suitability score" best.2 best.1

def dispatch (w : World) (t : TaskRef) : Option (World × AllocationResult) :=
  match w.allocator.strategy with
  | .roundRobin => allocateRoundRobin w t
  | .leastLoad => allocateLeastLoad w t
  | .priorityBased => allocatePriorityBased w t
  | .multiConstraint => allocateMultiConstraint w t

def countRequest (allocator : ResourceAllocator) : ResourceAllocator :=
  { allocator with totalAllocations := allocator.totalAllocations + 1 }

def countSuccess (allocator : ResourceAllocator) : ResourceAllocator :=
  { allocator with successfulAllocations := allocator.successfulAllocations + 1 }

def countFailure (allocator : ResourceAllocator) : ResourceAllocator :=
  { allocator with failedAllocations := allocator.failedAllocations + 1 }

def allocateTask (w : World) (t : TaskRef) : Option (World × AllocationResult) := do
  let (w, result) ← dispatch (w.modifyAllocator countRequest) t
  if result.success then
    some ((w.modifyAllocator countSuccess).modifyTask t (Allocator.assignTask result.edgeId),
      result)
  else some (w.modifyAllocator countFailure, result)

end EdgeAllocator.Doubles
