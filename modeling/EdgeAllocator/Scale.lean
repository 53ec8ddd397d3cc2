import EdgeAllocator.Score
import EdgeAllocator.Foundation.Mean

/-! The scale of the `MULTI_CONSTRAINT` score. The weights mix sub-scores between zero
and one, whatever the account, the latency and the queue of the node are. -/
namespace EdgeAllocator.Score

open Foundation Allocator EdgeNode

/-! ## Division by zero

The scores once more, with a division that has no value at a zero divisor. -/

namespace Checked

def divide (x y : ℚ) : Option ℚ := if y = 0 then none else some (x / y)

theorem divide_eq {x y : ℚ} (h : y ≠ 0) : divide x y = some (x / y) := if_neg h

def normalizeScore (r : Resource) (node : EdgeNode) : Option ℚ :=
  if node.capacity.amounts r ≤ 0 then some 0
  else do
    let share ← divide (node.getAvailable r) (node.capacity.amounts r)
    return clamp share 0 1

def normalizeLatencyScore (node : EdgeNode) : Option ℚ := do
  let share ← divide node.getLatencyMs 100
  return clamp (1 - share) (1 / 100) 1

def normalizeQueueScore (node : EdgeNode) : Option ℚ := do
  let share ← divide node.getQueueLength kMaxQueueLengthForScore
  return clamp (1 - share) 0 1

def calculateAllocationScore (weights : AllocationWeights) (priority : TaskPriority)
    (node : EdgeNode) : Option ℚ := do
  let cpu ← normalizeScore .cpu node
  let ram ← normalizeScore .ram node
  let bandwidth ← normalizeScore .bandwidth node
  let latency ← normalizeLatencyScore node
  let queue ← normalizeQueueScore node
  return totalScore weights priority cpu ram bandwidth latency queue

theorem normalizeScore_eq (r : Resource) (node : EdgeNode) :
    normalizeScore r node = some (Allocator.normalizeScore r node) := by
  unfold normalizeScore Allocator.normalizeScore
  split_ifs with hcapacity
  · rfl
  · rw [divide_eq (not_le.mp hcapacity).ne']
    rfl

theorem normalizeLatencyScore_eq (node : EdgeNode) :
    normalizeLatencyScore node = some (Allocator.normalizeLatencyScore node) := by
  unfold normalizeLatencyScore
  rw [divide_eq (by norm_num)]
  rfl

theorem normalizeQueueScore_eq (node : EdgeNode) :
    normalizeQueueScore node = some (Allocator.normalizeQueueScore node) := by
  unfold normalizeQueueScore
  rw [divide_eq (by norm_num [kMaxQueueLengthForScore])]
  rfl

theorem calculateAllocationScore_eq (weights : AllocationWeights) (priority : TaskPriority)
    (node : EdgeNode) :
    calculateAllocationScore weights priority node =
      some (Allocator.calculateAllocationScore weights priority node) := by
  unfold calculateAllocationScore
  simp only [normalizeScore_eq, normalizeLatencyScore_eq, normalizeQueueScore_eq]
  rfl

end Checked

/-! ## The convex combination -/

def subScores (priority : TaskPriority) (node : EdgeNode) : List ℚ :=
  [normalizeCpuScore node, normalizeRamScore node, normalizeBandwidthScore node,
    normalizeLatencyScore node, normalizeQueueScore node, priorityScore priority]

def weightList (weights : AllocationWeights) : List ℚ :=
  [weights.cpuWeight, weights.ramWeight, weights.bandwidthWeight, weights.latencyWeight,
    weights.queueWeight, weights.priorityWeight]

/-- Weights that are not negative and sum to one. -/
structure Convex (weights : AllocationWeights) : Prop where
  nonneg : ∀ weight ∈ weightList weights, 0 ≤ weight
  total : (weightList weights).sum = 1

instance (weights : AllocationWeights) : Decidable (Convex weights) :=
  decidable_of_iff
    ((∀ weight ∈ weightList weights, 0 ≤ weight) ∧ (weightList weights).sum = 1)
    ⟨fun ⟨hnonneg, htotal⟩ => ⟨hnonneg, htotal⟩, fun h => ⟨h.nonneg, h.total⟩⟩

theorem default_convex : Convex {} := by decide +kernel

theorem priorityScore_mem (priority : TaskPriority) :
    0 ≤ priorityScore priority ∧ priorityScore priority ≤ 1 := by
  cases priority <;> norm_num [priorityScore]

theorem subScores_mem (priority : TaskPriority) (node : EdgeNode) :
    ∀ score ∈ subScores priority node, 0 ≤ score ∧ score ≤ 1 := by
  have hlatency : 0 ≤ normalizeLatencyScore node ∧ normalizeLatencyScore node ≤ 1 := by
    obtain ⟨hfloor, hceiling⟩ := normalizeLatencyScore_mem node
    exact ⟨le_trans (by norm_num) hfloor, hceiling⟩
  unfold subScores
  simp only [List.forall_mem_cons]
  exact ⟨normalizeScore_mem .cpu node, normalizeScore_mem .ram node,
    normalizeScore_mem .bandwidth node, hlatency, normalizeQueueScore_mem node,
    priorityScore_mem priority, nofun⟩

theorem calculateAllocationScore_eq_weightedSum (weights : AllocationWeights)
    (priority : TaskPriority) (node : EdgeNode) :
    calculateAllocationScore weights priority node =
      weightedSum (weightList weights) (subScores priority node) * 100 := by
  unfold calculateAllocationScore totalScore weightedSum weightList subScores
  simp only [List.zipWith_cons_cons, List.zipWith_nil_left, List.sum_cons, List.sum_nil]
  ring

theorem Convex.score_mem {weights : AllocationWeights} (h : Convex weights)
    (priority : TaskPriority) (node : EdgeNode) :
    0 ≤ calculateAllocationScore weights priority node ∧
      calculateAllocationScore weights priority node ≤ 100 := by
  have hlength : (weightList weights).length = (subScores priority node).length := rfl
  obtain ⟨hlow, hhigh⟩ := weightedSum_mem hlength h.nonneg (subScores_mem priority node)
  rw [h.total, one_mul] at hlow hhigh
  rw [calculateAllocationScore_eq_weightedSum]
  constructor
  · exact mul_nonneg hlow (by norm_num)
  · linarith

/-- On any node the score divides by no zero, mixes sub-scores between zero and
one, and lies between 0 and 100. -/
theorem score_on_scale {weights : AllocationWeights} (h : Convex weights)
    (priority : TaskPriority) (node : EdgeNode) :
    Checked.calculateAllocationScore weights priority node =
        some (calculateAllocationScore weights priority node) ∧
      (∀ score ∈ subScores priority node, 0 ≤ score ∧ score ≤ 1) ∧
      0 ≤ calculateAllocationScore weights priority node ∧
      calculateAllocationScore weights priority node ≤ 100 :=
  ⟨Checked.calculateAllocationScore_eq weights priority node, subScores_mem priority node,
    h.score_mem priority node⟩

def derelict : EdgeNode where
  capacity :=
    { amounts := fun
        | .cpu => -5
        | .ram => 0
        | .bandwidth => 10
      latencyMs := -40 }
  currentUsage := fun _ => 30

theorem score_on_scale_derelict :
    Checked.calculateAllocationScore {} .low derelict =
        some (calculateAllocationScore {} .low derelict) ∧
      (∀ score ∈ subScores .low derelict, 0 ≤ score ∧ score ≤ 1) ∧
      0 ≤ calculateAllocationScore {} .low derelict ∧
      calculateAllocationScore {} .low derelict ≤ 100 :=
  score_on_scale default_convex .low derelict

end EdgeAllocator.Score
