import EdgeAllocator.Doubles

/-! One allocation attempt against its specification: which node it has to choose, what it
may change, and when the scans find a node at all. The specification is about the values
themselves, without rounding. -/
namespace EdgeAllocator.Doubles

open Foundation
open Allocator (sizeModulus)

def Candidate (w : World) (t : TaskRef) (e : EdgeId) : Prop :=
  e ∈ w.fleet.ids ∧ (w.node e).isAvailable = true ∧ ∀ r, (w.demand t r).value ≤
    ((w.node e).capacity.amounts r).value - ((w.node e).currentUsage r).value

/-- The first candidate in the order of the ids among those of least cost. -/
def Cheapest {β : Type} [LT β] (w : World) (t : TaskRef) (cost : EdgeId → β) (e : EdgeId) : Prop :=
  Candidate w t e ∧ ∀ x, Candidate w t x → cost e < cost x ∨ cost e = cost x ∧ e ≤ x

def score (w : World) (t : TaskRef) (e : EdgeId) : Double :=
  calculateAllocationScore w.allocator.weights (w.workload t).priority (w.node e)

def Optimal (w : World) (t : TaskRef) (e : EdgeId) : Prop :=
  match w.allocator.strategy with
  | .roundRobin => True
  | .leastLoad => Cheapest w t (fun x => ((w.node x).currentUsage .cpu).value) e
  | .priorityBased =>
      if isHighPriority (w.workload t).priority then
        Cheapest w t (fun x => (w.node x).getLatencyMs) e
      else Cheapest w t (fun x => (w.node x).taskQueue.length) e
  | .multiConstraint => Cheapest w t (fun x => OrderDual.toDual (score w t x)) e

structure Reserved (w w' : World) (t : TaskRef) (e : EdgeId) : Prop where
  candidate : Candidate w t e
  optimal : Optimal w t e
  usage : ∀ r, ((w'.node e).currentUsage r).value =
    ((w.node e).currentUsage r).value + (w.demand t r).value
  others : ∀ x, x ≠ e → w'.node x = w.node x
  queues : ∀ x, (w'.node x).taskQueue = (w.node x).taskQueue
  capacities : ∀ x, (w'.node x).capacity = (w.node x).capacity
  available : ∀ x, (w'.node x).isAvailable = (w.node x).isAvailable
  fleet : w'.fleet = w.fleet
  workload : w'.workload = w.workload
  assignedEdgeId : (w'.task t).assignedEdgeId = e
  status : (w'.task t).status = .queued

/-- Latencies below the largest `int64_t`, and scores above the one that the scan
starts from. -/
structure Admissible (w : World) (t : TaskRef) : Prop where
  latency : ∀ e ∈ w.fleet.ids, (w.node e).getLatencyMs < int64Max
  score : w.allocator.strategy = .multiConstraint →
    ∀ e ∈ w.fleet.ids, -doubleMax < score w t e

/-- As the keys are computed the node is in front of all that pass `canAllocate`: it beats
the value that the scan starts from, the nodes before it, and ties with those behind it. -/
def InFront (w : World) (t : TaskRef) (e : EdgeId) : Prop :=
  match w.allocator.strategy with
  | .roundRobin =>
      (getViableEdges w t)[w.allocator.roundRobinIndex % (getViableEdges w t).length]? = some e
  | .leastLoad =>
      Foremost (fun key lowest => key < lowest) (fun x => usedCpu (w.node x)) doubleMax
        (getViableEdges w t) e
  | .priorityBased =>
      if isHighPriority (w.workload t).priority then
        Foremost (fun key lowest => key < lowest) (fun x => (w.node x).getLatencyMs) int64Max
          (getViableEdges w t) e
      else
        Foremost (fun key lowest => key < lowest)
          (fun x => Double.ofRat (w.node x).getQueueLength) doubleMax (getViableEdges w t) e
  | .multiConstraint =>
      Foremost (fun key greatest => greatest < key) (score w t) (-doubleMax) (getViableEdges w t) e

/-- Nothing that decides about the node, or is written to it, has been rounded. -/
structure Unrounded (w : World) (t : TaskRef) (e : EdgeId) : Prop where
  room : ∀ r, (w.demand t r).value ≤
    ((w.node e).capacity.amounts r).value - ((w.node e).currentUsage r).value
  sum : ∀ r, ((w.node e).currentUsage r + w.demand t r).value =
    ((w.node e).currentUsage r).value + (w.demand t r).value
  leastLoad : w.allocator.strategy = .leastLoad →
    Cheapest w t (fun x => ((w.node x).currentUsage .cpu).value) e
  standardPriority : w.allocator.strategy = .priorityBased →
    isHighPriority (w.workload t).priority = false →
      Cheapest w t (fun x => (w.node x).taskQueue.length) e

section Order


end Order

section Viable

variable {w : World} {t : TaskRef} {e : EdgeId}

theorem canAllocate_iff {node : EdgeNode} {demand : Amounts} :
    node.canAllocate demand = true ↔
      node.isAvailable = true ∧ ∀ r, demand r ≤ node.getAvailable r := by
  simp only [EdgeNode.canAllocate, Bool.and_eq_true, decide_eq_true_eq, and_assoc]
  refine and_congr_right fun _ => ⟨fun h r => ?_, fun h => ⟨h .cpu, h .ram, h .bandwidth⟩⟩
  cases r with
  | cpu => exact h.1
  | ram => exact h.2.1
  | bandwidth => exact h.2.2

theorem mem_getViableEdges_iff : e ∈ getViableEdges w t ↔
    e ∈ w.fleet.ids ∧ (w.node e).isAvailable = true ∧
      ∀ r, w.demand t r ≤ (w.node e).getAvailable r := by
  rw [getViableEdges, List.mem_filter, Bool.and_eq_true, canAllocate_iff]
  refine and_congr_right fun _ => ⟨fun h => h.2, fun h => ⟨h.1, h⟩⟩

theorem getViableEdges_sorted (w : World) (t : TaskRef) :
    (getViableEdges w t).Pairwise (· < ·) :=
  w.fleet.sorted.filter _

theorem Candidate.mem (h : Candidate w t e) : e ∈ getViableEdges w t := by
  refine mem_getViableEdges_iff.mpr ⟨h.1, h.2.1, fun r => ?_⟩
  have hround := Extended.round_mono (h.2.2 r)
  rw [(w.demand t r).rounded] at hround
  exact hround

end Viable

theorem queueLength_lt (node : EdgeNode) : Double.ofRat node.getQueueLength < doubleMax := by
  have hcount : (node.getQueueLength : ℚ) ≤ 2 ^ 63 := by
    have hbmod : node.getQueueLength < (sizeModulus + 1) / 2 :=
      Int.bmod_lt (Nat.two_pow_pos 64)
    have hle : node.getQueueLength ≤ 2 ^ 63 := by
      unfold sizeModulus at hbmod
      omega
    exact_mod_cast hle
  have hround : Double.ofRat node.getQueueLength ≤ Double.ofRat (2 ^ 63) :=
    Double.ofRat_mono hcount
  have hlargest : Double.ofRat (2 ^ 63) < doubleMax := by decide +kernel
  exact Double.lt_of_le_of_lt hround hlargest

section Dispatch

variable {w : World} {t : TaskRef}

theorem dispatch_of_nil (h : getViableEdges w t = []) : dispatch w t = some (w, noViableEdge) := by
  unfold dispatch allocateRoundRobin allocateLeastLoad allocatePriorityBased allocateMultiConstraint
  simp only [h, List.isEmpty_nil, if_true]
  split <;> rfl

theorem reserve_scan {β : Type} {better : β → β → Bool} {key : EdgeId → β} {initial : β}
    (hweak : StrictWeakOn better initial) (reason : String) (score : Double) :
    ∃ index chosen, reserve w t reason score (scanFor better key initial (getViableEdges w t)).1 =
      reserve (w.modifyAllocator fun allocator => { allocator with roundRobinIndex := index }) t
        reason score chosen ∧
      ∀ e, chosen = some e ↔ Foremost better key initial (getViableEdges w t) e :=
  ⟨w.allocator.roundRobinIndex, _, rfl, fun _ =>
    scanFor_eq_some_iff hweak (getViableEdges_sorted w t)⟩

end Dispatch

section Outcome

variable {w : World} {t : TaskRef} {e : EdgeId}

theorem Unrounded.candidate (hunrounded : Unrounded w t e) (hmem : e ∈ getViableEdges w t) :
    Candidate w t e :=
  have hviable := mem_getViableEdges_iff.mp hmem
  ⟨hviable.1, hviable.2.1, hunrounded.room⟩

theorem InFront.mem (hfront : InFront w t e) : e ∈ getViableEdges w t := by
  unfold InFront at hfront
  split at hfront
  · exact List.mem_of_getElem? hfront
  · exact hfront.1
  · split_ifs at hfront
    · exact hfront.1
    · exact hfront.1
  · exact hfront.1

theorem Unrounded.optimal (hunrounded : Unrounded w t e) (hadmissible : Admissible w t)
    (hfront : InFront w t e) : Optimal w t e := by
  have hcandidate := hunrounded.candidate hfront.mem
  unfold InFront at hfront
  unfold Optimal
  cases hstrategy : w.allocator.strategy with
  | roundRobin => trivial
  | leastLoad => exact hunrounded.leastLoad hstrategy
  | priorityBased =>
      rw [hstrategy] at hfront
      dsimp only at hfront ⊢
      split_ifs at hfront ⊢ with hpriority
      · refine ⟨hcandidate, fun x hx => ?_⟩
        have hfirst := hfront.first (fun a b _ _ hnot => by
          rw [decide_eq_true_eq]
          exact (not_lt.mp (of_decide_eq_false hnot)).lt_or_eq) hx.mem
          (decide_eq_true (hadmissible.latency x hx.1))
        rw [decide_eq_true_eq] at hfirst
        exact hfirst
      · exact hunrounded.standardPriority hstrategy (Bool.eq_false_iff.mpr hpriority)
  | multiConstraint =>
      rw [hstrategy] at hfront
      refine ⟨hcandidate, fun x hx => ?_⟩
      have hfirst := hfront.first (fun a b ha hb hnot => by
        rw [decide_eq_true_eq]
        exact (Double.lt_or_eq (of_decide_eq_true hb).2.1 (of_decide_eq_true ha).2.1
          (of_decide_eq_false hnot)).imp_right Eq.symm) hx.mem
        (decide_eq_true (hadmissible.score hstrategy x hx.1))
      rw [decide_eq_true_eq] at hfirst
      exact hfirst

theorem allocateTask_of_nil (h : getViableEdges w t = []) :
    allocateTask w t =
      some ((w.modifyAllocator countRequest).modifyAllocator countFailure, noViableEdge) := by
  unfold allocateTask
  rw [dispatch_of_nil (w := w.modifyAllocator countRequest) h]
  rfl

end Outcome

section Scans

variable {w : World} {t : TaskRef}

theorem reserve_isSome {reason : String} {score : Double} {chosen : Option EdgeId} :
    (reserve w t reason score chosen).isSome ↔ chosen.isSome := by
  cases chosen <;> rfl

/-- When the loops end with a node, so that `best->allocateResources` is defined. No queue
length reaches the start of its scan. -/
theorem scans_find_iff (hviable : getViableEdges w t ≠ []) :
    ((allocateLeastLoad w t).isSome ↔
        ∃ e ∈ getViableEdges w t, usedCpu (w.node e) < doubleMax) ∧
      ((allocatePriorityBased w t).isSome ↔ (isHighPriority (w.workload t).priority = true →
        ∃ e ∈ getViableEdges w t, (w.node e).getLatencyMs < int64Max)) ∧
      ((allocateMultiConstraint w t).isSome ↔
        ∃ e ∈ getViableEdges w t, -doubleMax < score w t e) := by
  unfold allocateLeastLoad allocatePriorityBased allocateMultiConstraint
  simp only [List.isEmpty_iff, hviable, if_false]
  refine ⟨?_, ?_, ?_⟩
  · rw [reserve_isSome, scanFor_isSome_iff]
    simp only [decide_eq_true_eq]
  · split_ifs with hpriority
    · rw [reserve_isSome, scanFor_isSome_iff, forall_prop_of_true hpriority]
      simp only [decide_eq_true_eq]
    · refine iff_of_true ?_ fun h => absurd h hpriority
      obtain ⟨e, he⟩ := List.exists_mem_of_ne_nil _ hviable
      rw [reserve_isSome, scanFor_isSome_iff]
      exact ⟨e, he, decide_eq_true (queueLength_lt _)⟩
  · rw [reserve_isSome, scanFor_isSome_iff]
    simp only [decide_eq_true_eq]
    rfl

end Scans

def lone (strategy : AllocationStrategy) (node : EdgeNode) (requirements : TaskRequirements) :
    World where
  fleet := singleNode
  workload := fun _ => requirements
  node := fun _ => node
  allocator := { strategy := strategy }

def nodeCapacity (cpuPercent : Double) (latencyMs : Int) : ResourceCapacity :=
  ⟨amounts cpuPercent (.ofRat 8192) hundred, latencyMs⟩

def distantNode : EdgeNode where
  capacity := nodeCapacity hundred int64Max

def idleNode : EdgeNode where
  capacity := nodeCapacity hundred 10

def noCpu (priority : TaskPriority) : TaskRequirements :=
  ⟨amounts 0 (.ofRat 50) one, priority.rank⟩

theorem scans_find_idle :
    (allocatePriorityBased (lone .priorityBased idleNode (noCpu .high)) 0).isSome := by
  have hviable : getViableEdges (lone .priorityBased idleNode (noCpu .high)) 0 ≠ [] := by
    decide +kernel
  exact (scans_find_iff hviable).2.1.mpr fun _ => ⟨"E01", by decide +kernel, by decide +kernel⟩

/-- With every viable latency at `INT64_MAX` the scan ends on the null pointer. -/
theorem scans_find_nothing :
    ¬∀ w t, getViableEdges w t ≠ [] →
      (allocateLeastLoad w t).isSome ∧ (allocatePriorityBased w t).isSome ∧
        (allocateMultiConstraint w t).isSome := by
  intro hall
  have hfound := hall (lone .priorityBased distantNode (noCpu .high)) 0 (by decide +kernel)
  have hnone :
      (allocatePriorityBased (lone .priorityBased distantNode (noCpu .high)) 0).isSome = false := by
    decide +kernel
  rw [hnone] at hfound
  exact absurd hfound.2.1 Bool.false_ne_true

end EdgeAllocator.Doubles
