import EdgeAllocator.Allocator
import EdgeAllocator.Foundation.Sentinel

/-! One allocation attempt in exact arithmetic: which node it chooses, and what it may
change. -/
namespace EdgeAllocator.Placement

open Foundation Allocator

/-- A registered, available node with enough CPU, RAM and bandwidth left. -/
def Candidate (w : World) (t : TaskRef) (e : EdgeId) : Prop :=
  e ∈ w.fleet.ids ∧ (w.node e).isAvailable = true ∧ (w.node e).Fits (w.demand t)

/-- The first candidate in the order of the ids among those of least cost. -/
def Cheapest (w : World) (t : TaskRef) (cost : EdgeId → ℚ) (e : EdgeId) : Prop :=
  Candidate w t e ∧ ∀ x, Candidate w t x → cost e < cost x ∨ cost e = cost x ∧ e ≤ x

def usedCpu (w : World) (e : EdgeId) : ℚ := (w.node e).currentUsage .cpu

def latency (w : World) (e : EdgeId) : ℚ := (w.node e).getLatencyMs

def queueLength (w : World) (e : EdgeId) : ℚ := (w.node e).getQueueLength

def score (w : World) (t : TaskRef) (e : EdgeId) : ℚ :=
  calculateAllocationScore w.allocator.weights (w.workload t).priority (w.node e)

/-- What each strategy promises of the node it chooses. -/
def Optimal (w : World) (t : TaskRef) (e : EdgeId) : Prop :=
  match w.allocator.strategy with
  | .roundRobin => True
  | .leastLoad => Cheapest w t (usedCpu w) e
  | .priorityBased =>
      if isHighPriority (w.workload t).priority then Cheapest w t (latency w) e
      else Cheapest w t (queueLength w) e
  | .multiConstraint => Cheapest w t (fun x => -score w t x) e

theorem mem_getViableEdges_iff {w : World} {t : TaskRef} {e : EdgeId} :
    e ∈ getViableEdges w t ↔ Candidate w t e := by
  unfold getViableEdges Candidate
  rw [List.mem_filter, Bool.and_eq_true]
  apply and_congr_right
  intro _
  apply and_congr_right
  intro havailable
  rw [EdgeNode.canAllocate_iff_fits havailable]

theorem getViableEdges_sorted (w : World) (t : TaskRef) :
    (getViableEdges w t).Pairwise (· < ·) :=
  w.fleet.sorted.filter _

theorem capacity_sub_available (w : World) (e : EdgeId) :
    (w.node e).capacity.amounts .cpu - (w.node e).getAvailable .cpu = usedCpu w e := by
  simp [EdgeNode.getAvailable, usedCpu]

section Scan

variable {w : World} {t : TaskRef} {cost : EdgeId → ℚ} {initial : ℚ}

theorem scanBest_eq_scanFor (better : ℚ → ℚ → Bool) (viable : List EdgeId) :
    scanBest better cost initial viable = scanFor better cost initial viable := rfl

theorem cheapest_of_scan {e : EdgeId}
    (h : (scanBest (fun key best => key < best) cost initial (getViableEdges w t)).1 = some e) :
    Cheapest w t cost e := by
  rw [scanBest_eq_scanFor] at h
  have hfirst := firstBest_scanFor strictWeak_lt h
  refine ⟨mem_getViableEdges_iff.mp hfirst.mem, fun x hx => ?_⟩
  have hleast := hfirst.least strictWeak_lt (getViableEdges_sorted w t)
    (mem_getViableEdges_iff.mpr hx)
  simp only [decide_eq_true_eq, decide_eq_false_iff_not, not_lt] at hleast
  rcases hleast with hlt | ⟨hle, hid⟩
  · exact Or.inl hlt
  · exact (lt_or_eq_of_le hle).imp_right fun heq => ⟨heq, hid⟩

theorem scan_neg (viable : List EdgeId) :
    (scanBest (fun key best => best < key) cost (-initial) viable).1 =
      (scanBest (fun key best => key < best) (fun x => -cost x) initial viable).1 := by
  rw [scanBest_eq_scanFor, scanBest_eq_scanFor]
  refine scanFor_fst_congr (fun x _ => ?_) fun x _ y _ => ?_
  · simp only [decide_eq_decide]
    exact neg_lt
  · simp only [decide_eq_decide]
    exact neg_lt_neg_iff.symm

theorem scan_isSome_iff :
    (scanBest (fun key best => key < best) cost initial (getViableEdges w t)).1.isSome ↔
      ∃ e, Candidate w t e ∧ cost e < initial := by
  rw [scanBest_eq_scanFor, scanFor_isSome_iff]
  simp only [mem_getViableEdges_iff, decide_eq_true_eq]

end Scan

section Reserve

variable {w : World} {t : TaskRef} {reason : String} {best : Option EdgeId × ℚ}

theorem reserveBest_isSome : (reserveBest w t reason best).isSome ↔ best.1.isSome := by
  obtain ⟨chosen, score⟩ := best
  cases chosen <;> simp [reserveBest]

theorem reserveBest_some {w' : World} {result : AllocationResult}
    (h : reserveBest w t reason best = some (w', result)) :
    ∃ e, best.1 = some e ∧ w' = w.modifyNode e (EdgeNode.allocateResources (w.demand t)) ∧
      result = { success := true, edgeId := e, reason := reason, score := best.2 } := by
  obtain ⟨chosen, score⟩ := best
  cases chosen with
  | none => cases h
  | some e =>
      cases h
      exact ⟨e, rfl, rfl, rfl⟩

theorem cheapest_of_reserve {v w' : World} {cost : EdgeId → ℚ} {initial : ℚ}
    {result : AllocationResult}
    (h : reserveBest v t reason (scanBest (fun key best => key < best) cost initial
      (getViableEdges w t)) = some (w', result)) : Cheapest w t cost result.edgeId := by
  obtain ⟨e, hbest, -, rfl⟩ := reserveBest_some h
  exact cheapest_of_scan hbest

end Reserve

section Strategies

variable {w : World} {t : TaskRef}

theorem allocateLeastLoad_eq (h : getViableEdges w t ≠ []) :
    allocateLeastLoad w t = reserveBest w t "Lowest current CPU usage"
      (scanBest (fun key best => key < best) (usedCpu w) doubleMax (getViableEdges w t)) := by
  unfold allocateLeastLoad
  simp only [List.isEmpty_iff, h, if_false, capacity_sub_available]

theorem allocatePriorityBased_eq_high (h : getViableEdges w t ≠ [])
    (hpriority : isHighPriority (w.workload t).priority = true) :
    allocatePriorityBased w t = reserveBest w t "High-priority task routed to lowest-latency edge"
      (scanBest (fun key best => key < best) (latency w) int64Max (getViableEdges w t)) := by
  unfold allocatePriorityBased
  simp only [List.isEmpty_iff, h, if_false, hpriority, if_true]
  rfl

theorem allocatePriorityBased_eq_standard (h : getViableEdges w t ≠ [])
    (hpriority : isHighPriority (w.workload t).priority = false) :
    allocatePriorityBased w t = reserveBest w t "Standard-priority task routed to shortest queue"
      (scanBest (fun key best => key < best) (queueLength w) doubleMax (getViableEdges w t)) := by
  unfold allocatePriorityBased
  simp only [List.isEmpty_iff, h, if_false, hpriority, Bool.false_eq_true]
  rfl

theorem allocateMultiConstraint_eq (h : getViableEdges w t ≠ []) :
    allocateMultiConstraint w t = reserveBest w t "Highest multi-constraint suitability score"
      (scanBest (fun key best => best < key) (score w t) (-doubleMax) (getViableEdges w t)) := by
  unfold allocateMultiConstraint
  simp only [List.isEmpty_iff, h, if_false]
  rfl

theorem allocateMultiConstraint_isSome_iff (h : getViableEdges w t ≠ []) :
    (allocateMultiConstraint w t).isSome ↔ ∃ e, Candidate w t e ∧ -doubleMax < score w t e := by
  rw [allocateMultiConstraint_eq h, reserveBest_isSome, scan_neg, scan_isSome_iff]
  simp only [neg_lt]

theorem allocateRoundRobin_eq (h : getViableEdges w t ≠ []) :
    ∃ e, Candidate w t e ∧
      (getViableEdges w t)[w.allocator.roundRobinIndex % (getViableEdges w t).length]? = some e ∧
      allocateRoundRobin w t = reserveBest
        (w.modifyAllocator fun allocator =>
          { allocator with roundRobinIndex := (allocator.roundRobinIndex + 1) % sizeModulus })
        t "Round-robin selection" (some e, 0) := by
  have hlength : 0 < (getViableEdges w t).length := List.length_pos_iff.mpr h
  have hindex := List.getElem?_eq_getElem (Nat.mod_lt w.allocator.roundRobinIndex hlength)
  refine ⟨_, mem_getViableEdges_iff.mp (List.mem_of_getElem? hindex), hindex, ?_⟩
  unfold allocateRoundRobin
  simp only [List.isEmpty_iff, h, if_false, hindex]

theorem dispatch_of_nil (h : getViableEdges w t = []) : dispatch w t = some (w, noViableEdge) := by
  unfold dispatch allocateRoundRobin allocateLeastLoad allocatePriorityBased allocateMultiConstraint
  simp only [h, List.isEmpty_nil, if_true]
  split <;> rfl

theorem optimal_of_dispatch {w' : World} {result : AllocationResult}
    (hviable : getViableEdges w t ≠ []) (h : dispatch w t = some (w', result)) :
    Optimal w t result.edgeId := by
  unfold dispatch at h
  unfold Optimal
  cases hstrategy : w.allocator.strategy with
  | roundRobin => trivial
  | leastLoad =>
      rw [hstrategy, allocateLeastLoad_eq hviable] at h
      exact cheapest_of_reserve h
  | priorityBased =>
      rw [hstrategy] at h
      dsimp only at h ⊢
      split_ifs with hpriority
      · rw [allocatePriorityBased_eq_high hviable hpriority] at h
        exact cheapest_of_reserve h
      · rw [allocatePriorityBased_eq_standard hviable (by simpa using hpriority)] at h
        exact cheapest_of_reserve h
  | multiConstraint =>
      rw [hstrategy, allocateMultiConstraint_eq hviable] at h
      obtain ⟨e, hbest, -, rfl⟩ := reserveBest_some h
      rw [scan_neg] at hbest
      exact cheapest_of_scan hbest

end Strategies

structure Reserved (w w' : World) (t : TaskRef) (e : EdgeId) : Prop where
  candidate : Candidate w t e
  optimal : Optimal w t e
  usage : (w'.node e).currentUsage = (w.node e).currentUsage + w.demand t
  others : ∀ x, x ≠ e → w'.node x = w.node x
  queues : ∀ x, (w'.node x).taskQueue = (w.node x).taskQueue
  capacities : ∀ x, (w'.node x).capacity = (w.node x).capacity
  available : ∀ x, (w'.node x).isAvailable = (w.node x).isAvailable
  fleet : w'.fleet = w.fleet
  workload : w'.workload = w.workload
  assignedEdgeId : (w'.task t).assignedEdgeId = e
  status : (w'.task t).status = .queued

section Attempts

variable {w : World} {t : TaskRef}

theorem allocateTask_of_nil (h : getViableEdges w t = []) :
    allocateTask w t =
      some ((w.modifyAllocator countRequest).modifyAllocator countFailure, noViableEdge) := by
  unfold allocateTask
  rw [dispatch_of_nil (w := w.modifyAllocator countRequest) h]
  rfl

theorem allocateTask_of_dispatch {w' : World} {result : AllocationResult}
    (h : dispatch (w.modifyAllocator countRequest) t = some (w', result))
    (hsuccess : result.success = true) :
    allocateTask w t =
      some (((w'.modifyAllocator countSuccess).modifyTask t
        (assignTask result.edgeId)).modifyDatabase (Database.updateTaskStatus t .queued),
          result) := by
  unfold allocateTask
  rw [h]
  simp [hsuccess]

theorem reserved_of_dispatch {w' : World} {result : AllocationResult}
    (hviable : getViableEdges w t ≠ [])
    (h : dispatch (w.modifyAllocator countRequest) t = some (w', result)) :
    result.success = true ∧
      Reserved w (((w'.modifyAllocator countSuccess).modifyTask t
        (assignTask result.edgeId)).modifyDatabase (Database.updateTaskStatus t .queued))
          t result.edgeId := by
  have hoptimal := optimal_of_dispatch (w := w.modifyAllocator countRequest) hviable h
  cases dispatch_attempt h with
  | refuse hnil => exact absurd hnil hviable
  | @reserve e reason score index hmem =>
      refine ⟨rfl, mem_getViableEdges_iff.mp hmem, hoptimal, ?_, fun x hx => ?_, fun x => ?_,
        fun x => ?_, fun x => ?_, rfl, rfl, ?_, ?_⟩
      all_goals simp only [World.modifyDatabase_node, World.modifyTask_node,
        World.modifyAllocator_node, World.modifyDatabase_task, World.modifyTask_self]
      · simp
        rfl
      · simp [hx]
      · by_cases hx : x = e <;> simp [hx]
      · by_cases hx : x = e <;> simp [hx]
      · by_cases hx : x = e <;> simp [hx]
      · rfl
      · rfl

theorem allocateTask_cases {w' : World} {result : AllocationResult}
    (h : allocateTask w t = some (w', result)) :
    getViableEdges w t = [] ∧ result = noViableEdge ∧
        w' = (w.modifyAllocator countRequest).modifyAllocator countFailure ∨
      getViableEdges w t ≠ [] ∧ result.success = true ∧ Reserved w w' t result.edgeId := by
  by_cases hviable : getViableEdges w t = []
  · rw [allocateTask_of_nil hviable] at h
    cases h
    exact Or.inl ⟨hviable, rfl, rfl⟩
  · have hcall := h
    unfold allocateTask at hcall
    obtain ⟨⟨w₁, result₁⟩, hdispatch, -⟩ := Option.bind_eq_some_iff.mp hcall
    obtain ⟨hsuccess, hreserved⟩ := reserved_of_dispatch hviable hdispatch
    rw [allocateTask_of_dispatch hdispatch hsuccess] at h
    cases h
    exact Or.inr ⟨hviable, hsuccess, hreserved⟩

end Attempts

end EdgeAllocator.Placement
