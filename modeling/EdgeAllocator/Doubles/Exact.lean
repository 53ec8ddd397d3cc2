import EdgeAllocator.Doubles.Specification
import EdgeAllocator.Placement

/-! The allocator on doubles against the one in exact arithmetic. Where nothing is rounded
that decides or is written, the two choose the same node and leave the same state. -/
namespace EdgeAllocator.Doubles

open Foundation
open Double (Is Representable)
open Allocator (sizeModulus)

structure EdgeNode.Represents (node : EdgeNode) (exact : EdgeAllocator.EdgeNode) : Prop where
  capacity : ∀ r, (node.capacity.amounts r).Is (exact.capacity.amounts r)
  latencyMs : node.getLatencyMs = exact.getLatencyMs
  currentUsage : ∀ r, (node.currentUsage r).Is (exact.currentUsage r)
  taskQueue : node.taskQueue = exact.taskQueue
  isAvailable : node.isAvailable = exact.isAvailable
  totalTasksProcessed : node.totalTasksProcessed = exact.totalTasksProcessed

/-- The weights have no part in it. -/
structure ResourceAllocator.Represents (allocator : ResourceAllocator)
    (exact : EdgeAllocator.ResourceAllocator) : Prop where
  strategy : allocator.strategy = exact.strategy
  totalAllocations : allocator.totalAllocations = exact.totalAllocations
  successfulAllocations : allocator.successfulAllocations = exact.successfulAllocations
  failedAllocations : allocator.failedAllocations = exact.failedAllocations
  roundRobinIndex : allocator.roundRobinIndex = exact.roundRobinIndex
  strategyMutex : allocator.strategyMutex = exact.strategyMutex

structure Represents (w : World) (v : EdgeAllocator.World) : Prop where
  fleet : w.fleet = v.fleet
  demand : ∀ t r, (w.demand t r).Is (v.demand t r)
  priority : ∀ t, (w.workload t).priority = (v.workload t).priority.rank
  node : ∀ e, (w.node e).Represents (v.node e)
  task : w.task = v.task
  taskCounter : w.taskCounter = v.taskCounter
  allocator : w.allocator.Represents v.allocator

/-- What is left of each node, what the usage of a candidate becomes and the lengths of the
queues are doubles, and the scores compare as the exact ones do. -/
structure Lossless (w : World) (v : EdgeAllocator.World) (t : TaskRef) : Prop where
  available : ∀ e ∈ v.fleet.ids, ∀ r, Representable ((v.node e).getAvailable r)
  usage : ∀ e, Placement.Candidate v t e → ∀ r,
    Representable ((v.node e).currentUsage r + v.demand t r)
  queue : ∀ e ∈ v.fleet.ids, (v.node e).getQueueLength ≤ 2 ^ 53
  lowest : v.allocator.strategy = .multiConstraint → ∀ e ∈ v.fleet.ids,
    (-doubleMax < score w t e ↔ -Allocator.doubleMax < Placement.score v t e)
  score : v.allocator.strategy = .multiConstraint → ∀ e ∈ v.fleet.ids, ∀ x ∈ v.fleet.ids,
    (score w t x < score w t e ↔ Placement.score v t x < Placement.score v t e)

/-- Both attempts end, or neither does. The score that is reported may be rounded. -/
def SameAttempt : Option (World × AllocationResult) →
    Option (EdgeAllocator.World × Allocator.AllocationResult) → Prop :=
  Option.Rel fun (w, result) (v, exact) => Represents w v ∧
    result.success = exact.success ∧ result.edgeId = exact.edgeId ∧ result.reason = exact.reason

theorem doubleMax_is : doubleMax.Is Allocator.doubleMax := by
  unfold Double.Is
  decide +kernel

theorem int64Max_cast : Allocator.int64Max = int64Max := by
  norm_num [Allocator.int64Max, int64Max]

theorem isHighPriority_rank (priority : TaskPriority) :
    isHighPriority priority.rank = Allocator.isHighPriority priority := by
  cases priority <;> rfl

/-- Whole numbers up to 2 ^ 53 are never rounded. -/
theorem lossless_of_whole {w : World} {v : EdgeAllocator.World} {t : TaskRef}
    (hstrategy : v.allocator.strategy ≠ .multiConstraint)
    (hnode : ∀ e ∈ v.fleet.ids, ∀ r, ∃ capacity usage : ℕ, usage ≤ capacity ∧ capacity ≤ 2 ^ 53 ∧
      (v.node e).capacity.amounts r = capacity ∧ (v.node e).currentUsage r = usage)
    (hdemand : ∀ r, ∃ amount : ℕ, v.demand t r = amount)
    (hqueue : ∀ e ∈ v.fleet.ids, (v.node e).getQueueLength ≤ 2 ^ 53) : Lossless w v t where
  available e he r := by
    obtain ⟨capacity, usage, hle, hbound, hcapacity, husage⟩ := hnode e he r
    have hleft : (v.node e).getAvailable r = ((capacity - usage : ℕ) : ℚ) := by
      rw [EdgeAllocator.EdgeNode.getAvailable, Pi.sub_apply, hcapacity, husage, Nat.cast_sub hle]
    rw [hleft]
    exact Double.representable_natCast ((Nat.sub_le _ _).trans hbound)
  usage e he r := by
    obtain ⟨capacity, usage, -, hbound, hcapacity, husage⟩ := hnode e he.1 r
    obtain ⟨amount, hamount⟩ := hdemand r
    have hfits : (v.node e).currentUsage r + v.demand t r ≤ (v.node e).capacity.amounts r :=
      he.2.2 r
    rw [hcapacity, husage, hamount] at hfits
    rw [husage, hamount, ← Nat.cast_add]
    exact Double.representable_natCast ((Nat.cast_le.mp (by exact_mod_cast hfits)).trans hbound)
  queue := hqueue
  lowest h := absurd h hstrategy
  score h := absurd h hstrategy

namespace Represents

variable {w : World} {v : EdgeAllocator.World} {t : TaskRef}

section Update

theorem modifyNode (h : Represents w v) {e : EdgeId} {f : EdgeNode → EdgeNode}
    {g : EdgeAllocator.EdgeNode → EdgeAllocator.EdgeNode}
    (hnode : (f (w.node e)).Represents (g (v.node e))) :
    Represents (w.modifyNode e f) (v.modifyNode e g) := by
  refine { h with node := fun x => ?_ }
  by_cases hx : x = e
  · subst hx
    rw [World.modifyNode_self, EdgeAllocator.World.modifyNode_self]
    exact hnode
  · rw [World.modifyNode_of_ne _ _ hx, EdgeAllocator.World.modifyNode_of_ne _ _ hx]
    exact h.node x

theorem modifyTask (h : Represents w v) (f : Task → Task) :
    Represents (w.modifyTask t f) (v.modifyTask t f) :=
  { h with
    task := by
      show Function.update w.task t (f (w.task t)) = Function.update v.task t (f (v.task t))
      rw [h.task] }

theorem countRequest (h : Represents w v) :
    Represents (w.modifyAllocator countRequest) (v.modifyAllocator Allocator.countRequest) :=
  { h with
    allocator := { h.allocator with
      totalAllocations := congrArg (· + 1) h.allocator.totalAllocations } }

theorem countSuccess (h : Represents w v) :
    Represents (w.modifyAllocator countSuccess) (v.modifyAllocator Allocator.countSuccess) :=
  { h with
    allocator := { h.allocator with
      successfulAllocations := congrArg (· + 1) h.allocator.successfulAllocations } }

theorem countFailure (h : Represents w v) :
    Represents (w.modifyAllocator countFailure) (v.modifyAllocator Allocator.countFailure) :=
  { h with
    allocator := { h.allocator with
      failedAllocations := congrArg (· + 1) h.allocator.failedAllocations } }

theorem turn (h : Represents w v) :
    Represents
      (w.modifyAllocator fun allocator =>
        { allocator with roundRobinIndex := (allocator.roundRobinIndex + 1) % sizeModulus })
      (v.modifyAllocator fun allocator =>
        { allocator with roundRobinIndex := (allocator.roundRobinIndex + 1) % sizeModulus }) :=
  { h with
    allocator := { h.allocator with
      roundRobinIndex := congrArg (fun index => (index + 1) % sizeModulus)
        h.allocator.roundRobinIndex } }

theorem reserve (h : Represents w v) {reason : String} {score : Double} {chosen : Option EdgeId}
    {exact : ℚ} (husage : ∀ e, chosen = some e → ∀ r,
      Representable ((v.node e).currentUsage r + v.demand t r)) :
    SameAttempt (reserve w t reason score chosen)
      (Allocator.reserveBest v t reason (chosen, exact)) := by
  cases chosen with
  | none => exact .none
  | some e =>
      have hnode := h.node e
      refine .some ⟨h.modifyNode { hnode with
        currentUsage := fun r => ?_
        totalTasksProcessed := congrArg (· + 1) hnode.totalTasksProcessed }, rfl, rfl, rfl⟩
      exact (hnode.currentUsage r).add (h.demand t r) (husage e rfl r)

end Update

section Keys

theorem getAvailable (h : Represents w v) (hlossless : Lossless w v t) {e : EdgeId}
    (he : e ∈ v.fleet.ids) (r : Resource) :
    ((w.node e).getAvailable r).Is ((v.node e).getAvailable r) :=
  ((h.node e).capacity r).sub ((h.node e).currentUsage r) (hlossless.available e he r)

theorem getViableEdges (h : Represents w v) (hlossless : Lossless w v t) :
    getViableEdges w t = Allocator.getViableEdges v t := by
  unfold Doubles.getViableEdges Allocator.getViableEdges
  rw [h.fleet]
  refine List.filter_congr fun e he => ?_
  have hroom (r : Resource) :
      decide (w.demand t r ≤ (w.node e).getAvailable r) =
        decide (v.demand t r ≤ (v.node e).getAvailable r) :=
    decide_eq_decide.mpr ((h.demand t r).le_iff (h.getAvailable hlossless he r))
  rw [EdgeNode.canAllocate, EdgeAllocator.EdgeNode.canAllocate, (h.node e).isAvailable, hroom,
    hroom, hroom]

theorem usedCpu (h : Represents w v) (hlossless : Lossless w v t) {e : EdgeId}
    (he : e ∈ v.fleet.ids) : (usedCpu (w.node e)).Is (Placement.usedCpu v e) := by
  have hsub := ((h.node e).capacity .cpu).sub (h.getAvailable hlossless he .cpu)
  rw [Placement.capacity_sub_available] at hsub
  exact hsub ((h.node e).currentUsage .cpu).representable

theorem queueLength (h : Represents w v) (hlossless : Lossless w v t) {e : EdgeId}
    (he : e ∈ v.fleet.ids) :
    (Double.ofRat (w.node e).getQueueLength).Is (Placement.queueLength v e) := by
  have hlength := hlossless.queue e he
  have hcount : (w.node e).getQueueLength = (v.node e).getQueueLength := by
    rw [EdgeNode.getQueueLength, (h.node e).taskQueue]
    unfold EdgeAllocator.EdgeNode.getQueueLength at hlength ⊢
    exact Int.bmod_eq_of_le (by omega) (by unfold Allocator.sizeModulus; omega)
  rw [hcount, Int.cast_natCast]
  exact Double.representable_natCast hlength

theorem latency (h : Represents w v) (e : EdgeId) :
    Placement.latency v e = (w.node e).getLatencyMs := by
  rw [(h.node e).latencyMs]
  rfl

end Keys

theorem reserve_scan {β : Type} (h : Represents w v) (hlossless : Lossless w v t)
    {better : β → β → Bool} {better' : ℚ → ℚ → Bool} {key : EdgeId → β} {cost : EdgeId → ℚ}
    {initial : β} {initial' : ℚ} (reason : String) (score : Double)
    (hinitial : ∀ e ∈ v.fleet.ids, better (key e) initial = better' (cost e) initial')
    (hkey : ∀ e ∈ v.fleet.ids, ∀ x ∈ v.fleet.ids,
      better (key e) (key x) = better' (cost e) (cost x)) :
    SameAttempt
      (Doubles.reserve w t reason score
        (scanFor better key initial (Allocator.getViableEdges v t)).1)
      (Allocator.reserveBest v t reason
        (Allocator.scanBest better' cost initial' (Allocator.getViableEdges v t))) := by
  have hmem {e : EdgeId} (he : e ∈ Allocator.getViableEdges v t) : e ∈ v.fleet.ids :=
    (Allocator.mem_getViableEdges he).1
  have hsame : (scanFor better key initial (Allocator.getViableEdges v t)).1 =
      (scanFor better' cost initial' (Allocator.getViableEdges v t)).1 :=
    scanFor_fst_congr (fun e he => hinitial e (hmem he)) fun e he x hx => hkey e (hmem he) x (hmem hx)
  rw [Placement.scanBest_eq_scanFor, hsame]
  exact h.reserve fun e he => hlossless.usage e
    (Placement.mem_getViableEdges_iff.mp (scanFor_mem he))

theorem dispatch (h : Represents w v) (hlossless : Lossless w v t) :
    SameAttempt (dispatch w t) (Allocator.dispatch v t) := by
  by_cases hviable : Allocator.getViableEdges v t = []
  · rw [Placement.dispatch_of_nil hviable,
      dispatch_of_nil ((h.getViableEdges hlossless).trans hviable)]
    exact .some ⟨h, rfl, rfl, rfl⟩
  unfold Doubles.dispatch Allocator.dispatch
  rw [h.allocator.strategy]
  cases hstrategy : v.allocator.strategy with
  | roundRobin =>
      obtain ⟨e, hcandidate, hindex, heq⟩ := Placement.allocateRoundRobin_eq hviable
      dsimp only
      rw [heq]
      unfold allocateRoundRobin
      simp only [h.getViableEdges hlossless, h.allocator.roundRobinIndex, hindex,
        List.isEmpty_iff, hviable, if_false]
      refine h.turn.reserve fun x hx => ?_
      cases hx
      exact hlossless.usage e hcandidate
  | leastLoad =>
      dsimp only
      rw [Placement.allocateLeastLoad_eq hviable]
      unfold allocateLeastLoad
      simp only [h.getViableEdges hlossless, List.isEmpty_iff, hviable, if_false]
      refine h.reserve_scan hlossless _ _ (fun e he => ?_) fun e he x hx => ?_
      · exact decide_eq_decide.mpr ((h.usedCpu hlossless he).lt_iff doubleMax_is)
      · exact decide_eq_decide.mpr ((h.usedCpu hlossless he).lt_iff (h.usedCpu hlossless hx))
  | priorityBased =>
      dsimp only
      unfold allocatePriorityBased
      rw [h.priority, isHighPriority_rank]
      simp only [h.getViableEdges hlossless, List.isEmpty_iff, hviable, if_false]
      cases hpriority : Allocator.isHighPriority (v.workload t).priority with
      | true =>
          rw [Placement.allocatePriorityBased_eq_high hviable hpriority]
          refine h.reserve_scan hlossless _ _ (fun e he => ?_) fun e he x hx => ?_
          · rw [h.latency, int64Max_cast, decide_eq_decide, Int.cast_lt]
          · rw [h.latency, h.latency, decide_eq_decide, Int.cast_lt]
      | false =>
          rw [Placement.allocatePriorityBased_eq_standard hviable hpriority]
          refine h.reserve_scan hlossless _ _ (fun e he => ?_) fun e he x hx => ?_
          · exact decide_eq_decide.mpr ((h.queueLength hlossless he).lt_iff doubleMax_is)
          · exact decide_eq_decide.mpr
              ((h.queueLength hlossless he).lt_iff (h.queueLength hlossless hx))
  | multiConstraint =>
      dsimp only
      rw [Placement.allocateMultiConstraint_eq hviable]
      unfold allocateMultiConstraint
      simp only [h.getViableEdges hlossless, List.isEmpty_iff, hviable, if_false]
      refine h.reserve_scan hlossless _ _ (fun e he => ?_) fun e he x hx => ?_
      · exact decide_eq_decide.mpr (hlossless.lowest hstrategy e he)
      · exact decide_eq_decide.mpr (hlossless.score hstrategy e he x hx)

end Represents

/-- Where nothing is lost, an attempt on doubles is the attempt in exact arithmetic. -/
theorem allocateTask_exact {w : World} {v : EdgeAllocator.World} {t : TaskRef}
    (h : Represents w v) (hlossless : Lossless w v t) :
    SameAttempt (allocateTask w t) (Allocator.allocateTask v t) := by
  have hdispatch := h.countRequest.dispatch (t := t)
    ⟨hlossless.available, hlossless.usage, hlossless.queue, hlossless.lowest, hlossless.score⟩
  unfold allocateTask Allocator.allocateTask
  generalize dispatch _ t = attempt, Allocator.dispatch _ t = exact at hdispatch ⊢
  cases hdispatch with
  | none => exact .none
  | @some attempt exact hsame =>
      obtain ⟨w', result⟩ := attempt
      obtain ⟨v', exact⟩ := exact
      obtain ⟨hworld, hsuccess, hedge, hreason⟩ := hsame
      simp only [Option.bind_some, Option.bind_eq_bind, hsuccess, hedge]
      split_ifs with hdone
      · exact .some ⟨{ hworld.countSuccess.modifyTask (Allocator.assignTask exact.edgeId) with },
          hsuccess, hedge, hreason⟩
      · exact .some ⟨hworld.countFailure, hsuccess, hedge, hreason⟩

end EdgeAllocator.Doubles
