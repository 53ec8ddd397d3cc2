import EdgeAllocator.World

/-! `ResourceAllocator` as sequential code: the viability filter, the scan of
each strategy, the score, and one allocation attempt. -/
namespace EdgeAllocator.Allocator

structure AllocationResult where
  success : Bool
  edgeId : EdgeId := ""
  reason : String
  score : ℚ := 0

def doubleMax : ℚ := 2 ^ 1024 - 2 ^ 971

def int64Max : ℚ := 2 ^ 63 - 1

def sizeModulus : Nat := 2 ^ 64

def kMaxQueueLengthForScore : ℚ := 100

def normalizeScore (r : Resource) (node : EdgeNode) : ℚ :=
  if node.capacity.amounts r ≤ 0 then 0
  else EdgeNode.clamp (node.getAvailable r / node.capacity.amounts r) 0 1

def normalizeCpuScore : EdgeNode → ℚ := normalizeScore .cpu
def normalizeRamScore : EdgeNode → ℚ := normalizeScore .ram
def normalizeBandwidthScore : EdgeNode → ℚ := normalizeScore .bandwidth

def normalizeLatencyScore (node : EdgeNode) : ℚ :=
  EdgeNode.clamp (1 - node.getLatencyMs / 100) (1 / 100) 1

def normalizeQueueScore (node : EdgeNode) : ℚ :=
  EdgeNode.clamp (1 - node.getQueueLength / kMaxQueueLengthForScore) 0 1

def priorityScore : TaskPriority → ℚ
  | .critical => 1
  | .high => 3 / 4
  | .medium => 1 / 2
  | .low => 1 / 4

def totalScore (weights : AllocationWeights) (priority : TaskPriority)
    (cpu ram bandwidth latency queue : ℚ) : ℚ :=
  (weights.cpuWeight * cpu + weights.ramWeight * ram + weights.bandwidthWeight * bandwidth +
    weights.latencyWeight * latency + weights.queueWeight * queue +
    weights.priorityWeight * priorityScore priority) * 100

def calculateAllocationScore (weights : AllocationWeights) (priority : TaskPriority)
    (node : EdgeNode) : ℚ :=
  totalScore weights priority (normalizeCpuScore node) (normalizeRamScore node)
    (normalizeBandwidthScore node) (normalizeLatencyScore node) (normalizeQueueScore node)

def isHighPriority : TaskPriority → Bool
  | .high | .critical => true
  | .low | .medium => false

def getViableEdges (w : World) (t : TaskRef) : List EdgeId :=
  w.fleet.ids.filter fun e =>
    (w.node e).isAvailable && (w.node e).canAllocate (w.demand t)

/-- The scan of the viable edges for the best key so far. The first component
stays `none` (the null pointer) while no key has beaten the initial one. -/
def scanBest (better : ℚ → ℚ → Bool) (key : EdgeId → ℚ) (initial : ℚ) (viable : List EdgeId) :
    Option EdgeId × ℚ :=
  viable.foldl (fun best e => if better (key e) best.2 then (some e, key e) else best)
    (none, initial)

def noViableEdge : AllocationResult :=
  { success := false, reason := "No viable edge node has sufficient resources" }

/-- Reserve on the scan's best edge. Where the scan found none the program
dereferences a null pointer, and there is no result. -/
def reserveBest (w : World) (t : TaskRef) (reason : String) :
    Option EdgeId × ℚ → Option (World × AllocationResult)
  | (none, _) => none
  | (some e, score) =>
      some (w.modifyNode e (EdgeNode.allocateResources (w.demand t)),
        { success := true, edgeId := e, reason := reason, score := score })

def allocateRoundRobin (w : World) (t : TaskRef) : Option (World × AllocationResult) :=
  let viable := getViableEdges w t
  if viable.isEmpty then some (w, noViableEdge)
  else
    let chosen := viable[w.allocator.roundRobinIndex % viable.length]?
    let w := w.modifyAllocator fun allocator =>
      { allocator with roundRobinIndex := (allocator.roundRobinIndex + 1) % sizeModulus }
    reserveBest w t "Round-robin selection" (chosen, 0)

def allocateLeastLoad (w : World) (t : TaskRef) : Option (World × AllocationResult) :=
  let viable := getViableEdges w t
  if viable.isEmpty then some (w, noViableEdge)
  else
    let usedCpu e := (w.node e).capacity.amounts .cpu - (w.node e).getAvailable .cpu
    reserveBest w t "Lowest current CPU usage"
      (scanBest (fun key best => key < best) usedCpu doubleMax viable)

def allocatePriorityBased (w : World) (t : TaskRef) : Option (World × AllocationResult) :=
  let viable := getViableEdges w t
  if viable.isEmpty then some (w, noViableEdge)
  else if isHighPriority (w.workload t).priority then
    let latency e : ℚ := (w.node e).getLatencyMs
    reserveBest w t "High-priority task routed to lowest-latency edge"
      (scanBest (fun key best => key < best) latency int64Max viable)
  else
    let queueLength e : ℚ := (w.node e).getQueueLength
    reserveBest w t "Standard-priority task routed to shortest queue"
      (scanBest (fun key best => key < best) queueLength doubleMax viable)

def allocateMultiConstraint (w : World) (t : TaskRef) : Option (World × AllocationResult) :=
  let viable := getViableEdges w t
  if viable.isEmpty then some (w, noViableEdge)
  else
    let score e := calculateAllocationScore w.allocator.weights (w.workload t).priority (w.node e)
    reserveBest w t "Highest multi-constraint suitability score"
      (scanBest (fun key best => best < key) score (-doubleMax) viable)

def dispatch (w : World) (t : TaskRef) : Option (World × AllocationResult) :=
  match w.allocator.strategy with
  | .roundRobin => allocateRoundRobin w t
  | .leastLoad => allocateLeastLoad w t
  | .priorityBased => allocatePriorityBased w t
  | .multiConstraint => allocateMultiConstraint w t

def countRequest (allocator : ResourceAllocator) : ResourceAllocator :=
  { allocator with totalAllocations := allocator.totalAllocations + 1 }

def countSuccess (allocator : ResourceAllocator) : ResourceAllocator :=
  { allocator with successfulAllocations := allocator.successfulAllocations + 1 }

def countFailure (allocator : ResourceAllocator) : ResourceAllocator :=
  { allocator with failedAllocations := allocator.failedAllocations + 1 }

def assignTask (e : EdgeId) (task : Task) : Task :=
  (task.setAssignedEdgeId e).setStatus .queued

/-- One call of `allocateTask` with no other thread in between. -/
def allocateTask (w : World) (t : TaskRef) : Option (World × AllocationResult) := do
  let (w, result) ← dispatch (w.modifyAllocator countRequest) t
  if result.success then
    some (((w.modifyAllocator countSuccess).modifyTask t (assignTask result.edgeId)).modifyDatabase
      (Database.updateTaskStatus t .queued), result)
  else some (w.modifyAllocator countFailure, result)

theorem mem_getViableEdges {w : World} {t : TaskRef} {e : EdgeId}
    (h : e ∈ getViableEdges w t) :
    e ∈ w.fleet.ids ∧ (w.node e).isAvailable = true ∧
      (w.node e).canAllocate (w.demand t) = true := by
  simpa [getViableEdges] using h

private theorem foldl_best_mem {better : ℚ → ℚ → Bool} {key : EdgeId → ℚ} {viable : List EdgeId}
    {start : Option EdgeId × ℚ} {e : EdgeId}
    (h : (viable.foldl (fun best e => if better (key e) best.2 then (some e, key e) else best)
      start).1 = some e) : start.1 = some e ∨ e ∈ viable := by
  induction viable generalizing start with
  | nil => exact Or.inl h
  | cons head rest ih =>
      rw [List.foldl_cons] at h
      rcases ih h with hstart | hrest
      · split_ifs at hstart
        · cases Option.some.inj hstart
          exact Or.inr List.mem_cons_self
        · exact Or.inl hstart
      · exact Or.inr (List.mem_cons_of_mem _ hrest)

theorem scanBest_mem {better : ℚ → ℚ → Bool} {key : EdgeId → ℚ} {initial : ℚ}
    {viable : List EdgeId} {e : EdgeId} (h : (scanBest better key initial viable).1 = some e) :
    e ∈ viable := by
  rcases foldl_best_mem h with hstart | hmem
  · cases hstart
  · exact hmem

/-- What an attempt can do: fail and change nothing, or reserve on one viable
edge. The round-robin index is the only other thing it touches. -/
inductive Attempt (w : World) (t : TaskRef) : World → AllocationResult → Prop where
  | refuse (h : getViableEdges w t = []) : Attempt w t w noViableEdge
  | reserve {e : EdgeId} {reason : String} {score : ℚ} (index : Nat)
      (h : e ∈ getViableEdges w t) :
      Attempt w t
        ((w.modifyAllocator fun allocator => { allocator with roundRobinIndex := index }).modifyNode
          e (EdgeNode.allocateResources (w.demand t)))
        { success := true, edgeId := e, reason := reason, score := score }

private theorem attempt_of_reserveBest {w w' : World} {t : TaskRef} {reason : String}
    {result : AllocationResult} {best : Option EdgeId × ℚ}
    (hmem : ∀ e, best.1 = some e → e ∈ getViableEdges w t)
    (h : reserveBest w t reason best = some (w', result)) : Attempt w t w' result := by
  obtain ⟨chosen, score⟩ := best
  cases chosen with
  | none => cases h
  | some e =>
      cases h
      exact .reserve w.allocator.roundRobinIndex (hmem e rfl)

theorem dispatch_attempt {w w' : World} {t : TaskRef} {result : AllocationResult}
    (h : dispatch w t = some (w', result)) : Attempt w t w' result := by
  have hscan {better : ℚ → ℚ → Bool} {key : EdgeId → ℚ} {initial : ℚ} (e : EdgeId)
      (he : (scanBest better key initial (getViableEdges w t)).1 = some e) :
      e ∈ getViableEdges w t := scanBest_mem he
  unfold dispatch at h
  split at h
  · simp only [allocateRoundRobin] at h
    split at h
    · cases h
      exact .refuse (List.isEmpty_iff.mp ‹_›)
    · cases hchosen : (getViableEdges w t)[w.allocator.roundRobinIndex %
          (getViableEdges w t).length]? with
      | none =>
          rw [hchosen] at h
          cases h
      | some e =>
          rw [hchosen] at h
          cases h
          exact .reserve _ (List.mem_of_getElem? hchosen)
  · simp only [allocateLeastLoad] at h
    split at h
    · cases h
      exact .refuse (List.isEmpty_iff.mp ‹_›)
    · exact attempt_of_reserveBest hscan h
  · simp only [allocatePriorityBased] at h
    split at h
    · cases h
      exact .refuse (List.isEmpty_iff.mp ‹_›)
    · split at h
      · exact attempt_of_reserveBest hscan h
      · exact attempt_of_reserveBest hscan h
  · simp only [allocateMultiConstraint] at h
    split at h
    · cases h
      exact .refuse (List.isEmpty_iff.mp ‹_›)
    · exact attempt_of_reserveBest hscan h

end EdgeAllocator.Allocator
