import EdgeAllocator.Reallocation
import EdgeAllocator.Foundation.Locking

/-! The operations of `ResourceMonitor` with the mutexes that they and the callback
of `ResourceController` take: `nodes_mutex_`, the `strategy_mutex_` of the allocator
and the `resource_mutex_` of each node. -/
namespace EdgeAllocator.Reentry

open Foundation Foundation.Locking
open Allocator (AllocationResult sizeModulus doubleMax int64Max isHighPriority totalScore
  kMaxQueueLengthForScore noViableEdge countRequest countSuccess countFailure assignTask)
open Controller (State markReallocated)

inductive Mutex where
  | nodes
  | strategy
  | resource (e : EdgeId)
  deriving DecidableEq

/-- The order in which the mutexes are taken while others are held. -/
def Mutex.rank : Mutex → Nat
  | .nodes => 0
  | .strategy => 1
  | .resource _ => 2

abbrev Code := Locking Mutex State

def modifyWorld (f : World → World) : Code Unit :=
  .modify fun s => { s with world := f s.world }

def inspect (e : EdgeId) (f : EdgeNode → α) : Code α :=
  .withLock (.resource e) (.read fun s => f (s.world.node e))

def update (e : EdgeId) (f : EdgeNode → EdgeNode) : Code Unit :=
  .withLock (.resource e) (modifyWorld (World.modifyNode e f))

def isAvailable (e : EdgeId) : Code Bool := .read fun s => (s.world.node e).isAvailable

def setAvailable (e : EdgeId) (available : Bool) : Code Unit :=
  modifyWorld (World.modifyNode e (EdgeNode.setAvailable available))

def getCapacity (e : EdgeId) : Code ResourceCapacity := .read fun s => (s.world.node e).capacity

def getAvailable (r : Resource) (e : EdgeId) : Code ℚ := inspect e fun node => node.getAvailable r

def getQueueLength (e : EdgeId) : Code Nat := inspect e EdgeNode.getQueueLength

def hasTasksInQueue (e : EdgeId) : Code Bool := inspect e EdgeNode.hasTasksInQueue

def dequeueTask (e : EdgeId) : Code TaskPtr :=
  .withLock (.resource e) do
    let task ← .read fun s => (s.world.node e).dequeueTask.1
    modifyWorld (World.modifyNode e fun node => node.dequeueTask.2)
    pure task

def canAllocate (demand : Amounts) (e : EdgeId) : Code Bool :=
  inspect e (EdgeNode.canAllocate demand)

def allocateResources (demand : Amounts) (e : EdgeId) : Code Unit :=
  update e (EdgeNode.allocateResources demand)

def simulateResourceFluctuation (draws : EdgeNode.Draws) (e : EdgeId) : Code Unit :=
  update e (EdgeNode.simulateResourceFluctuation draws)

def getAllEdgeNodes : Code (List EdgeId) := .read fun s => s.world.fleet.ids

def getRequirements (t : TaskRef) : Code TaskRequirements := .read fun s => s.world.workload t

def getViableEdges (t : TaskRef) : Code (List EdgeId) := do
  let requirements ← getRequirements t
  let edges ← getAllEdgeNodes
  edges.foldlM (fun viable e => do
    if ← isAvailable e then
      if ← canAllocate requirements.demand e then pure (viable ++ [e]) else pure viable
    else pure viable) []

def scanBest (better : ℚ → ℚ → Bool) (key : EdgeId → Code ℚ) (initial : ℚ)
    (viable : List EdgeId) : Code (Option EdgeId × ℚ) :=
  viable.foldlM (fun best e => do
    let k ← key e
    pure (if better k best.2 then (some e, k) else best)) (none, initial)

def reserveBest (t : TaskRef) (reason : String) :
    Option EdgeId × ℚ → Code AllocationResult
  | (none, _) => .fault
  | (some e, score) => do
      let requirements ← getRequirements t
      allocateResources requirements.demand e
      pure { success := true, edgeId := e, reason := reason, score := score }

def normalizeScore (r : Resource) (e : EdgeId) : Code ℚ := do
  let capacity ← getCapacity e
  if capacity.amounts r ≤ 0 then pure 0
  else
    let available ← getAvailable r e
    pure (EdgeNode.clamp (available / capacity.amounts r) 0 1)

def normalizeLatencyScore (e : EdgeId) : Code ℚ := do
  let capacity ← getCapacity e
  pure (EdgeNode.clamp (1 - capacity.latencyMs / 100) (1 / 100) 1)

def normalizeQueueScore (e : EdgeId) : Code ℚ := do
  let queueLength ← getQueueLength e
  pure (EdgeNode.clamp (1 - queueLength / kMaxQueueLengthForScore) 0 1)

def calculateAllocationScore (t : TaskRef) (e : EdgeId) : Code ℚ := do
  let cpu ← normalizeScore .cpu e
  let ram ← normalizeScore .ram e
  let bandwidth ← normalizeScore .bandwidth e
  let latency ← normalizeLatencyScore e
  let queue ← normalizeQueueScore e
  let requirements ← getRequirements t
  let weights ← .read fun s => s.world.allocator.weights
  pure (totalScore weights requirements.priority cpu ram bandwidth latency queue)

def allocateRoundRobin (t : TaskRef) : Code AllocationResult := do
  let viable ← getViableEdges t
  if viable.isEmpty then pure noViableEdge
  else
    let index ← .read fun s => s.world.allocator.roundRobinIndex
    modifyWorld (World.modifyAllocator fun allocator =>
      { allocator with roundRobinIndex := (allocator.roundRobinIndex + 1) % sizeModulus })
    reserveBest t "Round-robin selection" (viable[index % viable.length]?, 0)

def usedCpu (e : EdgeId) : Code ℚ := do
  let capacity ← getCapacity e
  let available ← getAvailable .cpu e
  pure (capacity.amounts .cpu - available)

def latency (e : EdgeId) : Code ℚ := do
  let capacity ← getCapacity e
  pure capacity.latencyMs

def queueLength (e : EdgeId) : Code ℚ := do
  let length ← getQueueLength e
  pure length

def allocateLeastLoad (t : TaskRef) : Code AllocationResult := do
  let viable ← getViableEdges t
  if viable.isEmpty then pure noViableEdge
  else
    let best ← scanBest (fun key best => key < best) usedCpu doubleMax viable
    reserveBest t "Lowest current CPU usage" best

def allocatePriorityBased (t : TaskRef) : Code AllocationResult := do
  let viable ← getViableEdges t
  if viable.isEmpty then pure noViableEdge
  else
    let requirements ← getRequirements t
    if isHighPriority requirements.priority then
      let best ← scanBest (fun key best => key < best) latency int64Max viable
      reserveBest t "High-priority task routed to lowest-latency edge" best
    else
      let best ← scanBest (fun key best => key < best) queueLength doubleMax viable
      reserveBest t "Standard-priority task routed to shortest queue" best

def allocateMultiConstraint (t : TaskRef) : Code AllocationResult := do
  let viable ← getViableEdges t
  if viable.isEmpty then pure noViableEdge
  else
    let best ← scanBest (fun key best => best < key) (calculateAllocationScore t) (-doubleMax)
      viable
    reserveBest t "Highest multi-constraint suitability score" best

def dispatch (t : TaskRef) : Code AllocationResult := do
  match ← .read fun s => s.world.allocator.strategy with
  | .roundRobin => allocateRoundRobin t
  | .leastLoad => allocateLeastLoad t
  | .priorityBased => allocatePriorityBased t
  | .multiConstraint => allocateMultiConstraint t

def concludeAllocation (t : TaskRef) (result : AllocationResult) : Code Unit :=
  if result.success then
    modifyWorld fun w => ((w.modifyAllocator countSuccess).modifyTask t
      (assignTask result.edgeId)).modifyDatabase (Database.updateTaskStatus t .queued)
  else modifyWorld (World.modifyAllocator countFailure)

def allocateTask (t : TaskRef) : Code AllocationResult :=
  .withLock .strategy do
    modifyWorld (World.modifyAllocator countRequest)
    let result ← dispatch t
    concludeAllocation t result
    pure result

def allocateTaskNow (t : TaskRef) : Code AllocationResult := do
  let result ← allocateTask t
  .modify fun s => { s with counters := s.counters.allocation result.success }
  pure result

def getEdgeNode (e : EdgeId) : Code (Option EdgeId) :=
  .withLock .nodes (.read fun s => s.world.getEdgeNode e)

def reallocateTask (t : TaskRef) : Code Unit := do
  .modify fun s => { s with world := markReallocated t s.world, removed := s.removed ++ [t] }
  let result ← allocateTaskNow t
  .modify fun s => { s with counters := s.counters.reallocation result.success }

def reallocateLoop (e : EdgeId) : Nat → Code Unit
  | 0 => pure ()
  | rounds + 1 => do
      if ← hasTasksInQueue e then
        match ← dequeueTask e with
        | none => reallocateLoop e rounds
        | some t => do
            reallocateTask t
            reallocateLoop e rounds
      else pure ()

def reallocateTasksFromFailedNode (e : EdgeId) : Code Unit := do
  match ← getEdgeNode e with
  | none => pure ()
  | some e => do
      let length ← .read fun s => (s.world.node e).getQueueLength
      reallocateLoop e (length + 1)

def handleNodeFailure (e : EdgeId) : Code Unit := reallocateTasksFromFailedNode e

def onNodeStatusChanged (e : EdgeId) (available : Bool) : Code Unit :=
  if available then pure () else handleNodeFailure e

def registerEdgeNode (e : EdgeId) (named : e ≠ "") (node : EdgeNode) : Code Unit :=
  .withLock .nodes (modifyWorld fun w =>
    { w.modifyNode e fun _ => node with fleet := w.fleet.register e named })

def unregisterEdgeNode (e : EdgeId) : Code Unit :=
  .withLock .nodes (modifyWorld fun w => { w with fleet := w.fleet.unregister e })

def isNodeHealthy (e : EdgeId) : Code Bool := isAvailable e

/-- The callback runs while `nodes_mutex_` is held. -/
def checkEdgeNodeHealth : Code Unit :=
  .withLock .nodes do
    let edges ← getAllEdgeNodes
    edges.forM fun e => do
      let healthy ← isNodeHealthy e
      onNodeStatusChanged e healthy

def updateResourceMetrics (draws : EdgeId → EdgeNode.Draws) : Code Unit :=
  .withLock .nodes do
    let edges ← getAllEdgeNodes
    edges.forM fun e => do
      if ← isAvailable e then simulateResourceFluctuation (draws e) e else pure ()

def markNode (e : EdgeId) (available : Bool) (count : Controller.Counters → Controller.Counters) :
    Code (Option EdgeId) :=
  .withLock .nodes do
    match ← .read fun s => s.world.getEdgeNode e with
    | none => pure none
    | some e => do
        setAvailable e available
        .modify fun s => { s with counters := count s.counters }
        pure (some e)

/-- The callback runs after `nodes_mutex_` has been released. -/
def simulateNodeFailure (e : EdgeId) : Code Unit := do
  match ← markNode e false Controller.Counters.failure with
  | none => pure ()
  | some e => onNodeStatusChanged e false

def recoverNodeFromFailure (e : EdgeId) : Code Unit := do
  match ← markNode e true Controller.Counters.recovery with
  | none => pure ()
  | some e => onNodeStatusChanged e true

def nodeIds (available : Bool) : Code (List EdgeId) :=
  .withLock .nodes do
    let edges ← getAllEdgeNodes
    edges.foldlM (fun result e => do
      if (← isAvailable e) = available then pure (result ++ [e]) else pure result) []

def getAvailableNodeIds : Code (List EdgeId) := nodeIds true

def getFailedNodeIds : Code (List EdgeId) := nodeIds false

def getAvailableNodeCount : Code Nat :=
  .withLock .nodes do
    let edges ← getAllEdgeNodes
    edges.foldlM (fun count e => do
      if ← isAvailable e then pure (count + 1) else pure count) 0

def getTotalNodeFailures : Code Nat := .read fun s => s.counters.totalNodeFailures

def getTotalNodeRecoveries : Code Nat := .read fun s => s.counters.totalNodeRecoveries

inductive Operation where
  | registerEdgeNode (e : EdgeId) (named : e ≠ "") (node : EdgeNode)
  | unregisterEdgeNode (e : EdgeId)
  | getEdgeNode (e : EdgeId)
  | getAllEdgeNodes
  | checkEdgeNodeHealth
  | updateResourceMetrics (draws : EdgeId → EdgeNode.Draws)
  | simulateNodeFailure (e : EdgeId)
  | recoverNodeFromFailure (e : EdgeId)
  | getAvailableNodeCount
  | getAvailableNodeIds
  | getFailedNodeIds
  | getTotalNodeFailures
  | getTotalNodeRecoveries

def Operation.run : Operation → Code Unit
  | .registerEdgeNode e named node => Reentry.registerEdgeNode e named node
  | .unregisterEdgeNode e => Reentry.unregisterEdgeNode e
  | .getEdgeNode e => do let _ ← Reentry.getEdgeNode e
  | .getAllEdgeNodes => do let _ ← Reentry.getAllEdgeNodes
  | .checkEdgeNodeHealth => Reentry.checkEdgeNodeHealth
  | .updateResourceMetrics draws => Reentry.updateResourceMetrics draws
  | .simulateNodeFailure e => Reentry.simulateNodeFailure e
  | .recoverNodeFromFailure e => Reentry.recoverNodeFromFailure e
  | .getAvailableNodeCount => do let _ ← Reentry.getAvailableNodeCount
  | .getAvailableNodeIds => do let _ ← Reentry.getAvailableNodeIds
  | .getFailedNodeIds => do let _ ← Reentry.getFailedNodeIds
  | .getTotalNodeFailures => do let _ ← Reentry.getTotalNodeFailures
  | .getTotalNodeRecoveries => do let _ ← Reentry.getTotalNodeRecoveries

theorem inspect_computes (e : EdgeId) (f : EdgeNode → α) :
    Computes Mutex.rank 2 (inspect e f) fun s => some (f (s.world.node e), s) :=
  .withLock le_rfl (.read _)

theorem update_computes (e : EdgeId) (f : EdgeNode → EdgeNode) :
    Computes Mutex.rank 2 (update e f) fun s =>
      some ((), { s with world := s.world.modifyNode e f }) :=
  .withLock le_rfl (.modify _)

theorem dequeueTask_computes (e : EdgeId) :
    Computes Mutex.rank 2 (dequeueTask e) fun s => some ((s.world.node e).dequeueTask.1,
      { s with world := s.world.modifyNode e fun node => node.dequeueTask.2 }) :=
  .withLock le_rfl (.bind (.read _) fun task => .bind (.modify _) fun _ => .pure task)

theorem foldl_push (p : EdgeId → Bool) (ids result : List EdgeId) :
    ids.foldl (fun result e => if p e then result ++ [e] else result) result =
      result ++ ids.filter p := by
  induction ids generalizing result with
  | nil => exact (List.append_nil result).symm
  | cons e ids ih =>
      rw [List.foldl_cons, ih, List.filter_cons]
      split
      · rw [List.append_assoc, List.singleton_append]
      · rfl

theorem getViableEdges_computes (t : TaskRef) :
    Computes Mutex.rank 2 (getViableEdges t) fun s =>
      some (Allocator.getViableEdges s.world t, s) := by
  have hstep (demand : Amounts) (viable : List EdgeId) (e : EdgeId) :
      Computes Mutex.rank 2 (do
        if ← isAvailable e then
          if ← canAllocate demand e then pure (viable ++ [e]) else pure viable
        else pure viable) fun s => some (if (s.world.node e).isAvailable &&
          (s.world.node e).canAllocate demand then viable ++ [e] else viable, s) := by
    refine Computes.congr (.bind (.read _) fun available => .ite _
      (.bind (inspect_computes e _) fun fits => .ite _ (.pure _) (.pure _)) (.pure _)) fun s => ?_
    simp only [Option.bind_some]
    cases (s.world.node e).isAvailable <;> cases (s.world.node e).canAllocate demand <;> rfl
  refine Computes.congr (.bind (.read _) fun requirements => .bind (.read _) fun edges =>
    .foldlM (hstep requirements.demand) edges []) fun s => ?_
  simp only [Option.bind_some, foldl_push]
  rfl

theorem scanBest_computes {better : ℚ → ℚ → Bool} {key : EdgeId → Code ℚ}
    {value : State → EdgeId → ℚ}
    (h : ∀ e, Computes Mutex.rank 2 (key e) fun s => some (value s e, s)) (initial : ℚ)
    (viable : List EdgeId) :
    Computes Mutex.rank 2 (scanBest better key initial viable) fun s =>
      some (Allocator.scanBest better (value s) initial viable, s) :=
  .foldlM (fun (best : Option EdgeId × ℚ) e => .bind (h e) fun k => .pure
    (if better k best.2 then (some e, k) else best)) viable (none, initial)

theorem normalizeScore_computes (r : Resource) (e : EdgeId) :
    Computes Mutex.rank 2 (normalizeScore r e) fun s =>
      some (Allocator.normalizeScore r (s.world.node e), s) := by
  refine Computes.congr (.bind (.read _) fun capacity => .ite _ (.pure _)
    (.bind (inspect_computes e _) fun available => .pure _)) fun s => ?_
  unfold Allocator.normalizeScore
  simp only [Option.bind_some]
  split <;> rfl

theorem calculateAllocationScore_computes (t : TaskRef) (e : EdgeId) :
    Computes Mutex.rank 2 (calculateAllocationScore t e) fun s =>
      some (Allocator.calculateAllocationScore s.world.allocator.weights
        (s.world.workload t).priority (s.world.node e), s) := by
  refine Computes.congr (.bind (normalizeScore_computes .cpu e) fun cpu =>
    .bind (normalizeScore_computes .ram e) fun ram =>
    .bind (normalizeScore_computes .bandwidth e) fun bandwidth =>
    .bind (.bind (.read _) fun capacity => .pure _) fun latency =>
    .bind (.bind (inspect_computes e _) fun length => .pure _) fun queue =>
    .bind (.read _) fun requirements => .bind (.read _) fun weights => .pure _) fun s => rfl

def onWorld (f : World → Option (World × α)) (s : State) : Option (α × State) :=
  (f s.world).map fun (w, a) => (a, { s with world := w })

theorem reserveBest_computes (t : TaskRef) (reason : String) (best : Option EdgeId × ℚ) :
    Computes Mutex.rank 2 (reserveBest t reason best)
      (onWorld fun w => Allocator.reserveBest w t reason best) := by
  obtain ⟨chosen, score⟩ := best
  cases chosen with
  | none => exact .fault
  | some e => exact .bind (.read _) fun requirements => .bind (update_computes e _) fun _ => .pure _

theorem viable_computes (t : TaskRef) {choose : List EdgeId → Code AllocationResult}
    {chosen : List EdgeId → State → Option (AllocationResult × State)}
    (h : ∀ viable, Computes Mutex.rank 2 (choose viable) (chosen viable)) :
    Computes Mutex.rank 2 (do
      let viable ← getViableEdges t
      if viable.isEmpty then pure noViableEdge else choose viable) fun s =>
        if (Allocator.getViableEdges s.world t).isEmpty then some (noViableEdge, s)
        else chosen (Allocator.getViableEdges s.world t) s :=
  .bind (getViableEdges_computes t) fun viable => .ite _ (.pure _) (h viable)

theorem allocateRoundRobin_computes (t : TaskRef) :
    Computes Mutex.rank 2 (allocateRoundRobin t)
      (onWorld fun w => Allocator.allocateRoundRobin w t) := by
  refine Computes.congr (viable_computes t fun viable => .bind (.read _) fun index =>
    .bind (.modify _) fun _ =>
      reserveBest_computes t _ (viable[index % viable.length]?, 0)) fun s => ?_
  unfold onWorld Allocator.allocateRoundRobin
  dsimp only
  split <;> rfl

theorem allocateLeastLoad_computes (t : TaskRef) :
    Computes Mutex.rank 2 (allocateLeastLoad t)
      (onWorld fun w => Allocator.allocateLeastLoad w t) := by
  have husedCpu (e : EdgeId) : Computes Mutex.rank 2 (usedCpu e) fun s =>
      some ((s.world.node e).capacity.amounts .cpu - (s.world.node e).getAvailable .cpu, s) :=
    .bind (.read _) fun capacity => .bind (inspect_computes e _) fun available => .pure _
  refine Computes.congr (viable_computes t fun viable =>
    .bind (scanBest_computes husedCpu _ viable) (reserveBest_computes t _)) fun s => ?_
  unfold onWorld Allocator.allocateLeastLoad
  dsimp only
  split <;> rfl

theorem allocatePriorityBased_computes (t : TaskRef) :
    Computes Mutex.rank 2 (allocatePriorityBased t)
      (onWorld fun w => Allocator.allocatePriorityBased w t) := by
  have hlatency (e : EdgeId) : Computes Mutex.rank 2 (latency e) fun s =>
      some (((s.world.node e).getLatencyMs : ℚ), s) :=
    .bind (.read _) fun capacity => .pure _
  have hqueueLength (e : EdgeId) : Computes Mutex.rank 2 (queueLength e) fun s =>
      some (((s.world.node e).getQueueLength : ℚ), s) :=
    .bind (inspect_computes e _) fun length => .pure _
  refine Computes.congr (viable_computes t fun viable => .bind (.read _) fun requirements =>
    .ite _ (.bind (scanBest_computes hlatency _ viable) (reserveBest_computes t _))
      (.bind (scanBest_computes hqueueLength _ viable) (reserveBest_computes t _))) fun s => ?_
  unfold onWorld Allocator.allocatePriorityBased
  simp only [Option.bind_some]
  split_ifs <;> rfl

theorem allocateMultiConstraint_computes (t : TaskRef) :
    Computes Mutex.rank 2 (allocateMultiConstraint t)
      (onWorld fun w => Allocator.allocateMultiConstraint w t) := by
  refine Computes.congr (viable_computes t fun viable =>
    .bind (scanBest_computes (calculateAllocationScore_computes t) _ viable)
      (reserveBest_computes t _)) fun s => ?_
  unfold onWorld Allocator.allocateMultiConstraint
  dsimp only
  split <;> rfl

theorem dispatch_computes (t : TaskRef) :
    Computes Mutex.rank 2 (dispatch t) (onWorld fun w => Allocator.dispatch w t) := by
  have hstrategy (strategy : AllocationStrategy) : Computes Mutex.rank 2
      (match strategy with
        | .roundRobin => allocateRoundRobin t
        | .leastLoad => allocateLeastLoad t
        | .priorityBased => allocatePriorityBased t
        | .multiConstraint => allocateMultiConstraint t)
      (onWorld fun w => match strategy with
        | .roundRobin => Allocator.allocateRoundRobin w t
        | .leastLoad => Allocator.allocateLeastLoad w t
        | .priorityBased => Allocator.allocatePriorityBased w t
        | .multiConstraint => Allocator.allocateMultiConstraint w t) := by
    cases strategy with
    | roundRobin => exact allocateRoundRobin_computes t
    | leastLoad => exact allocateLeastLoad_computes t
    | priorityBased => exact allocatePriorityBased_computes t
    | multiConstraint => exact allocateMultiConstraint_computes t
  exact .congr (.bind (.read _) hstrategy) fun s => rfl

theorem allocateTask_computes (t : TaskRef) :
    Computes Mutex.rank 1 (allocateTask t) (onWorld fun w => Allocator.allocateTask w t) := by
  refine Computes.congr (.withLock le_rfl (.bind (.modify _) fun _ =>
    .bind (dispatch_computes t) fun result => .bind (.ite _ (.modify _) (.modify _)) fun _ =>
      .pure result)) fun s => ?_
  unfold onWorld Allocator.allocateTask
  simp only [Option.bind_some]
  cases Allocator.dispatch (s.world.modifyAllocator countRequest) t with
  | none => rfl
  | some outcome =>
      obtain ⟨w, result⟩ := outcome
      simp only [Option.map_some, Option.bind_some, Option.bind_eq_bind]
      split <;> rfl

theorem allocateTaskNow_computes (t : TaskRef) :
    Computes Mutex.rank 1 (allocateTaskNow t) fun s =>
      (Controller.allocateTaskNow t s).map Prod.swap := by
  refine Computes.congr (.bind (allocateTask_computes t) fun result => .bind (.modify _) fun _ =>
    .pure result) fun s => ?_
  unfold onWorld Controller.allocateTaskNow
  dsimp only
  cases Allocator.allocateTask s.world t <;> rfl

def onState (f : State → Option State) (s : State) : Option (Unit × State) :=
  (f s).map fun s' => ((), s')

theorem reallocateTask_computes (t : TaskRef) :
    Computes Mutex.rank 1 (reallocateTask t) (onState (Controller.reallocateTask t)) := by
  refine Computes.congr (.bind (.modify _) fun _ => .bind (allocateTaskNow_computes t) fun result =>
    .modify _) fun s => ?_
  unfold onState Controller.reallocateTask
  simp only [Option.bind_some]
  cases Controller.allocateTaskNow t _ <;> rfl

theorem reallocateLoop_computes (e : EdgeId) (rounds : Nat) :
    Computes Mutex.rank 1 (reallocateLoop e rounds)
      (onState (Controller.reallocateLoop e rounds)) := by
  induction rounds with
  | zero => exact .pure ()
  | succ rounds ih =>
      have hround (task : TaskPtr) : Computes Mutex.rank 1
          (match task with
            | none => reallocateLoop e rounds
            | some t => do
                reallocateTask t
                reallocateLoop e rounds)
          (onState fun s => match task with
            | none => Controller.reallocateLoop e rounds s
            | some t => (Controller.reallocateTask t s).bind
                (Controller.reallocateLoop e rounds)) := by
        cases task with
        | none => exact ih
        | some t =>
            refine Computes.congr (.bind (reallocateTask_computes t) fun _ => ih) fun s => ?_
            unfold onState
            dsimp only
            cases Controller.reallocateTask t s <;> rfl
      refine Computes.congr (.bind (.mono (inspect_computes e _) (by omega)) fun more => .ite _
        (.bind (.mono (dequeueTask_computes e) (by omega)) hround) (.pure ())) fun s => ?_
      unfold onState
      rw [Controller.reallocateLoop]
      simp only [Option.bind_some]
      split <;> rfl

theorem reallocateLoop_rounds {e : EdgeId} {rounds : Nat} {s : State}
    (h : (s.world.node e).getQueueLength ≤ rounds) :
    Controller.reallocateLoop e (rounds + 1) s = Controller.reallocateLoop e rounds s := by
  induction rounds generalizing s with
  | zero =>
      have hempty : (s.world.node e).taskQueue = [] := List.length_eq_zero_iff.mp (by
        unfold EdgeNode.getQueueLength at h
        omega)
      simp only [Controller.reallocateLoop, (EdgeNode.hasTasksInQueue_eq_false _).mpr hempty,
        Bool.false_eq_true, if_false]
  | succ rounds ih =>
      rw [Controller.reallocateLoop, Controller.reallocateLoop]
      split
      · have hrest : (s.world.node e).dequeueTask.2.getQueueLength ≤ rounds := by
          unfold EdgeNode.getQueueLength EdgeNode.dequeueTask at *
          cases hqueue : (s.world.node e).taskQueue with
          | nil =>
              simp only [hqueue, List.length_nil]
              omega
          | cons task rest =>
              rw [hqueue, List.length_cons] at h
              dsimp only
              omega
        dsimp only
        split
        · apply ih
          rw [World.modifyNode_self]
          exact hrest
        · refine Option.bind_congr fun u hu => ih ?_
          rw [EdgeNode.getQueueLength, (Controller.reallocateTask_effect hu).queue,
            World.modifyNode_self]
          exact hrest
      · rfl

theorem getEdgeNode_computes (e : EdgeId) :
    Computes Mutex.rank 0 (getEdgeNode e) fun s => some (s.world.getEdgeNode e, s) :=
  .withLock le_rfl (.read _)

theorem reallocateTasksFromFailedNode_computes (e : EdgeId) :
    Computes Mutex.rank 0 (reallocateTasksFromFailedNode e)
      (onState (Controller.reallocateTasksFromFailedNode e)) := by
  have hfound (node : Option EdgeId) : Computes Mutex.rank 0
      (match node with
        | none => pure ()
        | some e => do
            let length ← .read fun s => (s.world.node e).getQueueLength
            reallocateLoop e (length + 1))
      (onState fun s => match node with
        | none => some s
        | some e => Controller.reallocateLoop e (s.world.node e).getQueueLength s) := by
    cases node with
    | none => exact .pure ()
    | some e =>
        refine Computes.congr (.bind (.read _) fun length =>
          .mono (reallocateLoop_computes e (length + 1)) (by omega)) fun s => ?_
        unfold onState
        simp only [Option.bind_some, reallocateLoop_rounds le_rfl]
  exact .congr (.bind (getEdgeNode_computes e) hfound) fun s => rfl

theorem onNodeStatusChanged_computes (e : EdgeId) (available : Bool) :
    Computes Mutex.rank 0 (onNodeStatusChanged e available)
      (onState (Controller.onNodeStatusChanged e available)) := by
  refine Computes.congr (.ite _ (.pure ()) (reallocateTasksFromFailedNode_computes e)) fun s => ?_
  unfold onState Controller.onNodeStatusChanged
  split <;> rfl

theorem markNode_computes (e : EdgeId) (available : Bool)
    (count : Controller.Counters → Controller.Counters) :
    Computes Mutex.rank 0 (do
      match ← markNode e available count with
      | none => pure ()
      | some e => onNodeStatusChanged e available)
      (onState fun s => match s.world.getEdgeNode e with
        | none => some s
        | some e => Controller.onNodeStatusChanged e available { s with
            world := s.world.modifyNode e (EdgeNode.setAvailable available)
            counters := count s.counters }) := by
  have hscope (node : Option EdgeId) : Computes Mutex.rank 1
      (match node with
        | none => pure none
        | some e => do
            setAvailable e available
            .modify fun s => { s with counters := count s.counters }
            pure (some e))
      (fun s => some (node, match node with
        | none => s
        | some e => { s with
            world := s.world.modifyNode e (EdgeNode.setAvailable available)
            counters := count s.counters })) := by
    cases node with
    | none => exact .pure none
    | some e => exact .bind (.modify _) fun _ => .bind (.modify _) fun _ => .pure (some e)
  have hcallback (node : Option EdgeId) : Computes Mutex.rank 0
      (match node with
        | none => pure ()
        | some e => onNodeStatusChanged e available)
      (onState fun s => match node with
        | none => some s
        | some e => Controller.onNodeStatusChanged e available s) := by
    cases node with
    | none => exact .pure ()
    | some e => exact onNodeStatusChanged_computes e available
  refine Computes.congr (.bind (.withLock le_rfl (.bind (.read _) hscope)) hcallback) fun s => ?_
  unfold onState
  simp only [Option.bind_some]
  cases s.world.getEdgeNode e <;> rfl

theorem simulateNodeFailure_computes (e : EdgeId) :
    Computes Mutex.rank 0 (simulateNodeFailure e) (onState (Controller.simulateNodeFailure e)) :=
  markNode_computes e false _

theorem recoverNodeFromFailure_computes (e : EdgeId) :
    Computes Mutex.rank 0 (recoverNodeFromFailure e)
      (onState (Controller.recoverNodeFromFailure e)) :=
  markNode_computes e true _

theorem updateResourceMetrics_computes (draws : EdgeId → EdgeNode.Draws) :
    Computes Mutex.rank 0 (updateResourceMetrics draws) (onState fun s =>
      some { s with world := Controller.updateResourceMetrics draws s.world }) := by
  let fluctuate (w : World) (e : EdgeId) : World :=
    if (w.node e).isAvailable then
      w.modifyNode e (EdgeNode.simulateResourceFluctuation (draws e)) else w
  have hbody (e : EdgeId) : Computes Mutex.rank 1 (do
      if ← isAvailable e then simulateResourceFluctuation (draws e) e else pure ()) fun s =>
        some ((), { s with world := fluctuate s.world e }) := by
    refine Computes.congr (.bind (.read _) fun available => .ite _
      (.mono (update_computes e _) (by omega)) (.pure ())) fun s => ?_
    simp only [Option.bind_some, fluctuate]
    split <;> rfl
  refine Computes.congr (.withLock le_rfl (.bind (.read _) fun edges => .forM hbody edges))
    fun s => ?_
  unfold onState Controller.updateResourceMetrics
  simp only [Option.bind_some, Option.map_some]
  generalize s.world.fleet.ids = edges
  congr 2
  induction edges generalizing s with
  | nil => rfl
  | cons e edges ih => exact ih _

theorem nodeIds_computes (available : Bool) :
    Computes Mutex.rank 0 (nodeIds available) fun s => some (s.world.fleet.ids.filter fun e =>
      (s.world.node e).isAvailable = available, s) := by
  have hstep (result : List EdgeId) (e : EdgeId) : Computes Mutex.rank 1 (do
      if (← isAvailable e) = available then pure (result ++ [e]) else pure result) fun s =>
        some (if decide ((s.world.node e).isAvailable = available) then result ++ [e] else result,
          s) := by
    refine Computes.congr (.bind (.read _) fun b => .ite _ (.pure _) (.pure _)) fun s => ?_
    simp only [Option.bind_some, decide_eq_true_eq]
    split <;> rfl
  refine Computes.congr (.withLock le_rfl (.bind (.read _) fun edges => .foldlM hstep edges []))
    fun s => ?_
  simp only [Option.bind_some, foldl_push]
  rfl

theorem getAvailableNodeCount_computes :
    Computes Mutex.rank 0 getAvailableNodeCount fun s =>
      some (s.world.fleet.ids.countP fun e => (s.world.node e).isAvailable, s) := by
  have hstep (count : Nat) (e : EdgeId) : Computes Mutex.rank 1 (do
      if ← isAvailable e then pure (count + 1) else pure count) fun s =>
        some (if (s.world.node e).isAvailable then count + 1 else count, s) := by
    refine Computes.congr (.bind (.read _) fun b => .ite _ (.pure _) (.pure _)) fun s => ?_
    simp only [Option.bind_some]
    split <;> rfl
  refine Computes.congr (.withLock le_rfl (.bind (.read _) fun edges => .foldlM hstep edges 0))
    fun s => ?_
  simp only [Option.bind_some]
  generalize s.world.fleet.ids = edges
  suffices ∀ count, edges.foldl (fun count e => if (s.world.node e).isAvailable then count + 1
      else count) count = count + edges.countP fun e => (s.world.node e).isAvailable by
    rw [this 0, Nat.zero_add]
  induction edges with
  | nil => exact fun _ => rfl
  | cons e edges ih =>
      intro count
      rw [List.foldl_cons, ih, List.countP_cons]
      split <;> omega

/-- Every other operation takes its mutexes in the order of the ranking. -/
theorem Operation.run_computes {op : Operation} (h : op ≠ .checkEdgeNodeHealth) :
    ∃ f, Computes Mutex.rank 0 op.run f := by
  cases op with
  | registerEdgeNode e named node => exact ⟨_, .withLock le_rfl (.modify _)⟩
  | unregisterEdgeNode e => exact ⟨_, .withLock le_rfl (.modify _)⟩
  | getEdgeNode e => exact ⟨_, .bind (getEdgeNode_computes e) fun _ => .pure ()⟩
  | getAllEdgeNodes => exact ⟨_, .bind (.read _) fun _ => .pure ()⟩
  | checkEdgeNodeHealth => exact absurd rfl h
  | updateResourceMetrics draws => exact ⟨_, updateResourceMetrics_computes draws⟩
  | simulateNodeFailure e => exact ⟨_, simulateNodeFailure_computes e⟩
  | recoverNodeFromFailure e => exact ⟨_, recoverNodeFromFailure_computes e⟩
  | getAvailableNodeCount => exact ⟨_, .bind getAvailableNodeCount_computes fun _ => .pure ()⟩
  | getAvailableNodeIds => exact ⟨_, .bind (nodeIds_computes true) fun _ => .pure ()⟩
  | getFailedNodeIds => exact ⟨_, .bind (nodeIds_computes false) fun _ => .pure ()⟩
  | getTotalNodeFailures => exact ⟨_, .bind (.read _) fun _ => .pure ()⟩
  | getTotalNodeRecoveries => exact ⟨_, .bind (.read _) fun _ => .pure ()⟩

theorem onNodeStatusChanged_holding {held : List Mutex} (h : .nodes ∈ held) (e : EdgeId)
    (s : State) : onNodeStatusChanged e false held s = .error (.relock .nodes) :=
  bind_error (withLock_held h _ s) _

theorem checkEdgeNodeHealth_run (s : State) :
    checkEdgeNodeHealth [] s =
      if ∀ e ∈ s.world.fleet.ids, (s.world.node e).isAvailable = true then .ok ((), s)
      else .error (.relock .nodes) := by
  have hloop (edges : List EdgeId) : (edges.forM (fun e => do
        let healthy ← isNodeHealthy e
        onNodeStatusChanged e healthy) : Code Unit) [.nodes] s =
      if ∀ e ∈ edges, (s.world.node e).isAvailable = true then .ok ((), s)
      else .error (.relock .nodes) := by
    induction edges with
    | nil => rfl
    | cons e edges ih =>
        have hread : isNodeHealthy e [.nodes] s = .ok ((s.world.node e).isAvailable, s) := rfl
        have hbody := bind_ok hread (onNodeStatusChanged e)
        cases havailable : (s.world.node e).isAvailable with
        | false =>
            rw [havailable, onNodeStatusChanged_holding List.mem_cons_self] at hbody
            refine (bind_error hbody _).trans (if_neg fun hall => ?_).symm
            have he := hall e List.mem_cons_self
            rw [havailable] at he
            cases he
        | true =>
            rw [havailable] at hbody
            refine (bind_ok hbody _).trans (ih.trans ?_)
            simp only [List.forall_mem_cons, havailable, true_and]
  exact (withLock_free List.not_mem_nil _ s).trans (hloop s.world.fleet.ids)

/-- No operation locks a mutex that its own thread holds, unless it is the health
check of a registry with a failed node. -/
theorem relock_free_iff (op : Operation) (s : State) :
    ¬Relocks op.run [] s ↔
      (op = .checkEdgeNodeHealth →
        ∀ e ∈ s.world.fleet.ids, (s.world.node e).isAvailable = true) := by
  by_cases hop : op = .checkEdgeNodeHealth
  · subst hop
    have hrun : Operation.checkEdgeNodeHealth.run [] s = _ := checkEdgeNodeHealth_run s
    constructor
    · intro hfree _
      by_contra hfailed
      rw [if_neg hfailed] at hrun
      exact hfree ⟨.nodes, hrun⟩
    · intro hall hrelocks
      obtain ⟨m, hm⟩ := hrelocks
      rw [if_pos (hall rfl), hm] at hrun
      cases hrun
  · obtain ⟨f, hcomputes⟩ := op.run_computes hop
    have hfree : ¬Relocks op.run [] s := hcomputes.not_relocks (fun _ hm => (by cases hm)) s
    exact ⟨fun _ hcheck => absurd hcheck hop, fun _ => hfree⟩

def failedNode : State :=
  { world := (World.boot singleNode (fun _ => nodeCapacity) (fun _ => TaskProfile.ultrasonic)
      .roundRobin .fifo).modifyNode "E01" (EdgeNode.setAvailable false) }

theorem checkEdgeNodeHealth_relocks :
    ¬∀ (op : Operation) (s : State), ¬Relocks op.run [] s := by
  intro hfree
  exact hfree .checkEdgeNodeHealth failedNode ⟨.nodes, rfl⟩

end EdgeAllocator.Reentry
