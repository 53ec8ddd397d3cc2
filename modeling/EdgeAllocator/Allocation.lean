import EdgeAllocator.Allocator
import EdgeAllocator.Executor

/-! The same two entry points, `allocateTask` and `allocateTaskWithRetry`, at
the granularity of the locks: other threads move between the reads of the scan,
between the scan and the reservation, and between two attempts. -/
namespace EdgeAllocator.Allocation

open Allocator Executor

inductive AllocKind where
  | once
  | withRetry (maxRetries : Nat)

structure AllocCall where
  task : TaskRef
  kind : AllocKind

/-- Where a call stands. `n` is the `attempt` counter; `todo` the edges the loop
has yet to visit; `reads` the values read so far from the first of them. -/
inductive AllocPc where
  | lock
  | attempt (n : Nat)
  | scan (n : Nat) (todo viable : List EdgeId)
  | examine (n : Nat) (e : EdgeId) (todo viable : List EdgeId)
  | compare (n : Nat) (todo : List EdgeId) (reads : List ℚ) (best : Option EdgeId) (key : ℚ)
  | reserve (n : Nat) (e : EdgeId) (score : ℚ)
  | assign (e : EdgeId) (score : ℚ)
  | persist (e : EdgeId) (score : ℚ)
  | retry (n : Nat)
  | fail
  | unlock (result : AllocationResult)
  | returned (result : AllocationResult)

def probeCount : AllocationStrategy → Nat
  | .roundRobin => 0
  | .leastLoad => 1
  | .priorityBased => 1
  | .multiConstraint => 5

def probe (strategy : AllocationStrategy) (priority : TaskPriority) (j : Nat)
    (node : EdgeNode) : ℚ :=
  match strategy with
  | .roundRobin => 0
  | .leastLoad => node.capacity.amounts .cpu - node.getAvailable .cpu
  | .priorityBased =>
      if isHighPriority priority then node.getLatencyMs else node.getQueueLength
  | .multiConstraint =>
      match j with
      | 0 => normalizeCpuScore node
      | 1 => normalizeRamScore node
      | 2 => normalizeBandwidthScore node
      | 3 => normalizeLatencyScore node
      | _ => normalizeQueueScore node

def candidateKey (weights : AllocationWeights) (priority : TaskPriority) : List ℚ → ℚ
  | [key] => key
  | [cpu, ram, bandwidth, latency, queue] =>
      totalScore weights priority cpu ram bandwidth latency queue
  | _ => 0

def initialKey (strategy : AllocationStrategy) (priority : TaskPriority) : ℚ :=
  match strategy with
  | .roundRobin => 0
  | .leastLoad => doubleMax
  | .priorityBased => if isHighPriority priority then int64Max else doubleMax
  | .multiConstraint => -doubleMax

def improves (strategy : AllocationStrategy) (key best : ℚ) : Bool :=
  match strategy with
  | .multiConstraint => best < key
  | _ => key < best

def selectionReason (strategy : AllocationStrategy) (priority : TaskPriority) : String :=
  match strategy with
  | .roundRobin => "Round-robin selection"
  | .leastLoad => "Lowest current CPU usage"
  | .priorityBased =>
      if isHighPriority priority then "High-priority task routed to lowest-latency edge"
      else "Standard-priority task routed to shortest queue"
  | .multiConstraint => "Highest multi-constraint suitability score"

def acquire (me : Thread) (allocator : ResourceAllocator) : ResourceAllocator :=
  { countRequest allocator with strategyMutex := some me }

def release (allocator : ResourceAllocator) : ResourceAllocator :=
  { allocator with strategyMutex := none }

def advanceRoundRobin (allocator : ResourceAllocator) : ResourceAllocator :=
  { allocator with roundRobinIndex := (allocator.roundRobinIndex + 1) % sizeModulus }

/-- One step of a call. It is not enabled while another thread has the mutex,
after the return, and where the scan ended with a null `best`. -/
def allocStep (me : Thread) (call : AllocCall) (w : World) : AllocPc → Option (World × AllocPc)
  | .lock =>
      if w.allocator.strategyMutex = none then
        some (w.modifyAllocator (acquire me), .attempt 0)
      else none
  | .attempt n => some (w, .scan n w.fleet.ids [])
  | .scan n (e :: todo) viable =>
      some (w, if (w.node e).isAvailable then .examine n e todo viable else .scan n todo viable)
  | .examine n e todo viable =>
      some (w, .scan n todo
        (if (w.node e).canAllocate (w.demand call.task) then viable ++ [e] else viable))
  | .scan n [] viable =>
      if viable = [] then some (w, .retry n)
      else if w.allocator.strategy = .roundRobin then
        (viable[w.allocator.roundRobinIndex % viable.length]?).map fun e =>
          (w.modifyAllocator advanceRoundRobin, .reserve n e 0)
      else
        some (w, .compare n viable [] none
          (initialKey w.allocator.strategy (w.workload call.task).priority))
  | .compare n [] _ best key => best.map fun e => (w, .reserve n e key)
  | .compare n (e :: todo) reads best key =>
      let strategy := w.allocator.strategy
      let priority := (w.workload call.task).priority
      if reads.length < probeCount strategy then
        some (w, .compare n (e :: todo)
          (reads ++ [probe strategy priority reads.length (w.node e)]) best key)
      else
        let candidate := candidateKey w.allocator.weights priority reads
        some (w, if improves strategy candidate key then .compare n todo [] (some e) candidate
          else .compare n todo [] best key)
  | .reserve _ e score =>
      some (w.modifyNode e (EdgeNode.allocateResources (w.demand call.task)), .assign e score)
  | .assign e score =>
      some ((w.modifyAllocator countSuccess).modifyTask call.task (assignTask e),
        .persist e score)
  | .persist e score =>
      some (w.modifyDatabase (Database.updateTaskStatus call.task .queued),
        .unlock { success := true, edgeId := e, score := score,
                  reason := selectionReason w.allocator.strategy
                    (w.workload call.task).priority })
  | .retry n =>
      match call.kind with
      | .once => some (w, .fail)
      | .withRetry maxRetries =>
          -- A registry without nodes ends the loop; otherwise the thread sleeps
          -- and the counter, a `std::size_t`, is compared again.
          let next := (n + 1) % sizeModulus
          some (w, if w.fleet.ids ≠ [] ∧ next ≤ maxRetries then .attempt next else .fail)
  | .fail => some (w.modifyAllocator countFailure, .unlock noViableEdge)
  | .unlock result => some (w.modifyAllocator release, .returned result)
  | .returned _ => none

def AllocPc.granted : AllocPc → Option EdgeId
  | .assign e _ | .persist e _ => some e
  | .unlock result | .returned result => if result.success then some result.edgeId else none
  | _ => none

/-- The edge on which the next step of the call reserves. -/
def AllocPc.grants : AllocPc → List EdgeId
  | .reserve _ e _ => [e]
  | _ => []

def AllocPc.uncounted : AllocPc → Nat
  | .assign _ _ => 1
  | _ => 0

def AllocPc.candidates : AllocPc → List EdgeId
  | .scan _ _ viable | .examine _ _ _ viable => viable
  | .compare _ todo _ best _ => best.toList ++ todo
  | .reserve _ e _ => [e]
  | _ => []

def AllocPc.edges : AllocPc → List EdgeId
  | .scan _ todo viable => todo ++ viable
  | .examine _ e todo viable => e :: (todo ++ viable)
  | .compare _ todo _ best _ => best.toList ++ todo
  | .reserve _ e _ | .assign e _ | .persist e _ => [e]
  | .unlock result | .returned result => if result.success then [result.edgeId] else []
  | _ => []

/-- The possible steps of a call, each named after what it does. -/
inductive AllocMove (me : Thread) (call : AllocCall) (w : World) :
    AllocPc → World → AllocPc → Prop where
  | enter (h : w.allocator.strategyMutex = none) :
      AllocMove me call w .lock (w.modifyAllocator (acquire me)) (.attempt 0)
  | start (n : Nat) : AllocMove me call w (.attempt n) w (.scan n w.fleet.ids [])
  | visit (n : Nat) (e : EdgeId) (todo viable : List EdgeId)
      (h : (w.node e).isAvailable = true) :
      AllocMove me call w (.scan n (e :: todo) viable) w (.examine n e todo viable)
  | skip (n : Nat) (e : EdgeId) (todo viable : List EdgeId)
      (h : (w.node e).isAvailable = false) :
      AllocMove me call w (.scan n (e :: todo) viable) w (.scan n todo viable)
  | accept (n : Nat) (e : EdgeId) (todo viable : List EdgeId)
      (h : (w.node e).canAllocate (w.demand call.task) = true) :
      AllocMove me call w (.examine n e todo viable) w (.scan n todo (viable ++ [e]))
  | reject (n : Nat) (e : EdgeId) (todo viable : List EdgeId)
      (h : (w.node e).canAllocate (w.demand call.task) = false) :
      AllocMove me call w (.examine n e todo viable) w (.scan n todo viable)
  | refuse (n : Nat) : AllocMove me call w (.scan n [] []) w (.retry n)
  | rotate (n : Nat) {e : EdgeId} {viable : List EdgeId} (h : e ∈ viable) :
      AllocMove me call w (.scan n [] viable) (w.modifyAllocator advanceRoundRobin)
        (.reserve n e 0)
  | rank (n : Nat) (viable : List EdgeId) (key : ℚ) :
      AllocMove me call w (.scan n [] viable) w (.compare n viable [] none key)
  | read (n : Nat) (e : EdgeId) (todo : List EdgeId) (reads : List ℚ) (best : Option EdgeId)
      (key x : ℚ) :
      AllocMove me call w (.compare n (e :: todo) reads best key) w
        (.compare n (e :: todo) (reads ++ [x]) best key)
  | prefer (n : Nat) (e : EdgeId) (todo : List EdgeId) (reads : List ℚ) (best : Option EdgeId)
      (key key' : ℚ) :
      AllocMove me call w (.compare n (e :: todo) reads best key) w
        (.compare n todo [] (some e) key')
  | keep (n : Nat) (e : EdgeId) (todo : List EdgeId) (reads : List ℚ) (best : Option EdgeId)
      (key : ℚ) :
      AllocMove me call w (.compare n (e :: todo) reads best key) w (.compare n todo [] best key)
  | pick (n : Nat) (reads : List ℚ) (e : EdgeId) (key : ℚ) :
      AllocMove me call w (.compare n [] reads (some e) key) w (.reserve n e key)
  | reserve (n : Nat) (e : EdgeId) (score : ℚ) :
      AllocMove me call w (.reserve n e score)
        (w.modifyNode e (EdgeNode.allocateResources (w.demand call.task))) (.assign e score)
  | assign (e : EdgeId) (score : ℚ) :
      AllocMove me call w (.assign e score)
        ((w.modifyAllocator countSuccess).modifyTask call.task (assignTask e)) (.persist e score)
  | persist (e : EdgeId) (score : ℚ) (reason : String) :
      AllocMove me call w (.persist e score)
        (w.modifyDatabase (Database.updateTaskStatus call.task .queued))
        (.unlock { success := true, edgeId := e, reason := reason, score := score })
  | again (n next : Nat) : AllocMove me call w (.retry n) w (.attempt next)
  | giveUp (n : Nat) : AllocMove me call w (.retry n) w .fail
  | fail : AllocMove me call w .fail (w.modifyAllocator countFailure) (.unlock noViableEdge)
  | unlock (result : AllocationResult) :
      AllocMove me call w (.unlock result) (w.modifyAllocator release) (.returned result)

theorem allocStep_move {me : Thread} {call : AllocCall} {w w' : World} {pc pc' : AllocPc}
    (h : allocStep me call w pc = some (w', pc')) : AllocMove me call w pc w' pc' := by
  cases pc with
  | lock =>
      simp only [allocStep] at h
      split_ifs at h with hfree
      cases h
      exact .enter hfree
  | attempt n =>
      cases h
      exact .start n
  | scan n todo viable =>
      cases todo with
      | nil =>
          simp only [allocStep] at h
          split_ifs at h with hempty hrobin
          · cases h
            rw [hempty]
            exact .refuse n
          · obtain ⟨e, he, hnext⟩ := Option.map_eq_some_iff.mp h
            cases hnext
            exact .rotate n (List.mem_of_getElem? he)
          · cases h
            exact .rank n viable _
      | cons e todo =>
          simp only [allocStep] at h
          split_ifs at h with havailable <;> cases h
          · exact .visit n e todo viable havailable
          · exact .skip n e todo viable (Bool.not_eq_true _ ▸ havailable)
  | examine n e todo viable =>
      simp only [allocStep] at h
      split_ifs at h with hfits <;> cases h
      · exact .accept n e todo viable hfits
      · exact .reject n e todo viable (Bool.not_eq_true _ ▸ hfits)
  | compare n todo reads best key =>
      cases todo with
      | nil =>
          obtain ⟨e, he, hnext⟩ := Option.map_eq_some_iff.mp h
          cases hnext
          rw [he]
          exact .pick n reads e key
      | cons e todo =>
          simp only [allocStep] at h
          split_ifs at h <;> cases h
          · exact .read n e todo reads best key _
          · exact .prefer n e todo reads best key _
          · exact .keep n e todo reads best key
  | reserve n e score =>
      cases h
      exact .reserve n e score
  | assign e score =>
      cases h
      exact .assign e score
  | persist e score =>
      cases h
      exact .persist e score _
  | retry n =>
      simp only [allocStep] at h
      split at h
      · cases h
        exact .giveUp n
      · split_ifs at h <;> cases h
        · exact .again n _
        · exact .giveUp n
  | fail =>
      cases h
      exact .fail
  | unlock result =>
      cases h
      exact .unlock result
  | returned result => cases h

section Effect

variable {me : Thread} {call : AllocCall} {w w' : World} {pc pc' : AllocPc}

theorem allocStep_frame (h : allocStep me call w pc = some (w', pc')) : Frame w w' := by
  cases allocStep_move h with
  | reserve n e score => exact Frame.modifyNode w e rfl
  | _ => exact Frame.of_node rfl rfl rfl

theorem allocStep_node (h : allocStep me call w pc = some (w', pc')) :
    (w'.node = w.node ∧ pc'.granted = pc.granted ∧ pc.grants = []) ∨
      ∃ n e score, pc = .reserve n e score ∧ pc' = .assign e score ∧
        w' = w.modifyNode e (EdgeNode.allocateResources (w.demand call.task)) := by
  cases allocStep_move h with
  | reserve n e score => exact Or.inr ⟨n, e, score, rfl, rfl, rfl⟩
  | _ => exact Or.inl ⟨rfl, rfl, rfl⟩

theorem allocStep_taskCounter (h : allocStep me call w pc = some (w', pc')) :
    w'.taskCounter = w.taskCounter := by
  cases allocStep_move h <;> rfl

theorem allocStep_successes (h : allocStep me call w pc = some (w', pc')) :
    w'.allocator.successfulAllocations + pc'.uncounted =
      w.allocator.successfulAllocations + pc.uncounted + pc.grants.length := by
  cases allocStep_move h <;> rfl

theorem allocStep_strategies (h : allocStep me call w pc = some (w', pc')) :
    w'.allocator.strategy = w.allocator.strategy ∧ w'.scheduler = w.scheduler := by
  cases allocStep_move h <;> exact ⟨rfl, rfl⟩

theorem allocStep_executor (h : allocStep me call w pc = some (w', pc')) :
    w'.executor = w.executor := by
  cases allocStep_move h <;> rfl

theorem allocStep_task (h : allocStep me call w pc = some (w', pc')) :
    w'.task = w.task ∨ ∃ e, pc.granted = some e := by
  cases allocStep_move h with
  | assign e score => exact Or.inr ⟨e, rfl⟩
  | _ => exact Or.inl rfl

theorem allocStep_task_of_ne (h : allocStep me call w pc = some (w', pc')) {t : TaskRef}
    (ht : t ≠ call.task) : w'.task t = w.task t := by
  cases allocStep_move h with
  | assign e score => exact World.modifyTask_of_ne _ _ ht
  | _ => rfl

theorem allocStep_candidates (h : allocStep me call w pc = some (w', pc')) {e : EdgeId}
    (he : e ∈ pc'.candidates) :
    e ∈ pc.candidates ∨ (∃ n todo viable, pc = .examine n e todo viable) ∧
      (w.node e).canAllocate (w.demand call.task) = true := by
  cases allocStep_move h with
  | accept n head todo viable hfits =>
      rcases List.mem_append.mp he with hold | hnew
      · exact Or.inl hold
      · rw [List.mem_singleton.mp hnew]
        exact Or.inr ⟨⟨n, todo, viable, rfl⟩, hfits⟩
  | rotate n hmem =>
      rw [List.mem_singleton.mp he]
      exact Or.inl hmem
  | prefer n head todo reads best key key' =>
      refine Or.inl (List.mem_append_right _ ?_)
      simpa [AllocPc.candidates] using he
  | keep n head todo reads best key =>
      refine Or.inl ?_
      simp only [AllocPc.candidates, List.mem_append, List.mem_cons] at he ⊢
      exact he.imp_right Or.inr
  | visit n head todo viable _ => exact Or.inl he
  | skip n head todo viable _ => exact Or.inl he
  | reject n head todo viable _ => exact Or.inl he
  | rank n viable key => exact Or.inl he
  | read n head todo reads best key x => exact Or.inl he
  | pick n reads head key => exact Or.inl he
  | _ => cases he

theorem allocStep_edges (h : allocStep me call w pc = some (w', pc'))
    (hedges : ∀ e ∈ pc.edges, e ∈ w.fleet.ids) : ∀ e ∈ pc'.edges, e ∈ w.fleet.ids := by
  intro e he
  cases allocStep_move h with
  | start n => simpa [AllocPc.edges] using he
  | rotate n hmem =>
      rw [List.mem_singleton.mp he]
      exact hedges _ hmem
  | enter _ => cases he
  | refuse n => cases he
  | fail => cases he
  | again n next => cases he
  | giveUp n => cases he
  | _ =>
      apply hedges
      simp only [AllocPc.edges, List.mem_append, List.mem_cons, Option.mem_toList,
        List.not_mem_nil, Option.toList_none, Option.toList_some, if_true] at he ⊢
      tauto

end Effect

end EdgeAllocator.Allocation
