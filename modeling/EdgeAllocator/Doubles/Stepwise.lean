import EdgeAllocator.Doubles

/-! `allocateTask` in the arithmetic of `double`, at the granularity of the locks. -/
namespace EdgeAllocator.Doubles

open Foundation
open Allocator (sizeModulus)

inductive Key where
  | double (x : Double)
  | int64 (n : Int)
  deriving DecidableEq

/-- Where a call stands. `todo` are the edges the loop has yet to visit, `reads` the values
read so far from the first of them. -/
inductive AllocPc where
  | lock
  | scan (todo viable : List EdgeId)
  | examine (e : EdgeId) (todo viable : List EdgeId)
  | compare (todo : List EdgeId) (reads : List Key) (best : Option EdgeId) (key : Key)
  | reserve (e : EdgeId) (score : Double)
  | assign (e : EdgeId) (score : Double)
  | fail
  | unlock (result : AllocationResult)
  | returned (result : AllocationResult)

def probeCount : AllocationStrategy → Nat
  | .roundRobin => 0
  | .leastLoad => 1
  | .priorityBased => 1
  | .multiConstraint => 5

/-- The `j`-th of these reads, each a locked section of the node of its own. -/
def probe (strategy : AllocationStrategy) (priority : Int) (j : Nat) (node : EdgeNode) : Key :=
  match strategy with
  | .roundRobin => .double 0
  | .leastLoad => .double (usedCpu node)
  | .priorityBased =>
      if isHighPriority priority then .int64 node.getLatencyMs
      else .double (.ofRat node.getQueueLength)
  | .multiConstraint =>
      match j with
      | 0 => .double (normalizeCpuScore node)
      | 1 => .double (normalizeRamScore node)
      | 2 => .double (normalizeBandwidthScore node)
      | 3 => .double (normalizeLatencyScore node)
      | _ => .double (normalizeQueueScore node)

def candidateKey (weights : AllocationWeights) (priority : Int) : List Key → Key
  | [key] => key
  | [.double cpu, .double ram, .double bandwidth, .double latency, .double queue] =>
      .double (totalScore weights priority cpu ram bandwidth latency queue)
  | _ => .double 0

def initialKey (strategy : AllocationStrategy) (priority : Int) : Key :=
  match strategy with
  | .roundRobin => .double 0
  | .leastLoad => .double doubleMax
  | .priorityBased => if isHighPriority priority then .int64 int64Max else .double doubleMax
  | .multiConstraint => .double (-doubleMax)

def improves (strategy : AllocationStrategy) : Key → Key → Bool
  | .double key, .double best =>
      if strategy = .multiConstraint then decide (best < key) else decide (key < best)
  | .int64 key, .int64 best => key < best
  | _, _ => false

def Key.score : Key → Double
  | double x => x
  | int64 n => .ofRat n

def selectionReason (strategy : AllocationStrategy) (priority : Int) : String :=
  match strategy with
  | .roundRobin => "Round-robin selection"
  | .leastLoad => "Lowest current CPU usage"
  | .priorityBased =>
      if isHighPriority priority then "High-priority task routed to lowest-latency edge"
      else "Standard-priority task routed to shortest queue"
  | .multiConstraint => "Highest multi-constraint suitability score"

def acquire (me : Thread) (allocator : ResourceAllocator) : ResourceAllocator :=
  { countRequest allocator with strategyMutex := some me }

def release (allocator : ResourceAllocator) : ResourceAllocator :=
  { allocator with strategyMutex := none }

def advanceRoundRobin (allocator : ResourceAllocator) : ResourceAllocator :=
  { allocator with roundRobinIndex := (allocator.roundRobinIndex + 1) % sizeModulus }

/-- One step of a call. It is not enabled while another thread has the mutex, after the
return, and where the scan ended with a null `best`. -/
def allocStep (me : Thread) (t : TaskRef) (w : World) : AllocPc → Option (World × AllocPc)
  | .lock =>
      if w.allocator.strategyMutex = none then
        some (w.modifyAllocator (acquire me), .scan w.fleet.ids [])
      else none
  | .scan (e :: todo) viable =>
      some (w, if (w.node e).isAvailable then .examine e todo viable else .scan todo viable)
  | .examine e todo viable =>
      some (w, .scan todo
        (if (w.node e).canAllocate (w.demand t) then viable ++ [e] else viable))
  | .scan [] viable =>
      if viable = [] then some (w, .fail)
      else if w.allocator.strategy = .roundRobin then
        (viable[w.allocator.roundRobinIndex % viable.length]?).map fun e =>
          (w.modifyAllocator advanceRoundRobin, .reserve e 0)
      else
        some (w, .compare viable [] none
          (initialKey w.allocator.strategy (w.workload t).priority))
  | .compare [] _ best key => best.map fun e => (w, .reserve e key.score)
  | .compare (e :: todo) reads best key =>
      let strategy := w.allocator.strategy
      let priority := (w.workload t).priority
      if reads.length < probeCount strategy then
        some (w, .compare (e :: todo)
          (reads ++ [probe strategy priority reads.length (w.node e)]) best key)
      else
        let candidate := candidateKey w.allocator.weights priority reads
        some (w, if improves strategy candidate key then .compare todo [] (some e) candidate
          else .compare todo [] best key)
  | .reserve e score =>
      some (w.modifyNode e (EdgeNode.allocateResources (w.demand t)), .assign e score)
  | .assign e score =>
      some ((w.modifyAllocator countSuccess).modifyTask t (Allocator.assignTask e),
        .unlock { success := true, edgeId := e, score := score,
                  reason := selectionReason w.allocator.strategy (w.workload t).priority })
  | .fail => some (w.modifyAllocator countFailure, .unlock noViableEdge)
  | .unlock result => some (w.modifyAllocator release, .returned result)
  | .returned _ => none

def AllocPc.candidates : AllocPc → List EdgeId
  | .scan _ viable | .examine _ _ viable => viable
  | .compare todo _ best _ => best.toList ++ todo
  | .reserve e _ => [e]
  | _ => []

inductive AllocMove (me : Thread) (t : TaskRef) (w : World) : AllocPc → World → AllocPc → Prop where
  | enter (h : w.allocator.strategyMutex = none) :
      AllocMove me t w .lock (w.modifyAllocator (acquire me)) (.scan w.fleet.ids [])
  | visit (e : EdgeId) (todo viable : List EdgeId) :
      AllocMove me t w (.scan (e :: todo) viable) w (.examine e todo viable)
  | skip (e : EdgeId) (todo viable : List EdgeId) :
      AllocMove me t w (.scan (e :: todo) viable) w (.scan todo viable)
  | accept (e : EdgeId) (todo viable : List EdgeId)
      (h : (w.node e).canAllocate (w.demand t) = true) :
      AllocMove me t w (.examine e todo viable) w (.scan todo (viable ++ [e]))
  | reject (e : EdgeId) (todo viable : List EdgeId)
      (h : (w.node e).canAllocate (w.demand t) = false) :
      AllocMove me t w (.examine e todo viable) w (.scan todo viable)
  | refuse : AllocMove me t w (.scan [] []) w .fail
  | rotate {e : EdgeId} {viable : List EdgeId} (h : e ∈ viable) :
      AllocMove me t w (.scan [] viable) (w.modifyAllocator advanceRoundRobin) (.reserve e 0)
  | rank (viable : List EdgeId) (key : Key) :
      AllocMove me t w (.scan [] viable) w (.compare viable [] none key)
  | read (e : EdgeId) (todo : List EdgeId) (reads : List Key) (best : Option EdgeId)
      (key x : Key) :
      AllocMove me t w (.compare (e :: todo) reads best key) w
        (.compare (e :: todo) (reads ++ [x]) best key)
  | prefer (e : EdgeId) (todo : List EdgeId) (reads : List Key) (best : Option EdgeId)
      (key key' : Key) :
      AllocMove me t w (.compare (e :: todo) reads best key) w (.compare todo [] (some e) key')
  | keep (e : EdgeId) (todo : List EdgeId) (reads : List Key) (best : Option EdgeId) (key : Key) :
      AllocMove me t w (.compare (e :: todo) reads best key) w (.compare todo [] best key)
  | pick (reads : List Key) (e : EdgeId) (key : Key) :
      AllocMove me t w (.compare [] reads (some e) key) w (.reserve e key.score)
  | reserve (e : EdgeId) (score : Double) :
      AllocMove me t w (.reserve e score)
        (w.modifyNode e (EdgeNode.allocateResources (w.demand t))) (.assign e score)
  | assign (e : EdgeId) (score : Double) (reason : String) :
      AllocMove me t w (.assign e score)
        ((w.modifyAllocator countSuccess).modifyTask t (Allocator.assignTask e))
        (.unlock { success := true, edgeId := e, reason := reason, score := score })
  | fail : AllocMove me t w .fail (w.modifyAllocator countFailure) (.unlock noViableEdge)
  | unlock (result : AllocationResult) :
      AllocMove me t w (.unlock result) (w.modifyAllocator release) (.returned result)

theorem allocStep_move {me : Thread} {t : TaskRef} {w w' : World} {pc pc' : AllocPc}
    (h : allocStep me t w pc = some (w', pc')) : AllocMove me t w pc w' pc' := by
  cases pc with
  | lock =>
      simp only [allocStep] at h
      split_ifs at h with hfree
      cases h
      exact .enter hfree
  | scan todo viable =>
      cases todo with
      | nil =>
          simp only [allocStep] at h
          split_ifs at h with hempty hrobin
          · cases h
            rw [hempty]
            exact .refuse
          · obtain ⟨e, he, hnext⟩ := Option.map_eq_some_iff.mp h
            cases hnext
            exact .rotate (List.mem_of_getElem? he)
          · cases h
            exact .rank viable _
      | cons e todo =>
          simp only [allocStep] at h
          split_ifs at h <;> cases h
          · exact .visit e todo viable
          · exact .skip e todo viable
  | examine e todo viable =>
      simp only [allocStep] at h
      split_ifs at h with hfits <;> cases h
      · exact .accept e todo viable hfits
      · exact .reject e todo viable (Bool.not_eq_true _ ▸ hfits)
  | compare todo reads best key =>
      cases todo with
      | nil =>
          obtain ⟨e, he, hnext⟩ := Option.map_eq_some_iff.mp h
          cases hnext
          rw [he]
          exact .pick reads e key
      | cons e todo =>
          simp only [allocStep] at h
          split_ifs at h <;> cases h
          · exact .read e todo reads best key _
          · exact .prefer e todo reads best key _
          · exact .keep e todo reads best key
  | reserve e score =>
      cases h
      exact .reserve e score
  | assign e score =>
      cases h
      exact .assign e score _
  | fail =>
      cases h
      exact .fail
  | unlock result =>
      cases h
      exact .unlock result
  | returned result => cases h

end EdgeAllocator.Doubles
