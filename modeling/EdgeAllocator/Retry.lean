import EdgeAllocator.Placement

/-! `allocateTaskWithRetry` as sequential code: its loop with the counter of type
`std::size_t`, against single attempts made at the same instants. -/
namespace EdgeAllocator.Retry

open Allocator Placement

/-- What other threads make of the nodes between two attempts: releases,
fluctuations, changes of availability, work on the queues. -/
abbrev Change := (EdgeId → EdgeNode) → EdgeId → EdgeNode

def meanwhile (change : Change) (w : World) : World := { w with node := change w.node }

def later (others : Nat → Change) (n : Nat) : Change := others (n + 1)

/-- What is seen of a call while the model follows a given number of attempts. -/
inductive RetryOutcome where
  | running
  | nullDereference
  | returned (w : World) (result : AllocationResult)

def recordSuccess (t : TaskRef) (result : AllocationResult) (w : World) : World :=
  ((w.modifyAllocator countSuccess).modifyTask t (assignTask result.edgeId)).modifyDatabase
    (Database.updateTaskStatus t .queued)

/-- The `for` loop from the test of its condition on, followed for as many
attempts as the first argument says. -/
def retryLoop (t : TaskRef) (maxRetries : Nat) :
    Nat → Nat → (Nat → Change) → World → AllocationResult → RetryOutcome
  | attempts, attempt, others, w, result =>
      if attempt ≤ maxRetries then
        match attempts with
        | 0 => .running
        | attempts + 1 =>
            match dispatch w t with
            | none => .nullDereference
            | some (w, result) =>
                if result.success then .returned (recordSuccess t result w) result
                else if result.reason = "Unknown allocation strategy" ∨ w.fleet.ids = [] then
                  .returned (w.modifyAllocator countFailure) result
                else
                  -- `sleep_for(retry_delay)`, left out after the last attempt.
                  let w := if attempt < maxRetries then meanwhile (others 0) w else w
                  retryLoop t maxRetries attempts ((attempt + 1) % sizeModulus) (later others) w
                    result
      else .returned (w.modifyAllocator countFailure) result

def allocateTaskWithRetry (attempts : Nat) (others : Nat → Change) (w : World) (t : TaskRef)
    (maxRetries : Nat) : RetryOutcome :=
  retryLoop t maxRetries attempts 0 others (w.modifyAllocator countRequest)
    { success := false, reason := "" }

/-- Calls of `allocateTask` at the same instants, until the first success or
until all of them have failed. -/
def repeatAttempts (t : TaskRef) : Nat → (Nat → Change) → World → Option (World × AllocationResult)
  | 0, _, w => allocateTask w t
  | retries + 1, others, w =>
      match allocateTask w t with
      | none => none
      | some (w, result) =>
          if result.success then some (w, result)
          else repeatAttempts t retries (later others) (meanwhile (others 0) w)

/-- The nodes that the attempt after `n` failed ones finds. -/
def nodesAt : (Nat → Change) → Nat → (EdgeId → EdgeNode) → EdgeId → EdgeNode
  | _, 0, node => node
  | others, n + 1, node => nodesAt (later others) n (others 0 node)

def worldAt (others : Nat → Change) (n : Nat) (w : World) : World :=
  { w with node := nodesAt others n w.node }

section Attempts

variable {t : TaskRef} {maxRetries attempts attempt : Nat} {others : Nat → Change} {w : World}
  {result : AllocationResult}

theorem retryLoop_exhausted (h : maxRetries < attempt) :
    retryLoop t maxRetries attempts attempt others w result =
      .returned (w.modifyAllocator countFailure) result := by
  unfold retryLoop
  rw [if_neg (not_le.mpr h)]

theorem retryLoop_zero (h : attempt ≤ maxRetries) :
    retryLoop t maxRetries 0 attempt others w result = .running := by
  unfold retryLoop
  rw [if_pos h]

theorem retryLoop_unregistered (h : attempt ≤ maxRetries) (hempty : w.fleet.ids = []) :
    retryLoop t maxRetries (attempts + 1) attempt others w result =
      .returned (w.modifyAllocator countFailure) noViableEdge := by
  have hviable : getViableEdges w t = [] := by simp [getViableEdges, hempty]
  unfold retryLoop
  rw [if_pos h, dispatch_of_nil hviable]
  simp [noViableEdge, hempty]

theorem retryLoop_refused (h : attempt ≤ maxRetries) (hviable : getViableEdges w t = [])
    (hfleet : w.fleet.ids ≠ []) :
    retryLoop t maxRetries (attempts + 1) attempt others w result =
      retryLoop t maxRetries attempts ((attempt + 1) % sizeModulus) (later others)
        (if attempt < maxRetries then meanwhile (others 0) w else w) noViableEdge := by
  rw [retryLoop, if_pos h, dispatch_of_nil hviable]
  simp [noViableEdge, hfleet]

theorem retryLoop_found (h : attempt ≤ maxRetries) (hviable : getViableEdges w t ≠ []) :
    retryLoop t maxRetries (attempts + 1) attempt others w result =
      match dispatch w t with
      | none => .nullDereference
      | some (w, result) => .returned (recordSuccess t result w) result := by
  rw [retryLoop, if_pos h]
  cases hdispatch : dispatch w t with
  | none => rfl
  | some outcome =>
      obtain ⟨w', found⟩ := outcome
      cases dispatch_attempt hdispatch with
      | refuse hnil => exact absurd hnil hviable
      | reserve index _ => rfl

theorem retryLoop_found_ne_running (h : attempt ≤ maxRetries) (hviable : getViableEdges w t ≠ []) :
    retryLoop t maxRetries (attempts + 1) attempt others w result ≠ .running := by
  rw [retryLoop_found h hviable]
  split <;> exact nofun

theorem next_attempt (h : attempt ≤ maxRetries) (hmax : maxRetries + 1 < sizeModulus) :
    (attempt + 1) % sizeModulus = attempt + 1 :=
  Nat.mod_eq_of_lt (by omega)

theorem retryLoop_ne_running (hmax : maxRetries + 1 < sizeModulus)
    (h : maxRetries < attempts + attempt) :
    retryLoop t maxRetries attempts attempt others w result ≠ .running := by
  induction attempts generalizing attempt others w result with
  | zero =>
      rw [retryLoop_exhausted (by omega)]
      exact nofun
  | succ attempts ih =>
      by_cases hle : attempt ≤ maxRetries
      · by_cases hviable : getViableEdges w t = []
        · by_cases hfleet : w.fleet.ids = []
          · rw [retryLoop_unregistered hle hfleet]
            exact nofun
          · rw [retryLoop_refused hle hviable hfleet, next_attempt hle hmax]
            exact ih (by omega)
        · exact retryLoop_found_ne_running hle hviable
      · rw [retryLoop_exhausted (not_le.mp hle)]
        exact nofun

/-- With the largest bound every value of the counter satisfies the condition,
and only a viable edge ends the loop. -/
theorem retryLoop_running_iff (hmax : maxRetries + 1 = sizeModulus)
    (hattempt : attempt ≤ maxRetries) (h : attempt + attempts ≤ sizeModulus)
    (hfleet : w.fleet.ids ≠ []) :
    retryLoop t maxRetries attempts attempt others w result = .running ↔
      ∀ n < attempts, getViableEdges (worldAt others n w) t = [] := by
  induction attempts generalizing attempt others w result with
  | zero => simp [retryLoop_zero hattempt]
  | succ attempts ih =>
      by_cases hviable : getViableEdges w t = []
      · rw [retryLoop_refused hattempt hviable hfleet]
        rcases Nat.lt_or_ge attempt maxRetries with hlt | hge
        · have hsame : (meanwhile (others 0) w).fleet.ids ≠ [] := hfleet
          rw [if_pos hlt, Nat.mod_eq_of_lt (by omega), ih (by omega) (by omega) hsame,
            Nat.forall_lt_succ_left]
          exact ⟨fun hrest => ⟨hviable, hrest⟩, fun hall => hall.2⟩
        · -- The counter wraps, and no attempt is followed any more.
          obtain rfl : attempts = 0 := by omega
          have hwrap : attempt + 1 = sizeModulus := by omega
          rw [hwrap, Nat.mod_self, retryLoop_zero (Nat.zero_le _)]
          refine iff_of_true rfl fun n hn => ?_
          obtain rfl : n = 0 := by omega
          exact hviable
      · apply iff_of_false (retryLoop_found_ne_running hattempt hviable)
        intro hall
        exact hviable (hall 0 (Nat.succ_pos _))

/-- The loop ends within `maxRetries + 1` attempts exactly if that number can be
counted, or one of the attempts that the counter tells apart finds an edge. -/
theorem allocateTaskWithRetry_ends_iff (others : Nat → Change) (w : World) (t : TaskRef)
    (maxRetries : Nat) (hmax : maxRetries < sizeModulus) (hfleet : w.fleet.ids ≠ []) :
    allocateTaskWithRetry (maxRetries + 1) others w t maxRetries ≠ .running ↔
      maxRetries + 1 < sizeModulus ∨
        ∃ n < sizeModulus, getViableEdges (worldAt others n w) t ≠ [] := by
  by_cases hcount : maxRetries + 1 < sizeModulus
  · exact iff_of_true (retryLoop_ne_running hcount (by omega)) (Or.inl hcount)
  · have hlast : maxRetries + 1 = sizeModulus := by omega
    have hviable (n : Nat) : getViableEdges (worldAt others n (w.modifyAllocator countRequest)) t =
        getViableEdges (worldAt others n w) t := rfl
    have hsame : (w.modifyAllocator countRequest).fleet.ids ≠ [] := hfleet
    unfold allocateTaskWithRetry
    rw [Ne, retryLoop_running_iff hlast (Nat.zero_le _) (by omega) hsame, hlast]
    simp only [hviable, lt_irrefl, false_or, not_forall, exists_prop]

end Attempts

def quiet : Nat → Change := fun _ node => node

theorem nodesAt_quiet (n : Nat) (node : EdgeId → EdgeNode) : nodesAt quiet n node = node := by
  induction n generalizing node with
  | zero => rfl
  | succ n ih => exact ih node

def away : World :=
  { World.boot singleNode (fun _ => nodeCapacity) (fun _ => TaskProfile.ultrasonic)
      .leastLoad .fifo with
    node := fun _ => { capacity := nodeCapacity, isAvailable := false } }

theorem away_ends : allocateTaskWithRetry (200 + 1) quiet away 0 200 ≠ .running :=
  (allocateTaskWithRetry_ends_iff quiet away 0 200 (by decide) (by decide)).mpr
    (Or.inl (by decide))

/-- With `SIZE_MAX` retries the call goes on after `SIZE_MAX + 1` attempts. -/
theorem away_runs_on :
    ¬∀ (others : Nat → Change) (w : World) (t : TaskRef) (maxRetries : Nat),
      maxRetries < sizeModulus → w.fleet.ids ≠ [] →
        allocateTaskWithRetry (maxRetries + 1) others w t maxRetries ≠ .running := by
  intro hall
  have hends := hall quiet away 0 (sizeModulus - 1) (by decide) (by decide)
  unfold allocateTaskWithRetry at hends
  have hfleet : (away.modifyAllocator countRequest).fleet.ids ≠ [] := by decide
  rw [Ne, retryLoop_running_iff (by decide) (Nat.zero_le _) (by decide) hfleet] at hends
  apply hends
  intro n _
  have hsame : worldAt quiet n (away.modifyAllocator countRequest) =
      away.modifyAllocator countRequest := by
    unfold worldAt
    rw [nodesAt_quiet]
  rw [hsame]
  decide +kernel

def withCounts (total successful failed : Nat) (w : World) : World :=
  w.modifyAllocator fun allocator =>
    { allocator with
      totalAllocations := total
      successfulAllocations := successful
      failedAllocations := failed }

section Counts

variable (total successful failed : Nat) (w : World) (t : TaskRef)

theorem reserveBest_withCounts (reason : String) (best : Option EdgeId × ℚ) :
    reserveBest (withCounts total successful failed w) t reason best =
      (reserveBest w t reason best).map (Prod.map (withCounts total successful failed) id) := by
  obtain ⟨chosen, score⟩ := best
  cases chosen <;> rfl

theorem dispatch_withCounts :
    dispatch (withCounts total successful failed w) t =
      (dispatch w t).map (Prod.map (withCounts total successful failed) id) := by
  by_cases hviable : getViableEdges w t = []
  · rw [dispatch_of_nil hviable]
    exact dispatch_of_nil hviable
  · have hsame : getViableEdges (withCounts total successful failed w) t ≠ [] := hviable
    have hstrategy : (withCounts total successful failed w).allocator.strategy =
        w.allocator.strategy := rfl
    unfold dispatch
    rw [hstrategy]
    cases w.allocator.strategy with
    | roundRobin =>
        obtain ⟨e, -, hslot, hcall⟩ := allocateRoundRobin_eq hviable
        obtain ⟨e', -, hslot', hcall'⟩ := allocateRoundRobin_eq hsame
        obtain rfl : e = e' := Option.some.inj (hslot.symm.trans hslot')
        dsimp only
        rw [hcall', hcall]
        rfl
    | leastLoad =>
        dsimp only
        rw [allocateLeastLoad_eq hsame, allocateLeastLoad_eq hviable, ← reserveBest_withCounts]
        rfl
    | priorityBased =>
        dsimp only
        by_cases hpriority : isHighPriority (w.workload t).priority = true
        · rw [allocatePriorityBased_eq_high hsame hpriority,
            allocatePriorityBased_eq_high hviable hpriority, ← reserveBest_withCounts]
          rfl
        · have hstandard := Bool.eq_false_iff.mpr hpriority
          rw [allocatePriorityBased_eq_standard hsame hstandard,
            allocatePriorityBased_eq_standard hviable hstandard, ← reserveBest_withCounts]
          rfl
    | multiConstraint =>
        dsimp only
        rw [allocateMultiConstraint_eq hsame, allocateMultiConstraint_eq hviable,
          ← reserveBest_withCounts]
        rfl

end Counts

def uncounted (w : World) : World := withCounts 0 0 0 w

section Agreement

variable {t : TaskRef} {w v : World}

theorem dispatch_congr (h : uncounted w = uncounted v) :
    (dispatch w t).map (Prod.map uncounted id) = (dispatch v t).map (Prod.map uncounted id) := by
  have hw := dispatch_withCounts 0 0 0 w t
  have hv := dispatch_withCounts 0 0 0 v t
  exact hw.symm.trans ((congrArg (dispatch · t) h).trans hv)

theorem getViableEdges_congr (h : uncounted w = uncounted v) :
    getViableEdges w t = getViableEdges v t := by
  have hsame : getViableEdges (uncounted w) t = getViableEdges (uncounted v) t := by
    rw [h]
  exact hsame

theorem uncounted_meanwhile (change : Change) (h : uncounted w = uncounted v) :
    uncounted (meanwhile change w) = uncounted (meanwhile change v) :=
  congrArg (meanwhile change) h

theorem uncounted_recordSuccess (result : AllocationResult) (h : uncounted w = uncounted v) :
    uncounted (recordSuccess t result w) = uncounted (recordSuccess t result v) :=
  congrArg (fun w => (w.modifyTask t (assignTask result.edgeId)).modifyDatabase
    (Database.updateTaskStatus t .queued)) h

def Agree : RetryOutcome → Option (World × AllocationResult) → Prop
  | .returned w result, some (v, result') => result = result' ∧ uncounted w = uncounted v
  | .nullDereference, none => True
  | _, _ => False

theorem repeatAttempts_found {retries : Nat} {others : Nat → Change}
    (hviable : getViableEdges v t ≠ []) :
    repeatAttempts t retries others v = allocateTask v t := by
  cases retries with
  | zero => rfl
  | succ retries =>
      rw [repeatAttempts]
      cases hattempt : allocateTask v t with
      | none => rfl
      | some outcome =>
          rcases allocateTask_cases hattempt with ⟨hnil, -⟩ | ⟨-, hsuccess, -⟩
          · exact absurd hnil hviable
          · simp [hsuccess]

theorem agree_found (h : uncounted w = uncounted v) (hviable : getViableEdges w t ≠ []) :
    Agree (match dispatch w t with
      | none => .nullDereference
      | some (w, result) => .returned (recordSuccess t result w) result) (allocateTask v t) := by
  have hsame : (dispatch w t).map (Prod.map uncounted id) =
      (dispatch (v.modifyAllocator countRequest) t).map (Prod.map uncounted id) :=
    dispatch_congr h
  cases hloop : dispatch w t with
  | none =>
      rw [hloop, Option.map_none, eq_comm, Option.map_eq_none_iff] at hsame
      have hnone : allocateTask v t = none := by
        unfold allocateTask
        rw [hsame]
        rfl
      rw [hnone]
      trivial
  | some outcome =>
      obtain ⟨w', result⟩ := outcome
      rw [hloop, Option.map_some, eq_comm] at hsame
      obtain ⟨⟨v', result'⟩, hsingle, heq⟩ := Option.map_eq_some_iff.mp hsame
      obtain ⟨hworld, rfl⟩ := Prod.mk.inj heq
      have hsuccess : result'.success = true := by
        cases dispatch_attempt hloop with
        | refuse hnil => exact absurd hnil hviable
        | reserve index _ => rfl
      rw [allocateTask_of_dispatch hsingle hsuccess]
      exact ⟨rfl, uncounted_recordSuccess _ hworld.symm⟩

theorem retryLoop_agrees {maxRetries : Nat} (hmax : maxRetries + 1 < sizeModulus) {retries : Nat}
    {attempt : Nat} {others : Nat → Change} {result : AllocationResult}
    (hcount : attempt + retries = maxRetries) (hfleet : w.fleet.ids ≠ [])
    (h : uncounted w = uncounted v) :
    Agree (retryLoop t maxRetries (retries + 1) attempt others w result)
      (repeatAttempts t retries others v) := by
  induction retries generalizing attempt others w v result with
  | zero =>
      by_cases hviable : getViableEdges w t = []
      · have hv := (getViableEdges_congr h).symm.trans hviable
        rw [retryLoop_refused (by omega) hviable hfleet, next_attempt (by omega) hmax,
          retryLoop_exhausted (by omega), if_neg (by omega), repeatAttempts, allocateTask_of_nil hv]
        exact ⟨rfl, h⟩
      · rw [retryLoop_found (by omega) hviable]
        exact agree_found h hviable
  | succ retries ih =>
      by_cases hviable : getViableEdges w t = []
      · have hv := (getViableEdges_congr h).symm.trans hviable
        rw [retryLoop_refused (by omega) hviable hfleet, next_attempt (by omega) hmax,
          if_pos (by omega), repeatAttempts, allocateTask_of_nil hv]
        exact ih (by omega) hfleet (uncounted_meanwhile _ h)
      · have hv : getViableEdges v t ≠ [] := getViableEdges_congr h ▸ hviable
        rw [retryLoop_found (by omega) hviable, repeatAttempts_found hv]
        exact agree_found h hviable

end Agreement

/-- Equal in everything that a caller sees but the three counters. -/
structure SameButCounters (w v : World) : Prop where
  fleet : w.fleet = v.fleet
  workload : w.workload = v.workload
  node : ∀ e ∈ w.fleet.ids, w.node e = v.node e
  task : w.task = v.task
  taskCounter : w.taskCounter = v.taskCounter
  strategy : w.allocator.strategy = v.allocator.strategy
  weights : w.allocator.weights = v.allocator.weights
  roundRobinIndex : w.allocator.roundRobinIndex = v.allocator.roundRobinIndex
  scheduler : w.scheduler = v.scheduler
  executor : w.executor = v.executor
  database : w.database = v.database

theorem sameButCounters_of_uncounted {w v : World} (h : uncounted w = uncounted v) :
    SameButCounters w v where
  fleet := (congrArg World.fleet h :)
  workload := (congrArg World.workload h :)
  node e _ := (congrArg (World.node · e) h :)
  task := (congrArg World.task h :)
  taskCounter := (congrArg World.taskCounter h :)
  strategy := (congrArg (fun w => w.allocator.strategy) h :)
  weights := (congrArg (fun w => w.allocator.weights) h :)
  roundRobinIndex := (congrArg (fun w => w.allocator.roundRobinIndex) h :)
  scheduler := (congrArg World.scheduler h :)
  executor := (congrArg World.executor h :)
  database := (congrArg World.database h :)

def CountedOnce (before after : ResourceAllocator) (success : Bool) : Prop :=
  if success then
    after.successfulAllocations = before.successfulAllocations + 1 ∧
      after.failedAllocations = before.failedAllocations
  else
    after.successfulAllocations = before.successfulAllocations ∧
      after.failedAllocations = before.failedAllocations + 1

/-- The nodes are as the other threads left them after some attempt; a success
has reserved on one of them, once. -/
inductive ReservedOnce (t : TaskRef) (others : Nat → Change) (w w' : World) : Bool → Prop where
  | none (n : Nat) (hnode : w'.node = nodesAt others n w.node) : ReservedOnce t others w w' false
  | one (n : Nat) (e : EdgeId)
      (hnode : w'.node = ((worldAt others n w).modifyNode e
        (EdgeNode.allocateResources (w.demand t))).node) : ReservedOnce t others w w' true

/-- What a call leaves of the statistics and of the nodes. -/
structure Concluded (t : TaskRef) (others : Nat → Change) (w w' : World) (success : Bool) :
    Prop where
  total : w'.allocator.totalAllocations = w.allocator.totalAllocations
  counted : CountedOnce w.allocator w'.allocator success
  reserved : ReservedOnce t others w w' success

theorem Concluded.later {t : TaskRef} {others : Nat → Change} {w w' : World} {success : Bool}
    (h : Concluded t (later others) (meanwhile (others 0) w) w' success) :
    Concluded t others w w' success := by
  refine ⟨h.total, h.counted, ?_⟩
  cases h.reserved with
  | none n hnode => exact .none (n + 1) hnode
  | one n e hnode => exact .one (n + 1) e hnode

theorem concluded_refused (t : TaskRef) (others : Nat → Change) (w : World) :
    Concluded t others w (w.modifyAllocator countFailure) false :=
  ⟨rfl, ⟨rfl, rfl⟩, .none 0 rfl⟩

theorem concluded_exhausted {t : TaskRef} {maxRetries attempts attempt : Nat}
    {others others' : Nat → Change} {w w' : World} {result found : AllocationResult}
    (hgt : maxRetries < attempt) (hresult : result.success = false)
    (h : retryLoop t maxRetries attempts attempt others' w result = .returned w' found) :
    Concluded t others w w' found.success := by
  rw [retryLoop_exhausted hgt] at h
  cases h
  rw [hresult]
  exact concluded_refused t others w

theorem retryLoop_concluded {t : TaskRef} {maxRetries attempts attempt : Nat}
    {others : Nat → Change} {w w' : World} {result found : AllocationResult}
    (hmax : maxRetries + 1 < sizeModulus) (hresult : result.success = false)
    (h : retryLoop t maxRetries attempts attempt others w result = .returned w' found) :
    Concluded t others w w' found.success := by
  induction attempts generalizing attempt others w result with
  | zero =>
      by_cases hle : attempt ≤ maxRetries
      · rw [retryLoop_zero hle] at h
        cases h
      · exact concluded_exhausted (not_le.mp hle) hresult h
  | succ attempts ih =>
      rcases Nat.lt_or_ge maxRetries attempt with hgt | hle
      · exact concluded_exhausted hgt hresult h
      · by_cases hviable : getViableEdges w t = []
        · by_cases hfleet : w.fleet.ids = []
          · rw [retryLoop_unregistered hle hfleet] at h
            cases h
            exact concluded_refused t others w
          · rw [retryLoop_refused hle hviable hfleet, next_attempt hle hmax] at h
            split_ifs at h with hsleep
            · exact (ih rfl h).later
            · -- The last attempt has failed.
              exact concluded_exhausted (by omega) rfl h
        · rw [retryLoop_found hle hviable] at h
          cases hdispatch : dispatch w t with
          | none =>
              rw [hdispatch] at h
              cases h
          | some outcome =>
              rw [hdispatch] at h
              obtain ⟨w₁, result₁⟩ := outcome
              cases dispatch_attempt hdispatch with
              | refuse hnil => exact absurd hnil hviable
              | @reserve e reason score index _ =>
                  cases h
                  exact ⟨rfl, ⟨rfl, rfl⟩, .one 0 e rfl⟩

theorem repeatAttempts_unregistered {t : TaskRef} {retries : Nat} {others : Nat → Change}
    {w : World} (hempty : w.fleet.ids = []) :
    ∃ v, repeatAttempts t retries others w = some (v, noViableEdge) ∧ SameButCounters w v := by
  have hviable : getViableEdges w t = [] := by simp [getViableEdges, hempty]
  induction retries generalizing others w with
  | zero =>
      exact ⟨_, allocateTask_of_nil hviable, sameButCounters_of_uncounted rfl⟩
  | succ retries ih =>
      have hnext : (meanwhile (others 0) ((w.modifyAllocator countRequest).modifyAllocator
          countFailure)).fleet.ids = [] := hempty
      obtain ⟨v, hrepeat, hsame⟩ := @ih (later others) _ hnext (by simp [getViableEdges, hnext])
      refine ⟨v, ?_, ?_⟩
      · rw [repeatAttempts, allocateTask_of_nil hviable]
        exact hrepeat
      · exact { hsame with node := fun e he => by rw [hempty] at he; cases he }

/-- A call with retries and the repeated attempts come to the same, the
statistics apart; a null pointer is dereferenced by both or by neither. -/
inductive Repeats (t : TaskRef) (others : Nat → Change) (w : World) :
    RetryOutcome → Option (World × AllocationResult) → Prop where
  | returned {w₁ w₂ : World} {result : AllocationResult} (same : SameButCounters w₁ w₂)
      (total : w₁.allocator.totalAllocations = w.allocator.totalAllocations + 1)
      (counted : CountedOnce w.allocator w₁.allocator result.success)
      (reserved : ReservedOnce t others w w₁ result.success) :
      Repeats t others w (.returned w₁ result) (some (w₂, result))
  | nullDereference : Repeats t others w .nullDereference none

theorem ReservedOnce.counted {t : TaskRef} {others : Nat → Change} {w w' : World} {success : Bool}
    (h : ReservedOnce t others (w.modifyAllocator countRequest) w' success) :
    ReservedOnce t others w w' success := by
  cases h with
  | none n hnode => exact .none n hnode
  | one n e hnode => exact .one n e hnode

theorem allocateTaskWithRetry_repeats (t : TaskRef) (others : Nat → Change) (w : World)
    (maxRetries : Nat) (hmax : maxRetries + 1 < sizeModulus) :
    Repeats t others w (allocateTaskWithRetry (maxRetries + 1) others w t maxRetries)
      (repeatAttempts t maxRetries others w) := by
  unfold allocateTaskWithRetry
  by_cases hempty : w.fleet.ids = []
  · have hcounted : (w.modifyAllocator countRequest).fleet.ids = [] := hempty
    obtain ⟨v, hrepeat, hsame⟩ := repeatAttempts_unregistered hempty
    rw [hrepeat, retryLoop_unregistered (Nat.zero_le _) hcounted]
    exact .returned { hsame with } rfl ⟨rfl, rfl⟩ (.none 0 rfl)
  · have hfleet : (w.modifyAllocator countRequest).fleet.ids ≠ [] := hempty
    have hagree : Agree (retryLoop t maxRetries (maxRetries + 1) 0 others
        (w.modifyAllocator countRequest) { success := false, reason := "" })
        (repeatAttempts t maxRetries others w) :=
      retryLoop_agrees hmax (Nat.zero_add maxRetries) hfleet rfl
    cases hloop : retryLoop t maxRetries (maxRetries + 1) 0 others
        (w.modifyAllocator countRequest) { success := false, reason := "" } with
    | running => exact absurd hloop (retryLoop_ne_running hmax (by omega))
    | nullDereference =>
        rw [hloop] at hagree
        cases hrepeat : repeatAttempts t maxRetries others w with
        | none => exact .nullDereference
        | some outcome =>
            rw [hrepeat] at hagree
            exact hagree.elim
    | returned w₁ found =>
        have hconcluded := retryLoop_concluded hmax rfl hloop
        rw [hloop] at hagree
        cases hrepeat : repeatAttempts t maxRetries others w with
        | none =>
            rw [hrepeat] at hagree
            exact hagree.elim
        | some outcome =>
            rw [hrepeat] at hagree
            obtain ⟨w₂, result⟩ := outcome
            obtain ⟨rfl, hsame⟩ := hagree
            exact .returned (sameButCounters_of_uncounted hsame) hconcluded.total
              hconcluded.counted hconcluded.reserved.counted

theorem away_repeats :
    Repeats 0 quiet away (allocateTaskWithRetry (200 + 1) quiet away 0 200)
      (repeatAttempts 0 200 quiet away) :=
  allocateTaskWithRetry_repeats 0 quiet away 200 (by decide)

end EdgeAllocator.Retry
