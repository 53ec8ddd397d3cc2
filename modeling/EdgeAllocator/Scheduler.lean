import EdgeAllocator.World
import EdgeAllocator.Foundation.Extremum
import Mathlib.Data.List.Perm.Basic

/-! `TaskScheduler` at the granularity of its locks. Each step of a call below
is one statement that another thread can fall between: taking or releasing
`strategy_mutex_`, one locked operation of the edge node, one local choice. -/
namespace EdgeAllocator.Scheduler

open Foundation

/-- Two readings of `system_clock` for each comparison of a scan. -/
abbrev ComparisonClock := Nat → Int × Int

/-- `a->getRequirements().priority < b->getRequirements().priority`; comparing
a null pointer fails. -/
def priorityLess (w : World) (_ : Nat) (a b : TaskPtr) : Option Bool := do
  let a ← a
  let b ← b
  some ((w.workload a).priority.rank < (w.workload b).priority.rank)

def remainingTimeLess (w : World) (clock : ComparisonClock) (i : Nat) (a b : TaskPtr) :
    Option Bool := do
  let a ← a
  let b ← b
  some ((w.task a).getRemainingTimeMs (w.workload a) (clock i).1 <
    (w.task b).getRemainingTimeMs (w.workload b) (clock i).2)

def select (w : World) (clock : ComparisonClock) (scratch : List TaskPtr) : Option Nat :=
  match w.scheduler.strategy with
  | .priorityBased => maxElement (priorityLess w) scratch
  | .earliestDeadlineFirst => minElement (remainingTimeLess w clock) scratch
  | .roundRobinTimeSlice | .fifo => if scratch = [] then none else some 0

theorem select_lt {w : World} {clock : ComparisonClock} {scratch : List TaskPtr} {i : Nat}
    (h : select w clock scratch = some i) : i < scratch.length := by
  have hfront (hi : (if scratch = [] then none else some 0) = some i) : i < scratch.length := by
    split_ifs at hi with hempty
    cases Option.some.inj hi
    exact List.length_pos_iff.mpr hempty
  unfold select at h
  split at h
  · exact maxElement_lt h
  · exact minElement_lt h
  · exact hfront h
  · exact hfront h

def acquire (me : Thread) (scheduler : TaskScheduler) : TaskScheduler :=
  { scheduler with strategyMutex := some me }

def release (scheduler : TaskScheduler) : TaskScheduler :=
  { scheduler with strategyMutex := none }

/-- Where a call of `getNextTask` stands, with its local variables. -/
inductive FetchPc where
  | lock
  | checkQueue
  | popFront
  | drainCheck (scratch : List TaskPtr)
  | drainPop (scratch : List TaskPtr)
  | choose (scratch : List TaskPtr)
  | restore (selected : TaskPtr) (rest : List TaskPtr)
  | unlock (selected : TaskPtr)
  | returned (selected : TaskPtr)

/-- The tasks that only the call knows of. While the remainder is restored the
part behind the loop's cursor is back in the queue and counts there. -/
def FetchPc.held : FetchPc → List TaskRef
  | .drainCheck scratch | .drainPop scratch | .choose scratch => scratch.reduceOption
  | .restore selected rest => selected.toList ++ rest.reduceOption
  | .unlock selected | .returned selected => selected.toList
  | .lock | .checkQueue | .popFront => []

/-- One step of `getNextTask(edge)`. It is not enabled while another thread has
the mutex, after the return, and where a comparison dereferences null. -/
def fetchStep (me : Thread) (e : EdgeId) (clock : ComparisonClock) (w : World) :
    FetchPc → Option (World × FetchPc)
  | .lock =>
      if w.scheduler.strategyMutex = none then
        some (w.modifyScheduler (acquire me), .checkQueue)
      else none
  | .checkQueue =>
      if (w.node e).hasTasksInQueue then
        some (w, if w.scheduler.strategy = .fifo then .popFront else .drainCheck [])
      else some (w, .unlock none)
  | .popFront =>
      some (w.modifyNode e fun node => node.dequeueTask.2, .unlock (w.node e).dequeueTask.1)
  | .drainCheck scratch =>
      if (w.node e).hasTasksInQueue then some (w, .drainPop scratch)
      else some (w, if scratch = [] then .unlock none else .choose scratch)
  | .drainPop scratch =>
      some (w.modifyNode e fun node => node.dequeueTask.2,
        .drainCheck (scratch ++ [(w.node e).dequeueTask.1]))
  | .choose scratch =>
      (select w clock scratch).map fun i =>
        (w, .restore (scratch[i]?.getD none) (scratch.eraseIdx i))
  | .restore selected [] => some (w, .unlock selected)
  | .restore selected (task :: rest) =>
      some (w.modifyNode e (EdgeNode.enqueueTask task), .restore selected rest)
  | .unlock selected => some (w.modifyScheduler release, .returned selected)
  | .returned _ => none

inductive SchedulePc where
  | lock
  | markQueued
  | enqueue
  | unlock
  | returned

def SchedulePc.held (t : TaskRef) : SchedulePc → List TaskRef
  | .lock | .markQueued | .enqueue => [t]
  | .unlock | .returned => []

/-- One step of `scheduleTask(getEdgeNode(edge_id), task)`; a null node ends the
call without an effect. -/
def scheduleStep (me : Thread) (e : EdgeId) (t : TaskRef) (w : World) :
    SchedulePc → Option (World × SchedulePc)
  | .lock =>
      if w.scheduler.strategyMutex = none then
        some (w.modifyScheduler (acquire me),
          if (w.getEdgeNode e).isSome then .markQueued else .unlock)
      else none
  | .markQueued => some (w.modifyTask t (Task.setStatus .queued), .enqueue)
  | .enqueue =>
      some ((w.modifyNode e (EdgeNode.enqueueTask (some t))).modifyScheduler fun scheduler =>
        { scheduler with totalTasksScheduled := scheduler.totalTasksScheduled + 1 }, .unlock)
  | .unlock => some (w.modifyScheduler release, .returned)
  | .returned => none

theorem erase_selected_perm {scratch : List TaskPtr} {i : Nat} (hi : i < scratch.length) :
    ((scratch[i]?.getD none).toList ++ (scratch.eraseIdx i).reduceOption).Perm
      scratch.reduceOption := by
  rw [List.getElem?_eq_getElem hi, Option.getD_some]
  have hperm := (List.getElem_cons_eraseIdx_perm hi).filterMap id
  cases hselected : scratch[i] with
  | none => simpa [List.reduceOption, hselected] using hperm
  | some t => simpa [List.reduceOption, hselected] using hperm

theorem fetchStep_effect {me : Thread} {e : EdgeId} {clock : ComparisonClock} {w w' : World}
    {pc pc' : FetchPc} (h : fetchStep me e clock w pc = some (w', pc')) :
    ∃ queue mutex,
      w' = (w.modifyNode e fun node => { node with taskQueue := queue }).modifyScheduler
        (fun scheduler => { scheduler with strategyMutex := mutex }) ∧
      (queue.reduceOption ++ pc'.held).Perm ((w.node e).queued ++ pc.held) := by
  have hsame (mutex : Option Thread) : w.modifyScheduler
      (fun scheduler => { scheduler with strategyMutex := mutex }) =
      (w.modifyNode e fun node => { node with taskQueue := (w.node e).taskQueue }).modifyScheduler
        (fun scheduler => { scheduler with strategyMutex := mutex }) := by
    simp [World.modifyNode]
  have hkeep : w = (w.modifyNode e fun node =>
      { node with taskQueue := (w.node e).taskQueue }).modifyScheduler
        (fun scheduler => { scheduler with strategyMutex := w.scheduler.strategyMutex }) := by
    simp [World.modifyNode, World.modifyScheduler]
  have hpop : (w.modifyNode e fun node => node.dequeueTask.2) =
      (w.modifyNode e fun node =>
        { node with taskQueue := (w.node e).dequeueTask.2.taskQueue }).modifyScheduler
        (fun scheduler => { scheduler with strategyMutex := w.scheduler.strategyMutex }) := by
    simp only [World.modifyNode, World.modifyScheduler]
    congr 2
    unfold EdgeNode.dequeueTask
    split <;> rfl
  have hqueue : (w.node e).queued =
      (w.node e).dequeueTask.1.toList ++ (w.node e).dequeueTask.2.taskQueue.reduceOption :=
    EdgeNode.queued_dequeueTask _
  cases pc with
  | lock =>
      simp only [fetchStep] at h
      split_ifs at h
      cases h
      exact ⟨_, _, hsame _, .refl _⟩
  | checkQueue =>
      simp only [fetchStep] at h
      split_ifs at h <;> cases h
      · exact ⟨_, _, hkeep, by simp [EdgeNode.queued, FetchPc.held]⟩
      · exact ⟨_, _, hkeep, by simp [EdgeNode.queued, FetchPc.held]⟩
      · exact ⟨_, _, hkeep, by simp [EdgeNode.queued, FetchPc.held]⟩
  | popFront =>
      cases h
      refine ⟨_, _, hpop, ?_⟩
      rw [hqueue]
      simpa [FetchPc.held] using List.perm_append_comm
  | drainCheck scratch =>
      simp only [fetchStep] at h
      split_ifs at h with hmore hempty <;> cases h
      · exact ⟨_, _, hkeep, .refl _⟩
      · exact ⟨_, _, hkeep, by simp [EdgeNode.queued, FetchPc.held, hempty]⟩
      · exact ⟨_, _, hkeep, .refl _⟩
  | drainPop scratch =>
      cases h
      refine ⟨_, _, hpop, ?_⟩
      rw [hqueue]
      cases (w.node e).dequeueTask.1 with
      | none => simp [FetchPc.held, List.reduceOption_append]
      | some t =>
          rw [List.perm_iff_count]
          intro u
          simp only [FetchPc.held, List.reduceOption_append, Option.toList_some,
            List.reduceOption_cons_of_some, List.reduceOption_nil, List.count_append,
            List.count_cons, List.count_nil]
          omega
  | choose scratch =>
      obtain ⟨i, hi, hnext⟩ := Option.map_eq_some_iff.mp h
      cases hnext
      exact ⟨_, _, hkeep, (erase_selected_perm (select_lt hi)).append_left _⟩
  | restore selected rest =>
      cases rest with
      | nil =>
          cases h
          exact ⟨_, _, hkeep, by simp [EdgeNode.queued, FetchPc.held]⟩
      | cons task rest =>
          cases h
          refine ⟨(w.node e).taskQueue ++ [task], w.scheduler.strategyMutex, ?_, ?_⟩
          · simp [World.modifyNode, World.modifyScheduler, EdgeNode.enqueueTask]
          · cases task with
            | none => simp [EdgeNode.queued, FetchPc.held, List.reduceOption_append]
            | some t =>
                rw [List.perm_iff_count]
                intro u
                simp only [EdgeNode.queued, FetchPc.held, List.reduceOption_append,
                  List.reduceOption_cons_of_some, List.reduceOption_nil, List.count_append,
                  List.count_cons, List.count_nil]
                omega
  | unlock selected =>
      cases h
      exact ⟨_, _, hsame _, .refl _⟩
  | returned selected => cases h

theorem scheduleStep_frame {me : Thread} {e : EdgeId} {t : TaskRef} {w w' : World}
    {pc pc' : SchedulePc} (h : scheduleStep me e t w pc = some (w', pc')) : Frame w w' := by
  cases pc with
  | lock =>
      simp only [scheduleStep] at h
      split_ifs at h <;> cases h <;> exact Frame.of_node rfl rfl rfl
  | enqueue =>
      cases h
      exact ⟨rfl, rfl,
        (Frame.modifyNode w e (f := EdgeNode.enqueueTask (some t)) rfl).capacity⟩
  | returned => cases h
  | _ =>
      cases h
      exact Frame.of_node rfl rfl rfl

theorem scheduleStep_executor {me : Thread} {e : EdgeId} {t : TaskRef} {w w' : World}
    {pc pc' : SchedulePc} (h : scheduleStep me e t w pc = some (w', pc')) :
    w'.executor = w.executor := by
  cases pc with
  | lock =>
      simp only [scheduleStep] at h
      split_ifs at h <;> cases h <;> rfl
  | returned => cases h
  | _ =>
      cases h
      rfl

theorem scheduleStep_taskCounter {me : Thread} {e : EdgeId} {t : TaskRef} {w w' : World}
    {pc pc' : SchedulePc} (h : scheduleStep me e t w pc = some (w', pc')) :
    w'.taskCounter = w.taskCounter := by
  cases pc with
  | lock =>
      simp only [scheduleStep] at h
      split_ifs at h <;> cases h <;> rfl
  | returned => cases h
  | _ =>
      cases h
      rfl

theorem scheduleStep_strategies {me : Thread} {e : EdgeId} {t : TaskRef} {w w' : World}
    {pc pc' : SchedulePc} (h : scheduleStep me e t w pc = some (w', pc')) :
    w'.allocator = w.allocator ∧ w'.scheduler.strategy = w.scheduler.strategy := by
  cases pc with
  | lock =>
      simp only [scheduleStep] at h
      split_ifs at h <;> cases h <;> exact ⟨rfl, rfl⟩
  | returned => cases h
  | _ =>
      cases h
      exact ⟨rfl, rfl⟩

theorem scheduleStep_task {me : Thread} {e : EdgeId} {t : TaskRef} {w w' : World}
    {pc pc' : SchedulePc} (h : scheduleStep me e t w pc = some (w', pc')) :
    w'.task = w.task ∨ pc.held t = [t] ∧ ∀ t', t' ≠ t → w'.task t' = w.task t' := by
  cases pc with
  | lock =>
      simp only [scheduleStep] at h
      split_ifs at h <;> cases h <;> exact Or.inl rfl
  | markQueued =>
      cases h
      exact Or.inr ⟨rfl, fun t' ht' => World.modifyTask_of_ne _ _ ht'⟩
  | returned => cases h
  | _ =>
      cases h
      exact Or.inl rfl

theorem scheduleStep_node {me : Thread} {e : EdgeId} {t : TaskRef} {w w' : World}
    {pc pc' : SchedulePc} (h : scheduleStep me e t w pc = some (w', pc')) :
    (pc ≠ .enqueue ∧ w'.node = w.node) ∨
      (pc = .enqueue ∧ pc' = .unlock ∧
        w'.node = (w.modifyNode e (EdgeNode.enqueueTask (some t))).node) := by
  cases pc with
  | lock =>
      simp only [scheduleStep] at h
      split_ifs at h <;> cases h <;> exact Or.inl ⟨by rintro ⟨⟩, rfl⟩
  | enqueue =>
      cases h
      exact Or.inr ⟨rfl, rfl, rfl⟩
  | returned => cases h
  | _ =>
      cases h
      exact Or.inl ⟨by rintro ⟨⟩, rfl⟩

/-- A call of `scheduleTask` for a registered edge hands its task to the queue
of that edge and touches nothing else but the mutex, the counter and the status
of the task. -/
structure ScheduleEffect (e : EdgeId) (t : TaskRef) (w w' : World) (pc pc' : SchedulePc) :
    Prop where
  other : ∀ e', e' ≠ e → w'.node e' = w.node e'
  usage : (w'.node e).currentUsage = (w.node e).currentUsage
  queue : ((w'.node e).queued ++ pc'.held t).Perm ((w.node e).queued ++ pc.held t)
  allocator : w'.allocator = w.allocator
  executor : w'.executor = w.executor
  taskCounter : w'.taskCounter = w.taskCounter
  task : ∀ t', t' ≠ t → w'.task t' = w.task t'

theorem scheduleStep_effect {me : Thread} {e : EdgeId} {t : TaskRef} {w w' : World}
    {pc pc' : SchedulePc} (h : scheduleStep me e t w pc = some (w', pc'))
    (he : e ∈ w.fleet.ids) : ScheduleEffect e t w w' pc pc' := by
  cases pc with
  | lock =>
      simp only [scheduleStep, World.getEdgeNode, he, if_true, Option.isSome_some] at h
      split_ifs at h
      cases h
      exact ⟨fun _ _ => rfl, rfl, .refl _, rfl, rfl, rfl, fun _ _ => rfl⟩
  | markQueued =>
      cases h
      exact ⟨fun _ _ => rfl, rfl, .refl _, rfl, rfl, rfl,
        fun _ ht => World.modifyTask_of_ne _ _ ht⟩
  | enqueue =>
      cases h
      refine ⟨fun _ hne => World.modifyNode_of_ne _ _ hne, ?_, ?_, rfl, rfl, rfl, fun _ _ => rfl⟩
      · rw [World.modifyScheduler_node, World.modifyNode_self]
        rfl
      · rw [World.modifyScheduler_node, World.modifyNode_self, EdgeNode.queued_enqueueTask]
        exact .of_eq (List.append_nil _)
  | unlock =>
      cases h
      exact ⟨fun _ _ => rfl, rfl, .refl _, rfl, rfl, rfl, fun _ _ => rfl⟩
  | returned => cases h

end EdgeAllocator.Scheduler
