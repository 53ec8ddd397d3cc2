import EdgeAllocator.Controller

/-! The queues and the accounts under the controller: what one reallocation does
to them, and from it what the handling of a whole failure does. -/
namespace EdgeAllocator.Controller

open Foundation Scheduler Executor Allocator

def charges (w : World) (e : EdgeId) (t : TaskRef) : Bool :=
  decide ((w.task t).assignedEdgeId = e) && !(w.task t).status.finished

/-- The unfinished tasks whose `assigned_edge_id_` is the node. -/
def charged (w : World) (e : EdgeId) : List TaskRef :=
  (List.range w.taskCounter).filter (charges w e)

def share (w : World) (e : EdgeId) (t : TaskRef) : Amounts :=
  if charges w e t then w.demand t else 0

/-- What the account of the node holds beyond what is charged to it. -/
def excess (w : World) (e : EdgeId) : Amounts :=
  (w.node e).currentUsage - w.load (charged w e)

structure Unassigned (w : World) (t : TaskRef) : Prop where
  edge : (w.task t).assignedEdgeId = ""
  unfinished : (w.task t).status.finished = false

instance (w : World) (t : TaskRef) : Decidable (Unassigned w t) :=
  decidable_of_iff ((w.task t).assignedEdgeId = "" ∧ (w.task t).status.finished = false)
    ⟨fun h => ⟨h.1, h.2⟩, fun h => ⟨h.edge, h.unfinished⟩⟩

theorem charges_iff {w : World} {e : EdgeId} {t : TaskRef} : charges w e t = true ↔
    (w.task t).assignedEdgeId = e ∧ (w.task t).status.finished = false := by
  simp [charges]

theorem share_of_charges {w : World} {e : EdgeId} {t : TaskRef} (h : charges w e t = true) :
    share w e t = w.demand t := if_pos h

theorem share_of_not {w : World} {e : EdgeId} {t : TaskRef}
    (h : ¬((w.task t).assignedEdgeId = e ∧ (w.task t).status.finished = false)) :
    share w e t = 0 :=
  if_neg fun hcharges => h (charges_iff.mp hcharges)

theorem load_filter_split (w : World) (p : TaskRef → Bool) {tasks : List TaskRef} {t : TaskRef}
    (ht : t ∈ tasks) :
    w.load (tasks.filter p) = (if p t then w.demand t else 0) + w.load ((tasks.erase t).filter p) := by
  rw [w.load_perm ((List.perm_cons_erase ht).filter p), List.filter_cons]
  split
  · rw [World.load_cons]
  · rw [zero_add]

theorem load_charged {w w' : World} {t : TaskRef} (hstable : Stable w w')
    (ht : t < w.taskCounter) (hother : ∀ t' ≠ t, w'.task t' = w.task t') (e : EdgeId) :
    w'.load (charged w' e) + share w e t = w.load (charged w e) + share w' e t := by
  have hmem : t ∈ List.range w.taskCounter := List.mem_range.mpr ht
  have hrest : (((List.range w.taskCounter).erase t).filter (charges w' e)) =
      ((List.range w.taskCounter).erase t).filter (charges w e) := by
    refine List.filter_congr fun t' ht' => ?_
    have hne : t' ≠ t := ((List.nodup_range).mem_erase_iff.mp ht').1
    unfold charges
    rw [hother t' hne]
  have hold := load_filter_split w (charges w e) hmem
  have hnew := load_filter_split w' (charges w' e) hmem
  rw [hrest, World.load_congr hstable.workload (((List.range w.taskCounter).erase t).filter _)]
    at hnew
  unfold charged share
  rw [hstable.taskCounter, hold, hnew]
  abel

theorem excess_of_task {w w' : World} {t : TaskRef} (hstable : Stable w w')
    (ht : t < w.taskCounter) (hother : ∀ t' ≠ t, w'.task t' = w.task t') (e : EdgeId) :
    excess w' e = excess w e + ((w'.node e).currentUsage - (w.node e).currentUsage) +
      (share w e t - share w' e t) := by
  have hload := load_charged hstable ht hother e
  rw [excess, excess, eq_sub_of_add_eq hload]
  abel

theorem excess_congr {w w' : World} (hstable : Stable w w') (htask : w'.task = w.task)
    {e : EdgeId} (husage : (w'.node e).currentUsage = (w.node e).currentUsage) :
    excess w' e = excess w e := by
  have hcharged : charged w' e = charged w e := by
    unfold charged charges
    rw [hstable.taskCounter, htask]
  rw [excess, excess, husage, hcharged, World.load_congr hstable.workload]

theorem excess_reserve {w w' : World} {t : TaskRef} {e : EdgeId} (hstable : Stable w w')
    (ht : t < w.taskCounter)
    (hnode : w'.node = (w.modifyNode e (EdgeNode.allocateResources (w.demand t))).node)
    (htask : w'.task = (w.modifyTask t (assignTask e)).task) (e' : EdgeId) :
    excess w' e' = excess w e' + share w e' t := by
  have hassigned : (w'.task t).assignedEdgeId = e := by
    rw [htask, World.modifyTask_self]
    rfl
  rw [excess_of_task hstable ht (fun t' hne => by
    rw [htask]; exact Function.update_of_ne hne _ _)]
  by_cases heq : e' = e
  · have hshare : share w' e' t = w.demand t := by
      rw [share_of_charges (charges_iff.mpr ⟨hassigned.trans heq.symm, ?_⟩), World.demand,
        World.demand, hstable.workload]
      rw [htask, World.modifyTask_self]
      rfl
    rw [hshare, hnode, heq, World.modifyNode_self, EdgeNode.allocateResources_currentUsage]
    abel
  · have hshare : share w' e' t = 0 := share_of_not fun hcharges =>
      heq (hcharges.1.symm.trans hassigned)
    rw [hshare, hnode, World.modifyNode_of_ne _ _ heq]
    abel

theorem AllocEffect.excess {w w' : World} {t : TaskRef} {success : Bool}
    (h : AllocEffect w t w' success) (hstable : Stable w w') (ht : t < w.taskCounter)
    (hunassigned : Unassigned w t) {e : EdgeId} (he : e ∈ w.fleet.ids) :
    Controller.excess w' e = Controller.excess w e := by
  cases h with
  | refused hnode htask => exact excess_congr hstable htask (by rw [hnode])
  | reserved hviable hnode htask =>
      have hnone : share w e t = 0 := share_of_not fun hcharges => by
        rw [← hcharges.1, hunassigned.edge] at he
        exact w.fleet.named he
      rw [excess_reserve hstable ht hnode htask, hnone, add_zero]

theorem unassigned_mark (t : TaskRef) (w : World) : Unassigned (markReallocated t w) t := by
  constructor <;> rw [markReallocated, World.modifyTask_self] <;> rfl

theorem excess_mark {w : World} {t : TaskRef} (ht : t < w.taskCounter) {e : EdgeId}
    (he : e ∈ w.fleet.ids) : excess (markReallocated t w) e = excess w e + share w e t := by
  have hnone : share (markReallocated t w) e t = 0 := share_of_not fun hcharges => by
    rw [← hcharges.1, (unassigned_mark t w).edge] at he
    exact w.fleet.named he
  have hstable : Stable w (markReallocated t w) := ⟨rfl, rfl, rfl⟩
  rw [excess_of_task hstable ht (fun t' hne => Function.update_of_ne hne _ _) e, hnone]
  simp only [markReallocated, World.modifyTask_node]
  abel

/-- What one pass of the loop does after it has taken the task from the queue. -/
structure Reallocated (t : TaskRef) (s s' : State) : Prop where
  manager : s'.manager = s.manager
  removed : s'.removed = s.removed ++ [t]
  stable : Stable s.world s'.world
  queue : ∀ e, (s'.world.node e).taskQueue = (s.world.node e).taskQueue
  others : ∀ t' ≠ t, s'.world.task t' = s.world.task t'
  unfinished : (s'.world.task t).status.finished = false
  excess : t < s.world.taskCounter → ∀ e ∈ s.world.fleet.ids,
    excess s'.world e = Controller.excess s.world e + share s.world e t

theorem reallocateTask_effect {t : TaskRef} {s s' : State} (h : reallocateTask t s = some s') :
    Reallocated t s s' := by
  obtain ⟨⟨u, result⟩, hnow, hnext⟩ := Option.map_eq_some_iff.mp h
  obtain ⟨hallocate, hmanager, hremoved⟩ := allocateTaskNow_some hnow
  obtain ⟨hstable, heffect⟩ := allocateTask_effect hallocate
  cases hnext
  generalize result.success = success at heffect
  refine ⟨hmanager, hremoved,
    ⟨hstable.fleet, hstable.workload, hstable.taskCounter⟩, fun e => (heffect.queue e).1,
    fun t' hne => (heffect.task_of_ne hne).trans (Function.update_of_ne hne _ _), ?_,
    fun ht e he => ?_⟩
  · cases heffect with
    | refused _ htask =>
        rw [htask]
        exact (unassigned_mark t s.world).unfinished
    | reserved _ _ htask =>
        rw [htask, World.modifyTask_self]
        rfl
  · exact (heffect.excess hstable ht (unassigned_mark t s.world) he).trans (excess_mark ht he)

/-- What the loop does to a node in whose queue the listed tasks are. -/
structure Emptied (e : EdgeId) (tasks : List TaskRef) (s s' : State) : Prop where
  manager : s'.manager = s.manager
  removed : s'.removed = s.removed ++ tasks
  stable : Stable s.world s'.world
  empty : (s'.world.node e).taskQueue = []
  queue : ∀ e' ≠ e, (s'.world.node e').taskQueue = (s.world.node e').taskQueue
  others : ∀ t ∉ tasks, s'.world.task t = s.world.task t
  unfinished : ∀ t ∈ tasks, (s'.world.task t).status.finished = false

theorem reallocateLoop_effect {e : EdgeId} {tasks : List TaskRef} {s s' : State}
    (h : reallocateLoop e tasks.length s = some s')
    (hqueue : (s.world.node e).taskQueue = tasks.map some) (hnodup : tasks.Nodup)
    (hbound : ∀ t ∈ tasks, t < s.world.taskCounter) : Emptied e tasks s s' := by
  induction tasks generalizing s with
  | nil =>
      cases h
      exact ⟨rfl, (List.append_nil _).symm, ⟨rfl, rfl, rfl⟩, hqueue, fun _ _ => rfl, fun _ _ => rfl,
        fun _ ht => (by cases ht)⟩
  | cons t tasks ih =>
      have hfront : (s.world.node e).dequeueTask.1 = some t := by
        rw [EdgeNode.dequeueTask, hqueue]
        rfl
      have hmore : (s.world.node e).hasTasksInQueue = true := by
        rw [EdgeNode.hasTasksInQueue, hqueue]
        rfl
      simp only [List.length_cons, reallocateLoop, hmore, if_true, hfront] at h
      obtain ⟨u, htask, hloop⟩ := Option.bind_eq_some_iff.mp h
      have hone := reallocateTask_effect htask
      have hpopped (e' : EdgeId) : ((s.world.modifyNode e fun node => node.dequeueTask.2).node
          e').taskQueue = if e' = e then tasks.map some else (s.world.node e').taskQueue := by
        split_ifs with he
        · rw [he, World.modifyNode_self, EdgeNode.dequeueTask, hqueue]
          rfl
        · rw [World.modifyNode_of_ne _ _ he]
      obtain ⟨hnot, hrest⟩ := List.nodup_cons.mp hnodup
      have hall := ih hloop ((hone.queue e).trans ((hpopped e).trans (if_pos rfl))) hrest
        fun t' ht' => hone.stable.taskCounter ▸ hbound t' (List.mem_cons_of_mem _ ht')
      refine ⟨hall.manager.trans hone.manager, ?_, ?_, hall.empty, fun e' he => ?_,
        fun t' ht' => ?_, fun t' ht' => ?_⟩
      · rw [hall.removed, hone.removed, List.append_assoc]
        rfl
      · have hstable := hone.stable.trans hall.stable
        exact ⟨hstable.fleet, hstable.workload, hstable.taskCounter⟩
      · rw [hall.queue e' he, hone.queue e']
        exact (hpopped e').trans (if_neg he)
      · obtain ⟨hne, hlater⟩ := List.ne_and_not_mem_of_not_mem_cons ht'
        exact (hall.others t' hlater).trans (hone.others t' hne)
      · rcases List.mem_cons.mp ht' with rfl | hlater
        · rw [hall.others t' hnot]
          exact hone.unfinished
        · exact hall.unfinished t' hlater

/-- Each queue holds tasks that are its own: unfinished, once each, those of a
node charged to that node and those of the manager without a node. -/
structure Orderly (s : State) : Prop where
  managerSolid : none ∉ s.manager.taskQueue
  managerNodup : s.manager.taskQueue.Nodup
  created : ∀ t, some t ∈ s.manager.taskQueue → t < s.world.taskCounter ∧ Unassigned s.world t
  solid : ∀ e, none ∉ (s.world.node e).taskQueue
  nodup : ∀ e, (s.world.node e).taskQueue.Nodup
  queued : ∀ e t, some t ∈ (s.world.node e).taskQueue →
    t < s.world.taskCounter ∧ e ∈ s.world.fleet.ids ∧ charges s.world e t = true
  removed : ∀ t ∈ s.removed, t < s.world.taskCounter

/-- How a driver uses the controller: it allocates a task that has no node and
waits in no queue, and schedules a task on the node chosen for it, once. -/
def Disciplined (s : State) : Label → Prop
  | .allocate t => t < s.world.taskCounter ∧ Unassigned s.world t ∧
      some t ∉ s.manager.taskQueue
  | .schedule t e => t < s.world.taskCounter ∧ charges s.world e t = true ∧
      some t ∉ (s.world.node e).taskQueue
  | _ => True

instance (s : State) (label : Label) : Decidable (Disciplined s label) := by
  cases label <;> simp only [Disciplined] <;> infer_instance

theorem Orderly.ne_of_unassigned {s : State} (h : Orderly s) {t : TaskRef}
    (ht : Unassigned s.world t) (e : EdgeId) : some t ∉ (s.world.node e).taskQueue := by
  intro hmem
  obtain ⟨-, he, hcharges⟩ := h.queued e t hmem
  rw [← (charges_iff.mp hcharges).1, ht.edge] at he
  exact s.world.fleet.named he

theorem Orderly.queue_eq {s : State} (h : Orderly s) (e : EdgeId) :
    (s.world.node e).taskQueue = (s.world.node e).queued.map some :=
  EdgeNode.taskQueue_eq_map (h.solid e)

theorem Orderly.mem_queued {s : State} (h : Orderly s) {e : EdgeId} {t : TaskRef} :
    t ∈ (s.world.node e).queued ↔ some t ∈ (s.world.node e).taskQueue := by
  rw [h.queue_eq e, List.mem_map_of_injective (Option.some_injective _)]

theorem Orderly.shrink {s s' : State} (h : Orderly s)
    (hfleet : s'.world.fleet = s.world.fleet)
    (hcounter : s.world.taskCounter ≤ s'.world.taskCounter)
    (hmanager : s'.manager.taskQueue.Sublist s.manager.taskQueue)
    (hqueue : ∀ e, (s'.world.node e).taskQueue ⊆ (s.world.node e).taskQueue ∧
      (s'.world.node e).taskQueue.Nodup)
    (htask : ∀ t, (some t ∈ s'.manager.taskQueue ∨ ∃ e, some t ∈ (s'.world.node e).taskQueue) →
      s'.world.task t = s.world.task t)
    (hremoved : ∀ t ∈ s'.removed, t < s'.world.taskCounter) : Orderly s' := by
  refine ⟨fun hmem => h.managerSolid (hmanager.subset hmem), h.managerNodup.sublist hmanager,
    fun t ht => ?_, fun e hmem => h.solid e ((hqueue e).1 hmem), fun e => (hqueue e).2,
    fun e t ht => ?_, hremoved⟩
  · obtain ⟨hbound, hedge, hunfinished⟩ := h.created t (hmanager.subset ht)
    refine ⟨hbound.trans_le hcounter, ?_, ?_⟩
    all_goals rw [htask t (Or.inl ht)]; assumption
  · obtain ⟨hbound, he, hcharges⟩ := h.queued e t ((hqueue e).1 ht)
    refine ⟨hbound.trans_le hcounter, hfleet ▸ he, ?_⟩
    rw [charges, htask t (Or.inr ⟨e, ht⟩)]
    exact hcharges

def markFailed (e : EdgeId) (s : State) : State :=
  { s with
    world := s.world.modifyNode e (EdgeNode.setAvailable false)
    counters := s.counters.failure }

def markRecovered (e : EdgeId) (s : State) : State :=
  { s with
    world := s.world.modifyNode e (EdgeNode.setAvailable true)
    counters := s.counters.recovery }

structure Completed (e : EdgeId) (t : TaskRef) (queue : List TaskPtr) (w w' : World) : Prop where
  stable : Stable w w'
  node : w'.node e = ({ w.node e with taskQueue := queue } : EdgeNode).deallocateResources
    (w.demand t)
  otherNodes : ∀ e' ≠ e, w'.node e' = w.node e'
  otherTasks : ∀ t' ≠ t, w'.task t' = w.task t'
  finished : (w'.task t).status.finished = true

theorem simulateTaskExecution_completed (e : EdgeId) (input : WorkerInput) (t : TaskRef)
    (queue : List TaskPtr) (w : World) :
    Completed e t queue w (simulateTaskExecution e input t
      (w.modifyNode e fun node => { node with taskQueue := queue })) := by
  generalize hrest : (w.modifyNode e fun node => { node with taskQueue := queue }) = rest
  have hstable : Stable w rest := hrest ▸ ⟨rfl, rfl, rfl⟩
  have hdemand : rest.demand t = w.demand t := by rw [World.demand, hstable.workload, World.demand]
  have htasks : rest.task = w.task := hrest ▸ rfl
  obtain ⟨status, hfinished, htask⟩ := simulateTaskExecution_task e input t rest
  refine ⟨hstable.trans (simulateTaskExecution_stable e input t rest), ?_, fun e' he => ?_,
    fun t' hne => ?_, ?_⟩
  · rw [simulateTaskExecution_node, World.modifyNode_self, hdemand, ← hrest, World.modifyNode_self]
  · rw [simulateTaskExecution_node, World.modifyNode_of_ne _ _ he, ← hrest,
      World.modifyNode_of_ne _ _ he]
  · rw [htask, Function.update_of_ne hne, htasks]
  · rw [htask, Function.update_self]
    exact hfinished

inductive Move (s : State) : Label → State → Prop where
  | create (now : Int) : Move s (.create now) (createTaskFromSensorData now s)
  | idle (draws : EdgeId → EdgeNode.Draws) {w : World} (hempty : s.manager.taskQueue = [])
      (hw : OnlyUsage s.world w) : Move s (.process draws) { s with world := w }
  | pass (draws : EdgeId → EdgeNode.Draws) {t : TaskRef} {rest : List TaskPtr} {w : World}
      {success : Bool} {s' : State} (hfront : s.manager.taskQueue = some t :: rest)
      (hmanager : s'.manager.taskQueue = rest) (hremoved : s'.removed = s.removed ++ [t])
      (hstable : Stable s.world w) (heffect : AllocEffect s.world t w success)
      (hw : OnlyUsage w s'.world) : Move s (.process draws) s'
  | construct (now : Int) :
      Move s (.construct now) { s with world := constructTask now s.world }
  | allocate {t : TaskRef} {success : Bool} {s' : State} (hmanager : s'.manager = s.manager)
      (hremoved : s'.removed = s.removed) (hstable : Stable s.world s'.world)
      (heffect : AllocEffect s.world t s'.world success) : Move s (.allocate t) s'
  | schedule {t : TaskRef} {e : EdgeId} (he : e ∈ s.world.fleet.ids) :
      Move s (.schedule t e) { s with world := scheduleTask e t s.world }
  | starve (e : EdgeId) (input : WorkerInput) : Move s (.complete e input) s
  | complete {e : EdgeId} (input : WorkerInput) {t : TaskRef} {queue : List TaskPtr} {w : World}
      (hperm : (s.world.node e).taskQueue.Perm (some t :: queue))
      (hcompleted : Completed e t queue s.world w) :
      Move s (.complete e input) { s with world := w }
  | ignore (label : Label) (e : EdgeId) (he : e ∉ s.world.fleet.ids)
      (hlabel : (∃ t, label = .schedule t e) ∨ label = .fail e ∨ label = .recover e) :
      Move s label s
  | fail {e : EdgeId} (he : e ∈ s.world.fleet.ids) {s' : State}
      (hemptied : Emptied e (s.world.node e).queued (markFailed e s) s') : Move s (.fail e) s'
  | recover {e : EdgeId} (he : e ∈ s.world.fleet.ids) : Move s (.recover e) (markRecovered e s)

theorem processingIteration_move {draws : EdgeId → EdgeNode.Draws} {s s' : State}
    (h : processingIteration draws s = some s') (horderly : Orderly s) :
    Move s (.process draws) s' := by
  obtain ⟨u, htaken, hnext⟩ := Option.map_eq_some_iff.mp h
  have hmetrics := updateResourceMetrics_effect draws u.world
  cases hqueue : s.manager.taskQueue with
  | nil =>
      simp only [TaskManager.hasTasksInQueue, hqueue, List.isEmpty_nil, Bool.not_true,
        Bool.false_eq_true, if_false] at htaken
      cases htaken
      cases hnext
      exact .idle draws hqueue hmetrics
  | cons task rest =>
      cases task with
      | none => exact absurd (hqueue ▸ List.mem_cons_self) horderly.managerSolid
      | some t =>
          simp only [TaskManager.hasTasksInQueue, TaskManager.dequeueTask, hqueue,
            List.isEmpty_cons, Bool.not_false, if_true] at htaken
          obtain ⟨⟨v, result⟩, hnow, heq⟩ := Option.map_eq_some_iff.mp htaken
          cases heq
          obtain ⟨hallocate, hmanager, hremoved⟩ := allocateTaskNow_some hnow
          obtain ⟨hstable, heffect⟩ := allocateTask_effect hallocate
          cases hnext
          exact .pass draws hqueue (congrArg TaskManager.taskQueue hmanager) hremoved hstable
            heffect hmetrics

theorem executeNextTask_move {e : EdgeId} {input : WorkerInput} {s s' : State}
    (h : executeNextTask e input s = some s') (horderly : Orderly s) :
    Move s (.complete e input) s' := by
  obtain ⟨⟨w, task⟩, hnext, hexecute⟩ := Option.map_eq_some_iff.mp h
  obtain ⟨rfl, rfl⟩ | ⟨queue, rfl, hperm⟩ := getNextTask_effect hnext
  · cases hexecute
    exact .starve e input
  · cases task with
    | none =>
        exact absurd (hperm.mem_iff.mpr List.mem_cons_self) (horderly.solid e)
    | some t =>
        cases hexecute
        exact .complete input hperm (simulateTaskExecution_completed e input t queue s.world)

theorem getEdgeNode_of_mem {w : World} {e : EdgeId} (h : e ∈ w.fleet.ids) :
    w.getEdgeNode e = some e := if_pos h

theorem getEdgeNode_of_not {w : World} {e : EdgeId} (h : e ∉ w.fleet.ids) :
    w.getEdgeNode e = none := if_neg h

theorem reallocateTasksFromFailedNode_of_mem {s : State} {e : EdgeId}
    (he : e ∈ s.world.fleet.ids) : reallocateTasksFromFailedNode e s =
      reallocateLoop e (s.world.node e).getQueueLength s := by
  rw [reallocateTasksFromFailedNode, getEdgeNode_of_mem he]

theorem simulateNodeFailure_of_mem {s : State} {e : EdgeId} (he : e ∈ s.world.fleet.ids) :
    simulateNodeFailure e s =
      reallocateLoop e (s.world.node e).getQueueLength (markFailed e s) := by
  have hlength : ((markFailed e s).world.node e).getQueueLength =
      (s.world.node e).getQueueLength := by
    rw [markFailed, World.modifyNode_self]
    rfl
  have hregistered : e ∈ (markFailed e s).world.fleet.ids := he
  rw [simulateNodeFailure, getEdgeNode_of_mem he, ← hlength,
    ← reallocateTasksFromFailedNode_of_mem hregistered]
  rfl

theorem simulateNodeFailure_move {e : EdgeId} {s s' : State}
    (h : simulateNodeFailure e s = some s') (horderly : Orderly s) : Move s (.fail e) s' := by
  by_cases he : e ∈ s.world.fleet.ids
  · rw [simulateNodeFailure_of_mem he, EdgeNode.getQueueLength, horderly.queue_eq e,
      List.length_map] at h
    have hqueue : ((markFailed e s).world.node e).taskQueue =
        (s.world.node e).queued.map some := by
      rw [markFailed, World.modifyNode_self, EdgeNode.setAvailable_taskQueue]
      exact horderly.queue_eq e
    refine .fail he (reallocateLoop_effect h hqueue ?_ fun t ht => ?_)
    · have hnodup := horderly.nodup e
      rw [horderly.queue_eq e] at hnodup
      exact hnodup.of_map _
    · exact (horderly.queued e t (horderly.mem_queued.mp ht)).1
  · rw [simulateNodeFailure, getEdgeNode_of_not he] at h
    cases h
    exact .ignore _ e he (Or.inr (Or.inl rfl))

theorem step_move {s s' : State} {label : Label} (h : step s label = some s')
    (horderly : Orderly s) : Move s label s' := by
  cases label with
  | create now =>
      cases h
      exact .create now
  | process draws => exact processingIteration_move h horderly
  | construct now =>
      cases h
      exact .construct now
  | allocate t =>
      obtain ⟨⟨u, result⟩, hnow, hnext⟩ := Option.map_eq_some_iff.mp h
      cases hnext
      obtain ⟨hallocate, hmanager, hremoved⟩ := allocateTaskNow_some hnow
      obtain ⟨hstable, heffect⟩ := allocateTask_effect hallocate
      exact .allocate hmanager hremoved hstable heffect
  | schedule t e =>
      cases h
      by_cases he : e ∈ s.world.fleet.ids
      · exact .schedule he
      · rw [scheduleTask, getEdgeNode_of_not he]
        exact .ignore _ e he (Or.inl ⟨t, rfl⟩)
  | complete e input => exact executeNextTask_move h horderly
  | fail e => exact simulateNodeFailure_move h horderly
  | recover e =>
      simp only [step, recoverNodeFromFailure] at h
      by_cases he : e ∈ s.world.fleet.ids
      · rw [getEdgeNode_of_mem he] at h
        cases h
        exact .recover he
      · rw [getEdgeNode_of_not he] at h
        cases h
        exact .ignore _ e he (Or.inr (Or.inr rfl))

theorem constructTask_of_lt {w : World} {t : TaskRef} (ht : t < w.taskCounter) (now : Int) :
    (constructTask now w).task t = w.task t :=
  Function.update_of_ne (ne_of_lt ht) _ _

theorem Orderly.create {s : State} (h : Orderly s) (now : Int) :
    Orderly (createTaskFromSensorData now s) := by
  have hnew : some s.world.taskCounter ∉ s.manager.taskQueue := fun hmem =>
    lt_irrefl _ (h.created _ hmem).1
  refine ⟨fun hmem => ?_, ?_, fun t ht => ?_, h.solid, h.nodup, fun e t ht => ?_,
    fun t ht => Nat.lt_succ_of_lt (h.removed t ht)⟩
  · rcases List.mem_append.mp hmem with hold | hlast
    · exact h.managerSolid hold
    · cases List.mem_singleton.mp hlast
  · exact h.managerNodup.append (List.nodup_singleton _) (List.disjoint_singleton.mpr hnew)
  · rcases List.mem_append.mp ht with hold | hlast
    · obtain ⟨hbound, hunassigned⟩ := h.created t hold
      have hsame := constructTask_of_lt hbound now
      exact ⟨Nat.lt_succ_of_lt hbound, (congrArg Task.assignedEdgeId hsame).trans hunassigned.edge,
        (congrArg (fun task => task.status.finished) hsame).trans hunassigned.unfinished⟩
    · cases List.mem_singleton.mp hlast
      refine ⟨Nat.lt_succ_self _, ?_, ?_⟩
      · simp only [createTaskFromSensorData, constructTask, World.modifyTask_self]
      · simp only [createTaskFromSensorData, constructTask, World.modifyTask_self]
        rfl
  · obtain ⟨hbound, he, hcharges⟩ := h.queued e t ht
    refine ⟨Nat.lt_succ_of_lt hbound, he, ?_⟩
    rw [charges, show (createTaskFromSensorData now s).world.task t = s.world.task t from
      constructTask_of_lt hbound now]
    exact hcharges

theorem Orderly.schedule {s : State} (h : Orderly s) {t : TaskRef} {e : EdgeId}
    (he : e ∈ s.world.fleet.ids) (ht : t < s.world.taskCounter)
    (hcharges : charges s.world e t = true) (hnew : some t ∉ (s.world.node e).taskQueue) :
    Orderly { s with world := scheduleTask e t s.world } := by
  obtain ⟨hedge, hunfinished⟩ := charges_iff.mp hcharges
  have hqueue (e' : EdgeId) : ((scheduleTask e t s.world).node e').taskQueue =
      (s.world.node e').taskQueue ++ if e' = e then [some t] else [] := by
    simp only [scheduleTask, getEdgeNode_of_mem he, World.modifyScheduler_node]
    by_cases heq : e' = e
    · rw [heq, if_pos rfl, World.modifyNode_self]
      rfl
    · rw [if_neg heq, World.modifyNode_of_ne _ _ heq, List.append_nil]
      rfl
  have htask (t' : TaskRef) : ((scheduleTask e t s.world).task t').assignedEdgeId =
      (s.world.task t').assignedEdgeId ∧ (((s.world.task t').status.finished = false) →
        ((scheduleTask e t s.world).task t').status.finished = false) := by
    simp only [scheduleTask, getEdgeNode_of_mem he, World.modifyScheduler_task,
      World.modifyNode_task]
    by_cases heq : t' = t
    · rw [heq, World.modifyTask_self]
      exact ⟨rfl, fun _ => rfl⟩
    · have hsame : (s.world.modifyTask t (Task.setStatus .queued)).task t' = s.world.task t' :=
        Function.update_of_ne heq _ _
      rw [hsame]
      exact ⟨rfl, id⟩
  have hstable : Stable s.world (scheduleTask e t s.world) := by
    simp only [scheduleTask, getEdgeNode_of_mem he]
    exact ⟨rfl, rfl, rfl⟩
  have hkept {e' : EdgeId} {t' : TaskRef} (hold : charges s.world e' t' = true) :
      charges (scheduleTask e t s.world) e' t' = true := by
    rw [charges_iff] at hold ⊢
    exact ⟨(htask t').1.trans hold.1, (htask t').2 hold.2⟩
  refine ⟨h.managerSolid, h.managerNodup, fun t' ht' => ?_, fun e' hmem => ?_, fun e' => ?_,
    fun e' t' ht' => ?_, fun t' ht' => hstable.taskCounter ▸ h.removed t' ht'⟩
  · obtain ⟨hbound, hunassigned⟩ := h.created t' ht'
    exact ⟨hstable.taskCounter ▸ hbound, (htask t').1.trans hunassigned.edge,
      (htask t').2 hunassigned.unfinished⟩
  · change none ∈ ((scheduleTask e t s.world).node e').taskQueue at hmem
    rw [hqueue] at hmem
    rcases List.mem_append.mp hmem with hold | hlast
    · exact h.solid e' hold
    · split_ifs at hlast
      · cases List.mem_singleton.mp hlast
      · cases hlast
  · show ((scheduleTask e t s.world).node e').taskQueue.Nodup
    rw [hqueue]
    split_ifs with heq
    · refine (h.nodup e').append (List.nodup_singleton _) (List.disjoint_singleton.mpr ?_)
      rw [heq]
      exact hnew
    · rw [List.append_nil]
      exact h.nodup e'
  · change some t' ∈ ((scheduleTask e t s.world).node e').taskQueue at ht'
    show t' < (scheduleTask e t s.world).taskCounter ∧
      e' ∈ (scheduleTask e t s.world).fleet.ids ∧ charges (scheduleTask e t s.world) e' t' = true
    rw [hqueue] at ht'
    rw [hstable.taskCounter, hstable.fleet]
    rcases List.mem_append.mp ht' with hold | hlast
    · obtain ⟨hbound, he', hcharges'⟩ := h.queued e' t' hold
      exact ⟨hbound, he', hkept hcharges'⟩
    · split_ifs at hlast with heq
      · cases List.mem_singleton.mp hlast
        rw [heq]
        exact ⟨ht, he, hkept hcharges⟩
      · cases hlast

theorem Completed.queue {e : EdgeId} {t : TaskRef} {queue : List TaskPtr} {w w' : World}
    (h : Completed e t queue w w') (e' : EdgeId) :
    (w'.node e').taskQueue = if e' = e then queue else (w.node e').taskQueue := by
  split_ifs with he
  · rw [he, h.node]
    rfl
  · rw [h.otherNodes e' he]

theorem Orderly.complete {s : State} (h : Orderly s) {e : EdgeId} {t : TaskRef}
    {queue : List TaskPtr} {w : World}
    (hperm : (s.world.node e).taskQueue.Perm (some t :: queue))
    (hcompleted : Completed e t queue s.world w) : Orderly { s with world := w } := by
  have hmem : some t ∈ (s.world.node e).taskQueue := hperm.mem_iff.mpr List.mem_cons_self
  obtain ⟨-, he, hcharges⟩ := h.queued e t hmem
  obtain ⟨hnot, hnodup⟩ := List.nodup_cons.mp (hperm.nodup_iff.mp (h.nodup e))
  refine h.shrink hcompleted.stable.fleet (le_of_eq hcompleted.stable.taskCounter.symm) (.refl _)
    (fun e' => ?_) (fun t' ht' => hcompleted.otherTasks t' ?_)
    fun t' ht' => hcompleted.stable.taskCounter ▸ h.removed t' ht'
  · rw [hcompleted.queue e']
    split_ifs with heq
    · rw [heq]
      exact ⟨fun task htask => hperm.mem_iff.mpr (List.mem_cons_of_mem _ htask), hnodup⟩
    · exact ⟨fun _ => id, h.nodup e'⟩
  · rintro rfl
    rcases ht' with hcreated | ⟨e', hqueued⟩
    · exact h.ne_of_unassigned (h.created t' hcreated).2 e hmem
    · rw [hcompleted.queue e'] at hqueued
      split_ifs at hqueued with heq
      · exact hnot hqueued
      · obtain ⟨-, -, hcharges'⟩ := h.queued e' t' hqueued
        exact heq ((charges_iff.mp hcharges').1.symm.trans (charges_iff.mp hcharges).1)

theorem Orderly.ne_of_waiting {s : State} (h : Orderly s) {t t' : TaskRef}
    {created : List (Option TaskRef)} (hunassigned : Unassigned s.world t)
    (hnot : some t ∉ created)
    (ht' : some t' ∈ created ∨ ∃ e, some t' ∈ (s.world.node e).taskQueue) : t' ≠ t := by
  rintro rfl
  rcases ht' with hcreated | ⟨e, hqueued⟩
  · exact hnot hcreated
  · exact h.ne_of_unassigned hunassigned e hqueued

theorem Orderly.move {s s' : State} {label : Label} (h : Orderly s)
    (hdisciplined : Disciplined s label) (hmove : Move s label s') : Orderly s' := by
  cases hmove with
  | create now => exact h.create now
  | idle draws hempty hw =>
      refine h.shrink hw.stable.fleet (le_of_eq hw.stable.taskCounter.symm) (.refl _)
        (fun e => ?_) (fun t _ => congrFun hw.task t) fun t ht =>
          hw.stable.taskCounter ▸ h.removed t ht
      rw [hw.queue e]
      exact ⟨fun _ => id, h.nodup e⟩
  | @pass draws t rest w success s' hfront hmanager hremoved hstable heffect hw =>
      have hall := hstable.trans hw.stable
      have hmem : some t ∈ s.manager.taskQueue := hfront ▸ List.mem_cons_self
      obtain ⟨hbound, hunassigned⟩ := h.created t hmem
      have hnot : some t ∉ rest := (List.nodup_cons.mp (hfront ▸ h.managerNodup)).1
      have hqueue (e : EdgeId) :
          (s'.world.node e).taskQueue = (s.world.node e).taskQueue :=
        (hw.queue e).trans (heffect.queue e).1
      refine h.shrink hall.fleet (le_of_eq hall.taskCounter.symm) ?_ (fun e => ?_)
        (fun t' ht' => ?_) fun t' ht' => ?_
      · rw [hmanager, hfront]
        exact List.sublist_cons_self _ _
      · rw [hqueue e]
        exact ⟨fun _ => id, h.nodup e⟩
      · refine (congrFun hw.task t').trans
          (heffect.task_of_ne (h.ne_of_waiting hunassigned hnot ?_))
        exact ht'.imp (fun hcreated => hmanager ▸ hcreated) fun ⟨e, hqueued⟩ =>
          ⟨e, hqueue e ▸ hqueued⟩
      · rw [hall.taskCounter]
        rw [hremoved] at ht'
        rcases List.mem_append.mp ht' with hold | hlast
        · exact h.removed t' hold
        · rw [List.mem_singleton.mp hlast]
          exact hbound
  | construct now =>
      refine h.shrink rfl (Nat.le_succ _) (.refl _) (fun e => ⟨fun _ => id, h.nodup e⟩)
        (fun t ht => ?_) fun t ht => Nat.lt_succ_of_lt (h.removed t ht)
      refine constructTask_of_lt ?_ now
      rcases ht with hcreated | ⟨e, hqueued⟩
      · exact (h.created t hcreated).1
      · exact (h.queued e t hqueued).1
  | @allocate t success s' hmanager hremoved hstable heffect =>
      obtain ⟨-, hunassigned, hnot⟩ := hdisciplined
      refine h.shrink hstable.fleet (le_of_eq hstable.taskCounter.symm)
        (hmanager ▸ .refl _) (fun e => ?_)
        (fun t' ht' => heffect.task_of_ne (h.ne_of_waiting hunassigned hnot ?_))
        fun t' ht' => hstable.taskCounter ▸ h.removed t' (hremoved ▸ ht')
      · rw [(heffect.queue e).1]
        exact ⟨fun _ => id, h.nodup e⟩
      · exact ht'.imp (fun hcreated => hmanager ▸ hcreated) fun ⟨e, hqueued⟩ =>
          ⟨e, (heffect.queue e).1 ▸ hqueued⟩
  | schedule he =>
      obtain ⟨hbound, hcharges, hnew⟩ := hdisciplined
      exact h.schedule he hbound hcharges hnew
  | starve e input => exact h
  | complete input hperm hcompleted => exact h.complete hperm hcompleted
  | ignore label e he hlabel => exact h
  | @fail e he s' hemptied =>
      have hqueue (e' : EdgeId) (hne : e' ≠ e) :
          (s'.world.node e').taskQueue = (s.world.node e').taskQueue := by
        rw [hemptied.queue e' hne, markFailed, World.modifyNode_of_ne _ _ hne]
      refine h.shrink hemptied.stable.fleet (le_of_eq hemptied.stable.taskCounter.symm)
        (hemptied.manager ▸ .refl _) (fun e' => ?_) (fun t ht => hemptied.others t ?_)
        fun t ht => ?_
      · by_cases hne : e' = e
        · rw [hne, hemptied.empty]
          exact ⟨List.nil_subset _, List.nodup_nil⟩
        · rw [hqueue e' hne]
          exact ⟨fun _ => id, h.nodup e'⟩
      · intro hmem
        have hfailed := h.mem_queued.mp hmem
        obtain ⟨-, -, hcharges⟩ := h.queued e t hfailed
        rcases ht with hcreated | ⟨e', hqueued⟩
        · exact h.ne_of_unassigned (h.created t (hemptied.manager ▸ hcreated)).2 e hfailed
        · by_cases hne : e' = e
          · rw [hne, hemptied.empty] at hqueued
            cases hqueued
          · obtain ⟨-, -, hcharges'⟩ := h.queued e' t (hqueue e' hne ▸ hqueued)
            exact hne ((charges_iff.mp hcharges').1.symm.trans (charges_iff.mp hcharges).1)
      · rw [hemptied.stable.taskCounter]
        rw [hemptied.removed] at ht
        rcases List.mem_append.mp ht with hold | hnew
        · exact h.removed t hold
        · exact (h.queued e t (h.mem_queued.mp hnew)).1
  | @recover e he =>
      refine h.shrink rfl le_rfl (.refl _) (fun e' => ?_) (fun _ _ => rfl) h.removed
      by_cases hne : e' = e
      · rw [hne, markRecovered, World.modifyNode_self, EdgeNode.setAvailable_taskQueue]
        exact ⟨fun _ => id, h.nodup e⟩
      · rw [markRecovered, World.modifyNode_of_ne _ _ hne]
        exact ⟨fun _ => id, h.nodup e'⟩

theorem Orderly.initial {s : State} (h : Initial s) : Orderly s := by
  have hqueue (e : EdgeId) : (s.world.node e).taskQueue = [] := by
    obtain ⟨capacity, hnode⟩ := h.node e
    rw [hnode]
  have hmanager : s.manager.taskQueue = [] := by rw [h.manager]
  refine ⟨?_, ?_, fun t ht => ?_, fun e => ?_, fun e => ?_, fun e t ht => ?_, fun t ht => ?_⟩
  · rw [hmanager]
    exact List.not_mem_nil
  · rw [hmanager]
    exact List.nodup_nil
  · rw [hmanager] at ht
    cases ht
  · rw [hqueue e]
    exact List.not_mem_nil
  · rw [hqueue e]
    exact List.nodup_nil
  · rw [hqueue e] at ht
    cases ht
  · rw [h.removed] at ht
    cases ht

end EdgeAllocator.Controller
