import EdgeAllocator.Controller
import EdgeAllocator.Foundation.Selection

/-! `TaskScheduler` as the discipline of the queues: calls of `scheduleTask`,
`getNextTask` and `setStrategy` one after another, each run through its steps,
against the queue of the tasks that are scheduled and not yet returned. -/
namespace EdgeAllocator.Discipline

open Foundation Scheduler

/-- The steps of a call of `getNextTask` that nothing comes between. -/
def runFetch (me : Thread) (e : EdgeId) (clock : ComparisonClock) :
    Nat → World → FetchPc → Option (World × TaskPtr)
  | _, w, .returned selected => some (w, selected)
  | 0, _, _ => none
  | n + 1, w, pc => (fetchStep me e clock w pc).bind fun (w', pc') => runFetch me e clock n w' pc'

/-- Two steps for each task that is drained, one for each that is restored, and
five around them. -/
def getNextTask (me : Thread) (e : EdgeId) (clock : ComparisonClock) (w : World) :
    Option (World × TaskPtr) :=
  runFetch me e clock (3 * (w.node e).getQueueLength + 5) w .lock

def runSchedule (me : Thread) (e : EdgeId) (t : TaskRef) :
    Nat → World → SchedulePc → Option World
  | _, w, .returned => some w
  | 0, _, _ => none
  | n + 1, w, pc => (scheduleStep me e t w pc).bind fun (w', pc') => runSchedule me e t n w' pc'

def scheduleTask (me : Thread) (e : EdgeId) (t : TaskRef) (w : World) : Option World :=
  runSchedule me e t 4 w .lock

section Run

variable (me : Thread) (e : EdgeId) (clock : ComparisonClock) (w : World)

theorem runFetch_step {n : Nat} {pc pc' : FetchPc} {w' : World}
    (h : fetchStep me e clock w pc = some (w', pc')) :
    runFetch me e clock (n + 1) w pc = runFetch me e clock n w' pc' := by
  cases pc with
  | returned selected => cases h
  | _ =>
      rw [runFetch, h, Option.bind_some]
      rintro _ ⟨⟩

def withQueue (queue : List TaskPtr) (w : World) : World :=
  w.modifyNode e fun node => { node with taskQueue := queue }

@[simp] theorem withQueue_taskQueue (queue : List TaskPtr) :
    ((withQueue e queue w).node e).taskQueue = queue := by
  rw [withQueue, World.modifyNode_self]

@[simp] theorem withQueue_withQueue (queue queue' : List TaskPtr) :
    withQueue e queue' (withQueue e queue w) = withQueue e queue' w := by
  simp only [withQueue, World.modifyNode, Function.update_idem, Function.update_self]

theorem withQueue_self : withQueue e (w.node e).taskQueue w = w := by
  simp [withQueue, World.modifyNode]

theorem modifyNode_dequeueTask {task : TaskPtr} {queue : List TaskPtr}
    (h : (w.node e).taskQueue = task :: queue) :
    (w.modifyNode e fun node => node.dequeueTask.2) = withQueue e queue w ∧
      (w.node e).dequeueTask.1 = task := by
  simp only [withQueue, World.modifyNode, EdgeNode.dequeueTask, h, and_self]

theorem runFetch_drain (n : Nat) (queue scratch : List TaskPtr)
    (hqueue : (w.node e).taskQueue = queue) :
    runFetch me e clock (2 * queue.length + n) w (.drainCheck scratch) =
      runFetch me e clock n (withQueue e [] w) (.drainCheck (scratch ++ queue)) := by
  induction queue generalizing w scratch with
  | nil => rw [← hqueue, withQueue_self, hqueue, List.append_nil, List.length_nil, Nat.zero_add]
  | cons task queue ih =>
      have hmore : (w.node e).hasTasksInQueue = true := by
        simp [EdgeNode.hasTasksInQueue, hqueue]
      obtain ⟨hpop, htask⟩ := modifyNode_dequeueTask e w hqueue
      have hcheck : fetchStep me e clock w (.drainCheck scratch) =
          some (w, .drainPop scratch) := by
        simp only [fetchStep, hmore, if_true]
      have hdrain : fetchStep me e clock w (.drainPop scratch) =
          some (withQueue e queue w, .drainCheck (scratch ++ [task])) := by
        simp only [fetchStep, hpop, htask]
      rw [show 2 * (task :: queue).length + n = 2 * queue.length + n + 1 + 1 by
          rw [List.length_cons]; omega,
        runFetch_step me e clock w hcheck, runFetch_step me e clock w hdrain,
        ih (withQueue e queue w) (scratch ++ [task]) (withQueue_taskQueue ..),
        withQueue_withQueue, List.append_assoc]
      rfl

theorem runFetch_restore (n : Nat) (selected : TaskPtr) (queue rest : List TaskPtr)
    (hqueue : (w.node e).taskQueue = queue) :
    runFetch me e clock (rest.length + n) w (.restore selected rest) =
      runFetch me e clock n (withQueue e (queue ++ rest) w) (.restore selected []) := by
  induction rest generalizing w queue with
  | nil => rw [List.append_nil, ← hqueue, withQueue_self, List.length_nil, Nat.zero_add]
  | cons task rest ih =>
      have henqueue : w.modifyNode e (EdgeNode.enqueueTask task) =
          withQueue e (queue ++ [task]) w := by
        simp only [withQueue, World.modifyNode, EdgeNode.enqueueTask, hqueue]
      have hstep : fetchStep me e clock w (.restore selected (task :: rest)) =
          some (withQueue e (queue ++ [task]) w, .restore selected rest) := by
        simp only [fetchStep, henqueue]
      rw [show (task :: rest).length + n = rest.length + n + 1 by rw [List.length_cons]; omega,
        runFetch_step me e clock w hstep,
        ih (withQueue e (queue ++ [task]) w) (queue ++ [task]) (withQueue_taskQueue ..),
        withQueue_withQueue, List.append_assoc]
      rfl

private def locked (w : World) : World := w.modifyScheduler (acquire me)

private theorem runFetch_unlock (n : Nat) (hfree : w.scheduler.strategyMutex = none)
    (f : EdgeNode → EdgeNode) (selected : TaskPtr) :
    runFetch me e clock (n + 1) ((locked me w).modifyNode e f) (.unlock selected) =
      some (w.modifyNode e f, selected) := by
  have hreleased : ((locked me w).modifyNode e f).modifyScheduler release = w.modifyNode e f := by
    unfold World.modifyScheduler World.modifyNode release locked
    simp only [World.modifyScheduler, acquire, ← hfree]
  rw [runFetch_step me e clock _ rfl, hreleased]
  cases n <;> rfl

/-- With the mutex free the steps of the call come to what `getNextTask` of the
controller's model does at once: the two paths take an element of the same
queue, and draining and restoring leave the others as they were. -/
theorem getNextTask_eq (hfree : w.scheduler.strategyMutex = none) :
    getNextTask me e clock w = Controller.getNextTask e clock w := by
  have hlock : fetchStep me e clock w .lock = some (locked me w, .checkQueue) := by
    simp only [fetchStep, hfree, if_true]
    rfl
  have hkeep : (locked me w).modifyNode e id = locked me w := by
    simp [World.modifyNode]
  have hkeep' : w.modifyNode e id = w := by
    simp [World.modifyNode]
  unfold getNextTask Controller.getNextTask EdgeNode.getQueueLength
  rw [runFetch_step me e clock w hlock]
  cases hqueue : (w.node e).taskQueue with
  | nil =>
      have hempty : (w.node e).hasTasksInQueue = false := by
        rw [EdgeNode.hasTasksInQueue_eq_false, hqueue]
      have hcheck : fetchStep me e clock (locked me w) .checkQueue =
          some ((locked me w).modifyNode e id, .unlock none) := by
        rw [hkeep]
        simp only [fetchStep]
        rw [show ((locked me w).node e).hasTasksInQueue = false from hempty]
        rfl
      rw [runFetch_step me e clock _ hcheck, runFetch_unlock me e clock w _ hfree, hkeep', hempty]
      rfl
  | cons head rest =>
      have hmore : (w.node e).hasTasksInQueue = true := by
        simp [EdgeNode.hasTasksInQueue, hqueue]
      rw [hmore, if_pos rfl]
      by_cases hfifo : w.scheduler.strategy = .fifo
      · have hcheck : fetchStep me e clock (locked me w) .checkQueue =
            some (locked me w, .popFront) := by
          simp only [fetchStep]
          rw [show ((locked me w).node e).hasTasksInQueue = true from hmore,
            show (locked me w).scheduler.strategy = .fifo from hfifo]
          rfl
        rw [if_pos hfifo, List.length_cons, runFetch_step me e clock _ hcheck,
          show 3 * (rest.length + 1) + 3 = 3 * rest.length + 4 + 1 + 1 by omega,
          runFetch_step me e clock _ rfl, runFetch_unlock me e clock w _ hfree]
        rfl
      · have hcheck : fetchStep me e clock (locked me w) .checkQueue =
            some (locked me w, .drainCheck []) := by
          simp only [fetchStep]
          rw [show ((locked me w).node e).hasTasksInQueue = true from hmore,
            if_pos rfl, if_neg (show (locked me w).scheduler.strategy ≠ .fifo from hfifo)]
        have hempty : fetchStep me e clock (withQueue e [] (locked me w))
            (.drainCheck (head :: rest)) =
            some (withQueue e [] (locked me w), .choose (head :: rest)) := by
          simp [fetchStep, EdgeNode.hasTasksInQueue]
        have hselect : select (withQueue e [] (locked me w)) clock (head :: rest) =
            select w clock (head :: rest) := rfl
        rw [if_neg hfifo, runFetch_step me e clock _ hcheck,
          show 3 * (head :: rest).length + 3 = 2 * (head :: rest).length +
            (rest.length + 2 + 1 + 1) by rw [List.length_cons]; omega,
          runFetch_drain me e clock (locked me w) _ (head :: rest) [] hqueue, List.nil_append,
          runFetch_step me e clock _ hempty]
        cases hchosen : select w clock (head :: rest) with
        | none =>
            rw [runFetch, fetchStep, hselect, hchosen]
            · rfl
            · rintro _ ⟨⟩
        | some i =>
            have hlength : ((head :: rest).eraseIdx i).length = rest.length := by
              rw [List.length_eraseIdx_of_lt (select_lt hchosen), List.length_cons,
                Nat.add_sub_cancel]
            have hchoose : fetchStep me e clock (withQueue e [] (locked me w))
                (.choose (head :: rest)) = some (withQueue e [] (locked me w),
                  .restore ((head :: rest)[i]?.getD none) ((head :: rest).eraseIdx i)) := by
              rw [fetchStep, hselect, hchosen]
              rfl
            rw [runFetch_step me e clock _ hchoose, ← hlength,
              runFetch_restore me e clock _ 2 _ [] _ (withQueue_taskQueue ..), List.nil_append,
              withQueue_withQueue, runFetch_step me e clock _ rfl, withQueue,
              runFetch_unlock me e clock w _ hfree]
            simp only [Option.map_some, Option.some.injEq, Prod.mk.injEq, and_true]
            simp only [World.modifyNode, hqueue]

theorem scheduleTask_eq (t : TaskRef) (hfree : w.scheduler.strategyMutex = none) :
    scheduleTask me e t w = some (Controller.scheduleTask e t w) := by
  unfold scheduleTask Controller.scheduleTask
  by_cases he : e ∈ w.fleet.ids
  · simp only [runSchedule, scheduleStep, hfree, World.getEdgeNode, he, if_true, Option.isSome_some,
      Option.bind_some, World.modifyScheduler, World.modifyNode, World.modifyTask, release, acquire]
  · simp only [runSchedule, scheduleStep, hfree, World.getEdgeNode, he, if_true, if_false,
      Option.isSome_none, Bool.false_eq_true, Option.bind_some, World.modifyScheduler, release,
      acquire]
    rw [← hfree]

end Run

/-- `scheduled` lists the tasks put on each edge in their order, `returned` the
tasks taken from it; no call reads them. -/
structure State where
  world : World
  scheduled : EdgeId → List TaskRef := fun _ => []
  returned : EdgeId → List TaskRef := fun _ => []

inductive Label where
  | scheduleTask (me : Thread) (e : EdgeId) (task : TaskPtr)
  | getNextTask (me : Thread) (e : EdgeId) (clock : ComparisonClock)
  | setStrategy (strategy : SchedulingStrategy)

def step (s : State) : Label → Option State
  | .scheduleTask me e (some t) =>
      (scheduleTask me e t s.world).map fun w => { s with
        world := w
        scheduled := if (s.world.getEdgeNode e).isSome then
          Function.update s.scheduled e (s.scheduled e ++ [t]) else s.scheduled }
  | .scheduleTask _ _ none => some s
  | .getNextTask me e clock =>
      match s.world.getEdgeNode e with
      | none => some s
      | some e => (getNextTask me e clock s.world).map fun (w, selected) => { s with
          world := w
          returned := Function.update s.returned e (s.returned e ++ selected.toList) }
  | .setStrategy strategy => some { s with
      world := s.world.modifyScheduler fun scheduler => { scheduler with strategy := strategy } }

/-- Empty queues, and no call under way. -/
structure Initial (s : State) : Prop where
  queue : ∀ e, (s.world.node e).taskQueue = []
  free : s.world.scheduler.strategyMutex = none
  scheduled : s.scheduled = fun _ => []
  returned : s.returned = fun _ => []

def machine : Machine State Label := ⟨Initial, step⟩

def outstanding (n : Nat) (taken : List Nat) : List Nat :=
  (List.range n).filter (· ∉ taken)

/-- Each returned task is one of the schedulings, `taken` lists which, and the
queue holds the others in the order in which they were scheduled. -/
structure Accounts (s : State) (e : EdgeId) (taken : List Nat) : Prop where
  nodup : taken.Nodup
  bound : ∀ i ∈ taken, i < (s.scheduled e).length
  returned : (s.returned e).map some = taken.map fun i => (s.scheduled e)[i]?
  queue : (s.world.node e).taskQueue =
    (outstanding (s.scheduled e).length taken).map fun i => (s.scheduled e)[i]?

def Takes (w : World) (before : List TaskRef) (t : TaskRef) (after : List TaskRef) : Prop :=
  match w.scheduler.strategy with
  | .fifo | .roundRobinTimeSlice => before = []
  | .priorityBased => Leads (fun u => (w.workload u).priority.rank) before t after
  | .earliestDeadlineFirst => True

/-- A call that finds tasks takes one by the policy and leaves the others. -/
inductive Serves (e : EdgeId) (s s' : State) : Prop where
  | none (hqueue : (s.world.node e).taskQueue = [])
      (hqueue' : (s'.world.node e).taskQueue = []) (hreturned : s'.returned e = s.returned e)
  | task {before after : List TaskRef} {t : TaskRef}
      (hqueue : (s.world.node e).taskQueue = (before ++ t :: after).map some)
      (hqueue' : (s'.world.node e).taskQueue = (before ++ after).map some)
      (hreturned : s'.returned e = s.returned e ++ [t])
      (htakes : Takes s.world before t after)

def byPriority (w : World) (tasks : List TaskRef) : List TaskRef :=
  tasks.mergeSort fun t u => decide ((w.workload u).priority.rank ≤ (w.workload t).priority.rank)

/-- Between the calls the mutex is free and every queue is accounted for. -/
structure Orderly (s : State) : Prop where
  free : s.world.scheduler.strategyMutex = none
  accounts : ∀ e, ∃ taken, Accounts s e taken

theorem outstanding_succ {n : Nat} {taken : List Nat} (h : ∀ i ∈ taken, i < n) :
    outstanding (n + 1) taken = outstanding n taken ++ [n] := by
  have hn : n ∉ taken := fun hmem => (h n hmem).false
  simp [outstanding, List.range_succ, hn]

theorem mem_outstanding {n i : Nat} {taken : List Nat} :
    i ∈ outstanding n taken ↔ i < n ∧ i ∉ taken := by
  simp [outstanding]

theorem outstanding_take {n p : Nat} {taken before after : List Nat}
    (h : outstanding n taken = before ++ p :: after) :
    outstanding n (taken ++ [p]) = before ++ after := by
  have hnodup : (before ++ p :: after).Nodup := h ▸ List.nodup_range.filter _
  have hfilter : outstanding n (taken ++ [p]) = (outstanding n taken).filter (· ≠ p) := by
    simp only [outstanding, List.filter_filter, List.mem_append, List.mem_singleton, not_or,
      Bool.decide_and]
    exact List.filter_congr fun i _ => Bool.and_comm _ _
  have hfresh : p ∉ before ++ after := by
    have hmiddle := (List.nodup_middle.mp hnodup)
    exact (List.nodup_cons.mp hmiddle).1
  rw [List.mem_append, not_or] at hfresh
  rw [hfilter, h, List.filter_append, List.filter_cons]
  simp only [ne_eq, not_true_eq_false, decide_false, Bool.false_eq_true, if_false]
  congr 1
  · exact List.filter_eq_self.mpr fun i hi => decide_eq_true (ne_of_mem_of_not_mem hi hfresh.1)
  · exact List.filter_eq_self.mpr fun i hi => decide_eq_true (ne_of_mem_of_not_mem hi hfresh.2)

namespace Accounts

variable {s s' : State} {e : EdgeId} {taken : List Nat}

theorem tasks (h : Accounts s e taken) :
    ∃ tasks : List TaskRef, (s.world.node e).taskQueue = tasks.map some := by
  refine ⟨(s.world.node e).queued, EdgeNode.taskQueue_eq_map fun hnone => ?_⟩
  rw [h.queue] at hnone
  obtain ⟨i, hi, hget⟩ := List.mem_map.mp hnone
  rw [List.getElem?_eq_none_iff] at hget
  have := (mem_outstanding.mp hi).1
  omega

theorem schedule (h : Accounts s e taken) {t : TaskRef}
    (hscheduled : s'.scheduled e = s.scheduled e ++ [t]) (hreturned : s'.returned e = s.returned e)
    (hqueue : (s'.world.node e).taskQueue = (s.world.node e).taskQueue ++ [some t]) :
    Accounts s' e taken := by
  have hold {i : Nat} (hi : i < (s.scheduled e).length) :
      (s'.scheduled e)[i]? = (s.scheduled e)[i]? := by
    rw [hscheduled, List.getElem?_append_left hi]
  have hlength : (s'.scheduled e).length = (s.scheduled e).length + 1 := by
    rw [hscheduled, List.length_append]
    rfl
  refine ⟨h.nodup, fun i hi => ?_, ?_, ?_⟩
  · have := h.bound i hi
    omega
  · rw [hreturned, h.returned]
    exact List.map_congr_left fun i hi => (hold (h.bound i hi)).symm
  · rw [hqueue, h.queue, hlength, outstanding_succ h.bound, List.map_append]
    congr 1
    · exact List.map_congr_left fun i hi => (hold (mem_outstanding.mp hi).1).symm
    · simp [hscheduled]

theorem serve (h : Accounts s e taken) (hscheduled : s'.scheduled e = s.scheduled e)
    (hserves : Serves e s s') : ∃ taken', Accounts s' e taken' := by
  cases hserves with
  | none hqueue hqueue' hreturned =>
      exact ⟨taken, h.nodup, hscheduled ▸ h.bound, by rw [hreturned, hscheduled, h.returned],
        by rw [hqueue', hscheduled, ← h.queue, hqueue]⟩
  | @task before after t hqueue hqueue' hreturned _ =>
      rw [h.queue, List.map_append, List.map_cons] at hqueue
      obtain ⟨left, right, hsplit, hleft, hright⟩ := List.map_eq_append_iff.mp hqueue
      obtain ⟨p, rest, rfl, hp, hrest⟩ := List.map_eq_cons_iff.mp hright
      have hmem : p ∈ outstanding (s.scheduled e).length taken := by
        rw [hsplit]
        exact List.mem_append_right _ List.mem_cons_self
      obtain ⟨hlt, hfresh⟩ := mem_outstanding.mp hmem
      refine ⟨taken ++ [p], ?_, fun i hi => ?_, ?_, ?_⟩
      · exact List.nodup_append.mpr ⟨h.nodup, List.nodup_singleton p, fun i hi j hj => by
          rw [List.mem_singleton.mp hj]
          exact ne_of_mem_of_not_mem hi hfresh⟩
      · rw [hscheduled]
        rcases List.mem_append.mp hi with hi | hi
        · exact h.bound i hi
        · rw [List.mem_singleton.mp hi]
          exact hlt
      · rw [hreturned, hscheduled, List.map_append, List.map_append, h.returned]
        exact congrArg _ (congrArg (· :: []) hp.symm)
      · rw [hqueue', hscheduled, outstanding_take hsplit, List.map_append, List.map_append, hleft,
          hrest]

end Accounts

section Fetch

variable {e : EdgeId} {clock : ComparisonClock} {w : World}

theorem getNextTask_select {before after : List TaskRef} {t : TaskRef}
    (hstrategy : w.scheduler.strategy ≠ .fifo)
    (hqueue : (w.node e).taskQueue = (before ++ t :: after).map some)
    (hselect : select w clock (w.node e).taskQueue = some before.length) :
    Controller.getNextTask e clock w =
      some (withQueue e ((before ++ after).map some) w, some t) := by
  have hmore : (w.node e).hasTasksInQueue = true := by
    simp [EdgeNode.hasTasksInQueue, hqueue]
  have herase : ((before ++ t :: after).map some).eraseIdx before.length =
      (before ++ after).map some := by
    rw [List.map_append, List.eraseIdx_append_of_length_le (by simp)]
    simp
  unfold Controller.getNextTask withQueue
  rw [if_pos hmore, if_neg hstrategy, hselect]
  simp only [World.modifyNode, hqueue, Option.map_some]
  rw [herase]
  simp

theorem getNextTask_takes (clock : ComparisonClock) {tasks : List TaskRef} (htasks : tasks ≠ [])
    (hqueue : (w.node e).taskQueue = tasks.map some) :
    ∃ before t after, tasks = before ++ t :: after ∧ Takes w before t after ∧
      Controller.getNextTask e clock w =
        some (withQueue e ((before ++ after).map some) w, some t) := by
  obtain ⟨head, rest, rfl⟩ := List.exists_cons_of_ne_nil htasks
  cases hstrategy : w.scheduler.strategy with
  | fifo =>
      refine ⟨[], head, rest, rfl, by simp only [Takes, hstrategy], ?_⟩
      have hmore : (w.node e).hasTasksInQueue = true := by
        simp [EdgeNode.hasTasksInQueue, hqueue]
      obtain ⟨hpop, htask⟩ := modifyNode_dequeueTask e w hqueue
      unfold Controller.getNextTask
      rw [if_pos hmore, if_pos hstrategy, hpop, htask]
      rfl
  | roundRobinTimeSlice =>
      refine ⟨[], head, rest, rfl, by simp only [Takes, hstrategy], ?_⟩
      refine getNextTask_select (by rw [hstrategy]; rintro ⟨⟩) hqueue ?_
      simp [select, hstrategy, hqueue]
  | priorityBased =>
      have hcompare : ∀ i, ∀ a ∈ (w.node e).taskQueue, ∀ b ∈ (w.node e).taskQueue,
          priorityLess w i a b = some (decide
            ((fun u : TaskPtr => u.elim 0 fun u => (w.workload u).priority.rank) a <
              (fun u : TaskPtr => u.elim 0 fun u => (w.workload u).priority.rank) b)) := by
        intro i a ha b hb
        rw [hqueue] at ha hb
        obtain ⟨a, -, rfl⟩ := List.mem_map.mp ha
        obtain ⟨b, -, rfl⟩ := List.mem_map.mp hb
        rfl
      obtain ⟨before, x, after, hsplit, hmax, hleads⟩ :=
        maxElement_leads (by rw [hqueue]; simp) hcompare
      rw [hqueue] at hsplit
      obtain ⟨left, right, hparts, rfl, hright⟩ := List.map_eq_append_iff.mp hsplit
      obtain ⟨t, rest', rfl, rfl, rfl⟩ := List.map_eq_cons_iff.mp hright
      refine ⟨left, t, rest', hparts, ?_, ?_⟩
      · simp only [Takes, hstrategy]
        exact ⟨fun u hu => hleads.before (some u) (List.mem_map_of_mem hu),
          fun u hu => hleads.after (some u) (List.mem_map_of_mem hu)⟩
      · refine getNextTask_select (by rw [hstrategy]; rintro ⟨⟩) (by rw [hqueue, hparts]) ?_
        simpa only [select, hstrategy, List.length_map] using hmax
  | earliestDeadlineFirst =>
      have hcompare : ∀ i, ∀ a ∈ (w.node e).taskQueue, ∀ b ∈ (w.node e).taskQueue,
          (remainingTimeLess w clock i a b).isSome := by
        intro i a ha b hb
        rw [hqueue] at ha hb
        obtain ⟨a, -, rfl⟩ := List.mem_map.mp ha
        obtain ⟨b, -, rfl⟩ := List.mem_map.mp hb
        rfl
      obtain ⟨i, hi⟩ := Option.isSome_iff_exists.mp
        (minElement_isSome (by rw [hqueue]; simp) hcompare)
      have hlt : i < (head :: rest).length := by
        have hlt := minElement_lt hi
        rwa [hqueue, List.length_map] at hlt
      have hsplit : head :: rest =
          (head :: rest).take i ++ (head :: rest)[i] :: (head :: rest).drop (i + 1) := by
        rw [← List.drop_eq_getElem_cons hlt, List.take_append_drop]
      refine ⟨_, _, _, hsplit, by simp only [Takes, hstrategy], ?_⟩
      refine getNextTask_select (by rw [hstrategy]; rintro ⟨⟩) (by rw [hqueue, ← hsplit]) ?_
      rw [List.length_take_of_le hlt.le]
      simpa only [select, hstrategy] using hi

end Fetch

section Calls

variable {s : State} {e : EdgeId}

private def served (s : State) (e : EdgeId) (queue : List TaskPtr) (selected : TaskPtr) : State :=
  { s with
    world := withQueue e queue s.world
    returned := Function.update s.returned e (s.returned e ++ selected.toList) }

theorem Orderly.getNextTask (h : Orderly s) (he : e ∈ s.world.fleet.ids) (me : Thread)
    (clock : ComparisonClock) :
    ∃ queue selected, step s (.getNextTask me e clock) = some (served s e queue selected) ∧
      Serves e s (served s e queue selected) := by
  obtain ⟨taken, haccounts⟩ := h.accounts e
  obtain ⟨tasks, hqueue⟩ := haccounts.tasks
  have hstep (w : World) (selected : TaskPtr)
      (hcall : Controller.getNextTask e clock s.world = some (w, selected)) :
      step s (.getNextTask me e clock) = some { s with
        world := w
        returned := Function.update s.returned e (s.returned e ++ selected.toList) } := by
    simp only [step, World.getEdgeNode, he, if_true]
    rw [getNextTask_eq me e clock s.world h.free, hcall]
    rfl
  by_cases htasks : tasks = []
  · have hempty : (s.world.node e).taskQueue = [] := by
      rw [hqueue, htasks]
      rfl
    have hidle : (s.world.node e).hasTasksInQueue = false := by
      rw [EdgeNode.hasTasksInQueue_eq_false, hempty]
    refine ⟨[], none, ?_, .none hempty (withQueue_taskQueue ..) ?_⟩
    · rw [served, ← hempty, withQueue_self]
      apply hstep
      rw [Controller.getNextTask, hidle]
      rfl
    · simp [served]
  · obtain ⟨before, t, after, rfl, htakes, hcall⟩ := getNextTask_takes clock htasks hqueue
    refine ⟨_, some t, hstep _ _ hcall, .task hqueue (withQueue_taskQueue ..) ?_ htakes⟩
    simp [served]

theorem Orderly.served (h : Orderly s) {queue : List TaskPtr} {selected : TaskPtr}
    (hserves : Serves e s (served s e queue selected)) :
    Orderly (Discipline.served s e queue selected) := by
  refine ⟨h.free, fun e' => ?_⟩
  obtain ⟨taken, haccounts⟩ := h.accounts e'
  by_cases he : e' = e
  · cases he
    exact haccounts.serve rfl hserves
  · have hnode : (withQueue e queue s.world).node e' = s.world.node e' :=
      World.modifyNode_of_ne _ _ he
    have hreturned : (Discipline.served s e queue selected).returned e' = s.returned e' :=
      Function.update_of_ne he _ _
    refine ⟨taken, haccounts.nodup, haccounts.bound, hreturned ▸ haccounts.returned, ?_⟩
    show ((withQueue e queue s.world).node e').taskQueue = _
    rw [hnode]
    exact haccounts.queue

theorem Orderly.scheduleTask (h : Orderly s) (me : Thread) (e : EdgeId) (t : TaskRef) :
    ∃ s', step s (.scheduleTask me e (some t)) = some s' ∧ Orderly s' := by
  have hcall := scheduleTask_eq me e s.world t h.free
  by_cases he : e ∈ s.world.fleet.ids
  · refine ⟨{ s with
        world := Controller.scheduleTask e t s.world
        scheduled := Function.update s.scheduled e (s.scheduled e ++ [t]) }, ?_, ?_, fun e' => ?_⟩
    · simp only [step, hcall, World.getEdgeNode, he, if_true, Option.map_some, Option.isSome_some]
    · simp only [Controller.scheduleTask, World.getEdgeNode, he, if_true]
      exact h.free
    · obtain ⟨taken, haccounts⟩ := h.accounts e'
      refine ⟨taken, ?_⟩
      by_cases heq : e' = e
      · cases heq
        refine haccounts.schedule (t := t) (Function.update_self ..) rfl ?_
        simp only [Controller.scheduleTask, World.getEdgeNode, he, if_true,
          World.modifyScheduler_node, World.modifyNode_self, World.modifyTask_node]
        rfl
      · refine ⟨haccounts.nodup, ?_, ?_, ?_⟩
        · simpa only [Function.update_of_ne heq] using haccounts.bound
        · simpa only [Function.update_of_ne heq] using haccounts.returned
        · simp only [Controller.scheduleTask, World.getEdgeNode, he, if_true,
            World.modifyScheduler_node, World.modifyNode_of_ne _ _ heq, World.modifyTask_node,
            Function.update_of_ne heq]
          exact haccounts.queue
  · refine ⟨s, ?_, h⟩
    simp only [step, hcall, Controller.scheduleTask, World.getEdgeNode, he, if_false,
      Option.map_some, Option.isSome_none, Bool.false_eq_true]

theorem Orderly.step (h : Orderly s) (label : Label) :
    ∃ s', Discipline.step s label = some s' ∧ Orderly s' := by
  cases label with
  | scheduleTask me e task =>
      cases task with
      | none => exact ⟨s, rfl, h⟩
      | some t => exact h.scheduleTask me e t
  | getNextTask me e clock =>
      by_cases he : e ∈ s.world.fleet.ids
      · obtain ⟨queue, selected, hstep, hserves⟩ := h.getNextTask he me clock
        exact ⟨_, hstep, h.served hserves⟩
      · refine ⟨s, ?_, h⟩
        simp only [Discipline.step, World.getEdgeNode, he, if_false]
  | setStrategy strategy =>
      refine ⟨_, rfl, h.free, fun e => ?_⟩
      obtain ⟨taken, haccounts⟩ := h.accounts e
      exact ⟨taken, haccounts.nodup, haccounts.bound, haccounts.returned, haccounts.queue⟩

theorem orderly_of_reachable (hs : machine.Reachable Machine.free s) : Orderly s := by
  refine hs.invariant (fun {s} hinit => ?_) fun {s label t} horderly _ hstep => ?_
  · refine ⟨hinit.free, fun e => ⟨[], List.nodup_nil, by simp, ?_, ?_⟩⟩
    · rw [hinit.returned]
      rfl
    · rw [hinit.queue, hinit.scheduled]
      rfl
  · obtain ⟨t', hstep', horderly'⟩ := horderly.step label
    cases hstep.symm.trans hstep'
    exact horderly'

theorem Orderly.drain (h : Orderly s) (he : e ∈ s.world.fleet.ids)
    (hstrategy : s.world.scheduler.strategy = .priorityBased) {tasks : List TaskRef}
    (hqueue : (s.world.node e).taskQueue = tasks.map some)
    {calls : List (Thread × ComparisonClock)} (hcalls : calls.length = tasks.length) :
    ∃ s' drained, machine.exec s (calls.map fun (me, clock) => .getNextTask me e clock) = some s' ∧
      (s'.world.node e).taskQueue = [] ∧ s'.returned e = s.returned e ++ drained ∧
      StableSorted (fun t => (s.world.workload t).priority.rank) tasks drained := by
  induction calls generalizing s tasks with
  | nil =>
      cases List.length_eq_zero_iff.mp hcalls.symm
      exact ⟨s, [], rfl, hqueue, (List.append_nil _).symm, List.Pairwise.nil, fun _ => rfl⟩
  | cons call calls ih =>
      obtain ⟨me, clock⟩ := call
      obtain ⟨queue, selected, hstep, hserves⟩ := h.getNextTask he me clock
      have hnext := h.served hserves
      cases hserves with
      | none hempty _ _ =>
          rw [hqueue, List.map_eq_nil_iff] at hempty
          cases hempty
          cases hcalls
      | @task before after t hsplit hrest hreturned htakes =>
          cases (List.map_injective_iff.mpr (Option.some_injective _)) (hqueue.symm.trans hsplit)
          simp only [Takes, hstrategy] at htakes
          obtain ⟨s', drained, hexec, hempty, hreturned', hsorted⟩ :=
            ih hnext he hstrategy hrest (by simp at hcalls ⊢; omega)
          refine ⟨s', t :: drained, ?_, hempty, ?_, hsorted.cons htakes⟩
          · rw [List.map_cons, Machine.exec]
            exact Option.bind_eq_some_iff.mpr ⟨_, hstep, hexec⟩
          · rw [hreturned', hreturned, List.append_assoc]
            rfl

end Calls

/-- Whatever calls were made, every further call returns; each queue holds the
tasks scheduled on its edge and not yet returned, each once and in the order of
their scheduling; a call takes the task that the policy names; and draining
under the priorities sorts the queue stably. -/
theorem scheduler_refines_queue {s : State} (hs : machine.Reachable Machine.free s) :
    (∀ label, ∃ s', machine.step s label = some s') ∧
    (∀ e, ∃ taken, Accounts s e taken) ∧
    ∀ e ∈ s.world.fleet.ids,
      (∀ me clock s', machine.step s (.getNextTask me e clock) = some s' → Serves e s s') ∧
      (s.world.scheduler.strategy = .priorityBased →
        ∀ (tasks : List TaskRef) (calls : List (Thread × ComparisonClock)),
          (s.world.node e).taskQueue = tasks.map some → calls.length = tasks.length →
          ∃ s', machine.exec s (calls.map fun (me, clock) => .getNextTask me e clock) = some s' ∧
            (s'.world.node e).taskQueue = [] ∧
            s'.returned e = s.returned e ++ byPriority s.world tasks) := by
  have horderly := orderly_of_reachable hs
  refine ⟨fun label => ?_, horderly.accounts, fun e he => ⟨fun me clock s' hstep => ?_, ?_⟩⟩
  · obtain ⟨s', hstep, -⟩ := horderly.step label
    exact ⟨s', hstep⟩
  · obtain ⟨queue, selected, hstep', hserves⟩ := horderly.getNextTask he me clock
    cases hstep.symm.trans hstep'
    exact hserves
  · intro hstrategy tasks calls hqueue hcalls
    obtain ⟨s', drained, hexec, hempty, hreturned, hsorted⟩ :=
      horderly.drain he hstrategy hqueue hcalls
    refine ⟨s', hexec, hempty, ?_⟩
    rw [hreturned, hsorted.unique (.mergeSort _ _)]
    rfl

def bootMixed : State :=
  { world := .boot twoNodes (fun _ => nodeCapacity)
      (fun t => if t % 2 = 0 then TaskProfile.pressure else TaskProfile.camera) .roundRobin
      .priorityBased }

theorem bootMixed_initial : Initial bootMixed := ⟨fun _ => rfl, rfl, rfl, rfl⟩

def scheduleFour : List Label :=
  [0, 1, 2, 3].map fun t => .scheduleTask .producer "E01" (some t)

def fetchFour : List (Thread × ComparisonClock) :=
  List.replicate 4 (.worker "E01", fun _ => (0, 0))

example : (machine.final bootMixed (scheduleFour ++
    fetchFour.map fun (me, clock) => .getNextTask me "E01" clock)).returned "E01" =
      [1, 3, 0, 2] := by decide +kernel

theorem scheduler_refines_queue_mixed :
    (∃ taken, Accounts (machine.final bootMixed scheduleFour) "E01" taken) ∧
      ∃ s', machine.exec (machine.final bootMixed scheduleFour)
          (fetchFour.map fun (me, clock) => .getNextTask me "E01" clock) = some s' ∧
        (s'.world.node "E01").taskQueue = [] ∧
        s'.returned "E01" = [] ++ byPriority bootMixed.world [0, 1, 2, 3] :=
  have hs : machine.Reachable Machine.free (machine.final bootMixed scheduleFour) :=
    Machine.reachable_final bootMixed_initial (by decide +kernel)
  have hrefines := scheduler_refines_queue hs
  ⟨hrefines.2.1 "E01",
    (hrefines.2.2 "E01" (by decide +kernel)).2 (by decide +kernel) [0, 1, 2, 3]
      fetchFour (by decide +kernel) rfl⟩

end EdgeAllocator.Discipline
