import EdgeAllocator.EdgeNode

/-! The objects that the threads share: the registered nodes, the tasks, the
allocator, the scheduler, the executor and the rows of the database. -/
namespace EdgeAllocator

/-- The keys of `ResourceMonitor::edge_nodes_` in the order of the map. The
empty name is what `assigned_edge_id_` holds while no node is assigned. -/
structure Fleet where
  ids : List EdgeId
  sorted : ids.Pairwise (· < ·)
  named : "" ∉ ids

namespace Fleet

theorem nodup (fleet : Fleet) : fleet.ids.Nodup :=
  fleet.sorted.imp fun h => ne_of_lt h

def empty : Fleet := ⟨[], .nil, List.not_mem_nil⟩

def register (e : EdgeId) (named : e ≠ "") (fleet : Fleet) : Fleet where
  ids := fleet.ids.filter (· < e) ++ e :: fleet.ids.filter (e < ·)
  sorted := by
    refine List.pairwise_append.mpr ⟨fleet.sorted.filter _,
      List.pairwise_cons.mpr ⟨?_, fleet.sorted.filter _⟩, ?_⟩
    · intro above habove
      simpa using (List.mem_filter.mp habove).2
    · intro below hbelow above habove
      have hlt : below < e := by simpa using (List.mem_filter.mp hbelow).2
      rcases List.mem_cons.mp habove with rfl | hmem
      · exact hlt
      · exact hlt.trans (by simpa using (List.mem_filter.mp hmem).2)
  named := by
    simp only [List.mem_append, List.mem_cons, List.mem_filter]
    rintro (⟨hmem, -⟩ | rfl | ⟨hmem, -⟩)
    · exact fleet.named hmem
    · exact named rfl
    · exact fleet.named hmem

def unregister (e : EdgeId) (fleet : Fleet) : Fleet where
  ids := fleet.ids.filter (· ≠ e)
  sorted := fleet.sorted.filter _
  named := fun h => fleet.named (List.mem_of_mem_filter h)

theorem register_perm {e : EdgeId} (named : e ≠ "") {fleet : Fleet} (h : e ∉ fleet.ids) :
    (fleet.register e named).ids.Perm (e :: fleet.ids) := by
  have hsplit : (fleet.ids.filter (· < e) ++ fleet.ids.filter (e < ·)).Perm fleet.ids := by
    have habove : fleet.ids.filter (e < ·) = fleet.ids.filter fun x => !decide (x < e) := by
      refine List.filter_congr fun x hx => ?_
      have hne : x ≠ e := by
        rintro rfl
        exact h hx
      rw [← decide_not, decide_eq_decide, not_lt]
      exact ⟨le_of_lt, fun hle => lt_of_le_of_ne hle (Ne.symm hne)⟩
    rw [habove]
    exact List.filter_append_perm _ _
  exact List.perm_middle.trans (hsplit.cons e)

end Fleet

/-- The threads that take the mutexes below. -/
inductive Thread where
  | producer
  | worker (e : EdgeId)
  | client (k : Nat)
  | monitor (k : Nat)
  deriving DecidableEq

inductive AllocationStrategy where
  | roundRobin
  | leastLoad
  | priorityBased
  | multiConstraint
  deriving DecidableEq, Repr

structure AllocationWeights where
  cpuWeight : ℚ := 1 / 4
  ramWeight : ℚ := 1 / 5
  bandwidthWeight : ℚ := 3 / 20
  latencyWeight : ℚ := 3 / 20
  queueWeight : ℚ := 3 / 20
  priorityWeight : ℚ := 1 / 10

structure ResourceAllocator where
  strategy : AllocationStrategy
  weights : AllocationWeights := {}
  totalAllocations : Nat := 0
  successfulAllocations : Nat := 0
  failedAllocations : Nat := 0
  roundRobinIndex : Nat := 0
  strategyMutex : Option Thread := none

inductive SchedulingStrategy where
  | fifo
  | priorityBased
  | earliestDeadlineFirst
  | roundRobinTimeSlice
  deriving DecidableEq, Repr

structure TaskScheduler where
  strategy : SchedulingStrategy
  totalTasksScheduled : Nat := 0
  strategyMutex : Option Thread := none

structure TaskExecutor where
  isRunning : Bool := false
  totalTasksExecuted : Nat := 0
  totalTasksFailed : Nat := 0
  totalExecutionTimeMs : Int := 0
  activeTasks : List TaskRef := []

structure ExecutionRow where
  task : TaskRef
  executionTimeMs : Int
  success : Bool

structure AllocationRow where
  task : TaskRef
  edgeId : Option EdgeId
  score : Option ℚ
  success : Bool
  reason : String
  strategy : Option String
  deriving DecidableEq

def AllocationRow.allocated (t : TaskRef) (e : EdgeId) (score : ℚ) (strategy : String) :
    AllocationRow :=
  ⟨t, some e, some score, true, "allocated", some strategy⟩

def AllocationRow.failed (t : TaskRef) (reason : String) : AllocationRow :=
  ⟨t, none, none, false, reason, none⟩

/-- The columns of `tasks` and `task_execution` that the run writes. -/
structure Database where
  taskStatus : TaskRef → Option TaskStatus := fun _ => none
  executions : List ExecutionRow := []

namespace Database

def saveTask (t : TaskRef) (status : TaskStatus) (db : Database) : Database :=
  { db with taskStatus := Function.update db.taskStatus t (some status) }

/-- `UPDATE tasks SET status = ? WHERE task_id = ?` touches stored tasks only. -/
def updateTaskStatus (t : TaskRef) (status : TaskStatus) (db : Database) : Database :=
  { db with
    taskStatus := Function.update db.taskStatus t ((db.taskStatus t).map fun _ => status) }

def saveTaskExecution (row : ExecutionRow) (db : Database) : Database :=
  { db with executions := db.executions ++ [row] }

end Database

/-- `workload` lists the requirements of the tasks in the order of their
creation; `taskCounter` counts the tasks created so far. -/
structure World where
  fleet : Fleet
  workload : TaskRef → TaskRequirements
  node : EdgeId → EdgeNode
  task : TaskRef → Task := fun _ => {}
  taskCounter : Nat := 0
  allocator : ResourceAllocator
  scheduler : TaskScheduler
  executor : TaskExecutor := {}
  database : Database := {}

namespace World

def modifyNode (e : EdgeId) (f : EdgeNode → EdgeNode) (w : World) : World :=
  { w with node := Function.update w.node e (f (w.node e)) }

def modifyTask (t : TaskRef) (f : Task → Task) (w : World) : World :=
  { w with task := Function.update w.task t (f (w.task t)) }

def modifyAllocator (f : ResourceAllocator → ResourceAllocator) (w : World) : World :=
  { w with allocator := f w.allocator }

def modifyScheduler (f : TaskScheduler → TaskScheduler) (w : World) : World :=
  { w with scheduler := f w.scheduler }

def modifyExecutor (f : TaskExecutor → TaskExecutor) (w : World) : World :=
  { w with executor := f w.executor }

def modifyDatabase (f : Database → Database) (w : World) : World :=
  { w with database := f w.database }

def getEdgeNode (w : World) (e : EdgeId) : Option EdgeId :=
  if e ∈ w.fleet.ids then some e else none

def demand (w : World) (t : TaskRef) : Amounts := (w.workload t).demand

def load (w : World) (tasks : List TaskRef) : Amounts := (tasks.map w.demand).sum

section Access

variable (w : World) (e e' : EdgeId) (t t' : TaskRef) (f : EdgeNode → EdgeNode) (g : Task → Task)
  (a : ResourceAllocator → ResourceAllocator) (s : TaskScheduler → TaskScheduler)
  (x : TaskExecutor → TaskExecutor) (d : Database → Database)

@[simp] theorem modifyNode_fleet : (w.modifyNode e f).fleet = w.fleet := rfl
@[simp] theorem modifyNode_workload : (w.modifyNode e f).workload = w.workload := rfl
@[simp] theorem modifyNode_task : (w.modifyNode e f).task = w.task := rfl
@[simp] theorem modifyNode_taskCounter : (w.modifyNode e f).taskCounter = w.taskCounter := rfl
@[simp] theorem modifyNode_allocator : (w.modifyNode e f).allocator = w.allocator := rfl
@[simp] theorem modifyNode_scheduler : (w.modifyNode e f).scheduler = w.scheduler := rfl
@[simp] theorem modifyNode_executor : (w.modifyNode e f).executor = w.executor := rfl
@[simp] theorem modifyNode_self : (w.modifyNode e f).node e = f (w.node e) :=
  Function.update_self ..

@[simp] theorem modifyNode_of_ne {e e' : EdgeId} (h : e' ≠ e) :
    (w.modifyNode e f).node e' = w.node e' :=
  Function.update_of_ne h ..

@[simp] theorem modifyTask_fleet : (w.modifyTask t g).fleet = w.fleet := rfl
@[simp] theorem modifyTask_workload : (w.modifyTask t g).workload = w.workload := rfl
@[simp] theorem modifyTask_node : (w.modifyTask t g).node = w.node := rfl
@[simp] theorem modifyTask_taskCounter : (w.modifyTask t g).taskCounter = w.taskCounter := rfl
@[simp] theorem modifyTask_allocator : (w.modifyTask t g).allocator = w.allocator := rfl
@[simp] theorem modifyTask_scheduler : (w.modifyTask t g).scheduler = w.scheduler := rfl
@[simp] theorem modifyTask_executor : (w.modifyTask t g).executor = w.executor := rfl
@[simp] theorem modifyTask_self : (w.modifyTask t g).task t = g (w.task t) :=
  Function.update_self ..

@[simp] theorem modifyTask_of_ne {t t' : TaskRef} (h : t' ≠ t) :
    (w.modifyTask t g).task t' = w.task t' :=
  Function.update_of_ne h ..

@[simp] theorem modifyAllocator_fleet : (w.modifyAllocator a).fleet = w.fleet := rfl
@[simp] theorem modifyAllocator_workload : (w.modifyAllocator a).workload = w.workload := rfl
@[simp] theorem modifyAllocator_node : (w.modifyAllocator a).node = w.node := rfl
@[simp] theorem modifyAllocator_task : (w.modifyAllocator a).task = w.task := rfl
@[simp] theorem modifyAllocator_taskCounter :
    (w.modifyAllocator a).taskCounter = w.taskCounter := rfl
@[simp] theorem modifyAllocator_allocator :
    (w.modifyAllocator a).allocator = a w.allocator := rfl
@[simp] theorem modifyAllocator_scheduler : (w.modifyAllocator a).scheduler = w.scheduler := rfl
@[simp] theorem modifyAllocator_executor : (w.modifyAllocator a).executor = w.executor := rfl

@[simp] theorem modifyScheduler_fleet : (w.modifyScheduler s).fleet = w.fleet := rfl
@[simp] theorem modifyScheduler_workload : (w.modifyScheduler s).workload = w.workload := rfl
@[simp] theorem modifyScheduler_node : (w.modifyScheduler s).node = w.node := rfl
@[simp] theorem modifyScheduler_task : (w.modifyScheduler s).task = w.task := rfl
@[simp] theorem modifyScheduler_taskCounter :
    (w.modifyScheduler s).taskCounter = w.taskCounter := rfl
@[simp] theorem modifyScheduler_allocator : (w.modifyScheduler s).allocator = w.allocator := rfl
@[simp] theorem modifyScheduler_scheduler :
    (w.modifyScheduler s).scheduler = s w.scheduler := rfl
@[simp] theorem modifyScheduler_executor : (w.modifyScheduler s).executor = w.executor := rfl

@[simp] theorem modifyExecutor_fleet : (w.modifyExecutor x).fleet = w.fleet := rfl
@[simp] theorem modifyExecutor_workload : (w.modifyExecutor x).workload = w.workload := rfl
@[simp] theorem modifyExecutor_node : (w.modifyExecutor x).node = w.node := rfl
@[simp] theorem modifyExecutor_task : (w.modifyExecutor x).task = w.task := rfl
@[simp] theorem modifyExecutor_taskCounter :
    (w.modifyExecutor x).taskCounter = w.taskCounter := rfl
@[simp] theorem modifyExecutor_allocator : (w.modifyExecutor x).allocator = w.allocator := rfl
@[simp] theorem modifyExecutor_scheduler : (w.modifyExecutor x).scheduler = w.scheduler := rfl
@[simp] theorem modifyExecutor_executor : (w.modifyExecutor x).executor = x w.executor := rfl

@[simp] theorem modifyDatabase_fleet : (w.modifyDatabase d).fleet = w.fleet := rfl
@[simp] theorem modifyDatabase_workload : (w.modifyDatabase d).workload = w.workload := rfl
@[simp] theorem modifyDatabase_node : (w.modifyDatabase d).node = w.node := rfl
@[simp] theorem modifyDatabase_task : (w.modifyDatabase d).task = w.task := rfl
@[simp] theorem modifyDatabase_taskCounter :
    (w.modifyDatabase d).taskCounter = w.taskCounter := rfl
@[simp] theorem modifyDatabase_allocator : (w.modifyDatabase d).allocator = w.allocator := rfl
@[simp] theorem modifyDatabase_scheduler : (w.modifyDatabase d).scheduler = w.scheduler := rfl
@[simp] theorem modifyDatabase_executor : (w.modifyDatabase d).executor = w.executor := rfl

end Access

@[simp] theorem load_nil (w : World) : w.load [] = 0 := rfl

@[simp] theorem load_cons (w : World) (t : TaskRef) (tasks : List TaskRef) :
    w.load (t :: tasks) = w.demand t + w.load tasks := by
  simp [load]

@[simp] theorem load_append (w : World) (tasks rest : List TaskRef) :
    w.load (tasks ++ rest) = w.load tasks + w.load rest := by
  simp [load]

theorem load_perm (w : World) {tasks rest : List TaskRef} (h : tasks.Perm rest) :
    w.load tasks = w.load rest :=
  (h.map w.demand).sum_eq

theorem load_congr {w w' : World} (h : w'.workload = w.workload) (tasks : List TaskRef) :
    w'.load tasks = w.load tasks := by
  unfold load
  rw [show w'.demand = w.demand by funext t; rw [demand, demand, h]]

theorem load_nonneg {w : World} (h : ∀ t, 0 ≤ w.demand t) (tasks : List TaskRef) :
    0 ≤ w.load tasks := by
  induction tasks with
  | nil => exact le_rfl
  | cons t tasks ih =>
      rw [load_cons]
      exact add_nonneg (h t) ih

def boot (fleet : Fleet) (capacity : EdgeId → ResourceCapacity)
    (workload : TaskRef → TaskRequirements) (allocation : AllocationStrategy)
    (scheduling : SchedulingStrategy) : World :=
  { fleet := fleet
    workload := workload
    node := fun e => { capacity := capacity e }
    allocator := { strategy := allocation }
    scheduler := { strategy := scheduling } }

end World

def singleNode : Fleet := ⟨["E01"], by decide, by decide⟩

def twoNodes : Fleet := ⟨["E01", "E02"], by decide, by decide⟩

def nodeCapacity : ResourceCapacity := ⟨amounts 100 8192 100, 10⟩

/-- What no step of the modelled threads changes. -/
structure Frame (w w' : World) : Prop where
  fleet : w'.fleet = w.fleet
  workload : w'.workload = w.workload
  capacity : ∀ e, (w'.node e).capacity = (w.node e).capacity

theorem Frame.refl (w : World) : Frame w w := ⟨rfl, rfl, fun _ => rfl⟩

theorem Frame.of_node {w w' : World} (hfleet : w'.fleet = w.fleet)
    (hworkload : w'.workload = w.workload) (hnode : w'.node = w.node) : Frame w w' :=
  ⟨hfleet, hworkload, fun e => by rw [hnode]⟩

theorem Frame.modifyNode (w : World) (e : EdgeId) {f : EdgeNode → EdgeNode}
    (hf : (f (w.node e)).capacity = (w.node e).capacity) : Frame w (w.modifyNode e f) := by
  refine ⟨rfl, rfl, fun e' => ?_⟩
  by_cases he : e' = e
  · rw [he, World.modifyNode_self, hf]
  · rw [World.modifyNode_of_ne w f he]

theorem Frame.demand {w w' : World} (h : Frame w w') (t : TaskRef) : w'.demand t = w.demand t := by
  rw [World.demand, World.demand, h.workload]

theorem Frame.load {w w' : World} (h : Frame w w') (tasks : List TaskRef) :
    w'.load tasks = w.load tasks :=
  World.load_congr h.workload tasks

end EdgeAllocator
