import EdgeAllocator.Tally

/-! The counters of allocator, nodes and executor, over any sequence of calls of
`allocateTask` and `allocateTaskWithRetry`: for a new task or for one that was
allocated before, followed by the hand-over or not, and with nodes failing,
recovering and giving back resources in between. -/
namespace EdgeAllocator.Accounting

open Foundation Scheduler Executor Allocator Allocation Pipeline

/-- `requests` counts the calls, `dropped` lists the allocations that were not
handed over to the scheduler; no step reads them. -/
structure State where
  pipe : Pipeline.State
  requests : Nat := 0
  dropped : List (TaskRef × EdgeId) := []

inductive Label where
  | pipeline (label : Pipeline.Label)
  /-- Call the allocator with a task that exists already. -/
  | call (t : TaskRef) (kind : AllocKind)
  /-- Go on without scheduling the allocated task. -/
  | drop
  | release (e : EdgeId) (demand : Amounts)
  | setAvailable (e : EdgeId) (available : Bool)

def requestsOf : Pipeline.Label → Nat
  | .produce _ _ => 1
  | _ => 0

def withWorld (f : World → World) (s : State) : State :=
  { s with pipe := { s.pipe with world := f s.pipe.world } }

def step (s : State) : Label → Option State
  | .pipeline label => (Pipeline.step s.pipe label).map fun pipe =>
      { s with pipe := pipe, requests := s.requests + requestsOf label }
  | .call t kind =>
      match s.pipe.producer with
      | .idle => some { s with
          pipe := { s.pipe with producer := .allocating ⟨t, kind⟩ .lock }
          requests := s.requests + 1 }
      | _ => none
  | .drop =>
      match s.pipe.producer with
      | .allocating call (.returned result) => some { s with
          pipe := { s.pipe with producer := .idle }
          dropped := s.dropped ++ if result.success then [(call.task, result.edgeId)] else [] }
      | _ => none
  | .release e demand => some (withWorld (World.modifyNode e (EdgeNode.deallocateResources demand)) s)
  | .setAvailable e available =>
      some (withWorld (World.modifyNode e (EdgeNode.setAvailable available)) s)

structure Initial (s : State) : Prop where
  pipe : Pipeline.Initial s.pipe
  totalAllocations : s.pipe.world.allocator.totalAllocations = 0
  failedAllocations : s.pipe.world.allocator.failedAllocations = 0
  requests : s.requests = 0
  dropped : s.dropped = []

def machine : Machine State Label := ⟨Initial, step⟩

def uncountedHands : WorkerPc → List TaskRef
  | .executing _ (.persistExecution _) | .executing _ .returned => []
  | pc => pc.held

theorem workerStep_uncounted {e : EdgeId} {input : WorkerInput} {w w' : World}
    {pc pc' : WorkerPc} (h : workerStep e input w pc = some (w', pc')) :
    ((w'.node e).queued ++ uncountedHands pc' ++ pc.counts).Perm
      ((w.node e).queued ++ uncountedHands pc) := by
  cases workerStep_move h with
  | fetch hfetch =>
      obtain ⟨queue, mutex, rfl, hperm⟩ := fetchStep_effect hfetch
      simpa [EdgeNode.queued, uncountedHands, WorkerPc.held, WorkerPc.counts] using hperm
  | @exec t stage hstage =>
      cases stage with
      | count verdict => exact .of_eq (by simp [execStep, uncountedHands, WorkerPc.counts,
          WorkerPc.held])
      | release verdict => simp [execStep, uncountedHands, WorkerPc.counts, WorkerPc.held,
          EdgeNode.queued]
      | returned => exact absurd rfl hstage
      | _ => exact .of_eq (List.append_nil _)
  | _ => simp [uncountedHands, WorkerPc.held, WorkerPc.counts, FetchPc.held]

/-- An allocation counts until its execution is in the executor's totals, with
those that were never handed over on record from the start. -/
def unexecuted (dropped : List (TaskRef × EdgeId)) : Account where
  kept := uncountedHands
  leaves := WorkerPc.counts
  record log := dropped ++ log.counted
  kept_notStarted := rfl
  kept_loopHead := rfl
  kept_exited := rfl
  record_grant := fun _ _ _ => rfl
  record_work := fun _ _ _ => (List.append_assoc ..).symm
  step := workerStep_uncounted

def waiting : ProducerPc → Nat
  | .allocating _ .lock => 1
  | _ => 0

def unsettled : ProducerPc → Nat
  | .allocating _ pc =>
      match pc with
      | .lock | .persist _ _ | .unlock _ | .returned _ => 0
      | _ => 1
  | _ => 0

theorem allocStep_totals {me : Thread} {call : AllocCall} {w w' : World} {pc pc' : AllocPc}
    (h : allocStep me call w pc = some (w', pc')) :
    w'.allocator.totalAllocations + waiting (.allocating call pc') =
        w.allocator.totalAllocations + waiting (.allocating call pc) ∧
      w'.allocator.successfulAllocations + w'.allocator.failedAllocations +
          unsettled (.allocating call pc') + w.allocator.totalAllocations =
        w.allocator.successfulAllocations + w.allocator.failedAllocations +
          unsettled (.allocating call pc) + w'.allocator.totalAllocations := by
  cases allocStep_move h with
  | enter _ =>
      refine ⟨rfl, ?_⟩
      simp only [unsettled, World.modifyAllocator, Allocation.acquire, countRequest]
      omega
  | assign e score =>
      refine ⟨rfl, ?_⟩
      simp only [unsettled, World.modifyAllocator, World.modifyTask, countSuccess]
      omega
  | fail =>
      refine ⟨rfl, ?_⟩
      simp only [unsettled, World.modifyAllocator, countFailure]
      omega
  | _ => exact ⟨rfl, rfl⟩

/-- The counters of the nodes, summed over the registry. -/
def processed (w : World) : Nat := (w.fleet.ids.map fun e => (w.node e).totalTasksProcessed).sum

theorem processed_of_same {w w' : World} (hfleet : w'.fleet = w.fleet)
    (hnode : ∀ e, (w'.node e).totalTasksProcessed = (w.node e).totalTasksProcessed) :
    processed w' = processed w := by
  unfold processed
  rw [hfleet, funext hnode]

theorem processed_reserve (w : World) {e : EdgeId} (he : e ∈ w.fleet.ids) (demand : Amounts) :
    processed (w.modifyNode e (EdgeNode.allocateResources demand)) = processed w + 1 := by
  have hsum : ∀ ids : List EdgeId, ids.Nodup →
      (ids.map fun e' =>
        ((w.modifyNode e (EdgeNode.allocateResources demand)).node e').totalTasksProcessed).sum =
      (ids.map fun e' => (w.node e').totalTasksProcessed).sum + if e ∈ ids then 1 else 0 := by
    intro ids hnodup
    induction ids with
    | nil => rfl
    | cons head rest ih =>
        obtain ⟨hfresh, hnodup⟩ := List.nodup_cons.mp hnodup
        rw [List.map_cons, List.map_cons, List.sum_cons, List.sum_cons, ih hnodup]
        by_cases heq : head = e
        · subst heq
          rw [World.modifyNode_self, if_neg hfresh, if_pos List.mem_cons_self]
          simp only [EdgeNode.allocateResources]
          omega
        · rw [World.modifyNode_of_ne _ _ heq]
          by_cases hmem : e ∈ rest
          · rw [if_pos hmem, if_pos (List.mem_cons_of_mem _ hmem)]
            omega
          · rw [if_neg hmem, if_neg (by simp [Ne.symm heq, hmem])]
            omega
  have hids := hsum w.fleet.ids w.fleet.nodup
  rw [if_pos he] at hids
  exact hids

theorem move_processed {s s' : Pipeline.State} {label : Pipeline.Label}
    (hedges : ∀ e ∈ s.producer.edges, e ∈ s.world.fleet.ids) (hmove : Pipeline.Move s label s') :
    processed s'.world + s.log.granted.length = processed s.world + s'.log.granted.length := by
  have hsame (hfleet : s'.world.fleet = s.world.fleet)
      (hnode : ∀ e, (s'.world.node e).totalTasksProcessed =
        (s.world.node e).totalTasksProcessed)
      (hlog : s'.log.granted = s.log.granted) :
      processed s'.world + s.log.granted.length = processed s.world + s'.log.granted.length := by
    rw [processed_of_same hfleet hnode, hlog]
  have hmodify {e : EdgeId} {f : EdgeNode → EdgeNode}
      (hf : (f (s.world.node e)).totalTasksProcessed = (s.world.node e).totalTasksProcessed)
      (e' : EdgeId) : ((s.world.modifyNode e f).node e').totalTasksProcessed =
        (s.world.node e').totalTasksProcessed := by
    by_cases he : e' = e
    · rw [he, World.modifyNode_self, hf]
    · rw [World.modifyNode_of_ne _ _ he]
  cases hmove with
  | @alloc draws call pc pc' w hpc hstep =>
      obtain ⟨hnode, -, hgrants⟩ | ⟨n, e, score, rfl, rfl, rfl⟩ := allocStep_node hstep
      · refine hsame (allocStep_frame hstep).fleet (fun e => by rw [hnode]) ?_
        rw [hgrants, grant_nil]
      · have he : e ∈ s.world.fleet.ids := by
          apply hedges
          rw [hpc]
          exact List.mem_singleton_self e
        have hreserve := processed_reserve s.world he (s.world.demand call.task)
        simp only [granted_grant, AllocPc.grants, List.map_cons, List.map_nil, List.length_append,
          List.length_singleton]
        omega
  | @schedule draws t e pc pc' w hpc hstep =>
      refine hsame (scheduleStep_frame hstep).fleet (fun e' => ?_) rfl
      obtain ⟨-, hnode⟩ | ⟨-, -, hnode⟩ := scheduleStep_node hstep
      · rw [hnode]
      · rw [hnode]
        exact hmodify rfl e'
  | draw draws hpc => exact hsame rfl (hmodify rfl) rfl
  | work e input hstep =>
      refine hsame (workerStep_frame hstep).fleet (fun e' => ?_) rfl
      by_cases he : e' = e
      · subst he
        generalize s.workers e' = pc at hstep
        cases workerStep_move hstep with
        | fetch hfetch =>
            obtain ⟨queue, mutex, rfl, -⟩ := fetchStep_effect hfetch
            rw [World.modifyScheduler_node, World.modifyNode_self]
        | exec t hstage =>
            obtain ⟨usage, hnode⟩ := execStep_usage e' input s.world t _ e'
            rw [hnode]
        | _ => rfl
      · rw [workerStep_node_of_ne hstep he]
  | _ => exact hsame rfl (fun _ => rfl) rfl

structure Books (s : State) : Prop where
  threads : Threads s.pipe
  edges : ∀ e ∈ s.pipe.producer.edges, e ∈ s.pipe.world.fleet.ids
  tally : Tally s.pipe
  requests : s.pipe.world.allocator.totalAllocations + waiting s.pipe.producer = s.requests
  results : s.pipe.world.allocator.totalAllocations =
    s.pipe.world.allocator.successfulAllocations + s.pipe.world.allocator.failedAllocations +
      unsettled s.pipe.producer
  atNodes : processed s.pipe.world = s.pipe.log.granted.length
  balanced : (unexecuted s.dropped).Balanced s.pipe

section Steps

variable {s : State}

theorem Books.pipeline (h : Books s) {label : Pipeline.Label} {pipe : Pipeline.State}
    (hmove : Pipeline.Move s.pipe label pipe) :
    Books { s with pipe := pipe, requests := s.requests + requestsOf label } := by
  have hthreads := h.threads.move hmove
  have hedges := edges_move h.edges hmove
  have htally := h.tally.move h.edges hmove
  have hprocessed := move_processed h.edges hmove
  have hbalanced := h.balanced.move h.threads h.edges hmove
  have hcount : processed pipe.world = pipe.log.granted.length := by
    have := h.atNodes
    omega
  have hidle (hallocator : pipe.world.allocator = s.pipe.world.allocator)
      (hwaiting : waiting pipe.producer = waiting s.pipe.producer + requestsOf label)
      (hunsettled : unsettled pipe.producer = unsettled s.pipe.producer) :
      Books { s with pipe := pipe, requests := s.requests + requestsOf label } := by
    refine ⟨hthreads, hedges, htally, ?_, ?_, hcount, hbalanced⟩
    · show pipe.world.allocator.totalAllocations + waiting pipe.producer = _
      rw [hallocator, hwaiting, ← Nat.add_assoc, h.requests]
    · show pipe.world.allocator.totalAllocations = _ + unsettled pipe.producer
      rw [hallocator, hunsettled, h.results]
  have hquiet (hpc : s.pipe.producer = pipe.producer)
      (hallocator : pipe.world.allocator = s.pipe.world.allocator)
      (hlabel : requestsOf label = 0) :
      Books { s with pipe := pipe, requests := s.requests + requestsOf label } :=
    hidle hallocator (by rw [hpc, hlabel]; rfl) (by rw [hpc])
  cases hmove with
  | produce kind now hpc => exact hidle rfl (by rw [hpc]; rfl) (by rw [hpc]; rfl)
  | @alloc draws call pc pc' w hpc hstep =>
      obtain ⟨hrequests, hresults⟩ := allocStep_totals hstep
      have hbefore := h.requests
      have hafter := h.results
      rw [hpc] at hbefore hafter
      refine ⟨hthreads, hedges, htally, ?_, ?_, hcount, hbalanced⟩
      · show w.allocator.totalAllocations + waiting (.allocating call pc') = s.requests + 0
        omega
      · show w.allocator.totalAllocations = w.allocator.successfulAllocations +
          w.allocator.failedAllocations + unsettled (.allocating call pc')
        omega
  | allocated draws hpc _ => exact hidle rfl (by rw [hpc]; rfl) (by rw [hpc]; rfl)
  | refused draws hpc _ => exact hidle rfl (by rw [hpc]; rfl) (by rw [hpc]; rfl)
  | schedule draws hpc hstep =>
      exact hidle (scheduleStep_strategies hstep).1 (by rw [hpc]; rfl) (by rw [hpc]; rfl)
  | scheduled draws hpc => exact hidle rfl (by rw [hpc]; rfl) (by rw [hpc]; rfl)
  | fluctuate hpc => exact hidle rfl (by rw [hpc]; rfl) (by rw [hpc]; rfl)
  | draw draws hpc => exact hidle rfl (by rw [hpc]; rfl) (by rw [hpc]; rfl)
  | passOver draws hpc => exact hidle rfl (by rw [hpc]; rfl) (by rw [hpc]; rfl)
  | fluctuated draws hpc => exact hidle rfl (by rw [hpc]; rfl) (by rw [hpc]; rfl)
  | work e input hstep => exact hquiet rfl (workerStep_allocator hstep) rfl
  | setAllocation strategy =>
      exact ⟨hthreads, hedges, htally, h.requests, h.results, hcount, hbalanced⟩
  | stay label hlabel =>
      obtain rfl | rfl := hlabel
      · exact hquiet rfl rfl rfl
      · exact hquiet rfl rfl rfl
  | _ => exact hquiet rfl rfl rfl

theorem Books.modifyNode (h : Books s) (e : EdgeId) {f : EdgeNode → EdgeNode}
    (hqueue : ∀ node, (f node).queued = node.queued)
    (hprocessed : ∀ node, (f node).totalTasksProcessed = node.totalTasksProcessed) :
    Books (withWorld (World.modifyNode e f) s) := by
  refine ⟨⟨h.threads.foreign, h.threads.spawning, h.threads.joining⟩, h.edges,
    ⟨h.tally.successes, h.tally.totals, h.tally.registered⟩, h.requests, h.results, ?_, ?_⟩
  · refine Eq.trans ?_ h.atNodes
    refine processed_of_same rfl fun e' => ?_
    show ((s.pipe.world.modifyNode e f).node e').totalTasksProcessed = _
    by_cases he : e' = e
    · rw [he, World.modifyNode_self, hprocessed]
    · rw [World.modifyNode_of_ne _ _ he]
  · refine h.balanced.of_eq rfl (fun _ => rfl) (fun e' => ?_) (fun _ => rfl)
    show ((s.pipe.world.modifyNode e f).node e').queued = _
    by_cases he : e' = e
    · rw [he, World.modifyNode_self, hqueue]
    · rw [World.modifyNode_of_ne _ _ he]

theorem Books.call (h : Books s) (hidle : s.pipe.producer = .idle) (t : TaskRef)
    (kind : AllocKind) :
    Books { s with
      pipe := { s.pipe with producer := .allocating ⟨t, kind⟩ .lock }
      requests := s.requests + 1 } := by
  have hrequests := h.requests
  have hresults := h.results
  have hsuccesses := h.tally.successes
  rw [hidle] at hrequests hresults hsuccesses
  refine ⟨⟨h.threads.foreign, h.threads.spawning, h.threads.joining⟩, fun e he => (by cases he),
    ⟨hsuccesses, h.tally.totals, h.tally.registered⟩, congrArg (· + 1) hrequests, hresults,
    h.atNodes, ?_⟩
  exact h.balanced.of_eq rfl (fun e => by rw [hidle]; rfl) (fun _ => rfl) (fun _ => rfl)

theorem Books.drop (h : Books s) {call : AllocCall} {result : AllocationResult}
    (hpc : s.pipe.producer = .allocating call (.returned result)) :
    Books { s with
      pipe := { s.pipe with producer := .idle }
      dropped := s.dropped ++ if result.success then [(call.task, result.edgeId)] else [] } := by
  have hrequests := h.requests
  have hresults := h.results
  have hsuccesses := h.tally.successes
  rw [hpc] at hrequests hresults hsuccesses
  refine ⟨⟨h.threads.foreign, h.threads.spawning, h.threads.joining⟩, fun e he => (by cases he),
    ⟨hsuccesses, h.tally.totals, h.tally.registered⟩, hrequests, hresults, h.atNodes,
    fun e => ?_⟩
  -- The task moves from the producer's hands to the record.
  have hold := h.balanced e
  simp only [Account.places, hpc, ProducerPc.held, AllocPc.granted] at hold
  simp only [Account.places, ProducerPc.held, List.nil_append, unexecuted, tasksOn_append]
    at hold ⊢
  refine List.Perm.trans ?_ hold
  rw [List.perm_iff_count]
  intro t
  by_cases hsuccess : result.success = true
  · by_cases he : result.edgeId = e <;> simp [hsuccess, he, List.count_cons]
    omega
  · simp [hsuccess, tasksOn]

theorem Books.step {label : Label} {s' : State} (h : Books s)
    (hstep : Accounting.step s label = some s') : Books s' := by
  cases label with
  | pipeline label =>
      obtain ⟨pipe, hpipe, rfl⟩ := Option.map_eq_some_iff.mp hstep
      exact h.pipeline (step_move hpipe)
  | call t kind =>
      simp only [Accounting.step] at hstep
      split at hstep
      · cases hstep
        exact h.call ‹_› t kind
      · cases hstep
  | drop =>
      simp only [Accounting.step] at hstep
      split at hstep
      · cases hstep
        exact h.drop ‹_›
      · cases hstep
  | release e demand =>
      cases hstep
      exact h.modifyNode e (fun _ => rfl) fun _ => rfl
  | setAvailable e available =>
      cases hstep
      exact h.modifyNode e (fun _ => rfl) fun _ => rfl

end Steps

theorem Books.initial {s : State} (h : Initial s) : Books s := by
  have hpipe : Pipeline.machine.Reachable Machine.free s.pipe := ⟨s.pipe, h.pipe, .refl _⟩
  obtain ⟨hsound, -, htally⟩ := tally_of_reachable hpipe
  refine ⟨hsound.threads, hsound.edges, htally, ?_, ?_, ?_, fun e => ?_⟩
  · rw [h.totalAllocations, h.pipe.producer, h.requests]
    rfl
  · rw [h.totalAllocations, h.pipe.allocator, h.failedAllocations, h.pipe.producer]
    rfl
  · have hzero (e : EdgeId) : (s.pipe.world.node e).totalTasksProcessed = 0 := by
      obtain ⟨capacity, hnode⟩ := h.pipe.node e
      rw [hnode]
    simp [processed, hzero, h.pipe.log]
  · obtain ⟨capacity, hnode⟩ := h.pipe.node e
    simp [Account.places, unexecuted, h.pipe.producer, h.pipe.workers, h.pipe.log, h.dropped, hnode,
      ProducerPc.held, uncountedHands, WorkerPc.held, EdgeNode.queued]

theorem books_of_reachable {s : State} (hs : machine.Reachable Machine.free s) : Books s :=
  hs.invariant Books.initial fun h _ hstep => h.step hstep

def State.pending (s : State) : List (TaskRef × EdgeId) :=
  s.pipe.log.granted.diff s.pipe.log.counted

def betweenCalls : ProducerPc → Bool
  | .allocating _ (.returned _) => true
  | .allocating _ _ => false
  | .idle | .scheduling _ _ _ | .fluctuating _ => true

section Pending

variable {s : State}

theorem count_granted (h : Books s) (t : TaskRef) (e : EdgeId) :
    s.pipe.log.granted.count (t, e) = (s.pipe.producer.held e).count t +
      (s.pipe.world.node e).queued.count t + (uncountedHands (s.pipe.workers e)).count t +
      s.dropped.count (t, e) + s.pipe.log.counted.count (t, e) := by
  have hbalanced := (h.balanced e).count_eq t
  simp only [Account.places, unexecuted, tasksOn_append, List.count_append, count_tasksOn]
    at hbalanced
  omega

theorem pending_perm (h : Books s) :
    (s.pending ++ s.pipe.log.counted).Perm s.pipe.log.granted := by
  rw [List.perm_iff_count]
  rintro ⟨t, e⟩
  rw [List.count_append, State.pending, List.count_diff]
  have hgranted := count_granted h t e
  omega

theorem pending_places (h : Books s) (e : EdgeId) :
    (tasksOn e s.pending).Perm (s.pipe.producer.held e ++ (s.pipe.world.node e).queued ++
      uncountedHands (s.pipe.workers e) ++ tasksOn e s.dropped) := by
  rw [List.perm_iff_count]
  intro t
  have hgranted := count_granted h t e
  simp only [State.pending, count_tasksOn, List.count_diff, List.count_append]
  omega

end Pending

/-- Each call is one request, with one result; each success is one task
processed at a node, and either its execution is counted or it is pending. -/
theorem accounts_agree {s : State} (hs : machine.Reachable Machine.free s)
    (hbetween : betweenCalls s.pipe.producer = true) :
    s.pipe.world.allocator.totalAllocations = s.requests ∧
    s.pipe.world.allocator.totalAllocations =
      s.pipe.world.allocator.successfulAllocations + s.pipe.world.allocator.failedAllocations ∧
    s.pipe.world.allocator.successfulAllocations =
      (s.pipe.world.fleet.ids.map fun e => (s.pipe.world.node e).totalTasksProcessed).sum ∧
    s.pipe.world.allocator.successfulAllocations =
      s.pipe.world.executor.totalTasksExecuted + s.pipe.world.executor.totalTasksFailed +
        s.pending.length ∧
    ∀ e, (tasksOn e s.pending).Perm (s.pipe.producer.held e ++ (s.pipe.world.node e).queued ++
      uncountedHands (s.pipe.workers e) ++ tasksOn e s.dropped) := by
  have hbooks := books_of_reachable hs
  have hwaiting : waiting s.pipe.producer = 0 ∧ unsettled s.pipe.producer = 0 ∧
      s.pipe.producer.uncounted = 0 := by
    cases hpc : s.pipe.producer with
    | allocating call pc =>
        rw [hpc] at hbetween
        cases pc with
        | returned result => exact ⟨rfl, rfl, rfl⟩
        | _ => cases hbetween
    | _ => exact ⟨rfl, rfl, rfl⟩
  obtain ⟨hwaiting, hunsettled, huncounted⟩ := hwaiting
  have hrequests := hbooks.requests
  have hresults := hbooks.results
  have hsuccesses := hbooks.tally.successes
  have htotals := hbooks.tally.totals
  have hpending := (pending_perm hbooks).length_eq
  rw [List.length_append] at hpending
  refine ⟨by omega, by omega, ?_, by omega, pending_places hbooks⟩
  have hnodes := hbooks.atNodes
  unfold processed at hnodes
  omega

def executeTask : List Pipeline.Label :=
  handOver ++ [.start, .control, .control] ++ List.replicate 18 (.work "E01" {})

def allocateTwice : List Label :=
  executeTask.map .pipeline ++
    .call 0 .once :: List.replicate 9 (.pipeline (.producer {})) ++ [.drop]

def bootAccounts : State := { pipe := bootSingle (fun _ => TaskProfile.camera) .fifo }

theorem bootAccounts_initial : Initial bootAccounts :=
  ⟨boot_initial .., rfl, rfl, rfl, rfl⟩

theorem accounts_agree_twice :
    let s := machine.final bootAccounts allocateTwice
    s.pipe.world.allocator.totalAllocations = s.requests ∧
      s.pipe.world.allocator.successfulAllocations =
        s.pipe.world.executor.totalTasksExecuted + s.pipe.world.executor.totalTasksFailed +
          s.pending.length :=
  have hagree := accounts_agree
    (Machine.reachable_final bootAccounts_initial (by decide +kernel)) (by decide +kernel)
  ⟨hagree.1, hagree.2.2.2.1⟩

end EdgeAllocator.Accounting
