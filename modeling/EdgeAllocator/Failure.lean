import EdgeAllocator.Controller
import EdgeAllocator.Custody

/-! The pipeline with node failures: threads that call `simulateNodeFailure`, in
which the controller reallocates what the failed node has queued, step by step
beside the producer and the workers. -/
namespace EdgeAllocator.Failure

open Foundation Scheduler Executor Allocator Allocation Pipeline
open Controller (Counters)

/-- Where a call of `simulateNodeFailure` stands once the node is marked: in the
loop of `reallocateTasksFromFailedNode`. -/
inductive HandlerPc where
  | idle
  | check (e : EdgeId)
  | dequeue (e : EdgeId)
  | mark (e : EdgeId) (t : TaskRef)
  | detach (e : EdgeId) (t : TaskRef)
  | allocating (e : EdgeId) (t : TaskRef) (pc : AllocPc)

/-- `handled` lists the nodes whose failure has been handled and that have not
recovered since; no step reads it. -/
structure State where
  pipe : Pipeline.State
  handlers : Nat → HandlerPc := fun _ => .idle
  counters : Counters := {}
  handled : List EdgeId := []

inductive Label where
  | pipe (label : Pipeline.Label)
  | fail (k : Nat) (e : EdgeId)
  | handle (k : Nat)
  | recover (e : EdgeId)

def State.modifyWorld (f : World → World) (s : State) : State :=
  { s with pipe := { s.pipe with world := f s.pipe.world } }

def leaveLoop (e : EdgeId) (s : State) : State :=
  { s with handled := if (s.pipe.world.node e).isAvailable then s.handled else e :: s.handled }

def handlerStep (k : Nat) (s : State) : HandlerPc → Option (State × HandlerPc)
  | .idle => none
  | .check e =>
      if (s.pipe.world.node e).hasTasksInQueue then some (s, .dequeue e)
      else some (leaveLoop e s, .idle)
  | .dequeue e =>
      some (s.modifyWorld (World.modifyNode e fun node => node.dequeueTask.2),
        match (s.pipe.world.node e).dequeueTask.1 with
        | none => .check e
        | some t => .mark e t)
  | .mark e t =>
      some (s.modifyWorld (World.modifyTask t (Task.setStatus .reallocated)), .detach e t)
  | .detach e t =>
      some (s.modifyWorld (World.modifyTask t (Task.setAssignedEdgeId "")),
        .allocating e t .lock)
  | .allocating e _ (.returned result) =>
      some ({ s with counters :=
        (s.counters.allocation result.success).reallocation result.success }, .check e)
  | .allocating e t pc =>
      (allocStep (.monitor k) ⟨t, .once⟩ s.pipe.world pc).map fun (w, pc') =>
        (s.modifyWorld fun _ => w, .allocating e t pc')

def holdsNodes : ProducerPc → Bool
  | .fluctuating _ => true
  | _ => false

def fail (k : Nat) (e : EdgeId) (s : State) : State :=
  if e ∈ s.pipe.world.fleet.ids then
    { s.modifyWorld (World.modifyNode e (EdgeNode.setAvailable false)) with
      counters := s.counters.failure
      handlers := Function.update s.handlers k (.check e) }
  else s

def recover (e : EdgeId) (s : State) : State :=
  if e ∈ s.pipe.world.fleet.ids then
    { s.modifyWorld (World.modifyNode e (EdgeNode.setAvailable true)) with
      counters := s.counters.recovery
      handled := s.handled.filter (· ≠ e) }
  else s

def step (s : State) : Label → Option State
  | .pipe label => (Pipeline.step s.pipe label).map fun pipe => { s with pipe := pipe }
  | .fail k e =>
      match s.handlers k with
      | .idle => if holdsNodes s.pipe.producer then none else some (fail k e s)
      | _ => none
  | .handle k =>
      (handlerStep k s (s.handlers k)).map fun (s', pc) =>
        { s' with handlers := Function.update s'.handlers k pc }
  | .recover e => if holdsNodes s.pipe.producer then none else some (recover e s)

structure Initial (s : State) : Prop where
  pipe : Pipeline.Initial s.pipe
  handlers : ∀ k, s.handlers k = .idle
  handled : s.handled = []

def machine : Machine State Label := ⟨Initial, step⟩

def fetching : WorkerPc → Bool
  | .fetching (.returned _) => false
  | .fetching _ => true
  | _ => false

def schedulingOn (e : EdgeId) : ProducerPc → Bool
  | .scheduling _ _ .returned => false
  | .scheduling _ e' _ => e' = e
  | _ => false

/-- From the handling of its failure to its recovery a node has an empty queue
whenever no call is in progress that works on it. -/
def Unstranded (s : State) : Prop :=
  ∀ e ∈ s.handled, fetching (s.pipe.workers e) = false →
    schedulingOn e s.pipe.producer = false → (s.pipe.world.node e).taskQueue = []

instance (s : State) : Decidable (Unstranded s) := inferInstanceAs (Decidable (∀ e ∈ s.handled, _))

/-- The number of pointers that a call of `getNextTask` would put back if its edge
had an empty queue from now on. At `drainPop` one more pointer follows, a null. -/
def restorable : WorkerPc → Nat
  | .fetching (.drainCheck scratch) | .fetching (.choose scratch) => scratch.length - 1
  | .fetching (.drainPop scratch) => scratch.length
  | .fetching (.restore _ rest) => rest.length
  | _ => 0

def reserving : ProducerPc → Option EdgeId
  | .allocating _ (.reserve _ e _) => some e
  | _ => none

def reserves (s : State) : Label → Option EdgeId
  | .pipe (.producer _) => reserving s.pipe.producer
  | _ => none

def lastCheck (s : State) : Label → Option EdgeId
  | .handle k =>
      match s.handlers k with
      | .check e =>
          if (s.pipe.world.node e).taskQueue = [] ∧ (s.pipe.world.node e).isAvailable = false then
            some e
          else none
      | _ => none
  | _ => none

/-- No hand-over to a failed node is under way at the last look at its queue, and
none begins after it. -/
def Timely (s : State) (label : Label) : Prop :=
  (∀ e ∈ reserves s label, e ∉ s.handled) ∧
    ∀ e ∈ lastCheck s label,
      s.pipe.producer.held e = [] ∧ restorable (s.pipe.workers e) = 0

instance (s : State) (label : Label) : Decidable (Timely s label) :=
  inferInstanceAs (Decidable (_ ∧ _))

/-- Nothing is queued on the node and nothing is on its way there. -/
structure Clear (s : Pipeline.State) (e : EdgeId) : Prop where
  unavailable : (s.world.node e).isAvailable = false
  queue : (s.world.node e).taskQueue = []
  settled : restorable (s.workers e) = 0
  unclaimed : s.producer.held e = []

theorem Clear.of_node {s s' : Pipeline.State} {e : EdgeId} (h : Clear s e)
    (hnode : (s'.world.node e).isAvailable = (s.world.node e).isAvailable ∧
      (s'.world.node e).taskQueue = (s.world.node e).taskQueue)
    (hsettled : restorable (s'.workers e) = 0) (hunclaimed : s'.producer.held e = []) :
    Clear s' e :=
  ⟨hnode.1.trans h.unavailable, hnode.2.trans h.queue, hsettled, hunclaimed⟩

theorem fetchStep_settled {me : Thread} {e : EdgeId} {clock : ComparisonClock} {w w' : World}
    {pc pc' : FetchPc} (hstep : fetchStep me e clock w pc = some (w', pc'))
    (hqueue : (w.node e).taskQueue = []) (hsettled : restorable (.fetching pc) = 0) :
    ((w'.node e).isAvailable = (w.node e).isAvailable ∧ (w'.node e).taskQueue = []) ∧
      restorable (.fetching pc') = 0 := by
  have hnone : (w.node e).hasTasksInQueue = false :=
    (EdgeNode.hasTasksInQueue_eq_false _).mpr hqueue
  have hpopped : ((w.modifyNode e fun node => node.dequeueTask.2).node e).isAvailable =
      (w.node e).isAvailable ∧
      ((w.modifyNode e fun node => node.dequeueTask.2).node e).taskQueue = [] := by
    rw [World.modifyNode_self]
    refine ⟨EdgeNode.dequeueTask_isAvailable _, ?_⟩
    rw [EdgeNode.dequeueTask, hqueue]
    exact hqueue
  cases pc with
  | lock =>
      simp only [fetchStep] at hstep
      split_ifs at hstep
      cases hstep
      exact ⟨⟨rfl, hqueue⟩, rfl⟩
  | checkQueue =>
      simp only [fetchStep, hnone, Bool.false_eq_true, if_false] at hstep
      cases hstep
      exact ⟨⟨rfl, hqueue⟩, rfl⟩
  | popFront =>
      cases hstep
      exact ⟨hpopped, rfl⟩
  | drainCheck scratch =>
      simp only [fetchStep, hnone, Bool.false_eq_true, if_false] at hstep
      split_ifs at hstep <;> cases hstep
      · exact ⟨⟨rfl, hqueue⟩, rfl⟩
      · exact ⟨⟨rfl, hqueue⟩, hsettled⟩
  | drainPop scratch =>
      cases hstep
      refine ⟨hpopped, ?_⟩
      have hscratch : scratch.length = 0 := hsettled
      rw [restorable, List.length_append, hscratch]
      rfl
  | choose scratch =>
      obtain ⟨i, hi, hnext⟩ := Option.map_eq_some_iff.mp hstep
      cases hnext
      refine ⟨⟨rfl, hqueue⟩, ?_⟩
      rw [restorable, List.length_eraseIdx_of_lt (select_lt hi)]
      exact hsettled
  | restore selected rest =>
      cases rest with
      | nil =>
          cases hstep
          exact ⟨⟨rfl, hqueue⟩, rfl⟩
      | cons task rest => cases hsettled
  | unlock selected =>
      cases hstep
      exact ⟨⟨rfl, hqueue⟩, rfl⟩
  | returned selected => cases hstep

theorem workerStep_settled {e : EdgeId} {input : WorkerInput} {w w' : World} {pc pc' : WorkerPc}
    (hstep : workerStep e input w pc = some (w', pc')) (hqueue : (w.node e).taskQueue = [])
    (hsettled : restorable pc = 0) :
    ((w'.node e).isAvailable = (w.node e).isAvailable ∧ (w'.node e).taskQueue = []) ∧
      restorable pc' = 0 := by
  cases workerStep_move hstep with
  | fetch hfetch => exact fetchStep_settled hfetch hqueue hsettled
  | @exec t stage _ =>
      refine ⟨?_, rfl⟩
      obtain ⟨usage, hnode⟩ := execStep_usage e input w t stage e
      rw [hnode]
      exact ⟨rfl, hqueue⟩
  | _ => exact ⟨⟨rfl, hqueue⟩, rfl⟩

theorem scheduleStep_unclaimed {me : Thread} {e e' : EdgeId} {t : TaskRef} {w w' : World}
    {pc pc' : SchedulePc} (hstep : scheduleStep me e' t w pc = some (w', pc'))
    (h : (if e' = e then pc.held t else []) = []) :
    w'.node e = w.node e ∧ (if e' = e then pc'.held t else []) = [] := by
  by_cases he : e' = e
  · rw [if_pos he] at h ⊢
    cases pc with
    | unlock =>
        cases hstep
        exact ⟨rfl, rfl⟩
    | returned => cases hstep
    | _ => cases h
  · rw [if_neg he]
    refine ⟨?_, rfl⟩
    obtain ⟨-, hnode⟩ | ⟨-, -, hnode⟩ := scheduleStep_node hstep
    · rw [hnode]
    · rw [hnode, World.modifyNode_of_ne _ _ (Ne.symm he)]

theorem Clear.move {s s' : Pipeline.State} {label : Pipeline.Label} {e : EdgeId} (h : Clear s e)
    (hmove : Pipeline.Move s label s')
    (hreserving : label.byProducer = true → e ∉ reserving s.producer) : Clear s' e := by
  have hunclaimed := h.unclaimed
  cases hmove with
  | produce kind now _ => exact ⟨h.unavailable, h.queue, h.settled, rfl⟩
  | @alloc draws call pc pc' w hpc hstep =>
      rw [hpc, ProducerPc.held] at hunclaimed
      obtain ⟨hnode, hgranted, -⟩ | ⟨n, e', score, rfl, rfl, rfl⟩ := allocStep_node hstep
      · refine h.of_node ?_ h.settled ?_
        · rw [show w.node = s.world.node from hnode]
          exact ⟨rfl, rfl⟩
        · rw [ProducerPc.held, hgranted]
          exact hunclaimed
      · have hne : e ≠ e' := by
          rintro rfl
          rw [hpc] at hreserving
          exact hreserving rfl rfl
        refine h.of_node ?_ h.settled ?_
        · rw [World.modifyNode_of_ne _ _ hne]
          exact ⟨rfl, rfl⟩
        · rw [ProducerPc.held, AllocPc.granted, if_neg fun heq => hne (Option.some.inj heq).symm]
  | allocated draws hpc hsuccess =>
      refine ⟨h.unavailable, h.queue, h.settled, ?_⟩
      rw [hpc] at hunclaimed
      simpa [ProducerPc.held, AllocPc.granted, hsuccess, SchedulePc.held] using hunclaimed
  | refused draws _ _ => exact ⟨h.unavailable, h.queue, h.settled, rfl⟩
  | schedule draws hpc hstep =>
      rw [hpc, ProducerPc.held] at hunclaimed
      obtain ⟨hnode, hkept⟩ := scheduleStep_unclaimed hstep hunclaimed
      exact h.of_node (hnode ▸ ⟨rfl, rfl⟩) h.settled hkept
  | scheduled draws _ => exact ⟨h.unavailable, h.queue, h.settled, rfl⟩
  | fluctuate _ => exact ⟨h.unavailable, h.queue, h.settled, rfl⟩
  | @draw draws e' todo _ =>
      refine h.of_node ?_ h.settled rfl
      by_cases he : e = e'
      · rw [he, World.modifyNode_self]
        exact ⟨rfl, rfl⟩
      · rw [World.modifyNode_of_ne _ _ he]
        exact ⟨rfl, rfl⟩
  | passOver draws _ => exact ⟨h.unavailable, h.queue, h.settled, rfl⟩
  | fluctuated draws _ => exact ⟨h.unavailable, h.queue, h.settled, rfl⟩
  | @work e' input w pc' hstep =>
      by_cases he : e = e'
      · subst he
        obtain ⟨⟨havailable, hqueue⟩, hsettled⟩ := workerStep_settled hstep h.queue h.settled
        refine ⟨havailable.trans h.unavailable, hqueue, ?_, hunclaimed⟩
        show restorable (Function.update s.workers e pc' e) = 0
        rw [Function.update_self]
        exact hsettled
      · refine h.of_node ?_ ?_ hunclaimed
        · show (w.node e).isAvailable = _ ∧ (w.node e).taskQueue = _
          rw [workerStep_node_of_ne hstep he]
          exact ⟨rfl, rfl⟩
        · show restorable (Function.update s.workers e' pc' e) = 0
          rw [Function.update_of_ne he]
          exact h.settled
  | @spawn e' todo _ _ =>
      refine ⟨h.unavailable, h.queue, ?_, hunclaimed⟩
      show restorable (Function.update s.workers e' .loopHead e) = 0
      by_cases he : e = e'
      · rw [he, Function.update_self]
        rfl
      · rw [Function.update_of_ne he]
        exact h.settled
  | joined _ => exact ⟨h.unavailable, h.queue, rfl, hunclaimed⟩
  | _ => exact ⟨h.unavailable, h.queue, h.settled, hunclaimed⟩

def AllClear (s : State) : Prop := ∀ e ∈ s.handled, Clear s.pipe e

theorem Clear.pipe {s : State} {label : Pipeline.Label} {p : Pipeline.State} {e : EdgeId}
    (h : Clear s.pipe e) (he : e ∈ s.handled) (htimely : Timely s (.pipe label))
    (hstep : Pipeline.step s.pipe label = some p) : Clear p e := by
  refine h.move (Pipeline.step_move hstep) fun hproducer hmem => ?_
  cases label with
  | producer draws => exact htimely.1 e hmem he
  | produce kind now =>
      cases hidle : s.pipe.producer with
      | idle =>
          rw [hidle] at hmem
          cases hmem
      | _ => simp [Pipeline.step, hidle] at hstep
  | fluctuate =>
      cases hidle : s.pipe.producer with
      | idle =>
          rw [hidle] at hmem
          cases hmem
      | _ => simp [Pipeline.step, hidle] at hstep
  | _ => cases hproducer

theorem Clear.world {s : State} {f : World → World} {e : EdgeId} (h : Clear s.pipe e)
    (havailable : ((f s.pipe.world).node e).isAvailable = (s.pipe.world.node e).isAvailable)
    (hqueue : (s.pipe.world.node e).taskQueue = [] → ((f s.pipe.world).node e).taskQueue = []) :
    Clear (s.modifyWorld f).pipe e :=
  ⟨havailable.trans h.unavailable, hqueue h.queue, h.settled, h.unclaimed⟩

theorem Clear.modifyNode {s : State} {e e' : EdgeId} {f : EdgeNode → EdgeNode}
    (h : Clear s.pipe e)
    (havailable : e = e' → (f (s.pipe.world.node e')).isAvailable = false)
    (hqueue : (s.pipe.world.node e').taskQueue = [] → (f (s.pipe.world.node e')).taskQueue = []) :
    Clear (s.modifyWorld (World.modifyNode e' f)).pipe e := by
  by_cases he : e = e'
  · subst he
    refine ⟨?_, ?_, h.settled, h.unclaimed⟩
    · show ((World.modifyNode e f s.pipe.world).node e).isAvailable = false
      rw [World.modifyNode_self]
      exact havailable rfl
    · show ((World.modifyNode e f s.pipe.world).node e).taskQueue = []
      rw [World.modifyNode_self]
      exact hqueue h.queue
  · refine h.world ?_ fun hempty => ?_
    · rw [World.modifyNode_of_ne _ _ he]
    · rw [World.modifyNode_of_ne _ _ he]
      exact hempty

theorem AllClear.handle {s s' : State} {k : Nat} {next : HandlerPc} (h : AllClear s)
    (htimely : Timely s (.handle k)) (hstep : handlerStep k s (s.handlers k) = some (s', next)) :
    AllClear s' := by
  generalize hstart : s.handlers k = start at hstep
  cases start with
  | idle => cases hstep
  | check e =>
      simp only [handlerStep] at hstep
      split_ifs at hstep with hmore <;> cases hstep
      · exact h
      · rw [Bool.not_eq_true, EdgeNode.hasTasksInQueue_eq_false] at hmore
        intro e' he'
        simp only [leaveLoop] at he' ⊢
        cases havailable : (s.pipe.world.node e).isAvailable with
        | true =>
            rw [havailable, if_pos rfl] at he'
            exact h e' he'
        | false =>
            rw [havailable, if_neg (by decide)] at he'
            rcases List.mem_cons.mp he' with rfl | hold
            · have hlast := htimely.2 e' (by
                simp only [lastCheck, hstart, hmore, havailable, and_self, if_true]
                exact Option.mem_some_self e')
              exact ⟨havailable, hmore, hlast.2, hlast.1⟩
            · exact h e' hold
  | dequeue e =>
      cases hstep
      intro e' he'
      refine (h e' he').modifyNode (fun heq => ?_) fun hempty => ?_
      · rw [EdgeNode.dequeueTask_isAvailable, ← heq]
        exact (h e' he').unavailable
      · rw [EdgeNode.dequeueTask, hempty]
        exact hempty
  | mark e t =>
      cases hstep
      exact fun e' he' => (h e' he').world rfl id
  | detach e t =>
      cases hstep
      exact fun e' he' => (h e' he').world rfl id
  | allocating e t pc =>
      have hdriven (hmap : (allocStep (.monitor k) ⟨t, .once⟩ s.pipe.world pc).map
          (fun (w, pc') => (s.modifyWorld fun _ => w, HandlerPc.allocating e t pc')) =
            some (s', next)) : AllClear s' := by
        obtain ⟨⟨w, pc'⟩, halloc, hnext⟩ := Option.map_eq_some_iff.mp hmap
        cases hnext
        intro e' he'
        obtain ⟨hnode, -⟩ | ⟨n, e₁, score, -, -, rfl⟩ := allocStep_node halloc
        · refine (h e' he').world ?_ fun hempty => ?_
          · rw [hnode]
          · rw [hnode]
            exact hempty
        · exact (h e' he').modifyNode (fun heq => heq ▸ (h e' he').unavailable) id
      cases pc with
      | returned result =>
          cases hstep
          exact h
      | _ => exact hdriven hstep

theorem AllClear.step {s s' : State} {label : Label} (h : AllClear s) (htimely : Timely s label)
    (hstep : machine.step s label = some s') : AllClear s' := by
  cases label with
  | pipe label =>
      obtain ⟨p, hpipe, hnext⟩ := Option.map_eq_some_iff.mp hstep
      cases hnext
      exact fun e he => (h e he).pipe he htimely hpipe
  | fail k e =>
      simp only [machine, Failure.step] at hstep
      split at hstep
      · split_ifs at hstep
        cases hstep
        unfold fail
        split_ifs
        · exact fun e' he' => (h e' he').modifyNode (fun _ => rfl) id
        · exact h
      · cases hstep
  | handle k =>
      obtain ⟨⟨t, pc⟩, hhandler, hnext⟩ := Option.map_eq_some_iff.mp hstep
      cases hnext
      have hclear := h.handle htimely hhandler
      exact hclear
  | recover e =>
      simp only [machine, Failure.step] at hstep
      split_ifs at hstep
      cases hstep
      unfold recover
      split_ifs
      · intro e' he'
        obtain ⟨hold, hne⟩ := List.mem_filter.mp he'
        exact (h e' hold).modifyNode (fun heq => absurd heq (of_decide_eq_true hne)) id
      · exact h

/-- With every handling timely, no task is stranded on a failed node. -/
theorem unstranded_of_timely {s : State} (hs : machine.Reachable Timely s) : Unstranded s := by
  have hinit {s : State} (hs : machine.initial s) : AllClear s := by
    intro e he
    rw [hs.handled] at he
    cases he
  have hclear : AllClear s := hs.invariant hinit AllClear.step
  exact fun e he _ _ => (hclear e he).queue

def single : State := { pipe := bootSingle (fun _ => TaskProfile.ultrasonic) .fifo }

theorem single_initial : machine.initial single :=
  ⟨boot_initial .., fun _ => rfl, rfl⟩

def failE01 (n : Nat) : List Label := .fail 0 "E01" :: List.replicate n (.handle 0)

theorem unstranded_of_timely_single :
    Unstranded (machine.final single (handOver.map Label.pipe ++ failE01 13)) :=
  unstranded_of_timely ⟨_, single_initial, Machine.run_of_checks (by decide +kernel)⟩

/-- The node fails and its failure is handled between the reservation and
`scheduleTask`. -/
theorem schedule_strands_task : ¬ ∀ s, machine.Reachable Machine.free s → Unstranded s := by
  intro h
  have hunstranded := h (machine.final single
    ((handOver.take 8).map Label.pipe ++ failE01 1 ++ (handOver.drop 8).map Label.pipe))
    (Machine.reachable_final single_initial (by decide +kernel))
  exact absurd hunstranded (by decide +kernel)

end EdgeAllocator.Failure
