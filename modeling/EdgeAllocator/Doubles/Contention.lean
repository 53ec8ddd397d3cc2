import EdgeAllocator.Controller
import EdgeAllocator.Doubles.Stepwise
import EdgeAllocator.Foundation.Monitor

/-! `ResourceController` under contention: allocations that any threads have begun,
directly or in the callback of `simulateNodeFailure`, beside the controller's own
thread, which allocates too and then fluctuates the nodes one by one. -/
namespace EdgeAllocator.Doubles.Contention

open Foundation
open Controller (TaskManager Counters)

/-- Where a thread stands that has called `allocateTaskNow` or
`simulateNodeFailure`. `failed` is the node whose tasks are being reallocated. -/
inductive CallerPc where
  | idle
  | find (e : EdgeId)
  | check (e : EdgeId)
  | dequeue (e : EdgeId)
  | mark (e : EdgeId) (t : TaskRef)
  | detach (e : EdgeId) (t : TaskRef)
  | allocating (t : TaskRef) (failed : Option EdgeId) (pc : AllocPc)

/-- Where the controller's thread stands in `processingLoop`. -/
inductive LoopPc where
  | notRunning
  | head
  | checkQueue
  | dequeue
  | allocating (t : TaskRef) (pc : AllocPc)
  | update
  | fluctuating (todo : List EdgeId)

/-- `crowded` tells of a node whether, since it passed `canAllocate`, the sum of its usage and
what the task being allocated requires is above its CPU or its RAM. No step reads it. -/
structure State where
  world : World
  manager : TaskManager := {}
  counters : Counters := {}
  isRunning : Bool := false
  callers : Nat → CallerPc := fun _ => .idle
  loop : LoopPc := .notRunning
  crowded : EdgeId → Bool := fun _ => false

inductive Label where
  | create (now : Int)
  | allocate (k : Nat) (t : TaskRef)
  | fail (k : Nat) (e : EdgeId)
  | caller (k : Nat)
  | recover (e : EdgeId)
  | start
  | stop
  | loop (draws : EdgeNode.Draws)

def CallerPc.call : CallerPc → Option (TaskRef × AllocPc)
  | .allocating t _ pc => some (t, pc)
  | _ => none

def LoopPc.call : LoopPc → Option (TaskRef × AllocPc)
  | .allocating t pc => some (t, pc)
  | _ => none

/-- `updateResourceMetrics` keeps `nodes_mutex_` for the whole of its loop. -/
def LoopPc.holdsNodes : LoopPc → Bool
  | .fluctuating _ => true
  | _ => false

/-- Whether the sums would stay within the CPU and the RAM of the node. -/
def roomFor (demand : Amounts) (node : EdgeNode) : Bool :=
  decide (node.currentUsage .cpu + demand .cpu ≤ node.capacity.amounts .cpu) &&
    decide (node.currentUsage .ram + demand .ram ≤ node.capacity.amounts .ram)

namespace State

def modifyWorld (f : World → World) (s : State) : State := { s with world := f s.world }

def call (s : State) : Thread → Option (TaskRef × AllocPc)
  | .monitor k => (s.callers k).call
  | .producer => s.loop.call
  | .worker _ | .client _ => none

/-- The task of the call that has `strategy_mutex_`. -/
def inProgress (s : State) : Option TaskRef :=
  s.world.allocator.strategyMutex.bind fun me => (s.call me).map Prod.fst

/-- What `crowded` becomes with the next step of the call. Where the difference is rounded
a node that passes `canAllocate` need not have room. -/
def examined (t : TaskRef) (s : State) : AllocPc → EdgeId → Bool
  | .examine e _ _ =>
      if (s.world.node e).canAllocate (s.world.demand t) then
        Function.update s.crowded e (!roomFor (s.world.demand t) (s.world.node e))
      else s.crowded
  | _ => s.crowded

/-- One step of `allocateTask`, which takes no `nodes_mutex_`. -/
def allocStep (me : Thread) (t : TaskRef) (pc : AllocPc) (s : State) : Option (State × AllocPc) :=
  (Doubles.allocStep me t s.world pc).map fun (w, pc') =>
    ({ s with world := w, crowded := s.examined t pc }, pc')

def fluctuate (draws : EdgeNode.Draws) (e : EdgeId) (s : State) : State :=
  let node := (s.world.node e).simulateResourceFluctuation draws
  let crowded := s.inProgress.any fun t => !roomFor (s.world.demand t) node
  { s with
    world := s.world.modifyNode e fun _ => node
    crowded := Function.update s.crowded e crowded }

end State

def callerStep (k : Nat) (s : State) : CallerPc → Option (State × CallerPc)
  | .idle => none
  | .find e => if s.loop.holdsNodes then none else some (s, .check e)
  | .check e => some (s, if (s.world.node e).hasTasksInQueue then .dequeue e else .idle)
  | .dequeue e =>
      some (s.modifyWorld (World.modifyNode e fun node => node.dequeueTask.2),
        match (s.world.node e).dequeueTask.1 with
        | none => .check e
        | some t => .mark e t)
  | .mark e t =>
      some (s.modifyWorld (World.modifyTask t (Task.setStatus .reallocated)), .detach e t)
  | .detach e t =>
      some (s.modifyWorld (World.modifyTask t (Task.setAssignedEdgeId "")),
        .allocating t (some e) .lock)
  | .allocating _ none (.returned result) =>
      some ({ s with counters := s.counters.allocation result.success }, .idle)
  | .allocating _ (some e) (.returned result) =>
      some ({ s with
        counters := (s.counters.allocation result.success).reallocation result.success },
        .check e)
  | .allocating t failed pc =>
      (s.allocStep (.monitor k) t pc).map fun (s, pc) => (s, .allocating t failed pc)

def loopStep (draws : EdgeNode.Draws) (s : State) : LoopPc → Option (State × LoopPc)
  | .notRunning => none
  | .head => some (s, if s.isRunning then .checkQueue else .notRunning)
  | .checkQueue => some (s, if s.manager.hasTasksInQueue then .dequeue else .update)
  | .dequeue =>
      some ({ s with manager := s.manager.dequeueTask.2 },
        match s.manager.dequeueTask.1 with
        | none => .update
        | some t => .allocating t .lock)
  | .allocating _ (.returned result) =>
      some ({ s with counters := s.counters.allocation result.success }, .update)
  | .allocating t pc =>
      (s.allocStep .producer t pc).map fun (s, pc) => (s, .allocating t pc)
  | .update => some (s, .fluctuating s.world.fleet.ids)
  | .fluctuating [] => some (s, .head)
  | .fluctuating (e :: todo) =>
      some (if (s.world.node e).isAvailable then s.fluctuate draws e else s, .fluctuating todo)

def fail (k : Nat) (e : EdgeId) (s : State) : State :=
  if e ∈ s.world.fleet.ids then
    { s.modifyWorld (World.modifyNode e (EdgeNode.setAvailable false)) with
      counters := s.counters.failure
      callers := Function.update s.callers k (.find e) }
  else s

def recover (e : EdgeId) (s : State) : State :=
  if e ∈ s.world.fleet.ids then
    { s.modifyWorld (World.modifyNode e (EdgeNode.setAvailable true)) with
      counters := s.counters.recovery }
  else s

def step (s : State) : Label → Option State
  | .create now =>
      some { s with
        world := constructTask now s.world
        manager := { s.manager with
          totalTasksCreated := s.manager.totalTasksCreated + 1 }.enqueueTask
            (some s.world.taskCounter) }
  | .allocate k t =>
      match s.callers k with
      | .idle =>
          let pc := CallerPc.allocating t none .lock
          some { s with callers := Function.update s.callers k pc }
      | _ => none
  | .fail k e =>
      match s.callers k with
      | .idle => if s.loop.holdsNodes then none else some (fail k e s)
      | _ => none
  | .caller k =>
      (callerStep k s (s.callers k)).map fun (s', pc) =>
        { s' with callers := Function.update s'.callers k pc }
  | .recover e => if s.loop.holdsNodes then none else some (recover e s)
  | .start =>
      match s.loop with
      | .notRunning => some { s with isRunning := true, loop := .head }
      | _ => if s.isRunning then some s else none
  | .stop => some { s with isRunning := false }
  | .loop draws =>
      (loopStep draws s s.loop).map fun (s', pc) => { s' with loop := pc }

/-- Nodes and tasks of any kind, and no call in progress. -/
structure Initial (s : State) : Prop where
  strategyMutex : s.world.allocator.strategyMutex = none
  callers : ∀ k, s.callers k = .idle
  loop : s.loop = .notRunning

def machine : Machine State Label := ⟨Initial, step⟩

def inside : AllocPc → Bool
  | .lock | .returned _ => false
  | _ => true

structure Room where
  demand : TaskRef → Amounts
  node : EdgeId → EdgeNode
  crowded : EdgeId → Bool

def State.room (s : State) : Room := ⟨s.world.demand, s.world.node, s.crowded⟩

/-- While it has the mutex a call knows of each candidate that it has room, unless
a fluctuation has crowded it. -/
def promise : Option (TaskRef × AllocPc) → Option (Room → Prop)
  | none => none
  | some (t, pc) =>
      if inside pc then some fun room => ∀ e ∈ pc.candidates,
        room.crowded e = !roomFor (room.demand t) (room.node e)
      else none

def State.monitor (s : State) : Monitor Thread Room where
  owner := s.world.allocator.strategyMutex
  data := s.room
  promise := fun thread => promise (s.call thread)

theorem promise_of_inside {t : TaskRef} {pc : AllocPc} (h : inside pc = true) :
    promise (some (t, pc)) = some fun room => ∀ e ∈ pc.candidates,
      room.crowded e = !roomFor (room.demand t) (room.node e) :=
  if_pos h

theorem roomFor_congr {demand : Amounts} {node node' : EdgeNode}
    (husage : node'.currentUsage = node.currentUsage) (hcapacity : node'.capacity = node.capacity) :
    roomFor demand node' = roomFor demand node := by
  rw [roomFor, roomFor, husage, hcapacity]

theorem allocStep_some {me : Thread} {t : TaskRef} {pc pc' : AllocPc} {s s' : State}
    (h : s.allocStep me t pc = some (s', pc')) :
    ∃ w, Doubles.allocStep me t s.world pc = some (w, pc') ∧
      s' = { s with world := w, crowded := s.examined t pc } := by
  obtain ⟨⟨w, next⟩, hstep, hnext⟩ := Option.map_eq_some_iff.mp h
  cases hnext
  exact ⟨w, hstep, rfl⟩

theorem allocStep_monitor {me : Thread} {t : TaskRef} {pc pc' : AllocPc} {s s' : State}
    (h : s.allocStep me t pc = some (s', pc')) :
    Monitor.Step (fun _ => True) me s.world.allocator.strategyMutex s.room
      (promise (some (t, pc))) s'.world.allocator.strategyMutex s'.room
      (promise (some (t, pc'))) := by
  obtain ⟨w, hstep, rfl⟩ := allocStep_some h
  -- A step that changes no node and only drops candidates.
  have hdrop (hpc : inside pc = true) (hpc' : inside pc' = true) (hnode : w = s.world)
      (hexamined : s.examined t pc = s.crowded) (hless : ∀ e ∈ pc'.candidates, e ∈ pc.candidates) :
      Monitor.Step (fun _ => True) me s.world.allocator.strategyMutex s.room
        (promise (some (t, pc))) w.allocator.strategyMutex ⟨w.demand, w.node, s.examined t pc⟩
        (promise (some (t, pc'))) := by
    rw [promise_of_inside hpc, promise_of_inside hpc', hnode, hexamined]
    exact .within _ fun hold e he => hold e (hless e he)
  cases allocStep_move hstep with
  | enter hfree =>
      have hscan : promise (some (t, .scan s.world.fleet.ids [])) = _ := promise_of_inside rfl
      rw [hfree, hscan]
      refine .enter s.room fun _ e he => ?_
      cases he
  | accept e todo viable hfits =>
      refine .within _ fun hold e' he' => ?_
      show s.examined t (.examine e todo viable) e' =
        !roomFor (s.world.demand t) (s.world.node e')
      rw [State.examined, if_pos hfits]
      by_cases heq : e' = e
      · rw [heq, Function.update_self]
      · rw [Function.update_of_ne heq]
        apply hold
        rcases List.mem_append.mp he' with hmem | hlast
        · exact hmem
        · exact absurd (List.mem_singleton.mp hlast) heq
  | reject e todo viable hfull =>
      refine hdrop rfl rfl rfl ?_ fun _ => id
      rw [State.examined, if_neg (by rw [hfull]; exact Bool.false_ne_true)]
  | rotate hmem =>
      refine .within _ fun hold e' he' => ?_
      rw [List.mem_singleton.mp he']
      exact hold _ hmem
  | prefer e todo reads best key key' =>
      refine hdrop rfl rfl rfl rfl fun e' he' => List.mem_append_right _ ?_
      simpa [AllocPc.candidates] using he'
  | keep e todo reads best key =>
      refine hdrop rfl rfl rfl rfl fun e' he' => ?_
      simp only [AllocPc.candidates, List.mem_append, List.mem_cons] at he' ⊢
      exact he'.imp_right Or.inr
  | visit _ _ _ => exact hdrop rfl rfl rfl rfl fun _ => id
  | skip _ _ _ => exact hdrop rfl rfl rfl rfl fun _ => id
  | rank _ _ => exact hdrop rfl rfl rfl rfl fun _ => id
  | read _ _ _ _ _ _ => exact hdrop rfl rfl rfl rfl fun _ => id
  | pick _ _ _ => exact hdrop rfl rfl rfl rfl fun _ => id
  | unlock result => exact .leave _ fun _ => trivial
  | _ =>
      refine .within _ fun _ e he => ?_
      cases he

/-- The usage, the capacities and the requirements stay, and so does what is known
of the candidates. -/
structure SameRoom (s s' : State) : Prop where
  strategyMutex : s'.world.allocator.strategyMutex = s.world.allocator.strategyMutex
  workload : s'.world.workload = s.world.workload
  usage : ∀ e, (s'.world.node e).currentUsage = (s.world.node e).currentUsage
  capacity : ∀ e, (s'.world.node e).capacity = (s.world.node e).capacity
  crowded : s'.crowded = s.crowded

theorem SameRoom.refl (s : State) : SameRoom s s := ⟨rfl, rfl, fun _ => rfl, fun _ => rfl, rfl⟩

theorem SameRoom.of_world {s s' : State} (hallocator : s'.world.allocator = s.world.allocator)
    (hworkload : s'.world.workload = s.world.workload) (hnode : s'.world.node = s.world.node)
    (hcrowded : s'.crowded = s.crowded) : SameRoom s s' :=
  ⟨congrArg _ hallocator, hworkload, fun e => by rw [hnode], fun e => by rw [hnode], hcrowded⟩

theorem SameRoom.modifyNode {s s' : State} {e : EdgeId} {f : EdgeNode → EdgeNode}
    (hworld : s'.world = s.world.modifyNode e f) (hcrowded : s'.crowded = s.crowded)
    (husage : (f (s.world.node e)).currentUsage = (s.world.node e).currentUsage)
    (hcapacity : (f (s.world.node e)).capacity = (s.world.node e).capacity) : SameRoom s s' := by
  have hnode (e' : EdgeId) :
      (s'.world.node e').currentUsage = (s.world.node e').currentUsage ∧
        (s'.world.node e').capacity = (s.world.node e').capacity := by
    rw [hworld]
    by_cases he : e' = e
    · rw [he, World.modifyNode_self]
      exact ⟨husage, hcapacity⟩
    · rw [World.modifyNode_of_ne _ _ he]
      exact ⟨rfl, rfl⟩
  exact ⟨by rw [hworld]; rfl, by rw [hworld]; rfl, fun e => (hnode e).1, fun e => (hnode e).2,
    hcrowded⟩

theorem SameRoom.protects {s s' : State} (h : s.monitor.Protects fun _ => True)
    (hsame : SameRoom s s') (hpromise : ∀ thread, promise (s'.call thread) = promise (s.call thread)) :
    s'.monitor.Protects fun _ => True := by
  refine h.disturb hsame.strategyMutex hpromise (fun thread p _ hp hold => ?_) id
  change promise (s.call thread) = some p at hp
  unfold promise at hp
  split at hp
  · cases hp
  · split_ifs at hp
    cases hp
    intro e he
    have hkeep := hold e he
    show s'.crowded e = !roomFor (s'.world.demand _) (s'.world.node e)
    rw [hsame.crowded, World.demand, hsame.workload,
      roomFor_congr (hsame.usage e) (hsame.capacity e)]
    exact hkeep

/-- A step that is neither one of a call of `allocateTask` nor a fluctuation. -/
structure Quiet (s s' : State) : Prop where
  room : SameRoom s s'
  callers : s'.callers = s.callers
  loop : s'.loop = s.loop

theorem Quiet.refl (s : State) : Quiet s s := ⟨.refl s, rfl, rfl⟩

theorem callerStep_cases {k : Nat} {s s' : State} {pc pc' : CallerPc}
    (h : callerStep k s pc = some (s', pc')) :
    (Quiet s s' ∧ promise pc'.call = promise pc.call) ∨
      ∃ t failed p p', pc = .allocating t failed p ∧ pc' = .allocating t failed p' ∧
        s.allocStep (.monitor k) t p = some (s', p') := by
  unfold callerStep at h
  split at h
  · cases h
  · split_ifs at h
    cases h
    exact Or.inl ⟨.refl s, rfl⟩
  · cases h
    refine Or.inl ⟨.refl s, ?_⟩
    split <;> rfl
  · cases h
    refine Or.inl ⟨⟨.modifyNode (f := fun node => node.dequeueTask.2) rfl rfl
      (EdgeNode.dequeueTask_currentUsage _) (EdgeNode.dequeueTask_capacity _), rfl, rfl⟩, ?_⟩
    split <;> rfl
  · cases h
    exact Or.inl ⟨⟨.of_world rfl rfl rfl rfl, rfl, rfl⟩, rfl⟩
  · cases h
    exact Or.inl ⟨⟨.of_world rfl rfl rfl rfl, rfl, rfl⟩, rfl⟩
  · cases h
    exact Or.inl ⟨⟨.of_world rfl rfl rfl rfl, rfl, rfl⟩, rfl⟩
  · cases h
    exact Or.inl ⟨⟨.of_world rfl rfl rfl rfl, rfl, rfl⟩, rfl⟩
  · obtain ⟨⟨u, p'⟩, hstep, hnext⟩ := Option.map_eq_some_iff.mp h
    cases hnext
    exact Or.inr ⟨_, _, _, p', rfl, rfl, hstep⟩

theorem loopStep_cases {draws : EdgeNode.Draws} {s s' : State} {pc pc' : LoopPc}
    (h : loopStep draws s pc = some (s', pc')) :
    (Quiet s s' ∧ promise pc'.call = promise pc.call) ∨
      (∃ t p p', pc = .allocating t p ∧ pc' = .allocating t p' ∧
        s.allocStep .producer t p = some (s', p')) ∨
      ∃ e todo, pc = .fluctuating (e :: todo) ∧ pc' = .fluctuating todo ∧
        s' = s.fluctuate draws e := by
  unfold loopStep at h
  split at h
  · cases h
  · cases h
    refine Or.inl ⟨.refl s, ?_⟩
    split <;> rfl
  · cases h
    refine Or.inl ⟨.refl s, ?_⟩
    split <;> rfl
  · cases h
    refine Or.inl ⟨⟨.of_world rfl rfl rfl rfl, rfl, rfl⟩, ?_⟩
    split <;> rfl
  · cases h
    exact Or.inl ⟨⟨.of_world rfl rfl rfl rfl, rfl, rfl⟩, rfl⟩
  · obtain ⟨⟨u, p'⟩, hstep, hnext⟩ := Option.map_eq_some_iff.mp h
    cases hnext
    exact Or.inr (Or.inl ⟨_, _, p', rfl, rfl, hstep⟩)
  · cases h
    exact Or.inl ⟨.refl s, rfl⟩
  · cases h
    exact Or.inl ⟨.refl s, rfl⟩
  · cases h
    split
    · exact Or.inr (Or.inr ⟨_, _, rfl, rfl, rfl⟩)
    · exact Or.inl ⟨.refl s, rfl⟩

theorem protects_fluctuate {s : State} (h : s.monitor.Protects fun _ => True)
    (draws : EdgeNode.Draws) (e : EdgeId) :
    (s.fluctuate draws e).monitor.Protects fun _ => True := by
  refine h.disturb rfl (fun _ => rfl) (fun thread p howner hp hold => ?_) id
  change promise (s.call thread) = some p at hp
  cases hcall : s.call thread with
  | none =>
      rw [hcall] at hp
      cases hp
  | some call =>
      obtain ⟨t, pc⟩ := call
      rw [hcall, promise] at hp
      split_ifs at hp
      cases hp
      intro e' he'
      have hinProgress : s.inProgress = some t := by
        change s.world.allocator.strategyMutex = some thread at howner
        rw [State.inProgress, howner, Option.bind_some, hcall]
        rfl
      by_cases heq : e' = e
      · subst heq
        simp [State.monitor, State.room, State.fluctuate, hinProgress, World.demand]
      · have hkeep := hold e' he'
        simpa [State.monitor, State.room, State.fluctuate, heq, World.demand] using hkeep

theorem protects_caller {k : Nat} {s s' : State} {pc : CallerPc}
    (h : s.monitor.Protects fun _ => True) (hstep : callerStep k s (s.callers k) = some (s', pc)) :
    ({ s' with callers := Function.update s'.callers k pc } : State).monitor.Protects
      fun _ => True := by
  obtain ⟨⟨hroom, hcallers, hloop⟩, hpromise⟩ | ⟨t, failed, p, p', hpc, rfl, halloc⟩ :=
    callerStep_cases hstep
  · refine SameRoom.protects h
      ⟨hroom.strategyMutex, hroom.workload, hroom.usage, hroom.capacity, hroom.crowded⟩
      fun thread => ?_
    cases thread with
    | producer => simp only [State.call, hloop]
    | monitor k' =>
        by_cases hk : k' = k
        · simpa only [State.call, hk, Function.update_self] using hpromise
        · simp only [State.call, Function.update_of_ne hk, hcallers]
    | _ => rfl
  · have hmonitor := allocStep_monitor halloc
    obtain ⟨w, -, rfl⟩ := allocStep_some halloc
    refine Monitor.Protects.step h ?_ fun thread (hne : thread ≠ .monitor k) => ?_
    · simp only [State.monitor, State.call, Function.update_self, CallerPc.call, hpc]
      exact hmonitor
    · cases thread with
      | monitor k' =>
          have hk : k' ≠ k := fun heq => hne (by rw [heq])
          simp only [State.monitor, State.call, Function.update_of_ne hk]
      | _ => rfl

theorem protects_loop {draws : EdgeNode.Draws} {s s' : State} {pc : LoopPc}
    (h : s.monitor.Protects fun _ => True) (hstep : loopStep draws s s.loop = some (s', pc)) :
    ({ s' with loop := pc } : State).monitor.Protects fun _ => True := by
  obtain ⟨⟨hroom, hcallers, -⟩, hpromise⟩ | ⟨t, p, p', hpc, rfl, halloc⟩ |
    ⟨e, todo, hpc, rfl, rfl⟩ := loopStep_cases hstep
  · refine SameRoom.protects h
      ⟨hroom.strategyMutex, hroom.workload, hroom.usage, hroom.capacity, hroom.crowded⟩
      fun thread => ?_
    cases thread with
    | producer => exact hpromise
    | monitor k => simp only [State.call, hcallers]
    | _ => rfl
  · have hmonitor := allocStep_monitor halloc
    obtain ⟨w, -, rfl⟩ := allocStep_some halloc
    refine Monitor.Protects.step h ?_ fun thread (hne : thread ≠ .producer) => ?_
    · simp only [State.monitor, State.call, LoopPc.call, hpc]
      exact hmonitor
    · cases thread with
      | producer => exact absurd rfl hne
      | _ => rfl
  · refine SameRoom.protects (protects_fluctuate h draws e)
      ⟨rfl, rfl, fun _ => rfl, fun _ => rfl, rfl⟩ fun thread => ?_
    cases thread with
    | producer => simp only [State.call, State.fluctuate, hpc, LoopPc.call]
    | _ => rfl

theorem protects_begin {s s' : State} {k : Nat} {pc : CallerPc}
    (h : s.monitor.Protects fun _ => True) (hroom : SameRoom s s') (hidle : s.callers k = .idle)
    (hcallers : s'.callers = Function.update s.callers k pc) (hloop : s'.loop = s.loop)
    (hpc : promise pc.call = none) : s'.monitor.Protects fun _ => True := by
  refine hroom.protects h fun thread => ?_
  cases thread with
  | producer => simp only [State.call, hloop]
  | monitor k' =>
      by_cases hk : k' = k
      · simp only [State.call, hcallers, hk, Function.update_self, hidle, hpc]
        rfl
      · simp only [State.call, hcallers, Function.update_of_ne hk]
  | _ => rfl

theorem protects_step {s s' : State} {label : Label} (h : s.monitor.Protects fun _ => True)
    (hstep : step s label = some s') : s'.monitor.Protects fun _ => True := by
  cases label with
  | create now =>
      cases hstep
      exact SameRoom.protects h (.of_world rfl rfl rfl rfl) fun _ => rfl
  | allocate k t =>
      simp only [step] at hstep
      split at hstep
      · cases hstep
        exact protects_begin h (.of_world rfl rfl rfl rfl) ‹_› rfl rfl rfl
      · cases hstep
  | fail k e =>
      simp only [step] at hstep
      split at hstep
      · split_ifs at hstep
        cases hstep
        unfold fail
        split
        · exact protects_begin h (.modifyNode (f := EdgeNode.setAvailable false) rfl rfl rfl rfl)
            ‹_› rfl rfl rfl
        · exact h
      · cases hstep
  | caller k =>
      obtain ⟨⟨u, pc⟩, hcaller, hnext⟩ := Option.map_eq_some_iff.mp hstep
      cases hnext
      exact protects_caller h hcaller
  | recover e =>
      simp only [step] at hstep
      split_ifs at hstep
      cases hstep
      unfold recover
      split
      · exact SameRoom.protects h
          (.modifyNode (f := EdgeNode.setAvailable true) rfl rfl rfl rfl) fun _ => rfl
      · exact h
  | start =>
      simp only [step] at hstep
      split at hstep
      · cases hstep
        refine SameRoom.protects h (.of_world rfl rfl rfl rfl) fun thread => ?_
        cases thread with
        | producer => simp only [State.call, LoopPc.call, ‹s.loop = .notRunning›]
        | _ => rfl
      · split_ifs at hstep
        cases hstep
        exact h
  | stop =>
      cases hstep
      exact SameRoom.protects h (.of_world rfl rfl rfl rfl) fun _ => rfl
  | loop draws =>
      obtain ⟨⟨u, pc⟩, hloop, hnext⟩ := Option.map_eq_some_iff.mp hstep
      cases hnext
      exact protects_loop h hloop

theorem protects_initial {s : State} (h : Initial s) : s.monitor.Protects fun _ => True := by
  refine ⟨fun thread p hp => ?_, fun _ => trivial⟩
  cases thread with
  | producer =>
      simp only [State.monitor, State.call, h.loop] at hp
      cases hp
  | monitor k =>
      simp only [State.monitor, State.call, h.callers k] at hp
      cases hp
  | _ => cases hp

def reserves (s : State) : Label → Option (TaskRef × EdgeId)
  | .caller k =>
      match s.callers k with
      | .allocating t _ (.reserve e _) => some (t, e)
      | _ => none
  | .loop _ =>
      match s.loop with
      | .allocating t (.reserve e _) => some (t, e)
      | _ => none
  | _ => none

def fresh : State where
  world := {
    fleet := singleNode
    workload := fun _ => ⟨amounts (.ofRat 98) (.ofRat 50) one, TaskPriority.high.rank⟩
    node := fun _ => { capacity := ⟨amounts hundred (.ofRat 8192) hundred, 10⟩ }
    allocator := { strategy := .roundRobin } }

theorem fresh_initial : machine.initial fresh where
  strategyMutex := rfl
  callers := fun _ => rfl
  loop := rfl

end EdgeAllocator.Doubles.Contention
