import EdgeAllocator.Reallocation

/-! What failures, and calls made for a task that already has a node, leave behind on
the accounts of the nodes. -/
namespace EdgeAllocator.Controller

open Foundation Scheduler Executor Allocator

def Balanced (w : World) : Prop :=
  ∀ e ∈ w.fleet.ids, (w.node e).currentUsage = w.load (charged w e)

instance (w : World) : Decidable (Balanced w) :=
  inferInstanceAs (Decidable (∀ e ∈ w.fleet.ids, _))

def Steady (s : State) : Label → Prop
  | .process _ => False
  | .allocate t | .schedule t _ => t < s.world.taskCounter
  | _ => True

instance (s : State) : (label : Label) → Decidable (Steady s label)
  | .process _ => instDecidableFalse
  | .allocate t | .schedule t _ => Nat.decLt t s.world.taskCounter
  | .create _ | .construct _ | .complete _ _ | .fail _ | .recover _ => instDecidableTrue

def Uncharged (w : World) (t : TaskRef) : Prop :=
  w.demand t = 0 ∨ ∀ e ∈ w.fleet.ids, charges w e t = false

/-- The node that gives the resources back is the one charged with the task, or has
nothing of them in use. -/
def GivesBack (w : World) (e : EdgeId) (t : TaskRef) : Prop :=
  charges w e t = true ∨
    Uncharged w t ∧ ∀ r, (w.node e).currentUsage r = 0 ∨ w.demand t r = 0

def StrandsNothing (e : EdgeId) : Nat → State → Prop
  | 0, _ => True
  | n + 1, s =>
      match (s.world.node e).dequeueTask.1 with
      | none => True
      | some t => Uncharged s.world t ∧ ∀ s', reallocateTask t { s with
          world := s.world.modifyNode e fun node => node.dequeueTask.2 } = some s' →
            StrandsNothing e n s'

/-- A task is reserved for only while it is uncharged, scheduled anew only while no node
would be charged with it again, and given back where it is charged; and a failing node
strands nothing. -/
def Settles (s : State) : Label → Prop
  | .allocate t => getViableEdges s.world t = [] ∨ Uncharged s.world t
  | .schedule t e => e ∈ s.world.fleet.ids → (s.world.task t).status.finished = true →
      (s.world.task t).assignedEdgeId ∈ s.world.fleet.ids → s.world.demand t = 0
  | .complete e input => ∀ w t, getNextTask e input.clock s.world = some (w, some t) →
      GivesBack s.world e t
  | .fail e => e ∈ s.world.fleet.ids →
      StrandsNothing e (s.world.node e).getQueueLength (markFailed e s)
  | _ => True

/-- Only registered nodes have tasks queued, and only such that exist. -/
structure Tidy (s : State) : Prop where
  solid : ∀ e, none ∉ (s.world.node e).taskQueue
  queued : ∀ e t, some t ∈ (s.world.node e).taskQueue →
    t < s.world.taskCounter ∧ e ∈ s.world.fleet.ids

theorem balanced_iff {w : World} : Balanced w ↔ ∀ e ∈ w.fleet.ids, excess w e = 0 :=
  forall_congr' fun _ => imp_congr_right fun _ => sub_eq_zero.symm

theorem uncharged_iff {w : World} {t : TaskRef} :
    Uncharged w t ↔ ∀ e ∈ w.fleet.ids, share w e t = 0 := by
  constructor
  · rintro (hzero | hfree) e he
    · unfold share
      rw [hzero, ite_self]
    · unfold share
      rw [hfree e he]
      rfl
  · intro hshare
    by_cases hzero : w.demand t = 0
    · exact Or.inl hzero
    · refine Or.inr fun e he => Bool.eq_false_iff.mpr fun hcharges => hzero ?_
      rw [← share_of_charges hcharges]
      exact hshare e he

theorem share_nonneg {w : World} (hdemand : ∀ t, 0 ≤ w.demand t) (e : EdgeId) (t : TaskRef) :
    0 ≤ share w e t := by
  unfold share
  split_ifs
  · exact hdemand t
  · exact le_rfl

/-- Where every account takes over a share, all stay exact if no share is left. -/
theorem balanced_add_share {w w' : World} {t : TaskRef} (hfleet : w'.fleet = w.fleet)
    (hdemand : ∀ t, 0 ≤ w.demand t) (hnonneg : ∀ e ∈ w.fleet.ids, 0 ≤ excess w e)
    (hexcess : ∀ e ∈ w.fleet.ids, excess w' e = excess w e + share w e t) :
    Balanced w' ↔ Balanced w ∧ Uncharged w t := by
  rw [balanced_iff, balanced_iff, uncharged_iff, hfleet, ← forall₂_and]
  refine forall₂_congr fun e he => ?_
  rw [hexcess e he, add_eq_zero_iff_of_nonneg (hnonneg e he) (share_nonneg hdemand e t)]

theorem excess_construct {w : World} (now : Int) {e : EdgeId} (he : e ∈ w.fleet.ids) :
    excess (constructTask now w) e = excess w e := by
  have hnamed : e ≠ "" := by
    rintro rfl
    exact w.fleet.named he
  have hnew : charges (constructTask now w) e w.taskCounter = false := by
    rw [← Bool.not_eq_true, charges_iff]
    rintro ⟨hedge, -⟩
    refine hnamed (hedge.symm.trans ?_)
    simp only [constructTask, World.modifyTask_self]
  have hold : (List.range w.taskCounter).filter (charges (constructTask now w) e) =
      (List.range w.taskCounter).filter (charges w e) := by
    refine List.filter_congr fun t ht => ?_
    unfold charges
    rw [constructTask_of_lt (List.mem_range.mp ht) now]
  have hcharged : charged (constructTask now w) e = charged w e := by
    unfold charged
    rw [show (constructTask now w).taskCounter = w.taskCounter + 1 from rfl, List.range_succ,
      List.filter_append, hold, List.filter_cons_of_neg (by rw [hnew]; decide), List.filter_nil,
      List.append_nil]
  rw [excess, excess, hcharged]
  rfl

theorem balanced_construct {w : World} (h : Balanced w) (now : Int) :
    Balanced (constructTask now w) := by
  refine balanced_iff.mpr fun e he => ?_
  have hregistered : e ∈ w.fleet.ids := he
  rw [excess_construct now hregistered]
  exact balanced_iff.mp h e hregistered

theorem excess_allocate {w w' : World} {t : TaskRef} {result : AllocationResult}
    (h : allocateTask w t = some (w', result)) (ht : t < w.taskCounter) :
    getViableEdges w t = [] ∧ (∀ e, excess w' e = excess w e) ∨
      getViableEdges w t ≠ [] ∧ ∀ e, excess w' e = excess w e + share w e t := by
  obtain ⟨⟨w₁, result₁⟩, hdispatch, hnext⟩ := Option.bind_eq_some_iff.mp h
  cases dispatch_attempt hdispatch with
  | refuse hnone =>
      cases hnext
      have hstable : Stable w ((w.modifyAllocator countRequest).modifyAllocator countFailure) :=
        ⟨rfl, rfl, rfl⟩
      exact Or.inl ⟨hnone, fun e => excess_congr hstable rfl rfl⟩
  | @reserve chosen reason score index hmem =>
      cases hnext
      exact Or.inr ⟨List.ne_nil_of_mem hmem,
        excess_reserve (e := chosen) ⟨rfl, rfl, rfl⟩ ht rfl rfl⟩

theorem balanced_allocate {w w' : World} {t : TaskRef} {result : AllocationResult}
    (h : Balanced w) (hdemand : ∀ t, 0 ≤ w.demand t) (ht : t < w.taskCounter)
    (hallocate : allocateTask w t = some (w', result)) :
    Balanced w' ↔ getViableEdges w t = [] ∨ Uncharged w t := by
  have hzero := balanced_iff.mp h
  have hfleet := (allocateTask_effect hallocate).1.fleet
  obtain ⟨hnone, hexcess⟩ | ⟨hsome, hexcess⟩ := excess_allocate hallocate ht
  · refine iff_of_true (balanced_iff.mpr fun e he => ?_) (Or.inl hnone)
    rw [hexcess e]
    exact hzero e (hfleet ▸ he)
  · rw [balanced_add_share hfleet hdemand (fun e he => (hzero e he).ge) fun e _ => hexcess e]
    simp [h, hsome]

theorem balanced_schedule {w : World} {t : TaskRef} {e : EdgeId} (h : Balanced w)
    (he : e ∈ w.fleet.ids) (ht : t < w.taskCounter) :
    Balanced (scheduleTask e t w) ↔ ((w.task t).status.finished = true →
      (w.task t).assignedEdgeId ∈ w.fleet.ids → w.demand t = 0) := by
  have hstable : Stable w (scheduleTask e t w) := by
    simp only [scheduleTask, getEdgeNode_of_mem he]
    exact ⟨rfl, rfl, rfl⟩
  have htask : (scheduleTask e t w).task = (w.modifyTask t (Task.setStatus .queued)).task := by
    simp only [scheduleTask, getEdgeNode_of_mem he, World.modifyScheduler_task,
      World.modifyNode_task]
  have husage (e' : EdgeId) :
      ((scheduleTask e t w).node e').currentUsage = (w.node e').currentUsage := by
    simp only [scheduleTask, getEdgeNode_of_mem he, World.modifyScheduler_node]
    by_cases heq : e' = e
    · rw [heq, World.modifyNode_self]
      rfl
    · rw [World.modifyNode_of_ne _ _ heq]
      rfl
  have hcharges (e' : EdgeId) : charges (scheduleTask e t w) e' t = true ↔
      (w.task t).assignedEdgeId = e' := by
    rw [charges_iff, htask, World.modifyTask_self]
    exact and_iff_left rfl
  have hexcess (e' : EdgeId) (he' : e' ∈ w.fleet.ids) : excess (scheduleTask e t w) e' =
      share w e' t - share (scheduleTask e t w) e' t := by
    rw [excess_of_task hstable ht (fun t' hne => by rw [htask]; exact Function.update_of_ne hne _ _),
      husage, balanced_iff.mp h e' he']
    abel
  rw [balanced_iff, hstable.fleet]
  constructor
  · intro hbalanced hfinished hassigned
    have hself := (hexcess _ hassigned).symm.trans (hbalanced _ hassigned)
    rw [share_of_charges ((hcharges _).mpr rfl), share_of_not (by simp [hfinished]), zero_sub,
      neg_eq_zero, World.demand, hstable.workload] at hself
    exact hself
  · intro hsettled e' he'
    rw [hexcess e' he']
    by_cases hassigned : (w.task t).assignedEdgeId = e'
    · rw [share_of_charges ((hcharges e').mpr hassigned), World.demand, hstable.workload]
      cases hfinished : (w.task t).status.finished with
      | false =>
          rw [share_of_charges (charges_iff.mpr ⟨hassigned, hfinished⟩)]
          exact sub_self _
      | true =>
          have hzero := hsettled hfinished (hassigned ▸ he')
          rw [share_of_not (by simp [hfinished])]
          exact (zero_sub _).trans (neg_eq_zero.mpr hzero)
    · have hnot := mt (hcharges e').mp hassigned
      rw [share_of_not fun hcharged => hassigned hcharged.1,
        show share (scheduleTask e t w) e' t = 0 from if_neg hnot, sub_self]

theorem demand_le_load {w : World} (hdemand : ∀ t, 0 ≤ w.demand t) {e : EdgeId} {t : TaskRef}
    (ht : t < w.taskCounter) (hcharges : charges w e t = true) :
    w.demand t ≤ w.load (charged w e) := by
  unfold charged
  rw [load_filter_split w _ (List.mem_range.mpr ht), if_pos hcharges]
  exact le_add_of_nonneg_right (World.load_nonneg hdemand _)

theorem balanced_complete {w w' : World} {e : EdgeId} {t : TaskRef} {queue : List TaskPtr}
    (h : Balanced w) (hdemand : ∀ t, 0 ≤ w.demand t) (he : e ∈ w.fleet.ids)
    (ht : t < w.taskCounter) (hcompleted : Completed e t queue w w') :
    Balanced w' ↔ GivesBack w e t := by
  have hnone (e' : EdgeId) : share w' e' t = 0 := share_of_not fun hcharges => by
    rw [hcompleted.finished] at hcharges
    cases hcharges.2
  have hother (e' : EdgeId) (he' : e' ∈ w.fleet.ids) (hne : e' ≠ e) :
      excess w' e' = share w e' t := by
    rw [excess_of_task hcompleted.stable ht hcompleted.otherTasks, hnone,
      hcompleted.otherNodes e' hne, balanced_iff.mp h e' he']
    abel
  have hself : excess w' e =
      (fun r => max 0 ((w.node e).currentUsage r - w.demand t r)) - (w.node e).currentUsage +
        share w e t := by
    rw [excess_of_task hcompleted.stable ht hcompleted.otherTasks, hnone, hcompleted.node,
      balanced_iff.mp h e he, EdgeNode.deallocateResources]
    abel
  have husage : 0 ≤ (w.node e).currentUsage := h e he ▸ World.load_nonneg hdemand _
  have hshares : Balanced w' ↔ excess w' e = 0 ∧ ∀ e' ∈ w.fleet.ids, e' ≠ e →
      share w e' t = 0 := by
    rw [balanced_iff, hcompleted.stable.fleet]
    constructor
    · intro hbalanced
      exact ⟨hbalanced e he, fun e' he' hne => (hother e' he' hne).symm.trans (hbalanced e' he')⟩
    · rintro ⟨hzero, hrest⟩ e' he'
      by_cases hne : e' = e
      · rw [hne]
        exact hzero
      · exact (hother e' he' hne).trans (hrest e' he' hne)
  rw [hshares]
  by_cases hcharges : charges w e t = true
  · have hcovered : w.demand t ≤ (w.node e).currentUsage := by
      rw [h e he]
      exact demand_le_load hdemand ht hcharges
    refine iff_of_true ⟨?_, fun e' _ hne => share_of_not fun hcharged => hne ?_⟩ (Or.inl hcharges)
    · rw [hself, share_of_charges hcharges]
      funext r
      have hr : w.demand t r ≤ (w.node e).currentUsage r := hcovered r
      simp only [Pi.add_apply, Pi.sub_apply, Pi.zero_apply, max_eq_right (sub_nonneg.mpr hr)]
      abel
    · exact hcharged.1.symm.trans (charges_iff.mp hcharges).1
  · have hfree : share w e t = 0 := if_neg hcharges
    have hcut : excess w' e = 0 ↔ ∀ r, (w.node e).currentUsage r = 0 ∨ w.demand t r = 0 := by
      rw [hself, hfree, add_zero, sub_eq_zero, funext_iff]
      refine forall_congr' fun r => ?_
      have hr : 0 ≤ w.demand t r := hdemand t r
      have hused : 0 ≤ (w.node e).currentUsage r := husage r
      rcases max_cases 0 ((w.node e).currentUsage r - w.demand t r) with ⟨hmax, hle⟩ | ⟨hmax, hlt⟩
      · rw [hmax]
        constructor
        · intro hzero
          exact Or.inl hzero.symm
        · rintro (hzero | hzero) <;> linarith
      · rw [hmax]
        constructor
        · intro hzero
          right
          linarith
        · rintro (hzero | hzero) <;> linarith
    rw [hcut, GivesBack, or_iff_right hcharges, uncharged_iff, and_comm]
    refine and_congr_left fun _ => ⟨fun hrest e' he' => ?_, fun hall e' he' _ => hall e' he'⟩
    by_cases hne : e' = e
    · rw [hne]
      exact hfree
    · exact hrest e' he' hne

theorem Tidy.shrink {s s' : State} (h : Tidy s) (hfleet : s'.world.fleet = s.world.fleet)
    (hcounter : s.world.taskCounter ≤ s'.world.taskCounter)
    (hqueue : ∀ e, (s'.world.node e).taskQueue ⊆ (s.world.node e).taskQueue) : Tidy s' where
  solid e hmem := h.solid e (hqueue e hmem)
  queued e t ht := by
    obtain ⟨hbound, he⟩ := h.queued e t (hqueue e ht)
    exact ⟨hbound.trans_le hcounter, hfleet ▸ he⟩

section Loop

variable {s s' : State} {e : EdgeId}

def popped (e : EdgeId) (s : State) : State :=
  { s with world := s.world.modifyNode e fun node => node.dequeueTask.2 }

theorem popped_queue (e e' : EdgeId) (s : State) :
    ((popped e s).world.node e').taskQueue ⊆ (s.world.node e').taskQueue := by
  by_cases he : e' = e
  · rw [he, popped, World.modifyNode_self, EdgeNode.dequeueTask]
    split
    · exact fun _ => id
    · rename_i hqueue
      rw [hqueue]
      exact List.subset_cons_self _ _
  · rw [popped, World.modifyNode_of_ne _ _ he]
    exact fun _ => id

theorem popped_excess (e e' : EdgeId) (s : State) :
    excess (popped e s).world e' = excess s.world e' := by
  have hstable : Stable s.world (popped e s).world := ⟨rfl, rfl, rfl⟩
  refine excess_congr hstable rfl ?_
  by_cases he : e' = e
  · rw [he, popped, World.modifyNode_self, EdgeNode.dequeueTask_currentUsage]
  · rw [popped, World.modifyNode_of_ne _ _ he]

theorem reallocateLoop_succ {n : Nat} (htidy : Tidy s)
    (h : reallocateLoop e (n + 1) s = some s') :
    (s.world.node e).dequeueTask.1 = none ∧ s' = s ∨
      ∃ t u, (s.world.node e).dequeueTask.1 = some t ∧ some t ∈ (s.world.node e).taskQueue ∧
        reallocateTask t (popped e s) = some u ∧ reallocateLoop e n u = some s' := by
  rw [reallocateLoop, EdgeNode.hasTasksInQueue] at h
  cases hqueue : (s.world.node e).taskQueue with
  | nil =>
      rw [hqueue] at h
      cases h
      refine Or.inl ⟨?_, rfl⟩
      rw [EdgeNode.dequeueTask, hqueue]
  | cons task rest =>
      cases task with
      | none => exact absurd (hqueue ▸ List.mem_cons_self) (htidy.solid e)
      | some t =>
          have hfront : (s.world.node e).dequeueTask.1 = some t := by
            rw [EdgeNode.dequeueTask, hqueue]
          rw [hqueue] at h
          simp only [List.isEmpty_cons, Bool.not_false, if_true, hfront] at h
          obtain ⟨u, htask, hloop⟩ := Option.bind_eq_some_iff.mp h
          exact Or.inr ⟨t, u, hfront, List.mem_cons_self, htask, hloop⟩

theorem tidy_reallocate {t : TaskRef} {u : State} (htidy : Tidy s)
    (htask : reallocateTask t (popped e s) = some u) : Tidy u := by
  have hone := reallocateTask_effect htask
  refine htidy.shrink hone.stable.fleet (le_of_eq hone.stable.taskCounter.symm) fun e' => ?_
  rw [hone.queue e']
  exact popped_queue e e' s

theorem reallocateLoop_frame {n : Nat} (htidy : Tidy s) (h : reallocateLoop e n s = some s') :
    Stable s.world s'.world ∧ Tidy s' := by
  induction n generalizing s with
  | zero =>
      cases h
      exact ⟨⟨rfl, rfl, rfl⟩, htidy⟩
  | succ n ih =>
      obtain ⟨-, rfl⟩ | ⟨t, u, -, -, htask, hloop⟩ := reallocateLoop_succ htidy h
      · exact ⟨⟨rfl, rfl, rfl⟩, htidy⟩
      · obtain ⟨hrest, htidy'⟩ := ih (tidy_reallocate htidy htask) hloop
        have hone := (reallocateTask_effect htask).stable
        exact ⟨⟨hrest.fleet.trans hone.fleet, hrest.workload.trans hone.workload,
          hrest.taskCounter.trans hone.taskCounter⟩, htidy'⟩

/-- The loop keeps the accounts exact if every task that it dequeues is uncharged: what
it strands on the way only adds up. -/
theorem balanced_loop {n : Nat} (htidy : Tidy s) (hdemand : ∀ t, 0 ≤ s.world.demand t)
    (hnonneg : ∀ e' ∈ s.world.fleet.ids, 0 ≤ excess s.world e')
    (h : reallocateLoop e n s = some s') :
    Balanced s'.world ↔ Balanced s.world ∧ StrandsNothing e n s := by
  induction n generalizing s with
  | zero =>
      cases h
      exact (and_iff_left trivial).symm
  | succ n ih =>
      obtain ⟨hfront, rfl⟩ | ⟨t, u, hfront, hmem, htask, hloop⟩ := reallocateLoop_succ htidy h
      · rw [StrandsNothing, hfront]
        exact (and_iff_left trivial).symm
      · have hone := reallocateTask_effect htask
        have hexcess (e' : EdgeId) (he' : e' ∈ s.world.fleet.ids) :
            excess u.world e' = excess s.world e' + share s.world e' t := by
          rw [hone.excess (htidy.queued e t hmem).1 e' he', popped_excess]
          rfl
        have hfleet : u.world.fleet = s.world.fleet := hone.stable.fleet
        have hdemand' : ∀ t, 0 ≤ u.world.demand t := fun t => by
          rw [World.demand, hone.stable.workload]
          exact hdemand t
        have hrest := ih (tidy_reallocate htidy htask) hdemand'
          (fun e' he' => by
            have hregistered : e' ∈ s.world.fleet.ids := hfleet ▸ he'
            rw [hexcess e' hregistered]
            exact add_nonneg (hnonneg e' hregistered) (share_nonneg hdemand e' t)) hloop
        rw [hrest, balanced_add_share hfleet hdemand hnonneg hexcess, and_assoc,
          StrandsNothing, hfront]
        refine and_congr_right fun _ => and_congr_right fun _ => ⟨fun hu u' hu' => ?_, fun hall =>
          hall u htask⟩
        cases htask.symm.trans hu'
        exact hu

end Loop

theorem excess_markFailed (e e' : EdgeId) (s : State) :
    excess (markFailed e s).world e' = excess s.world e' := by
  have hstable : Stable s.world (markFailed e s).world := ⟨rfl, rfl, rfl⟩
  refine excess_congr hstable rfl ?_
  by_cases he : e' = e
  · rw [he, markFailed, World.modifyNode_self, EdgeNode.setAvailable_currentUsage]
  · rw [markFailed, World.modifyNode_of_ne _ _ he]

theorem tidy_markFailed {s : State} (h : Tidy s) (e : EdgeId) : Tidy (markFailed e s) := by
  refine h.shrink rfl le_rfl fun e' => ?_
  by_cases he : e' = e
  · rw [he, markFailed, World.modifyNode_self, EdgeNode.setAvailable_taskQueue]
    exact fun _ => id
  · rw [markFailed, World.modifyNode_of_ne _ _ he]
    exact fun _ => id

theorem executeNextTask_cases {s s' : State} {e : EdgeId} {input : WorkerInput} (htidy : Tidy s)
    (h : executeNextTask e input s = some s') :
    s' = s ∧ (∃ w, getNextTask e input.clock s.world = some (w, none)) ∨
      ∃ w t queue, getNextTask e input.clock s.world = some (w, some t) ∧
        (s.world.node e).taskQueue.Perm (some t :: queue) ∧
        Completed e t queue s.world s'.world := by
  obtain ⟨⟨w, task⟩, hnext, hexecute⟩ := Option.map_eq_some_iff.mp h
  obtain ⟨rfl, rfl⟩ | ⟨queue, rfl, hperm⟩ := getNextTask_effect hnext
  · cases hexecute
    exact Or.inl ⟨rfl, _, hnext⟩
  · cases task with
    | none => exact absurd (hperm.mem_iff.mpr List.mem_cons_self) (htidy.solid e)
    | some t =>
        cases hexecute
        exact Or.inr ⟨_, t, queue, hnext, hperm,
          simulateTaskExecution_completed e input t queue s.world⟩

theorem tidy_schedule {s : State} (h : Tidy s) {t : TaskRef} {e : EdgeId}
    (he : e ∈ s.world.fleet.ids) (ht : t < s.world.taskCounter) :
    Tidy { s with world := scheduleTask e t s.world } := by
  have hqueue {e' : EdgeId} {task : TaskPtr}
      (hmem : task ∈ ((scheduleTask e t s.world).node e').taskQueue) :
      task ∈ (s.world.node e').taskQueue ∨ task = some t ∧ e' = e := by
    simp only [scheduleTask, getEdgeNode_of_mem he, World.modifyScheduler_node] at hmem
    by_cases heq : e' = e
    · rw [heq, World.modifyNode_self] at hmem
      rcases List.mem_append.mp hmem with hold | hlast
      · exact Or.inl (heq ▸ hold)
      · exact Or.inr ⟨List.mem_singleton.mp hlast, heq⟩
    · rw [World.modifyNode_of_ne _ _ heq] at hmem
      exact Or.inl hmem
  have hstable : Stable s.world (scheduleTask e t s.world) := by
    simp only [scheduleTask, getEdgeNode_of_mem he]
    exact ⟨rfl, rfl, rfl⟩
  refine ⟨fun e' hmem => ?_, fun e' t' hmem => ?_⟩
  · obtain hold | ⟨hnull, -⟩ := hqueue hmem
    · exact h.solid e' hold
    · cases hnull
  · show t' < (scheduleTask e t s.world).taskCounter ∧ e' ∈ (scheduleTask e t s.world).fleet.ids
    rw [hstable.taskCounter, hstable.fleet]
    obtain hold | ⟨hself, rfl⟩ := hqueue hmem
    · exact h.queued e' t' hold
    · cases hself
      exact ⟨ht, he⟩

/-- What an operation keeps, and when it keeps the accounts exact. -/
structure Operates (s s' : State) (label : Label) : Prop where
  tidy : Tidy s'
  workload : s'.world.workload = s.world.workload
  balanced : (∀ t, 0 ≤ s.world.demand t) → Balanced s.world →
    (Balanced s'.world ↔ Settles s label)

theorem operates_construct {s s' : State} {label : Label} {now : Int} (h : Tidy s)
    (hworld : s'.world = constructTask now s.world) (hsettles : Settles s label) :
    Operates s s' label := by
  have htidy : Tidy s' := by
    refine h.shrink ?_ ?_ fun e => ?_ <;> rw [hworld]
    · rfl
    · exact Nat.le_succ _
    · exact fun _ => id
  refine ⟨htidy, by rw [hworld]; rfl, fun _ hbalanced => iff_of_true ?_ hsettles⟩
  rw [hworld]
  exact balanced_construct hbalanced now

theorem operates_complete {s s' : State} {e : EdgeId} {input : WorkerInput} (h : Tidy s)
    (hstep : executeNextTask e input s = some s') : Operates s s' (.complete e input) := by
  obtain ⟨rfl, w, hnext⟩ | ⟨w, t, queue, hnext, hperm, hcompleted⟩ :=
    executeNextTask_cases h hstep
  · refine ⟨h, rfl, fun _ hbalanced => iff_of_true hbalanced fun w' t hnext' => ?_⟩
    cases hnext.symm.trans hnext'
  · have hmem : some t ∈ (s.world.node e).taskQueue := hperm.mem_iff.mpr List.mem_cons_self
    obtain ⟨ht, he⟩ := h.queued e t hmem
    refine ⟨h.shrink hcompleted.stable.fleet (le_of_eq hcompleted.stable.taskCounter.symm)
      fun e' => ?_, hcompleted.stable.workload, fun hdemand hbalanced => ?_⟩
    · rw [hcompleted.queue e']
      split_ifs with heq
      · rw [heq]
        exact fun task htask => hperm.mem_iff.mpr (List.mem_cons_of_mem _ htask)
      · exact fun _ => id
    · rw [balanced_complete hbalanced hdemand he ht hcompleted]
      constructor
      · intro hback w' t' hnext'
        cases hnext.symm.trans hnext'
        exact hback
      · intro hsettles
        exact hsettles w t hnext

theorem operates_fail {s s' : State} {e : EdgeId} (h : Tidy s)
    (hstep : simulateNodeFailure e s = some s') : Operates s s' (.fail e) := by
  by_cases he : e ∈ s.world.fleet.ids
  · rw [simulateNodeFailure_of_mem he] at hstep
    obtain ⟨hstable, htidy⟩ := reallocateLoop_frame (tidy_markFailed h e) hstep
    refine ⟨htidy, hstable.workload, fun hdemand hbalanced => ?_⟩
    have hzero := balanced_iff.mp hbalanced
    have hmarked : Balanced (markFailed e s).world := balanced_iff.mpr fun e' he' => by
      rw [excess_markFailed]
      exact hzero e' he'
    rw [balanced_loop (tidy_markFailed h e) hdemand
      (fun e' he' => (balanced_iff.mp hmarked e' he').ge) hstep, and_iff_right hmarked]
    exact ⟨fun hloop _ => hloop, fun hsettles => hsettles he⟩
  · rw [simulateNodeFailure, getEdgeNode_of_not he] at hstep
    cases hstep
    exact ⟨h, rfl, fun _ hbalanced => iff_of_true hbalanced fun hmem => absurd hmem he⟩

theorem operates_recover {s s' : State} {e : EdgeId} (h : Tidy s)
    (hstep : recoverNodeFromFailure e s = some s') : Operates s s' (.recover e) := by
  by_cases he : e ∈ s.world.fleet.ids
  · rw [recoverNodeFromFailure, getEdgeNode_of_mem he] at hstep
    cases hstep
    have hnode (e' : EdgeId) : ((markRecovered e s).world.node e').currentUsage =
        (s.world.node e').currentUsage ∧
        ((markRecovered e s).world.node e').taskQueue = (s.world.node e').taskQueue := by
      by_cases heq : e' = e
      · rw [heq, markRecovered, World.modifyNode_self]
        exact ⟨rfl, rfl⟩
      · rw [markRecovered, World.modifyNode_of_ne _ _ heq]
        exact ⟨rfl, rfl⟩
    have hstable : Stable s.world (markRecovered e s).world := ⟨rfl, rfl, rfl⟩
    have htidy : Tidy (markRecovered e s) := h.shrink rfl le_rfl fun e' => by
      rw [(hnode e').2]
      exact fun _ => id
    refine ⟨htidy, rfl, fun _ hbalanced => iff_of_true (balanced_iff.mpr fun e' he' => ?_) trivial⟩
    exact (excess_congr hstable rfl (hnode e').1).trans (balanced_iff.mp hbalanced e' he')
  · rw [recoverNodeFromFailure, getEdgeNode_of_not he] at hstep
    cases hstep
    exact ⟨h, rfl, fun _ hbalanced => iff_of_true hbalanced trivial⟩

theorem operates_step {s s' : State} {label : Label} (h : Tidy s) (hsteady : Steady s label)
    (hstep : step s label = some s') : Operates s s' label := by
  cases label with
  | process draws => exact hsteady.elim
  | create now =>
      cases hstep
      exact operates_construct h rfl trivial
  | construct now =>
      cases hstep
      exact operates_construct h rfl trivial
  | allocate t =>
      obtain ⟨⟨u, result⟩, hnow, rfl⟩ := Option.map_eq_some_iff.mp hstep
      obtain ⟨hallocate, -, -⟩ := allocateTaskNow_some hnow
      obtain ⟨hstable, heffect⟩ := allocateTask_effect hallocate
      refine ⟨h.shrink hstable.fleet (le_of_eq hstable.taskCounter.symm) fun e => ?_,
        hstable.workload, fun hdemand hbalanced =>
          balanced_allocate hbalanced hdemand hsteady hallocate⟩
      rw [(heffect.queue e).1]
      exact fun _ => id
  | schedule t e =>
      cases hstep
      by_cases he : e ∈ s.world.fleet.ids
      · refine ⟨tidy_schedule h he hsteady, ?_, fun _ hbalanced => ?_⟩
        · simp only [scheduleTask, getEdgeNode_of_mem he]
          rfl
        · rw [balanced_schedule hbalanced he hsteady]
          exact ⟨fun hsettled _ => hsettled, fun hsettles => hsettles he⟩
      · have hsame : ({ s with world := scheduleTask e t s.world } : State) = s := by
          rw [scheduleTask, getEdgeNode_of_not he]
        rw [hsame]
        exact ⟨h, rfl, fun _ hbalanced => iff_of_true hbalanced fun hmem => absurd hmem he⟩
  | complete e input => exact operates_complete h hstep
  | fail e => exact operates_fail h hstep
  | recover e => exact operates_recover h hstep

theorem Tidy.initial {s : State} (h : Initial s) : Tidy s := by
  have hqueue (e : EdgeId) : (s.world.node e).taskQueue = [] := by
    obtain ⟨capacity, hnode⟩ := h.node e
    rw [hnode]
  refine ⟨fun e hmem => ?_, fun e t hmem => ?_⟩
  · rw [hqueue e] at hmem
    cases hmem
  · rw [hqueue e] at hmem
    cases hmem

/-- Without background load the accounts stay exact throughout a run exactly if every
operation of the run settles what it touches. -/
theorem balanced_iff_settles {labels : List Label} {s t : State} (hs : machine.initial s)
    (hdemand : ∀ task, 0 ≤ s.world.demand task) (hexec : machine.exec s labels = some t)
    (hsteady : machine.Meets Steady s labels) :
    machine.Along (fun s => Balanced s.world) s labels ↔ machine.Meets Settles s labels := by
  have hinv {u v : State} {label : Label}
      (h : Tidy u ∧ ∀ task, 0 ≤ u.world.demand task) (hlabel : Steady u label)
      (hstep : machine.step u label = some v) : Tidy v ∧ ∀ task, 0 ≤ v.world.demand task := by
    have hnext := operates_step h.1 hlabel hstep
    refine ⟨hnext.tidy, fun task => ?_⟩
    rw [World.demand, hnext.workload]
    exact h.2 task
  have hbalanced {u v : State} {label : Label}
      (h : Tidy u ∧ ∀ task, 0 ≤ u.world.demand task) (hu : Balanced u.world)
      (hlabel : Steady u label) (hstep : machine.step u label = some v) :
      Balanced v.world ↔ Settles u label :=
    (operates_step h.1 hlabel hstep).balanced h.2 hu
  refine Machine.along_iff_meets hinv hbalanced hexec hsteady ⟨Tidy.initial hs, hdemand⟩
    fun e _ => ?_
  obtain ⟨capacity, hnode⟩ := hs.node e
  rw [hnode, charged, hs.taskCounter]
  rfl

theorem balanced_iff_settles_handedOver :
    let labels := handOver ++ [.complete "E01" {}, .fail "E01", .recover "E01"]
    machine.Along (fun s => Balanced s.world) bootPair labels ↔
      machine.Meets Settles bootPair labels :=
  balanced_iff_settles bootPair_initial
    (fun _ => TaskProfile.demand_nonneg TaskProfile.ultrasonic List.mem_cons_self)
    (Machine.exec_final (by decide +kernel)) (Machine.meets_of_checks (by decide +kernel))

/-- The task moves to the second node, and after the recovery the first one still
holds the reservation for it. -/
theorem failure_leaks_reservation :
    ¬ ∀ s labels t, machine.initial s → (∀ task, 0 ≤ s.world.demand task) →
      machine.exec s labels = some t → machine.Meets Steady s labels →
        machine.Along (fun s => Balanced s.world) s labels := by
  intro h
  have hexec : machine.exec bootPair (handOver ++ [.fail "E01", .recover "E01"]) = some _ :=
    Machine.exec_final (by decide +kernel)
  have hbalanced := (h _ _ _ bootPair_initial
    (fun _ => TaskProfile.demand_nonneg TaskProfile.ultrasonic List.mem_cons_self) hexec
    (Machine.meets_of_checks (by decide +kernel))).last hexec
  exact absurd hbalanced (by decide +kernel)

end EdgeAllocator.Controller
