import EdgeAllocator.Capacity
import EdgeAllocator.Configuration
import EdgeAllocator.Discipline
import EdgeAllocator.Ownership

/-! In which order the tasks of an edge are begun while threads interleave. The
scheduler's mutex keeps `scheduleTask` away from a queue that `getNextTask` has in
its scratch buffer. -/
namespace EdgeAllocator.Scheduler

def FetchPc.ahead : FetchPc → List TaskRef
  | .drainCheck scratch | .drainPop scratch | .choose scratch => scratch.reduceOption
  | .restore selected _ | .unlock selected | .returned selected => selected.toList
  | .lock | .checkQueue | .popFront => []

def FetchPc.behind : FetchPc → List TaskRef
  | .restore _ rest => rest.reduceOption
  | _ => []

end EdgeAllocator.Scheduler

namespace EdgeAllocator.Executor

open Scheduler

def WorkerPc.ahead : WorkerPc → List TaskRef
  | .fetching pc => pc.ahead
  | .executing t .begin => [t]
  | _ => []

def WorkerPc.behind : WorkerPc → List TaskRef
  | .fetching pc => pc.behind
  | _ => []

theorem WorkerPc.behind_outside {pc : WorkerPc} (h : pc.schedulingLocked = false) :
    pc.behind = [] := by
  cases pc with
  | fetching pc =>
      cases pc with
      | restore selected rest => cases h
      | _ => rfl
  | _ => rfl

end EdgeAllocator.Executor

namespace EdgeAllocator.Pipeline

open Foundation Scheduler Executor Allocation

/-- The tasks granted on the edge that are still to begin, in the order in which
they were granted as long as the policy keeps it. -/
def State.waiting (s : State) (e : EdgeId) : List TaskRef :=
  (s.workers e).ahead ++ (s.world.node e).queued ++ (s.workers e).behind ++ s.producer.held e

/-- The policy takes tasks of the class in the order in which it finds them. -/
def Unbiased (w : World) (among : TaskRef → Bool) : SchedulingStrategy → Prop
  | .fifo | .roundRobinTimeSlice => True
  | .priorityBased => ∀ t u, among t = true → among u = true →
      (w.workload t).priority.rank = (w.workload u).priority.rank
  | .earliestDeadlineFirst => False

def Label.policy : Label → Option SchedulingStrategy
  | .setScheduling strategy => some strategy
  | _ => none

/-- No policy is put in force but one that treats the class so. -/
def StaysUnbiased (among : TaskRef → Bool) (s : State) (label : Label) : Prop :=
  ∀ strategy ∈ label.policy, Unbiased s.world among strategy

theorem Unbiased.congr {w w' : World} {among : TaskRef → Bool} {strategy : SchedulingStrategy}
    (h : Unbiased w among strategy) (hworkload : w'.workload = w.workload) :
    Unbiased w' among strategy := by
  cases strategy with
  | priorityBased =>
      intro t u ht hu
      rw [hworkload]
      exact h t u ht hu
  | _ => exact h

theorem select_unbiased {w : World} {clock : ComparisonClock} {among : TaskRef → Bool}
    {tasks : List TaskRef} {i : Nat} (hunbiased : Unbiased w among w.scheduler.strategy)
    (hselect : select w clock (tasks.map some) = some i) :
    ∃ before t after, tasks = before ++ t :: after ∧ i = before.length ∧
      (among t = true → ∀ u ∈ before, among u = false) := by
  have hne : tasks ≠ [] := by
    rintro rfl
    cases select_lt hselect
  have hfront (hi : (if tasks.map some = [] then none else some 0) = some i) :
      ∃ before t after, tasks = before ++ t :: after ∧ i = before.length ∧
        (among t = true → ∀ u ∈ before, among u = false) := by
    obtain ⟨head, rest, rfl⟩ := List.exists_cons_of_ne_nil hne
    rw [List.map_cons, if_neg (List.cons_ne_nil _ _)] at hi
    exact ⟨[], head, rest, rfl, (Option.some.inj hi).symm, fun _ u hu => (by cases hu)⟩
  unfold select at hselect
  cases hstrategy : w.scheduler.strategy with
  | fifo =>
      rw [hstrategy] at hselect
      exact hfront hselect
  | roundRobinTimeSlice =>
      rw [hstrategy] at hselect
      exact hfront hselect
  | earliestDeadlineFirst =>
      rw [hstrategy] at hunbiased
      exact hunbiased.elim
  | priorityBased =>
      rw [hstrategy] at hselect hunbiased
      have hcompare : ∀ i, ∀ a ∈ tasks.map some, ∀ b ∈ tasks.map some,
          priorityLess w i a b = some (decide
            ((fun u : TaskPtr => u.elim 0 fun u => (w.workload u).priority.rank) a <
              (fun u : TaskPtr => u.elim 0 fun u => (w.workload u).priority.rank) b)) := by
        intro i a ha b hb
        obtain ⟨a, -, rfl⟩ := List.mem_map.mp ha
        obtain ⟨b, -, rfl⟩ := List.mem_map.mp hb
        rfl
      obtain ⟨before, x, after, hsplit, hmax, hleads⟩ :=
        maxElement_leads (by simpa using hne) hcompare
      obtain ⟨left, right, hparts, rfl, hright⟩ := List.map_eq_append_iff.mp hsplit
      obtain ⟨t, rest, rfl, rfl, rfl⟩ := List.map_eq_cons_iff.mp hright
      cases hselect.symm.trans hmax
      refine ⟨left, t, rest, hparts, by simp, fun ht u hu => ?_⟩
      rw [Bool.eq_false_iff]
      intro hamong
      have hlt := hleads.before (some u) (List.mem_map_of_mem hu)
      exact absurd (hunbiased u t hamong ht) (ne_of_lt hlt)

section Fetch

variable {among : TaskRef → Bool}

theorem filter_select {before after : List TaskRef} {t : TaskRef}
    (h : among t = true → ∀ u ∈ before, among u = false) :
    (t :: (before ++ after)).filter among = (before ++ t :: after).filter among := by
  cases ht : among t with
  | false => simp [ht]
  | true =>
      have hnone : before.filter among = [] :=
        List.filter_eq_nil_iff.mpr fun u hu => by simp [h ht u hu]
      simp [ht, hnone]

theorem eq_map_of_not_mem {scratch : List TaskPtr} (h : none ∉ scratch) :
    scratch = scratch.reduceOption.map some := by
  induction scratch with
  | nil => rfl
  | cons task rest ih =>
      cases task with
      | none => exact absurd List.mem_cons_self h
      | some t =>
          rw [List.reduceOption_cons_of_some, List.map_cons,
            ← ih fun hmem => h (List.mem_cons_of_mem _ hmem)]

theorem fetchStep_order {me : Thread} {e : EdgeId} {clock : ComparisonClock} {w w' : World}
    {pc pc' : FetchPc} (h : fetchStep me e clock w pc = some (w', pc'))
    (hunbiased : Unbiased w among w.scheduler.strategy)
    (hsolid : SolidFetch (w.node e).taskQueue pc)
    (hempty : ∀ scratch, pc = .choose scratch → (w.node e).taskQueue = []) :
    (pc'.ahead ++ (w'.node e).queued ++ pc'.behind).filter among =
      (pc.ahead ++ (w.node e).queued ++ pc.behind).filter among := by
  have hfront : (w.node e).dequeueTask.1.toList ++ (w.node e).dequeueTask.2.queued =
      (w.node e).queued := (EdgeNode.queued_dequeueTask _).symm
  cases pc with
  | lock =>
      simp only [fetchStep] at h
      split_ifs at h
      cases h
      rfl
  | checkQueue =>
      simp only [fetchStep] at h
      split_ifs at h <;> cases h <;> simp [FetchPc.ahead, FetchPc.behind]
  | popFront =>
      cases h
      simp only [FetchPc.ahead, FetchPc.behind, World.modifyNode_self, hfront, List.nil_append]
  | drainCheck scratch =>
      simp only [fetchStep] at h
      split_ifs at h with hmore hnone <;> cases h
      · rfl
      · rw [hnone]
        rfl
      · rfl
  | drainPop scratch =>
      cases h
      have hone : [(w.node e).dequeueTask.1].reduceOption = (w.node e).dequeueTask.1.toList := by
        cases (w.node e).dequeueTask.1 <;> rfl
      simp only [FetchPc.ahead, FetchPc.behind, World.modifyNode_self, List.reduceOption_append,
        hone, List.append_assoc]
      rw [← List.append_assoc (_ : Option TaskRef).toList, hfront]
  | choose scratch =>
      obtain ⟨i, hi, hnext⟩ := Option.map_eq_some_iff.mp h
      cases hnext
      have hscratch := eq_map_of_not_mem hsolid
      rw [hscratch] at hi
      obtain ⟨before, t, after, hsplit, rfl, hclass⟩ := select_unbiased hunbiased hi
      rw [hscratch, hsplit]
      have herase : ((before ++ t :: after).map some).eraseIdx before.length =
          (before ++ after).map some := by
        rw [List.map_append, List.eraseIdx_append_of_length_le (by simp)]
        simp
      have hqueue : (w.node e).queued = [] := by
        rw [EdgeNode.queued, hempty scratch rfl]
        rfl
      have hreduce (tasks : List TaskRef) : (tasks.map some).reduceOption = tasks := by
        simp [List.reduceOption]
      simp only [FetchPc.ahead, FetchPc.behind, herase, hqueue, hreduce, List.append_nil]
      simpa using filter_select hclass
  | restore selected rest =>
      cases rest with
      | nil =>
          cases h
          simp [FetchPc.ahead, FetchPc.behind]
      | cons task rest =>
          cases h
          cases task <;> simp [FetchPc.ahead, FetchPc.behind]
  | unlock selected =>
      cases h
      rfl
  | returned selected => cases h

theorem workerStep_order {e : EdgeId} {input : WorkerInput} {w w' : World} {pc pc' : WorkerPc}
    (h : workerStep e input w pc = some (w', pc'))
    (hunbiased : Unbiased w among w.scheduler.strategy)
    (hsolid : ∀ fetch, pc = .fetching fetch → SolidFetch (w.node e).taskQueue fetch)
    (hempty : ∀ scratch, pc = .fetching (.choose scratch) → (w.node e).taskQueue = []) :
    (pc.begins ++ (pc'.ahead ++ (w'.node e).queued ++ pc'.behind)).filter among =
      (pc.ahead ++ (w.node e).queued ++ pc.behind).filter among := by
  cases workerStep_move h with
  | fetch hfetch =>
      exact fetchStep_order hfetch hunbiased (hsolid _ rfl) fun scratch hpc =>
        hempty scratch (by rw [hpc])
  | @exec t stage hstage =>
      rw [execStep_queued]
      cases stage with
      | begin => rfl
      | returned => exact absurd rfl hstage
      | _ => rfl
  | _ => rfl

theorem workerStep_ends {e : EdgeId} {input : WorkerInput} {w w' : World} {pc pc' : WorkerPc}
    (h : workerStep e input w pc = some (w', pc')) : pc.finishes = [] ∨ pc'.begun = [] := by
  cases workerStep_move h with
  | exec t hstage => exact Or.inl (finishes_executing hstage)
  | finish t => exact Or.inr rfl
  | _ => exact Or.inl rfl

theorem fetchStep_emptied {me : Thread} {e : EdgeId} {clock : ComparisonClock} {w w' : World}
    {pc : FetchPc} {scratch : List TaskPtr}
    (h : fetchStep me e clock w pc = some (w', .choose scratch)) :
    (w'.node e).taskQueue = [] := by
  cases pc with
  | drainCheck scratch =>
      simp only [fetchStep] at h
      split_ifs at h with hmore hnone <;> cases h
      exact (EdgeNode.hasTasksInQueue_eq_false _).mp (Bool.eq_false_iff.mpr hmore)
  | lock =>
      simp only [fetchStep] at h
      split_ifs at h
      cases h
  | checkQueue =>
      simp only [fetchStep] at h
      split_ifs at h <;> cases h
  | choose scratch =>
      obtain ⟨i, -, hnext⟩ := Option.map_eq_some_iff.mp h
      cases hnext
  | restore selected rest => cases rest <;> cases h
  | _ => cases h

end Fetch

/-- Of each edge's granted tasks of the class those that have begun come first, and
the executions that have ended are the first of those. -/
structure InOrder (among : TaskRef → Bool) (s : State) : Prop where
  unbiased : Unbiased s.world among s.world.scheduler.strategy
  emptied : ∀ e scratch, s.workers e = .fetching (.choose scratch) →
    (s.world.node e).taskQueue = []
  granted : ∀ e, (tasksOn e s.log.granted).filter among =
    (tasksOn e s.log.begun ++ s.waiting e).filter among
  finished : ∀ e, tasksOn e s.log.begun = tasksOn e s.log.finished ++ (s.workers e).begun

section Step

variable {among : TaskRef → Bool} {s s' : State}

theorem InOrder.of_eq (h : InOrder among s)
    (hunbiased : Unbiased s'.world among s'.world.scheduler.strategy)
    (hlog : s'.log = s.log) (hworkers : s'.workers = s.workers)
    (hqueue : ∀ e, (s'.world.node e).taskQueue = (s.world.node e).taskQueue)
    (hproducer : ∀ e, s'.producer.held e = s.producer.held e) : InOrder among s' := by
  refine ⟨hunbiased, fun e scratch hpc => ?_, fun e => ?_, fun e => ?_⟩
  · rw [hqueue]
    exact h.emptied e scratch (hworkers ▸ hpc)
  · have hwaiting : s'.waiting e = s.waiting e := by
      simp only [State.waiting, EdgeNode.queued, hworkers, hqueue, hproducer]
    rw [hlog, hwaiting]
    exact h.granted e
  · rw [hlog, hworkers]
    exact h.finished e

theorem InOrder.of_workers (h : InOrder among s) {workers : EdgeId → WorkerPc}
    {control : ControlPc}
    (hworkers : ∀ e, workers e = s.workers e ∨
      (s.workers e = .loopHead ∨ s.workers e = .exited ∨ s.workers e = .notStarted) ∧
        (workers e = .loopHead ∨ workers e = .exited ∨ workers e = .notStarted)) :
    InOrder among { s with workers := workers, control := control } := by
  have hsame (e : EdgeId) : (workers e).ahead = (s.workers e).ahead ∧
      (workers e).behind = (s.workers e).behind ∧ (workers e).begun = (s.workers e).begun := by
    obtain heq | ⟨hbefore, hafter⟩ := hworkers e
    · rw [heq]
      exact ⟨rfl, rfl, rfl⟩
    · obtain hpc | hpc | hpc := hbefore <;> obtain hpc' | hpc' | hpc' := hafter <;>
        rw [hpc, hpc'] <;> exact ⟨rfl, rfl, rfl⟩
  refine ⟨h.unbiased, fun e scratch hchoose => ?_, fun e => ?_, fun e => ?_⟩
  · change workers e = _ at hchoose
    obtain heq | ⟨-, hafter⟩ := hworkers e
    · exact h.emptied e scratch (heq.symm.trans hchoose)
    · rw [hchoose] at hafter
      obtain hpc | hpc | hpc := hafter <;> cases hpc
  · obtain ⟨hahead, hbehind, -⟩ := hsame e
    rw [State.waiting, hahead, hbehind]
    exact h.granted e
  · show _ = _ ++ (workers e).begun
    rw [(hsame e).2.2]
    exact h.finished e

theorem InOrder.grant (h : InOrder among s) {call : AllocCall} {n : Nat} {e : EdgeId} {score : ℚ}
    (hpc : s.producer = .allocating call (.reserve n e score)) :
    InOrder among { s with
      world := s.world.modifyNode e (EdgeNode.allocateResources (s.world.demand call.task))
      producer := .allocating call (.assign e score)
      log := s.log.grant call.task [e] } := by
  have hqueue (e' : EdgeId) :
      ((s.world.modifyNode e (EdgeNode.allocateResources (s.world.demand call.task))).node
        e').taskQueue = (s.world.node e').taskQueue := by
    by_cases he : e' = e
    · rw [he, World.modifyNode_self]
      rfl
    · rw [World.modifyNode_of_ne _ _ he]
  refine ⟨h.unbiased, fun e' scratch hchoose => ?_, fun e' => ?_, h.finished⟩
  · rw [hqueue]
    exact h.emptied e' scratch hchoose
  · have hold := h.granted e'
    simp only [State.waiting, EdgeNode.queued, hpc, ProducerPc.held, AllocPc.granted, reduceCtorEq,
      if_false, List.append_nil] at hold
    simp only [State.waiting, EdgeNode.queued, hqueue, ProducerPc.held, AllocPc.granted,
      granted_grant, tasksOn_append, List.map_cons, List.map_nil, tasksOn_singleton,
      Option.some.injEq, ← List.append_assoc]
    rw [List.filter_append, hold, ← List.filter_append]
    simp only [Log.grant, List.append_assoc]

theorem InOrder.schedule (h : InOrder among s) (howned : Owned s) {t : TaskRef} {e : EdgeId}
    {pc pc' : SchedulePc} {w : World} (hpc : s.producer = .scheduling t e pc)
    (he : e ∈ s.world.fleet.ids)
    (hstep : scheduleStep .producer e t s.world pc = some (w, pc')) :
    InOrder among { s with world := w, producer := .scheduling t e pc' } := by
  have hunbiased : Unbiased w among w.scheduler.strategy := by
    rw [(scheduleStep_strategies hstep).2]
    exact h.unbiased.congr (scheduleStep_frame hstep).workload
  cases pc with
  | lock =>
      simp only [scheduleStep, World.getEdgeNode, he, if_true, Option.isSome_some] at hstep
      split_ifs at hstep
      cases hstep
      refine h.of_eq hunbiased rfl rfl (fun _ => rfl) fun e' => ?_
      rw [hpc]
      rfl
  | markQueued =>
      cases hstep
      refine h.of_eq hunbiased rfl rfl (fun _ => rfl) fun e' => ?_
      rw [hpc]
      rfl
  | enqueue =>
      cases hstep
      have hinside : s.scheduling .producer = true := by
        rw [State.scheduling, hpc]
        rfl
      have hother : Thread.worker e ≠ .producer := by simp
      have houtside : (s.workers e).schedulingLocked = false :=
        howned.scheduling.outside hinside hother
      refine ⟨hunbiased, fun e' scratch hchoose => ?_, fun e' => ?_, h.finished⟩
      · by_cases heq : e' = e
        · rw [heq] at hchoose
          rw [show s.workers e = _ from hchoose] at houtside
          cases houtside
        · rw [World.modifyScheduler_node, World.modifyNode_of_ne _ _ heq]
          exact h.emptied e' scratch hchoose
      · rw [h.granted e']
        simp only [State.waiting, hpc, ProducerPc.held, SchedulePc.held]
        by_cases heq : e' = e
        · rw [heq, World.modifyScheduler_node, World.modifyNode_self,
            EdgeNode.queued_enqueueTask, WorkerPc.behind_outside houtside]
          simp
        · rw [World.modifyScheduler_node, World.modifyNode_of_ne _ _ heq]
          simp [Ne.symm heq]
  | unlock =>
      cases hstep
      refine h.of_eq hunbiased rfl rfl (fun _ => rfl) fun e' => ?_
      rw [hpc]
      rfl
  | returned => cases hstep

theorem InOrder.work (h : InOrder among s) (hsolid : Solid s) {e : EdgeId} {input : WorkerInput}
    {w : World} {pc' : WorkerPc}
    (hstep : workerStep e input s.world (s.workers e) = some (w, pc')) :
    InOrder among { s with
      world := w
      workers := Function.update s.workers e pc'
      log := s.log.work e (s.workers e) } := by
  have hunbiased : Unbiased w among w.scheduler.strategy := by
    rw [workerStep_schedulingStrategy hstep]
    exact h.unbiased.congr (workerStep_frame hstep).workload
  refine ⟨hunbiased, fun e' scratch hchoose => ?_, fun e' => ?_, fun e' => ?_⟩
  · change Function.update s.workers e pc' e' = _ at hchoose
    by_cases he : e' = e
    · rw [he, Function.update_self] at hchoose
      rw [hchoose] at hstep
      show (w.node e').taskQueue = []
      rw [he]
      generalize s.workers e = start at hstep
      cases workerStep_move hstep with
      | fetch hfetch => exact fetchStep_emptied hfetch
    · rw [Function.update_of_ne he] at hchoose
      show (w.node e').taskQueue = []
      rw [workerStep_node_of_ne hstep he]
      exact h.emptied e' scratch hchoose
  · have hold := h.granted e'
    by_cases he : e' = e
    · subst he
      have horder := workerStep_order hstep h.unbiased (fun fetch => hsolid.fetch e' fetch)
        fun scratch => h.emptied e' scratch
      simp only [State.waiting, Log.work, Function.update_self, tasksOn_append, tasksOn_map_self,
        List.filter_append, List.append_assoc] at hold horder ⊢
      have hlast := congrArg (· ++ (s.producer.held e').filter among) horder
      simp only [List.append_assoc] at hlast
      rw [hold, hlast]
    · simp only [State.waiting, Log.work, Function.update_of_ne he, tasksOn_append,
        tasksOn_map_of_ne (Ne.symm he), List.append_nil, workerStep_node_of_ne hstep he] at hold ⊢
      exact hold
  · have hold := h.finished e'
    by_cases he : e' = e
    · subst he
      simp only [Log.work, Function.update_self, tasksOn_append, tasksOn_map_self]
      rw [hold, List.append_assoc, List.append_assoc, ← workerStep_begun hstep]
      obtain hnone | hnone := workerStep_ends hstep <;> rw [hnone] <;> simp
    · simp only [Log.work, Function.update_of_ne he, tasksOn_append,
        tasksOn_map_of_ne (Ne.symm he), List.append_nil]
      exact hold

theorem InOrder.step {label : Label} (h : InOrder among s) (hsound : Sound s) (hsolid : Solid s)
    (howned : Owned s) (hstays : StaysUnbiased among s label)
    (hmove : Move s label s') : InOrder among s' := by
  cases hmove with
  | produce kind now hidle =>
      exact h.of_eq h.unbiased rfl rfl (fun _ => rfl) fun e => by rw [hidle]; rfl
  | @alloc draws call pc pc' w hpc hstep =>
      have hunbiased : Unbiased w among w.scheduler.strategy := by
        rw [allocStep_scheduler hstep]
        exact h.unbiased.congr (allocStep_frame hstep).workload
      obtain ⟨hnode, hkeep, hgrants⟩ | ⟨n, e, score, rfl, rfl, rfl⟩ := allocStep_node hstep
      · rw [hgrants, grant_nil]
        refine h.of_eq hunbiased rfl rfl (fun e => congrArg (fun node => (node e).taskQueue) hnode)
          fun e => ?_
        rw [hpc, ProducerPc.held, ProducerPc.held, hkeep]
      · exact h.grant hpc
  | @allocated draws call result hpc hsuccess =>
      refine h.of_eq h.unbiased rfl rfl (fun _ => rfl) fun e => ?_
      rw [hpc]
      simp [ProducerPc.held, AllocPc.granted, SchedulePc.held, hsuccess]
  | @refused draws call result hpc hfailure =>
      refine h.of_eq h.unbiased rfl rfl (fun _ => rfl) fun e => ?_
      rw [hpc]
      simp [ProducerPc.held, AllocPc.granted, hfailure]
  | schedule draws hpc hstep =>
      exact h.schedule howned hpc
        (hsound.edges _ (by rw [hpc]; exact List.mem_singleton_self _)) hstep
  | scheduled draws hpc =>
      refine h.of_eq h.unbiased rfl rfl (fun _ => rfl) fun e => ?_
      rw [hpc]
      simp [ProducerPc.held, SchedulePc.held]
  | fluctuate hidle =>
      exact h.of_eq h.unbiased rfl rfl (fun _ => rfl) fun e => by rw [hidle]; rfl
  | @draw draws e todo hpc =>
      refine h.of_eq h.unbiased rfl rfl (fun e' => ?_) fun e' => by rw [hpc]; rfl
      by_cases he : e' = e
      · rw [he, World.modifyNode_self]
        rfl
      · rw [World.modifyNode_of_ne _ _ he]
  | passOver draws hpc =>
      exact h.of_eq h.unbiased rfl rfl (fun _ => rfl) fun e => by rw [hpc]; rfl
  | fluctuated draws hpc =>
      exact h.of_eq h.unbiased rfl rfl (fun _ => rfl) fun e => by rw [hpc]; rfl
  | work e input hstep => exact h.work hsolid hstep
  | setScheduling strategy =>
      exact h.of_eq ((hstays strategy rfl).congr rfl) rfl rfl (fun _ => rfl) fun _ => rfl
  | @spawn e todo hcontrol hworker =>
      refine h.of_workers (fun e' => ?_)
      show Function.update s.workers e .loopHead e' = s.workers e' ∨ _
      by_cases he : e' = e
      · rw [he, Function.update_self, hworker]
        exact Or.inr ⟨Or.inr (Or.inr rfl), Or.inl rfl⟩
      · exact Or.inl (Function.update_of_ne he _ _)
  | joined hcontrol =>
      refine h.of_workers fun e => Or.inr ⟨?_, Or.inr (Or.inr rfl)⟩
      by_cases he : e ∈ s.world.fleet.ids
      · exact Or.inr (Or.inl (hsound.threads.joining [] hcontrol e he List.not_mem_nil))
      · exact Or.inr (Or.inr (hsound.threads.foreign e he))
  | _ => exact h.of_eq h.unbiased rfl rfl (fun _ => rfl) fun _ => rfl

end Step

theorem InOrder.initial {among : TaskRef → Bool} {s : State} (h : Initial s)
    (hunbiased : Unbiased s.world among s.world.scheduler.strategy) : InOrder among s := by
  have hqueue (e : EdgeId) : (s.world.node e).queued = [] := by
    obtain ⟨capacity, hnode⟩ := h.node e
    rw [hnode]
    rfl
  refine ⟨hunbiased, fun e scratch hchoose => ?_, fun e => ?_, fun e => ?_⟩
  · rw [h.workers] at hchoose
    cases hchoose
  · rw [h.log, State.waiting, h.workers, h.producer, hqueue]
    rfl
  · rw [h.log, h.workers]
    rfl

/-- The tasks of an edge among which the policies in use do not discriminate are
begun in the order in which their resources were reserved, and their executions end
in that order. Under `FIFO` and the round robin these are all tasks, with
`PRIORITY_BASED` as well those of one priority. -/
theorem begun_in_order {among : TaskRef → Bool} {start s : State} (hstart : machine.initial start)
    (hallocation : start.world.allocator.strategyMutex = none)
    (hscheduling : start.world.scheduler.strategyMutex = none)
    (hunbiased : Unbiased start.world among start.world.scheduler.strategy)
    (hrun : machine.Run (StaysUnbiased among) start s) (e : EdgeId) :
    (tasksOn e s.log.finished).filter among <+: (tasksOn e s.log.begun).filter among ∧
      (tasksOn e s.log.begun).filter among <+: (tasksOn e s.log.granted).filter among := by
  have hreachable : machine.Reachable Machine.free start := ⟨start, hstart, .refl _⟩
  have hsolid := tally_of_reachable hreachable
  have hinv : Sound start ∧ Solid start ∧ Owned start ∧ InOrder among start :=
    ⟨hsolid.1, hsolid.2.1, Owned.initial hstart hallocation hscheduling,
      InOrder.initial hstart hunbiased⟩
  have hkeep {s t : State} {label : Label}
      (hs : Sound s ∧ Solid s ∧ Owned s ∧ InOrder among s) (hstays : StaysUnbiased among s label)
      (hstep : machine.step s label = some t) :
      Sound t ∧ Solid t ∧ Owned t ∧ InOrder among t := by
    obtain ⟨hsound, hsolid, howned, horder⟩ := hs
    have hmove := step_move hstep
    exact ⟨hsound.move hmove, hsolid.move hmove, howned.move hsound.threads hmove,
      horder.step hsound hsolid howned hstays hmove⟩
  obtain ⟨-, -, -, horder⟩ := hrun.preserves hkeep hinv
  refine ⟨?_, ?_⟩
  · rw [horder.finished e, List.filter_append]
    exact List.prefix_append _ _
  · rw [horder.granted e, List.filter_append]
    exact List.prefix_append _ _

def threeTasks : List Label :=
  handOver ++ handOver ++ handOver ++ [.start, .control, .control] ++
    List.replicate 70 (.work "E01" {})

theorem mixedWorkload_unbiased (scheduling : SchedulingStrategy) :
    Unbiased (bootSingle mixedWorkload scheduling).world (fun t => 0 < t && t < 5)
      .priorityBased := by
  have hclass (t : TaskRef) (ht : (0 < t && t < 5) = true) :
      mixedWorkload t = TaskProfile.ultrasonic := by
    rw [Bool.and_eq_true, decide_eq_true_eq, decide_eq_true_eq] at ht
    unfold mixedWorkload
    rw [if_neg (Nat.ne_of_gt ht.1), if_pos ht.2]
  intro t u ht hu
  show (mixedWorkload t).priority.rank = (mixedWorkload u).priority.rank
  rw [hclass t ht, hclass u hu]

theorem begun_in_order_mixed :
    let among : TaskRef → Bool := fun t => 0 < t && t < 5
    let s := machine.final (bootSingle mixedWorkload .priorityBased) threeTasks
    (tasksOn "E01" s.log.finished).filter among <+: (tasksOn "E01" s.log.begun).filter among ∧
      (tasksOn "E01" s.log.begun).filter among <+: (tasksOn "E01" s.log.granted).filter among :=
  have hsteady : ∀ s label, label.policy = none → StaysUnbiased (fun t => 0 < t && t < 5) s label :=
    fun _ _ hnone _ hpolicy => by
      rw [hnone] at hpolicy
      cases hpolicy
  begun_in_order (boot_initial ..) rfl rfl (mixedWorkload_unbiased _)
    ((Machine.run_of_checks (by decide +kernel)).mono hsteady) "E01"

end EdgeAllocator.Pipeline
