import EdgeAllocator.Custody

/-! What the pipeline counts, and that no null pointer enters a queue: with one
worker for each queue, a queue seen non-empty still is when its front is taken. -/
namespace EdgeAllocator.Pipeline

open Foundation Scheduler Executor Allocator Allocation

/-- The local variables of `getNextTask` hold no null pointer, and the queue is
not empty where the next step takes its front. -/
def SolidFetch (queue : List TaskPtr) : FetchPc → Prop
  | .popFront => queue ≠ []
  | .drainCheck scratch | .choose scratch => none ∉ scratch
  | .drainPop scratch => none ∉ scratch ∧ queue ≠ []
  | .restore selected rest => selected ≠ none ∧ none ∉ rest
  | .lock | .checkQueue | .unlock _ | .returned _ => True

theorem SolidFetch.enqueue {queue : List TaskPtr} {pc : FetchPc} (h : SolidFetch queue pc)
    (task : TaskPtr) : SolidFetch (queue ++ [task]) pc := by
  have hgrown : queue ++ [task] ≠ [] := List.append_ne_nil_of_right_ne_nil _ (List.cons_ne_nil _ _)
  cases pc with
  | popFront => exact hgrown
  | drainPop scratch => exact ⟨h.1, hgrown⟩
  | _ => exact h

theorem dequeueTask_of_ne {node : EdgeNode} (h : node.taskQueue ≠ []) :
    ∃ task rest, node.taskQueue = task :: rest ∧ node.dequeueTask.1 = task ∧
      node.dequeueTask.2.taskQueue = rest := by
  obtain ⟨task, rest, hqueue⟩ := List.exists_cons_of_ne_nil h
  refine ⟨task, rest, hqueue, ?_, ?_⟩ <;> rw [EdgeNode.dequeueTask, hqueue]

theorem SolidFetch.step {me : Thread} {e : EdgeId} {clock : ComparisonClock} {w w' : World}
    {pc pc' : FetchPc} (hstep : fetchStep me e clock w pc = some (w', pc'))
    (hqueue : none ∉ (w.node e).taskQueue) (h : SolidFetch (w.node e).taskQueue pc) :
    none ∉ (w'.node e).taskQueue ∧ SolidFetch (w'.node e).taskQueue pc' := by
  cases pc with
  | lock =>
      simp only [fetchStep] at hstep
      split_ifs at hstep
      cases hstep
      exact ⟨hqueue, trivial⟩
  | checkQueue =>
      simp only [fetchStep] at hstep
      split_ifs at hstep with hmore hfifo <;> cases hstep
      · refine ⟨hqueue, fun hempty => ?_⟩
        rw [(EdgeNode.hasTasksInQueue_eq_false _).mpr hempty] at hmore
        cases hmore
      · exact ⟨hqueue, List.not_mem_nil⟩
      · exact ⟨hqueue, trivial⟩
  | popFront =>
      obtain ⟨task, rest, hfront, -, hrest⟩ := dequeueTask_of_ne h
      cases hstep
      rw [World.modifyNode_self, hrest]
      rw [hfront] at hqueue
      exact ⟨fun hmem => hqueue (List.mem_cons_of_mem _ hmem), trivial⟩
  | drainCheck scratch =>
      simp only [fetchStep] at hstep
      split_ifs at hstep with hmore hempty <;> cases hstep
      · refine ⟨hqueue, h, fun hempty => ?_⟩
        rw [(EdgeNode.hasTasksInQueue_eq_false _).mpr hempty] at hmore
        cases hmore
      · exact ⟨hqueue, trivial⟩
      · exact ⟨hqueue, h⟩
  | drainPop scratch =>
      obtain ⟨task, rest, hfront, htask, hrest⟩ := dequeueTask_of_ne h.2
      cases hstep
      rw [World.modifyNode_self, hrest, htask]
      rw [hfront] at hqueue
      refine ⟨fun hmem => hqueue (List.mem_cons_of_mem _ hmem), fun hmem => ?_⟩
      rcases List.mem_append.mp hmem with hold | hnew
      · exact h.1 hold
      · exact hqueue (List.mem_singleton.mp hnew ▸ List.mem_cons_self)
  | choose scratch =>
      obtain ⟨i, hi, hnext⟩ := Option.map_eq_some_iff.mp hstep
      cases hnext
      refine ⟨hqueue, fun hselected => h ?_, fun hmem => h (List.mem_of_mem_eraseIdx hmem)⟩
      rw [List.getElem?_eq_getElem (select_lt hi), Option.getD_some] at hselected
      rw [← hselected]
      exact List.getElem_mem _
  | restore selected rest =>
      cases rest with
      | nil =>
          cases hstep
          exact ⟨hqueue, trivial⟩
      | cons task rest =>
          cases hstep
          rw [World.modifyNode_self, EdgeNode.enqueueTask_taskQueue]
          refine ⟨fun hmem => ?_, h.1, fun hmem => h.2 (List.mem_cons_of_mem _ hmem)⟩
          rcases List.mem_append.mp hmem with hold | hnew
          · exact hqueue hold
          · exact h.2 (List.mem_singleton.mp hnew ▸ List.mem_cons_self)
  | unlock selected =>
      cases hstep
      exact ⟨hqueue, trivial⟩
  | returned selected => cases hstep

/-- No queue holds a null pointer, nor does any scratch buffer. -/
structure Solid (s : State) : Prop where
  queue : ∀ e, none ∉ (s.world.node e).taskQueue
  fetch : ∀ e pc, s.workers e = .fetching pc → SolidFetch (s.world.node e).taskQueue pc

theorem queued_eq_nil {s : State} (hsolid : Solid s) (e : EdgeId) :
    (s.world.node e).queued = [] ↔ (s.world.node e).taskQueue = [] := by
  rw [EdgeNode.taskQueue_eq_map (hsolid.queue e), List.map_eq_nil_iff]

theorem Solid.of_queue {s s' : State} (h : Solid s)
    (hqueue : ∀ e, (s'.world.node e).taskQueue = (s.world.node e).taskQueue)
    (hworkers : ∀ e pc, s'.workers e = .fetching pc → s.workers e = .fetching pc) : Solid s' := by
  refine ⟨fun e => ?_, fun e pc hpc => ?_⟩
  · rw [hqueue]
    exact h.queue e
  · rw [hqueue]
    exact h.fetch e pc (hworkers e pc hpc)

theorem Solid.work {s : State} (h : Solid s) {e : EdgeId} {input : WorkerInput} {w : World}
    {pc' : WorkerPc} (hstep : workerStep e input s.world (s.workers e) = some (w, pc')) :
    Solid { s with
      world := w
      workers := Function.update s.workers e pc'
      log := s.log.work e (s.workers e) } := by
  have hown : none ∉ (w.node e).taskQueue ∧
      ∀ pc, pc' = .fetching pc → SolidFetch (w.node e).taskQueue pc := by
    have hqueue := h.queue e
    have hfetch := h.fetch e
    generalize s.workers e = start at hstep hfetch
    cases workerStep_move hstep with
    | fetch hmove =>
        obtain ⟨hqueue', hfetch'⟩ := SolidFetch.step hmove hqueue (hfetch _ rfl)
        refine ⟨hqueue', fun pc hpc => ?_⟩
        cases hpc
        exact hfetch'
    | enter _ =>
        refine ⟨hqueue, fun pc hpc => ?_⟩
        cases hpc
        trivial
    | @exec t stage _ =>
        refine ⟨?_, fun pc hpc => (by cases hpc)⟩
        obtain ⟨usage, hnode⟩ := execStep_usage e input s.world t stage e
        rw [hnode]
        exact hqueue
    | _ => exact ⟨hqueue, fun pc hpc => (by cases hpc)⟩
  refine ⟨fun e' => ?_, fun e' pc hpc => ?_⟩
  · by_cases he : e' = e
    · exact he ▸ hown.1
    · show none ∉ (w.node e').taskQueue
      rw [workerStep_node_of_ne hstep he]
      exact h.queue e'
  · change Function.update s.workers e pc' e' = .fetching pc at hpc
    by_cases he : e' = e
    · subst he
      rw [Function.update_self] at hpc
      exact hown.2 pc hpc
    · rw [Function.update_of_ne he] at hpc
      show SolidFetch (w.node e').taskQueue pc
      rw [workerStep_node_of_ne hstep he]
      exact h.fetch e' pc hpc

theorem Solid.schedule {s : State} (h : Solid s) {t : TaskRef} {e : EdgeId} {w : World}
    {pc : SchedulePc}
    (hnode : w.node = (s.world.modifyNode e (EdgeNode.enqueueTask (some t))).node) :
    Solid { s with world := w, producer := .scheduling t e pc } := by
  have hqueue (e' : EdgeId) : (w.node e').taskQueue = (s.world.node e').taskQueue ∨
      (w.node e').taskQueue = (s.world.node e').taskQueue ++ [some t] := by
    rw [hnode]
    by_cases he : e' = e
    · rw [he, World.modifyNode_self, EdgeNode.enqueueTask_taskQueue]
      exact Or.inr rfl
    · rw [World.modifyNode_of_ne _ _ he]
      exact Or.inl rfl
  refine ⟨fun e' hmem => ?_, fun e' pc' hpc => ?_⟩
  · change none ∈ (w.node e').taskQueue at hmem
    obtain hsame | hgrown := hqueue e'
    · exact h.queue e' (hsame ▸ hmem)
    · rw [hgrown] at hmem
      rcases List.mem_append.mp hmem with hold | hnew
      · exact h.queue e' hold
      · cases List.mem_singleton.mp hnew
  · show SolidFetch (w.node e').taskQueue pc'
    obtain hsame | hgrown := hqueue e'
    · rw [hsame]
      exact h.fetch e' pc' hpc
    · rw [hgrown]
      exact (h.fetch e' pc' hpc).enqueue (some t)

theorem Solid.move {s s' : State} {label : Label} (h : Solid s) (hmove : Move s label s') :
    Solid s' := by
  cases hmove with
  | alloc draws hpc hstep =>
      refine h.of_queue (fun e' => ?_) (fun _ _ hpc => hpc)
      obtain ⟨hnode, -⟩ | ⟨n, e, score, rfl, rfl, rfl⟩ := allocStep_node hstep
      · exact congrArg (fun node => (node e').taskQueue) hnode
      · by_cases he : e' = e
        · rw [he, World.modifyNode_self]
          rfl
        · rw [World.modifyNode_of_ne _ _ he]
  | schedule draws hpc hstep =>
      obtain ⟨-, hnode⟩ | ⟨rfl, rfl, hnode⟩ := scheduleStep_node hstep
      · exact h.of_queue (fun e' => congrArg (fun node => (node e').taskQueue) hnode)
          (fun _ _ hpc => hpc)
      · exact h.schedule hnode
  | @draw draws e todo hpc =>
      refine h.of_queue (fun e' => ?_) (fun _ _ hpc => hpc)
      by_cases he : e' = e
      · rw [he, World.modifyNode_self]
        rfl
      · rw [World.modifyNode_of_ne _ _ he]
  | work e input hstep => exact h.work hstep
  | @spawn e todo hcontrol hworker =>
      refine h.of_queue (fun _ => rfl) (fun e' pc hpc => ?_)
      change Function.update s.workers e .loopHead e' = .fetching pc at hpc
      by_cases he : e' = e
      · rw [he, Function.update_self] at hpc
        cases hpc
      · rw [Function.update_of_ne he] at hpc
        exact hpc
  | joined hcontrol => exact h.of_queue (fun _ => rfl) (fun _ _ hpc => by cases hpc)
  | _ => exact ⟨h.queue, h.fetch⟩

def ProducerPc.uncounted : ProducerPc → Nat
  | .allocating _ pc => pc.uncounted
  | .idle | .scheduling _ _ _ | .fluctuating _ => 0

/-- The counters of allocator and executor count what the log records. -/
structure Tally (s : State) : Prop where
  successes : s.world.allocator.successfulAllocations + s.producer.uncounted =
    s.log.granted.length
  totals : s.world.executor.totalTasksExecuted + s.world.executor.totalTasksFailed =
    s.log.counted.length
  registered : ∀ grant ∈ s.log.granted, grant.2 ∈ s.world.fleet.ids

theorem Tally.move {s s' : State} {label : Label} (h : Tally s)
    (hedges : ∀ e ∈ s.producer.edges, e ∈ s.world.fleet.ids) (hmove : Move s label s') :
    Tally s' := by
  obtain ⟨hsuccesses, htotals, hregistered⟩ := h
  have hfleet := hmove.frame.fleet
  cases hmove with
  | produce kind now hidle =>
      rw [hidle] at hsuccesses
      exact ⟨hsuccesses, htotals, hregistered⟩
  | @alloc draws call pc pc' w hpc hstep =>
      rw [hpc] at hsuccesses
      refine ⟨?_, ?_, fun grant hgrant => ?_⟩
      · have hcount := allocStep_successes hstep
        simp only [granted_grant, List.length_append, List.length_map]
        simp only [ProducerPc.uncounted] at hsuccesses ⊢
        omega
      · rw [allocStep_executor hstep]
        exact htotals
      · rw [hfleet]
        rcases List.mem_append.mp hgrant with hold | hnew
        · exact hregistered grant hold
        · obtain ⟨e, he, rfl⟩ := List.mem_map.mp hnew
          apply hedges
          rw [hpc]
          cases pc <;> first | exact he | cases he
  | @schedule draws t e pc pc' w hpc hstep =>
      have heffect := scheduleStep_effect hstep
        (hedges e (by rw [hpc]; exact List.mem_singleton_self e))
      rw [hpc] at hsuccesses
      refine ⟨?_, ?_, hfleet ▸ hregistered⟩
      · rw [heffect.allocator]
        exact hsuccesses
      · rw [heffect.executor]
        exact htotals
  | work e input hstep =>
      refine ⟨?_, ?_, hfleet ▸ hregistered⟩
      · rw [workerStep_allocator hstep]
        exact hsuccesses
      · rw [workerStep_totals hstep, htotals]
        simp [Log.work]
  | allocated _ hpc _ | refused _ hpc _ | scheduled _ hpc | fluctuate hpc | draw _ hpc
  | passOver _ hpc | fluctuated _ hpc =>
      rw [hpc] at hsuccesses
      exact ⟨hsuccesses, htotals, hregistered⟩
  | _ => exact ⟨hsuccesses, htotals, hregistered⟩

theorem tally_of_reachable {guard : State → Label → Prop} {s : State}
    (h : machine.Reachable guard s) : Sound s ∧ Solid s ∧ Tally s := by
  have hinit {s : State} (hs : machine.initial s) : Sound s ∧ Solid s ∧ Tally s := by
    refine ⟨Sound.initial hs, ⟨fun e => ?_, fun e pc hpc => ?_⟩, ?_, ?_, ?_⟩
    · obtain ⟨capacity, hnode⟩ := hs.node e
      rw [hnode]
      exact List.not_mem_nil
    · rw [hs.workers] at hpc
      cases hpc
    · rw [hs.allocator, hs.producer, hs.log]
      rfl
    · rw [hs.executor, hs.log]
      rfl
    · rw [hs.log]
      exact fun _ hgrant => by cases hgrant
  have hkeep {s t : State} {label : Label} (hs : Sound s ∧ Solid s ∧ Tally s) (_ : guard s label)
      (hstep : machine.step s label = some t) : Sound t ∧ Solid t ∧ Tally t :=
    have hmove := step_move hstep
    ⟨hs.1.move hmove, hs.2.1.move hmove, hs.2.2.move hs.1.edges hmove⟩
  exact h.invariant hinit hkeep

end EdgeAllocator.Pipeline
