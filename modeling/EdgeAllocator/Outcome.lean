import EdgeAllocator.Tally

/-! What the executor tells about the tasks it has taken: `active_tasks_` and the
terminal status. Both are about one task only because no two threads have it. -/
namespace EdgeAllocator.Pipeline

open Foundation Scheduler Executor Allocator Allocation

def State.allPlaces (s : State) (e : EdgeId) : List TaskRef :=
  custody.places s e ++ tasksOn e s.log.finished

theorem granted_of_mem {s : State} (h : Sound s) {t : TaskRef} {e : EdgeId}
    (ht : t ∈ s.allPlaces e) : (t, e) ∈ s.log.granted :=
  mem_tasksOn.mp ((h.custody e).subset ht)

theorem allPlaces_unique {s : State} (h : Sound s) {t : TaskRef} {e e' : EdgeId}
    (ht : t ∈ s.allPlaces e) (ht' : t ∈ s.allPlaces e') : e = e' :=
  (Prod.ext_iff.mp (List.inj_on_of_nodup_map h.fresh.nodup (granted_of_mem h ht)
    (granted_of_mem h ht') rfl)).2

theorem allPlaces_nodup {s : State} (h : Sound s) (e : EdgeId) : (s.allPlaces e).Nodup := by
  refine (h.custody e).nodup_iff.mpr ?_
  exact h.fresh.nodup.sublist (List.filter_sublist.map Prod.fst)

theorem producer_ne {s : State} (h : Sound s) {t t' : TaskRef} {e e' : EdgeId}
    (ht : t ∈ s.producer.held e) (ht' : t' ∈ (s.workers e').held ∨ (t', e') ∈ s.log.finished) :
    t' ≠ t := by
  rintro rfl
  have hplace : t' ∈ s.allPlaces e := by
    simp [State.allPlaces, Account.places, ht]
  have hplace' : t' ∈ s.allPlaces e' := by
    obtain hheld | hfinished := ht'
    · simp [State.allPlaces, Account.places, custody, hheld]
    · exact List.mem_append_right _ (mem_tasksOn.mpr hfinished)
  have he := allPlaces_unique h hplace hplace'
  subst he
  have hnodup := allPlaces_nodup h e
  simp only [State.allPlaces, Account.places, custody, List.append_assoc] at hnodup
  have hdisjoint := List.disjoint_of_nodup_append hnodup ht
  apply hdisjoint
  obtain hheld | hfinished := ht'
  · simp [hheld]
  · simp [mem_tasksOn.mpr hfinished]

theorem hand_ne {s : State} (h : Sound s) {t t' : TaskRef} {e e' : EdgeId}
    (ht : t ∈ (s.workers e).held)
    (ht' : e' ≠ e ∧ t' ∈ (s.workers e').held ∨ (t', e') ∈ s.log.finished) : t' ≠ t := by
  rintro rfl
  have hplace : t' ∈ s.allPlaces e := by
    simp [State.allPlaces, Account.places, custody, ht]
  obtain ⟨hne, hheld⟩ | hfinished := ht'
  · refine hne (allPlaces_unique h ?_ hplace)
    simp [State.allPlaces, Account.places, custody, hheld]
  · have hplace' : t' ∈ s.allPlaces e' := List.mem_append_right _ (mem_tasksOn.mpr hfinished)
    have he := allPlaces_unique h hplace hplace'
    subst he
    have hnodup := allPlaces_nodup h e
    refine List.disjoint_of_nodup_append hnodup ?_ (mem_tasksOn.mpr hfinished)
    simp [Account.places, custody, ht]

/-- Registered tasks are in `active_tasks_`, concluded ones have a terminal
status, and keep it when the execution has returned. -/
structure Outcomes (s : State) : Prop where
  active : ∀ e t stage, s.workers e = .executing t stage → stage.registered = true →
    t ∈ s.world.executor.activeTasks
  concluded : ∀ e t stage, s.workers e = .executing t stage → stage.concluded = true →
    (s.world.task t).status.finished = true
  finished : ∀ t e, (t, e) ∈ s.log.finished → (s.world.task t).status.finished = true

theorem Outcomes.of_task {s s' : State} (h : Outcomes s)
    (hactive : s'.world.executor.activeTasks = s.world.executor.activeTasks)
    (hworkers : ∀ e t stage, s'.workers e = .executing t stage → s.workers e = .executing t stage)
    (hfinished : s'.log.finished = s.log.finished)
    (htask : ∀ t e, t ∈ (s.workers e).held ∨ (t, e) ∈ s.log.finished →
      s'.world.task t = s.world.task t) : Outcomes s' := by
  refine ⟨fun e t stage hworker hregistered => ?_, fun e t stage hworker hconcluded => ?_,
    fun t e hevent => ?_⟩
  · rw [hactive]
    exact h.active e t stage (hworkers e t stage hworker) hregistered
  · have hold := hworkers e t stage hworker
    rw [htask t e (Or.inl (by rw [hold]; exact List.mem_singleton_self t))]
    exact h.concluded e t stage hold hconcluded
  · rw [hfinished] at hevent
    rw [htask t e (Or.inr hevent)]
    exact h.finished t e hevent

theorem Outcomes.of_worker {s : State} (h : Outcomes s) {e : EdgeId} {w : World}
    {pc' : WorkerPc} {log : Log}
    (hactive : ∀ t stage, pc' = .executing t stage → stage.registered = true →
      t ∈ w.executor.activeTasks)
    (hconcluded : ∀ t stage, pc' = .executing t stage → stage.concluded = true →
      (w.task t).status.finished = true)
    (hothers : ∀ e' ≠ e, ∀ t ∈ (s.workers e').held, w.task t = s.world.task t ∧
      (t ∈ s.world.executor.activeTasks → t ∈ w.executor.activeTasks))
    (hfinished : ∀ t e, (t, e) ∈ log.finished → (w.task t).status.finished = true) :
    Outcomes { s with world := w, workers := Function.update s.workers e pc', log := log } := by
  have hhands {e' : EdgeId} {t : TaskRef} {stage : ExecStage}
      (hpc : Function.update s.workers e pc' e' = .executing t stage) :
      pc' = .executing t stage ∨
        s.workers e' = .executing t stage ∧ w.task t = s.world.task t ∧
          (t ∈ s.world.executor.activeTasks → t ∈ w.executor.activeTasks) := by
    by_cases he : e' = e
    · rw [he, Function.update_self] at hpc
      exact Or.inl hpc
    · rw [Function.update_of_ne he] at hpc
      have hheld : t ∈ (s.workers e').held := by
        rw [hpc]
        exact List.mem_singleton_self t
      exact Or.inr ⟨hpc, hothers e' he t hheld⟩
  refine ⟨fun e' t stage hpc hregistered => ?_, fun e' t stage hpc hdone => ?_, hfinished⟩
  · obtain hown | ⟨hpc', -, hmem⟩ := hhands hpc
    · exact hactive t stage hown hregistered
    · exact hmem (h.active e' t stage hpc' hregistered)
  · obtain hown | ⟨hpc', htask, -⟩ := hhands hpc
    · exact hconcluded t stage hown hdone
    · show (w.task t).status.finished = true
      rw [htask]
      exact h.concluded e' t stage hpc' hdone

theorem Outcomes.exec {s : State} (h : Outcomes s) (hsound : Sound s) {e : EdgeId}
    (input : WorkerInput) {t : TaskRef} {stage : ExecStage}
    (hworker : s.workers e = .executing t stage) (hstage : stage ≠ .returned) :
    Outcomes { s with
      world := (execStep e input s.world t stage).1
      workers := Function.update s.workers e (.executing t (execStep e input s.world t stage).2)
      log := s.log.work e (s.workers e) } := by
  have hheld : t ∈ (s.workers e).held := by
    rw [hworker]
    exact List.mem_singleton_self t
  refine h.of_worker (fun t' stage' hpc hregistered => ?_) (fun t' stage' hpc hconcluded => ?_)
    (fun e' he t' ht' => ?_) fun t' e' hevent => ?_
  · cases hpc
    exact execStep_active e input s.world t stage (h.active e t stage hworker) hregistered
  · cases hpc
    exact execStep_concluded e input s.world t stage (h.concluded e t stage hworker) hconcluded
  · have hother : t' ≠ t := hand_ne hsound hheld (Or.inl ⟨he, ht'⟩)
    exact ⟨execStep_task_of_ne e input s.world stage hother,
      execStep_active_of_ne e input s.world stage hother⟩
  · have hold : (t', e') ∈ s.log.finished := by
      rw [hworker, Log.work_finished (finishes_executing hstage)] at hevent
      exact hevent
    rw [execStep_task_of_ne e input s.world stage (hand_ne hsound hheld (Or.inr hold))]
    exact h.finished t' e' hold

theorem Outcomes.work {s : State} (h : Outcomes s) (hsound : Sound s) {e : EdgeId}
    {input : WorkerInput} {w : World} {pc' : WorkerPc}
    (hstep : workerStep e input s.world (s.workers e) = some (w, pc')) :
    Outcomes { s with
      world := w
      workers := Function.update s.workers e pc'
      log := s.log.work e (s.workers e) } := by
  -- Steps that neither touch a task nor take a stage of an execution.
  have hother (hexecutor : w.executor = s.world.executor) (htask : w.task = s.world.task)
      (hnext : ∀ t stage, pc' = .executing t stage → stage = .begin)
      (hfinish : ∀ t, t ∈ (s.workers e).finishes → (s.world.task t).status.finished = true) :
      Outcomes { s with
        world := w
        workers := Function.update s.workers e pc'
        log := s.log.work e (s.workers e) } := by
    refine h.of_worker (fun t stage hpc hregistered => ?_) (fun t stage hpc hconcluded => ?_)
      (fun e' he t _ => ⟨congrFun htask t, fun hmem => hexecutor ▸ hmem⟩) fun t e' hevent => ?_
    · rw [hnext t stage hpc] at hregistered
      cases hregistered
    · rw [hnext t stage hpc] at hconcluded
      cases hconcluded
    · rw [htask]
      rcases List.mem_append.mp hevent with hold | hnew
      · exact h.finished t e' hold
      · obtain ⟨t', ht, heq⟩ := List.mem_map.mp hnew
        cases heq
        exact hfinish t ht
  generalize hworker : s.workers e = pc at hstep hother
  cases workerStep_move hstep with
  | fetch hfetch =>
      obtain ⟨queue, mutex, rfl, -⟩ := fetchStep_effect hfetch
      exact hother rfl rfl (fun _ _ hpc => by cases hpc) (fun _ ht => by cases ht)
  | take t =>
      refine hother rfl rfl (fun _ _ hpc => ?_) (fun _ ht => by cases ht)
      cases hpc
      rfl
  | exec t hstage =>
      have hexec := h.exec hsound input hworker hstage
      rw [hworker] at hexec
      exact hexec
  | finish t =>
      refine hother rfl rfl (fun _ _ hpc => by cases hpc) (fun t' ht => ?_)
      rw [List.mem_singleton.mp ht]
      exact h.concluded e t .returned hworker rfl
  | _ => exact hother rfl rfl (fun _ _ hpc => by cases hpc) (fun _ ht => by cases ht)

theorem Outcomes.move {s s' : State} {label : Label} (h : Outcomes s) (hsound : Sound s)
    (hmove : Move s label s') : Outcomes s' := by
  cases hmove with
  | produce kind now _ =>
      refine h.of_task rfl (fun _ _ _ hworker => hworker) rfl fun t e ht => ?_
      refine Function.update_of_ne (ne_of_lt ?_) _ _
      have hplace : t ∈ s.allPlaces e := by
        obtain hheld | hfinished := ht
        · simp [State.allPlaces, Account.places, custody, hheld]
        · exact List.mem_append_right _ (mem_tasksOn.mpr hfinished)
      exact hsound.fresh.granted _ (granted_of_mem hsound hplace)
  | @alloc draws call pc pc' w hpc hstep =>
      refine h.of_task (congrArg TaskExecutor.activeTasks (allocStep_executor hstep))
        (fun _ _ _ hworker => hworker) rfl fun t e ht => ?_
      obtain hsame | ⟨e', hgranted⟩ := allocStep_task hstep
      · exact congrFun hsame t
      · refine allocStep_task_of_ne hstep (producer_ne (e := e') hsound ?_ ht)
        rw [hpc, ProducerPc.held, if_pos hgranted]
        exact List.mem_singleton_self _
  | @schedule draws t' e' pc pc' w hpc hstep =>
      refine h.of_task (congrArg TaskExecutor.activeTasks (scheduleStep_executor hstep))
        (fun _ _ _ hworker => hworker) rfl fun t e ht => ?_
      obtain hsame | ⟨hheld, hother⟩ := scheduleStep_task hstep
      · exact congrFun hsame t
      · refine hother t (producer_ne (e := e') hsound ?_ ht)
        rw [hpc, ProducerPc.held, if_pos rfl, hheld]
        exact List.mem_singleton_self _
  | work e input hstep => exact h.work hsound hstep
  | @spawn e todo hcontrol _ =>
      refine h.of_task rfl (fun e' t stage hworker => ?_) rfl fun _ _ _ => rfl
      change Function.update s.workers e .loopHead e' = _ at hworker
      by_cases he : e' = e
      · rw [he, Function.update_self] at hworker
        cases hworker
      · rw [Function.update_of_ne he] at hworker
        exact hworker
  | joined _ => exact h.of_task rfl (fun _ _ _ hworker => by cases hworker) rfl fun _ _ _ => rfl
  | _ => exact ⟨h.active, h.concluded, h.finished⟩

theorem Outcomes.initial {s : State} (h : Initial s) : Outcomes s := by
  refine ⟨fun e t stage hworker => ?_, fun e t stage hworker => ?_, fun t e hevent => ?_⟩
  · rw [h.workers e] at hworker
    cases hworker
  · rw [h.workers e] at hworker
    cases hworker
  · rw [h.log] at hevent
    cases hevent

theorem outcomes_of_reachable {guard : State → Label → Prop} {s : State}
    (h : machine.Reachable guard s) : Outcomes s := by
  have hinit {s : State} (hs : machine.initial s) : Sound s ∧ Outcomes s :=
    ⟨Sound.initial hs, Outcomes.initial hs⟩
  have hkeep {s t : State} {label : Label} (hs : Sound s ∧ Outcomes s) (_ : guard s label)
      (hstep : machine.step s label = some t) : Sound t ∧ Outcomes t :=
    have hmove := step_move hstep
    ⟨hs.1.move hmove, hs.2.move hs.1 hmove⟩
  exact (h.invariant hinit hkeep).2

end EdgeAllocator.Pipeline
