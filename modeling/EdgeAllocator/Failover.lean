import EdgeAllocator.Reallocation

/-! What a run under the controller loses: the tasks that it takes out of a queue
and enqueues nowhere. -/
namespace EdgeAllocator.Controller

open Foundation Scheduler Executor Allocator

def Kept (s : State) : Prop :=
  ∀ t ∈ s.removed, (s.world.task t).status.finished = true ∨ some t ∈ s.manager.taskQueue ∨
    ∃ e ∈ s.world.fleet.ids, some t ∈ (s.world.node e).taskQueue

instance (s : State) : Decidable (Kept s) := inferInstanceAs (Decidable (∀ t ∈ s.removed, _))

/-- The operation finds no task to take out of a queue. -/
def RemovesNothing (s : State) : Label → Prop
  | .process _ => s.manager.taskQueue = []
  | .fail e => e ∈ s.world.fleet.ids → (s.world.node e).taskQueue = []
  | _ => True

theorem Kept.of {s s' : State} (h : Kept s) (hremoved : s'.removed = s.removed)
    (hfleet : s'.world.fleet = s.world.fleet)
    (hfinished : ∀ t ∈ s.removed, (s.world.task t).status.finished = true →
      (s'.world.task t).status.finished = true)
    (hmanager : ∀ t, some t ∈ s.manager.taskQueue → some t ∈ s'.manager.taskQueue)
    (hqueue : ∀ e t, some t ∈ (s.world.node e).taskQueue →
      (s'.world.task t).status.finished = true ∨ some t ∈ (s'.world.node e).taskQueue) :
    Kept s' := by
  intro t ht
  rw [hremoved] at ht
  obtain hdone | hcreated | ⟨e, he, hqueued⟩ := h t ht
  · exact Or.inl (hfinished t ht hdone)
  · exact Or.inr (Or.inl (hmanager t hcreated))
  · obtain hdone | hstays := hqueue e t hqueued
    · exact Or.inl hdone
    · exact Or.inr (Or.inr ⟨e, hfleet ▸ he, hstays⟩)

theorem not_kept {s : State} {t : TaskRef} (ht : t ∈ s.removed)
    (hunfinished : (s.world.task t).status.finished = false)
    (hmanager : some t ∉ s.manager.taskQueue)
    (hqueue : ∀ e, some t ∉ (s.world.node e).taskQueue) : ¬ Kept s := by
  intro h
  obtain hdone | hcreated | ⟨e, -, hqueued⟩ := h t ht
  · rw [hunfinished] at hdone
    cases hdone
  · exact hmanager hcreated
  · exact hqueue e hqueued

theorem AllocEffect.unfinished {w w' : World} {t : TaskRef} {success : Bool}
    (h : AllocEffect w t w' success) (hunfinished : (w.task t).status.finished = false) :
    (w'.task t).status.finished = false := by
  cases h with
  | refused _ htask =>
      rw [htask]
      exact hunfinished
  | reserved _ _ htask =>
      rw [htask, World.modifyTask_self]
      rfl

theorem not_kept_pass {s s' : State} {t : TaskRef} {rest : List TaskPtr} {w : World}
    {success : Bool} (h : Orderly s) (hfront : s.manager.taskQueue = some t :: rest)
    (hmanager : s'.manager.taskQueue = rest) (hremoved : s'.removed = s.removed ++ [t])
    (heffect : AllocEffect s.world t w success) (hw : OnlyUsage w s'.world) : ¬ Kept s' := by
  obtain ⟨-, hunassigned⟩ := h.created t (hfront ▸ List.mem_cons_self)
  refine not_kept (t := t) ?_ ?_ ?_ fun e => ?_
  · rw [hremoved]
    exact List.mem_append_right _ (List.mem_singleton_self t)
  · rw [hw.task]
    exact heffect.unfinished hunassigned.unfinished
  · rw [hmanager]
    exact (List.nodup_cons.mp (hfront ▸ h.managerNodup)).1
  · rw [hw.queue e, (heffect.queue e).1]
    exact h.ne_of_unassigned hunassigned e

theorem not_kept_fail {s s' : State} {e : EdgeId} (h : Orderly s)
    (hemptied : Emptied e (s.world.node e).queued (markFailed e s) s') {t : TaskRef}
    (ht : t ∈ (s.world.node e).queued) : ¬ Kept s' := by
  obtain ⟨-, -, hcharges⟩ := h.queued e t (h.mem_queued.mp ht)
  refine not_kept (t := t) ?_ (hemptied.unfinished t ht) ?_ fun e' hmem => ?_
  · rw [hemptied.removed]
    exact List.mem_append_right _ ht
  · rw [hemptied.manager]
    intro hcreated
    exact h.ne_of_unassigned (h.created t hcreated).2 e (h.mem_queued.mp ht)
  · by_cases he : e' = e
    · rw [he, hemptied.empty] at hmem
      cases hmem
    · rw [hemptied.queue e' he, markFailed, World.modifyNode_of_ne _ _ he] at hmem
      obtain ⟨-, -, hcharges'⟩ := h.queued e' t hmem
      exact he ((charges_iff.mp hcharges').1.symm.trans (charges_iff.mp hcharges).1)

theorem Kept.schedule {s : State} (h : Kept s) {t : TaskRef} {e : EdgeId}
    (he : e ∈ s.world.fleet.ids) (hunfinished : (s.world.task t).status.finished = false) :
    Kept { s with world := scheduleTask e t s.world } := by
  refine h.of rfl ?_ (fun t' _ hdone => ?_) (fun _ => id) fun e' t' ht' => Or.inr ?_
  · simp only [scheduleTask, getEdgeNode_of_mem he]
    rfl
  · simp only [scheduleTask, getEdgeNode_of_mem he]
    have hne : t' ≠ t := by
      rintro rfl
      rw [hunfinished] at hdone
      cases hdone
    have hsame : (s.world.modifyTask t (Task.setStatus .queued)).task t' = s.world.task t' :=
      Function.update_of_ne hne _ _
    simp only [World.modifyScheduler_task, World.modifyNode_task, hsame]
    exact hdone
  · simp only [scheduleTask, getEdgeNode_of_mem he, World.modifyScheduler_node]
    by_cases heq : e' = e
    · rw [heq, World.modifyNode_self]
      exact List.mem_append_left _ (heq ▸ ht')
    · rw [World.modifyNode_of_ne _ _ heq]
      exact ht'

theorem Kept.complete {s : State} (h : Kept s) {e : EdgeId} {t : TaskRef} {queue : List TaskPtr}
    {w : World} (hperm : (s.world.node e).taskQueue.Perm (some t :: queue))
    (hcompleted : Completed e t queue s.world w) : Kept { s with world := w } := by
  refine h.of rfl hcompleted.stable.fleet (fun t' _ hdone => ?_) (fun _ => id) fun e' t' ht' => ?_
  · by_cases hne : t' = t
    · rw [hne]
      exact hcompleted.finished
    · rw [hcompleted.otherTasks t' hne]
      exact hdone
  · rw [hcompleted.queue e']
    split_ifs with he
    · rw [he] at ht'
      rcases List.mem_cons.mp (hperm.mem_iff.mp ht') with hself | hrest
      · rw [Option.some.inj hself]
        exact Or.inl hcompleted.finished
      · exact Or.inr hrest
    · exact Or.inr ht'

theorem Kept.fail {s s' : State} (h : Kept s) {e : EdgeId}
    (hempty : (s.world.node e).taskQueue = []) (hemptied : Emptied e [] (markFailed e s) s') :
    Kept s' := by
  refine h.of (hemptied.removed.trans (List.append_nil _)) hemptied.stable.fleet (fun t _ => ?_)
    (fun t ht => hemptied.manager.symm ▸ ht) fun e' t ht => ?_
  · rw [hemptied.others t List.not_mem_nil]
    exact id
  · by_cases hne : e' = e
    · rw [hne, hempty] at ht
      cases ht
    · right
      rw [hemptied.queue e' hne, markFailed, World.modifyNode_of_ne _ _ hne]
      exact ht

theorem kept_move {s s' : State} {label : Label} (horderly : Orderly s) (h : Kept s)
    (hdisciplined : Disciplined s label) (hmove : Move s label s') :
    Kept s' ↔ RemovesNothing s label := by
  have hstays (t : TaskRef) (e : EdgeId) (w : World)
      (hqueue : (w.node e).taskQueue = (s.world.node e).taskQueue)
      (ht : some t ∈ (s.world.node e).taskQueue) :
      (w.task t).status.finished = true ∨ some t ∈ (w.node e).taskQueue :=
    Or.inr (hqueue.symm ▸ ht)
  cases hmove with
  | create now =>
      refine iff_of_true (h.of rfl rfl (fun t ht => ?_) (fun t ht => List.mem_append_left _ ht)
        fun e t ht => Or.inr ht) trivial
      rw [show (createTaskFromSensorData now s).world.task t = s.world.task t from
        constructTask_of_lt (horderly.removed t ht) now]
      exact id
  | idle draws hempty hw =>
      refine iff_of_true (h.of rfl hw.stable.fleet (fun t _ => ?_) (fun _ => id)
        fun e t ht => hstays t e _ (hw.queue e) ht) hempty
      rw [hw.task]
      exact id
  | pass draws hfront hmanager hremoved hstable heffect hw =>
      refine iff_of_false (not_kept_pass horderly hfront hmanager hremoved heffect hw) ?_
      intro hempty
      cases hfront.symm.trans hempty
  | construct now =>
      refine iff_of_true (h.of rfl rfl (fun t ht => ?_) (fun _ => id) fun e t ht => Or.inr ht)
        trivial
      rw [constructTask_of_lt (horderly.removed t ht) now]
      exact id
  | @allocate t success s' hmanager hremoved hstable heffect =>
      obtain ⟨-, hunassigned, hnot⟩ := hdisciplined
      have hnew : t ∉ s.removed := by
        intro hmem
        refine not_kept hmem hunassigned.unfinished hnot ?_ h
        exact horderly.ne_of_unassigned hunassigned
      refine iff_of_true (h.of hremoved hstable.fleet (fun t' ht' => ?_)
        (fun t' ht' => hmanager.symm ▸ ht') fun e t' ht' => hstays t' e _ (heffect.queue e).1 ht')
        trivial
      rw [heffect.task_of_ne fun heq => hnew (heq ▸ ht')]
      exact id
  | schedule he =>
      obtain ⟨-, hcharges, -⟩ := hdisciplined
      exact iff_of_true (h.schedule he (charges_iff.mp hcharges).2) trivial
  | starve e input => exact iff_of_true h trivial
  | complete input hperm hcompleted => exact iff_of_true (h.complete hperm hcompleted) trivial
  | ignore label e he hlabel =>
      refine iff_of_true h ?_
      obtain ⟨t, rfl⟩ | rfl | rfl := hlabel
      · trivial
      · exact fun hmem => absurd hmem he
      · trivial
  | @fail e he s' hemptied =>
      cases hqueue : (s.world.node e).queued with
      | nil =>
          have hempty : (s.world.node e).taskQueue = [] := by
            rw [horderly.queue_eq e, hqueue]
            rfl
          rw [hqueue] at hemptied
          exact iff_of_true (h.fail hempty hemptied) fun _ => hempty
      | cons t tasks =>
          have ht : t ∈ (s.world.node e).queued := hqueue ▸ List.mem_cons_self
          refine iff_of_false (not_kept_fail horderly hemptied ht) fun hempty => ?_
          have hmem := horderly.mem_queued.mp ht
          rw [hempty he] at hmem
          cases hmem
  | @recover e he =>
      refine iff_of_true (h.of rfl rfl (fun _ _ => id) (fun _ => id) fun e' t ht => Or.inr ?_)
        trivial
      by_cases hne : e' = e
      · rw [markRecovered, hne, World.modifyNode_self]
        exact hne ▸ ht
      · rw [markRecovered, World.modifyNode_of_ne _ _ hne]
        exact ht

/-- In a run of the controller no task is dropped exactly if the controller never
takes one out of a queue. -/
theorem kept_iff_removesNothing {labels : List Label} {s t : State} (hs : machine.initial s)
    (hexec : machine.exec s labels = some t) (hdriven : machine.Meets Disciplined s labels) :
    machine.Along Kept s labels ↔ machine.Meets RemovesNothing s labels := by
  have hinv {u v : State} {label : Label} (horderly : Orderly u) (hdisciplined : Disciplined u label)
      (hstep : machine.step u label = some v) : Orderly v :=
    horderly.move hdisciplined (step_move hstep horderly)
  have hkept {u v : State} {label : Label} (horderly : Orderly u) (h : Kept u)
      (hdisciplined : Disciplined u label) (hstep : machine.step u label = some v) :
      Kept v ↔ RemovesNothing u label :=
    kept_move horderly h hdisciplined (step_move hstep horderly)
  refine Machine.along_iff_meets hinv hkept hexec hdriven (Orderly.initial hs) fun t ht => ?_
  rw [hs.removed] at ht
  cases ht

theorem kept_iff_removesNothing_handedOver :
    let labels := handOver ++ [.complete "E01" {}, .fail "E01"]
    machine.Along Kept bootPair labels ↔ machine.Meets RemovesNothing bootPair labels :=
  kept_iff_removesNothing bootPair_initial (Machine.exec_final (by decide +kernel))
    (Machine.meets_of_checks (by decide +kernel))

/-- An iteration reserves for the created task and enqueues it nowhere. -/
theorem iteration_drops_task :
    ¬ ∀ s labels t, machine.initial s → machine.exec s labels = some t →
      machine.Meets Disciplined s labels → machine.Along Kept s labels := by
  intro h
  have hexec : machine.exec bootPair [.create 0, .process fun _ => {}] = some _ :=
    Machine.exec_final (by decide +kernel)
  have hkept := (h _ _ _ bootPair_initial hexec (Machine.meets_of_checks (by decide +kernel))).last
    hexec
  exact absurd hkept (by decide +kernel)

end EdgeAllocator.Controller
