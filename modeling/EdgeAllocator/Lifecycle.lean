import EdgeAllocator.Outcome
import Mathlib.Logic.Relation

/-! The status of a task, in memory and in the table `tasks`. Allocator,
scheduler and executor write it from different threads and each in two places;
what a task's place says about both statuses makes every write a step forward. -/
namespace EdgeAllocator

/-- CREATED -> QUEUED -> RUNNING -> COMPLETED or FAILED. -/
inductive Advance : TaskStatus → TaskStatus → Prop where
  | queue : Advance .created .queued
  | run : Advance .queued .running
  | complete : Advance .running .completed
  | fail : Advance .running .failed

theorem eq_of_finished {status status' : TaskStatus} (hfinished : status.finished = true)
    (h : Relation.ReflTransGen Advance status status') : status' = status := by
  induction h with
  | refl => rfl
  | tail _ hlast ih =>
      subst ih
      cases hlast <;> cases hfinished

namespace Pipeline

open Foundation Scheduler Executor Allocator Allocation

/-- The status in memory and the stored one are related by `agrees`. -/
def Recorded (agrees : TaskStatus → TaskStatus → Prop) (w : World) (t : TaskRef) : Prop :=
  ∃ stored, w.database.taskStatus t = some stored ∧ agrees (w.task t).status stored

structure SameStatus (w w' : World) (t : TaskRef) : Prop where
  memory : (w'.task t).status = (w.task t).status
  stored : w'.database.taskStatus t = w.database.taskStatus t

/-- Neither status changes but to the next one. -/
structure Advances (w w' : World) (t : TaskRef) : Prop where
  memory : Relation.ReflGen Advance (w.task t).status (w'.task t).status
  stored : ∀ status, w.database.taskStatus t = some status →
    ∃ status', w'.database.taskStatus t = some status' ∧ Relation.ReflGen Advance status status'

theorem SameStatus.recorded {agrees : TaskStatus → TaskStatus → Prop} {w w' : World} {t : TaskRef}
    (h : SameStatus w w' t) (hrecorded : Recorded agrees w t) : Recorded agrees w' t := by
  unfold Recorded
  rw [h.memory, h.stored]
  exact hrecorded

theorem SameStatus.advances {w w' : World} {t : TaskRef} (h : SameStatus w w' t) :
    Advances w w' t := by
  refine ⟨h.memory ▸ .refl, fun status hstatus => ⟨status, ?_, .refl⟩⟩
  rw [h.stored]
  exact hstatus

theorem advances_setMemory {w w' : World} {t : TaskRef} {status : TaskStatus}
    (hmemory : (w'.task t).status = status) (hadvance : Advance (w.task t).status status)
    (hstored : w'.database.taskStatus t = w.database.taskStatus t) : Advances w w' t :=
  ⟨hmemory ▸ .single hadvance, fun status hstatus => ⟨status, hstored.trans hstatus, .refl⟩⟩

theorem advances_setStored {w w' : World} {t : TaskRef} {status status' : TaskStatus}
    (hmemory : (w'.task t).status = (w.task t).status)
    (hstored : w.database.taskStatus t = some status) (hadvance : Advance status status')
    (hstored' : w'.database.taskStatus t = some status') : Advances w w' t := by
  refine ⟨hmemory ▸ .refl, fun status₁ hstatus₁ => ⟨status', hstored', ?_⟩⟩
  cases hstored.symm.trans hstatus₁
  exact .single hadvance

def Queued (memory stored : TaskStatus) : Prop := memory = .queued ∧ stored = .queued

def Ended (memory stored : TaskStatus) : Prop := memory.finished = true ∧ stored = memory

def allocAgrees : AllocPc → TaskStatus → TaskStatus → Prop
  | .persist _ _, memory, stored => memory = .queued ∧ stored = .created
  | .unlock result, memory, stored | .returned result, memory, stored =>
      if result.success then Queued memory stored else memory = .created ∧ stored = .created
  | _, memory, stored => memory = .created ∧ stored = .created

def execAgrees : ExecStage → TaskStatus → TaskStatus → Prop
  | .begin, memory, stored => Queued memory stored
  | .persistRunning, memory, stored => memory = .running ∧ stored = .queued
  | .register, memory, stored | .estimate, memory, stored | .sleep _, memory, stored
  | .conclude _, memory, stored => memory = .running ∧ stored = .running
  | .persistFinal verdict, memory, stored => memory = verdict.status ∧ stored = .running
  | .unregister verdict, memory, stored | .release verdict, memory, stored
  | .count verdict, memory, stored | .persistExecution verdict, memory, stored =>
      memory = verdict.status ∧ stored = verdict.status
  | .returned, memory, stored => Ended memory stored

theorem verdict_finished (verdict : Verdict) : verdict.status.finished = true := by
  unfold Verdict.status
  split <;> rfl

theorem verdict_advance (verdict : Verdict) : Advance .running verdict.status := by
  unfold Verdict.status
  split
  · exact .complete
  · exact .fail

theorem updateTaskStatus_self {t : TaskRef} {status : TaskStatus} (status' : TaskStatus)
    {db : Database} (h : db.taskStatus t = some status) :
    (db.updateTaskStatus t status').taskStatus t = some status' := by
  simp [Database.updateTaskStatus, h]

theorem updateTaskStatus_of_ne {t t' : TaskRef} (status : TaskStatus) (db : Database)
    (h : t' ≠ t) : (db.updateTaskStatus t status).taskStatus t' = db.taskStatus t' :=
  Function.update_of_ne h _ _

structure StatusStep (agrees agrees' : TaskStatus → TaskStatus → Prop) (w w' : World)
    (t : TaskRef) : Prop where
  own : Recorded agrees' w' t
  advances : Advances w w' t
  other : ∀ t', t' ≠ t → SameStatus w w' t'

theorem StatusStep.of_same {agrees agrees' : TaskStatus → TaskStatus → Prop} {w w' : World}
    {t : TaskRef} (hrecorded : Recorded agrees w t)
    (himp : ∀ memory stored, agrees memory stored → agrees' memory stored)
    (hsame : ∀ t', SameStatus w w' t') : StatusStep agrees agrees' w w' t := by
  obtain ⟨stored, hstored, hagrees⟩ := (hsame t).recorded hrecorded
  exact ⟨⟨stored, hstored, himp _ _ hagrees⟩, (hsame t).advances, fun t' _ => hsame t'⟩

theorem allocStep_status {me : Thread} {call : AllocCall} {w w' : World} {pc pc' : AllocPc}
    (h : allocStep me call w pc = some (w', pc')) (hrecorded : Recorded (allocAgrees pc) w call.task) :
    StatusStep (allocAgrees pc) (allocAgrees pc') w w' call.task := by
  have hsame (hstatus : ∀ memory stored, allocAgrees pc memory stored → allocAgrees pc' memory stored)
      (htask : w'.task = w.task) (hdatabase : w'.database = w.database) :
      StatusStep (allocAgrees pc) (allocAgrees pc') w w' call.task :=
    .of_same hrecorded hstatus fun t => ⟨by rw [htask], by rw [hdatabase]⟩
  cases allocStep_move h with
  | assign e score =>
      obtain ⟨stored, hstored, hmemory, rfl⟩ := hrecorded
      have hwritten : (((w.modifyAllocator countSuccess).modifyTask call.task (assignTask e)).task
          call.task).status = .queued := by
        rw [World.modifyTask_self]
        rfl
      refine ⟨⟨_, hstored, hwritten, rfl⟩, advances_setMemory hwritten (hmemory ▸ .queue) rfl,
        fun t ht => ⟨?_, rfl⟩⟩
      exact congrArg Task.status (Function.update_of_ne ht _ _)
  | persist e score reason =>
      obtain ⟨stored, hstored, hmemory, rfl⟩ := hrecorded
      have hwritten := updateTaskStatus_self .queued hstored
      exact ⟨⟨_, hwritten, hmemory, rfl⟩, advances_setStored rfl hstored .queue hwritten,
        fun t ht => ⟨rfl, updateTaskStatus_of_ne _ _ ht⟩⟩
  | _ => exact hsame (fun _ _ hagrees => hagrees) rfl rfl

theorem execStep_status (e : EdgeId) (input : WorkerInput) {w : World} {t : TaskRef}
    {stage : ExecStage} (hrecorded : Recorded (execAgrees stage) w t) :
    StatusStep (execAgrees stage) (execAgrees (execStep e input w t stage).2) w
      (execStep e input w t stage).1 t := by
  cases stage with
  | begin =>
      obtain ⟨stored, hstored, hmemory, rfl⟩ := hrecorded
      have hwritten : ((w.modifyTask t (Task.setStatus .running)).task t).status = .running := by
        rw [World.modifyTask_self]
        rfl
      refine ⟨⟨_, hstored, hwritten, rfl⟩, advances_setMemory hwritten (hmemory ▸ .run) rfl,
        fun t' ht' => ⟨?_, rfl⟩⟩
      exact congrArg Task.status (Function.update_of_ne ht' _ _)
  | persistRunning =>
      obtain ⟨stored, hstored, hmemory, rfl⟩ := hrecorded
      have hwritten := updateTaskStatus_self .running hstored
      exact ⟨⟨_, hwritten, hmemory, rfl⟩, advances_setStored rfl hstored .run hwritten,
        fun t' ht' => ⟨rfl, updateTaskStatus_of_ne _ _ ht'⟩⟩
  | conclude verdict =>
      obtain ⟨stored, hstored, hmemory, rfl⟩ := hrecorded
      have hwritten : ((execStep e input w t (.conclude verdict)).1.task t).status =
          verdict.status := by
        rw [execStep, World.modifyTask_self]
        rfl
      refine ⟨⟨_, hstored, hwritten, rfl⟩,
        advances_setMemory hwritten (hmemory ▸ verdict_advance verdict) rfl,
        fun t' ht' => ⟨?_, rfl⟩⟩
      exact congrArg Task.status (Function.update_of_ne ht' _ _)
  | persistFinal verdict =>
      obtain ⟨stored, hstored, hmemory, rfl⟩ := hrecorded
      have hwritten := updateTaskStatus_self verdict.status hstored
      exact ⟨⟨_, hwritten, hmemory, rfl⟩,
        advances_setStored rfl hstored (verdict_advance verdict) hwritten,
        fun t' ht' => ⟨rfl, updateTaskStatus_of_ne _ _ ht'⟩⟩
  | persistExecution verdict =>
      refine .of_same hrecorded (fun memory stored hagrees => ?_) fun _ => ⟨rfl, rfl⟩
      obtain ⟨rfl, rfl⟩ := hagrees
      exact ⟨verdict_finished verdict, rfl⟩
  | _ => exact .of_same hrecorded (fun _ _ hagrees => hagrees) fun _ => ⟨rfl, rfl⟩

theorem scheduleStep_status {me : Thread} {e : EdgeId} {t : TaskRef} {w w' : World}
    {pc pc' : SchedulePc} (h : scheduleStep me e t w pc = some (w', pc'))
    (hrecorded : t ∈ pc.held t → Recorded Queued w t) (t' : TaskRef) : SameStatus w w' t' := by
  cases pc with
  | lock =>
      simp only [scheduleStep] at h
      split_ifs at h <;> cases h <;> exact ⟨rfl, rfl⟩
  | markQueued =>
      cases h
      refine ⟨?_, rfl⟩
      by_cases ht : t' = t
      · obtain ⟨-, -, hmemory, -⟩ := hrecorded List.mem_cons_self
        rw [ht, World.modifyTask_self, Task.setStatus_status, hmemory]
      · exact congrArg Task.status (Function.update_of_ne ht _ _)
  | returned => cases h
  | _ =>
      cases h
      exact ⟨rfl, rfl⟩

def State.handedOver (s : State) (e : EdgeId) : List TaskRef :=
  (s.world.node e).queued ++ (s.workers e).held ++ tasksOn e s.log.finished

theorem mem_handedOver {s : State} {e : EdgeId} {t : TaskRef} : t ∈ s.handedOver e ↔
    t ∈ (s.world.node e).queued ∨ t ∈ (s.workers e).held ∨ (t, e) ∈ s.log.finished := by
  simp only [State.handedOver, List.mem_append, mem_tasksOn, or_assoc]

theorem held_of_scratch {pc : WorkerPc} {t : TaskRef} (h : t ∈ pc.scratch) : t ∈ pc.held := by
  cases pc with
  | fetching pc => exact h
  | _ => cases h

theorem held_of_executing {pc : WorkerPc} {t : TaskRef} {stage : ExecStage}
    (h : pc = .executing t stage) : t ∈ pc.held := by
  rw [h]
  exact List.mem_singleton_self t

theorem allPlaces_eq (s : State) (e : EdgeId) :
    s.allPlaces e = s.producer.held e ++ s.handedOver e := by
  simp [State.allPlaces, State.handedOver, Account.places, custody]

theorem granted_of_handedOver {s : State} (h : Sound s) {t : TaskRef} {e : EdgeId}
    (ht : t ∈ s.handedOver e) : (t, e) ∈ s.log.granted :=
  granted_of_mem h (allPlaces_eq s e ▸ List.mem_append_right _ ht)

theorem handedOver_unique {s : State} (h : Sound s) {t : TaskRef} {e e' : EdgeId}
    (ht : t ∈ s.handedOver e) (ht' : t ∈ s.handedOver e') : e = e' :=
  allPlaces_unique h (allPlaces_eq s e ▸ List.mem_append_right _ ht)
    (allPlaces_eq s e' ▸ List.mem_append_right _ ht')

theorem handedOver_nodup {s : State} (h : Sound s) (e : EdgeId) : (s.handedOver e).Nodup := by
  have hnodup := allPlaces_nodup h e
  rw [allPlaces_eq] at hnodup
  exact hnodup.of_append_right

theorem ne_of_handedOver {s : State} (h : Sound s) {call : AllocCall} {pc : AllocPc}
    (hpc : s.producer = .allocating call pc) {t : TaskRef} {e : EdgeId}
    (ht : t ∈ s.handedOver e) : t ≠ call.task := by
  rintro rfl
  cases hgranted : pc.granted with
  | none =>
      exact (h.fresh.current call pc hpc).2 hgranted
        (List.mem_map.mpr ⟨_, granted_of_handedOver h ht, rfl⟩)
  | some e' =>
      have hheld : call.task ∈ s.producer.held e' := by
        rw [hpc, ProducerPc.held, if_pos hgranted]
        exact List.mem_singleton_self _
      have he := allPlaces_unique h (allPlaces_eq s e' ▸ List.mem_append_left _ hheld)
        (allPlaces_eq s e ▸ List.mem_append_right _ ht)
      subst he
      have hnodup := allPlaces_nodup h e'
      rw [allPlaces_eq] at hnodup
      exact List.disjoint_of_nodup_append hnodup hheld ht

theorem ne_of_queued {s : State} (h : Sound s) {t t' : TaskRef} {e e' : EdgeId}
    (ht : t ∈ (s.workers e).held) (ht' : t' ∈ (s.world.node e').queued) : t' ≠ t := by
  rintro rfl
  have he : e' = e :=
    handedOver_unique h (mem_handedOver.mpr (Or.inl ht')) (mem_handedOver.mpr (Or.inr (Or.inl ht)))
  subst he
  have hnodup := handedOver_nodup h e'
  simp only [State.handedOver, List.append_assoc] at hnodup
  exact List.disjoint_of_nodup_append hnodup ht' (List.mem_append_left _ ht)

/-- What is recorded of each created task, by the place where it is. -/
structure Staged (s : State) : Prop where
  known : ∀ t, t < s.world.taskCounter → ∃ stored, s.world.database.taskStatus t = some stored
  allocating : ∀ call pc, s.producer = .allocating call pc →
    Recorded (allocAgrees pc) s.world call.task
  scheduling : ∀ t e pc, s.producer = .scheduling t e pc → t ∈ pc.held t →
    Recorded Queued s.world t
  queued : ∀ e t, t ∈ (s.world.node e).queued → Recorded Queued s.world t
  scratch : ∀ e t, t ∈ (s.workers e).scratch → Recorded Queued s.world t
  executing : ∀ e t stage, s.workers e = .executing t stage →
    Recorded (execAgrees stage) s.world t
  finished : ∀ t e, (t, e) ∈ s.log.finished → Recorded Ended s.world t

theorem Staged.of_same {s s' : State} (h : Staged s)
    (hcounter : s'.world.taskCounter = s.world.taskCounter)
    (hknown : ∀ t, t < s.world.taskCounter → Advances s.world s'.world t)
    (hproducer : ∀ call pc, s'.producer = .allocating call pc →
      Recorded (allocAgrees pc) s'.world call.task)
    (hscheduling : ∀ t e pc, s'.producer = .scheduling t e pc → t ∈ pc.held t →
      Recorded Queued s'.world t)
    (hqueued : ∀ e t, t ∈ (s'.world.node e).queued → Recorded Queued s'.world t)
    (hworkers : ∀ e, (s'.workers e).held = [] ∨ s'.workers e = s.workers e)
    (hfinished : s'.log.finished = s.log.finished)
    (hsame : ∀ e t, t ∈ s.handedOver e → SameStatus s.world s'.world t) : Staged s' := by
  refine ⟨fun t ht => ?_, hproducer, hscheduling, hqueued, fun e t ht => ?_,
    fun e t stage hworker => ?_, fun t e hevent => ?_⟩
  · rw [hcounter] at ht
    obtain ⟨stored, hstored⟩ := h.known t ht
    obtain ⟨stored', hstored', -⟩ := (hknown t ht).stored stored hstored
    exact ⟨stored', hstored'⟩
  · obtain hempty | hold := hworkers e
    · have hheld := held_of_scratch ht
      rw [hempty] at hheld
      cases hheld
    · rw [hold] at ht
      exact (hsame e t (mem_handedOver.mpr (Or.inr (Or.inl (held_of_scratch ht))))).recorded
        (h.scratch e t ht)
  · obtain hempty | hold := hworkers e
    · rw [hworker] at hempty
      cases hempty
    · have hworker' := hold.symm.trans hworker
      exact (hsame e t (mem_handedOver.mpr (Or.inr (Or.inl (held_of_executing hworker'))))).recorded
        (h.executing e t stage hworker')
  · rw [hfinished] at hevent
    exact (hsame e t (mem_handedOver.mpr (Or.inr (Or.inr hevent)))).recorded
      (h.finished t e hevent)

theorem Staged.of_world {s s' : State} (h : Staged s)
    (hcounter : s'.world.taskCounter = s.world.taskCounter)
    (htask : s'.world.task = s.world.task) (hdatabase : s'.world.database = s.world.database)
    (hqueued : ∀ e, (s'.world.node e).queued = (s.world.node e).queued)
    (hproducer : ∀ call pc, s'.producer = .allocating call pc → s.producer = .allocating call pc)
    (hscheduling : ∀ t e pc, s'.producer = .scheduling t e pc → t ∈ pc.held t →
      Recorded Queued s.world t)
    (hworkers : ∀ e, (s'.workers e).held = [] ∨ s'.workers e = s.workers e)
    (hfinished : s'.log.finished = s.log.finished) :
    Staged s' ∧ ∀ t, t < s.world.taskCounter → Advances s.world s'.world t := by
  have hsame (t : TaskRef) : SameStatus s.world s'.world t := ⟨by rw [htask], by rw [hdatabase]⟩
  refine ⟨h.of_same hcounter (fun t _ => (hsame t).advances)
    (fun call pc hpc => (hsame _).recorded (h.allocating call pc (hproducer call pc hpc)))
    (fun t e pc hpc ht => (hsame t).recorded (hscheduling t e pc hpc ht))
    (fun e t ht => (hsame t).recorded (h.queued e t (hqueued e ▸ ht))) hworkers hfinished
    fun _ t _ => hsame t, fun t _ => (hsame t).advances⟩

theorem Staged.work_same {s : State} (h : Staged s) {e : EdgeId} {w : World} {pc' : WorkerPc}
    {log : Log} (hcounter : w.taskCounter = s.world.taskCounter) (htask : w.task = s.world.task)
    (hdatabase : w.database = s.world.database)
    (hother : ∀ e', e' ≠ e → w.node e' = s.world.node e')
    (hqueue : ∀ t, t ∈ (w.node e).queued ++ pc'.scratch → Recorded Queued s.world t)
    (hexecuting : ∀ t stage, pc' = .executing t stage → Recorded (execAgrees stage) s.world t)
    (hfinished : ∀ t e', (t, e') ∈ log.finished → Recorded Ended s.world t) :
    Staged { s with world := w, workers := Function.update s.workers e pc', log := log } ∧
      ∀ t, t < s.world.taskCounter → Advances s.world w t := by
  have hsame (t : TaskRef) : SameStatus s.world w t := ⟨by rw [htask], by rw [hdatabase]⟩
  refine ⟨⟨fun t ht => ?_, fun call pc hpc => (hsame _).recorded (h.allocating call pc hpc),
    fun t e pc hpc ht => (hsame t).recorded (h.scheduling t e pc hpc ht), fun e' t ht => ?_,
    fun e' t ht => ?_, fun e' t stage hpc => ?_,
    fun t e' hevent => (hsame t).recorded (hfinished t e' hevent)⟩,
    fun t _ => (hsame t).advances⟩
  · show ∃ stored, w.database.taskStatus t = some stored
    rw [hdatabase]
    exact h.known t (hcounter ▸ ht)
  · apply (hsame t).recorded
    by_cases he : e' = e
    · exact hqueue t (List.mem_append_left _ (he ▸ ht))
    · exact h.queued e' t (hother e' he ▸ ht)
  · apply (hsame t).recorded
    change t ∈ (Function.update s.workers e pc' e').scratch at ht
    by_cases he : e' = e
    · rw [he, Function.update_self] at ht
      exact hqueue t (List.mem_append_right _ ht)
    · rw [Function.update_of_ne he] at ht
      exact h.scratch e' t ht
  · apply (hsame t).recorded
    change Function.update s.workers e pc' e' = _ at hpc
    by_cases he : e' = e
    · rw [he, Function.update_self] at hpc
      exact hexecuting t stage hpc
    · rw [Function.update_of_ne he] at hpc
      exact h.executing e' t stage hpc

theorem Staged.exec {s : State} (h : Staged s) (hsound : Sound s) {e : EdgeId}
    (input : WorkerInput) {t : TaskRef} {stage : ExecStage}
    (hworker : s.workers e = .executing t stage) (hstage : stage ≠ .returned) :
    Staged { s with
      world := (execStep e input s.world t stage).1
      workers := Function.update s.workers e (.executing t (execStep e input s.world t stage).2)
      log := s.log.work e (s.workers e) } ∧
    ∀ u, u < s.world.taskCounter → Advances s.world (execStep e input s.world t stage).1 u := by
  obtain ⟨hown, hadvances, hother⟩ := execStep_status e input (h.executing e t stage hworker)
  have hheld := held_of_executing hworker
  have hall (u : TaskRef) : Advances s.world (execStep e input s.world t stage).1 u := by
    by_cases hu : u = t
    · exact hu ▸ hadvances
    · exact (hother u hu).advances
  have hhandedOver : t ∈ s.handedOver e := mem_handedOver.mpr (Or.inr (Or.inl hheld))
  refine ⟨⟨fun u hu => ?_, fun call pc hpc => ?_, fun u e' pc hpc hu => ?_, fun e' u hu => ?_,
    fun e' u hu => ?_, fun e' u stage' hpc => ?_, fun u e' hevent => ?_⟩, fun u _ => hall u⟩
  · obtain ⟨stored, hstored⟩ := h.known u (execStep_taskCounter e input s.world t stage ▸ hu)
    obtain ⟨stored', hstored', -⟩ := (hall u).stored stored hstored
    exact ⟨stored', hstored'⟩
  · exact (hother _ (ne_of_handedOver hsound hpc hhandedOver).symm).recorded
      (h.allocating call pc hpc)
  · refine (hother u ?_).recorded (h.scheduling u e' pc hpc hu)
    refine (producer_ne (e := e') hsound ?_ (Or.inl hheld)).symm
    rw [hpc, ProducerPc.held, if_pos rfl]
    exact hu
  · rw [execStep_queued] at hu
    exact (hother u (ne_of_queued hsound hheld hu)).recorded (h.queued e' u hu)
  · change u ∈ (Function.update s.workers e _ e').scratch at hu
    by_cases he : e' = e
    · rw [he, Function.update_self] at hu
      cases hu
    · rw [Function.update_of_ne he] at hu
      exact (hother u (hand_ne hsound hheld (Or.inl ⟨he, held_of_scratch hu⟩))).recorded
        (h.scratch e' u hu)
  · change Function.update s.workers e _ e' = _ at hpc
    by_cases he : e' = e
    · rw [he, Function.update_self] at hpc
      cases hpc
      exact hown
    · rw [Function.update_of_ne he] at hpc
      exact (hother u (hand_ne hsound hheld (Or.inl ⟨he, held_of_executing hpc⟩))).recorded
        (h.executing e' u stage' hpc)
  · have hold : (u, e') ∈ s.log.finished := by
      rw [hworker, Log.work_finished (finishes_executing hstage)] at hevent
      exact hevent
    exact (hother u (hand_ne hsound hheld (Or.inr hold))).recorded (h.finished u e' hold)

theorem Staged.work {s : State} (h : Staged s) (hsound : Sound s) {e : EdgeId}
    {input : WorkerInput} {w : World} {pc' : WorkerPc}
    (hstep : workerStep e input s.world (s.workers e) = some (w, pc')) :
    Staged { s with
      world := w
      workers := Function.update s.workers e pc'
      log := s.log.work e (s.workers e) } ∧
    ∀ t, t < s.world.taskCounter → Advances s.world w t := by
  have hqueued := h.queued e
  have hscratch := h.scratch e
  have hexecuting := h.executing e
  generalize hworker : s.workers e = pc at hstep hscratch hexecuting
  have hlog (hfinishes : pc.finishes = []) (t : TaskRef) (e' : EdgeId)
      (hevent : (t, e') ∈ (s.log.work e pc).finished) : Recorded Ended s.world t := by
    rw [Log.work_finished hfinishes] at hevent
    exact h.finished t e' hevent
  cases workerStep_move hstep with
  | fetch hfetch =>
      obtain ⟨queue, mutex, rfl, hperm⟩ := fetchStep_effect hfetch
      refine h.work_same rfl rfl rfl (fun e' he => ?_) (fun t ht => ?_)
        (fun t stage hpc => by cases hpc) (hlog rfl)
      · rw [World.modifyScheduler_node, World.modifyNode_of_ne _ _ he]
      rw [World.modifyScheduler_node, World.modifyNode_self] at ht
      rcases List.mem_append.mp (hperm.subset ht) with hold | hold
      · exact hqueued t hold
      · exact hscratch t hold
  | take t =>
      refine h.work_same rfl rfl rfl (fun _ _ => rfl) (fun u hu => ?_) (fun u stage hpc => ?_)
        (hlog rfl)
      · rcases List.mem_append.mp hu with hold | hnone
        · exact hqueued u hold
        · cases hnone
      · cases hpc
        exact hscratch t (List.mem_singleton_self t)
  | exec t hstage =>
      have hexec := h.exec hsound input hworker hstage
      rw [hworker] at hexec
      exact hexec
  | finish t =>
      refine h.work_same rfl rfl rfl (fun _ _ => rfl) (fun u hu => ?_)
        (fun u stage hpc => by cases hpc) (fun u e' hevent => ?_)
      · rcases List.mem_append.mp hu with hold | hnone
        · exact hqueued u hold
        · cases hnone
      · rcases List.mem_append.mp hevent with hold | hnew
        · exact h.finished u e' hold
        · obtain ⟨u', hu', heq⟩ := List.mem_map.mp hnew
          cases heq
          rw [List.mem_singleton.mp hu']
          exact hexecuting t .returned rfl
  | _ =>
      refine h.work_same rfl rfl rfl (fun _ _ => rfl) (fun u hu => ?_)
        (fun u stage hpc => by cases hpc) (hlog rfl)
      rcases List.mem_append.mp hu with hold | hold
      · exact hqueued u hold
      · cases hold

theorem Staged.produce {s : State} (h : Staged s) (hsound : Sound s) (kind : AllocKind)
    (now : Int) :
    Staged { s with
      world := createTask now s.world
      producer := .allocating ⟨s.world.taskCounter, kind⟩ .lock } ∧
    ∀ t, t < s.world.taskCounter → Advances s.world (createTask now s.world) t := by
  have hother (t : TaskRef) (ht : t ≠ s.world.taskCounter) :
      SameStatus s.world (createTask now s.world) t :=
    ⟨congrArg Task.status (Function.update_of_ne ht _ _), Function.update_of_ne ht _ _⟩
  have hplaced {e : EdgeId} {t : TaskRef} (ht : t ∈ s.handedOver e) :
      t ≠ s.world.taskCounter :=
    (hsound.fresh.granted _ (granted_of_handedOver hsound ht)).ne
  have hnew : (createTask now s.world).database.taskStatus s.world.taskCounter =
      some .created := Function.update_self ..
  have hcreated : ((createTask now s.world).task s.world.taskCounter).status = .created := by
    show ((s.world.modifyTask s.world.taskCounter fun _ => { creationTime := now }).task
      s.world.taskCounter).status = .created
    rw [World.modifyTask_self]
  have hheld {e : EdgeId} {t : TaskRef} (ht : t ∈ (s.workers e).held) :
      SameStatus s.world (createTask now s.world) t :=
    hother t (hplaced (mem_handedOver.mpr (Or.inr (Or.inl ht))))
  refine ⟨⟨fun t ht => ?_, fun call pc hpc => ?_, fun t e pc hpc => (by cases hpc),
    fun e t ht => (hother t (hplaced (mem_handedOver.mpr (Or.inl ht)))).recorded
      (h.queued e t ht),
    fun e t ht => (hheld (held_of_scratch ht)).recorded (h.scratch e t ht),
    fun e t stage hpc => (hheld (held_of_executing hpc)).recorded (h.executing e t stage hpc),
    fun t e hevent => (hother t (hplaced (mem_handedOver.mpr (Or.inr (Or.inr hevent))))).recorded
      (h.finished t e hevent)⟩,
    fun t ht => (hother t ht.ne).advances⟩
  · by_cases heq : t = s.world.taskCounter
    · exact ⟨_, heq ▸ hnew⟩
    · obtain ⟨stored, hstored⟩ := h.known t (lt_of_le_of_ne (Nat.lt_succ_iff.mp ht) heq)
      exact ⟨stored, (hother t heq).stored.trans hstored⟩
  · cases hpc
    exact ⟨_, hnew, hcreated, rfl⟩

theorem Staged.alloc {s : State} (h : Staged s) (hsound : Sound s) {call : AllocCall}
    {pc pc' : AllocPc} {w : World} (hpc : s.producer = .allocating call pc)
    (hstep : allocStep .producer call s.world pc = some (w, pc')) :
    Staged { s with
      world := w, producer := .allocating call pc', log := s.log.grant call.task pc.grants } ∧
    ∀ t, t < s.world.taskCounter → Advances s.world w t := by
  obtain ⟨hown, hadvances, hother⟩ := allocStep_status hstep (h.allocating call pc hpc)
  have hall (t : TaskRef) : Advances s.world w t := by
    by_cases ht : t = call.task
    · exact ht ▸ hadvances
    · exact (hother t ht).advances
  have hqueue (e : EdgeId) : (w.node e).queued = (s.world.node e).queued := by
    obtain ⟨hnode, -⟩ | ⟨n, e', score, -, -, rfl⟩ := allocStep_node hstep
    · rw [hnode]
    · by_cases he : e = e'
      · rw [he, World.modifyNode_self]
        rfl
      · rw [World.modifyNode_of_ne _ _ he]
  have hsame (e : EdgeId) (t : TaskRef) (ht : t ∈ s.handedOver e) :
      SameStatus s.world w t := hother t (ne_of_handedOver hsound hpc ht)
  refine ⟨h.of_same (allocStep_taskCounter hstep) (fun t _ => hall t) (fun _ _ hpc' => ?_)
    (fun _ _ _ hpc' => by cases hpc') (fun e t ht => ?_) (fun _ => Or.inr rfl) rfl hsame,
    fun t _ => hall t⟩
  · cases hpc'
    exact hown
  · change t ∈ (w.node e).queued at ht
    rw [hqueue] at ht
    exact (hsame e t (mem_handedOver.mpr (Or.inl ht))).recorded (h.queued e t ht)

theorem Staged.schedule {s : State} (h : Staged s) (hsound : Sound s) {t : TaskRef} {e : EdgeId}
    {pc pc' : SchedulePc} {w : World} (hpc : s.producer = .scheduling t e pc)
    (hstep : scheduleStep .producer e t s.world pc = some (w, pc')) :
    Staged { s with world := w, producer := .scheduling t e pc' } ∧
    ∀ t, t < s.world.taskCounter → Advances s.world w t := by
  have hhere : e ∈ s.world.fleet.ids :=
    hsound.edges e (by rw [hpc]; exact List.mem_singleton_self e)
  have heffect := scheduleStep_effect hstep hhere
  have hrecorded := h.scheduling t e pc hpc
  have hsame := scheduleStep_status hstep hrecorded
  have hhand (hheld : t ∈ pc'.held t) : t ∈ pc.held t := by
    cases pc with
    | unlock =>
        cases hstep
        cases hheld
    | returned => cases hstep
    | _ => exact List.mem_singleton_self t
  refine ⟨h.of_same heffect.taskCounter (fun t _ => (hsame t).advances)
    (fun _ _ hpc' => by cases hpc') (fun t' e' pc₁ hpc' hheld => ?_) (fun e' t' ht' => ?_)
    (fun _ => Or.inr rfl) rfl fun _ t _ => hsame t, fun t _ => (hsame t).advances⟩
  · cases hpc'
    exact (hsame t).recorded (hrecorded (hhand hheld))
  · apply (hsame t').recorded
    change t' ∈ (w.node e').queued at ht'
    by_cases he : e' = e
    · rw [he] at ht'
      rcases List.mem_append.mp (heffect.queue.subset (List.mem_append_left _ ht')) with hold | hheld
      · exact h.queued e t' hold
      · have ht : t' = t := by
          cases pc <;> first | exact List.mem_singleton.mp hheld | cases hheld
        rw [ht] at hheld ⊢
        exact hrecorded hheld
    · rw [heffect.other e' he] at ht'
      exact h.queued e' t' ht'

theorem Staged.move {s s' : State} {label : Label} (h : Staged s) (hsound : Sound s)
    (hmove : Move s label s') :
    Staged s' ∧ ∀ t, t < s.world.taskCounter → Advances s.world s'.world t := by
  cases hmove with
  | produce kind now _ => exact h.produce hsound kind now
  | alloc _ hpc hstep => exact h.alloc hsound hpc hstep
  | @allocated draws call result hpc hsuccess =>
      refine h.of_world rfl rfl rfl (fun _ => rfl) (fun _ _ hpc' => by cases hpc')
        (fun t e pc hpc' ht => ?_) (fun _ => Or.inr rfl) rfl
      cases hpc'
      obtain ⟨stored, hstored, hagrees⟩ := h.allocating _ _ hpc
      rw [allocAgrees, if_pos hsuccess] at hagrees
      exact ⟨stored, hstored, hagrees⟩
  | schedule _ hpc hstep => exact h.schedule hsound hpc hstep
  | @draw draws e todo hpc =>
      refine h.of_world rfl rfl rfl (fun e' => ?_) (fun _ _ hpc' => by cases hpc')
        (fun _ _ _ hpc' => by cases hpc') (fun _ => Or.inr rfl) rfl
      by_cases he : e' = e
      · rw [he, World.modifyNode_self]
        rfl
      · rw [World.modifyNode_of_ne _ _ he]
  | work e input hstep => exact h.work hsound hstep
  | @spawn e todo hcontrol hworker =>
      refine h.of_world rfl rfl rfl (fun _ => rfl) (fun _ _ hpc => hpc) h.scheduling
        (fun e' => ?_) rfl
      show (Function.update s.workers e .loopHead e').held = [] ∨
        Function.update s.workers e .loopHead e' = s.workers e'
      by_cases he : e' = e
      · rw [he, Function.update_self]
        exact Or.inl rfl
      · rw [Function.update_of_ne he]
        exact Or.inr rfl
  | joined hcontrol =>
      exact h.of_world rfl rfl rfl (fun _ => rfl) (fun _ _ hpc => hpc) h.scheduling
        (fun _ => Or.inl rfl) rfl
  | refused _ _ _ | scheduled _ _ | fluctuate _ | passOver _ _ | fluctuated _ _ =>
      exact h.of_world rfl rfl rfl (fun _ => rfl) (fun _ _ hpc' => by cases hpc')
        (fun _ _ _ hpc' => by cases hpc') (fun _ => Or.inr rfl) rfl
  | _ =>
      exact h.of_world rfl rfl rfl (fun _ => rfl) (fun _ _ hpc => hpc) h.scheduling
        (fun _ => Or.inr rfl) rfl

theorem Staged.initial {s : State} (h : Initial s) : Staged s := by
  refine ⟨fun t ht => ?_, fun call pc hpc => ?_, fun t e pc hpc => ?_, fun e t ht => ?_,
    fun e t ht => ?_, fun e t stage hpc => ?_, fun t e hevent => ?_⟩
  · rw [h.taskCounter] at ht
    omega
  · rw [h.producer] at hpc
    cases hpc
  · rw [h.producer] at hpc
    cases hpc
  · obtain ⟨capacity, hnode⟩ := h.node e
    rw [hnode] at ht
    cases ht
  · rw [h.workers] at ht
    cases ht
  · rw [h.workers] at hpc
    cases hpc
  · rw [h.log] at hevent
    cases hevent

theorem staged_of_reachable {s : State} (hs : machine.Reachable Machine.free s) :
    Sound s ∧ Staged s := by
  have hinit {s : State} (hs : machine.initial s) : Sound s ∧ Staged s :=
    ⟨Sound.initial hs, Staged.initial hs⟩
  have hkeep {s t : State} {label : Label} (hs : Sound s ∧ Staged s) (_ : Machine.free s label)
      (hstep : machine.step s label = some t) : Sound t ∧ Staged t :=
    have hmove := step_move hstep
    ⟨hs.1.move hmove, (hs.2.move hs.1 hmove).1⟩
  exact hs.invariant hinit hkeep

theorem taskCounter_mono {s s' : State} {label : Label} (hmove : Move s label s') :
    s.world.taskCounter ≤ s'.world.taskCounter := by
  cases hmove with
  | produce _ _ _ => exact Nat.le_succ _
  | alloc _ _ hstep => exact (allocStep_taskCounter hstep).ge
  | schedule _ _ hstep => exact (scheduleStep_taskCounter hstep).ge
  | work _ _ hstep => exact (workerStep_taskCounter hstep).ge
  | _ => exact le_rfl

structure Forward (w w' : World) (t : TaskRef) : Prop where
  memory : Relation.ReflTransGen Advance (w.task t).status (w'.task t).status
  stored : ∃ status status', w.database.taskStatus t = some status ∧
    w'.database.taskStatus t = some status' ∧ Relation.ReflTransGen Advance status status'

theorem forward_run {s s' : State} (hs : machine.Reachable Machine.free s)
    (hrun : machine.Run Machine.free s s') :
    s.world.taskCounter ≤ s'.world.taskCounter ∧
      ∀ t, t < s.world.taskCounter → Forward s.world s'.world t := by
  induction hrun with
  | refl =>
      refine ⟨le_rfl, fun t ht => ⟨.refl, ?_⟩⟩
      obtain ⟨status, hstatus⟩ := (staged_of_reachable hs).2.known t ht
      exact ⟨status, status, hstatus, hstatus, .refl⟩
  | @tail u v label hrun hfree hlast ih =>
      obtain ⟨hcounter, hforward⟩ := ih
      obtain ⟨hsound, hstaged⟩ := staged_of_reachable (hs.run hrun)
      have hmove := step_move hlast
      refine ⟨hcounter.trans (taskCounter_mono hmove), fun t ht => ?_⟩
      obtain ⟨hmemory, status, status', hstatus, hstatus', hstored⟩ := hforward t ht
      obtain ⟨hmemory', hstored'⟩ := (hstaged.move hsound hmove).2 t (ht.trans_le hcounter)
      obtain ⟨status'', hstatus'', hlast'⟩ := hstored' status' hstatus'
      exact ⟨hmemory.trans hmemory'.to_reflTransGen, status, status'', hstatus, hstatus'',
        hstored.trans hlast'.to_reflTransGen⟩

def ExecutionReturned (s : State) (t : TaskRef) : Prop :=
  ∃ e, s.workers e = .executing t .returned ∨ (t, e) ∈ s.log.finished

/-- A task is created as CREATED; every step leaves both its statuses as they
are or advances one of them by one stage, so that in every run both only move
forward; and when the execution has returned both hold the same terminal
status. -/
theorem status_only_advances {s : State} (hs : machine.Reachable Machine.free s) :
    (∀ kind now s', machine.step s (.produce kind now) = some s' →
      (s'.world.task s.world.taskCounter).status = .created ∧
        s'.world.database.taskStatus s.world.taskCounter = some .created) ∧
    (∀ label s', machine.step s label = some s' →
      ∀ t, t < s.world.taskCounter → Advances s.world s'.world t) ∧
    (∀ s', machine.Run Machine.free s s' →
      ∀ t, t < s.world.taskCounter → Forward s.world s'.world t) ∧
    ∀ t, ExecutionReturned s t → (s.world.task t).status.finished = true ∧
      s.world.database.taskStatus t = some (s.world.task t).status := by
  obtain ⟨hsound, hstaged⟩ := staged_of_reachable hs
  refine ⟨fun kind now s' hstep => ?_, fun label s' hstep => ?_, fun s' hrun => ?_, fun t ht => ?_⟩
  · have hmove : Move s (.produce kind now) s' := step_move hstep
    cases hmove with
    | produce _ _ _ =>
        refine ⟨?_, Function.update_self ..⟩
        show ((s.world.modifyTask s.world.taskCounter fun _ => { creationTime := now }).task
          s.world.taskCounter).status = .created
        rw [World.modifyTask_self]
    | stay _ h => obtain h | h := h <;> cases h
  · exact (hstaged.move hsound (step_move hstep)).2
  · exact (forward_run hs hrun).2
  · obtain ⟨e, hreturned | hfinished⟩ := ht
    · obtain ⟨stored, hstored, hended, rfl⟩ := hstaged.executing e t .returned hreturned
      exact ⟨hended, hstored⟩
    · obtain ⟨stored, hstored, hended, rfl⟩ := hstaged.finished t e hfinished
      exact ⟨hended, hstored⟩

def executeFirst : List Label :=
  handOver ++ [.start, .control, .control] ++ List.replicate 18 (.work "E01" {})

theorem status_only_advances_executed :
    let s := machine.final (bootSingle (fun _ => TaskProfile.camera) .fifo) executeFirst
    (s.world.task 0).status.finished = true ∧
      s.world.database.taskStatus 0 = some (s.world.task 0).status :=
  (status_only_advances (Machine.reachable_final (boot_initial ..) (by decide +kernel))).2.2.2 0
    ⟨"E01", Or.inr (by decide +kernel)⟩

end Pipeline
end EdgeAllocator
