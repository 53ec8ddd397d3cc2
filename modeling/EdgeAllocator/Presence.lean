import EdgeAllocator.Chronicle
import EdgeAllocator.Metrics

/-! What the dashboard shows of the nodes: `active_tasks_` holds what the workers have
registered, and every active task is counted at the edge that executes it. -/
namespace EdgeAllocator.Pipeline

open Foundation Scheduler Executor Allocator Allocation

def active : WorkerPc → Option TaskRef
  | .executing t stage => if stage.registered then some t else none
  | _ => none

def State.registered (s : State) : List TaskRef := contents active s.world.fleet.ids s.workers

theorem active_eq {pc : WorkerPc} {t : TaskRef} (h : active pc = some t) :
    ∃ stage, pc = .executing t stage ∧ stage.registered = true := by
  unfold active at h
  split at h
  · split_ifs at h with hregistered
    cases h
    exact ⟨_, rfl, hregistered⟩
  · cases h

theorem active_held {pc : WorkerPc} {t : TaskRef} (h : active pc = some t) : t ∈ pc.held := by
  obtain ⟨stage, rfl, -⟩ := active_eq h
  exact List.mem_singleton_self t

theorem held_unique {s : State} (h : Sound s) {t : TaskRef} {e e' : EdgeId}
    (ht : t ∈ (s.workers e).held) (ht' : t ∈ (s.workers e').held) : e = e' := by
  by_contra hne
  exact hand_ne h ht (Or.inl ⟨Ne.symm hne, ht'⟩) rfl

theorem workerStep_active {e : EdgeId} {input : WorkerInput} {w w' : World} {pc pc' : WorkerPc}
    (h : workerStep e input w pc = some (w', pc')) {rest : List TaskRef}
    (hactive : w.executor.activeTasks.Perm ((active pc).toList ++ rest))
    (hfresh : ∀ t ∈ pc.held, t ∉ rest) :
    w'.executor.activeTasks.Perm ((active pc').toList ++ rest) := by
  cases workerStep_move h with
  | fetch hfetch =>
      obtain ⟨queue, mutex, rfl, -⟩ := fetchStep_effect hfetch
      exact hactive
  | @exec t stage _ =>
      have hrest : t ∉ rest := hfresh t (List.mem_singleton_self t)
      cases stage with
      | register =>
          show (w.executor.activeTasks.insert t).Perm _
          rw [List.insert_of_not_mem fun hmem => hrest (hactive.subset hmem)]
          exact hactive.cons t
      | unregister verdict =>
          have hothers : rest.filter (· ≠ t) = rest := by
            apply List.filter_eq_self.mpr
            intro u hu
            have hne : u ≠ t := fun heq => hrest (heq ▸ hu)
            simpa using hne
          have hperm : (w.executor.activeTasks.filter (· ≠ t)).Perm ((t :: rest).filter (· ≠ t)) :=
            hactive.filter _
          rwa [List.filter_cons_of_neg (by simp), hothers] at hperm
      | _ => exact hactive
  | _ => exact hactive

/-- The task that is reserved for and does not know its edge yet. -/
def ProducerPc.assigns : ProducerPc → Option TaskRef
  | .allocating call (.assign _ _) => some call.task
  | _ => none

/-- `active_tasks_` is what the workers have registered, and a task carries the edge that
it was reserved on. -/
structure Present (s : State) : Prop where
  listed : s.world.executor.activeTasks.Perm s.registered
  assigned : ∀ t e, (t, e) ∈ s.log.granted → s.producer.assigns ≠ some t →
    (s.world.task t).assignedEdgeId = e

theorem listed_work {s : State} (hsound : Sound s)
    (h : s.world.executor.activeTasks.Perm s.registered) {e : EdgeId} {input : WorkerInput}
    {w : World} {pc' : WorkerPc}
    (hstep : workerStep e input s.world (s.workers e) = some (w, pc')) :
    w.executor.activeTasks.Perm
      (contents active w.fleet.ids (Function.update s.workers e pc')) := by
  have hnodup := s.world.fleet.nodup
  have hmem := worker_registered hsound.threads hstep
  have hfresh (t : TaskRef) (ht : t ∈ (s.workers e).held) :
      t ∉ contents active (s.world.fleet.ids.erase e) s.workers := by
    intro hother
    obtain ⟨e', he', hactive⟩ := mem_contents.mp hother
    exact (hnodup.mem_erase_iff.mp he').1 (held_unique hsound (active_held hactive) ht)
  rw [(workerStep_frame hstep).fleet]
  exact (workerStep_active hstep (h.trans (contents_split hnodup hmem)) hfresh).trans
    (contents_update hnodup hmem pc').symm

theorem listed_move {s s' : State} {label : Label} (hsound : Sound s)
    (h : s.world.executor.activeTasks.Perm s.registered) (hmove : Move s label s') :
    s'.world.executor.activeTasks.Perm s'.registered := by
  by_cases haside : ∀ e input, label ≠ .work e input
  · obtain ⟨isRunning, hexecutor⟩ := executor_aside hmove haside
    unfold State.registered
    rw [contents_aside rfl rfl rfl hsound.threads hmove haside, hexecutor]
    exact h
  · simp only [ne_eq, not_forall, not_not] at haside
    obtain ⟨e, input, rfl⟩ := haside
    cases hmove with
    | work _ _ hstep => exact listed_work hsound h hstep
    | stay _ hlabel => simp at hlabel

theorem modifyTask_assignedEdgeId (f : Task → Task)
    (h : ∀ task, (f task).assignedEdgeId = task.assignedEdgeId) (w : World) (t u : TaskRef) :
    ((w.modifyTask t f).task u).assignedEdgeId = (w.task u).assignedEdgeId := by
  by_cases hu : u = t
  · rw [hu, World.modifyTask_self, h]
  · rw [World.modifyTask_of_ne _ _ hu]

theorem workerStep_assignedEdgeId {e : EdgeId} {input : WorkerInput} {w w' : World}
    {pc pc' : WorkerPc} (h : workerStep e input w pc = some (w', pc')) (t : TaskRef) :
    (w'.task t).assignedEdgeId = (w.task t).assignedEdgeId := by
  cases workerStep_move h with
  | fetch hfetch =>
      obtain ⟨queue, mutex, rfl, -⟩ := fetchStep_effect hfetch
      rfl
  | @exec u stage _ =>
      cases stage with
      | begin => exact modifyTask_assignedEdgeId (Task.setStatus .running) (fun _ => rfl) w u t
      | conclude verdict =>
          exact modifyTask_assignedEdgeId
            (fun task => (task.setCompletionTime input.now).setStatus verdict.status)
            (fun _ => rfl) w u t
      | _ => rfl
  | _ => rfl

theorem scheduleStep_assignedEdgeId {me : Thread} {e : EdgeId} {u : TaskRef} {w w' : World}
    {pc pc' : SchedulePc} (h : scheduleStep me e u w pc = some (w', pc')) (t : TaskRef) :
    (w'.task t).assignedEdgeId = (w.task t).assignedEdgeId := by
  cases pc with
  | lock =>
      simp only [scheduleStep] at h
      split_ifs at h <;> cases h <;> rfl
  | markQueued =>
      cases h
      exact modifyTask_assignedEdgeId (Task.setStatus .queued) (fun _ => rfl) w u t
  | returned => cases h
  | _ =>
      cases h
      rfl

theorem granted_unique {s : State} (h : Sound s) {t : TaskRef} {e e' : EdgeId}
    (he : (t, e) ∈ s.log.granted) (he' : (t, e') ∈ s.log.granted) : e = e' :=
  (Prod.ext_iff.mp (List.inj_on_of_nodup_map h.fresh.nodup he he' rfl)).2

theorem assigned_alloc {s : State} (hsound : Sound s) (h : Present s) {call : AllocCall}
    {pc pc' : AllocPc} {w : World} (hpc : s.producer = .allocating call pc)
    (hstep : allocStep .producer call s.world pc = some (w, pc')) {t : TaskRef} {e : EdgeId}
    (hgranted : (t, e) ∈ s.log.granted ++ pc.grants.map fun e => (call.task, e))
    (hassigns : (ProducerPc.allocating call pc').assigns ≠ some t) :
    (w.task t).assignedEdgeId = e := by
  by_cases ht : t = call.task
  · subst ht
    cases allocStep_move hstep with
    | assign e' score =>
        change _ ∈ s.log.granted ++ [] at hgranted
        rw [List.append_nil] at hgranted
        have hheld : (call.task, e') ∈ s.log.granted := by
          apply granted_of_mem hsound
          simp [State.allPlaces, Account.places, ProducerPc.held, hpc, AllocPc.granted]
        have hassigned : ((s.world.modifyTask call.task (assignTask e')).task
            call.task).assignedEdgeId = e' := by
          rw [World.modifyTask_self]
          rfl
        exact hassigned.trans (granted_unique hsound hheld hgranted)
    | reserve n e' score => exact absurd rfl hassigns
    | _ =>
        change _ ∈ s.log.granted ++ [] at hgranted
        rw [List.append_nil] at hgranted
        refine h.assigned _ e hgranted ?_
        rw [hpc]
        rintro ⟨⟩
  · have hold : (t, e) ∈ s.log.granted := by
      refine (List.mem_append.mp hgranted).resolve_right fun hnew => ht ?_
      obtain ⟨_, -, heq⟩ := List.mem_map.mp hnew
      exact (Prod.ext_iff.mp heq).1.symm
    rw [allocStep_task_of_ne hstep ht]
    refine h.assigned t e hold ?_
    rw [hpc]
    unfold ProducerPc.assigns
    split
    · rename_i heq
      cases heq
      exact fun heq => ht (Option.some_inj.mp heq).symm
    · rintro ⟨⟩

theorem assigned_move {s s' : State} {label : Label} (hsound : Sound s)
    (h : Present s) (hmove : Move s label s') : ∀ t e, (t, e) ∈ s'.log.granted →
      s'.producer.assigns ≠ some t → (s'.world.task t).assignedEdgeId = e := by
  intro t e hgranted hassigns
  cases hmove with
  | produce kind now hidle =>
      have hold := h.assigned t e hgranted (by rw [hidle]; rintro ⟨⟩)
      have hne : t ≠ s.world.taskCounter := (hsound.fresh.granted _ hgranted).ne
      have hsame : (createTask now s.world).task t = s.world.task t :=
        World.modifyTask_of_ne s.world (fun _ => { creationTime := now }) hne
      exact (congrArg Task.assignedEdgeId hsame).trans hold
  | alloc _ hpc hstep => exact assigned_alloc hsound h hpc hstep hgranted hassigns
  | schedule _ hpc hstep =>
      rw [scheduleStep_assignedEdgeId hstep]
      exact h.assigned t e hgranted (by rw [hpc]; rintro ⟨⟩)
  | work e' input hstep =>
      rw [workerStep_assignedEdgeId hstep]
      exact h.assigned t e hgranted hassigns
  | allocated _ hpc _ | refused _ hpc _ | scheduled _ hpc | fluctuate hpc | draw _ hpc
  | passOver _ hpc | fluctuated _ hpc =>
      exact h.assigned t e hgranted (by rw [hpc]; rintro ⟨⟩)
  | _ => exact h.assigned t e hgranted hassigns

theorem Present.initial {s : State} (h : Initial s) : Present s := by
  have hregistered : s.registered = [] := by
    apply contents_eq_nil
    intro e _
    rw [h.workers]
    rfl
  constructor
  · rw [hregistered, h.executor]
  · rw [h.log]
    exact fun t e hgranted => absurd hgranted List.not_mem_nil

theorem present_of_run {start s : State} (hstart : Initial start)
    (hrun : machine.Run Machine.free start s) : Sound s ∧ Present s := by
  have hkeep {s t : State} {label : Label} (hs : Sound s ∧ Present s) (_ : Machine.free s label)
      (hstep : machine.step s label = some t) : Sound t ∧ Present t := by
    obtain ⟨hsound, hpresent⟩ := hs
    have hmove := step_move hstep
    exact ⟨hsound.move hmove,
      listed_move hsound hpresent.listed hmove, assigned_move hsound hpresent hmove⟩
  exact hrun.preserves hkeep ⟨Sound.initial hstart, Present.initial hstart⟩

/-- How many of the active tasks carry the edge. -/
def executingCount (w : World) (e : EdgeId) : Nat :=
  w.executor.activeTasks.countP fun t => (w.task t).assignedEdgeId = e

/-- When `edgeNodes` reads the fields of one node. -/
structure NodeReadings where
  usage : World
  available : World
  active : World
  queue : World

structure EdgeItem where
  edgeId : EdgeId
  status : String
  capacity : ResourceCapacity
  utilization : Amounts
  utilizationPercent : Amounts
  activeTasks : Nat
  queueLength : Nat
  load : ℚ

def edgeItem (e : EdgeId) (readings : NodeReadings) : EdgeItem :=
  let capacity := (readings.usage.node e).capacity
  let usage := (readings.usage.node e).currentUsage
  let percent r := if 0 < capacity.amounts r then usage r / capacity.amounts r * 100 else 0
  { edgeId := e
    status := if (readings.available.node e).isAvailable then "online" else "offline"
    capacity := capacity
    utilization := usage
    utilizationPercent := percent
    activeTasks := executingCount readings.active e
    queueLength := (readings.queue.node e).getQueueLength
    load := percent .cpu }

def edgeNodes (fleet : Fleet) (readings : EdgeId → NodeReadings) : List EdgeItem :=
  fleet.ids.map fun e => edgeItem e (readings e)

structure Reads (start : State) (readings : EdgeId → NodeReadings) (usage active : EdgeId → State) :
    Prop where
  usage : ∀ e, machine.Run Machine.free start (usage e) ∧ (usage e).world = (readings e).usage
  active : ∀ e, machine.Run Machine.free start (active e) ∧ (active e).world = (readings e).active

def executing : List Label :=
  handOver ++ [.start, .control, .control] ++ List.replicate 12 (.work "E01" {})

end EdgeAllocator.Pipeline
