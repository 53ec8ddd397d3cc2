import EdgeAllocator.Pipeline

/-! Where an allocated task is. Every step of the pipeline either keeps each
task in its place or hands it on to exactly one other place. -/
namespace EdgeAllocator.Pipeline

open Foundation Scheduler Executor Allocator Allocation

def ProducerPc.held (e : EdgeId) : ProducerPc → List TaskRef
  | .allocating call pc => if pc.granted = some e then [call.task] else []
  | .scheduling t e' pc => if e' = e then pc.held t else []
  | .idle | .fluctuating _ => []

def ProducerPc.edges : ProducerPc → List EdgeId
  | .allocating _ pc => pc.edges
  | .scheduling _ e _ => [e]
  | .idle | .fluctuating _ => []

@[simp] theorem tasksOn_append (e : EdgeId) (events more : List (TaskRef × EdgeId)) :
    tasksOn e (events ++ more) = tasksOn e events ++ tasksOn e more := by
  simp [tasksOn]

@[simp] theorem tasksOn_map_self (e : EdgeId) (tasks : List TaskRef) :
    tasksOn e (tasks.map fun t => (t, e)) = tasks := by
  induction tasks with
  | nil => rfl
  | cons t tasks ih => simpa [tasksOn] using ih

@[simp] theorem tasksOn_map_of_ne {e e' : EdgeId} (h : e' ≠ e) (tasks : List TaskRef) :
    tasksOn e (tasks.map fun t => (t, e')) = [] := by
  simp [tasksOn, h]

@[simp] theorem tasksOn_singleton (e e' : EdgeId) (t : TaskRef) :
    tasksOn e [(t, e')] = if e' = e then [t] else [] := by
  by_cases h : e' = e <;> simp [tasksOn, h]

theorem mem_tasksOn {e : EdgeId} {t : TaskRef} {events : List (TaskRef × EdgeId)} :
    t ∈ tasksOn e events ↔ (t, e) ∈ events := by
  simp [tasksOn]

/-- The shape of the threads: one worker for each registered edge at most, and
none left when `stop` clears the map of threads. -/
structure Threads (s : State) : Prop where
  foreign : ∀ e, e ∉ s.world.fleet.ids → s.workers e = .notStarted
  spawning : ∀ todo, s.control = .spawning todo → ∀ e ∈ todo, e ∈ s.world.fleet.ids
  joining : ∀ todo, s.control = .joining todo → ∀ e ∈ s.world.fleet.ids, e ∉ todo →
    s.workers e = .exited

theorem Move.frame {s s' : State} {label : Label} (h : Move s label s') :
    Frame s.world s'.world := by
  cases h with
  | alloc _ _ hstep => exact allocStep_frame hstep
  | schedule _ _ hstep => exact scheduleStep_frame hstep
  | draw _ _ => exact .modifyNode s.world _ rfl
  | work _ _ hstep => exact workerStep_frame hstep
  | _ => exact .of_node rfl rfl rfl

theorem fleet_run {guard : State → Label → Prop} {s t : State} (hrun : machine.Run guard s t) :
    t.world.fleet = s.world.fleet := by
  have hkeep {u v : State} {label : Label} (hu : u.world.fleet = s.world.fleet)
      (_ : guard u label) (hstep : machine.step u label = some v) :
      v.world.fleet = s.world.fleet :=
    (step_move hstep).frame.fleet.trans hu
  exact hrun.preserves hkeep rfl

theorem Threads.move {s s' : State} {label : Label} (h : Threads s) (hmove : Move s label s') :
    Threads s' := by
  obtain ⟨hforeign, hspawning, hjoining⟩ := h
  have hfleet := hmove.frame.fleet
  cases hmove with
  | work e input hstep =>
      refine ⟨fun e' he' => ?_, fun todo => hfleet ▸ hspawning todo, fun todo htodo e' he' hnot => ?_⟩
      · by_cases heq : e' = e
        · rw [heq] at he'
          rw [hforeign e (hfleet ▸ he')] at hstep
          cases hstep
        · exact (Function.update_of_ne heq _ _).trans (hforeign e' (hfleet ▸ he'))
      · by_cases heq : e' = e
        · rw [heq] at he' hnot
          rw [hjoining todo htodo e (hfleet ▸ he') hnot] at hstep
          cases hstep
        · exact (Function.update_of_ne heq _ _).trans (hjoining todo htodo e' (hfleet ▸ he') hnot)
  | start _ =>
      refine ⟨hforeign, fun todo htodo e he => ?_, fun todo htodo => (by cases htodo)⟩
      cases htodo
      exact he
  | stop _ =>
      refine ⟨hforeign, fun todo htodo => (by cases htodo), fun todo htodo e he hnot => ?_⟩
      cases htodo
      exact absurd he hnot
  | @spawn e todo hcontrol hworker =>
      refine ⟨fun e' he' => ?_, fun todo' htodo' e' he' => ?_, fun todo' htodo' => (by cases htodo')⟩
      · have hne : e' ≠ e := by
          rintro rfl
          exact he' (hspawning _ hcontrol e' List.mem_cons_self)
        exact (Function.update_of_ne hne _ _).trans (hforeign e' he')
      · cases htodo'
        exact hspawning _ hcontrol e' (List.mem_cons_of_mem _ he')
  | spawned _ =>
      exact ⟨hforeign, fun todo htodo => (by cases htodo), fun todo htodo => (by cases htodo)⟩
  | @join e todo hcontrol hworker =>
      refine ⟨hforeign, fun todo' htodo' => (by cases htodo'), fun todo' htodo' e' he' hnot => ?_⟩
      cases htodo'
      by_cases heq : e' = e
      · rw [heq]
        exact hworker
      · exact hjoining _ hcontrol e' he' fun hmem =>
          hnot ((List.mem_cons.mp hmem).resolve_left heq)
  | joined _ =>
      exact ⟨fun _ _ => rfl, fun todo htodo => (by cases htodo), fun todo htodo => (by cases htodo)⟩
  | stay _ _ => exact ⟨hforeign, hspawning, hjoining⟩
  | _ =>
      exact ⟨fun e he => hforeign e (hfleet ▸ he), fun todo htodo => hfleet ▸ hspawning todo htodo,
        fun todo htodo => hfleet ▸ hjoining todo htodo⟩

theorem edges_move {s s' : State} {label : Label}
    (h : ∀ e ∈ s.producer.edges, e ∈ s.world.fleet.ids) (hmove : Move s label s') :
    ∀ e ∈ s'.producer.edges, e ∈ s'.world.fleet.ids := by
  rw [hmove.frame.fleet]
  cases hmove with
  | alloc _ hpc hstep =>
      rw [hpc] at h
      exact allocStep_edges hstep h
  | allocated _ hpc hsuccess =>
      rw [hpc] at h
      intro e he
      apply h
      simpa [ProducerPc.edges, AllocPc.edges, hsuccess] using he
  | schedule _ hpc _ =>
      rw [hpc] at h
      exact h
  | produce _ _ _ => exact fun e he => by cases he
  | refused _ _ _ => exact fun e he => by cases he
  | scheduled _ _ => exact fun e he => by cases he
  | fluctuate _ => exact fun e he => by cases he
  | draw _ _ => exact fun e he => by cases he
  | passOver _ _ => exact fun e he => by cases he
  | fluctuated _ _ => exact fun e he => by cases he
  | _ => exact h

/-- A task object is granted at most once: the counter is beyond every granted
task, and the call at hand is about a task not granted before. -/
structure Fresh (s : State) : Prop where
  granted : ∀ grant ∈ s.log.granted, grant.1 < s.world.taskCounter
  nodup : (s.log.granted.map Prod.fst).Nodup
  current : ∀ call pc, s.producer = .allocating call pc → call.task < s.world.taskCounter ∧
    (pc.granted = none → call.task ∉ s.log.granted.map Prod.fst)

theorem granted_grant (t : TaskRef) (edges : List EdgeId) (log : Log) :
    (log.grant t edges).granted = log.granted ++ edges.map fun e => (t, e) := rfl

@[simp] theorem grant_nil (t : TaskRef) (log : Log) : log.grant t [] = log := by
  simp [Log.grant]

theorem Fresh.move {s s' : State} {label : Label} (h : Fresh s)
    (hedges : ∀ e ∈ s.producer.edges, e ∈ s.world.fleet.ids) (hmove : Move s label s') :
    Fresh s' := by
  obtain ⟨hgranted, hnodup, hcurrent⟩ := h
  cases hmove with
  | produce kind now hidle =>
      refine ⟨fun grant hgrant => Nat.lt_succ_of_lt (hgranted grant hgrant), hnodup, ?_⟩
      rintro call pc ⟨rfl, rfl⟩
      refine ⟨Nat.lt_succ_self _, fun _ hmem => ?_⟩
      obtain ⟨grant, hgrant, heq⟩ := List.mem_map.mp hmem
      exact absurd (hgranted grant hgrant) (by rw [heq]; exact lt_irrefl _)
  | @alloc draws call pc pc' w hpc hstep =>
      obtain ⟨hcounter, hnew⟩ := hcurrent call pc hpc
      have hsame := allocStep_taskCounter hstep
      obtain ⟨-, hkeep, hgrants⟩ | ⟨n, e, score, rfl, rfl, -⟩ := allocStep_node hstep
      · rw [hgrants, grant_nil]
        refine ⟨hsame ▸ hgranted, hnodup, ?_⟩
        rintro call₁ pc₁ ⟨rfl, rfl⟩
        exact ⟨hsame ▸ hcounter, hkeep ▸ hnew⟩
      · have hfresh := hnew rfl
        refine ⟨fun grant hgrant => ?_, ?_, ?_⟩
        · rcases List.mem_append.mp hgrant with hold | hlast
          · exact hsame ▸ hgranted grant hold
          · rw [List.mem_singleton.mp hlast]
            exact hsame ▸ hcounter
        · have hadd : (s.log.granted.map Prod.fst ++ [call.task]).Nodup :=
            hnodup.append (List.nodup_singleton _) (List.disjoint_singleton.mpr hfresh)
          simpa [Log.grant, AllocPc.grants] using hadd
        · rintro call₁ pc₁ ⟨rfl, rfl⟩
          exact ⟨hsame ▸ hcounter, fun hnone => by cases hnone⟩
  | @schedule draws t e pc pc' w hpc hstep =>
      have he : e ∈ s.world.fleet.ids := hedges e (by rw [hpc]; exact List.mem_singleton_self e)
      exact ⟨(scheduleStep_effect hstep he).taskCounter ▸ hgranted, hnodup,
        fun call pc hcall => by cases hcall⟩
  | work e input hstep =>
      have hsame := workerStep_taskCounter hstep
      exact ⟨hsame ▸ hgranted, hnodup, fun call pc hcall => hsame ▸ hcurrent call pc hcall⟩
  | allocated _ _ _ => exact ⟨hgranted, hnodup, fun call pc hcall => by cases hcall⟩
  | refused _ _ _ => exact ⟨hgranted, hnodup, fun call pc hcall => by cases hcall⟩
  | scheduled _ _ => exact ⟨hgranted, hnodup, fun call pc hcall => by cases hcall⟩
  | fluctuate _ => exact ⟨hgranted, hnodup, fun call pc hcall => by cases hcall⟩
  | draw _ _ => exact ⟨hgranted, hnodup, fun call pc hcall => by cases hcall⟩
  | passOver _ _ => exact ⟨hgranted, hnodup, fun call pc hcall => by cases hcall⟩
  | fluctuated _ _ => exact ⟨hgranted, hnodup, fun call pc hcall => by cases hcall⟩
  | _ => exact ⟨hgranted, hnodup, hcurrent⟩

/-- One way to count what a worker keeps of an edge's tasks, with the log entry
that a task leaves behind when it no longer counts. -/
structure Account where
  kept : WorkerPc → List TaskRef
  leaves : WorkerPc → List TaskRef
  record : Log → List (TaskRef × EdgeId)
  kept_notStarted : kept .notStarted = []
  kept_loopHead : kept .loopHead = []
  kept_exited : kept .exited = []
  record_grant : ∀ t edges log, record (log.grant t edges) = record log
  record_work : ∀ e pc log, record (log.work e pc) = record log ++ (leaves pc).map fun t => (t, e)
  step : ∀ {e input w w' pc pc'}, workerStep e input w pc = some (w', pc') →
    ((w'.node e).queued ++ kept pc' ++ leaves pc).Perm ((w.node e).queued ++ kept pc)

/-- A task counts until its execution has returned. -/
def custody : Account where
  kept := WorkerPc.held
  leaves := WorkerPc.finishes
  record := Log.finished
  kept_notStarted := rfl
  kept_loopHead := rfl
  kept_exited := rfl
  record_grant := fun _ _ _ => rfl
  record_work := fun _ _ _ => rfl
  step := workerStep_custody

/-- A task counts until its resources are given back. -/
def reservation : Account where
  kept := WorkerPc.reserved
  leaves := WorkerPc.releases
  record := Log.released
  kept_notStarted := rfl
  kept_loopHead := rfl
  kept_exited := rfl
  record_grant := fun _ _ _ => rfl
  record_work := fun _ _ _ => rfl
  step := workerStep_reserved

namespace Account

variable (account : Account)

def places (s : State) (e : EdgeId) : List TaskRef :=
  s.producer.held e ++ (s.world.node e).queued ++ account.kept (s.workers e)

def Balanced (s : State) : Prop :=
  ∀ e, (account.places s e ++ tasksOn e (account.record s.log)).Perm (tasksOn e s.log.granted)

variable {account} {s s' : State}

theorem Balanced.of_eq (h : account.Balanced s) (hlog : s'.log = s.log)
    (hproducer : ∀ e, s'.producer.held e = s.producer.held e)
    (hqueue : ∀ e, (s'.world.node e).queued = (s.world.node e).queued)
    (hworkers : ∀ e, account.kept (s'.workers e) = account.kept (s.workers e)) :
    account.Balanced s' := by
  intro e
  have hplaces : account.places s' e = account.places s e := by
    rw [places, places, hproducer, hqueue, hworkers]
  rw [hplaces, hlog]
  exact h e

theorem Balanced.grant (h : account.Balanced s) {call : AllocCall} {n : Nat} {e : EdgeId}
    {score : ℚ} (hpc : s.producer = .allocating call (.reserve n e score)) :
    account.Balanced { s with
      world := s.world.modifyNode e (EdgeNode.allocateResources (s.world.demand call.task))
      producer := .allocating call (.assign e score)
      log := s.log.grant call.task [e] } := by
  intro e'
  have hold := h e'
  simp only [places, hpc, ProducerPc.held, AllocPc.granted, reduceCtorEq, if_false,
    List.nil_append] at hold
  simp only [places, ProducerPc.held, AllocPc.granted, account.record_grant, granted_grant,
    tasksOn_append, List.map_cons, List.map_nil, tasksOn_singleton]
  by_cases he : e' = e
  · rw [he] at hold ⊢
    simp only [if_true, World.modifyNode_self, List.append_assoc] at hold ⊢
    exact List.perm_append_comm.trans (hold.append_right [call.task])
  · simp only [Option.some.injEq, Ne.symm he, if_false, List.nil_append, List.append_nil,
      World.modifyNode_of_ne _ _ he]
    exact hold

theorem Balanced.schedule (h : account.Balanced s) {t : TaskRef} {e : EdgeId}
    {pc pc' : SchedulePc} {w : World} (hpc : s.producer = .scheduling t e pc)
    (heffect : ScheduleEffect e t s.world w pc pc') :
    account.Balanced { s with world := w, producer := .scheduling t e pc' } := by
  intro e'
  have hold := h e'
  simp only [places, hpc, ProducerPc.held] at hold ⊢
  by_cases he : e' = e
  · subst he
    simp only [if_true] at hold ⊢
    have hhand := (List.perm_append_comm.trans heffect.queue).trans List.perm_append_comm
    exact ((hhand.append_right _).append_right _).trans hold
  · simp only [Ne.symm he, if_false] at hold ⊢
    rw [heffect.other e' he]
    exact hold

theorem Balanced.work (h : account.Balanced s) {e : EdgeId} {input : WorkerInput} {w : World}
    {pc' : WorkerPc} (hstep : workerStep e input s.world (s.workers e) = some (w, pc')) :
    account.Balanced { s with
      world := w
      workers := Function.update s.workers e pc'
      log := s.log.work e (s.workers e) } := by
  intro e'
  have hold := h e'
  by_cases he : e' = e
  · subst he
    have hcustody := account.step hstep
    rw [List.perm_iff_count] at hold hcustody ⊢
    intro t
    have hold := hold t
    have hcustody := hcustody t
    simp only [places, account.record_work, Function.update_self, tasksOn_append, tasksOn_map_self,
      List.count_append] at hold hcustody ⊢
    simp only [Log.work]
    omega
  · simp only [places, account.record_work, Function.update_of_ne he, tasksOn_append,
      tasksOn_map_of_ne (Ne.symm he), List.append_nil, workerStep_node_of_ne hstep he] at hold ⊢
    exact hold

theorem Balanced.move (h : account.Balanced s) {label : Label} (hthreads : Threads s)
    (hedges : ∀ e ∈ s.producer.edges, e ∈ s.world.fleet.ids) (hmove : Move s label s') :
    account.Balanced s' := by
  cases hmove with
  | produce kind now hidle =>
      exact h.of_eq rfl (fun e => by rw [hidle]; rfl) (fun _ => rfl) (fun _ => rfl)
  | alloc draws hpc hstep =>
      obtain ⟨hnode, hkeep, hgrants⟩ | ⟨n, e, score, rfl, rfl, rfl⟩ := allocStep_node hstep
      · rw [hgrants, grant_nil]
        refine h.of_eq rfl (fun e => ?_) (fun e => ?_) (fun _ => rfl)
        · rw [hpc, ProducerPc.held, ProducerPc.held, hkeep]
        · exact congrArg (fun node => (node e).queued) hnode
      · exact h.grant hpc
  | @allocated draws call result hpc hsuccess =>
      refine h.of_eq rfl (fun e => ?_) (fun _ => rfl) (fun _ => rfl)
      rw [hpc]
      simp [ProducerPc.held, AllocPc.granted, SchedulePc.held, hsuccess]
  | @refused draws call result hpc hfailure =>
      refine h.of_eq rfl (fun e => ?_) (fun _ => rfl) (fun _ => rfl)
      rw [hpc]
      simp [ProducerPc.held, AllocPc.granted, hfailure]
  | schedule draws hpc hstep =>
      exact h.schedule hpc (scheduleStep_effect hstep
        (hedges _ (by rw [hpc]; exact List.mem_singleton_self _)))
  | scheduled draws hpc =>
      refine h.of_eq rfl (fun e => ?_) (fun _ => rfl) (fun _ => rfl)
      rw [hpc]
      simp [ProducerPc.held, SchedulePc.held]
  | fluctuate hidle =>
      exact h.of_eq rfl (fun e => by rw [hidle]; rfl) (fun _ => rfl) (fun _ => rfl)
  | @draw draws e todo hpc =>
      refine h.of_eq rfl (fun e => by rw [hpc]; rfl) (fun e' => ?_) (fun _ => rfl)
      by_cases he : e' = e
      · rw [he, World.modifyNode_self]
        rfl
      · rw [World.modifyNode_of_ne _ _ he]
  | passOver draws hpc =>
      exact h.of_eq rfl (fun e => by rw [hpc]; rfl) (fun _ => rfl) (fun _ => rfl)
  | fluctuated draws hpc =>
      exact h.of_eq rfl (fun e => by rw [hpc]; rfl) (fun _ => rfl) (fun _ => rfl)
  | work e input hstep => exact h.work hstep
  | @spawn e todo hcontrol hworker =>
      refine h.of_eq rfl (fun _ => rfl) (fun _ => rfl) (fun e' => ?_)
      show account.kept (Function.update s.workers e .loopHead e') = account.kept (s.workers e')
      by_cases he : e' = e
      · rw [he, Function.update_self, hworker, account.kept_loopHead, account.kept_notStarted]
      · rw [Function.update_of_ne he]
  | joined hcontrol =>
      refine h.of_eq rfl (fun _ => rfl) (fun _ => rfl) (fun e => ?_)
      rw [account.kept_notStarted]
      by_cases he : e ∈ s.world.fleet.ids
      · rw [hthreads.joining [] hcontrol e he List.not_mem_nil, account.kept_exited]
      · rw [hthreads.foreign e he, account.kept_notStarted]
  | _ => exact h

end Account

/-- A point of the execution, with the log of the tasks that have passed it; a
worker is `inside` with a task from that point until it returns. -/
structure Phase where
  inside : WorkerPc → List TaskRef
  enters : WorkerPc → List TaskRef
  record : Log → List (TaskRef × EdgeId)
  inside_notStarted : inside .notStarted = []
  inside_loopHead : inside .loopHead = []
  inside_exited : inside .exited = []
  record_grant : ∀ t edges log, record (log.grant t edges) = record log
  record_work : ∀ e pc log, record (log.work e pc) = record log ++ (enters pc).map fun t => (t, e)
  step : ∀ {e input w w' pc pc'}, workerStep e input w pc = some (w', pc') →
    inside pc' ++ pc.finishes = inside pc ++ enters pc

def beginning : Phase where
  inside := WorkerPc.begun
  enters := WorkerPc.begins
  record := Log.begun
  inside_notStarted := rfl
  inside_loopHead := rfl
  inside_exited := rfl
  record_grant := fun _ _ _ => rfl
  record_work := fun _ _ _ => rfl
  step := workerStep_begun

def counting : Phase where
  inside := WorkerPc.counted
  enters := WorkerPc.counts
  record := Log.counted
  inside_notStarted := rfl
  inside_loopHead := rfl
  inside_exited := rfl
  record_grant := fun _ _ _ => rfl
  record_work := fun _ _ _ => rfl
  step := workerStep_counted

namespace Phase

variable (phase : Phase)

def Tracked (s : State) : Prop :=
  ∀ e, (tasksOn e (phase.record s.log)).Perm
    (tasksOn e s.log.finished ++ phase.inside (s.workers e))

variable {phase} {s s' : State}

theorem Tracked.work (h : phase.Tracked s) {e : EdgeId} {input : WorkerInput}
    {w : World} {pc' : WorkerPc}
    (hstep : workerStep e input s.world (s.workers e) = some (w, pc')) :
    phase.Tracked { s with
      world := w
      workers := Function.update s.workers e pc'
      log := s.log.work e (s.workers e) } := by
  intro e'
  have hold := h e'
  simp only [phase.record_work, tasksOn_append]
  by_cases he : e' = e
  · subst he
    have hinside := List.Perm.of_eq (phase.step hstep)
    rw [List.perm_iff_count] at hold hinside ⊢
    intro t
    have hold := hold t
    have hinside := hinside t
    simp only [Log.work, Function.update_self, tasksOn_append, tasksOn_map_self,
      List.count_append] at hold hinside ⊢
    omega
  · simpa [Log.work, Function.update_of_ne he, Ne.symm he] using hold

theorem Tracked.move (h : phase.Tracked s) {label : Label} (hthreads : Threads s)
    (hmove : Move s label s') : phase.Tracked s' := by
  cases hmove with
  | alloc draws hpc hstep =>
      intro e
      simp only [phase.record_grant]
      exact h e
  | work e input hstep => exact h.work hstep
  | @spawn e todo hcontrol hworker =>
      intro e'
      show (tasksOn e' (phase.record s.log)).Perm
        (tasksOn e' s.log.finished ++ phase.inside (Function.update s.workers e .loopHead e'))
      by_cases he : e' = e
      · subst he
        have hold := h e'
        rw [hworker, phase.inside_notStarted] at hold
        rw [Function.update_self, phase.inside_loopHead]
        exact hold
      · rw [Function.update_of_ne he]
        exact h e'
  | joined hcontrol =>
      intro e
      have hold := h e
      show (tasksOn e (phase.record s.log)).Perm
        (tasksOn e s.log.finished ++ phase.inside .notStarted)
      rw [phase.inside_notStarted]
      by_cases he : e ∈ s.world.fleet.ids
      · rw [hthreads.joining [] hcontrol e he List.not_mem_nil, phase.inside_exited] at hold
        exact hold
      · rw [hthreads.foreign e he, phase.inside_notStarted] at hold
        exact hold
  | _ => exact h

end Phase

/-- What holds of every state that the pipeline can reach. -/
structure Sound (s : State) : Prop where
  threads : Threads s
  edges : ∀ e ∈ s.producer.edges, e ∈ s.world.fleet.ids
  fresh : Fresh s
  custody : custody.Balanced s
  reservation : reservation.Balanced s
  begun : beginning.Tracked s
  counted : counting.Tracked s

theorem Sound.initial {s : State} (h : Initial s) : Sound s := by
  have hqueue (e : EdgeId) : (s.world.node e).queued = [] := by
    obtain ⟨capacity, hnode⟩ := h.node e
    rw [hnode]
    rfl
  have hbalanced (account : Account) (hrecord : account.record {} = []) :
      account.Balanced s := by
    intro e
    simp [Account.places, h.producer, h.workers, h.log, hqueue, hrecord, account.kept_notStarted,
      ProducerPc.held]
  constructor
  · refine ⟨fun e _ => h.workers e, fun todo htodo => ?_, fun todo htodo => ?_⟩
    all_goals
      rw [h.control] at htodo
      cases htodo
  · rw [h.producer]
    exact fun e he => by cases he
  · refine ⟨?_, ?_, fun call pc hpc => ?_⟩
    · rw [h.log]
      exact fun _ hgrant => by cases hgrant
    · rw [h.log]
      exact List.nodup_nil
    · rw [h.producer] at hpc
      cases hpc
  · exact hbalanced _ rfl
  · exact hbalanced _ rfl
  all_goals
    intro e
    rw [h.log, h.workers]
    exact .refl _

theorem Sound.move {s s' : State} {label : Label} (h : Sound s) (hmove : Move s label s') :
    Sound s' where
  threads := h.threads.move hmove
  edges := edges_move h.edges hmove
  fresh := h.fresh.move h.edges hmove
  custody := h.custody.move h.threads h.edges hmove
  reservation := h.reservation.move h.threads h.edges hmove
  begun := h.begun.move h.threads hmove
  counted := h.counted.move h.threads hmove

theorem Sound.of_reachable {guard : State → Label → Prop} {s : State}
    (h : machine.Reachable guard s) : Sound s :=
  h.invariant Sound.initial fun hs _ hstep => hs.move (step_move hstep)

inductive Place where
  | producer
  | queue
  | scratch
  | hand
  | finished
  deriving DecidableEq

def State.occurrences (s : State) (t : TaskRef) (place : Place) (e : EdgeId) : Nat :=
  match place, s.workers e with
  | .producer, _ => (s.producer.held e).count t
  | .queue, _ => (s.world.node e).taskQueue.count (some t)
  | .scratch, .fetching pc => pc.held.count t
  | .hand, .executing t' _ => [t'].count t
  | .finished, _ => (tasksOn e s.log.finished).count t
  | _, _ => 0

def edgesOf (t : TaskRef) (events : List (TaskRef × EdgeId)) : List EdgeId :=
  (events.filter fun event => event.1 = t).map Prod.snd

theorem count_edgesOf (t : TaskRef) (e : EdgeId) (events : List (TaskRef × EdgeId)) :
    (edgesOf t events).count e = events.count (t, e) := by
  induction events with
  | nil => rfl
  | cons event events ih =>
      obtain ⟨t', e'⟩ := event
      by_cases ht : t' = t <;> by_cases he : e' = e <;> simpa [edgesOf, ht, he] using ih

theorem count_tasksOn (t : TaskRef) (e : EdgeId) (events : List (TaskRef × EdgeId)) :
    (tasksOn e events).count t = events.count (t, e) := by
  induction events with
  | nil => rfl
  | cons event events ih =>
      obtain ⟨t', e'⟩ := event
      by_cases ht : t' = t <;> by_cases he : e' = e <;> simpa [tasksOn, ht, he] using ih

theorem count_queued (node : EdgeNode) (t : TaskRef) :
    node.queued.count t = node.taskQueue.count (some t) := by
  unfold EdgeNode.queued
  induction node.taskQueue with
  | nil => rfl
  | cons task rest ih => cases task <;> simp [List.count_cons, ih]

theorem State.sum_occurrences (s : State) (t : TaskRef) (e : EdgeId) :
    s.occurrences t .producer e + s.occurrences t .queue e + s.occurrences t .scratch e +
        s.occurrences t .hand e + s.occurrences t .finished e =
      (custody.places s e ++ tasksOn e s.log.finished).count t := by
  simp only [Account.places, List.count_append, count_queued, custody]
  cases hworker : s.workers e <;>
    simp only [occurrences, hworker, WorkerPc.held, List.count_nil] <;> omega

theorem count_granted {s : State} (h : Fresh s) {t : TaskRef} {e : EdgeId}
    (hgrant : (t, e) ∈ s.log.granted) (e' : EdgeId) :
    s.log.granted.count (t, e') = if e' = e then 1 else 0 := by
  by_cases he : e' = e
  · rw [he, if_pos rfl, List.count_eq_one_of_mem h.nodup.of_map hgrant]
  · rw [if_neg he, List.count_eq_zero]
    intro hother
    have heq := List.inj_on_of_nodup_map h.nodup hother hgrant rfl
    exact he (Prod.ext_iff.mp heq).2

theorem sublist_singleton {edges : List EdgeId} {e : EdgeId}
    (h : ∀ e', edges.count e' ≤ if e' = e then 1 else 0) : edges.Sublist [e] := by
  cases edges with
  | nil => exact List.nil_sublist _
  | cons head rest =>
      have hhead : head = e := by
        have hcount := h head
        rw [List.count_cons_self] at hcount
        split_ifs at hcount with heq
        · exact heq
        · omega
      have hrest : rest = [] := by
        refine List.eq_nil_iff_forall_not_mem.mpr fun e' he' => ?_
        have hcount := h e'
        have hmem := List.count_pos_iff.mpr he'
        rw [hhead, List.count_cons] at hcount
        by_cases heq : e' = e
        · rw [heq] at hcount hmem
          rw [if_pos rfl, if_pos (beq_self_eq_true e)] at hcount
          omega
        · rw [if_neg heq] at hcount
          omega
      rw [hhead, hrest]

theorem granted_of_returned {s : State} (h : Sound s) {call : AllocCall}
    {result : AllocationResult} (hpc : s.producer = .allocating call (.returned result))
    (hsuccess : result.success = true) : (call.task, result.edgeId) ∈ s.log.granted := by
  have hheld : call.task ∈ custody.places s result.edgeId := by
    simp [Account.places, hpc, ProducerPc.held, AllocPc.granted, hsuccess]
  exact mem_tasksOn.mp ((h.custody result.edgeId).subset (List.mem_append_left _ hheld))

/-- Each allocated task is in exactly one place, on the edge that it was
allocated to, and is executed and released there at most once. -/
theorem exactly_one_place {s : State} (hs : machine.Reachable Machine.free s) {t : TaskRef}
    {e : EdgeId} (hgrant : (t, e) ∈ s.log.granted) :
    (∃ place, ∀ place' e', s.occurrences t place' e' = if place' = place ∧ e' = e then 1 else 0) ∧
      (edgesOf t s.log.begun).Sublist [e] ∧ (edgesOf t s.log.released).Sublist [e] := by
  have hsound := Sound.of_reachable hs
  have hcount := count_granted hsound.fresh hgrant
  have hplaces (e' : EdgeId) := (hsound.custody e').count_eq t
  refine ⟨?_, sublist_singleton fun e' => ?_, sublist_singleton fun e' => ?_⟩
  · have hsum (e' : EdgeId) := (s.sum_occurrences t e').trans (hplaces e')
    simp only [count_tasksOn, hcount] at hsum
    have hone := hsum e
    rw [if_pos rfl] at hone
    have hzero (place' : Place) (e' : EdgeId) (he : e' ≠ e) :
        s.occurrences t place' e' = 0 := by
      have hother := hsum e'
      rw [if_neg he] at hother
      cases place' <;> omega
    obtain ⟨place, hplace⟩ : ∃ place, s.occurrences t place e = 1 := by
      by_contra hnone
      push Not at hnone
      have h₁ := hnone .producer
      have h₂ := hnone .queue
      have h₃ := hnone .scratch
      have h₄ := hnone .hand
      have h₅ := hnone .finished
      omega
    refine ⟨place, fun place' e' => ?_⟩
    by_cases he : e' = e
    · rw [he]
      cases place <;> cases place' <;> simp <;> omega
    · rw [if_neg fun h => he h.2, hzero place' e' he]
  · have hbegun : (tasksOn e' s.log.begun).count t =
        (tasksOn e' s.log.finished ++ (s.workers e').begun).count t :=
      (hsound.begun e').count_eq t
    have hkept := (hplaces e').symm
    have hsub := (s.workers e').begun_sublist.count_le t
    rw [count_tasksOn, hcount] at hkept
    rw [count_edgesOf, ← count_tasksOn, hbegun, hkept]
    simp only [Account.places, List.count_append, custody] at hsub ⊢
    omega
  · have hreleased := (hsound.reservation e').count_eq t
    rw [count_tasksOn, hcount] at hreleased
    rw [count_edgesOf, ← count_tasksOn, ← hreleased, List.count_append]
    exact Nat.le_add_left _ _

theorem exactly_one_place_handedOver :
    let s := machine.final (bootSingle (fun _ => TaskProfile.camera) .fifo) handOver
    (∃ place, ∀ place' e',
        s.occurrences 0 place' e' = if place' = place ∧ e' = "E01" then 1 else 0) ∧
      (edgesOf 0 s.log.begun).Sublist ["E01"] ∧ (edgesOf 0 s.log.released).Sublist ["E01"] :=
  exactly_one_place (Machine.reachable_final (boot_initial ..) (by decide +kernel))
    (by decide +kernel)

end EdgeAllocator.Pipeline
