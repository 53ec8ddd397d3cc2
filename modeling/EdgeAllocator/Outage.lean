import EdgeAllocator.Failure

/-! What runs on a failed node. The worker of an edge reads the queue of its
edge and nothing else; the flag that a failure clears is read by the allocator
and by the monitor only. -/
namespace EdgeAllocator.Outage

open Foundation Scheduler Executor Pipeline
open Failure (holdsNodes)

/-- `attached` tells whether a controller has registered its callback. For each
worker `availableAtCall` is the flag of its edge when it last called
`getNextTask`, and `startedOnFailed` lists the executions begun after the flag was
false there; no step reads these two. -/
structure State where
  failure : Failure.State
  attached : Bool
  availableAtCall : EdgeId → Bool := fun _ => true
  startedOnFailed : List (TaskRef × EdgeId) := []

def mark (e : EdgeId) (s : Failure.State) : Failure.State :=
  if e ∈ s.pipe.world.fleet.ids then
    { s.modifyWorld (World.modifyNode e (EdgeNode.setAvailable false)) with
      counters := s.counters.failure }
  else s

def note (e : EdgeId) (s : State) : State :=
  match s.failure.pipe.workers e with
  | .loopHead =>
      let available := (s.failure.pipe.world.node e).isAvailable
      { s with availableAtCall := Function.update s.availableAtCall e available }
  | .fetching (.returned (some t)) =>
      { s with startedOnFailed :=
          s.startedOnFailed ++ if s.availableAtCall e then [] else [(t, e)] }
  | _ => s

def step (s : State) : Failure.Label → Option State
  | .pipe (.work e input) => (Failure.step s.failure (.pipe (.work e input))).map fun failure =>
      { note e s with failure := failure }
  | .fail k e =>
      if s.attached then
        (Failure.step s.failure (.fail k e)).map fun failure => { s with failure := failure }
      else if holdsNodes s.failure.pipe.producer then none
      else some { s with failure := mark e s.failure }
  | label => (Failure.step s.failure label).map fun failure => { s with failure := failure }

/-- The workers are not started. The queues may hold anything and any node may
have failed. -/
structure Initial (s : State) : Prop where
  workers : ∀ e, s.failure.pipe.workers e = .notStarted
  startedOnFailed : s.startedOnFailed = []

def machine : Machine State Failure.Label := ⟨Initial, step⟩

def takesFront : WorkerPc → Bool
  | .fetching .popFront | .fetching (.drainPop _) => true
  | _ => false

/-- The edge from whose queue a worker takes with this step, in a call made while
the edge was not available. -/
def takesFromFailed (s : State) : Failure.Label → Option EdgeId
  | .pipe (.work e _) =>
      if takesFront (s.failure.pipe.workers e) ∧ s.availableAtCall e = false then some e else none
  | _ => none

/-- A call of `getNextTask` that was made while the edge was not available finds
no task at the front of its queue. -/
def FindsNothing (s : State) (label : Failure.Label) : Prop :=
  ∀ e ∈ takesFromFailed s label, (s.failure.pipe.world.node e).dequeueTask.1 = none

instance (s : State) (label : Failure.Label) : Decidable (FindsNothing s label) :=
  inferInstanceAs (Decidable (∀ e ∈ takesFromFailed s label, _))

/-- The calls made while the edge was not available hold no task. -/
structure Idle (s : State) : Prop where
  fetching : ∀ e pc, s.failure.pipe.workers e = .fetching pc → s.availableAtCall e = false →
    pc.held = []
  startedOnFailed : s.startedOnFailed = []

theorem fetchStep_held {me : Thread} {e : EdgeId} {clock : ComparisonClock} {w w' : World}
    {pc pc' : FetchPc} (hstep : fetchStep me e clock w pc = some (w', pc'))
    (hheld : pc.held = [])
    (hfront : takesFront (.fetching pc) = true → (w.node e).dequeueTask.1 = none) :
    pc'.held = [] := by
  cases pc with
  | lock =>
      simp only [fetchStep] at hstep
      split_ifs at hstep
      cases hstep
      rfl
  | checkQueue =>
      simp only [fetchStep] at hstep
      split_ifs at hstep <;> cases hstep <;> rfl
  | popFront =>
      cases hstep
      rw [FetchPc.held, hfront rfl]
      rfl
  | drainCheck scratch =>
      simp only [fetchStep] at hstep
      split_ifs at hstep <;> cases hstep
      · exact hheld
      · rfl
      · exact hheld
  | drainPop scratch =>
      cases hstep
      rw [FetchPc.held, hfront rfl, List.reduceOption_append]
      exact (List.append_nil _).trans hheld
  | choose scratch =>
      obtain ⟨i, hi, hnext⟩ := Option.map_eq_some_iff.mp hstep
      cases hnext
      have hperm := erase_selected_perm (select_lt hi)
      have hscratch : scratch.reduceOption = [] := hheld
      rw [hscratch] at hperm
      exact hperm.eq_nil
  | restore selected rest =>
      cases rest with
      | nil =>
          cases hstep
          simpa [FetchPc.held] using hheld
      | cons task rest =>
          cases hstep
          have hparts := List.append_eq_nil_iff.mp hheld
          have hrest : rest.reduceOption = [] := by
            cases task with
            | none => exact hparts.2
            | some t => cases hparts.2
          exact List.append_eq_nil_iff.mpr ⟨hparts.1, hrest⟩
  | unlock selected =>
      cases hstep
      exact hheld
  | returned selected => cases hstep

theorem move_fetching {s s' : Pipeline.State} {label : Pipeline.Label} (hmove : Move s label s')
    (hlabel : ∀ e input, label ≠ .work e input) {e : EdgeId} {pc : FetchPc}
    (hpc : s'.workers e = .fetching pc) : s.workers e = .fetching pc := by
  cases hmove with
  | work e' input _ => exact absurd rfl (hlabel e' input)
  | @spawn e' todo _ _ =>
      change Function.update s.workers e' .loopHead e = .fetching pc at hpc
      by_cases he : e = e'
      · rw [he, Function.update_self] at hpc
        cases hpc
      · rw [Function.update_of_ne he] at hpc
        exact hpc
  | joined _ => cases hpc
  | _ => exact hpc

theorem failure_fetching {s s' : Failure.State} {label : Failure.Label}
    (hstep : Failure.step s label = some s') (hlabel : ∀ e input, label ≠ .pipe (.work e input))
    {e : EdgeId} {pc : FetchPc} (hpc : s'.pipe.workers e = .fetching pc) :
    s.pipe.workers e = .fetching pc := by
  cases label with
  | pipe label =>
      obtain ⟨pipe, hpipe, rfl⟩ := Option.map_eq_some_iff.mp hstep
      exact move_fetching (step_move hpipe) (fun e input heq => hlabel e input (heq ▸ rfl)) hpc
  | fail k e' =>
      simp only [Failure.step] at hstep
      split at hstep
      · split_ifs at hstep
        cases hstep
        unfold Failure.fail at hpc
        split_ifs at hpc <;> exact hpc
      · cases hstep
  | handle k =>
      obtain ⟨⟨t, next⟩, hhandler, hnext⟩ := Option.map_eq_some_iff.mp hstep
      cases hnext
      have hworkers : t.pipe.workers = s.pipe.workers := by
        unfold Failure.handlerStep at hhandler
        split at hhandler
        · cases hhandler
        · split_ifs at hhandler <;> cases hhandler <;> rfl
        · cases hhandler
          rfl
        · cases hhandler
          rfl
        · cases hhandler
          rfl
        · cases hhandler
          rfl
        · obtain ⟨⟨w, pc'⟩, -, hnext⟩ := Option.map_eq_some_iff.mp hhandler
          cases hnext
          rfl
      exact hworkers ▸ hpc
  | recover e' =>
      simp only [Failure.step] at hstep
      split_ifs at hstep
      cases hstep
      unfold Failure.recover at hpc
      split_ifs at hpc <;> exact hpc

theorem Idle.of_fetching {s : State} {failure : Failure.State} (h : Idle s)
    (hfetching : ∀ e pc, failure.pipe.workers e = .fetching pc →
      s.failure.pipe.workers e = .fetching pc) : Idle { s with failure := failure } :=
  ⟨fun e pc hpc => h.fetching e pc (hfetching e pc hpc), h.startedOnFailed⟩

theorem Idle.work {s : State} (h : Idle s) {e : EdgeId} {input : WorkerInput}
    {failure : Failure.State} (hfinds : FindsNothing s (.pipe (.work e input)))
    (hstep : Failure.step s.failure (.pipe (.work e input)) = some failure) :
    Idle { note e s with failure := failure } := by
  obtain ⟨pipe, hpipe, rfl⟩ := Option.map_eq_some_iff.mp hstep
  obtain ⟨⟨w, pc'⟩, hworker, hnext⟩ := Option.map_eq_some_iff.mp hpipe
  cases hnext
  have hfront (hpop : takesFront (s.failure.pipe.workers e) = true)
      (hfailed : s.availableAtCall e = false) :
      (s.failure.pipe.world.node e).dequeueTask.1 = none := by
    apply hfinds e
    simp only [takesFromFailed, hpop, hfailed, and_self, if_true]
    exact Option.mem_some_self e
  have hfetching := h.fetching e
  have hmine (availableAtCall : EdgeId → Bool)
      (hothers : ∀ e', e' ≠ e → availableAtCall e' = s.availableAtCall e')
      (hown : ∀ pc, pc' = .fetching pc → availableAtCall e = false → pc.held = []) :
      ∀ e' pc, Function.update s.failure.pipe.workers e pc' e' = .fetching pc →
        availableAtCall e' = false → pc.held = [] := by
    intro e' pc hpc hfailed
    by_cases he : e' = e
    · subst he
      rw [Function.update_self] at hpc
      exact hown pc hpc hfailed
    · rw [Function.update_of_ne he] at hpc
      rw [hothers e' he] at hfailed
      exact h.fetching e' pc hpc hfailed
  unfold note
  generalize hstart : s.failure.pipe.workers e = start at hworker hfetching hfront
  cases workerStep_move hworker with
  | enter _ =>
      refine ⟨hmine _ (fun e' he => Function.update_of_ne he _ _) fun pc hpc _ => ?_,
        h.startedOnFailed⟩
      cases hpc
      rfl
  | leave _ =>
      exact ⟨hmine _ (fun e' he => Function.update_of_ne he _ _) fun pc hpc _ => (by cases hpc),
        h.startedOnFailed⟩
  | take t =>
      refine ⟨hmine _ (fun _ _ => rfl) fun pc hpc _ => (by cases hpc), ?_⟩
      cases havailable : s.availableAtCall e with
      | true => simp [h.startedOnFailed]
      | false => cases hfetching _ rfl havailable
  | @fetch pc pc₁ w₁ hfetch =>
      have hown (pc₂ : FetchPc) (hpc : WorkerPc.fetching pc₁ = .fetching pc₂)
          (hfailed : s.availableAtCall e = false) : pc₂.held = [] := by
        cases hpc
        exact fetchStep_held hfetch (hfetching pc rfl hfailed) fun hpop => hfront hpop hfailed
      cases pc with
      | returned selected => cases hfetch
      | _ => exact ⟨hmine _ (fun _ _ => rfl) hown, h.startedOnFailed⟩
  | _ =>
      exact ⟨hmine _ (fun _ _ => rfl) fun pc hpc _ => (by cases hpc), h.startedOnFailed⟩

theorem Idle.step {s s' : State} {label : Failure.Label} (h : Idle s) (hfinds : FindsNothing s label)
    (hstep : machine.step s label = some s') : Idle s' := by
  have hdelegate (hmap : (Failure.step s.failure label).map
      (fun failure => { s with failure := failure }) = some s')
      (hlabel : ∀ e input, label ≠ .pipe (.work e input)) : Idle s' := by
    obtain ⟨failure, hfailure, hnext⟩ := Option.map_eq_some_iff.mp hmap
    cases hnext
    exact h.of_fetching fun e pc => failure_fetching hfailure hlabel
  cases label with
  | pipe label =>
      cases label with
      | work e input =>
          obtain ⟨failure, hfailure, hnext⟩ := Option.map_eq_some_iff.mp hstep
          cases hnext
          exact h.work hfinds hfailure
      | _ => exact hdelegate hstep fun e input heq => by cases heq
  | fail k e =>
      simp only [machine, Outage.step] at hstep
      split_ifs at hstep
      · exact hdelegate hstep fun e input heq => by cases heq
      · cases hstep
        refine h.of_fetching fun e' pc hpc => ?_
        unfold mark at hpc
        split_ifs at hpc <;> exact hpc
  | handle k => exact hdelegate hstep fun e input heq => by cases heq
  | recover e => exact hdelegate hstep fun e input heq => by cases heq

/-- As long as the calls of `getNextTask` made for a failed node find nothing, no
execution begins on one. -/
theorem none_started_on_failed {s : State} (hs : machine.Reachable FindsNothing s) :
    s.startedOnFailed = [] := by
  have hinit {s : State} (hs : machine.initial s) : Idle s := by
    refine ⟨fun e pc hpc => ?_, hs.startedOnFailed⟩
    rw [hs.workers] at hpc
    cases hpc
  exact (hs.invariant hinit Idle.step).startedOnFailed

def single (attached : Bool) : State :=
  let pipe := bootSingle (fun _ => TaskProfile.ultrasonic) .fifo
  let world := pipe.world.modifyNode "E01" fun node => { node with taskQueue := [some 0, some 1] }
  { failure := { pipe := { pipe with world := world } }, attached := attached }

theorem single_initial (attached : Bool) : machine.initial (single attached) :=
  ⟨fun _ => rfl, rfl⟩

def startWorker : List Failure.Label := [.start, .control, .control].map .pipe

def work (n : Nat) : List Failure.Label := List.replicate n (.pipe (.work "E01" {}))

def emptiedRun : List Failure.Label :=
  startWorker ++ .fail 0 "E01" :: List.replicate 19 (.handle 0) ++ work 5

theorem none_started_on_failed_emptied :
    (machine.final (single true) emptiedRun).startedOnFailed = [] :=
  none_started_on_failed ⟨_, single_initial true, Machine.run_of_checks (by decide +kernel)⟩

/-- The worker calls `getNextTask` after the failure: before the handler has taken
the tasks, or with no controller attached. -/
theorem starts_on_failed :
    (¬ ∀ s, machine.Reachable Machine.free s → s.attached = true → s.startedOnFailed = []) ∧
      ¬ ∀ s, machine.Reachable Machine.free s → s.attached = false → s.startedOnFailed = [] := by
  constructor
  · intro h
    have hnone := h (machine.final (single true) (startWorker ++ .fail 0 "E01" :: work 6))
      (Machine.reachable_final (single_initial true) (by decide +kernel)) (by decide +kernel)
    exact absurd hnone (by decide +kernel)
  · intro h
    have hnone := h (machine.final (single false) (startWorker ++ .fail 0 "E01" :: work 6))
      (Machine.reachable_final (single_initial false) (by decide +kernel)) (by decide +kernel)
    exact absurd hnone (by decide +kernel)

end EdgeAllocator.Outage
