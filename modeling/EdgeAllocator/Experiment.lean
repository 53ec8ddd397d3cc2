import EdgeAllocator.Tally

/-! `runExperiment`: the main thread starts the workers, generates and allocates
the tasks, polls the queues until they look empty, and stops the executor. -/
namespace EdgeAllocator.Experiment

open Foundation Scheduler Executor Allocator Allocation Pipeline

/-- Where the main thread stands. `i` is the counter of the generation loop;
`drained` tells whether the drain loop ended because the queues looked empty. -/
inductive MainPc where
  | starting
  | spawning
  | generating (i : Nat)
  | producing (i : Nat)
  | fluctuating (i : Nat)
  | draining (anyQueued : Bool)
  | polling (todo : List EdgeId)
  | napping (anyQueued : Bool)
  | stopping (drained : Bool)
  | finished (drained : Bool)
  deriving DecidableEq

structure State where
  pipe : Pipeline.State
  taskCount : Nat
  edges : List EdgeId
  main : MainPc := .starting

structure MainInput where
  now : Int := 0
  deadlinePassed : Bool := false
  draws : EdgeNode.Draws := {}

inductive Label where
  | main (input : MainInput)
  | work (e : EdgeId) (input : WorkerInput)

def State.drive (s : State) (label : Pipeline.Label) (main : MainPc) : Option State :=
  (Pipeline.step s.pipe label).map fun pipe => { s with pipe := pipe, main := main }

def mainStep (input : MainInput) (s : State) : Option State :=
  match s.main with
  | .starting => s.drive .start .spawning
  | .spawning =>
      match s.pipe.control with
      | .idle => some { s with main := .generating 0 }
      | _ => s.drive .control .spawning
  | .generating i =>
      if i < s.taskCount then s.drive (.produce (.withRetry 200) input.now) (.producing i)
      else some { s with main := .draining true }
  | .producing i =>
      match s.pipe.producer with
      | .idle =>
          if i % 100 = 0 then s.drive .fluctuate (.fluctuating i)
          else some { s with main := .generating (i + 1) }
      | _ => s.drive (.producer input.draws) (.producing i)
  | .fluctuating i =>
      match s.pipe.producer with
      | .idle => some { s with main := .generating (i + 1) }
      | _ => s.drive (.producer input.draws) (.fluctuating i)
  | .draining anyQueued =>
      if anyQueued && !input.deadlinePassed then some { s with main := .polling s.edges }
      else s.drive .stop (.stopping !anyQueued)
  | .polling [] => some { s with main := .napping false }
  | .polling (e :: todo) =>
      some { s with
        main := if (s.pipe.world.node e).hasTasksInQueue then .napping true else .polling todo }
  | .napping anyQueued => some { s with main := .draining anyQueued }
  | .stopping drained =>
      match s.pipe.control with
      | .idle => some { s with main := .finished drained }
      | _ => s.drive .control (.stopping drained)
  | .finished _ => none

def step (s : State) : Label → Option State
  | .main input => mainStep input s
  | .work e input => s.drive (.work e input) s.main

structure Initial (s : State) : Prop where
  pipe : Pipeline.Initial s.pipe
  edges : s.edges.Perm s.pipe.world.fleet.ids
  main : s.main = .starting

def machine : Machine State Label := ⟨Initial, step⟩

theorem drive_some {s t : State} {label : Pipeline.Label} {main : MainPc}
    (h : s.drive label main = some t) :
    ∃ pipe, Pipeline.step s.pipe label = some pipe ∧
      t = { s with pipe := pipe, main := main } := by
  obtain ⟨pipe, hpipe, hnext⟩ := Option.map_eq_some_iff.mp h
  exact ⟨pipe, hpipe, hnext.symm⟩

inductive Move (s : State) : Label → State → Prop where
  | start (input : MainInput) (h : s.main = .starting) {pipe : Pipeline.State}
      (hpipe : Pipeline.step s.pipe .start = some pipe) :
      Move s (.main input) { s with pipe := pipe, main := .spawning }
  | spawn (input : MainInput) (h : s.main = .spawning) {pipe : Pipeline.State}
      (hpipe : Pipeline.step s.pipe .control = some pipe) :
      Move s (.main input) { s with pipe := pipe, main := .spawning }
  | spawned (input : MainInput) (h : s.main = .spawning) (hidle : s.pipe.control = .idle) :
      Move s (.main input) { s with main := .generating 0 }
  | generate (input : MainInput) {i : Nat} (h : s.main = .generating i) {pipe : Pipeline.State}
      (hpipe : Pipeline.step s.pipe (.produce (.withRetry 200) input.now) = some pipe) :
      Move s (.main input) { s with pipe := pipe, main := .producing i }
  | generated (input : MainInput) {i : Nat} (h : s.main = .generating i)
      (hlast : s.taskCount ≤ i) : Move s (.main input) { s with main := .draining true }
  | produce (input : MainInput) {i : Nat} (h : s.main = .producing i) {pipe : Pipeline.State}
      (hpipe : Pipeline.step s.pipe (.producer input.draws) = some pipe) :
      Move s (.main input) { s with pipe := pipe, main := .producing i }
  | update (input : MainInput) {i : Nat} (h : s.main = .producing i) {pipe : Pipeline.State}
      (hpipe : Pipeline.step s.pipe .fluctuate = some pipe) :
      Move s (.main input) { s with pipe := pipe, main := .fluctuating i }
  | fluctuate (input : MainInput) {i : Nat} (h : s.main = .fluctuating i) {pipe : Pipeline.State}
      (hpipe : Pipeline.step s.pipe (.producer input.draws) = some pipe) :
      Move s (.main input) { s with pipe := pipe, main := .fluctuating i }
  | next (input : MainInput) {i : Nat} (h : s.main = .producing i ∨ s.main = .fluctuating i)
      (hidle : s.pipe.producer = .idle) :
      Move s (.main input) { s with main := .generating (i + 1) }
  | poll (input : MainInput) {main main' : MainPc} (h : s.main = main)
      (hpoll : (∃ anyQueued, main = .draining anyQueued ∨ main = .napping anyQueued) ∨
        ∃ todo, main = .polling todo)
      (hpoll' : (∃ anyQueued, main' = .draining anyQueued ∨ main' = .napping anyQueued) ∨
        ∃ todo, main' = .polling todo) :
      Move s (.main input) { s with main := main' }
  | stop (input : MainInput) {anyQueued : Bool} (h : s.main = .draining anyQueued)
      {pipe : Pipeline.State} (hpipe : Pipeline.step s.pipe .stop = some pipe) :
      Move s (.main input) { s with pipe := pipe, main := .stopping !anyQueued }
  | join (input : MainInput) {drained : Bool} (h : s.main = .stopping drained)
      {pipe : Pipeline.State} (hpipe : Pipeline.step s.pipe .control = some pipe) :
      Move s (.main input) { s with pipe := pipe, main := .stopping drained }
  | joined (input : MainInput) {drained : Bool} (h : s.main = .stopping drained)
      (hidle : s.pipe.control = .idle) :
      Move s (.main input) { s with main := .finished drained }
  | work (e : EdgeId) (input : WorkerInput) {pipe : Pipeline.State}
      (hpipe : Pipeline.step s.pipe (.work e input) = some pipe) :
      Move s (.work e input) { s with pipe := pipe }

theorem step_move {s s' : State} {label : Label} (h : step s label = some s') :
    Move s label s' := by
  cases label with
  | work e input =>
      obtain ⟨pipe, hpipe, rfl⟩ := drive_some h
      exact .work e input hpipe
  | main input =>
      simp only [step] at h
      unfold mainStep at h
      split at h
      · obtain ⟨pipe, hpipe, rfl⟩ := drive_some h
        exact .start input ‹_› hpipe
      · split at h
        · cases h
          exact .spawned input ‹_› ‹_›
        · obtain ⟨pipe, hpipe, rfl⟩ := drive_some h
          exact .spawn input ‹_› hpipe
      · split_ifs at h with hmore
        · obtain ⟨pipe, hpipe, rfl⟩ := drive_some h
          exact .generate input ‹_› hpipe
        · cases h
          exact .generated input ‹_› (not_lt.mp hmore)
      · split at h
        · split_ifs at h
          · obtain ⟨pipe, hpipe, rfl⟩ := drive_some h
            exact .update input ‹_› hpipe
          · cases h
            exact .next input (Or.inl ‹_›) ‹_›
        · obtain ⟨pipe, hpipe, rfl⟩ := drive_some h
          exact .produce input ‹_› hpipe
      · split at h
        · cases h
          exact .next input (Or.inr ‹_›) ‹_›
        · obtain ⟨pipe, hpipe, rfl⟩ := drive_some h
          exact .fluctuate input ‹_› hpipe
      · split_ifs at h
        · cases h
          exact .poll input ‹_› (Or.inl ⟨_, Or.inl rfl⟩) (Or.inr ⟨_, rfl⟩)
        · obtain ⟨pipe, hpipe, rfl⟩ := drive_some h
          exact .stop input ‹_› hpipe
      · cases h
        exact .poll input ‹_› (Or.inr ⟨_, rfl⟩) (Or.inl ⟨_, Or.inr rfl⟩)
      · cases h
        refine .poll input ‹_› (Or.inr ⟨_, rfl⟩) ?_
        split
        · exact Or.inl ⟨_, Or.inr rfl⟩
        · exact Or.inr ⟨_, rfl⟩
      · cases h
        exact .poll input ‹_› (Or.inl ⟨_, Or.inr rfl⟩) (Or.inl ⟨_, Or.inl rfl⟩)
      · split at h
        · cases h
          exact .joined input ‹_› ‹_›
        · obtain ⟨pipe, hpipe, rfl⟩ := drive_some h
          exact .join input ‹_› hpipe
      · cases h

def Label.Drives : Label → Pipeline.Label → Prop
  | .work e input, pipeLabel => pipeLabel = .work e input
  | .main _, pipeLabel => (∀ e input, pipeLabel ≠ .work e input) ∧
      (∀ strategy, pipeLabel ≠ .setAllocation strategy) ∧
        ∀ strategy, pipeLabel ≠ .setScheduling strategy

theorem Label.Drives.sets_nothing {label : Label} {pipeLabel : Pipeline.Label}
    (h : label.Drives pipeLabel) : (∀ strategy, pipeLabel ≠ .setAllocation strategy) ∧
      ∀ strategy, pipeLabel ≠ .setScheduling strategy := by
  cases label with
  | main input => exact h.2
  | work e input =>
      cases h
      exact ⟨nofun, nofun⟩

theorem Move.pipeline {s s' : State} {label : Label} (h : Move s label s') :
    (∃ input, label = .main input) ∧ s'.pipe = s.pipe ∨ ∃ pipeLabel, label.Drives pipeLabel ∧
      Pipeline.step s.pipe pipeLabel = some s'.pipe := by
  cases h with
  | start _ _ hpipe => exact Or.inr ⟨.start, ⟨nofun, nofun, nofun⟩, hpipe⟩
  | spawn _ _ hpipe => exact Or.inr ⟨.control, ⟨nofun, nofun, nofun⟩, hpipe⟩
  | generate _ _ hpipe => exact Or.inr ⟨.produce _ _, ⟨nofun, nofun, nofun⟩, hpipe⟩
  | produce _ _ hpipe => exact Or.inr ⟨.producer _, ⟨nofun, nofun, nofun⟩, hpipe⟩
  | update _ _ hpipe => exact Or.inr ⟨.fluctuate, ⟨nofun, nofun, nofun⟩, hpipe⟩
  | fluctuate _ _ hpipe => exact Or.inr ⟨.producer _, ⟨nofun, nofun, nofun⟩, hpipe⟩
  | stop _ _ hpipe => exact Or.inr ⟨.stop, ⟨nofun, nofun, nofun⟩, hpipe⟩
  | join _ _ hpipe => exact Or.inr ⟨.control, ⟨nofun, nofun, nofun⟩, hpipe⟩
  | work _ _ hpipe => exact Or.inr ⟨.work _ _, rfl, hpipe⟩
  | _ => exact Or.inl ⟨⟨_, rfl⟩, rfl⟩

theorem Move.pipe {s s' : State} {label : Label} (h : Move s label s') :
    Pipeline.machine.Run Machine.free s.pipe s'.pipe := by
  obtain ⟨-, hsame⟩ | ⟨pipeLabel, -, hpipe⟩ := h.pipeline
  · rw [hsame]
    exact .refl _
  · exact .tail (.refl _) trivial hpipe

theorem pipe_reachable {guard : State → Label → Prop} {s : State}
    (h : machine.Reachable guard s) : Pipeline.machine.Reachable Machine.free s.pipe :=
  h.map State.pipe Initial.pipe fun _ hstep => (step_move hstep).pipe

end EdgeAllocator.Experiment
