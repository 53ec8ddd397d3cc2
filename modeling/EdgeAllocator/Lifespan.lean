import EdgeAllocator.Live

/-! The life cycle of the live runtime: which thread `processing_thread_` holds
when `start` assigns a new one to it, and how many threads are in
`processingLoop`. -/
namespace EdgeAllocator.Lifespan

open Foundation Live

/-- What `processing_thread_` holds: nothing, a thread in `processingLoop`, or one
that has cleared `running_` and is still to be joined. -/
inductive Slot where
  | empty
  | working
  | exited
  deriving DecidableEq

def slot : ProcessingPc → Slot
  | .notStarted => .empty
  | .exited _ => .exited
  | _ => .working

/-- `alive` counts the threads that have entered `processingLoop` and have not
returned from it; `logging` tells whether the one that has cleared `running_` has
its log line still to write. -/
structure State where
  live : Live.State
  alive : Nat := 0
  logging : Bool := false
  terminated : Bool := false

inductive Label where
  | live (label : Live.Label)
  /-- The log line after `running_ = false`, and the return. -/
  | finish

namespace State

def keep (s : State) (label : Live.Label) : Option State :=
  (Live.step s.live label).map fun live => { s with live := live }

/-- `processing_thread_ = std::thread(&LiveRuntime::processingLoop, this)`. The
new thread runs before it is assigned, and the assignment to a joinable thread
terminates the process. -/
def launch (s : State) : Option State :=
  if slot s.live.processing = .empty then
    (Live.step s.live .main).map fun live => { s with live := live, alive := s.alive + 1 }
  else some { s with alive := s.alive + 1, terminated := true }

def mainStep (s : State) : Option State :=
  match s.live.main with
  | .launch => s.launch
  | .joinProcessing => if s.logging then none else s.keep .main
  | _ => s.keep .main

def processStep (input : ProcessInput) (s : State) : Option State :=
  (Live.step s.live (.process input)).map fun live =>
    { s with live := live, logging := s.logging || slot live.processing = .exited }

def finish (s : State) : Option State :=
  if s.logging then some { s with alive := s.alive - 1, logging := false } else none

end State

def step (s : State) (label : Label) : Option State :=
  if s.terminated then none
  else match label with
    | .live .main => s.mainStep
    | .live (.process input) => s.processStep input
    | .live label => s.keep label
    | .finish => s.finish

structure Initial (s : State) : Prop where
  live : Live.Initial s.live
  alive : s.alive = 0
  logging : s.logging = false
  terminated : s.terminated = false

def machine : Machine State Label := ⟨Initial, step⟩

/-- No `start` comes between the end of `processingLoop` and the `stop` that
joins its thread. -/
def Joined (s : State) : Label → Prop
  | .live .start => slot s.live.processing ≠ .exited
  | _ => True

instance (s : State) : (label : Label) → Decidable (Joined s label)
  | .live .start => inferInstanceAs (Decidable (slot s.live.processing ≠ .exited))
  | .live .stop | .live .main | .live (.process _) | .live (.work _ _) | .live (.apply ..)
  | .live (.report _) | .live (.client _) | .finish => isTrue trivial

theorem step_live {s t : State} {label : Label} (h : step s label = some t) :
    Live.machine.Run Machine.free s.live t.live := by
  have hlive {label : Live.Label} {f : Live.State → State} (hf : ∀ live, (f live).live = live)
      (hmap : (Live.step s.live label).map f = some t) :
      Live.machine.Run Machine.free s.live t.live := by
    obtain ⟨live, hstep, rfl⟩ := Option.map_eq_some_iff.mp hmap
    rw [hf]
    exact .tail (.refl _) trivial hstep
  unfold step at h
  split_ifs at h
  split at h
  · unfold State.mainStep State.launch State.keep at h
    split at h
    · split_ifs at h
      · exact hlive (fun _ => rfl) h
      · cases h
        exact .refl _
    · split_ifs at h
      exact hlive (fun _ => rfl) h
    · exact hlive (fun _ => rfl) h
  · exact hlive (fun _ => rfl) h
  · exact hlive (fun _ => rfl) h
  · unfold State.finish at h
    split_ifs at h
    cases h
    exact .refl _

theorem live_reachable {guard : State → Label → Prop} {s : State}
    (h : machine.Reachable guard s) : Live.machine.Reachable Machine.free s.live :=
  h.map State.live Initial.live fun _ hstep => step_live hstep

inductive Phase where
  | idle
  | starting
  | joining
  | joined
  deriving DecidableEq

def phase : MainPc → Phase
  | .idle => .idle
  | .clearStop | .clearComplete | .startExecutor | .spawning | .launch => .starting
  | .joinProcessing => .joining
  | .stopExecutor | .joinWorkers | .clearRunning => .joined

/-- The life cycle by itself, apart from the work that is done in it. -/
structure Life where
  phase : Phase
  slot : Slot
  running : Bool
  logging : Bool
  alive : Nat

def State.life (s : State) : Life where
  phase := phase s.live.main
  slot := slot s.live.processing
  running := s.live.running
  logging := s.logging
  alive := s.alive

inductive LifeMove (life : Life) : Label → Life → Prop where
  | stay (label : Label) : LifeMove life label life
  | start (hphase : life.phase = .idle) (hrunning : life.running = false) :
      LifeMove life (.live .start) { life with phase := .starting, running := true }
  | launch (hphase : life.phase = .starting) (hslot : life.slot = .empty) :
      LifeMove life (.live .main)
        { life with phase := .idle, slot := .working, alive := life.alive + 1 }
  | leave (input : ProcessInput) (hslot : life.slot = .working) :
      LifeMove life (.live (.process input))
        { life with slot := .exited, running := false, logging := true }
  | finish (hlogging : life.logging = true) :
      LifeMove life .finish { life with logging := false, alive := life.alive - 1 }
  | stop (hphase : life.phase = .idle) : LifeMove life (.live .stop) { life with phase := .joining }
  | join (hphase : life.phase = .joining) (hslot : life.slot ≠ .working)
      (hlogging : life.logging = false) :
      LifeMove life (.live .main) { life with phase := .joined, slot := .empty }
  | stopped (hphase : life.phase = .joined) :
      LifeMove life (.live .main) { life with phase := .idle, running := false }

/-- One loop at a time. While `start` is under way nothing is left to join, and
`running_` is set until the loop clears it. -/
structure Sound (life : Life) : Prop where
  starting : life.phase = .starting → life.slot = .empty ∧ life.running = true
  joined : life.phase = .joined → life.slot = .empty
  working : life.slot = .working → life.running = true
  exited : life.slot = .exited → life.running = false
  logging : life.logging = true → life.slot = .exited
  alive : life.alive = if life.slot = .working ∨ life.logging = true then 1 else 0

theorem Sound.logging_false {life : Life} (h : Sound life) (hslot : life.slot ≠ .exited) :
    life.logging = false := by
  rw [← Bool.not_eq_true]
  intro hlogging
  exact hslot (h.logging hlogging)

theorem LifeMove.sound {life life' : Life} {label : Label} (h : LifeMove life label life')
    (hsound : Sound life) (hjoined : label = .live .start → life.slot ≠ .exited) :
    Sound life' := by
  cases h with
  | stay _ => exact hsound
  | start hphase hrunning =>
      have hempty : life.slot = .empty := by
        cases hslot : life.slot with
        | empty => rfl
        | working =>
            rw [hsound.working hslot] at hrunning
            contradiction
        | exited => exact absurd hslot (hjoined rfl)
      refine ⟨fun _ => ⟨hempty, rfl⟩, nofun, fun _ => rfl, fun h => ?_, hsound.logging,
        hsound.alive⟩
      exact absurd h (hjoined rfl)
  | launch hphase hslot =>
      have hlogging := hsound.logging_false (by rw [hslot]; decide)
      refine ⟨nofun, nofun, fun _ => (hsound.starting hphase).2, nofun, fun h => ?_, ?_⟩
      · rw [hlogging] at h
        contradiction
      · simp [hsound.alive, hslot, hlogging]
  | leave _ hslot =>
      refine ⟨fun h => ?_, fun h => ?_, nofun, fun _ => rfl, fun _ => rfl, ?_⟩
      · rw [(hsound.starting h).1] at hslot
        contradiction
      · rw [hsound.joined h] at hslot
        contradiction
      · simp [hsound.alive, hslot]
  | finish hlogging =>
      refine ⟨hsound.starting, hsound.joined, hsound.working, hsound.exited, nofun, ?_⟩
      simp [hsound.alive, hsound.logging hlogging, hlogging]
  | stop hphase =>
      exact ⟨nofun, nofun, hsound.working, hsound.exited, hsound.logging, hsound.alive⟩
  | join hphase hslot hlogging =>
      refine ⟨nofun, fun _ => rfl, nofun, nofun, fun h => ?_, ?_⟩
      · rw [hlogging] at h
        contradiction
      · simp [hsound.alive, hslot, hlogging]
  | stopped hphase =>
      refine ⟨nofun, nofun, fun h => ?_, fun _ => rfl, hsound.logging, hsound.alive⟩
      rw [hsound.joined hphase] at h
      contradiction

section Steps

variable {s : State} {live : Live.State}

theorem stay_life (label : Label) (hphase : phase live.main = phase s.live.main)
    (hslot : slot live.processing = slot s.live.processing)
    (hrunning : live.running = s.live.running) :
    LifeMove s.life label { s with live := live }.life := by
  simp only [State.life, hphase, hslot, hrunning]
  exact .stay label

theorem processMove_slot {input : ProcessInput} {t : Live.State}
    (h : ProcessMove input s.live t) :
    t.main = s.live.main ∧ slot s.live.processing = .working ∧
      (slot t.processing = .working ∧ t.running = s.live.running ∨
        slot t.processing = .exited ∧ t.running = false) := by
  cases h with
  | next hpc hfrom hto =>
      have hworking : slot s.live.processing = .working := by
        obtain ⟨i, rfl | rfl⟩ := hfrom <;> rw [hpc] <;> rfl
      refine ⟨rfl, hworking, Or.inl ⟨?_, rfl⟩⟩
      obtain ⟨i, rfl | rfl⟩ | rfl | ⟨i, rfl⟩ := hto <;> rfl
  | choose hpc hstep =>
      obtain ⟨pipe, owner, rfl⟩ := chooseStep_frame hstep
      exact ⟨rfl, congrArg slot hpc, Or.inl ⟨rfl, rfl⟩⟩
  | allocate hpc _ => exact ⟨rfl, congrArg slot hpc, Or.inl ⟨congrArg slot hpc, rfl⟩⟩
  | leave hpc => exact ⟨rfl, congrArg slot hpc, Or.inr ⟨rfl, rfl⟩⟩
  | _ => exact ⟨rfl, congrArg slot ‹_›, Or.inl ⟨rfl, rfl⟩⟩

theorem mainStep_life (h : Live.mainStep s.live = some live) (hlaunch : s.live.main ≠ .launch)
    (hjoin : s.live.main = .joinProcessing → s.logging = false) :
    LifeMove s.life (.live .main) { s with live := live }.life := by
  have hdrive {label : Pipeline.Label} {main : MainPc} (hphase : phase main = phase s.live.main)
      (h : ((s.live.drive label).map fun s => { s with main := main }) = some live) :
      LifeMove s.life (.live .main) { s with live := live }.life := by
    obtain ⟨u, hdrive, hnext⟩ := Option.map_eq_some_iff.mp h
    obtain ⟨pipe, -, rfl⟩ := drive_some hdrive
    cases hnext
    exact stay_life _ hphase rfl rfl
  have hcontrol (h : s.live.drive .control = some live) :
      LifeMove s.life (.live .main) { s with live := live }.life := by
    obtain ⟨pipe, -, rfl⟩ := drive_some h
    exact stay_life _ rfl rfl rfl
  unfold Live.mainStep at h
  cases hmain : s.live.main with
  | launch => exact absurd hmain hlaunch
  | joinProcessing =>
      have hphase : s.life.phase = .joining := congrArg phase hmain
      rw [hmain] at h
      dsimp only at h
      split at h
      · rename_i hslot
        cases h
        have hempty : s.life.slot = .empty := congrArg slot hslot
        have hmove := LifeMove.join hphase (by rw [hempty]; decide) (hjoin hmain)
        rw [← hempty] at hmove
        exact hmove
      · rename_i hslot
        cases h
        have hexited : s.life.slot = .exited := congrArg slot hslot
        exact .join hphase (by rw [hexited]; decide) (hjoin hmain)
      · cases h
  | startExecutor | stopExecutor =>
      rw [hmain] at h
      exact hdrive (by rw [hmain]; rfl) h
  | spawning | joinWorkers =>
      rw [hmain] at h
      dsimp only at h
      split at h
      · cases h
        exact stay_life _ (by rw [hmain]; rfl) rfl rfl
      · exact hcontrol h
  | clearRunning =>
      rw [hmain] at h
      cases h
      exact .stopped (congrArg phase hmain)
  | clearStop | clearComplete =>
      rw [hmain] at h
      cases h
      exact stay_life _ (by rw [hmain]; rfl) rfl rfl
  | idle =>
      rw [hmain] at h
      cases h

theorem keep_life {t : State} {label : Live.Label} (h : s.keep label = some t)
    (hprocess : ∀ input, label ≠ .process input)
    (hmain : label = .main →
      s.live.main ≠ .launch ∧ (s.live.main = .joinProcessing → s.logging = false)) :
    t.terminated = s.terminated ∧ LifeMove s.life (.live label) t.life := by
  obtain ⟨live, hlive, rfl⟩ := Option.map_eq_some_iff.mp h
  refine ⟨rfl, ?_⟩
  cases label with
  | start =>
      simp only [Live.step] at hlive
      split at hlive
      · rename_i hidle
        cases hlive
        split
        · exact .stay _
        · rename_i hrunning
          exact .start (congrArg phase hidle) (Bool.not_eq_true _ ▸ hrunning)
      · cases hlive
  | stop =>
      simp only [Live.step] at hlive
      split at hlive
      · rename_i hidle
        cases hlive
        exact .stop (congrArg phase hidle)
      · cases hlive
  | main =>
      obtain ⟨hlaunch, hjoin⟩ := hmain rfl
      exact mainStep_life hlive hlaunch hjoin
  | process input => exact absurd rfl (hprocess input)
  | work e input =>
      obtain ⟨pipe, -, rfl⟩ := drive_some hlive
      exact .stay _
  | apply k automatic allocation scheduling =>
      simp only [Live.step] at hlive
      split at hlive
      · cases hlive
        exact .stay _
      · cases hlive
  | report k =>
      simp only [Live.step] at hlive
      split at hlive
      · cases hlive
        exact .stay _
      · cases hlive
  | client k =>
      obtain ⟨⟨u, pc⟩, hstep, hnext⟩ := Option.map_eq_some_iff.mp hlive
      cases hnext
      obtain ⟨pipe, owner, config, rfl⟩ := clientStep_frame hstep
      exact .stay _

/-- A `start` that finds a thread to be joined ends the process at the launch. -/
theorem launch_life {t : State} (h : s.launch = some t) (hmain : s.live.main = .launch) :
    t.terminated = true ∧ s.life.phase = .starting ∧ s.life.slot ≠ .empty ∨
      t.terminated = s.terminated ∧ LifeMove s.life (.live .main) t.life := by
  have hphase : s.life.phase = .starting := congrArg phase hmain
  unfold State.launch at h
  split_ifs at h with hslot
  · obtain ⟨live, hlive, rfl⟩ := Option.map_eq_some_iff.mp h
    simp only [Live.step, Live.mainStep, hmain] at hlive
    split at hlive
    · cases hlive
      exact Or.inr ⟨rfl, .launch hphase hslot⟩
    · cases hlive
  · cases h
    exact Or.inl ⟨rfl, hphase, hslot⟩

theorem processStep_life {t : State} {input : ProcessInput} (h : s.processStep input = some t) :
    t.terminated = s.terminated ∧ LifeMove s.life (.live (.process input)) t.life := by
  obtain ⟨live, hlive, rfl⟩ := Option.map_eq_some_iff.mp h
  obtain ⟨hmain, hworking, hnext⟩ := processMove_slot (processStep_move hlive)
  refine ⟨rfl, ?_⟩
  obtain ⟨hslot, hrunning⟩ | ⟨hslot, hrunning⟩ := hnext
  · have hsame : (s.logging || decide (slot live.processing = .exited)) = s.logging := by
      rw [hslot]
      exact Bool.or_false _
    rw [hsame]
    exact stay_life _ (congrArg phase hmain) (hslot.trans hworking.symm) hrunning
  · have hleave : LifeMove s.life _ _ := .leave input hworking
    simp only [State.life, hmain, hslot, hrunning, decide_true, Bool.or_true] at hleave ⊢
    exact hleave

theorem step_life {t : State} {label : Label} (h : step s label = some t) :
    t.terminated = true ∧ s.life.phase = .starting ∧ s.life.slot ≠ .empty ∨
      t.terminated = false ∧ LifeMove s.life label t.life := by
  unfold step at h
  split_ifs at h with hterminated
  rw [Bool.not_eq_true] at hterminated
  rw [← hterminated]
  cases label with
  | finish =>
      simp only [State.finish] at h
      split_ifs at h with hlogging
      cases h
      exact Or.inr ⟨rfl, .finish hlogging⟩
  | live label =>
      cases label with
      | main =>
          simp only [State.mainStep] at h
          split at h
          · exact launch_life h ‹_›
          · rename_i hjoin
            split_ifs at h with hlogging
            rw [Bool.not_eq_true] at hlogging
            exact Or.inr (keep_life h nofun fun _ => ⟨by rw [hjoin]; nofun, fun _ => hlogging⟩)
          · rename_i hlaunch hjoin
            exact Or.inr (keep_life h nofun fun _ => ⟨hlaunch, fun h => absurd h hjoin⟩)
      | process input => exact Or.inr (processStep_life h)
      | start | stop | work | apply | report | client => exact Or.inr (keep_life h nofun nofun)

end Steps

theorem Initial.sound {s : State} (h : Initial s) : Sound s.life := by
  have hphase : s.life.phase = .idle := congrArg phase h.live.main
  have hslot : s.life.slot = .empty := congrArg slot h.live.processing
  have hlogging : s.life.logging = false := h.logging
  constructor <;> simp [hphase, hslot, hlogging]
  exact h.alive

theorem sound_of_reachable {s : State} (h : machine.Reachable Joined s) :
    s.terminated = false ∧ Sound s.life := by
  have hstep {s label t} (hs : s.terminated = false ∧ Sound s.life) (hjoined : Joined s label)
      (h : machine.step s label = some t) : t.terminated = false ∧ Sound t.life := by
    obtain ⟨-, hphase, hslot⟩ | ⟨hterminated, hmove⟩ := step_life h
    · exact absurd (hs.2.starting hphase).1 hslot
    · refine ⟨hterminated, hmove.sound hs.2 ?_⟩
      rintro rfl
      exact hjoined
  exact h.invariant (fun {s} hinit => ⟨hinit.terminated, hinit.sound⟩) hstep

/-- As long as `start` is only called with nothing left to join, it never assigns
to a joinable thread, and one thread at most is in `processingLoop`. -/
theorem one_processingLoop {s : State} (h : machine.Reachable Joined s) :
    s.terminated = false ∧ s.alive ≤ 1 := by
  obtain ⟨hterminated, hsound⟩ := sound_of_reachable h
  refine ⟨hterminated, ?_⟩
  have halive : s.alive = _ := hsound.alive
  rw [halive]
  split_ifs <;> omega

def singleLifespan : State where
  live := singleRuntime false .roundRobin .fifo

theorem singleLifespan_initial : Initial singleLifespan :=
  ⟨singleRuntime_manual _ _, rfl, rfl, rfl⟩

def completion : List Label :=
  (startUp ++ processSteps 24 ++ workSteps 18 ++ processSteps 5).map .live ++ [.finish]

def stopCall : List Live.Label :=
  .stop :: List.replicate 2 .main ++ workSteps 1 ++ List.replicate 4 .main

theorem one_processingLoop_restarted :
    let s := machine.final singleLifespan (completion ++ (stopCall ++ startUp).map .live)
    s.terminated = false ∧ s.alive ≤ 1 :=
  one_processingLoop ⟨singleLifespan, singleLifespan_initial,
    Machine.run_of_checks (by decide +kernel)⟩

def startAgain : List Live.Label := .start :: List.replicate 5 .main

/-- Without the `stop` between them the second `start` passes the test of
`running_` and terminates the process. -/
theorem restart_terminates :
    ¬∀ s, machine.Reachable Machine.free s → s.terminated = false ∧ s.alive ≤ 1 := by
  intro hall
  have hsafe := hall (machine.final singleLifespan (completion ++ startAgain.map .live))
    (Machine.reachable_final singleLifespan_initial (by decide +kernel))
  exact absurd hsafe.1 (by decide +kernel)

def Doomed (s : State) : Prop :=
  s.terminated = true ∨ s.life.phase = .starting ∧ s.life.slot = .exited

theorem Doomed.step {s t : State} {label : Label} (h : Doomed s)
    (hstep : machine.step s label = some t) : Doomed t := by
  obtain ⟨hterminated, -, -⟩ | ⟨-, hmove⟩ := step_life hstep
  · exact Or.inl hterminated
  obtain hterminated | ⟨hphase, hslot⟩ := h
  · simp only [machine, Lifespan.step, hterminated, if_true] at hstep
    cases hstep
  · apply Or.inr
    generalize t.life = life at hmove
    cases hmove with
    | stay _ => exact ⟨hphase, hslot⟩
    | finish _ => exact ⟨hphase, hslot⟩
    | launch _ hempty =>
        rw [hslot] at hempty
        contradiction
    | leave _ hworking =>
        rw [hslot] at hworking
        contradiction
    | start hother | stop hother | join hother | stopped hother =>
        rw [hphase] at hother
        contradiction

theorem start_unjoined {s t u : State} (hs : machine.Reachable Joined s)
    (hunjoined : ¬Joined s (.live .start)) (hstart : machine.step s (.live .start) = some t)
    (hrun : machine.Run Machine.free t u) :
    u.terminated = true ∨ u.life.phase = .starting := by
  have hexited : s.life.slot = .exited := not_not.mp hunjoined
  have hrunning : s.live.running = false := (sound_of_reachable hs).2.exited hexited
  have hcalled : t.life.phase = .starting ∧ t.life.slot = .exited := by
    simp only [machine, step] at hstart
    split_ifs at hstart
    obtain ⟨live, hlive, rfl⟩ := Option.map_eq_some_iff.mp hstart
    simp only [Live.step, hrunning] at hlive
    split at hlive
    · cases hlive
      exact ⟨rfl, hexited⟩
    · cases hlive
  have hdoomed : Doomed u := hrun.preserves (fun h _ hstep => h.step hstep) (Or.inr hcalled)
  exact hdoomed.imp_right And.left

end EdgeAllocator.Lifespan
