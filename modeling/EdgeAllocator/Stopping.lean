import EdgeAllocator.Liveness

/-! `start` and `stop` return where the scheduler is fair: the threads that `stop` joins
have been told to end, and they end. -/
namespace EdgeAllocator

namespace Live

open Pipeline Progress

def MainPc.effort (nodes : Nat) : MainPc → ControlPc → Nat
  | .clearStop, _ => nodes + 6
  | .clearComplete, _ => nodes + 5
  | .startExecutor, _ => nodes + 4
  | .spawning, .spawning todo => todo.length + 3
  | .spawning, _ => 2
  | .joinProcessing, _ => nodes + 5
  | .stopExecutor, _ => nodes + 4
  | .joinWorkers, .joining todo => todo.length + 3
  | .joinWorkers, _ => 2
  | .launch, _ | .clearRunning, _ => 1
  | .idle, _ => 0

theorem startExecutor_effort {s t : Pipeline.State} (h : Pipeline.step s .start = some t)
    (hidle : s.control = .idle) :
    MainPc.spawning.effort s.world.fleet.ids.length t.control <
      MainPc.startExecutor.effort s.world.fleet.ids.length s.control := by
  cases Pipeline.step_move h with
  | start _ => exact Nat.lt_succ_self _
  | stay _ _ =>
      rw [hidle]
      simp [MainPc.effort]

theorem stopExecutor_effort {s t : Pipeline.State} (h : Pipeline.step s .stop = some t)
    (hidle : s.control = .idle) :
    MainPc.joinWorkers.effort s.world.fleet.ids.length t.control <
      MainPc.stopExecutor.effort s.world.fleet.ids.length s.control := by
  cases Pipeline.step_move h with
  | stop _ => exact Nat.lt_succ_self _
  | stay _ _ =>
      rw [hidle]
      simp [MainPc.effort]

theorem spawning_effort {s t : Pipeline.State} {nodes : Nat}
    (h : Pipeline.step s .control = some t) (hphased : ∀ todo, s.control ≠ .joining todo) :
    MainPc.spawning.effort nodes t.control < MainPc.spawning.effort nodes s.control := by
  cases Pipeline.step_move h with
  | spawn hcontrol _ => simp [hcontrol, MainPc.effort]
  | spawned hcontrol => simp [hcontrol, MainPc.effort]
  | join hcontrol _ => exact absurd hcontrol (hphased _)
  | joined hcontrol => exact absurd hcontrol (hphased _)
  | stay _ hlabel => simp at hlabel

theorem joining_effort {s t : Pipeline.State} {nodes : Nat}
    (h : Pipeline.step s .control = some t) (hphased : ∀ todo, s.control ≠ .spawning todo) :
    MainPc.joinWorkers.effort nodes t.control < MainPc.joinWorkers.effort nodes s.control := by
  cases Pipeline.step_move h with
  | spawn hcontrol _ => exact absurd hcontrol (hphased _)
  | spawned hcontrol => exact absurd hcontrol (hphased _)
  | join hcontrol _ => simp [hcontrol, MainPc.effort]
  | joined hcontrol => simp [hcontrol, MainPc.effort]
  | stay _ hlabel => simp at hlabel

theorem mainStep_effort {s t : State} (hphased : Phased s.main s.pipe.control)
    (h : mainStep s = some t) :
    t.main.effort s.pipe.world.fleet.ids.length t.pipe.control <
      s.main.effort s.pipe.world.fleet.ids.length s.pipe.control := by
  cases hmain : s.main with
  | idle =>
      simp only [mainStep, hmain] at h
      cases h
  | clearStop | clearComplete | clearRunning =>
      simp only [mainStep, hmain] at h
      cases h
      exact Nat.lt_succ_self _
  | startExecutor =>
      rw [hmain] at hphased
      simp only [mainStep, hmain] at h
      obtain ⟨u, hdrive, hnext⟩ := Option.map_eq_some_iff.mp h
      obtain ⟨pipe, hpipe, rfl⟩ := drive_some hdrive
      cases hnext
      exact startExecutor_effort hpipe hphased
  | spawning =>
      rw [hmain] at hphased
      simp only [mainStep, hmain] at h
      split at h
      · rename_i hidle
        cases h
        rw [hidle]
        exact Nat.lt_succ_self _
      · obtain ⟨pipe, hpipe, rfl⟩ := drive_some h
        rw [hmain]
        exact spawning_effort hpipe hphased
  | launch =>
      simp only [mainStep, hmain] at h
      split at h
      · cases h
        exact Nat.lt_succ_self _
      · cases h
  | joinProcessing =>
      simp only [mainStep, hmain] at h
      split at h
      · cases h
        exact Nat.lt_succ_self _
      · cases h
        exact Nat.lt_succ_self _
      · cases h
  | stopExecutor =>
      rw [hmain] at hphased
      simp only [mainStep, hmain] at h
      obtain ⟨u, hdrive, hnext⟩ := Option.map_eq_some_iff.mp h
      obtain ⟨pipe, hpipe, rfl⟩ := drive_some hdrive
      cases hnext
      exact stopExecutor_effort hpipe hphased
  | joinWorkers =>
      rw [hmain] at hphased
      simp only [mainStep, hmain] at h
      split at h
      · rename_i hidle
        cases h
        rw [hidle]
        exact Nat.lt_succ_self _
      · obtain ⟨pipe, hpipe, rfl⟩ := drive_some h
        rw [hmain]
        exact joining_effort hpipe hphased

def Stopping (s : State) : Prop :=
  match s.main with
  | .joinProcessing => s.stopRequested = true
  | .stopExecutor => s.processing = .notStarted
  | .joinWorkers | .clearRunning =>
      s.processing = .notStarted ∧ s.pipe.world.executor.isRunning = false
  | _ => True

theorem stop_isRunning {s t : Pipeline.State} (h : Pipeline.step s .stop = some t) :
    t.world.executor.isRunning = false := by
  simp only [Pipeline.step] at h
  split at h
  · split at h
    · cases h
      rfl
    · rename_i hrunning
      cases h
      simpa using hrunning
  · cases h

theorem control_isRunning {s t : Pipeline.State} (h : Pipeline.step s .control = some t) :
    t.world.executor.isRunning = s.world.executor.isRunning := by
  cases Pipeline.step_move h <;> rfl

theorem stopping_main {s t : State} (h : Stopping s) (hstep : mainStep s = some t) :
    Stopping t := by
  cases hmain : s.main with
  | idle =>
      simp only [mainStep, hmain] at hstep
      cases hstep
  | clearStop | clearComplete | clearRunning =>
      simp only [mainStep, hmain] at hstep
      cases hstep
      trivial
  | startExecutor =>
      simp only [mainStep, hmain] at hstep
      obtain ⟨u, -, hnext⟩ := Option.map_eq_some_iff.mp hstep
      cases hnext
      trivial
  | spawning =>
      simp only [mainStep, hmain] at hstep
      split at hstep
      · cases hstep
        trivial
      · obtain ⟨pipe, -, rfl⟩ := drive_some hstep
        simp [Stopping, hmain]
  | launch =>
      simp only [mainStep, hmain] at hstep
      split at hstep
      · cases hstep
        trivial
      · cases hstep
  | joinProcessing =>
      simp only [mainStep, hmain] at hstep
      split at hstep
      · rename_i hpc
        cases hstep
        exact hpc
      · cases hstep
        exact rfl
      · cases hstep
  | stopExecutor =>
      rw [Stopping, hmain] at h
      simp only [mainStep, hmain] at hstep
      obtain ⟨u, hdrive, hnext⟩ := Option.map_eq_some_iff.mp hstep
      obtain ⟨pipe, hpipe, rfl⟩ := drive_some hdrive
      cases hnext
      exact ⟨h, stop_isRunning hpipe⟩
  | joinWorkers =>
      rw [Stopping, hmain] at h
      simp only [mainStep, hmain] at hstep
      split at hstep
      · cases hstep
        exact h
      · obtain ⟨pipe, hpipe, rfl⟩ := drive_some hstep
        rw [Stopping, hmain]
        exact ⟨h.1, (control_isRunning hpipe).trans h.2⟩

theorem step_elsewhere {s t : State} {label : Label} (hstep : step s label = some t)
    (hlabel : label ≠ .main) :
    s.main = .idle ∧ Stopping t ∨
      t.main = s.main ∧ t.stopRequested = s.stopRequested ∧
        (s.processing = .notStarted → t.processing = .notStarted) := by
  cases label with
  | start =>
      simp only [step] at hstep
      split at hstep
      · rename_i hmain
        refine Or.inl ⟨hmain, ?_⟩
        cases hstep
        split
        · simp [Stopping, hmain]
        · trivial
      · cases hstep
  | stop =>
      simp only [step] at hstep
      split at hstep
      · cases hstep
        exact Or.inl ⟨‹_›, rfl⟩
      · cases hstep
  | main => exact absurd rfl hlabel
  | process input =>
      have hmove := processStep_move hstep
      have hstarted : s.processing ≠ .notStarted := by
        intro hpc
        change processStep input s = some t at hstep
        rw [processStep, hpc] at hstep
        cases hstep
      refine Or.inr ⟨(processMove_control hmove).2, ?_, fun hpc => absurd hpc hstarted⟩
      cases hmove with
      | choose _ hchoose => exact (chooseStep_threads hchoose).stopRequested
      | _ => rfl
  | work e input =>
      obtain ⟨pipe, -, rfl⟩ := drive_some hstep
      exact Or.inr ⟨rfl, rfl, id⟩
  | apply k automatic allocation scheduling =>
      simp only [step] at hstep
      split at hstep
      · cases hstep
        exact Or.inr ⟨rfl, rfl, id⟩
      · cases hstep
  | report k =>
      simp only [step] at hstep
      split at hstep
      · cases hstep
        exact Or.inr ⟨rfl, rfl, id⟩
      · cases hstep
  | client k =>
      obtain ⟨⟨u, pc⟩, hclient, hnext⟩ := Option.map_eq_some_iff.mp hstep
      cases hnext
      have hthreads := clientStep_threads hclient
      exact Or.inr ⟨(clientStep_control hclient).2, hthreads.stopRequested,
        hthreads.processing.trans⟩

theorem stopping_step {s t : State} {label : Label} (h : Stopping s)
    (hstep : step s label = some t) : Stopping t := by
  by_cases hlabel : label = .main
  · subst hlabel
    exact stopping_main h hstep
  obtain ⟨-, hstopping⟩ | ⟨hmain, hrequested, hprocessing⟩ := step_elsewhere hstep hlabel
  · exact hstopping
  have hrunning := (main_foreign (step_move hstep) hlabel).2
  rw [Stopping, hmain, hrequested, hrunning]
  unfold Stopping at h
  split at h
  · exact h
  · exact hprocessing h
  · exact ⟨hprocessing h.1, h.2⟩
  · exact ⟨hprocessing h.1, h.2⟩
  · trivial

def MainPc.stops : MainPc → Bool
  | .joinProcessing | .stopExecutor | .joinWorkers | .clearRunning => true
  | _ => false

theorem mainStep_stops {s t : State} (h : Stopping s) (hstep : mainStep s = some t)
    (hstops : s.main.stops = true) :
    t.main.stops = true ∨ t.main = .idle ∧ t.processing = .notStarted ∧
      t.pipe.world.executor.isRunning = false := by
  cases hmain : s.main with
  | joinProcessing =>
      simp only [mainStep, hmain] at hstep
      split at hstep
      · cases hstep
        exact Or.inl rfl
      · cases hstep
        exact Or.inl rfl
      · cases hstep
  | stopExecutor =>
      simp only [mainStep, hmain] at hstep
      obtain ⟨u, -, hnext⟩ := Option.map_eq_some_iff.mp hstep
      cases hnext
      exact Or.inl rfl
  | joinWorkers =>
      simp only [mainStep, hmain] at hstep
      split at hstep
      · cases hstep
        exact Or.inl rfl
      · obtain ⟨pipe, -, rfl⟩ := drive_some hstep
        exact Or.inl hstops
  | clearRunning =>
      rw [Stopping, hmain] at h
      simp only [mainStep, hmain] at hstep
      cases hstep
      exact Or.inr ⟨rfl, h⟩
  | _ =>
      rw [hmain] at hstops
      cases hstops

end Live

namespace Progress

open Foundation Scheduler Executor Allocator Allocation Pipeline Live Recording

def mainEffort (s : Recording.State) : Nat :=
  s.live.main.effort s.live.pipe.world.fleet.ids.length s.live.pipe.control

section Joined

variable {s t : Recording.State} {label : Live.Label} {p q : Party}

theorem call_foreign (hstep : Recording.step s label = some t) (hlabel : label ≠ .main)
    (hcalled : s.live.main ≠ .idle) :
    t.live.main = s.live.main ∧ t.live.pipe.control = s.live.pipe.control := by
  obtain hsame | hlive := live_step hstep
  · rw [hsame]
    exact ⟨rfl, rfl⟩
  · obtain ⟨hidle, -⟩ | ⟨hmain, -, -⟩ := step_elsewhere hlive hlabel
    · exact absurd hidle hcalled
    · exact ⟨hmain, (main_foreign (Live.step_move hlive) hlabel).1⟩

theorem mainEffort_foreign (hstep : Recording.step s label = some t) (hlabel : label ≠ .main)
    (hcalled : s.live.main ≠ .idle) : mainEffort t = mainEffort s := by
  obtain ⟨hmain, hcontrol⟩ := call_foreign hstep hlabel hcalled
  obtain hsame | hmove := live_move hstep
  · rw [mainEffort, mainEffort, hsame]
  · rw [mainEffort, mainEffort, hmain, hcontrol, fleet_live hmove]

theorem main_live (hstep : Recording.step s .main = some t) : mainStep s.live = some t.live := by
  obtain ⟨live, hlive, rfl⟩ := Option.map_eq_some_iff.mp hstep
  exact hlive

theorem mainEffort_falls (h : Fluent s) (hstep : Recording.step s .main = some t) :
    mainEffort t < mainEffort s := by
  have hmain := main_live hstep
  rw [mainEffort, mainEffort, fleet_live (.main (mainStep_move hmain))]
  exact mainStep_effort h.phased hmain

theorem joined_of_stuck (h : Fluent s)
    (hlaunch : s.live.main = .launch → s.live.processing = .notStarted)
    (hcalled : s.live.main ≠ .idle) (hstuck : ¬ Moves s .main) :
    ∃ q, joined s.live = some q ∧ Alive s q := by
  obtain hmoves | ⟨q, ⟨m, hwants, -⟩ | ⟨-, hjoined, -⟩, halive⟩ := main_next h hlaunch hcalled
  · exact absurd hmoves hstuck
  · cases hwants
  · exact ⟨q, hjoined, halive⟩

theorem joined_some {s : Live.State} (h : joined s = some q) :
    q = .processing ∧ s.main = .joinProcessing ∨ ∃ e, q = .worker e ∧ s.main = .joinWorkers := by
  unfold joined at h
  split at h
  · cases h
    exact Or.inl ⟨rfl, ‹_›⟩
  · cases h
    exact Or.inr ⟨_, rfl, ‹_›⟩
  · cases h

theorem not_main_of_joined {s : Live.State} (h : joined s = some q) : q ≠ .main := by
  obtain ⟨rfl, -⟩ | ⟨e, rfl, -⟩ := joined_some h
  · exact fun heq => by cases heq
  · exact fun heq => by cases heq

theorem joined_undisturbed (h : Fluent s) (hstopping : Stopping s.live)
    (hjoined : joined s.live = some q) (hstep : Recording.step s label = some t)
    (hparty : schedule.party label ≠ some q) (halive : Alive s q) : effort t q ≤ effort s q := by
  refine effort_foreign h hstep hparty halive fun e he => ?_
  obtain ⟨rfl, -⟩ | ⟨e', -, hmain⟩ := joined_some hjoined
  · cases he
  · rw [Stopping, hmain] at hstopping
    have hidle := h.honest.tracked.quiet (by rw [hstopping.1]; rfl)
    rw [hidle]
    rfl

/-- A thread that is being joined has been told to end. -/
theorem joined_falls (h : Lively s) (hstopping : Stopping s.live)
    (hjoined : joined s.live = some q) (hstep : Recording.step s label = some t)
    (hparty : schedule.party label = some q) : effort t q < effort s q := by
  obtain ⟨rfl, hmain⟩ | ⟨e, rfl, hmain⟩ := joined_some hjoined
  · rw [Stopping, hmain] at hstopping
    cases label with
    | process input =>
        cases hparty
        exact process_falls hstep h.persistent fun _ => hstopping
    | _ => cases hparty
  · rw [Stopping, hmain] at hstopping
    cases label with
    | work e' input =>
        cases hparty
        exact work_falls hstep fun _ => hstopping.2
    | _ => cases hparty

theorem workers_joined (h : Fluent s) (hmain : s.live.main = .idle)
    (hrunning : s.live.pipe.world.executor.isRunning = false) (e : EdgeId) :
    s.live.pipe.workers e = .notStarted := by
  have hcontrol : s.live.pipe.control = .idle := by
    have hphased := h.phased
    rw [hmain] at hphased
    exact hphased
  by_cases he : e ∈ s.live.pipe.world.fleet.ids
  · exact (h.smooth.crew.idle hcontrol e he).mpr hrunning
  · exact h.honest.sound.threads.foreign e he

theorem stopping_run {guard : Recording.State → Live.Label → Prop} {start : Recording.State}
    (hrun : Recording.machine.Run guard start s) (h : Stopping start.live) : Stopping s.live := by
  have hkeep {u v : Recording.State} {label : Live.Label} (hu : Stopping u.live)
      (_ : guard u label) (hstep : Recording.machine.step u label = some v) : Stopping v.live := by
    obtain hsame | hlive := live_step hstep
    · exact hsame ▸ hu
    · exact stopping_step hu hlive
  exact hrun.preserves hkeep h

end Joined

section Execution

variable {start : Recording.State} {x : Recording.machine.Execution}
  (hstart : Recording.machine.initial start) (hprovisioned : Provisioned start.live.pipe.world)
  (hreached : Recording.machine.Run Machine.free start (x.state 0))
  (hcounter : ∀ n, ((x.state n).live.pipe.world.taskCounter : ℚ) < doubleMax)
  (hfair : x.StronglyFair schedule)

include hstart hreached in
theorem stopping (m : ℕ) : Stopping (x.state m).live := by
  refine stopping_run (hreached.trans (x.run m)) ?_
  rw [Stopping, hstart.live.main]
  trivial

include hstart hprovisioned hreached hcounter hfair

theorem call_returns {n : ℕ} (hlaunch : ∀ m ≥ n, (x.state m).live.main = .launch →
    (x.state m).live.processing = .notStarted) :
    ∃ m ≥ n, (x.state m).live.main = .idle := by
  have hlively := lively hstart hprovisioned hreached hcounter
  have hstopping := stopping hstart hreached
  by_contra hnever
  have hcalled : ∀ m ≥ n, (x.state m).live.main ≠ .idle := fun m hm hidle => hnever ⟨m, hm, hidle⟩
  have hother {m : ℕ} {label : Live.Label} (hlabel : x.label m = some label)
      (hrests : ¬ x.Takes schedule .main m) : label ≠ .main :=
    fun heq => Machine.Sections.not_party hlabel hrests (heq ▸ rfl)
  have hfinite : ¬ ∃ᶠ m in Filter.atTop, x.Takes schedule .main m := by
    refine x.not_takes_forever mainEffort (n := n) ?_ ?_
    · intro m hm label hlabel hparty
      have hmain : label ≠ .main := fun heq => hparty (heq ▸ rfl)
      exact (mainEffort_foreign (x.step_label hlabel) hmain (hcalled m hm)).le
    · intro m hm label hlabel hparty
      cases label with
      | main => exact mainEffort_falls (hlively m).fluent (x.step_label hlabel)
      | _ => cases hparty
  obtain ⟨i, hi, hrests⟩ := exists_last hfinite n
  obtain ⟨j, hj, hdisabled⟩ := hfair.exists_disabled hrests
  have hlater {m : ℕ} (hm : m ≥ j) : m ≥ n := hi.trans (hj.trans hm)
  -- From here on the call stays in one `join`.
  have hjoins {m : ℕ} (hm : m ≥ j) :=
    joined_of_stuck (hlively m).fluent (hlaunch m (hlater hm)) (hcalled m (hlater hm))
      (hdisabled m hm)
  obtain ⟨q, hq, -⟩ := hjoins le_rfl
  have hjoined : ∀ m ≥ j, joined (x.state m).live = some q := by
    refine x.forever (fun s => joined s.live = some q) hq fun m hm label hlabel hjoined => ?_
    obtain ⟨hmain, hcontrol⟩ := call_foreign (x.step_label hlabel)
      (hother hlabel (hrests m (hj.trans hm))) (hcalled m (hlater hm))
    rw [joined, hmain, hcontrol]
    exact hjoined
  obtain ⟨m, hm, hended⟩ := sections.exists_ended hlively hfair rank_lt
    (fun s => effort s q) (p := q) (n := j)
    (fun m hm label hlabel hparty halive => joined_undisturbed (hlively m).fluent (hstopping m)
      (hjoined m hm) (x.step_label hlabel) hparty halive.2)
    (fun m hm label hlabel hparty _ => joined_falls (hlively m) (hstopping m) (hjoined m hm)
      (x.step_label hlabel) hparty)
  obtain ⟨q', hq', halive⟩ := hjoins hm
  rw [hjoined m hm] at hq'
  cases hq'
  exact hended ⟨not_main_of_joined (hjoined m hm), halive⟩

/-- Each call of `stop` returns: the first state after it that is not inside the call has
the processing thread and every worker joined. -/
theorem stop_returns {n : ℕ} (hstop : x.label n = some .stop) :
    ∃ m > n, (∀ k, n < k → k < m → (x.state k).live.main.stops = true) ∧
      (x.state m).live.main = .idle ∧ (x.state m).live.processing = .notStarted ∧
        ∀ e, (x.state m).live.pipe.workers e = .notStarted := by
  have hlively := lively hstart hprovisioned hreached hcounter
  by_contra hnever
  have hbegun : (x.state (n + 1)).live.main.stops = true := by
    obtain ⟨live, hlive, hnext⟩ := Option.map_eq_some_iff.mp (x.step_label hstop)
    rw [← hnext]
    simp only [Live.step] at hlive
    split at hlive
    · cases hlive
      rfl
    · cases hlive
  have hcalled {m : ℕ} (hstops : (x.state m).live.main.stops = true) :
      (x.state m).live.main ≠ .idle := by
    intro hidle
    rw [hidle] at hstops
    cases hstops
  have hstops : ∀ m ≥ n + 1, ∀ k, n < k → k ≤ m → (x.state k).live.main.stops = true := by
    refine Nat.le_induction (fun k hk hle => ?_) fun m hm hbefore k hk hle => ?_
    · rw [le_antisymm hle hk]
      exact hbegun
    · obtain hle | rfl := Nat.le_succ_iff.mp hle
      · exact hbefore k hk hle
      have hstops := hbefore m hm le_rfl
      cases hlabel : x.label m with
      | none =>
          rw [x.state_succ hlabel]
          exact hstops
      | some label =>
          have hstep := x.step_label hlabel
          by_cases hmain : label = .main
          · subst hmain
            obtain hnext | ⟨hidle, hprocessing, hrunning⟩ :=
              mainStep_stops (stopping hstart hreached m) (main_live hstep) hstops
            · exact hnext
            · have hworkers := workers_joined (hlively (m + 1)).fluent hidle hrunning
              exact absurd ⟨m + 1, hk, fun k hk hlt => hbefore k hk (Nat.lt_succ_iff.mp hlt), hidle,
                hprocessing, hworkers⟩ hnever
          · rw [(call_foreign hstep hmain (hcalled hstops)).1]
            exact hstops
  obtain ⟨m, hm, hidle⟩ := call_returns hstart hprovisioned hreached hcounter hfair (n := n + 1)
    fun m hm hmain => by
      have hfalse := hstops m hm m hm le_rfl
      rw [hmain] at hfalse
      cases hfalse
  exact hcalled (hstops m hm m hm le_rfl) hidle

end Execution

theorem stop_returns_stopped :
    ∃ m > 63, (∀ k, 63 < k → k < m → (stoppedExecution.state k).live.main.stops = true) ∧
      (stoppedExecution.state m).live.main = .idle ∧
        (stoppedExecution.state m).live.processing = .notStarted ∧
          ∀ e, (stoppedExecution.state m).live.pipe.workers e = .notStarted :=
  stop_returns requested_initial (singleRuntime_provisioned _ _ _) (.refl _)
    stoppedExecution_counter stoppedExecution_fair rfl

end Progress
end EdgeAllocator
