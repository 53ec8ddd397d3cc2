import EdgeAllocator.Configuration
import EdgeAllocator.Fleets

/-! The strategy that `runExperiment` writes into `task_allocations`: it comes from
the configuration, while the allocator got the one of the experiment. -/
namespace EdgeAllocator.Simulator

open Foundation Live

variable {G : Type} {distributions : Distributions G} {seed : G} {s s' : State G}

def Faithful (s : State G) : Prop :=
  ∀ strategy todo experiment, s.phase = .running strategy todo experiment →
    experiment.pipe.world.allocator.strategy = strategy

theorem Faithful.move {label : Label} (h : Faithful s) (hmove : Move distributions s label s') :
    Faithful s' := by
  intro strategy todo experiment hphase
  cases hmove with
  | reset _ => cases hphase
  | begin _ =>
      cases hphase
      rfl
  | finish _ _ => cases hphase
  | follow hrunning hstep =>
      cases hphase
      have hbefore := h _ _ _ hrunning
      obtain ⟨-, hsame⟩ | ⟨pipeLabel, hdrives, hpipe⟩ := (Experiment.step_move hstep).pipeline
      · rw [hsame]
        exact hbefore
      · obtain ⟨hallocation, hscheduling⟩ := hdrives.sets_nothing
        exact (strategies_move (Pipeline.step_move hpipe) hallocation hscheduling).1.trans hbefore

def Entry.Named (entry : Entry) : Prop :=
  entry.row.success = true → entry.row.strategy = some (allocationToString entry.used)

def RowsNamed (s : State G) : Prop := ∀ entry ∈ s.written, entry.Named

instance (entry : Entry) : Decidable entry.Named := inferInstanceAs (Decidable (_ → _))

instance (s : State G) : Decidable (RowsNamed s) :=
  inferInstanceAs (Decidable (∀ entry ∈ s.written, entry.Named))

/-- Where the step writes the row of a success, the configuration has the name of
the experiment's strategy. -/
def AsConfigured (s : State G) : Label → Prop
  | .advance => True
  | .experiment label =>
      ∀ strategy todo experiment, s.phase = .running strategy todo experiment →
        ∀ result ∈ recording experiment s.result label, result.2.success = true →
          s.config.strategy = allocationToString strategy

theorem named_iff (config : SimulationConfig) (result : TaskRef × Allocator.AllocationResult)
    (strategy : AllocationStrategy) :
    (⟨allocationRow config result, strategy⟩ : Entry).Named ↔
      (result.2.success = true → config.strategy = allocationToString strategy) := by
  obtain ⟨t, result⟩ := result
  unfold Entry.Named allocationRow
  cases hsuccess : result.success with
  | true => simp [hsuccess, AllocationRow.allocated]
  | false => simp [hsuccess, AllocationRow.failed]

theorem rowsNamed_step {label : Label} (hfaithful : Faithful s) (hnamed : RowsNamed s)
    (hstep : step distributions s label = some s') : RowsNamed s' ↔ AsConfigured s label := by
  cases step_move hstep with
  | reset _ => exact iff_of_true hnamed trivial
  | begin _ => exact iff_of_true nofun trivial
  | finish _ _ => exact iff_of_true hnamed trivial
  | @follow strategy todo experiment next label hphase _ =>
      have hstrategy := hfaithful _ _ _ hphase
      have hentries : RowsNamed (s.follow experiment label (.running strategy todo next)) ↔
          ∀ result ∈ recording experiment s.result label,
            (⟨allocationRow s.config result, strategy⟩ : Entry).Named := by
        unfold RowsNamed State.follow State.entries
        rw [hstrategy]
        constructor
        · intro h result hresult
          refine h _ (List.mem_append_right _ (List.mem_map.mpr ⟨result, ?_, rfl⟩))
          exact Option.mem_toList.mpr hresult
        · intro h entry hentry
          rcases List.mem_append.mp hentry with hbefore | hnew
          · exact hnamed entry hbefore
          · obtain ⟨result, hresult, rfl⟩ := List.mem_map.mp hnew
            exact h result (Option.mem_toList.mp hresult)
      rw [hentries]
      simp only [named_iff, AsConfigured]
      constructor
      · intro h strategy' todo' experiment' hphase'
        cases hphase.symm.trans hphase'
        exact h
      · intro h
        exact h _ _ _ hphase

/-- Every row of a success is named after the strategy that was used, all along a
run, exactly if each is written in an experiment whose strategy the configuration
names. -/
theorem rows_named_iff {labels : List Label} (hs : Initial seed s)
    (hexec : (machine distributions seed).exec s labels = some s') :
    (machine distributions seed).Along RowsNamed s labels ↔
      (machine distributions seed).Meets AsConfigured s labels := by
  have hstart : RowsNamed s := by
    unfold RowsNamed
    rw [hs.written]
    exact nofun
  have hfaithful : Faithful s := by
    intro strategy todo experiment hphase
    rw [hs.phase] at hphase
    cases hphase
  have hfree : (machine distributions seed).Meets Machine.free s labels := Machine.meets_free
  have hkeep {u v : State G} {label : Label} (h : Faithful u) (_ : Machine.free u label)
      (hstep : (machine distributions seed).step u label = some v) : Faithful v :=
    h.move (step_move hstep)
  have hrows {u v : State G} {label : Label} (h : Faithful u) (hnamed : RowsNamed u)
      (_ : Machine.free u label) (hstep : (machine distributions seed).step u label = some v) :
      RowsNamed v ↔ AsConfigured u label :=
    rowsNamed_step h hnamed hstep
  exact Machine.along_iff_meets hkeep hrows hexec hfree hfaithful hstart

def firstRow (n : Nat) : List Label := [.advance, .advance] ++ mainSteps n

theorem rows_named_iff_single :
    let start := launched { taskCount := 1 }
    (machine mt19937 (Mt19937.seeded 42)).Along RowsNamed start (firstRow 28) ↔
      (machine mt19937 (Mt19937.seeded 42)).Meets AsConfigured start (firstRow 28) :=
  rows_named_iff (launched_initial _) (Machine.exec_final (by decide +kernel))

/-- The first experiment of a comparison allocates in turn, and the row names the
default strategy. -/
theorem comparison_misnames :
    ¬∀ s : State Mt19937, (machine mt19937 (Mt19937.seeded 42)).Reachable Machine.free s →
      RowsNamed s := by
  intro h
  have hrows : RowsNamed ((machine mt19937 (Mt19937.seeded 42)).final
      (launched { taskCount := 1, runComparison := true }) (firstRow 21)) :=
    h _ (Machine.reachable_final (launched_initial _) (by decide +kernel))
  exact absurd hrows (by decide +kernel)

end EdgeAllocator.Simulator
