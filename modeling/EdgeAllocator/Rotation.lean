import EdgeAllocator.Placement
import EdgeAllocator.Foundation.Cycle
import EdgeAllocator.Foundation.Machine

/-! `ROUND_ROBIN` over a run: whose turn it is, while nodes become viable and
stop being so between the attempts. -/
namespace EdgeAllocator.Rotation

open Foundation Allocator Placement

/-- `history` lists the successful attempts so far, each with the edges that were
viable for it. -/
structure State where
  world : World
  history : List (Turn EdgeId) := []

inductive Label where
  | attempt (t : TaskRef)
  | environment (fleet : Fleet) (node : EdgeId → EdgeNode)

/-- The environment registers nodes, takes them out and changes their state. -/
def step (s : State) : Label → Option State
  | .attempt t =>
      (allocateTask s.world t).map fun (w, result) =>
        { world := w
          history := if result.success then
              s.history ++ [⟨getViableEdges s.world t, result.edgeId⟩]
            else s.history }
  | .environment fleet node =>
      some { s with world := { s.world with fleet := fleet, node := node } }

structure Initial (s : State) : Prop where
  strategy : s.world.allocator.strategy = .roundRobin
  history : s.history = []

def machine : Machine State Label := ⟨Initial, step⟩

/-- From the edge chosen last, the slot that the index points at comes no later
than any edge that was viable then and still is. -/
def OnTurn (s : State) : Label → Prop
  | .environment _ _ => True
  | .attempt t => ∀ last ∈ s.history.getLast?, ∀ x ∈ last.candidates, x ∈ getViableEdges s.world t →
      passed last.chosen (getViableEdges s.world t)
          (s.world.allocator.roundRobinIndex % (getViableEdges s.world t).length) ≤
        passed last.chosen (getViableEdges s.world t) ((getViableEdges s.world t).idxOf x)

instance (s : State) : (label : Label) → Decidable (OnTurn s label)
  | .environment _ _ => isTrue trivial
  | .attempt t => inferInstanceAs (Decidable (∀ last ∈ s.history.getLast?, ∀ x ∈ last.candidates,
      x ∈ getViableEdges s.world t →
        passed last.chosen (getViableEdges s.world t)
            (s.world.allocator.roundRobinIndex % (getViableEdges s.world t).length) ≤
          passed last.chosen (getViableEdges s.world t) ((getViableEdges s.world t).idxOf x)))

theorem allocateTask_strategy {w w' : World} {t : TaskRef} {result : AllocationResult}
    (h : allocateTask w t = some (w', result)) :
    w'.allocator.strategy = w.allocator.strategy := by
  unfold allocateTask at h
  obtain ⟨⟨w₁, result₁⟩, hdispatch, hnext⟩ := Option.bind_eq_some_iff.mp h
  cases dispatch_attempt hdispatch with
  | refuse _ =>
      cases hnext
      rfl
  | reserve index _ =>
      cases hnext
      rfl

/-- A successful attempt takes the edge in the slot of the index. -/
theorem chosen_slot {w w' : World} {t : TaskRef} {result : AllocationResult}
    (hstrategy : w.allocator.strategy = .roundRobin) (h : allocateTask w t = some (w', result))
    (hsuccess : result.success = true) :
    (getViableEdges w t)[w.allocator.roundRobinIndex % (getViableEdges w t).length]? =
      some result.edgeId := by
  rcases allocateTask_cases h with ⟨-, hrefused, -⟩ | ⟨hviable, -, -⟩
  · rw [hrefused] at hsuccess
    contradiction
  · obtain ⟨e, -, hslot, hcall⟩ :=
      allocateRoundRobin_eq (w := w.modifyAllocator countRequest) hviable
    have hdispatch : dispatch (w.modifyAllocator countRequest) t =
        allocateRoundRobin (w.modifyAllocator countRequest) t := by
      have hsame : (w.modifyAllocator countRequest).allocator.strategy = .roundRobin := hstrategy
      rw [dispatch, hsame]
    rw [allocateTask_of_dispatch (hdispatch.trans hcall) rfl] at h
    cases h
    exact hslot

theorem passesNone_of_onTurn {s : State} {t : TaskRef} {w' : World} {result : AllocationResult}
    (hstrategy : s.world.allocator.strategy = .roundRobin) (honTurn : OnTurn s (.attempt t))
    (h : allocateTask s.world t = some (w', result)) (hsuccess : result.success = true)
    {last : Turn EdgeId} (hlast : last ∈ s.history.getLast?) :
    PassesNone last ⟨getViableEdges s.world t, result.edgeId⟩ := by
  intro x hx hviable
  have hslot := chosen_slot hstrategy h hsuccess
  obtain ⟨hlt, hchosen⟩ := List.getElem?_eq_some_iff.mp hslot
  have hidx := List.idxOf_lt_length_iff.mpr hviable
  have hmet := metBy_of_passed_le (getViableEdges_sorted s.world t) hlt hidx
    (honTurn last hlast x hx hviable)
  rwa [hchosen, List.getElem_idxOf] at hmet

/-- Every run keeps the strategy, and its turns pass over nobody. -/
structure InTurn (s : State) : Prop where
  strategy : s.world.allocator.strategy = .roundRobin
  chain : s.history.IsChain PassesNone

theorem InTurn.step {s s' : State} {label : Label} (h : InTurn s) (honTurn : OnTurn s label)
    (hstep : machine.step s label = some s') : InTurn s' := by
  cases label with
  | environment fleet node =>
      cases hstep
      exact ⟨h.strategy, h.chain⟩
  | attempt t =>
      obtain ⟨⟨w, result⟩, hattempt, hnext⟩ := Option.map_eq_some_iff.mp hstep
      cases hnext
      refine ⟨(allocateTask_strategy hattempt).trans h.strategy, ?_⟩
      dsimp only
      split_ifs with hsuccess
      · apply h.chain.append (.singleton _)
        intro last hlast new hnew
        cases Option.some.inj hnew
        exact passesNone_of_onTurn h.strategy honTurn hattempt hsuccess hlast
      · exact h.chain

/-- In a run that keeps to the turns no edge that stays viable is skipped while
another one is chosen twice. -/
theorem history_cycles {s : State} (h : machine.Reachable OnTurn s) : Cycles s.history := by
  have hinTurn : InTurn s := h.invariant
    (fun {s} hinit => ⟨hinit.strategy, by rw [hinit.history]; exact .nil⟩)
    (fun hs honTurn hstep => hs.step honTurn hstep)
  exact cycles_of_passesNone hinTurn.chain

def threeNodes : Fleet := ⟨["E01", "E02", "E03"], by decide, by decide⟩

def firstAway : State where
  world :=
    { World.boot threeNodes (fun _ => nodeCapacity) (fun _ => TaskProfile.humidity)
        .roundRobin .fifo with
      node := fun e => { capacity := nodeCapacity, isAvailable := e ≠ "E01" } }

theorem firstAway_initial : Initial firstAway := ⟨rfl, rfl⟩

def comeBack : Label := .environment threeNodes fun _ => { capacity := nodeCapacity }

theorem fourTurns_cycles :
    Cycles (machine.final firstAway [.attempt 0, .attempt 1, .attempt 2, .attempt 3]).history :=
  history_cycles ⟨firstAway, firstAway_initial, Machine.run_of_checks (by decide +kernel)⟩

/-- A node that comes back moves the others up by a slot: `E02` is chosen again,
and `E03` is skipped. -/
theorem comeBack_skips : ¬∀ s, machine.Reachable Machine.free s → Cycles s.history := by
  intro hall
  have hcycles := hall (machine.final firstAway [.attempt 0, comeBack, .attempt 1])
    (Machine.reachable_final firstAway_initial (by decide +kernel))
  have hhistory : (machine.final firstAway [.attempt 0, comeBack, .attempt 1]).history =
      [⟨["E02", "E03"], "E02"⟩, ⟨["E01", "E02", "E03"], "E02"⟩] := by decide +kernel
  rw [hhistory] at hcycles
  obtain ⟨turn, hturn, -⟩ := hcycles [] _ [] _ [] rfl rfl (by simp) "E03" (by decide) (by simp)
  exact List.not_mem_nil hturn

end EdgeAllocator.Rotation
