import EdgeAllocator.Placement
import EdgeAllocator.Foundation.Machine
import EdgeAllocator.Foundation.Spread

/-! `LEAST_LOAD` over a sequence of tasks that are allocated one after another
with nothing released in between. -/
namespace EdgeAllocator.Balance

open Foundation Allocator Placement

def placement : Machine World TaskRef :=
  ⟨fun _ => True, fun w t => (allocateTask w t).map Prod.fst⟩

/-- What each attempt of the sequence meets: every available node is viable. -/
structure Balancing (w : World) (t : TaskRef) : Prop where
  strategy : w.allocator.strategy = .leastLoad
  demand : 0 ≤ w.demand t .cpu
  viable : ∀ e ∈ w.fleet.ids, (w.node e).isAvailable = true → e ∈ getViableEdges w t

instance (w : World) (t : TaskRef) : Decidable (Balancing w t) :=
  decidable_of_iff
    (w.allocator.strategy = .leastLoad ∧ 0 ≤ w.demand t .cpu ∧
      ∀ e ∈ w.fleet.ids, (w.node e).isAvailable = true → e ∈ getViableEdges w t)
    ⟨fun ⟨hstrategy, hdemand, hviable⟩ => ⟨hstrategy, hdemand, hviable⟩,
      fun ⟨hstrategy, hdemand, hviable⟩ => ⟨hstrategy, hdemand, hviable⟩⟩

def availableEdges (w : World) : List EdgeId :=
  w.fleet.ids.filter fun e => (w.node e).isAvailable

def usedSpread (w : World) : ℚ := spread ((availableEdges w).map (usedCpu w))

def largestRequirement (w : World) (tasks : List TaskRef) : ℚ :=
  tasks.foldr (fun t largest => max (w.demand t .cpu) largest) 0

theorem availableEdges_congr {w w' : World} (hfleet : w'.fleet = w.fleet)
    (havailable : ∀ e, (w'.node e).isAvailable = (w.node e).isAvailable) :
    availableEdges w' = availableEdges w := by
  unfold availableEdges
  rw [hfleet]
  simp only [havailable]

theorem largestRequirement_congr {w w' : World} (h : w'.workload = w.workload)
    (tasks : List TaskRef) : largestRequirement w' tasks = largestRequirement w tasks := by
  unfold largestRequirement World.demand
  rw [h]

theorem usedSpread_step {w w' : World} {t : TaskRef} (hbalancing : Balancing w t)
    (h : placement.step w t = some w') :
    usedSpread w' ≤ max (usedSpread w) (w.demand t .cpu) ∧ w'.workload = w.workload := by
  obtain ⟨⟨w₁, result⟩, hattempt, hnext⟩ := Option.map_eq_some_iff.mp h
  cases hnext
  rcases allocateTask_cases hattempt with ⟨-, -, rfl⟩ | ⟨-, -, hreserved⟩
  · exact ⟨le_max_left _ _, rfl⟩
  · refine ⟨?_, hreserved.workload⟩
    have hcheapest : Cheapest w t (usedCpu w) result.edgeId := by
      have hoptimal := hreserved.optimal
      unfold Optimal at hoptimal
      rwa [hbalancing.strategy] at hoptimal
    unfold usedSpread
    rw [availableEdges_congr hreserved.fleet hreserved.available]
    apply spread_raise_least (e := result.edgeId)
    · exact List.mem_filter.mpr ⟨hreserved.candidate.1, hreserved.candidate.2.1⟩
    · intro x hx
      obtain ⟨hmem, havailable⟩ := List.mem_filter.mp hx
      have hcandidate := mem_getViableEdges_iff.mp (hbalancing.viable x hmem havailable)
      rcases hcheapest.2 x hcandidate with hlt | ⟨heq, -⟩
      · exact hlt.le
      · exact heq.le
    · exact hbalancing.demand
    · unfold usedCpu
      rw [hreserved.usage]
      rfl
    · intro x _ hx
      unfold usedCpu
      rw [hreserved.others x hx]

/-- The used CPU of the available nodes never drifts apart by more than the
largest task does. -/
theorem usedSpread_le {w w' : World} {tasks : List TaskRef}
    (hexec : placement.exec w tasks = some w') (hmeets : placement.Meets Balancing w tasks) :
    usedSpread w' ≤ max (usedSpread w) (largestRequirement w tasks) := by
  induction tasks generalizing w with
  | nil =>
      cases hexec
      exact le_max_left _ _
  | cons t tasks ih =>
      obtain ⟨v, hstep, hrest⟩ := Option.bind_eq_some_iff.mp hexec
      obtain ⟨hspread, hworkload⟩ := usedSpread_step hmeets.1 hstep
      have htail := ih hrest (hmeets.2 v hstep)
      rw [largestRequirement_congr hworkload] at htail
      have hsplit : largestRequirement w (t :: tasks) =
          max (w.demand t .cpu) (largestRequirement w tasks) := rfl
      rw [hsplit, ← max_assoc]
      exact htail.trans (max_le_max_right _ hspread)

def pair : World :=
  World.boot twoNodes (fun _ => nodeCapacity)
    (fun t => if t % 2 = 0 then TaskProfile.ultrasonic else TaskProfile.humidity) .leastLoad .fifo

theorem pair_usedSpread_le :
    usedSpread (placement.final pair [0, 1, 2]) ≤
      max (usedSpread pair) (largestRequirement pair [0, 1, 2]) :=
  usedSpread_le (Machine.exec_final (by decide +kernel))
    (Machine.meets_of_checks (by decide +kernel))

end EdgeAllocator.Balance
