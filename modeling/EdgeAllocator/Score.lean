import EdgeAllocator.Placement

/-! The score of `MULTI_CONSTRAINT`: how it orders the nodes, and what of the
task it sees. -/
namespace EdgeAllocator.Score

open Foundation Allocator Placement EdgeNode

theorem clamp_mono {x y low high : ℚ} (h : low ≤ high) (hxy : x ≤ y) :
    clamp x low high ≤ clamp y low high := by
  unfold clamp
  split_ifs <;> linarith

theorem clamp_strict {x y low high : ℚ} (h : low < high) (hxy : x < y) (hlow : low < y)
    (hhigh : x < high) : clamp x low high < clamp y low high := by
  unfold clamp
  split_ifs <;> linarith

theorem clamp_of_mem {x low high : ℚ} (hlow : low ≤ x) (hhigh : x ≤ high) :
    clamp x low high = x := by
  unfold clamp
  rw [if_neg (not_lt.mpr hlow), if_neg (not_lt.mpr hhigh)]

/-- The share of a capacity that is free. -/
def availableFraction (node : EdgeNode) (r : Resource) : ℚ :=
  node.getAvailable r / node.capacity.amounts r

/-- Positive capacities, and usage between zero and the capacity. -/
structure Sound (node : EdgeNode) : Prop where
  positive : ∀ r, 0 < node.capacity.amounts r
  within : node.WithinCapacity

theorem normalizeScore_mem (r : Resource) (node : EdgeNode) :
    0 ≤ normalizeScore r node ∧ normalizeScore r node ≤ 1 := by
  unfold normalizeScore
  split_ifs
  · exact ⟨le_rfl, zero_le_one⟩
  · exact clamp_mem zero_le_one

theorem Sound.normalizeScore_eq {node : EdgeNode} (h : Sound node) (r : Resource) :
    normalizeScore r node = availableFraction node r := by
  have hpositive := h.positive r
  have hlow : 0 ≤ node.currentUsage r := h.within.1 r
  have hhigh : node.currentUsage r ≤ node.capacity.amounts r := h.within.2 r
  unfold normalizeScore availableFraction getAvailable
  rw [if_neg (not_le.mpr hpositive), Pi.sub_apply]
  apply clamp_of_mem
  · exact div_nonneg (by linarith) hpositive.le
  · rw [div_le_one hpositive]
    linarith

theorem normalizeLatencyScore_mem (node : EdgeNode) :
    1 / 100 ≤ normalizeLatencyScore node ∧ normalizeLatencyScore node ≤ 1 :=
  clamp_mem (by norm_num)

theorem normalizeQueueScore_mem (node : EdgeNode) :
    0 ≤ normalizeQueueScore node ∧ normalizeQueueScore node ≤ 1 :=
  clamp_mem zero_le_one

section Order

variable {a b : EdgeNode}

theorem normalizeLatencyScore_mono (h : a.getLatencyMs ≤ b.getLatencyMs) :
    normalizeLatencyScore b ≤ normalizeLatencyScore a := by
  have hcast : (a.getLatencyMs : ℚ) ≤ b.getLatencyMs := by exact_mod_cast h
  apply clamp_mono (by norm_num)
  linarith

theorem normalizeLatencyScore_strict (h : a.getLatencyMs < b.getLatencyMs)
    (ha : a.getLatencyMs < 99) (hb : 0 < b.getLatencyMs) :
    normalizeLatencyScore b < normalizeLatencyScore a := by
  have hcast : (a.getLatencyMs : ℚ) < b.getLatencyMs := by exact_mod_cast h
  have hceiling : (a.getLatencyMs : ℚ) < 99 := by exact_mod_cast ha
  have hfloor : (0 : ℚ) < b.getLatencyMs := by exact_mod_cast hb
  apply clamp_strict (by norm_num) <;> linarith

theorem normalizeQueueScore_mono (h : a.getQueueLength ≤ b.getQueueLength) :
    normalizeQueueScore b ≤ normalizeQueueScore a := by
  have hcast : (a.getQueueLength : ℚ) ≤ b.getQueueLength := by exact_mod_cast h
  unfold normalizeQueueScore kMaxQueueLengthForScore
  apply clamp_mono zero_le_one
  linarith

theorem normalizeQueueScore_strict (h : a.getQueueLength < b.getQueueLength)
    (ha : a.getQueueLength < 100) : normalizeQueueScore b < normalizeQueueScore a := by
  have hcast : (a.getQueueLength : ℚ) < b.getQueueLength := by exact_mod_cast h
  have hceiling : (a.getQueueLength : ℚ) < 100 := by exact_mod_cast ha
  have hnonneg : (0 : ℚ) ≤ a.getQueueLength := Nat.cast_nonneg _
  unfold normalizeQueueScore kMaxQueueLengthForScore
  apply clamp_strict zero_lt_one <;> linarith

/-- `a` is no worse than `b` in any of the five respects, and better in one of
them where its score is not saturated. -/
structure Dominates (a b : EdgeNode) : Prop where
  fraction : ∀ r, availableFraction b r ≤ availableFraction a r
  latency : a.getLatencyMs ≤ b.getLatencyMs
  queueLength : a.getQueueLength ≤ b.getQueueLength
  better : (∃ r, availableFraction b r < availableFraction a r) ∨
    (a.getLatencyMs < b.getLatencyMs ∧ a.getLatencyMs < 99 ∧ 0 < b.getLatencyMs) ∨
    (a.getQueueLength < b.getQueueLength ∧ a.getQueueLength < 100)

structure PositiveWeights (weights : AllocationWeights) : Prop where
  cpu : 0 < weights.cpuWeight
  ram : 0 < weights.ramWeight
  bandwidth : 0 < weights.bandwidthWeight
  latency : 0 < weights.latencyWeight
  queue : 0 < weights.queueWeight
  priority : 0 < weights.priorityWeight

theorem score_lt_of_dominates {weights : AllocationWeights} (hweights : PositiveWeights weights)
    (ha : Sound a) (hb : Sound b) (h : Dominates a b) (priority : TaskPriority) :
    calculateAllocationScore weights priority b < calculateAllocationScore weights priority a := by
  have hfraction (r : Resource) : normalizeScore r b ≤ normalizeScore r a := by
    rw [ha.normalizeScore_eq, hb.normalizeScore_eq]
    exact h.fraction r
  have hcpu := mul_le_mul_of_nonneg_left (hfraction .cpu) hweights.cpu.le
  have hram := mul_le_mul_of_nonneg_left (hfraction .ram) hweights.ram.le
  have hbandwidth := mul_le_mul_of_nonneg_left (hfraction .bandwidth) hweights.bandwidth.le
  have hlatency :=
    mul_le_mul_of_nonneg_left (normalizeLatencyScore_mono h.latency) hweights.latency.le
  have hqueue :=
    mul_le_mul_of_nonneg_left (normalizeQueueScore_mono h.queueLength) hweights.queue.le
  unfold calculateAllocationScore totalScore normalizeCpuScore normalizeRamScore
    normalizeBandwidthScore
  -- One of the five terms grows, and none of the others shrinks.
  rcases h.better with ⟨r, hr⟩ | ⟨hlt, hceiling, hfloor⟩ | ⟨hlt, hceiling⟩
  · rw [← ha.normalizeScore_eq, ← hb.normalizeScore_eq] at hr
    cases r with
    | cpu => linarith [mul_lt_mul_of_pos_left hr hweights.cpu]
    | ram => linarith [mul_lt_mul_of_pos_left hr hweights.ram]
    | bandwidth => linarith [mul_lt_mul_of_pos_left hr hweights.bandwidth]
  · have hstrict := normalizeLatencyScore_strict hlt hceiling hfloor
    linarith [mul_lt_mul_of_pos_left hstrict hweights.latency]
  · have hstrict := normalizeQueueScore_strict hlt hceiling
    linarith [mul_lt_mul_of_pos_left hstrict hweights.queue]

end Order

theorem priorityScore_pos (priority : TaskPriority) : 0 < priorityScore priority := by
  cases priority <;> norm_num [priorityScore]

theorem score_nonneg {weights : AllocationWeights} (hweights : PositiveWeights weights)
    (priority : TaskPriority) (node : EdgeNode) :
    0 ≤ calculateAllocationScore weights priority node := by
  have hlatency : 0 ≤ normalizeLatencyScore node :=
    le_trans (by norm_num) (normalizeLatencyScore_mem node).1
  unfold calculateAllocationScore totalScore
  apply mul_nonneg _ (by norm_num)
  have hcpu := mul_nonneg hweights.cpu.le (normalizeScore_mem .cpu node).1
  have hram := mul_nonneg hweights.ram.le (normalizeScore_mem .ram node).1
  have hbandwidth := mul_nonneg hweights.bandwidth.le (normalizeScore_mem .bandwidth node).1
  have hlatency := mul_nonneg hweights.latency.le hlatency
  have hqueue := mul_nonneg hweights.queue.le (normalizeQueueScore_mem node).1
  have hpriority := mul_nonneg hweights.priority.le (priorityScore_pos priority).le
  unfold normalizeCpuScore normalizeRamScore normalizeBandwidthScore
  linarith

theorem doubleMax_pos : 0 < doubleMax := by
  decide +kernel

section Choice

variable {w : World} {t : TaskRef}

theorem allocateMultiConstraint_some (hviable : getViableEdges w t ≠ [])
    (hscore : ∀ e ∈ getViableEdges w t, -doubleMax < score w t e) :
    ∃ e, (scanBest (fun key best => best < key) (score w t) (-doubleMax)
        (getViableEdges w t)).1 = some e ∧ Cheapest w t (fun x => -score w t x) e ∧
      allocateMultiConstraint w t =
        some (w.modifyNode e (allocateResources (w.demand t)),
          { success := true, edgeId := e, reason := "Highest multi-constraint suitability score",
            score := score w t e }) := by
  have hsome : (allocateMultiConstraint w t).isSome := by
    rw [allocateMultiConstraint_isSome_iff hviable]
    obtain ⟨e, he⟩ := List.exists_mem_of_ne_nil _ hviable
    exact ⟨e, mem_getViableEdges_iff.mp he, hscore e he⟩
  obtain ⟨⟨w', result⟩, hresult⟩ := Option.isSome_iff_exists.mp hsome
  have heq := allocateMultiConstraint_eq hviable
  obtain ⟨e, hbest, rfl, rfl⟩ := reserveBest_some (heq.symm.trans hresult)
  refine ⟨e, hbest, ?_, ?_⟩
  · rw [scan_neg] at hbest
    exact cheapest_of_scan hbest
  · rw [hresult, scanBest_eq_scanFor, scanFor_snd, ← scanBest_eq_scanFor, hbest]
    rfl

/-- A dominated node is never chosen. -/
theorem allocateMultiConstraint_ne_dominated {a b : EdgeId}
    (hweights : PositiveWeights w.allocator.weights)
    (hsound : ∀ e ∈ w.fleet.ids, Sound (w.node e)) (ha : a ∈ getViableEdges w t)
    (hb : b ∈ getViableEdges w t) (h : Dominates (w.node a) (w.node b)) :
    ∃ w' result, allocateMultiConstraint w t = some (w', result) ∧ result.success = true ∧
      result.edgeId ≠ b := by
  obtain ⟨e, -, hcheapest, hresult⟩ := allocateMultiConstraint_some (List.ne_nil_of_mem ha)
    fun e _ => lt_of_lt_of_le (neg_lt_zero.mpr doubleMax_pos) (score_nonneg hweights _ _)
  refine ⟨_, _, hresult, rfl, ?_⟩
  rintro rfl
  have hlt := score_lt_of_dominates hweights (hsound a (mem_getViableEdges ha).1)
    (hsound e (mem_getViableEdges hb).1) h (w.workload t).priority
  rcases hcheapest.2 a (mem_getViableEdges_iff.mp ha) with hcost | ⟨hcost, -⟩
  · exact absurd hlt (not_lt.mpr (neg_lt_neg_iff.mp hcost).le)
  · exact absurd hlt (not_lt.mpr (neg_injective hcost).ge)

theorem getViableEdges_eq {u : TaskRef}
    (h : ∀ e, e ∈ getViableEdges w t ↔ e ∈ getViableEdges w u) :
    getViableEdges w t = getViableEdges w u := by
  apply List.filter_congr
  intro e he
  have hsame := h e
  unfold getViableEdges at hsame
  rw [List.mem_filter, List.mem_filter] at hsame
  exact Bool.eq_iff_iff.mpr (by simpa [he] using hsame)

theorem scan_shift {w' : World} {u : TaskRef} {shift : ℚ} {viable : List EdgeId}
    (hshift : ∀ e, score w' u e = score w t e + shift)
    (ht : ∀ e ∈ viable, -doubleMax < score w t e)
    (hu : ∀ e ∈ viable, -doubleMax < score w' u e) :
    (scanBest (fun key best => best < key) (score w t) (-doubleMax) viable).1 =
      (scanBest (fun key best => best < key) (score w' u) (-doubleMax) viable).1 := by
  rw [scanBest_eq_scanFor, scanBest_eq_scanFor]
  refine scanFor_fst_congr (fun x hx => ?_) fun x _ y _ => ?_
  · rw [decide_eq_true (ht x hx), decide_eq_true (hu x hx)]
  · rw [decide_eq_decide, hshift, hshift]
    exact (add_lt_add_iff_right shift).symm

def withPriorityWeight (weight : ℚ) (w : World) : World :=
  w.modifyAllocator fun allocator =>
    { allocator with weights := { allocator.weights with priorityWeight := weight } }

theorem score_task (w : World) (t u : TaskRef) (e : EdgeId) :
    score w u e = score w t e + 100 * w.allocator.weights.priorityWeight *
      (priorityScore (w.workload u).priority - priorityScore (w.workload t).priority) := by
  unfold score calculateAllocationScore totalScore
  ring

theorem score_withPriorityWeight (w : World) (t : TaskRef) (weight : ℚ) (e : EdgeId) :
    score (withPriorityWeight weight w) t e = score w t e +
      100 * (weight - w.allocator.weights.priorityWeight) *
        priorityScore (w.workload t).priority := by
  unfold score calculateAllocationScore totalScore withPriorityWeight
  simp only [World.modifyAllocator_allocator, World.modifyAllocator_workload,
    World.modifyAllocator_node]
  ring

def choice (w : World) (t : TaskRef) : Option (EdgeId × ℚ) :=
  match allocateMultiConstraint w t with
  | some (_, result) => if result.success then some (result.edgeId, result.score) else none
  | none => none

theorem choice_of_nil (h : getViableEdges w t = []) : choice w t = none := by
  simp [choice, allocateMultiConstraint, h, noViableEdge]

theorem choice_some (hviable : getViableEdges w t ≠ [])
    (hscore : ∀ e ∈ getViableEdges w t, -doubleMax < score w t e) :
    ∃ e, choice w t = some (e, score w t e) ∧
      (scanBest (fun key best => best < key) (score w t) (-doubleMax)
        (getViableEdges w t)).1 = some e := by
  obtain ⟨e, hbest, -, hresult⟩ := allocateMultiConstraint_some hviable hscore
  refine ⟨e, ?_, hbest⟩
  simp [choice, hresult]

theorem choice_congr {w' : World} {u : TaskRef} {shift : ℚ}
    (hviable : getViableEdges w' u = getViableEdges w t)
    (hshift : ∀ e, score w' u e = score w t e + shift)
    (ht : ∀ e ∈ getViableEdges w t, -doubleMax < score w t e)
    (hu : ∀ e ∈ getViableEdges w' u, -doubleMax < score w' u e) :
    (choice w t).map Prod.fst = (choice w' u).map Prod.fst ∧
      ∀ x ∈ choice w t, ∀ y ∈ choice w' u, y.2 = x.2 + shift := by
  by_cases hnil : getViableEdges w t = []
  · rw [choice_of_nil hnil, choice_of_nil (hviable.trans hnil)]
    exact ⟨rfl, nofun⟩
  · obtain ⟨e, hchoice, hbest⟩ := choice_some hnil ht
    obtain ⟨e', hchoice', hbest'⟩ := choice_some (hviable ▸ hnil) hu
    have hsame := scan_shift hshift ht (hviable ▸ hu)
    rw [hviable] at hbest'
    rw [hbest, hbest', Option.some_inj] at hsame
    rw [hchoice, hchoice', ← hsame]
    refine ⟨rfl, fun x hx y hy => ?_⟩
    rw [← Option.some.inj hx, ← Option.some.inj hy]
    exact hshift e

/-- The decision sees of the task only which edges are viable for it, and the
weight of the priority never changes it. -/
theorem choice_ignores_task (w : World) (t u : TaskRef)
    (hsame : ∀ e, e ∈ getViableEdges w t ↔ e ∈ getViableEdges w u)
    (ht : ∀ e ∈ getViableEdges w t, -doubleMax < score w t e)
    (hu : ∀ e ∈ getViableEdges w u, -doubleMax < score w u e) :
    ((choice w t).isSome ↔ getViableEdges w t ≠ []) ∧
      (choice w t).map Prod.fst = (choice w u).map Prod.fst ∧
      (∀ x ∈ choice w t, ∀ y ∈ choice w u,
        x.2 - y.2 = 100 * w.allocator.weights.priorityWeight *
          (priorityScore (w.workload t).priority - priorityScore (w.workload u).priority)) ∧
      ∀ weight, (∀ e ∈ getViableEdges w t, -doubleMax < score (withPriorityWeight weight w) t e) →
        (choice (withPriorityWeight weight w) t).map Prod.fst = (choice w t).map Prod.fst := by
  have htask := choice_congr (getViableEdges_eq hsame).symm (score_task w t u) ht hu
  refine ⟨?_, htask.1, fun x hx y hy => ?_, fun weight hweight => ?_⟩
  · by_cases hnil : getViableEdges w t = []
    · simp [choice_of_nil hnil, hnil]
    · obtain ⟨e, hchoice, -⟩ := choice_some hnil ht
      simp [hchoice, hnil]
  · rw [htask.2 x hx y hy]
    ring
  · have hviable : getViableEdges (withPriorityWeight weight w) t = getViableEdges w t := rfl
    exact (choice_congr hviable (score_withPriorityWeight w t weight) ht hweight).1.symm

end Choice

def halfUsed : World :=
  { World.boot twoNodes (fun _ => nodeCapacity)
      (fun t => if t = 0 then TaskProfile.ultrasonic else TaskProfile.humidity)
      .multiConstraint .fifo with
    node := fun e =>
      { capacity := nodeCapacity, currentUsage := amounts (if e = "E01" then 50 else 0) 0 0 } }

theorem positiveWeights_default : PositiveWeights {} := by
  constructor <;> norm_num

theorem halfUsed_sound (e : EdgeId) : Sound (halfUsed.node e) := by
  refine ⟨fun r => ?_, fun r => ?_, fun r => ?_⟩
  · cases r <;> simp [halfUsed, nodeCapacity, amounts]
  · cases r <;> by_cases he : e = "E01" <;> simp [halfUsed, amounts, he]
  · cases r <;> by_cases he : e = "E01" <;> norm_num [halfUsed, nodeCapacity, amounts, he]

theorem halfUsed_dominates : Dominates (halfUsed.node "E02") (halfUsed.node "E01") where
  fraction r := by cases r <;> decide +kernel
  latency := le_rfl
  queueLength := le_rfl
  better := Or.inl ⟨.cpu, by decide +kernel⟩

theorem halfUsed_ne_dominated :
    ∃ w' result, allocateMultiConstraint halfUsed 0 = some (w', result) ∧
      result.success = true ∧ result.edgeId ≠ "E01" :=
  allocateMultiConstraint_ne_dominated positiveWeights_default (fun e _ => halfUsed_sound e)
    (by decide +kernel) (by decide +kernel) halfUsed_dominates

theorem halfUsed_score (t : TaskRef) (e : EdgeId) : -doubleMax < score halfUsed t e :=
  lt_of_lt_of_le (neg_lt_zero.mpr doubleMax_pos) (score_nonneg positiveWeights_default _ _)

theorem halfUsed_same_choice :
    (choice halfUsed 0).map Prod.fst = (choice halfUsed 1).map Prod.fst :=
  (choice_ignores_task halfUsed 0 1
    (by
      intro e
      have hlist : getViableEdges halfUsed 0 = getViableEdges halfUsed 1 := by decide +kernel
      rw [hlist])
    (fun e _ => halfUsed_score 0 e) (fun e _ => halfUsed_score 1 e)).2.1

end EdgeAllocator.Score
