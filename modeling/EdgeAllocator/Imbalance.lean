import EdgeAllocator.Capacity
import EdgeAllocator.Foundation.Mean
import Mathlib.Analysis.Real.Sqrt

/-! The CPU figures of `MetricsCollector`: the mean utilisation of the registered
nodes and the standard deviation around it. -/
namespace EdgeAllocator.MetricsCollector

open Foundation

abbrev Registry := List (Option EdgeNode)

def cpuUtilization (node : EdgeNode) : ℚ :=
  node.currentUsage .cpu / node.capacity.amounts .cpu * 100

def utilizations (nodes : Registry) : List ℚ :=
  nodes.filterMap fun
    | none => none
    | some node =>
        if 0 < node.capacity.amounts .cpu then some (cpuUtilization node) else none

/-- What `calculateLoadImbalance` has under the root, 0 where it returns early. -/
def loadVariance (nodes : Registry) : ℚ :=
  if nodes.isEmpty then 0 else
    let utilizations := utilizations nodes
    if utilizations.length < 2 then 0 else
      let sum : ℚ := utilizations.foldl (fun sum value => sum + value) 0
      let mean := sum / utilizations.length
      let squaredDiffSum : ℚ := utilizations.foldl (fun sum value =>
        let diff := value - mean
        sum + diff * diff) 0
      squaredDiffSum / utilizations.length

noncomputable def calculateLoadImbalance (nodes : Registry) : ℝ :=
  √(loadVariance nodes : ℝ)

def getAllEdgeNodes (w : World) : Registry := w.fleet.ids.map fun e => some (w.node e)

theorem mem_utilizations_iff {nodes : Registry} {value : ℚ} :
    value ∈ utilizations nodes ↔
      ∃ node, some node ∈ nodes ∧ 0 < node.capacity.amounts .cpu ∧ cpuUtilization node = value := by
  unfold utilizations
  rw [List.mem_filterMap]
  constructor
  · rintro ⟨_ | node, hmem, hvalue⟩
    · cases hvalue
    · obtain ⟨hpositive, heq⟩ := Option.ite_none_right_eq_some.mp hvalue
      exact ⟨node, hmem, hpositive, Option.some.inj heq⟩
  · rintro ⟨node, hmem, hpositive, rfl⟩
    exact ⟨some node, hmem, if_pos hpositive⟩

theorem loadVariance_eq (nodes : Registry) :
    loadVariance nodes = variance (utilizations nodes) := by
  unfold loadVariance
  by_cases hempty : nodes.isEmpty = true
  · rw [if_pos hempty, List.isEmpty_iff.mp hempty, variance_of_length_lt_two]
    exact Nat.zero_lt_two
  · rw [if_neg hempty]
    by_cases hfew : (utilizations nodes).length < 2
    · rw [if_pos hfew, variance_of_length_lt_two hfew]
    · rw [if_neg hfew]
      unfold variance squaredDeviation mean
      rw [List.sum_eq_foldl, List.sum_eq_foldl, List.foldl_map]
      simp only [pow_two]

def Sound (nodes : Registry) : Prop := ∀ node, some node ∈ nodes → node.WithinCapacity

theorem Sound.utilization_mem {nodes : Registry} (h : Sound nodes) {value : ℚ}
    (hvalue : value ∈ utilizations nodes) : 0 ≤ value ∧ value ≤ 100 := by
  obtain ⟨node, hmem, hpositive, rfl⟩ := mem_utilizations_iff.mp hvalue
  have hlow : 0 ≤ node.currentUsage .cpu := (h node hmem).1 .cpu
  have hhigh : node.currentUsage .cpu ≤ node.capacity.amounts .cpu := (h node hmem).2 .cpu
  have hshare : node.currentUsage .cpu / node.capacity.amounts .cpu ≤ 1 :=
    (div_le_one hpositive).mpr hhigh
  have hnonneg : 0 ≤ node.currentUsage .cpu / node.capacity.amounts .cpu :=
    div_nonneg hlow hpositive.le
  unfold cpuUtilization
  constructor <;> linarith

def Even (nodes : Registry) : Prop :=
  ∀ node node', some node ∈ nodes → some node' ∈ nodes → 0 < node.capacity.amounts .cpu →
    0 < node'.capacity.amounts .cpu → cpuUtilization node = cpuUtilization node'

theorem loadVariance_eq_zero_iff (nodes : Registry) : loadVariance nodes = 0 ↔ Even nodes := by
  rw [loadVariance_eq, variance_eq_zero_iff]
  constructor
  · intro h node node' hmem hmem' hpositive hpositive'
    exact h _ (mem_utilizations_iff.mpr ⟨node, hmem, hpositive, rfl⟩) _
      (mem_utilizations_iff.mpr ⟨node', hmem', hpositive', rfl⟩)
  · intro h x hx y hy
    obtain ⟨node, hmem, hpositive, rfl⟩ := mem_utilizations_iff.mp hx
    obtain ⟨node', hmem', hpositive', rfl⟩ := mem_utilizations_iff.mp hy
    exact h node node' hmem hmem' hpositive hpositive'

theorem Sound.loadVariance_le {nodes : Registry} (h : Sound nodes) : loadVariance nodes ≤ 2500 := by
  rw [loadVariance_eq]
  have hbound := variance_le fun value hvalue => h.utilization_mem hvalue
  norm_num at hbound
  exact hbound

theorem Sound.calculateLoadImbalance_le {nodes : Registry} (h : Sound nodes) :
    calculateLoadImbalance nodes ≤ 50 := by
  have hvariance : (loadVariance nodes : ℝ) ≤ 2500 := by exact_mod_cast h.loadVariance_le
  unfold calculateLoadImbalance
  apply Real.sqrt_le_iff.mpr
  constructor
  · norm_num
  · linarith

theorem calculateLoadImbalance_eq_zero_iff (nodes : Registry) :
    calculateLoadImbalance nodes = 0 ↔ loadVariance nodes = 0 := by
  have hnonneg : (0 : ℝ) ≤ loadVariance nodes := by
    rw [loadVariance_eq]
    exact_mod_cast variance_nonneg (utilizations nodes)
  unfold calculateLoadImbalance
  rw [Real.sqrt_eq_zero hnonneg, Rat.cast_eq_zero]

/-- The figure is zero exactly on an even registry, and 50 at most. -/
theorem loadImbalance_measures {nodes : Registry} (h : Sound nodes) :
    (loadVariance nodes = 0 ↔ Even nodes) ∧ (calculateLoadImbalance nodes = 0 ↔ Even nodes) ∧
      loadVariance nodes ≤ 2500 ∧ calculateLoadImbalance nodes ≤ 50 := by
  have hzero := loadVariance_eq_zero_iff nodes
  exact ⟨hzero, (calculateLoadImbalance_eq_zero_iff nodes).trans hzero, h.loadVariance_le,
    h.calculateLoadImbalance_le⟩

def lopsided : Registry :=
  [some { capacity := nodeCapacity },
    some { capacity := nodeCapacity, currentUsage := nodeCapacity.amounts },
    some { capacity := { nodeCapacity with amounts := 0 } }, none]

theorem lopsided_sound : Sound lopsided := by
  have hcapacity : ∀ r, 0 ≤ nodeCapacity.amounts r := by decide +kernel
  intro node hmem
  simp only [lopsided, List.mem_cons, Option.some.injEq, reduceCtorEq, List.not_mem_nil,
    or_false] at hmem
  obtain rfl | rfl | rfl := hmem
  · exact ⟨le_rfl, hcapacity⟩
  · exact ⟨hcapacity, le_rfl⟩
  · exact ⟨le_rfl, le_rfl⟩

theorem loadImbalance_measures_lopsided :
    (loadVariance lopsided = 0 ↔ Even lopsided) ∧
      (calculateLoadImbalance lopsided = 0 ↔ Even lopsided) ∧
      loadVariance lopsided ≤ 2500 ∧ calculateLoadImbalance lopsided ≤ 50 :=
  loadImbalance_measures lopsided_sound

example : loadVariance lopsided = 2500 := by decide +kernel

theorem getAllEdgeNodes_sound {start s : Pipeline.State} (hstart : Pipeline.machine.initial start)
    (hcapacity : ∀ e, 0 ≤ (start.world.node e).capacity.amounts)
    (hdemand : ∀ t, 0 ≤ start.world.demand t)
    (hrun : Pipeline.machine.Run Machine.free start s) : Sound (getAllEdgeNodes s.world) := by
  intro node hmem
  obtain ⟨e, -, hnode⟩ := List.mem_map.mp hmem
  cases hnode
  exact (Pipeline.bounded_of_run hstart hcapacity hdemand hrun).2.within e

end EdgeAllocator.MetricsCollector
