import EdgeAllocator.Controller

/-! `EARLIEST_DEADLINE_FIRST` against the absolute deadlines: its comparison
reads the clock twice and drops the fraction of a millisecond. -/
namespace EdgeAllocator.Deadline

open Foundation Scheduler Controller

def millisecond : Int := 1000000

def absoluteDeadline (w : World) (t : TaskRef) : Int :=
  (w.task t).creationTime + (w.workload t).deadlineMs * millisecond

/-- The readings of the comparisons `1` to `n - 1`: between `first` and `last`, in
either order within a comparison, and never earlier than in one before it. -/
structure Ticking (clock : ComparisonClock) (n : Nat) (first last : Int) : Prop where
  span : first ≤ last
  within : ∀ i, 1 ≤ i → i < n →
    (first ≤ (clock i).1 ∧ (clock i).1 ≤ last) ∧ first ≤ (clock i).2 ∧ (clock i).2 ≤ last
  forward : ∀ i k, 1 ≤ i → i < k → k < n →
    ((clock i).1 ≤ (clock k).1 ∧ (clock i).1 ≤ (clock k).2) ∧
      (clock i).2 ≤ (clock k).1 ∧ (clock i).2 ≤ (clock k).2

/-- The latest reading before comparison `i`. -/
def reached (clock : ComparisonClock) (first : Int) : Nat → Int
  | 0 | 1 => first
  | i + 2 => max (clock (i + 1)).1 (clock (i + 1)).2

theorem reached_succ (clock : ComparisonClock) (first : Int) {i : Nat} (hi : 1 ≤ i) :
    reached clock first (i + 1) = max (clock i).1 (clock i).2 := by
  cases i with
  | zero => omega
  | succ i => rfl

theorem reached_le {clock : ComparisonClock} {n i : Nat} {first last : Int}
    (h : Ticking clock n first last) (hi : 1 ≤ i) (hlt : i < n) :
    (reached clock first i ≤ (clock i).1 ∧ (clock i).1 ≤ reached clock first (i + 1)) ∧
      reached clock first i ≤ (clock i).2 ∧ (clock i).2 ≤ reached clock first (i + 1) := by
  have hwithin := h.within i hi hlt
  rw [reached_succ clock first hi]
  obtain rfl | hlater := Nat.eq_or_lt_of_le hi
  · have hfirst : reached clock first 1 = first := rfl
    omega
  · have hforward := h.forward (i - 1) i (by omega) (by omega) hlt
    have hprevious := reached_succ clock first (i := i - 1) (by omega)
    rw [Nat.sub_add_cancel hi] at hprevious
    omega

theorem reached_le_last {clock : ComparisonClock} {n : Nat} {first last : Int}
    (h : Ticking clock n first last) (hn : 1 ≤ n) : reached clock first n ≤ last := by
  obtain rfl | hlater := Nat.eq_or_lt_of_le hn
  · exact h.span
  · have hwithin := h.within (n - 1) (by omega) (by omega)
    have hprevious := reached_succ clock first (i := n - 1) (by omega)
    rw [Nat.sub_add_cancel hn] at hprevious
    omega

theorem getRemainingTimeMs_bounds {w : World} {t : TaskRef} {now : Int}
    (h : (w.task t).creationTime ≤ now) :
    absoluteDeadline w t - now ≤
        (w.task t).getRemainingTimeMs (w.workload t) now * millisecond ∧
      (w.task t).getRemainingTimeMs (w.workload t) now * millisecond <
        absoluteDeadline w t - now + millisecond := by
  unfold absoluteDeadline Task.getRemainingTimeMs Task.getElapsedTimeMs millisecond
  rw [Int.tdiv_eq_ediv_of_nonneg (by omega)]
  omega

def deadlineOf (w : World) (task : TaskPtr) : Int := task.elim 0 (absoluteDeadline w)

section Scan

variable {w : World} {clock : ComparisonClock} {tasks : List TaskRef} {first last : Int}

def Created (w : World) (clock : ComparisonClock) (tasks : List TaskRef) : Prop :=
  ∀ t ∈ tasks, ∀ i, 1 ≤ i → i < tasks.length →
    (w.task t).creationTime ≤ (clock i).1 ∧ (w.task t).creationTime ≤ (clock i).2

theorem remainingTimeLess_approximates (hclock : Ticking clock tasks.length first last)
    (hcreated : Created w clock tasks) {i : Nat} (hi : 1 ≤ i) (hlt : i < tasks.length)
    {a b : TaskRef} (ha : a ∈ tasks) (hb : b ∈ tasks) :
    Approximates (fun i best y => remainingTimeLess w clock i y best) (deadlineOf w)
      (reached clock first) millisecond i (some a) (some b) := by
  have hreached := reached_le hclock hi hlt
  have hbest := getRemainingTimeMs_bounds (hcreated a ha i hi hlt).2
  have hnext := getRemainingTimeMs_bounds (hcreated b hb i hi hlt).1
  have hcompare : remainingTimeLess w clock i (some b) (some a) =
      some (decide ((w.task b).getRemainingTimeMs (w.workload b) (clock i).1 <
        (w.task a).getRemainingTimeMs (w.workload a) (clock i).2)) := rfl
  refine ⟨by omega, fun htaken => ?_, fun hkept => ?_⟩
  · rw [hcompare, Option.some_inj, decide_eq_true_eq] at htaken
    simp only [deadlineOf, Option.elim_some, millisecond] at *
    omega
  · rw [hcompare, Option.some_inj, decide_eq_false_iff_not] at hkept
    simp only [deadlineOf, Option.elim_some, millisecond] at *
    omega

/-- The returned task is due less than the span of the scan and one
millisecond after the one that is due first. -/
theorem getNextTask_within {e : EdgeId} (hstrategy : w.scheduler.strategy = .earliestDeadlineFirst)
    (hqueue : (w.node e).taskQueue = tasks.map some) (htasks : tasks ≠ [])
    (hclock : Ticking clock tasks.length first last) (hcreated : Created w clock tasks) :
    ∃ w' t, getNextTask e clock w = some (w', some t) ∧ t ∈ tasks ∧
      ∀ u ∈ tasks, absoluteDeadline w t <
        absoluteDeadline w u + (last - first) + millisecond := by
  have happrox : ∀ k, 1 ≤ k → k < (tasks.map some).length →
      ∀ a ∈ tasks.map some, ∀ b ∈ tasks.map some,
        Approximates (fun i best y => remainingTimeLess w clock i y best) (deadlineOf w)
          (reached clock first) millisecond k a b := by
    intro k hk hlt a ha b hb
    obtain ⟨t, ht, rfl⟩ := List.mem_map.mp ha
    obtain ⟨u, hu, rfl⟩ := List.mem_map.mp hb
    rw [List.length_map] at hlt
    exact remainingTimeLess_approximates hclock hcreated hk hlt ht hu
  have hcompare : ∀ i, ∀ a ∈ tasks.map some, ∀ b ∈ tasks.map some,
      (remainingTimeLess w clock i a b).isSome := by
    intro i a ha b hb
    obtain ⟨a, -, rfl⟩ := List.mem_map.mp ha
    obtain ⟨b, -, rfl⟩ := List.mem_map.mp hb
    rfl
  obtain ⟨j, hj⟩ := Option.isSome_iff_exists.mp (minElement_isSome (by simpa using htasks) hcompare)
  obtain ⟨chosen, hget, hleast⟩ := minElement_within (by decide) happrox hj
  rw [List.getElem?_map] at hget
  obtain ⟨t, ht, rfl⟩ := Option.map_eq_some_iff.mp hget
  have hspan := reached_le_last hclock (List.length_pos_iff.mpr htasks)
  refine ⟨w.modifyNode e fun node => { node with taskQueue := node.taskQueue.eraseIdx j }, t, ?_,
    List.mem_of_getElem? ht, fun u hu => ?_⟩
  · have hmore : (w.node e).hasTasksInQueue = true := by
      simp [EdgeNode.hasTasksInQueue, hqueue, htasks]
    have hselect : select w clock (w.node e).taskQueue = some j := by
      simpa only [select, hstrategy, hqueue] using hj
    unfold getNextTask
    rw [if_pos hmore, if_neg (by rw [hstrategy]; decide), hselect, Option.map_some, hqueue,
      List.getElem?_map, ht]
    rfl
  · have hlt := hleast (some u) (List.mem_map_of_mem hu)
    have hfirst : reached clock first 1 = first := rfl
    simp only [deadlineOf, Option.elim_some, List.length_map] at hlt
    omega

end Scan

def threeDue : World :=
  { World.boot singleNode (fun _ => nodeCapacity)
      (fun t => if t = 0 then TaskProfile.ultrasonic else if t = 1 then TaskProfile.temperature
        else TaskProfile.camera) .leastLoad .earliestDeadlineFirst with
    node := fun _ => { capacity := nodeCapacity, taskQueue := [some 0, some 1, some 2] } }

def steadyClock : ComparisonClock := fun i => (1000 * i, 1000 * i)

theorem steadyClock_ticking : Ticking steadyClock 3 1000 2000 := by
  refine ⟨by decide, fun i hi hlt => ?_, fun i k hi hik hk => ?_⟩
  · simp only [steadyClock]
    omega
  · simp only [steadyClock]
    omega

theorem threeDue_within :
    ∃ w' t, getNextTask "E01" steadyClock threeDue = some (w', some t) ∧ t ∈ [0, 1, 2] ∧
      ∀ u ∈ [0, 1, 2], absoluteDeadline threeDue t <
        absoluteDeadline threeDue u + (2000 - 1000) + millisecond :=
  getNextTask_within rfl rfl (by decide) steadyClock_ticking fun t _ i hi _ => by
    have hcreated : (threeDue.task t).creationTime = 0 := rfl
    rw [hcreated]
    simp only [steadyClock]
    omega

end EdgeAllocator.Deadline
