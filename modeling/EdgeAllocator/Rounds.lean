import EdgeAllocator.Recorded

/-! The rounds of the loop, one after the other: each leaves one row behind, and a
reservation goes into the row of its own round. -/
namespace EdgeAllocator.Recording

open Foundation Scheduler Executor Allocator Allocation Pipeline Live

def State.unrecorded (s : State) : List (TaskRef × EdgeId) :=
  match s.record, s.live.pipe.producer with
  | .scheduling t result, _ | .getStrategy t result, _ | .save t result _, _ =>
      [(t, result.edgeId)]
  | .idle, .allocating call pc => pc.granted.toList.map fun e => (call.task, e)
  | _, _ => []

def reservations (rows : List AllocationRow) : List (TaskRef × EdgeId) :=
  rows.filterMap fun row => row.edgeId.map fun e => (row.task, e)

/-- Every round up to the one at hand has left one row. -/
structure Rounded (s : State) : Prop where
  counted : ∀ t, s.atHand = some t → t + 1 = s.live.pipe.world.taskCounter
  rows : s.allocations.map AllocationRow.task = List.range s.bound
  edges : ∀ row ∈ s.allocations, row.success = row.edgeId.isSome
  granted : s.live.pipe.log.granted = reservations s.allocations ++ s.unrecorded

theorem bound_of_none {s : State} (h : s.atHand = none) :
    s.bound = s.live.pipe.world.taskCounter := by
  rw [State.bound, h, Option.getD_none]

theorem refused_failure {s s' : State} {label : Live.Label} (h : Recording.step s label = some s')
    (hrecord : s.record = .idle) {call : AllocCall} {result : AllocationResult}
    (hproducer : s.live.pipe.producer = .allocating call (.returned result))
    (hrecord' : s'.record = .saveFailure call.task result) : result.success = false := by
  cases Recording.step_move h with
  | other _ _ => cases hrecord.symm.trans hrecord'
  | process input _ _ =>
      change s.advance = _ at hrecord'
      unfold State.advance at hrecord'
      rw [hproducer, hrecord] at hrecord'
      split at hrecord'
      · rename_i heq
        cases heq
        split_ifs at hrecord' with hsuccess
        exact Bool.not_eq_true _ ▸ hsuccess
      · rename_i heq
        cases heq
      · cases hrecord'
  | read input hread => cases hrecord.symm.trans hread
  | write input hread => cases hrecord.symm.trans hread
  | writeFailure input hread => cases hrecord.symm.trans hread

namespace Rounded

variable {s : State} (h : Rounded s)
include h

theorem aside {live : Live.State} (haside : Aside s.live.pipe live.pipe) :
    Rounded { s with live := live } := by
  have hatHand : ({ s with live := live } : State).atHand = s.atHand := by
    simp only [State.atHand, haside.producer]
  constructor
  · intro t ht
    rw [haside.taskCounter]
    exact h.counted t (hatHand ▸ ht)
  · show s.allocations.map AllocationRow.task = List.range (State.bound { s with live := live })
    simp only [State.bound, hatHand, haside.taskCounter]
    exact h.rows
  · exact h.edges
  · simp only [State.unrecorded, haside.producer, haside.granted]
    exact h.granted

theorem create {i : Nat} {kind : AllocKind} {now : Int} (hidle : s.live.pipe.producer = .idle)
    (hrecord : s.record = .idle) :
    Rounded { s with live := { s.live with
      pipe := { s.live.pipe with
        world := createTask now s.live.pipe.world
        producer := .allocating ⟨s.live.pipe.world.taskCounter, kind⟩ .lock }
      processing := .countGenerated i } } := by
  have hnone : s.atHand = none := by simp only [State.atHand, hrecord, hidle]
  constructor
  · intro t ht
    simp only [State.atHand, hrecord, Option.some_inj] at ht
    exact ht ▸ rfl
  · have hrows := h.rows
    rw [bound_of_none hnone] at hrows
    simpa only [State.bound, State.atHand, hrecord, Option.getD_some] using hrows
  · exact h.edges
  · have hgranted := h.granted
    simp only [State.unrecorded, hrecord, hidle] at hgranted
    simpa [State.unrecorded, hrecord, AllocPc.granted] using hgranted

theorem of_same {s' : State} (hatHand : s'.atHand = s.atHand)
    (htaskCounter : s'.live.pipe.world.taskCounter = s.live.pipe.world.taskCounter)
    (hrows : s'.allocations = s.allocations)
    (hgranted : s'.live.pipe.log.granted = reservations s.allocations ++ s'.unrecorded) :
    Rounded s' := by
  constructor
  · intro t ht
    rw [htaskCounter]
    exact h.counted t (hatHand ▸ ht)
  · simp only [State.bound, hatHand, htaskCounter, hrows]
    exact h.rows
  · exact hrows ▸ h.edges
  · rw [hrows]
    exact hgranted

theorem handle {s' : State} (hmove : Handling s s')
    (hrefused : ∀ call result, s.record = .idle →
      s.live.pipe.producer = .allocating call (.returned result) →
      s'.record = .saveFailure call.task result → result.success = false) : Rounded s' := by
  have hgranted := h.granted
  cases hmove with
  | @select call pc pc' w hrecord hproducer hstep =>
      refine h.of_same ?_ (allocStep_taskCounter hstep) rfl ?_
      · simp only [State.atHand, hrecord, hproducer]
      · simp only [State.unrecorded, hrecord, hproducer] at hgranted ⊢
        rw [granted_grant, hgranted, List.append_assoc]
        obtain ⟨-, hkept, hnone⟩ | ⟨n, e, score, rfl, rfl, -⟩ := allocStep_node hstep
        · rw [hkept, hnone, List.map_nil, List.append_nil]
        · rfl
  | allocated hrecord hproducer hsuccess =>
      refine h.of_same ?_ rfl rfl ?_
      · simp only [State.atHand, hrecord, hproducer]
      · simpa [State.unrecorded, hrecord, hproducer, AllocPc.granted, hsuccess] using hgranted
  | @refused call result hrecord hproducer =>
      have hfailure := hrefused call result hrecord hproducer rfl
      refine h.of_same ?_ rfl rfl ?_
      · simp only [State.atHand, hrecord, hproducer]
      · simpa [State.unrecorded, hrecord, hproducer, AllocPc.granted, hfailure] using hgranted
  | schedule hrecord _ hstep =>
      refine h.of_same ?_ (scheduleStep_taskCounter hstep) rfl ?_
      · simp only [State.atHand, hrecord]
      · simpa only [State.unrecorded, hrecord] using hgranted
  | scheduled hrecord _ =>
      refine h.of_same ?_ rfl rfl ?_
      · simp only [State.atHand, hrecord]
      · simpa only [State.unrecorded, hrecord] using hgranted

theorem save {row : AllocationRow} (hidle : s.live.pipe.producer = .idle)
    (hatHand : s.atHand = some row.task) (hedge : row.success = row.edgeId.isSome)
    (hunrecorded : s.unrecorded = row.edgeId.toList.map fun e => (row.task, e)) :
    Rounded (s.save row) := by
  have hnone : (s.save row).atHand = none := by
    simp only [State.atHand, State.save, hidle]
  have hbound := bound_of_none hnone
  constructor
  · intro t ht
    cases hnone.symm.trans ht
  · have hrows := h.rows
    rw [bound_of_atHand hatHand] at hrows
    have hnext : (s.save row).bound = row.task + 1 := hbound.trans (h.counted _ hatHand).symm
    rw [hnext, List.range_succ, ← hrows]
    exact List.map_append
  · exact List.forall_mem_append.mpr ⟨h.edges, List.forall_mem_singleton.mpr hedge⟩
  · have hrest : (s.save row).unrecorded = [] := by
      simp only [State.unrecorded, State.save, hidle]
    rw [hrest, List.append_nil]
    show s.live.pipe.log.granted = reservations (s.allocations ++ [row])
    rw [h.granted, hunrecorded, reservations, reservations, List.filterMap_append]
    cases hedge : row.edgeId <;> simp [hedge]

theorem round {s' : State} (hround : Round s s')
    (hrefused : ∀ call result, s.record = .idle →
      s.live.pipe.producer = .allocating call (.returned result) →
      s'.record = .saveFailure call.task result → result.success = false) : Rounded s' := by
  cases hround with
  | aside haside _ _ _ => exact h.aside haside
  | create hidle hrecord => exact h.create hidle hrecord
  | handle _ hhandling => exact h.handle hhandling hrefused
  | read hrecord _ =>
      have hgranted := h.granted
      refine h.of_same ?_ rfl rfl ?_
      · simp only [State.atHand, hrecord]
      · simpa only [State.unrecorded, hrecord] using hgranted
  | write hrecord hidle =>
      refine h.save hidle ?_ rfl ?_
      · simp only [State.atHand, hrecord]
        rfl
      · simp only [State.unrecorded, hrecord]
        rfl
  | writeFailure hrecord hidle =>
      refine h.save hidle ?_ rfl ?_
      · simp only [State.atHand, hrecord]
        rfl
      · simp only [State.unrecorded, hrecord]
        rfl

theorem step {s' : State} (hhonest : Honest s) {label : Live.Label}
    (hstep : Recording.step s label = some s') : Rounded s' :=
  h.round (round_of_move hhonest.tracked (Recording.step_move hstep))
    fun _ _ hrecord hproducer hrecord' => refused_failure hstep hrecord hproducer hrecord'

end Rounded

theorem Rounded.initial {s : State} (h : Initial s) : Rounded s := by
  have hnone : s.atHand = none := by simp only [State.atHand, h.record, h.live.pipe.producer]
  constructor
  · intro t ht
    cases hnone.symm.trans ht
  · rw [bound_of_none hnone, h.allocations, h.live.pipe.taskCounter]
    rfl
  · rw [h.allocations]
    exact fun _ hrow => by cases hrow
  · rw [h.live.pipe.log, h.allocations]
    simp only [State.unrecorded, h.record, h.live.pipe.producer]
    rfl

end EdgeAllocator.Recording
