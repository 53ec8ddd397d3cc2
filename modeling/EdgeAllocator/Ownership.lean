import EdgeAllocator.Tally
import EdgeAllocator.Foundation.Waiting

/-! Which thread is inside a section under `strategy_mutex_`, of the allocator
and of the scheduler: the owner of the mutex and no other. -/
namespace EdgeAllocator

open Foundation

/-- The mutexes that a thread holds while it calls into other objects. -/
inductive Mutex where
  | configuration
  | allocation
  | scheduling
  deriving DecidableEq

namespace Allocation

def AllocPc.locked : AllocPc → Bool
  | .lock | .returned _ => false
  | _ => true

theorem allocStep_lock {me : Thread} {call : AllocCall} {w w' : World} {pc pc' : AllocPc}
    (h : allocStep me call w pc = some (w', pc')) :
    LockStep me w.allocator.strategyMutex pc.locked w'.allocator.strategyMutex pc'.locked := by
  cases allocStep_move h with
  | enter hfree =>
      rw [hfree]
      exact .enter
  | unlock result => exact .leave _
  | _ => exact .keep _ _

theorem allocStep_scheduler {me : Thread} {call : AllocCall} {w w' : World} {pc pc' : AllocPc}
    (h : allocStep me call w pc = some (w', pc')) : w'.scheduler = w.scheduler :=
  (allocStep_strategies h).2

end Allocation

namespace Scheduler

def FetchPc.locked : FetchPc → Bool
  | .lock | .returned _ => false
  | _ => true

def SchedulePc.locked : SchedulePc → Bool
  | .lock | .returned => false
  | _ => true

theorem fetchStep_lock {me : Thread} {e : EdgeId} {clock : ComparisonClock} {w w' : World}
    {pc pc' : FetchPc} (h : fetchStep me e clock w pc = some (w', pc')) :
    LockStep me w.scheduler.strategyMutex pc.locked w'.scheduler.strategyMutex pc'.locked := by
  cases pc with
  | lock =>
      simp only [fetchStep] at h
      split_ifs at h with hfree
      cases h
      rw [hfree]
      exact .enter
  | checkQueue =>
      simp only [fetchStep] at h
      split_ifs at h <;> cases h <;> exact .keep _ _
  | popFront =>
      cases h
      exact .keep _ _
  | drainCheck scratch =>
      simp only [fetchStep] at h
      split_ifs at h <;> cases h <;> exact .keep _ _
  | drainPop scratch =>
      cases h
      exact .keep _ _
  | choose scratch =>
      obtain ⟨i, -, hnext⟩ := Option.map_eq_some_iff.mp h
      cases hnext
      exact .keep _ _
  | restore selected rest =>
      cases rest <;> cases h <;> exact .keep _ _
  | unlock selected =>
      cases h
      exact .leave _
  | returned selected => cases h

theorem scheduleStep_lock {me : Thread} {e : EdgeId} {t : TaskRef} {w w' : World}
    {pc pc' : SchedulePc} (h : scheduleStep me e t w pc = some (w', pc')) :
    LockStep me w.scheduler.strategyMutex pc.locked w'.scheduler.strategyMutex pc'.locked := by
  cases pc with
  | lock =>
      simp only [scheduleStep] at h
      split_ifs at h with hfree <;> cases h <;> rw [hfree] <;> exact .enter
  | unlock =>
      cases h
      exact .leave _
  | returned => cases h
  | _ =>
      cases h
      exact .keep _ _

end Scheduler

namespace Pipeline

open Scheduler Executor Allocation

def ProducerPc.allocationLocked : ProducerPc → Bool
  | .allocating _ pc => pc.locked
  | _ => false

def ProducerPc.schedulingLocked : ProducerPc → Bool
  | .scheduling _ _ pc => pc.locked
  | _ => false

end Pipeline

def Executor.WorkerPc.schedulingLocked : Executor.WorkerPc → Bool
  | .fetching pc => pc.locked
  | _ => false

namespace Pipeline

open Scheduler Executor Allocation

def State.allocating (s : State) : Thread → Bool
  | .producer => s.producer.allocationLocked
  | _ => false

def State.scheduling (s : State) : Thread → Bool
  | .producer => s.producer.schedulingLocked
  | .worker e => (s.workers e).schedulingLocked
  | _ => false

structure Owned (s : State) : Prop where
  allocation : Exclusive s.world.allocator.strategyMutex s.allocating
  scheduling : Exclusive s.world.scheduler.strategyMutex s.scheduling

theorem workerStep_lock {e : EdgeId} {input : WorkerInput} {w w' : World} {pc pc' : WorkerPc}
    (h : workerStep e input w pc = some (w', pc')) :
    LockStep (.worker e) w.scheduler.strategyMutex pc.schedulingLocked
      w'.scheduler.strategyMutex pc'.schedulingLocked := by
  cases workerStep_move h with
  | fetch hfetch => exact fetchStep_lock hfetch
  | @exec t stage hstage =>
      rw [execStep_scheduler]
      exact .keep _ _
  | _ => exact .keep _ _

theorem Owned.initial {s : State} (h : Initial s)
    (hallocation : s.world.allocator.strategyMutex = none)
    (hscheduling : s.world.scheduler.strategyMutex = none) : Owned s := by
  constructor
  · rw [hallocation]
    refine .free fun thread => ?_
    cases thread with
    | producer => rw [State.allocating, h.producer]; rfl
    | _ => rfl
  · rw [hscheduling]
    refine .free fun thread => ?_
    cases thread with
    | producer => rw [State.scheduling, h.producer]; rfl
    | worker e => rw [State.scheduling, h.workers]; rfl
    | _ => rfl

section Step

variable {s s' : State}

theorem Owned.produce (h : Owned s) (hworkers : s'.workers = s.workers)
    (hallocation : LockStep .producer s.world.allocator.strategyMutex s.producer.allocationLocked
      s'.world.allocator.strategyMutex s'.producer.allocationLocked)
    (hscheduling : LockStep .producer s.world.scheduler.strategyMutex s.producer.schedulingLocked
      s'.world.scheduler.strategyMutex s'.producer.schedulingLocked) : Owned s' := by
  constructor
  · refine h.allocation.step hallocation fun thread hne => ?_
    cases thread with
    | producer => exact absurd rfl hne
    | _ => rfl
  · refine h.scheduling.step hscheduling fun thread hne => ?_
    cases thread with
    | producer => exact absurd rfl hne
    | worker e => rw [State.scheduling, State.scheduling, hworkers]
    | _ => rfl

theorem Owned.of_eq (h : Owned s)
    (hallocation : s'.world.allocator.strategyMutex = s.world.allocator.strategyMutex)
    (hscheduling : s'.world.scheduler.strategyMutex = s.world.scheduler.strategyMutex)
    (hproducer : s'.producer = s.producer)
    (hworkers : ∀ e, (s'.workers e).schedulingLocked = (s.workers e).schedulingLocked) :
    Owned s' := by
  constructor
  · have hsame : s'.allocating = s.allocating := by
      funext thread
      cases thread <;> simp only [State.allocating, hproducer]
    rw [hallocation, hsame]
    exact h.allocation
  · have hsame : s'.scheduling = s.scheduling := by
      funext thread
      cases thread <;> simp only [State.scheduling, hproducer, hworkers]
    rw [hscheduling, hsame]
    exact h.scheduling

theorem Owned.work (h : Owned s) {e : EdgeId} {input : WorkerInput} {w : World} {pc' : WorkerPc}
    (hstep : workerStep e input s.world (s.workers e) = some (w, pc')) :
    Owned { s with
      world := w
      workers := Function.update s.workers e pc'
      log := s.log.work e (s.workers e) } := by
  constructor
  · have hsame : w.allocator = s.world.allocator := workerStep_allocator hstep
    show Exclusive w.allocator.strategyMutex _
    rw [hsame]
    exact h.allocation
  · have hmine : LockStep (.worker e) s.world.scheduler.strategyMutex (s.scheduling (.worker e))
        w.scheduler.strategyMutex (Function.update s.workers e pc' e).schedulingLocked := by
      rw [Function.update_self]
      exact workerStep_lock hstep
    refine h.scheduling.step hmine fun thread hne => ?_
    cases thread with
    | worker e' =>
        have he : e' ≠ e := fun heq => hne (by rw [heq])
        show (Function.update s.workers e pc' e').schedulingLocked = _
        rw [Function.update_of_ne he]
        rfl
    | _ => rfl

theorem Owned.move (h : Owned s) {label : Label} (hthreads : Threads s)
    (hmove : Move s label s') : Owned s' := by
  cases hmove with
  | produce kind now hidle =>
      refine h.produce rfl ?_ ?_ <;> rw [hidle] <;> exact .keep _ _
  | alloc draws hpc hstep =>
      refine h.produce rfl ?_ ?_
      · rw [hpc]
        exact allocStep_lock hstep
      · rw [hpc]
        show LockStep _ _ _ (World.scheduler _).strategyMutex _
        rw [allocStep_scheduler hstep]
        exact .keep _ _
  | schedule draws hpc hstep =>
      refine h.produce rfl ?_ ?_
      · rw [hpc]
        show LockStep _ _ _ (World.allocator _).strategyMutex _
        rw [(scheduleStep_strategies hstep).1]
        exact .keep _ _
      · rw [hpc]
        exact scheduleStep_lock hstep
  | allocated draws hpc hsuccess =>
      refine h.produce rfl ?_ ?_ <;> rw [hpc] <;> exact .keep _ _
  | refused draws hpc hfailure =>
      refine h.produce rfl ?_ ?_ <;> rw [hpc] <;> exact .keep _ _
  | scheduled draws hpc =>
      refine h.produce rfl ?_ ?_ <;> rw [hpc] <;> exact .keep _ _
  | fluctuate hidle =>
      refine h.produce rfl ?_ ?_ <;> rw [hidle] <;> exact .keep _ _
  | draw draws hpc =>
      refine h.produce rfl ?_ ?_ <;> rw [hpc] <;> exact .keep _ _
  | passOver draws hpc =>
      refine h.produce rfl ?_ ?_ <;> rw [hpc] <;> exact .keep _ _
  | fluctuated draws hpc =>
      refine h.produce rfl ?_ ?_ <;> rw [hpc] <;> exact .keep _ _
  | work e input hstep => exact h.work hstep
  | @spawn e todo hcontrol hworker =>
      refine h.of_eq rfl rfl rfl fun e' => ?_
      show (Function.update s.workers e .loopHead e').schedulingLocked = _
      by_cases he : e' = e
      · rw [he, Function.update_self, hworker]
        rfl
      · rw [Function.update_of_ne he]
  | joined hcontrol =>
      refine h.of_eq rfl rfl rfl fun e => ?_
      by_cases he : e ∈ s.world.fleet.ids
      · rw [hthreads.joining [] hcontrol e he List.not_mem_nil]
        rfl
      · rw [hthreads.foreign e he]
  | _ => exact h.of_eq rfl rfl rfl fun _ => rfl

end Step

end Pipeline
end EdgeAllocator
