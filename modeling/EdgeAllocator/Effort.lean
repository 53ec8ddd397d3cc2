import EdgeAllocator.Progress

/-! How many steps of its own each call has left at most, whatever the other threads
do in between. -/
namespace EdgeAllocator

namespace Allocation

open Allocator

def AllocKind.retries : AllocKind → Nat
  | .once => 0
  | .withRetry maxRetries => maxRetries

def AllocPc.attempts : AllocPc → Nat
  | .attempt n | .scan n _ _ | .examine n _ _ _ | .compare n _ _ _ _ | .reserve n _ _
  | .retry n => n
  | _ => 0

/-- The steps from the end of an attempt that found nothing. -/
def retryEffort (nodes retries n : Nat) : Nat := (retries - n) * (9 * nodes + 15) + 3

def AllocPc.effort (nodes retries : Nat) : AllocPc → Nat
  | .lock => 9 * nodes + 14 + retryEffort nodes retries 0
  | .attempt n => 9 * nodes + 13 + retryEffort nodes retries n
  | .scan n todo viable => 9 * todo.length + 7 * viable.length + 12 + retryEffort nodes retries n
  | .examine n _ todo viable =>
      9 * todo.length + 7 * viable.length + 20 + retryEffort nodes retries n
  | .compare _ todo reads _ _ => 7 * todo.length + (6 - reads.length) + 5
  | .reserve _ _ _ => 4
  | .assign _ _ => 3
  | .persist _ _ => 2
  | .retry n => retryEffort nodes retries n
  | .fail => 2
  | .unlock _ => 1
  | .returned _ => 0

theorem retryEffort_succ (nodes : Nat) {retries n : Nat} (h : n + 1 ≤ retries) :
    retryEffort nodes retries (n + 1) + (9 * nodes + 15) = retryEffort nodes retries n := by
  have hleft : retries - n = retries - (n + 1) + 1 := by omega
  rw [retryEffort, retryEffort, hleft, Nat.add_one_mul (retries - (n + 1))]
  omega

theorem probeCount_le (strategy : AllocationStrategy) : probeCount strategy ≤ 5 := by
  cases strategy <;> decide

theorem allocStep_effort {me : Thread} {call : AllocCall} {w w' : World} {pc pc' : AllocPc}
    (h : allocStep me call w pc = some (w', pc')) (hattempts : pc.attempts ≤ call.kind.retries)
    (hretries : call.kind.retries + 1 < sizeModulus) :
    pc'.effort w.fleet.ids.length call.kind.retries <
        pc.effort w.fleet.ids.length call.kind.retries ∧
      pc'.attempts ≤ call.kind.retries := by
  cases pc with
  | lock =>
      simp only [allocStep] at h
      split_ifs at h
      cases h
      exact ⟨by simp only [AllocPc.effort]; omega, Nat.zero_le _⟩
  | attempt n =>
      cases h
      exact ⟨by simp only [AllocPc.effort, List.length_nil]; omega, hattempts⟩
  | scan n todo viable =>
      cases todo with
      | nil =>
          simp only [allocStep] at h
          split_ifs at h with hempty
          · cases h
            exact ⟨by simp only [AllocPc.effort]; omega, hattempts⟩
          · obtain ⟨e, -, hnext⟩ := Option.map_eq_some_iff.mp h
            cases hnext
            exact ⟨by simp only [AllocPc.effort]; omega, hattempts⟩
          · cases h
            refine ⟨?_, hattempts⟩
            simp only [AllocPc.effort, List.length_nil]
            omega
      | cons e todo =>
          simp only [allocStep] at h
          split_ifs at h <;> cases h <;> refine ⟨?_, hattempts⟩ <;>
            simp only [AllocPc.effort, List.length_cons] <;> omega
  | examine n e todo viable =>
      simp only [allocStep] at h
      split_ifs at h <;> cases h <;> refine ⟨?_, hattempts⟩ <;>
        simp only [AllocPc.effort, List.length_append, List.length_singleton] <;> omega
  | compare n todo reads best key =>
      have hprobes := probeCount_le w.allocator.strategy
      cases todo with
      | nil =>
          obtain ⟨e, -, hnext⟩ := Option.map_eq_some_iff.mp h
          cases hnext
          exact ⟨by simp only [AllocPc.effort]; omega, hattempts⟩
      | cons e todo =>
          simp only [allocStep] at h
          split_ifs at h with hread <;> cases h <;> refine ⟨?_, hattempts⟩ <;>
            simp only [AllocPc.effort, List.length_cons, List.length_append, List.length_nil] <;>
            omega
  | retry n =>
      simp only [allocStep] at h
      split at h
      · cases h
        exact ⟨by simp only [AllocPc.effort, retryEffort]; omega, Nat.zero_le _⟩
      · rename_i maxRetries hkind
        have hlimit : call.kind.retries = maxRetries := by rw [hkind]; rfl
        have hn : n ≤ maxRetries := hlimit ▸ hattempts
        rw [hlimit] at hretries ⊢
        have hnext : (n + 1) % sizeModulus = n + 1 := Nat.mod_eq_of_lt (by omega)
        rw [hnext] at h
        split_ifs at h with hagain <;> cases h
        · have hdown := retryEffort_succ w.fleet.ids.length hagain.2
          exact ⟨by simp only [AllocPc.effort]; omega, hagain.2⟩
        · exact ⟨by simp only [AllocPc.effort, retryEffort]; omega, Nat.zero_le _⟩
  | returned result => cases h
  | _ =>
      cases h
      exact ⟨by simp only [AllocPc.effort]; omega, Nat.zero_le _⟩

end Allocation

namespace Scheduler

def SchedulePc.effort : SchedulePc → Nat
  | .lock => 4
  | .markQueued => 3
  | .enqueue => 2
  | .unlock => 1
  | .returned => 0

theorem scheduleStep_effort {me : Thread} {e : EdgeId} {t : TaskRef} {w w' : World}
    {pc pc' : SchedulePc} (h : scheduleStep me e t w pc = some (w', pc')) :
    pc'.effort < pc.effort := by
  cases pc with
  | lock =>
      simp only [scheduleStep] at h
      split_ifs at h <;> cases h <;> decide
  | returned => cases h
  | _ =>
      cases h
      decide

def FetchPc.effort (queue : Nat) : FetchPc → Nat
  | .lock => 3 * queue + 6
  | .checkQueue => 3 * queue + 5
  | .popFront => 2
  | .drainCheck scratch => 3 * queue + scratch.length + 4
  | .drainPop scratch => 3 * (queue - 1) + scratch.length + 6
  | .choose scratch => scratch.length + 3
  | .restore _ rest => rest.length + 2
  | .unlock _ => 1
  | .returned _ => 0

theorem dequeueTask_length (node : EdgeNode) :
    node.dequeueTask.2.taskQueue.length = node.taskQueue.length - 1 := by
  unfold EdgeNode.dequeueTask
  split
  · rename_i hempty
    rw [hempty]
    rfl
  · rename_i hqueue
    rw [hqueue]
    rfl

theorem fetchStep_effort {me : Thread} {e : EdgeId} {clock : ComparisonClock} {w w' : World}
    {pc pc' : FetchPc} (h : fetchStep me e clock w pc = some (w', pc')) :
    pc'.effort (w'.node e).taskQueue.length < pc.effort (w.node e).taskQueue.length := by
  cases pc with
  | lock =>
      simp only [fetchStep] at h
      split_ifs at h
      cases h
      exact Nat.lt_succ_self _
  | checkQueue =>
      simp only [fetchStep] at h
      split_ifs at h with hqueue hfifo <;> cases h <;>
        simp only [FetchPc.effort, List.length_nil] <;> omega
  | popFront =>
      cases h
      simp only [FetchPc.effort]
      omega
  | drainCheck scratch =>
      simp only [fetchStep] at h
      split_ifs at h with hqueue hempty
      · cases h
        have hlength : 0 < (w.node e).taskQueue.length := by
          rw [List.length_pos_iff]
          simpa [EdgeNode.hasTasksInQueue] using hqueue
        simp only [FetchPc.effort]
        omega
      · cases h
        simp only [FetchPc.effort]
        omega
      · cases h
        simp only [FetchPc.effort]
        omega
  | drainPop scratch =>
      cases h
      rw [World.modifyNode_self]
      simp only [FetchPc.effort, dequeueTask_length, List.length_append, List.length_singleton]
      omega
  | choose scratch =>
      obtain ⟨i, hi, hnext⟩ := Option.map_eq_some_iff.mp h
      cases hnext
      simp only [FetchPc.effort, List.length_eraseIdx_of_lt (select_lt hi)]
      omega
  | restore selected rest =>
      cases rest <;> cases h <;> simp only [FetchPc.effort, List.length_cons, List.length_nil] <;>
        omega
  | unlock selected =>
      cases h
      exact Nat.zero_lt_one
  | returned selected => cases h

end Scheduler

namespace Executor

open Scheduler

def ExecStage.effort : ExecStage → Nat
  | .begin => 11
  | .persistRunning => 10
  | .register => 9
  | .estimate => 8
  | .sleep _ => 7
  | .conclude _ => 6
  | .persistFinal _ => 5
  | .unregister _ => 4
  | .release _ => 3
  | .count _ => 2
  | .persistExecution _ => 1
  | .returned => 0

theorem execStep_effort {e : EdgeId} {input : WorkerInput} {w : World} {t : TaskRef}
    {stage : ExecStage} (h : stage ≠ .returned) :
    (execStep e input w t stage).2.effort < stage.effort := by
  cases stage with
  | returned => exact absurd rfl h
  | _ => exact Nat.lt_succ_self _

/-- The steps until the thread has left the loop, once `is_running_` is cleared. -/
def WorkerPc.effort (queue : Nat) : WorkerPc → Nat
  | .loopHead => 1
  | .fetching pc => pc.effort queue + 15
  | .executing _ stage => stage.effort + 2
  | .notStarted | .exited => 0

theorem workerStep_effort {e : EdgeId} {input : WorkerInput} {w w' : World} {pc pc' : WorkerPc}
    (h : workerStep e input w pc = some (w', pc'))
    (hpc : pc = .loopHead → w.executor.isRunning = false) :
    pc'.effort (w'.node e).taskQueue.length < pc.effort (w.node e).taskQueue.length := by
  cases workerStep_move h with
  | enter hrunning =>
      rw [hpc rfl] at hrunning
      cases hrunning
  | leave => exact Nat.zero_lt_one
  | fetch hfetch => exact Nat.add_lt_add_right (fetchStep_effort hfetch) 15
  | exec t hreturned => exact Nat.add_lt_add_right (execStep_effort hreturned) 2
  | _ => simp [WorkerPc.effort, FetchPc.effort, ExecStage.effort]

end Executor

namespace Live

open Scheduler Executor Allocator Allocation Pipeline

theorem Drives.producer {s t : Pipeline.State} (h : Drives NotByProducer s t) :
    t.producer = s.producer ∧ t.world.fleet = s.world.fleet := by
  obtain rfl | ⟨label, hlabel, hstep⟩ := h
  · exact ⟨rfl, rfl⟩
  · exact ⟨hlabel.producer hstep, (Pipeline.step_move hstep).frame.fleet⟩

def ChoosePc.effort : ChoosePc → Nat
  | .readUsage todo _ => todo.length + 5
  | .lock _ => 4
  | .setAllocation _ => 3
  | .setScheduling _ => 2
  | .unlock => 1
  | .returned => 0

theorem chooseEntry_effort (s : State) : (chooseEntry s).effort ≤ s.edges.length + 5 := by
  unfold chooseEntry
  split
  · exact Nat.zero_le _
  · exact le_rfl

theorem chooseStep_effort {me : Thread} {s t : State} {pc pc' : ChoosePc}
    (h : chooseStep me s pc = some (t, pc')) : pc'.effort < pc.effort := by
  cases pc with
  | readUsage todo cpuTotal =>
      cases todo with
      | nil =>
          cases h
          exact Nat.lt_succ_self _
      | cons e todo =>
          cases h
          exact Nat.lt_succ_self _
  | lock averageCpu =>
      obtain ⟨-, -, rfl⟩ := lock_pair h
      exact Nat.lt_succ_self _
  | setAllocation averageCpu =>
      obtain ⟨-, -, -, rfl⟩ := drive_pair h
      exact Nat.lt_succ_self _
  | setScheduling averageCpu =>
      obtain ⟨-, -, -, rfl⟩ := drive_pair h
      exact Nat.lt_succ_self _
  | unlock =>
      cases h
      exact Nat.lt_succ_self _
  | returned => cases h

def ReportPc.effort : ReportPc → Nat
  | .lock => 7
  | .readConfig => 6
  | .allocationStrategy _ => 5
  | .allocationStrategyLabel _ => 4
  | .schedulingAlgorithm _ => 3
  | .schedulingAlgorithmLabel _ => 2
  | .unlock _ => 1
  | .returned _ => 0

theorem reportStep_effort {me : Thread} {s t : State} {pc pc' : ReportPc}
    (h : reportStep me s pc = some (t, pc')) : pc'.effort < pc.effort := by
  cases pc with
  | lock =>
      obtain ⟨-, -, rfl⟩ := lock_pair h
      exact Nat.lt_succ_self _
  | allocationStrategy item =>
      obtain ⟨-, rfl⟩ := getAllocation_pair h
      exact Nat.lt_succ_self _
  | allocationStrategyLabel item =>
      obtain ⟨-, rfl⟩ := getAllocation_pair h
      exact Nat.lt_succ_self _
  | schedulingAlgorithm item =>
      obtain ⟨-, rfl⟩ := getScheduling_pair h
      exact Nat.lt_succ_self _
  | schedulingAlgorithmLabel item =>
      obtain ⟨-, rfl⟩ := getScheduling_pair h
      exact Nat.lt_succ_self _
  | returned item => cases h
  | _ =>
      cases h
      exact Nat.lt_succ_self _

def ClientPc.effort (edges : Nat) : ClientPc → Nat
  | .autoLock => edges + 10
  | .autoSet => edges + 9
  | .autoUnlock => edges + 8
  | .autoChoose pc => pc.effort + 2
  | .manualLock _ _ => 9
  | .validate _ _ => 8
  | .setAllocation _ _ => 7
  | .setScheduling _ _ => 6
  | .setAutomatic _ _ => 5
  | .nameAllocation _ _ => 4
  | .nameScheduling _ _ => 3
  | .unlock _ => 2
  | .returned _ => 1
  | .reporting pc => pc.effort + 1
  | .idle => 0

theorem clientStep_effort {me : Thread} {s t : State} {pc pc' : ClientPc}
    (h : clientStep me s pc = some (t, pc')) :
    pc'.effort s.edges.length < pc.effort s.edges.length := by
  cases pc with
  | idle => cases h
  | autoLock =>
      obtain ⟨-, -, rfl⟩ := lock_pair h
      exact Nat.lt_succ_self _
  | manualLock allocation scheduling =>
      obtain ⟨-, -, rfl⟩ := lock_pair h
      exact Nat.lt_succ_self _
  | autoUnlock =>
      cases h
      have hentry := chooseEntry_effort s
      simp only [ClientPc.effort]
      omega
  | autoChoose pc =>
      obtain ⟨-, -, rfl⟩ | ⟨next, hstep, rfl⟩ := autoChoose_some h
      · simp only [ClientPc.effort]
        omega
      · exact Nat.add_lt_add_right (chooseStep_effort hstep) 2
  | validate allocation scheduling =>
      simp only [clientStep] at h
      split at h <;> cases h <;> simp [ClientPc.effort]
  | setAllocation allocation scheduling =>
      obtain ⟨-, -, -, rfl⟩ := drive_pair h
      exact Nat.lt_succ_self _
  | setScheduling allocation scheduling =>
      obtain ⟨-, -, -, rfl⟩ := drive_pair h
      exact Nat.lt_succ_self _
  | reporting pc =>
      obtain ⟨⟨item, rfl⟩, -, rfl⟩ | ⟨next, hstep, rfl⟩ := reporting_some h
      · exact Nat.zero_lt_one
      · exact Nat.add_lt_add_right (reportStep_effort hstep) 1
  | _ =>
      cases h
      exact Nat.lt_succ_self _

end Live

namespace Pipeline

open Scheduler Executor Allocator Allocation

def ProducerPc.effort (nodes : Nat) : ProducerPc → Nat
  | .idle => 0
  | .allocating call pc => pc.effort nodes call.kind.retries + 20
  | .scheduling _ _ pc => pc.effort + 10
  | .fluctuating todo => todo.length + 1

def Persistent (producer : ProducerPc) : Prop :=
  ∀ call pc, producer = .allocating call pc → call.kind = .withRetry 200 ∧ pc.attempts ≤ 200

end Pipeline

namespace Live

open Scheduler Executor Allocator Allocation Pipeline

def roundEffort (nodes : Nat) : Nat := AllocPc.lock.effort nodes 200 + 20

/-- The steps until the thread has left `processingLoop`, once a stop is requested. -/
def ProcessingPc.effort (nodes edges : Nat) : ProcessingPc → Nat
  | .checkAutomatic _ => roundEffort nodes + edges + 16
  | .choosing _ pc => roundEffort nodes + pc.effort + 10
  | .create _ => roundEffort nodes + 9
  | .countGenerated _ => 8
  | .lockConfiguration _ => 7
  | .allocating _ => 6
  | .unlockConfiguration _ => 5
  | .loopHead _ => 4
  | .polling todo => todo.length + 6
  | .checkActive => 5
  | .napping => 4
  | .drainTest => 3
  | .completing _ => 2
  | .clearRunning _ => 1
  | .notStarted | .exited _ => 0

def ProcessingPc.turns : ProcessingPc → Bool
  | .loopHead _ | .drainTest => true
  | _ => false

theorem persistent_step {s t : Pipeline.State} (h : Persistent s.producer)
    {draws : EdgeNode.Draws} (hstep : Pipeline.step s (.producer draws) = some t) :
    Persistent t.producer := by
  cases Pipeline.step_move hstep with
  | @alloc _ call pc pc' w hpc halloc =>
      obtain ⟨hkind, hattempts⟩ := h call pc hpc
      have hretries : call.kind.retries = 200 := by rw [hkind]; rfl
      obtain ⟨-, hkept⟩ := allocStep_effort halloc (hretries ▸ hattempts)
        (hretries ▸ by decide +kernel)
      rintro _ _ ⟨⟩
      exact ⟨hkind, hretries ▸ hkept⟩
  | stay _ hlabel => simp at hlabel
  | _ => rintro _ _ ⟨⟩

theorem persistent_move {s t : State} {label : Label} (h : Persistent s.pipe.producer)
    (hmove : Move s label t) : Persistent t.pipe.producer := by
  cases hmove with
  | enter _ _ _ _ _ => exact h
  | main hmain => exact hmain.drives.producer.1 ▸ h
  | process _ hprocess =>
      cases hprocess with
      | choose _ hchoose => exact (chooseStep_drives hchoose).producer.1 ▸ h
      | create _ hpipe =>
          cases Pipeline.step_move hpipe with
          | produce _ _ _ =>
              rintro _ _ ⟨⟩
              exact ⟨rfl, Nat.zero_le _⟩
          | stay _ hlabel => simp at hlabel
      | allocate _ hpipe => exact persistent_step h hpipe
      | _ => exact h
  | work e input hpipe =>
      have hother : NotByProducer (.work e input) := rfl
      exact hother.producer hpipe ▸ h
  | apply _ _ _ _ _ _ => exact h
  | report _ _ => exact h
  | client _ hclient => exact (clientStep_drives hclient).producer.1 ▸ h

end Live

namespace Recording

open Scheduler Executor Allocator Allocation Pipeline Live

def RecordPc.effort : RecordPc → Nat
  | .getStrategy _ _ => 2
  | .save _ _ _ | .saveFailure _ _ => 1
  | .idle | .scheduling _ _ => 0

def State.effort (s : State) : Nat :=
  s.live.processing.effort s.live.pipe.world.fleet.ids.length s.live.edges.length +
    s.live.pipe.producer.effort s.live.pipe.world.fleet.ids.length + s.record.effort

section Effort

variable {s : State}

theorem advance_effort {i : Nat} (hprocessing : s.live.processing = .allocating i)
    (hrecord : s.record.effort = 0) (hpersistent : Persistent s.live.pipe.producer)
    {draws : EdgeNode.Draws} {pipe : Pipeline.State}
    (hstep : Pipeline.step s.live.pipe (.producer draws) = some pipe) :
    pipe.producer.effort s.live.pipe.world.fleet.ids.length + s.advance.effort <
      s.live.pipe.producer.effort s.live.pipe.world.fleet.ids.length := by
  have hkept (hadvance : s.advance = s.record) : s.advance.effort = 0 := hadvance ▸ hrecord
  cases Pipeline.step_move hstep with
  | @alloc _ call pc pc' w hpc halloc =>
      obtain ⟨hkind, hattempts⟩ := hpersistent call pc hpc
      have hretries : call.kind.retries = 200 := by rw [hkind]; rfl
      have hadvance : s.advance = s.record := by
        cases pc with
        | returned result => cases halloc
        | _ => simp only [State.advance, hprocessing, hpc]
      obtain ⟨hless, -⟩ := allocStep_effort halloc (hretries ▸ hattempts)
        (hretries ▸ by decide +kernel)
      rw [hkept hadvance, hpc]
      exact Nat.add_lt_add_right hless 20
  | @allocated _ call result hpc hsuccess =>
      have hadvance : s.advance = .scheduling call.task result := by
        simp only [State.advance, hprocessing, hpc, hsuccess, if_true]
      rw [hadvance, hpc]
      simp [ProducerPc.effort, RecordPc.effort, SchedulePc.effort, AllocPc.effort]
  | @refused _ call result hpc hfailure =>
      have hadvance : s.advance = .saveFailure call.task result := by
        simp [State.advance, hprocessing, hpc, hfailure]
      rw [hadvance, hpc]
      simp [ProducerPc.effort, RecordPc.effort, AllocPc.effort]
  | @schedule _ t e pc pc' w hpc hschedule =>
      have hadvance : s.advance = s.record := by
        cases pc with
        | returned => cases hschedule
        | _ => simp only [State.advance, hprocessing, hpc]
      rw [hkept hadvance, hpc]
      exact Nat.add_lt_add_right (scheduleStep_effort hschedule) 10
  | @scheduled _ t e hpc =>
      have hadvance : s.advance.effort ≤ 2 := by
        simp only [State.advance, hprocessing, hpc]
        split
        · exact le_rfl
        · rw [hrecord]
          exact Nat.zero_le _
      rw [hpc]
      simp only [ProducerPc.effort, SchedulePc.effort]
      omega
  | draw _ hpc | passOver _ hpc | fluctuated _ hpc =>
      have hadvance : s.advance = s.record := by simp only [State.advance, hprocessing, hpc]
      rw [hkept hadvance, hpc]
      exact Nat.lt_succ_self _
  | stay _ hlabel => simp at hlabel

theorem advance_elsewhere (h : ∀ i, s.live.processing ≠ .allocating i) :
    s.advance = s.record := by
  cases hpc : s.live.processing with
  | allocating i => exact absurd hpc (h i)
  | _ => simp only [State.advance, hpc]

theorem allocating_effort {input : ProcessInput} {live : Live.State} {i : Nat}
    (hpc : s.live.processing = .allocating i)
    (hstep : Live.processStep input s.live = some live) (hrecord : s.record.effort = 0)
    (hpersistent : Persistent s.live.pipe.producer) :
    State.effort { s with live := live, record := s.advance } < s.effort := by
  simp only [Live.processStep, hpc] at hstep
  by_cases hidle : s.live.pipe.producer = .idle
  · have hadvance : s.advance = s.record := by simp only [State.advance, hpc, hidle]
    simp only [hidle] at hstep
    cases hstep
    simp only [State.effort, hpc, hadvance, ProcessingPc.effort]
    omega
  · have hdrive : s.live.drive (.producer {}) = some live := by
      split at hstep
      · exact absurd ‹_› hidle
      · exact hstep
    obtain ⟨pipe, hpipe, rfl⟩ := drive_some hdrive
    have hless := advance_effort hpc hrecord hpersistent hpipe
    have hfleet := (Pipeline.step_move hpipe).frame.fleet
    simp only [State.effort, hpc, hfleet, ProcessingPc.effort]
    omega

theorem liveStep_effort {input : ProcessInput} {live : Live.State}
    (hstep : Live.processStep input s.live = some live) (hrecord : s.record.effort = 0)
    (hpersistent : Persistent s.live.pipe.producer)
    (hstop : s.live.processing.turns = true → s.live.stopRequested = true) :
    State.effort { s with live := live, record := s.advance } < s.effort := by
  by_cases hcalls : ∃ i, s.live.processing = .allocating i
  · obtain ⟨i, hpc⟩ := hcalls
    exact allocating_effort hpc hstep hrecord hpersistent
  have helsewhere : ∀ i, s.live.processing ≠ .allocating i := not_exists.mp hcalls
  have hnone : s.advance.effort = 0 := advance_elsewhere helsewhere ▸ hrecord
  have hturn {pc : ProcessingPc} (hpipe : live.pipe = s.live.pipe)
      (hedges : live.edges = s.live.edges) (hprocessing : live.processing = pc)
      (hless : pc.effort s.live.pipe.world.fleet.ids.length s.live.edges.length <
        s.live.processing.effort s.live.pipe.world.fleet.ids.length s.live.edges.length) :
      State.effort { s with live := live, record := s.advance } < s.effort := by
    simp only [State.effort, hpipe, hedges, hprocessing]
    omega
  cases hpc : s.live.processing with
  | notStarted =>
      rw [Live.processStep, hpc] at hstep
      cases hstep
  | exited drained =>
      rw [Live.processStep, hpc] at hstep
      cases hstep
  | loopHead i =>
      have hrequested := hstop (by rw [hpc]; rfl)
      rw [Live.processStep, hpc] at hstep
      simp only [hrequested, Bool.true_eq_false, and_false, if_false] at hstep
      cases hstep
      exact hturn rfl rfl rfl (by rw [hpc]; exact Nat.lt_succ_self _)
  | drainTest =>
      have hrequested := hstop (by rw [hpc]; rfl)
      rw [Live.processStep, hpc] at hstep
      simp only [hrequested, Bool.true_or, if_true] at hstep
      cases hstep
      exact hturn rfl rfl rfl (by rw [hpc]; exact Nat.lt_succ_self _)
  | checkAutomatic i =>
      have hentry := chooseEntry_effort s.live
      rw [Live.processStep, hpc] at hstep
      cases hstep
      refine hturn rfl rfl rfl ?_
      rw [hpc]
      split <;> simp only [ProcessingPc.effort] <;> omega
  | choosing i pc =>
      rw [Live.processStep, hpc] at hstep
      by_cases hreturned : pc = .returned
      · rw [hreturned] at hstep hpc
        cases hstep
        exact hturn rfl rfl rfl (by rw [hpc]; simp [ProcessingPc.effort])
      · have hmap : (chooseStep .producer s.live pc).map (fun next =>
            { next.1 with processing := .choosing i next.2 }) = some live := by
          cases pc with
          | returned => exact absurd rfl hreturned
          | _ => exact hstep
        obtain ⟨⟨u, pc'⟩, hchoose, hnext⟩ := Option.map_eq_some_iff.mp hmap
        obtain ⟨hproducer, hfleet⟩ := (chooseStep_drives hchoose).producer
        have hless := chooseStep_effort hchoose
        cases hnext
        simp only [State.effort, hpc, hproducer, hfleet, ProcessingPc.effort]
        omega
  | create i =>
      rw [Live.processStep, hpc] at hstep
      obtain ⟨u, hdrive, hnext⟩ := Option.map_eq_some_iff.mp hstep
      obtain ⟨pipe, hpipe, rfl⟩ := drive_some hdrive
      cases hnext
      cases Pipeline.step_move hpipe with
      | produce _ _ hidle =>
          have hcall : ProducerPc.effort s.live.pipe.world.fleet.ids.length
              (.allocating ⟨s.live.pipe.world.taskCounter, .withRetry 200⟩ .lock) =
                roundEffort s.live.pipe.world.fleet.ids.length := rfl
          show 8 + ProducerPc.effort s.live.pipe.world.fleet.ids.length
            (.allocating ⟨_, .withRetry 200⟩ .lock) + s.advance.effort < _
          rw [hcall, State.effort, hpc]
          simp only [ProcessingPc.effort]
          omega
      | stay _ hlabel => simp at hlabel
  | allocating i => exact absurd hpc (helsewhere i)
  | polling todo =>
      rw [Live.processStep, hpc] at hstep
      cases todo with
      | nil =>
          cases hstep
          exact hturn rfl rfl rfl (by rw [hpc]; exact Nat.lt_succ_self _)
      | cons e todo =>
          cases hstep
          refine hturn rfl rfl rfl ?_
          rw [hpc]
          split <;> simp only [ProcessingPc.effort, List.length_cons] <;> omega
  | checkActive =>
      rw [Live.processStep, hpc] at hstep
      cases hstep
      refine hturn rfl rfl rfl ?_
      rw [hpc]
      split <;> simp only [ProcessingPc.effort] <;> omega
  | lockConfiguration i =>
      rw [Live.processStep, hpc] at hstep
      obtain ⟨u, hlock, hnext⟩ := Option.map_eq_some_iff.mp hstep
      obtain ⟨-, rfl⟩ := lockConfiguration_some hlock
      cases hnext
      exact hturn rfl rfl rfl (by rw [hpc]; exact Nat.lt_succ_self _)
  | _ =>
      rw [Live.processStep, hpc] at hstep
      cases hstep
      exact hturn rfl rfl rfl (by rw [hpc]; exact Nat.lt_succ_self _)

/-- Past the two places where a stop is noticed each step of the thread is one less. -/
theorem processStep_effort {input : ProcessInput} {t : State} (h : processStep input s = some t)
    (hpersistent : Persistent s.live.pipe.producer)
    (hstop : s.live.processing.turns = true → s.live.stopRequested = true) :
    t.effort < s.effort := by
  have hlive (hrecord : s.record.effort = 0)
      (hmap : (Live.processStep input s.live).map (fun live =>
        { s with
          live := live
          record := s.advance
          consulted := s.consulted ++ s.consulting
          scheduled := s.scheduled ++ s.enqueuing }) = some t) : t.effort < s.effort := by
    obtain ⟨live, hstep, hnext⟩ := Option.map_eq_some_iff.mp hmap
    cases hnext
    exact liveStep_effort hstep hrecord hpersistent hstop
  cases hrecord : s.record with
  | getStrategy u result =>
      simp only [processStep, hrecord] at h
      split_ifs at h
      cases h
      simp [State.effort, hrecord, RecordPc.effort]
  | save u result strategy =>
      simp only [processStep, hrecord] at h
      cases h
      simp [State.effort, State.save, hrecord, RecordPc.effort]
  | saveFailure u result =>
      simp only [processStep, hrecord] at h
      cases h
      simp [State.effort, State.save, hrecord, RecordPc.effort]
  | idle =>
      simp only [processStep, hrecord] at h
      exact hlive (by rw [hrecord]; rfl) h
  | scheduling u result =>
      simp only [processStep, hrecord] at h
      exact hlive (by rw [hrecord]; rfl) h

end Effort

end Recording

end EdgeAllocator
