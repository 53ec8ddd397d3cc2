import EdgeAllocator.Custody

/-! What the account of a node says: it stays between zero and the capacity,
and without background load it is the sum of the reservations that stand. -/
namespace EdgeAllocator.Pipeline

open Foundation Scheduler Executor Allocator Allocation

/-- The tasks allocated to the edge whose resources are not yet given back. -/
def State.outstanding (s : State) (e : EdgeId) : List TaskRef :=
  (tasksOn e s.log.granted).diff (tasksOn e s.log.released)

theorem outstanding_perm {s : State} (h : reservation.Balanced s) (e : EdgeId) :
    (s.outstanding e).Perm (reservation.places s e) := by
  rw [List.perm_iff_count]
  intro t
  have hbalance := (h e).count_eq t
  rw [List.count_append] at hbalance
  rw [State.outstanding, List.count_diff]
  simp only [reservation] at hbalance ⊢
  omega

/-- What one step can do to the account of an edge. -/
inductive UsageMove (s s' : State) (label : Label) (e : EdgeId) : Prop where
  | same (husage : (s'.world.node e).currentUsage = (s.world.node e).currentUsage)
      (hplaces : (reservation.places s' e).Perm (reservation.places s e))
  | grant {call : AllocCall} {n : Nat} {score : ℚ}
      (hpc : s.producer = .allocating call (.reserve n e score))
      (hpc' : s'.producer = .allocating call (.assign e score))
      (husage : (s'.world.node e).currentUsage =
        (s.world.node e).currentUsage + s.world.demand call.task)
      (hplaces : (reservation.places s' e).Perm (call.task :: reservation.places s e))
  | release {t : TaskRef} {input : WorkerInput} (hlabel : label = .work e input)
      (hreleases : (s.workers e).releases = [t])
      (husage : (s'.world.node e).currentUsage =
        ((s.world.node e).deallocateResources (s.world.demand t)).currentUsage)
      (hplaces : (reservation.places s e).Perm (t :: reservation.places s' e))
  | draw {draws : EdgeNode.Draws} {todo : List EdgeId} (hlabel : label = .producer draws)
      (hpc : s.producer = .fluctuating (e :: todo)) (hpc' : s'.producer = .fluctuating todo)
      (husage : (s'.world.node e).currentUsage =
        ((s.world.node e).simulateResourceFluctuation draws).currentUsage)
      (hplaces : (reservation.places s' e).Perm (reservation.places s e))

theorem places_perm {s s' : State} (h : reservation.Balanced s) (h' : reservation.Balanced s')
    {e : EdgeId} (granted released : List TaskRef)
    (hgranted : tasksOn e s'.log.granted = tasksOn e s.log.granted ++ granted)
    (hreleased : tasksOn e s'.log.released = tasksOn e s.log.released ++ released) :
    (reservation.places s' e ++ released).Perm (granted ++ reservation.places s e) := by
  have hold := h e
  have hnew := h' e
  rw [List.perm_iff_count] at hold hnew ⊢
  intro t
  have hold := hold t
  have hnew := hnew t
  simp only [reservation, hgranted, hreleased, List.count_append] at hold hnew ⊢
  omega

theorem places_perm_of_log {s s' : State} (h : reservation.Balanced s)
    (h' : reservation.Balanced s') (hlog : s'.log = s.log) (e : EdgeId) :
    (reservation.places s' e).Perm (reservation.places s e) := by
  have hkeep {events : Log → List (TaskRef × EdgeId)} :
      tasksOn e (events s'.log) = tasksOn e (events s.log) ++ [] := by
    rw [hlog, List.append_nil]
  simpa using places_perm h h' [] [] hkeep hkeep

theorem Move.usage {s s' : State} {label : Label} (h : Sound s) (hmove : Move s label s')
    (e : EdgeId) : UsageMove s s' label e := by
  have h' := (h.move hmove).reservation
  have hsame (hlog : s'.log = s.log)
      (husage : (s'.world.node e).currentUsage = (s.world.node e).currentUsage) :
      UsageMove s s' label e :=
    .same husage (places_perm_of_log h.reservation h' hlog e)
  cases hmove with
  | @alloc draws call pc pc' w hpc hstep =>
      obtain ⟨hnode, hkeep, hgrants⟩ | ⟨n, e', score, rfl, rfl, rfl⟩ := allocStep_node hstep
      · refine hsame ?_ (congrArg (fun node => (node e).currentUsage) hnode)
        rw [hgrants, grant_nil]
      · have hperm (granted : List TaskRef)
            (hgranted : tasksOn e [(call.task, e')] = granted) :=
          places_perm h.reservation h' granted [] ((tasksOn_append _ _ _).trans
            (congrArg _ hgranted)) (List.append_nil _).symm
        by_cases he : e = e'
        · subst he
          exact .grant hpc rfl (by simp) (by simpa using hperm [call.task] (by simp))
        · exact .same (by simp [he]) (by simpa using hperm [] (by simp [Ne.symm he]))
  | @schedule draws t e' pc pc' w hpc hstep =>
      have heffect := scheduleStep_effect hstep
        (h.edges _ (by rw [hpc]; exact List.mem_singleton_self _))
      refine hsame rfl ?_
      by_cases he : e = e'
      · rw [he]
        exact heffect.usage
      · exact congrArg EdgeNode.currentUsage (heffect.other e he)
  | @draw draws e' todo hpc =>
      by_cases he : e = e'
      · subst he
        exact .draw rfl hpc rfl (by simp) (places_perm_of_log h.reservation h' rfl e)
      · exact hsame rfl (by simp [he])
  | work e' input hstep =>
      by_cases he : e = e'
      · subst he
        have hperm := places_perm h.reservation h' [] (s.workers e).releases
          (List.append_nil _).symm ((tasksOn_append _ _ _).trans
            (congrArg _ (tasksOn_map_self e _)))
        obtain ⟨husage, hreleases⟩ | ⟨t, hreleases, hnode⟩ := workerStep_usage hstep
        · rw [hreleases] at hperm
          exact .same husage (by simpa using hperm)
        · rw [hreleases] at hperm
          exact .release rfl hreleases (by rw [← hnode])
            ((List.perm_append_comm.trans hperm).symm)
      · have hperm := places_perm (e := e) h.reservation h' [] []
          (List.append_nil _).symm ((tasksOn_append _ _ _).trans
            (congrArg _ (tasksOn_map_of_ne (Ne.symm he) _)))
        exact .same (congrArg EdgeNode.currentUsage (workerStep_node_of_ne hstep he))
          (by simpa using hperm)
  | _ => exact hsame rfl rfl

theorem Move.demand {s s' : State} {label : Label} (h : Move s label s') (t : TaskRef) :
    s'.world.demand t = s.world.demand t := h.frame.demand t

theorem Move.candidates {s s' : State} {label : Label} (h : Move s label s') {call : AllocCall}
    {pc' : AllocPc} (hpc' : s'.producer = .allocating call pc') {e : EdgeId}
    (he : e ∈ pc'.candidates) :
    (∃ pc, s.producer = .allocating call pc ∧ e ∈ pc.candidates) ∨
      (∃ draws n todo viable, label = .producer draws ∧
        s.producer = .allocating call (.examine n e todo viable)) ∧
        (s.world.node e).canAllocate (s.world.demand call.task) = true := by
  cases h with
  | produce kind now _ =>
      cases hpc'
      cases he
  | alloc draws hpc hstep =>
      cases hpc'
      refine (allocStep_candidates hstep he).imp (fun hold => ⟨_, hpc, hold⟩) fun hnew => ?_
      obtain ⟨⟨n, todo, viable, rfl⟩, hfits⟩ := hnew
      exact ⟨⟨draws, n, todo, viable, rfl, hpc⟩, hfits⟩
  | allocated _ _ _ => cases hpc'
  | refused _ _ _ => cases hpc'
  | schedule _ _ _ => cases hpc'
  | scheduled _ _ => cases hpc'
  | fluctuate _ => cases hpc'
  | draw _ _ => cases hpc'
  | passOver _ _ => cases hpc'
  | fluctuated _ _ => cases hpc'
  | _ => exact Or.inl ⟨pc', hpc', he⟩

/-- Every account is within its bounds, and no release or other step of a
foreign thread can make a candidate of the current call unfit. -/
structure Bounded (s : State) : Prop where
  demand : ∀ t, 0 ≤ s.world.demand t
  within : ∀ e, (s.world.node e).WithinCapacity
  fits : ∀ call pc, s.producer = .allocating call pc → ∀ e ∈ pc.candidates,
    (s.world.node e).Fits (s.world.demand call.task)

theorem withinCapacity_of_eq {node node' : EdgeNode} (hcapacity : node'.capacity = node.capacity)
    {usage : Amounts} (husage : node'.currentUsage = usage)
    (h : ({ node with currentUsage := usage } : EdgeNode).WithinCapacity) :
    node'.WithinCapacity := by
  unfold EdgeNode.WithinCapacity at h ⊢
  rw [hcapacity, husage]
  exact h

theorem Bounded.move {s s' : State} {label : Label} (h : Bounded s) (hsound : Sound s)
    (hmove : Move s label s') : Bounded s' := by
  have hcapacity (e : EdgeId) := hmove.frame.capacity e
  refine ⟨fun t => hmove.demand t ▸ h.demand t, fun e => ?_, fun call pc' hpc' e he => ?_⟩
  · cases hmove.usage hsound e with
    | same husage _ => exact withinCapacity_of_eq (hcapacity e) husage (h.within e)
    | grant hpc _ husage _ =>
        have hfits := h.fits _ _ hpc e (List.mem_singleton_self e)
        exact withinCapacity_of_eq (hcapacity e) husage
          ((h.within e).allocateResources (h.demand _) hfits)
    | release _ _ husage _ =>
        exact withinCapacity_of_eq (hcapacity e) husage
          ((h.within e).deallocateResources (h.demand _))
    | draw _ _ _ husage _ =>
        exact withinCapacity_of_eq (hcapacity e) husage
          ((h.within e).simulateResourceFluctuation _)
  · have hfits : (s.world.node e).Fits (s.world.demand call.task) := by
      obtain ⟨pc, hpc, hold⟩ | ⟨-, hnew⟩ := hmove.candidates hpc' he
      · exact h.fits call pc hpc e hold
      · exact EdgeNode.fits_of_canAllocate hnew
    have hlower (hle : (s'.world.node e).currentUsage ≤ (s.world.node e).currentUsage) :
        (s'.world.node e).Fits (s'.world.demand call.task) := by
      unfold EdgeNode.Fits at hfits ⊢
      rw [hcapacity e, hmove.demand]
      exact (add_le_add_left hle _).trans hfits
    cases hmove.usage hsound e with
    | same husage _ => exact hlower husage.le
    | grant _ hassign _ _ =>
        rw [hassign] at hpc'
        cases hpc'
        cases he
    | release _ _ husage _ =>
        rw [husage] at hlower
        exact hlower (EdgeNode.deallocateResources_le (h.demand _) (h.within e).1)
    | draw _ _ hfluctuating _ _ =>
        rw [hfluctuating] at hpc'
        cases hpc'

theorem Bounded.initial {s : State} (h : Initial s)
    (hcapacity : ∀ e, 0 ≤ (s.world.node e).capacity.amounts)
    (hdemand : ∀ t, 0 ≤ s.world.demand t) : Bounded s := by
  refine ⟨hdemand, fun e => ?_, fun call pc hpc => ?_⟩
  · obtain ⟨capacity, hnode⟩ := h.node e
    have hnonneg := hcapacity e
    rw [hnode] at hnonneg ⊢
    exact ⟨le_rfl, hnonneg⟩
  · rw [h.producer] at hpc
    cases hpc

theorem bounded_of_run {guard : State → Label → Prop} {start s : State} (hstart : Initial start)
    (hcapacity : ∀ e, 0 ≤ (start.world.node e).capacity.amounts)
    (hdemand : ∀ t, 0 ≤ start.world.demand t) (hrun : machine.Run guard start s) :
    Sound s ∧ Bounded s := by
  have hinv : Sound start ∧ Bounded start :=
    ⟨Sound.initial hstart, Bounded.initial hstart hcapacity hdemand⟩
  have hkeep {s t : State} {label : Label} (hs : Sound s ∧ Bounded s) (_ : guard s label)
      (hstep : machine.step s label = some t) : Sound t ∧ Bounded t :=
    ⟨hs.1.move (step_move hstep), hs.2.move hs.1 (step_move hstep)⟩
  exact hrun.preserves hkeep hinv

/-- In every state of every run the recorded usage of every node is between
zero and the capacity. -/
theorem usage_withinCapacity {start s : State} (hstart : machine.initial start)
    (hcapacity : ∀ e, 0 ≤ (start.world.node e).capacity.amounts)
    (hdemand : ∀ t, 0 ≤ start.world.demand t) (hrun : machine.Run Machine.free start s)
    (e : EdgeId) :
    0 ≤ (s.world.node e).currentUsage ∧
      (s.world.node e).currentUsage ≤ (s.world.node e).capacity.amounts :=
  (bounded_of_run hstart hcapacity hdemand hrun).2.within e

theorem usage_withinCapacity_handedOver :
    let s := machine.final (bootSingle (fun _ => TaskProfile.camera) .fifo) handOver
    0 ≤ (s.world.node "E01").currentUsage ∧
      (s.world.node "E01").currentUsage ≤ (s.world.node "E01").capacity.amounts :=
  usage_withinCapacity (boot_initial ..) (bootSingle_capacity _ _)
    (bootSingle_demand (fun _ => by simp [TaskProfile.profiles]) _)
    (Machine.run_final (by decide +kernel)) "E01"

theorem places_initial {s : State} (h : Initial s) (e : EdgeId) : reservation.places s e = [] := by
  obtain ⟨capacity, hnode⟩ := h.node e
  simp [Account.places, h.producer, h.workers, hnode, reservation, ProducerPc.held,
    WorkerPc.reserved, WorkerPc.held, EdgeNode.queued]

theorem usage_initial {s : State} (h : Initial s) (e : EdgeId) :
    (s.world.node e).currentUsage = 0 := by
  obtain ⟨capacity, hnode⟩ := h.node e
  rw [hnode]

def mixedWorkload (t : TaskRef) : TaskRequirements :=
  if t = 0 then TaskProfile.camera else if t < 5 then TaskProfile.ultrasonic
  else TaskProfile.temperature

theorem mixedWorkload_mem (t : TaskRef) : mixedWorkload t ∈ TaskProfile.profiles := by
  unfold mixedWorkload
  split_ifs <;> simp [TaskProfile.profiles]

/-- The account of every node is the sum of the reservations that stand on it,
and no background load is being drawn. -/
structure Ledger (s : State) : Prop where
  exact : ∀ e, (s.world.node e).currentUsage = s.world.load (reservation.places s e)
  steady : ∀ todo, s.producer ≠ .fluctuating todo

def Steady (_ : State) (label : Label) : Prop := label ≠ .fluctuate

theorem Ledger.move {s s' : State} {label : Label} (h : Ledger s) (hsound : Sound s)
    (hdemand : ∀ t, 0 ≤ s.world.demand t) (hmove : Move s label s') (hsteady : Steady s label) :
    Ledger s' := by
  refine ⟨fun e => ?_, fun todo htodo => ?_⟩
  · rw [hmove.frame.load]
    have hold := h.exact e
    cases hmove.usage hsound e with
    | same husage hplaces => rw [husage, World.load_perm _ hplaces, hold]
    | grant _ _ husage hplaces =>
        rw [husage, World.load_perm _ hplaces, World.load_cons, hold, add_comm]
    | @release t input _ _ husage hplaces =>
        have hcovers : s.world.demand t ≤ (s.world.node e).currentUsage := by
          rw [hold, World.load_perm _ hplaces, World.load_cons]
          exact le_add_of_nonneg_right (World.load_nonneg hdemand _)
        rw [husage, EdgeNode.deallocateResources_exact hcovers, hold,
          World.load_perm _ hplaces, World.load_cons, add_sub_cancel_left]
    | draw _ hpc _ _ _ => exact absurd hpc (h.steady _)
  · cases hmove with
    | fluctuate _ => exact hsteady rfl
    | draw draws hpc => exact h.steady _ hpc
    | passOver draws hpc => exact h.steady _ hpc
    | produce _ _ _ => cases htodo
    | alloc _ _ _ => cases htodo
    | allocated _ _ _ => cases htodo
    | refused _ _ _ => cases htodo
    | schedule _ _ _ => cases htodo
    | scheduled _ _ => cases htodo
    | fluctuated _ _ => cases htodo
    | _ => exact h.steady todo htodo

theorem ledger_of_run {start s : State} (hstart : machine.initial start)
    (hdemand : ∀ t, 0 ≤ start.world.demand t) (hrun : machine.Run Steady start s) :
    Sound s ∧ (∀ t, 0 ≤ s.world.demand t) ∧ Ledger s := by
  have hkeep {s t : State} {label : Label}
      (hs : Sound s ∧ (∀ t, 0 ≤ s.world.demand t) ∧ Ledger s) (hsteady : Steady s label)
      (hstep : machine.step s label = some t) :
      Sound t ∧ (∀ u, 0 ≤ t.world.demand u) ∧ Ledger t := by
    obtain ⟨hsound, hdemand, hledger⟩ := hs
    have hmove := step_move hstep
    exact ⟨hsound.move hmove, fun u => hmove.demand u ▸ hdemand u,
      hledger.move hsound hdemand hmove hsteady⟩
  have hledger : Ledger start := by
    refine ⟨fun e => ?_, fun todo htodo => ?_⟩
    · rw [places_initial hstart e, usage_initial hstart e]
      rfl
    · rw [hstart.producer] at htodo
      cases htodo
  exact hrun.preserves hkeep ⟨Sound.initial hstart, hdemand, hledger⟩

end EdgeAllocator.Pipeline
