import EdgeAllocator.Recording

/-! Whether the rows name the strategy really used. The allocator's strategy is a
datum behind `configuration_mutex_`, which the processing thread holds from the
allocation to the row. -/
namespace EdgeAllocator.Recording

open Foundation Scheduler Executor Allocator Allocation Pipeline Live

/-- All that the task at hand consulted is this strategy, and so is what was read
for its row. -/
def State.Follows (s : State) (strategy : AllocationStrategy) : Prop :=
  (∀ t, s.atHand = some t → ∀ other, (t, other) ∈ s.consulted → other = strategy) ∧
    ∀ t result read, s.record = .save t result read → read = strategy

def State.promise (s : State) : Option (AllocationStrategy → Prop) :=
  match s.live.processing with
  | .choosing _ pc => pc.promise.map fun _ _ => True
  | .allocating _ => some s.Follows
  | .unlockConfiguration _ => some fun _ => True
  | _ => none

def State.monitor (s : State) : Monitor Thread AllocationStrategy where
  owner := s.live.configurationMutex
  data := s.allocator.strategy
  promise
    | .producer => s.promise
    | .client k => (s.live.clients k).promise.map fun _ _ => True
    | .worker _ | .monitor _ => none

theorem chooseStep_section {me : Thread} {s t : Live.State} {pc pc' : ChoosePc}
    (h : chooseStep me s pc = some (t, pc')) :
    Monitor.Step (fun _ => True) me s.configurationMutex s.settings.allocation
      (pc.promise.map fun _ _ => True) t.configurationMutex t.settings.allocation
      (pc'.promise.map fun _ _ => True) := by
  by_cases hlock : ∃ averageCpu, pc = .lock averageCpu
  · obtain ⟨averageCpu, rfl⟩ := hlock
    obtain ⟨hfree, rfl, rfl⟩ := lock_pair h
    rw [hfree]
    exact .enter _ id
  · have hmonitor := chooseStep_monitor h fun averageCpu hpc => absurd ⟨averageCpu, hpc⟩ hlock
    exact hmonitor.forget Settings.allocation

theorem clientStep_section {me : Thread} {s t : Live.State} {pc pc' : ClientPc}
    (h : clientStep me s pc = some (t, pc')) :
    Monitor.Step (fun _ => True) me s.configurationMutex s.settings.allocation
      (pc.promise.map fun _ _ => True) t.configurationMutex t.settings.allocation
      (pc'.promise.map fun _ _ => True) := by
  by_cases hlock : ∃ averageCpu, pc = .autoChoose (.lock averageCpu)
  · obtain ⟨averageCpu, rfl⟩ := hlock
    obtain ⟨hpc, -, -⟩ | ⟨next, hstep, rfl⟩ := autoChoose_some h
    · cases hpc
    · exact chooseStep_section hstep
  · have hmonitor := clientStep_monitor h fun averageCpu hpc => absurd ⟨averageCpu, hpc⟩ hlock
    exact hmonitor.forget Settings.allocation

theorem processMove_section {input : ProcessInput} {s t : Live.State}
    (h : ProcessMove input s t) :
    Monitor.Step (fun _ => True) .producer s.configurationMutex s.settings.allocation
      (s.processing.promise.map fun _ _ => True) t.configurationMutex t.settings.allocation
      (t.processing.promise.map fun _ _ => True) := by
  by_cases hlock : ∃ i averageCpu, s.processing = .choosing i (.lock averageCpu)
  · obtain ⟨i, averageCpu, hlock⟩ := hlock
    cases h with
    | choose hpc hstep =>
        have hsection := chooseStep_section hstep
        rw [hpc]
        exact hsection
    | _ => simp_all
  · have hmonitor := processMove_monitor h fun averageCpu hchoosing => by
      simp only [choosing] at hchoosing
      split at hchoosing
      · exact absurd ⟨_, _, ‹_›⟩ hlock
      · cases hchoosing
    exact hmonitor.forget Settings.allocation

theorem monitor_congr {s s' : State}
    (howner : s'.live.configurationMutex = s.live.configurationMutex)
    (hstrategy : s'.allocator.strategy = s.allocator.strategy) (hpromise : s'.promise = s.promise)
    (hclients : ∀ k, (s'.live.clients k).promise.map (fun _ _ => True) =
      (s.live.clients k).promise.map fun _ (_ : AllocationStrategy) => True) :
    s'.monitor = s.monitor := by
  simp only [State.monitor, howner, hstrategy, Monitor.mk.injEq, true_and]
  funext thread
  cases thread with
  | producer => exact hpromise
  | client k => exact hclients k
  | _ => rfl

theorem promise_aside {s : State} {live : Live.State} (haside : Aside s.live.pipe live.pipe)
    (hprocessing : live.processing = s.live.processing ∨
      resting s.live.processing = true ∧ resting live.processing = true) :
    ({ s with live := live } : State).promise = s.promise := by
  obtain hsame | ⟨hrest, hrest'⟩ := hprocessing
  · have hfollows : ({ s with live := live } : State).Follows = s.Follows := by
      funext strategy
      simp only [State.Follows, State.atHand, haside.producer]
    simp only [State.promise, hsame, hfollows]
  · have hnone (s : State) (h : resting s.live.processing = true) : s.promise = none := by
      unfold State.promise
      generalize s.live.processing = processing at h
      cases processing <;> first | rfl | cases h
    rw [hnone s hrest, hnone { s with live := live } hrest']

theorem protects_other {s : State} {live : Live.State} {label : Live.Label}
    (h : s.monitor.Protects fun _ => True) (hlabel : ∀ input, label ≠ .process input)
    (hmove : Live.Move s.live label live) :
    ({ s with live := live } : State).monitor.Protects fun _ => True := by
  obtain ⟨haside, hprocessing⟩ := other_aside hlabel hmove
  have hpromise := promise_aside haside hprocessing
  have hkeep (hsame : ({ s with live := live } : State).monitor = s.monitor) :
      ({ s with live := live } : State).monitor.Protects fun _ => True := by
    rw [hsame]
    exact h
  cases hmove with
  | enter _ _ _ _ _ => exact hkeep (monitor_congr rfl rfl hpromise fun _ => rfl)
  | main hmain =>
      have hsame := mainMove_monitor hmain
      have hclients (k : Nat) := congrFun (congrArg Monitor.promise hsame) (.client k)
      exact hkeep (monitor_congr (congrArg Monitor.owner hsame)
        (congrArg (fun monitor => monitor.data.allocation) hsame) hpromise
        fun k => congrArg (Option.map fun _ _ => True) (hclients k))
  | process input _ => exact absurd rfl (hlabel input)
  | work e input hpipe =>
      have hsettings := settings_drive hpipe (by rintro _ ⟨⟩) (by rintro _ ⟨⟩)
      exact hkeep (monitor_congr rfl (congrArg Settings.allocation hsettings) hpromise
        fun _ => rfl)
  | @apply k _ _ _ entry hidle hentry =>
      have hnone : entry.promise = none := by obtain rfl | rfl := hentry <;> rfl
      exact hkeep (monitor_congr rfl rfl hpromise fun k' =>
        congrArg (Option.map fun _ _ => True) (promise_update hidle hnone k'))
  | @report k hidle =>
      exact hkeep (monitor_congr rfl rfl hpromise fun k' =>
        congrArg (Option.map fun _ _ => True) (promise_update hidle rfl k'))
  | @client k t pc hclient =>
      have hsection := clientStep_section hclient
      have hclients := (clientStep_threads hclient).clients
      refine Monitor.Protects.step h ?_ fun thread (hne : thread ≠ .client k) => ?_
      · show Monitor.Step _ _ _ _ _ t.configurationMutex t.settings.allocation
          ((Function.update t.clients k pc k).promise.map fun _ _ => True)
        rw [Function.update_self]
        exact hsection
      · cases thread with
        | producer => exact hpromise
        | client k' =>
            have hk : k' ≠ k := fun heq => hne (by rw [heq])
            simp only [State.monitor, Function.update_of_ne hk, hclients]
        | _ => rfl

theorem follows_handle {s s' : State} (h : s.Follows s.allocator.strategy)
    (hmove : Handling s s') :
    s'.allocator.strategy = s.allocator.strategy ∧ s'.Follows s.allocator.strategy ∧
      s'.live.processing = s.live.processing ∧ s'.live.clients = s.live.clients ∧
      s'.live.configurationMutex = s.live.configurationMutex := by
  obtain ⟨hconsulted, hread⟩ := h
  cases hmove with
  | @select call pc pc' w hrecord hproducer hstep =>
      refine ⟨(allocStep_strategies hstep).1, ⟨fun t ht other hmem => ?_, fun t result read hsave =>
        hread t result read hsave⟩, rfl, rfl, rfl⟩
      rcases List.mem_append.mp hmem with hold | hnew
      · refine hconsulted t ?_ other hold
        simpa only [State.atHand, hrecord, hproducer] using ht
      · split_ifs at hnew
        · cases List.mem_singleton.mp hnew
          rfl
        · cases hnew
  | allocated hrecord hproducer _ =>
      refine ⟨rfl, ⟨fun t ht => hconsulted t ?_, fun t result read hsave => (by cases hsave)⟩, rfl,
        rfl, rfl⟩
      simpa only [State.atHand, hrecord, hproducer] using ht
  | refused hrecord hproducer =>
      refine ⟨rfl, ⟨fun t ht => hconsulted t ?_, fun t result read hsave => (by cases hsave)⟩, rfl,
        rfl, rfl⟩
      simpa only [State.atHand, hrecord, hproducer] using ht
  | schedule hrecord _ hstep =>
      refine ⟨congrArg ResourceAllocator.strategy (scheduleStep_strategies hstep).1,
        ⟨fun t ht => hconsulted t ?_, fun t result read hsave => hread t result read hsave⟩, rfl,
        rfl, rfl⟩
      simpa only [State.atHand, hrecord] using ht
  | scheduled hrecord _ =>
      refine ⟨rfl, ⟨fun t ht => hconsulted t ?_, fun t result read hsave => (by cases hsave)⟩, rfl,
        rfl, rfl⟩
      simpa only [State.atHand, hrecord] using ht

theorem protects_step {s s' : State} (h : s.monitor.Protects fun _ => True)
    (hclients : s'.live.clients = s.live.clients)
    (hstep : Monitor.Step (fun _ => True) .producer s.live.configurationMutex s.allocator.strategy
      s.promise s'.live.configurationMutex s'.allocator.strategy s'.promise) :
    s'.monitor.Protects fun _ => True := by
  refine Monitor.Protects.step h hstep fun thread hne => ?_
  cases thread with
  | producer => exact absurd rfl hne
  | client k => simp only [State.monitor, hclients]
  | _ => rfl

theorem promise_outside {s : State} (h : ∀ i, s.live.processing ≠ .allocating i) :
    s.promise = s.live.processing.promise.map fun _ _ => True := by
  unfold State.promise
  generalize s.live.processing = processing at h
  cases processing with
  | allocating i => exact absurd rfl (h i)
  | _ => rfl

theorem promise_allocating {s : State} {i : Nat} (h : s.live.processing = .allocating i) :
    s.promise = some s.Follows := by
  simp only [State.promise, h]

theorem protects_within {s s' : State} {i : Nat} (h : s.monitor.Protects fun _ => True)
    (hprocessing : s.live.processing = .allocating i) (hprocessing' : s'.live.processing = .allocating i)
    (hclients : s'.live.clients = s.live.clients)
    (howner : s'.live.configurationMutex = s.live.configurationMutex)
    (hkept : s.Follows s.allocator.strategy → s'.Follows s'.allocator.strategy) :
    s'.monitor.Protects fun _ => True := by
  apply protects_step h hclients
  rw [promise_allocating hprocessing, promise_allocating hprocessing', howner]
  exact .within _ hkept

theorem protects_process {s : State} (h : s.monitor.Protects fun _ => True) (htracked : Tracked s)
    {input : ProcessInput} {live : Live.State}
    (hrecord : s.record = .idle ∨ ∃ t result, s.record = .scheduling t result)
    (hmove : ProcessMove input s.live live) :
    ({ s with
      live := live
      record := s.advance
      consulted := s.consulted ++ s.consulting
      scheduled := s.scheduled ++ s.enqueuing } : State).monitor.Protects fun _ => True := by
  refine protects_step h (processMove_clients hmove) ?_
  have hsection := processMove_section hmove
  have hkeep (hpc : ∀ i, s.live.processing ≠ .allocating i)
      (hpc' : ∀ i, live.processing ≠ .allocating i) :
      Monitor.Step (fun _ => True) .producer s.live.configurationMutex s.allocator.strategy
        s.promise live.configurationMutex live.pipe.world.allocator.strategy ({ s with
          live := live
          record := s.advance
          consulted := s.consulted ++ s.consulting
          scheduled := s.scheduled ++ s.enqueuing } : State).promise := by
    rw [promise_outside hpc, promise_outside hpc']
    exact hsection
  cases hmove with
  | @lock i hpc hfree =>
      obtain ⟨call, hproducer⟩ := htracked.waiting i (Or.inr hpc)
      have hne (i : Nat) : s.live.processing ≠ .allocating i := by
        rw [hpc]
        rintro ⟨⟩
      have hidle := htracked.free hne
      obtain ⟨hadvance, hconsulting, henqueuing⟩ := next_elsewhere hne
      rw [hadvance, hconsulting, henqueuing, List.append_nil, List.append_nil]
      simp only [State.promise, hpc, hfree]
      refine .enter _ fun _ => ⟨fun t ht other hmem => ?_, fun t result read hsave => ?_⟩
      · simp only [State.atHand, hidle, hproducer] at ht
        cases ht
        exact absurd hmem (htracked.unread call hproducer other)
      · cases hidle.symm.trans hsave
  | allocate hpc hpipe =>
      obtain ⟨-, hfollows⟩ := h.inside .producer s.Follows (promise_allocating hpc)
      obtain ⟨hstrategy, hfollows', -⟩ := follows_handle hfollows
        (handling_of_allocate hpc htracked.stage hrecord hpipe)
      rw [promise_allocating hpc]
      simp only [State.promise, hpc]
      exact .within _ fun _ => (congrArg (State.Follows _) hstrategy).mpr hfollows'
  | allocated hpc _ =>
      rw [promise_allocating hpc]
      exact .within _ fun _ => trivial
  | next hpc hold hnew =>
      refine hkeep ?_ ?_
      · obtain ⟨i, rfl | rfl⟩ := hold <;> rw [hpc] <;> rintro _ ⟨⟩
      · obtain ⟨i, rfl | rfl⟩ | rfl | ⟨i, rfl⟩ := hnew <;> rintro _ ⟨⟩
  | _ => exact hkeep (by simp_all) (by rintro _ ⟨⟩)

theorem protects_move {s s' : State} {label : Live.Label}
    (h : s.monitor.Protects fun _ => True) (htracked : Tracked s) (hmove : Move s label s') :
    s'.monitor.Protects fun _ => True := by
  have hsaved {row : AllocationRow} (hrecord : s.record ≠ .idle)
      (hidle : s.live.pipe.producer = .idle) : (s.save row).monitor.Protects fun _ => True := by
    obtain ⟨i, hprocessing⟩ := htracked.inside hrecord
    refine protects_within h hprocessing hprocessing rfl rfl fun _ =>
      ⟨fun t ht => ?_, fun t result read hsave => (by cases hsave)⟩
    simp [State.atHand, State.save, hidle] at ht
  cases hmove with
  | other hlabel hlive => exact protects_other h hlabel hlive
  | process input hrecord hlive => exact protects_process h htracked hrecord hlive
  | read input hrecord =>
      obtain ⟨i, hprocessing⟩ := htracked.inside (by rw [hrecord]; rintro ⟨⟩)
      refine protects_within h hprocessing hprocessing rfl rfl fun hfollows => ?_
      obtain ⟨hconsulted, -⟩ := hfollows
      refine ⟨fun t ht => hconsulted t ?_, fun t result read hsave => ?_⟩
      · simpa only [State.atHand, hrecord] using ht
      · cases hsave
        rfl
  | write input hrecord =>
      exact hsaved (by rw [hrecord]; rintro ⟨⟩) (idle_of_stage htracked.stage
        (by rw [hrecord]; rintro ⟨⟩) (by rw [hrecord]; rintro _ _ ⟨⟩))
  | writeFailure input hrecord =>
      exact hsaved (by rw [hrecord]; rintro ⟨⟩) (idle_of_stage htracked.stage
        (by rw [hrecord]; rintro ⟨⟩) (by rw [hrecord]; rintro _ _ ⟨⟩))

/-- The row names the strategy of every step of the task's selection, and the
edge that the task was reserved for on and scheduled to. -/
def State.Truthful (s : State) (row : AllocationRow) : Prop :=
  ∃ e strategy, row.edgeId = some e ∧ row.strategy = some (allocationToString strategy) ∧
    (row.task, e) ∈ s.live.pipe.log.granted ∧ edgesOf row.task s.scheduled = [e] ∧
    (row.task, strategy) ∈ s.consulted ∧
    ∀ other, (row.task, other) ∈ s.consulted → other = strategy

/-- The first task that the rows so far are not about. -/
def State.bound (s : State) : TaskRef := s.atHand.getD s.live.pipe.world.taskCounter

def Booked (s : State) : Prop :=
  ∀ row ∈ s.allocations, row.success = true → row.task < s.bound ∧ s.Truthful row

theorem Booked.of_step {s s' : State} (h : Booked s) (hrows : s'.allocations = s.allocations)
    (hgranted : ∀ event ∈ s.live.pipe.log.granted, event ∈ s'.live.pipe.log.granted)
    {consulted : List (TaskRef × AllocationStrategy)} {scheduled : List (TaskRef × EdgeId)}
    (hconsulted : s'.consulted = s.consulted ++ consulted)
    (hscheduled : s'.scheduled = s.scheduled ++ scheduled)
    (hnewConsulted : ∀ event ∈ consulted, s.bound ≤ event.1)
    (hnewScheduled : ∀ event ∈ scheduled, s.bound ≤ event.1) (hbound : s.bound ≤ s'.bound) :
    Booked s' := by
  intro row hrow hsuccess
  rw [hrows] at hrow
  obtain ⟨hlt, e, strategy, hedge, hname, hgrant, hedges, hmem, hall⟩ := h row hrow hsuccess
  refine ⟨hlt.trans_le hbound, e, strategy, hedge, hname, hgranted _ hgrant, ?_, ?_, ?_⟩
  · have hnone : edgesOf row.task scheduled = [] := by
      simp only [edgesOf, List.map_eq_nil_iff, List.filter_eq_nil_iff, decide_eq_true_eq]
      intro event hevent heq
      exact absurd (hnewScheduled event hevent) (not_le.mpr (heq ▸ hlt))
    have happend : edgesOf row.task (s.scheduled ++ scheduled) =
        edgesOf row.task s.scheduled ++ edgesOf row.task scheduled := by
      simp [edgesOf]
    rw [hscheduled, happend, hedges, hnone, List.append_nil]
  · rw [hconsulted]
    exact List.mem_append_left _ hmem
  · intro other hother
    rw [hconsulted] at hother
    rcases List.mem_append.mp hother with hold | hnew
    · exact hall other hold
    · exact absurd (hnewConsulted _ hnew) (not_le.mpr hlt)

theorem bound_of_atHand {s : State} {t : TaskRef} (h : s.atHand = some t) : s.bound = t := by
  rw [State.bound, h, Option.getD_some]

theorem Booked.of_same {s s' : State} (h : Booked s) {t : TaskRef}
    (hrows : s'.allocations = s.allocations)
    (hgranted : s'.live.pipe.log.granted = s.live.pipe.log.granted)
    (hconsulted : s'.consulted = s.consulted) (hscheduled : s'.scheduled = s.scheduled)
    (hatHand : s.atHand = some t) (hatHand' : s'.atHand = some t) : Booked s' := by
  refine h.of_step hrows (fun _ hevent => hgranted ▸ hevent)
    (hconsulted.trans (List.append_nil _).symm) (hscheduled.trans (List.append_nil _).symm)
    (fun _ hevent => (by cases hevent)) (fun _ hevent => (by cases hevent)) ?_
  rw [bound_of_atHand hatHand]
  exact (bound_of_atHand hatHand').ge

theorem Booked.handle {s s' : State} (h : Booked s) (hmove : Handling s s') : Booked s' := by
  cases hmove with
  | @select call pc pc' w hrecord hproducer hstep =>
      have hatHand : s.atHand = some call.task := by simp only [State.atHand, hrecord, hproducer]
      have hbound := bound_of_atHand hatHand
      refine h.of_step rfl (fun event hevent => List.mem_append_left _ hevent) rfl
        (List.append_nil _).symm (forall_mem_ite hbound.le) (fun _ hevent => (by cases hevent)) ?_
      rw [hbound]
      exact (bound_of_atHand (by simp only [State.atHand, hrecord])).ge
  | @allocated call result hrecord hproducer _ =>
      have hatHand : s.atHand = some call.task := by simp only [State.atHand, hrecord, hproducer]
      exact h.of_same rfl rfl rfl rfl hatHand rfl
  | @refused call result hrecord hproducer =>
      have hatHand : s.atHand = some call.task := by simp only [State.atHand, hrecord, hproducer]
      exact h.of_same rfl rfl rfl rfl hatHand rfl
  | @schedule t result pc pc' w hrecord hproducer hstep =>
      have hatHand : s.atHand = some t := by simp only [State.atHand, hrecord]
      have hbound := bound_of_atHand hatHand
      refine h.of_step rfl (fun _ hevent => hevent) (List.append_nil _).symm rfl
        (fun _ hevent => (by cases hevent)) (forall_mem_ite hbound.le) ?_
      rw [hbound]
      exact (bound_of_atHand (by simp only [State.atHand, hrecord])).ge
  | @scheduled t result hrecord hproducer =>
      have hatHand : s.atHand = some t := by simp only [State.atHand, hrecord]
      exact h.of_same rfl rfl rfl rfl hatHand rfl

theorem Booked.aside {s : State} (h : Booked s) {live : Live.State}
    (haside : Aside s.live.pipe live.pipe) : Booked { s with live := live } := by
  refine h.of_step rfl (fun event hevent => ?_) (List.append_nil _).symm
    (List.append_nil _).symm (fun _ hevent => (by cases hevent))
    (fun _ hevent => (by cases hevent)) ?_
  · rw [haside.granted]
    exact hevent
  · simp only [State.bound, State.atHand, haside.producer, haside.taskCounter]
    exact le_rfl

theorem Booked.save {s : State} (h : Booked s) (htracked : Tracked s) {row : AllocationRow}
    (hidle : s.live.pipe.producer = .idle) (hatHand : s.atHand = some row.task)
    (hrow : row.success = true → s.Truthful row) : Booked (s.save row) := by
  have hlt := htracked.atHand _ hatHand
  have hbound := bound_of_atHand hatHand
  have hbound' : (s.save row).bound = s.live.pipe.world.taskCounter := by
    simp [State.bound, State.atHand, State.save, hidle]
  intro row' hrow' hsuccess
  rw [hbound']
  rcases List.mem_append.mp hrow' with hold | hnew
  · obtain ⟨hbefore, htruthful⟩ := h row' hold hsuccess
    rw [hbound] at hbefore
    exact ⟨hbefore.trans hlt, htruthful⟩
  · rw [List.mem_singleton.mp hnew] at hsuccess ⊢
    exact ⟨hlt, hrow hsuccess⟩

theorem Booked.round {s s' : State} (h : Booked s) (htracked : Tracked s)
    (hprotects : s.monitor.Protects fun _ => True) (hround : Round s s') : Booked s' := by
  cases hround with
  | aside haside _ _ _ => exact h.aside haside
  | create hidle hrecord =>
      refine h.of_step rfl (fun _ hevent => hevent) (List.append_nil _).symm
        (List.append_nil _).symm (fun _ hevent => (by cases hevent))
        (fun _ hevent => (by cases hevent)) ?_
      simp [State.bound, State.atHand, hrecord, hidle]
  | handle _ hhandling => exact h.handle hhandling
  | read hrecord _ =>
      refine h.of_step rfl (fun _ hevent => hevent) (List.append_nil _).symm
        (List.append_nil _).symm (fun _ hevent => (by cases hevent))
        (fun _ hevent => (by cases hevent)) ?_
      simp [State.bound, State.atHand, hrecord]
  | @write t result read hrecord hidle =>
      have hatHand : s.atHand = some t := by simp only [State.atHand, hrecord]
      refine h.save htracked hidle hatHand fun _ => ?_
      obtain ⟨i, hprocessing⟩ := htracked.inside (by rw [hrecord]; rintro ⟨⟩)
      obtain ⟨-, hconsulted, hread⟩ :=
        hprotects.inside .producer s.Follows (promise_allocating hprocessing)
      obtain ⟨hgranted, hedges, strategy, hmem⟩ :=
        placed_of_stage htracked.stage (Or.inr ⟨read, hrecord⟩)
      have hstrategy : strategy = read :=
        (hconsulted t hatHand strategy hmem).trans (hread t result read hrecord).symm
      rw [hstrategy] at hmem
      refine ⟨result.edgeId, read, rfl, rfl, hgranted, hedges, hmem, fun other hother => ?_⟩
      exact (hconsulted t hatHand other hother).trans (hread t result read hrecord).symm
  | @writeFailure t result hrecord hidle =>
      exact h.save htracked hidle (by simp only [State.atHand, hrecord]; rfl)
        fun hsuccess => (by cases hsuccess)

/-- The sound pipeline, the round at hand, the mutex and the rows together. -/
structure Honest (s : State) : Prop where
  sound : Sound s.live.pipe
  tracked : Tracked s
  protects : s.monitor.Protects fun _ => True
  booked : Booked s

theorem Honest.initial {s : State} (h : Initial s) : Honest s where
  sound := Sound.initial h.live.pipe
  tracked := by
    have hproducer := h.live.pipe.producer
    refine ⟨fun _ => hproducer, fun i hi => ?_, fun _ => h.record, fun t ht => ?_,
      fun call hcall => ?_, ?_, ?_, ?_⟩
    · rw [h.live.processing] at hi
      obtain hi | hi := hi <;> cases hi
    · simp [State.atHand, h.record, hproducer] at ht
    · cases hproducer.symm.trans hcall
    · rw [h.consulted]
      exact fun _ hevent => by cases hevent
    · rw [h.scheduled]
      exact fun _ hevent => by cases hevent
    · simp [State.Stage, h.record, hproducer]
  protects := by
    refine ⟨fun thread p hp => ?_, fun _ => trivial⟩
    cases thread with
    | producer => simp [State.monitor, State.promise, h.live.processing] at hp
    | client k => simp [State.monitor, h.live.clients k, ClientPc.promise] at hp
    | _ => cases hp
  booked := by
    intro row hrow
    rw [h.allocations] at hrow
    cases hrow

theorem Honest.step {s s' : State} {label : Live.Label} (h : Honest s)
    (hstep : step s label = some s') : Honest s' := by
  have hmove := step_move hstep
  have hround := round_of_move h.tracked hmove
  refine ⟨?_, h.tracked.round h.sound hround, protects_move h.protects h.tracked hmove,
    h.booked.round h.tracked h.protects hround⟩
  have hdriven {label : Live.Label} {live : Live.State} (hlive : Live.Move s.live label live) :
      Sound live.pipe :=
    hlive.run.preserves (fun hsound _ hpipe => hsound.move (Pipeline.step_move hpipe)) h.sound
  cases hmove with
  | other _ hlive => exact hdriven hlive
  | process input _ hlive => exact hdriven (.process input hlive)
  | _ => exact h.sound

/-- Every row of a success names the strategy that every step of that task's
selection was taken under, and the one edge on which the task's resources were
reserved and on whose queue it was put. -/
theorem strategy_recorded {s : State} (hs : machine.Reachable Machine.free s)
    {row : AllocationRow} (hrow : row ∈ s.allocations) (hsuccess : row.success = true) :
    ∃ e strategy, row.edgeId = some e ∧ row.strategy = some (allocationToString strategy) ∧
      (row.task, strategy) ∈ s.consulted ∧
      (∀ other, (row.task, other) ∈ s.consulted → other = strategy) ∧
      edgesOf row.task s.live.pipe.log.granted = [e] ∧ edgesOf row.task s.scheduled = [e] := by
  have hhonest : Honest s := hs.invariant Honest.initial fun h _ hstep => h.step hstep
  obtain ⟨-, e, strategy, hedge, hname, hgranted, hedges, hmem, hall⟩ :=
    hhonest.booked row hrow hsuccess
  refine ⟨e, strategy, hedge, hname, hmem, hall, ?_, hedges⟩
  have hcount := count_granted hhonest.sound.fresh hgranted
  have hsublist : (edgesOf row.task s.live.pipe.log.granted).Sublist [e] :=
    sublist_singleton fun e' => by rw [count_edgesOf, hcount]
  refine (List.sublist_singleton.mp hsublist).resolve_left fun hnil => ?_
  have hone := hcount e
  rw [← count_edgesOf, hnil, if_pos rfl] at hone
  cases hone

def requestDuringAllocation : List Live.Label :=
  startUp ++ processSteps 12 ++ [.apply 0 false "round_robin" "fifo"] ++ processSteps 15 ++
    List.replicate 3 (.client 0)

theorem requested_initial :
    machine.initial { live := singleRuntime false .leastLoad .fifo } where
  live := singleRuntime_manual _ _
  record := rfl
  allocations := rfl
  consulted := rfl
  scheduled := rfl

theorem strategy_recorded_request :
    let s := machine.final { live := singleRuntime false .leastLoad .fifo } requestDuringAllocation
    let row := AllocationRow.allocated 0 "E01" 0 "least_load"
    ∃ e strategy, row.edgeId = some e ∧ row.strategy = some (allocationToString strategy) ∧
      (row.task, strategy) ∈ s.consulted ∧
      (∀ other, (row.task, other) ∈ s.consulted → other = strategy) ∧
      edgesOf row.task s.live.pipe.log.granted = [e] ∧ edgesOf row.task s.scheduled = [e] :=
  strategy_recorded (Machine.reachable_final requested_initial (by decide +kernel))
    (by decide +kernel) rfl

end EdgeAllocator.Recording
