import EdgeAllocator.Capacity
import EdgeAllocator.Doubles

/-! The accounts of the nodes in the arithmetic of `double`, while the producer allocates and
fluctuates and the workers release: when rounding and background load leave the reservations
that stand within the capacities. -/
namespace EdgeAllocator.Doubles.Commitment

open Foundation
open Pipeline (tasksOn reservation Sound)

/-- `threads` has the places of the threads, the queues and the log of the reservations. Its
own accounts, which are exact, are not read. -/
structure State where
  threads : Pipeline.State
  capacity : EdgeId → Amounts
  demand : TaskRef → Amounts
  usage : EdgeId → Amounts := fun _ _ => 0

/-- The step of a thread, with the draws of a fluctuation and with the strategy's answer
whether the candidate at hand is better than the best one so far, which is left open. -/
structure Label where
  threads : Pipeline.Label
  draws : EdgeNode.Draws := {}
  improves : Bool := false

namespace State

def node (s : State) (e : EdgeId) : EdgeNode where
  capacity := ⟨s.capacity e, (s.threads.world.node e).capacity.latencyMs⟩
  currentUsage := s.usage e
  taskQueue := (s.threads.world.node e).taskQueue
  isAvailable := (s.threads.world.node e).isAvailable

def goTo (call : Allocation.AllocCall) (pc : Allocation.AllocPc) (s : State) : State :=
  { s with threads := { s.threads with producer := .allocating call pc } }

/-- The usage that a step writes, and of which edge. -/
def written (s : State) (label : Label) : Option (EdgeId × Amounts) :=
  match label.threads, s.threads.producer with
  | .producer _, .allocating call (.reserve _ e _) =>
      some (e, ((s.node e).allocateResources (s.demand call.task)).currentUsage)
  | .producer _, .fluctuating (e :: _) =>
      if (s.node e).isAvailable then
        some (e, ((s.node e).simulateResourceFluctuation label.draws).currentUsage)
      else none
  | .work e _, _ =>
      (s.threads.workers e).releases.head?.map fun t =>
        (e, ((s.node e).deallocateResources (s.demand t)).currentUsage)
  | _, _ => none

def accounts (s : State) (label : Label) : EdgeId → Amounts :=
  match s.written label with
  | some (e, usage) => Function.update s.usage e usage
  | none => s.usage

end State

def step (s : State) (label : Label) : Option State :=
  match label.threads, s.threads.producer with
  | .producer _, .allocating call (.examine n e todo viable) =>
      some (s.goTo call (.scan n todo
        (if (s.node e).canAllocate (s.demand call.task) then viable ++ [e] else viable)))
  | .producer _, .allocating call (.compare n (e :: todo) _ best key) =>
      some (s.goTo call (.compare n todo [] (if label.improves then some e else best) key))
  | _, _ =>
      (Pipeline.step s.threads label.threads).map fun threads =>
        { s with threads := threads, usage := s.accounts label }

/-- New nodes, and capacities and requirements that are not negative and not NaN. -/
structure Initial (s : State) : Prop where
  threads : Pipeline.machine.initial s.threads
  capacity : ∀ e r, 0 ≤ s.capacity e r
  demand : ∀ t r, 0 ≤ s.demand t r
  usage : s.usage = fun _ _ => 0

def machine : Machine State Label := ⟨Initial, step⟩

def State.reserved (s : State) (tasks : List TaskRef) (r : Resource) : Extended :=
  (tasks.map fun t => (s.demand t r).value).sum

def grants : Pipeline.ProducerPc → List (TaskRef × EdgeId)
  | .allocating call pc => pc.grants.map fun e => (call.task, e)
  | _ => []

/-- What a step grants on an edge and releases there. -/
def granted (s : Pipeline.State) (label : Pipeline.Label) (e : EdgeId) : List TaskRef :=
  match label with
  | .producer _ => tasksOn e (grants s.producer)
  | _ => []

def released (s : Pipeline.State) (label : Pipeline.Label) (e : EdgeId) : List TaskRef :=
  match label with
  | .work e' _ => tasksOn e ((s.workers e').releases.map fun t => (t, e'))
  | _ => []

/-- Where the step writes a usage it leaves in it all that is reserved there after the step. -/
def Covers (s : State) (label : Label) : Prop :=
  ∀ x ∈ s.written label, ∀ r,
    s.reserved (granted s.threads label.threads x.1 ++
      (s.threads.outstanding x.1).diff (released s.threads label.threads x.1)) r ≤ (x.2 r).value

/-- The node that the step asks for `canAllocate`, and the task it asks for. -/
def examined (s : Pipeline.State) (label : Pipeline.Label) : Option (TaskRef × EdgeId) :=
  match label, s.producer with
  | .producer _, .allocating call (.examine _ e _ _) => some (call.task, e)
  | _, _ => none

/-- Where the node says yes it has enough left without rounding too. -/
def Suffices (s : State) (label : Label) : Prop :=
  ∀ x ∈ examined s.threads label.threads,
    (s.node x.2).canAllocate (s.demand x.1) = true →
      ∀ r, (s.demand x.1 r).value ≤ (s.capacity x.2 r).value - (s.usage x.2 r).value

/-- The step lets neither rounding nor background load free what is reserved. -/
def Keeps (s : State) (label : Label) : Prop := Covers s label ∧ Suffices s label

instance (s : State) (label : Label) : Decidable (Covers s label) :=
  inferInstanceAs (Decidable (∀ x ∈ s.written label, ∀ _, _))

instance (s : State) (label : Label) : Decidable (Suffices s label) :=
  inferInstanceAs (Decidable (∀ x ∈ examined s.threads label.threads, _ → ∀ _, _))

instance (s : State) (label : Label) : Decidable (Keeps s label) :=
  inferInstanceAs (Decidable (_ ∧ _))

section Threads

variable {s s' : Pipeline.State} {label : Pipeline.Label}

theorem granted_of_grants (h : grants s.producer = []) (draws : EdgeAllocator.EdgeNode.Draws)
    (e : EdgeId) : granted s (.producer draws) e = [] := by
  show tasksOn e (grants s.producer) = []
  rw [h]
  rfl

theorem log_of_move (h : Pipeline.Move s label s') (e : EdgeId) :
    tasksOn e s'.log.granted = tasksOn e s.log.granted ++ granted s label e ∧
      tasksOn e s'.log.released = tasksOn e s.log.released ++ released s label e := by
  have hkept (draws : EdgeAllocator.EdgeNode.Draws) (hgrants : grants s.producer = [])
      (hlog : s'.log = s.log) :
      tasksOn e s'.log.granted = tasksOn e s.log.granted ++ granted s (.producer draws) e ∧
        tasksOn e s'.log.released = tasksOn e s.log.released ++ released s (.producer draws) e := by
    rw [granted_of_grants hgrants, hlog]
    exact ⟨(List.append_nil _).symm, (List.append_nil _).symm⟩
  cases h with
  | alloc draws hpc hstep =>
      refine ⟨(Pipeline.tasksOn_append ..).trans ?_, (List.append_nil _).symm⟩
      rw [granted, hpc]
      rfl
  | work e' input hstep => exact ⟨(List.append_nil _).symm, Pipeline.tasksOn_append ..⟩
  | allocated draws hpc _ => exact hkept draws (by rw [hpc]; rfl) rfl
  | refused draws hpc _ => exact hkept draws (by rw [hpc]; rfl) rfl
  | schedule draws hpc _ => exact hkept draws (by rw [hpc]; rfl) rfl
  | scheduled draws hpc => exact hkept draws (by rw [hpc]; rfl) rfl
  | draw draws hpc => exact hkept draws (by rw [hpc]; rfl) rfl
  | passOver draws hpc => exact hkept draws (by rw [hpc]; rfl) rfl
  | fluctuated draws hpc => exact hkept draws (by rw [hpc]; rfl) rfl
  | stay _ hlabel =>
      obtain rfl | rfl := hlabel <;> exact ⟨(List.append_nil _).symm, (List.append_nil _).symm⟩
  | _ => exact ⟨(List.append_nil _).symm, (List.append_nil _).symm⟩

theorem places_of_move (h : Sound s) (hmove : Pipeline.Move s label s') (e : EdgeId) :
    (reservation.places s' e ++ released s label e).Perm
      (granted s label e ++ reservation.places s e) :=
  Pipeline.places_perm h.reservation (h.move hmove).reservation _ _ (log_of_move hmove e).1
    (log_of_move hmove e).2

theorem granted_or_released (s : Pipeline.State) (label : Pipeline.Label) (e : EdgeId) :
    granted s label e = [] ∨ released s label e = [] := by
  cases label with
  | work e' input => exact Or.inl rfl
  | _ => exact Or.inr rfl

theorem granted_cases (s : Pipeline.State) (label : Pipeline.Label) (e : EdgeId) :
    granted s label e = [] ∨ ∃ call n score,
      s.producer = .allocating call (.reserve n e score) ∧ granted s label e = [call.task] := by
  cases label with
  | producer draws =>
      cases hpc : s.producer with
      | allocating call pc =>
          rw [granted, hpc]
          cases pc with
          | reserve n e' score =>
              by_cases he : e' = e
              · subst he
                exact Or.inr ⟨call, n, score, rfl, by simp [grants, Allocation.AllocPc.grants]⟩
              · exact Or.inl (by simp [grants, Allocation.AllocPc.grants, he])
          | _ => exact Or.inl rfl
      | _ => exact Or.inl (granted_of_grants (by rw [hpc]; rfl) draws e)
  | _ => exact Or.inl rfl

theorem standing_perm (h : Sound s) (hmove : Pipeline.Move s label s') (e : EdgeId) :
    (reservation.places s' e).Perm
      (granted s label e ++ (s.outstanding e).diff (released s label e)) := by
  rw [List.perm_iff_count]
  intro t
  have hplaces := (places_of_move h hmove e).count_eq t
  have houtstanding := (Pipeline.outstanding_perm h.reservation e).count_eq t
  rw [List.count_append, List.count_append] at hplaces
  rw [List.count_append, List.count_diff]
  obtain hnone | hnone := granted_or_released s label e <;>
    rw [hnone] at hplaces ⊢ <;> simp only [List.count_nil] at hplaces ⊢ <;> omega

end Threads

theorem Sound.goTo {s : State} (h : Sound s.threads) {call : Allocation.AllocCall}
    {pc pc' : Allocation.AllocPc} (hpc : s.threads.producer = .allocating call pc)
    (hnone : pc.granted = none) (hnone' : pc'.granted = none)
    (hedges : ∀ e ∈ pc'.edges, e ∈ pc.edges) : Sound (s.goTo call pc').threads := by
  have hheld (e : EdgeId) : (s.goTo call pc').threads.producer.held e =
      s.threads.producer.held e := by
    rw [hpc]
    simp only [State.goTo, Pipeline.ProducerPc.held, hnone, hnone']
  constructor
  · exact ⟨h.threads.foreign, h.threads.spawning, h.threads.joining⟩
  · intro e he
    refine h.edges e ?_
    rw [hpc]
    exact hedges e he
  · refine ⟨h.fresh.granted, h.fresh.nodup, fun call' pc'' hcall => ?_⟩
    cases hcall
    obtain ⟨hlt, hnew⟩ := h.fresh.current call pc hpc
    exact ⟨hlt, fun _ => hnew hnone⟩
  · exact h.custody.of_eq rfl hheld (fun _ => rfl) fun _ => rfl
  · exact h.reservation.of_eq rfl hheld (fun _ => rfl) fun _ => rfl
  · exact h.begun
  · exact h.counted

theorem places_goTo {s : State} {call : Allocation.AllocCall} {pc pc' : Allocation.AllocPc}
    (hpc : s.threads.producer = .allocating call pc) (hnone : pc.granted = none)
    (hnone' : pc'.granted = none) (e : EdgeId) :
    reservation.places (s.goTo call pc').threads e = reservation.places s.threads e := by
  simp only [Pipeline.Account.places, hpc, State.goTo, Pipeline.ProducerPc.held, hnone, hnone']

inductive Move (s : State) (label : Label) : State → Prop where
  | examine {call : Allocation.AllocCall} {n : Nat} {e : EdgeId} {todo viable : List EdgeId}
      (hpc : s.threads.producer = .allocating call (.examine n e todo viable))
      (hexamined : examined s.threads label.threads = some (call.task, e)) :
      Move s label (s.goTo call (.scan n todo
        (if (s.node e).canAllocate (s.demand call.task) then viable ++ [e] else viable)))
  | compare {call : Allocation.AllocCall} {n : Nat} {e : EdgeId} {todo : List EdgeId}
      {reads : List ℚ} {best : Option EdgeId} {key : ℚ}
      (hpc : s.threads.producer = .allocating call (.compare n (e :: todo) reads best key)) :
      Move s label (s.goTo call (.compare n todo [] (if label.improves then some e else best) key))
  | threads {threads : Pipeline.State}
      (hexamined : examined s.threads label.threads = none)
      (hstep : Pipeline.step s.threads label.threads = some threads) :
      Move s label { s with threads := threads, usage := s.accounts label }

theorem step_move {s s' : State} {label : Label} (h : step s label = some s') :
    Move s label s' := by
  unfold step at h
  split at h
  · rename_i hlabel hpc
    cases h
    exact .examine hpc (by simp only [examined, hlabel, hpc])
  · cases h
    exact .compare ‹_›
  · rename_i hexamine _
    obtain ⟨threads, hthreads, hnext⟩ := Option.map_eq_some_iff.mp h
    cases hnext
    refine .threads ?_ hthreads
    unfold examined
    split
    · rename_i hlabel hpc
      exact (hexamine _ _ _ _ _ _ hlabel hpc).elim
    · rfl

theorem accounts_of_none {s : State} {label : Label} (h : s.written label = none) :
    s.accounts label = s.usage := by
  simp only [State.accounts, h]

theorem accounts_of_some {s : State} {label : Label} {e : EdgeId} {usage : Amounts}
    (h : s.written label = some (e, usage)) :
    s.accounts label = Function.update s.usage e usage := by
  simp only [State.accounts, h]

theorem written_cases (s : State) (label : Label) (e : EdgeId) :
    s.accounts label e = s.usage e ∧ granted s.threads label.threads e = [] ∧
        released s.threads label.threads e = [] ∨
      ∃ usage, s.written label = some (e, usage) ∧ s.accounts label e = usage := by
  have hwrites {e' : EdgeId} {usage : Amounts} (hwritten : s.written label = some (e', usage))
      (hother : e ≠ e' → granted s.threads label.threads e = [] ∧
        released s.threads label.threads e = []) :
      s.accounts label e = s.usage e ∧ granted s.threads label.threads e = [] ∧
          released s.threads label.threads e = [] ∨
        ∃ usage, s.written label = some (e, usage) ∧ s.accounts label e = usage := by
    rw [accounts_of_some hwritten]
    by_cases he : e = e'
    · subst he
      exact Or.inr ⟨usage, hwritten, Function.update_self ..⟩
    · exact Or.inl ⟨Function.update_of_ne he .., hother he⟩
  have hquiet (hwritten : s.written label = none) (hgranted : granted s.threads label.threads e = [])
      (hreleased : released s.threads label.threads e = []) :
      s.accounts label e = s.usage e ∧ granted s.threads label.threads e = [] ∧
          released s.threads label.threads e = [] ∨
        ∃ usage, s.written label = some (e, usage) ∧ s.accounts label e = usage :=
    Or.inl ⟨by rw [accounts_of_none hwritten], hgranted, hreleased⟩
  obtain ⟨threads, draws, improves⟩ := label
  cases threads with
  | producer _ =>
      cases hpc : s.threads.producer with
      | allocating call pc =>
          cases pc with
          | reserve n e' score =>
              refine hwrites (by simp only [State.written, hpc]; rfl) fun he => ⟨?_, rfl⟩
              simp [granted, hpc, grants, Allocation.AllocPc.grants, Ne.symm he]
          | _ =>
              exact hquiet (by simp only [State.written, hpc]) (by simp [granted, hpc, grants]; rfl)
                rfl
      | fluctuating todo =>
          have hgranted := granted_of_grants (s := s.threads) (by rw [hpc]; rfl)
          cases todo with
          | nil => exact hquiet (by simp only [State.written, hpc]) (hgranted _ e) rfl
          | cons e' todo =>
              by_cases havailable : (s.node e').isAvailable = true
              · exact hwrites (by simp only [State.written, hpc, havailable, if_true]; rfl)
                  fun _ => ⟨hgranted _ e, rfl⟩
              · exact hquiet (by simp only [State.written, hpc, havailable]; rfl) (hgranted _ e) rfl
      | _ =>
          exact hquiet (by simp only [State.written, hpc])
            (granted_of_grants (by rw [hpc]; rfl) _ e) rfl
  | work e' input =>
      cases hreleases : (s.threads.workers e').releases with
      | nil =>
          refine hquiet (by simp only [State.written, hreleases]; rfl) rfl ?_
          simp [released, hreleases]
          rfl
      | cons t rest =>
          refine hwrites (by simp only [State.written, hreleases]; rfl) fun he => ⟨rfl, ?_⟩
          exact Pipeline.tasksOn_map_of_ne (Ne.symm he) _
  | _ => exact hquiet rfl rfl rfl

section Sums

variable {s : State} {r : Resource}

theorem reserved_append (tasks rest : List TaskRef) :
    s.reserved (tasks ++ rest) r = s.reserved tasks r + s.reserved rest r := by
  simp [State.reserved]

theorem reserved_perm {tasks rest : List TaskRef} (h : tasks.Perm rest) :
    s.reserved tasks r = s.reserved rest r :=
  (h.map _).sum_eq

theorem reserved_nonneg (h : ∀ t r, 0 ≤ s.demand t r) (tasks : List TaskRef) :
    0 ≤ s.reserved tasks r := by
  induction tasks with
  | nil => exact Extended.finite_le_iff.mpr le_rfl
  | cons t tasks ih =>
      simpa [State.reserved] using Extended.add_nonneg (Double.value_nonneg (h t r)) ih

end Sums

/-- The accounts cover what stands on the nodes, and the capacities cover it too. A candidate
of the call at hand has enough left, and no foreign thread can change that. -/
structure Sheltered (s : State) : Prop where
  sound : Sound s.threads
  capacity : ∀ e r, 0 ≤ s.capacity e r
  demand : ∀ t r, 0 ≤ s.demand t r
  covered : ∀ e r, s.reserved (reservation.places s.threads e) r ≤ (s.usage e r).value
  fits : ∀ call pc, s.threads.producer = .allocating call pc → ∀ e ∈ pc.candidates, ∀ r,
    (s.usage e r).value + (s.demand call.task r).value ≤ (s.capacity e r).value
  within : ∀ e r, s.reserved (reservation.places s.threads e) r ≤ (s.capacity e r).value

namespace Sheltered

variable {s : State} {label : Label}

theorem demand_nonneg (h : Sheltered s) (t : TaskRef) (r : Resource) :
    0 ≤ (s.demand t r).value :=
  Double.value_nonneg (h.demand t r)

theorem usage_nonneg (h : Sheltered s) (e : EdgeId) (r : Resource) : 0 ≤ (s.usage e r).value :=
  Extended.le_trans (reserved_nonneg h.demand _) (h.covered e r)

theorem examine (h : Sheltered s) (hkeeps : Suffices s label) {call : Allocation.AllocCall}
    {n : Nat} {e : EdgeId} {todo viable : List EdgeId}
    (hpc : s.threads.producer = .allocating call (.examine n e todo viable))
    (hexamined : examined s.threads label.threads = some (call.task, e)) :
    Sheltered (s.goTo call (.scan n todo
      (if (s.node e).canAllocate (s.demand call.task) then viable ++ [e] else viable))) := by
  have hscanned (e' : EdgeId) (he' : e' ∈ if (s.node e).canAllocate (s.demand call.task) then
      viable ++ [e] else viable) :
      e' ∈ viable ∨ e' = e ∧ (s.node e).canAllocate (s.demand call.task) = true := by
    split_ifs at he' with hyes
    · rcases List.mem_append.mp he' with hold | hlast
      · exact Or.inl hold
      · exact Or.inr ⟨List.mem_singleton.mp hlast, hyes⟩
    · exact Or.inl he'
  exact {
    sound := Sound.goTo h.sound hpc rfl rfl fun e' he' => by
      rcases List.mem_append.mp he' with htodo | hviable
      · exact List.mem_cons_of_mem _ (List.mem_append_left _ htodo)
      · rcases hscanned e' hviable with hold | ⟨rfl, -⟩
        · exact List.mem_cons_of_mem _ (List.mem_append_right _ hold)
        · exact List.mem_cons_self
    capacity := h.capacity
    demand := h.demand
    covered := fun e' r => by
      rw [places_goTo hpc rfl rfl]
      exact h.covered e' r
    fits := fun call' pc' hpc' e' he' r => by
      cases hpc'
      rcases hscanned e' he' with hold | ⟨rfl, hyes⟩
      · exact h.fits call _ hpc e' hold r
      · exact Extended.add_le_of_le_sub (h.usage_nonneg e' r) (h.demand_nonneg _ r)
          (hkeeps _ hexamined hyes r)
    within := fun e' r => by
      rw [places_goTo hpc rfl rfl]
      exact h.within e' r }

theorem compare (h : Sheltered s) {call : Allocation.AllocCall} {n : Nat} {e : EdgeId}
    {todo : List EdgeId} {reads : List ℚ} {best : Option EdgeId} {key : ℚ} (better : Bool)
    (hpc : s.threads.producer = .allocating call (.compare n (e :: todo) reads best key)) :
    Sheltered (s.goTo call (.compare n todo [] (if better then some e else best) key)) := by
  have hless (e' : EdgeId) (he' : e' ∈ (if better then some e else best).toList ++ todo) :
      e' ∈ best.toList ++ e :: todo := by
    cases better
    · simp only [List.mem_append, List.mem_cons] at he' ⊢
      exact he'.imp_right Or.inr
    · exact List.mem_append_right _ (by simpa using he')
  exact {
    sound := Sound.goTo h.sound hpc rfl rfl hless
    capacity := h.capacity
    demand := h.demand
    covered := fun e' r => by
      rw [places_goTo hpc rfl rfl]
      exact h.covered e' r
    fits := fun call' pc' hpc' e' he' r => by
      cases hpc'
      exact h.fits call _ hpc e' (hless e' he') r
    within := fun e' r => by
      rw [places_goTo hpc rfl rfl]
      exact h.within e' r }

theorem accounts_le (h : Sheltered s) {threads : Pipeline.State}
    (hstep : Pipeline.step s.threads label.threads = some threads) {call : Allocation.AllocCall}
    {pc pc' : Allocation.AllocPc} (hpc : s.threads.producer = .allocating call pc)
    (hpc' : threads.producer = .allocating call pc') {e : EdgeId} (he : e ∈ pc'.candidates)
    (r : Resource) : (s.accounts label e r).value ≤ (s.usage e r).value := by
  have hsame : (s.usage e r).value ≤ (s.usage e r).value :=
    have hnonneg := h.usage_nonneg e r
    ⟨hnonneg.2.1, hnonneg.2.1, le_rfl⟩
  obtain ⟨usage, hwritten, haccount⟩ | ⟨hkept, -, -⟩ := (written_cases s label e).symm
  · rw [haccount]
    obtain ⟨label, draws, improves⟩ := label
    cases label with
    | producer _ =>
        cases pc with
        | reserve n e' score =>
            simp only [Pipeline.step, Pipeline.produceStep, hpc, Allocation.allocStep,
              Option.map_some, Option.some.injEq] at hstep
            rw [← hstep] at hpc'
            cases hpc'
            cases he
        | _ =>
            simp only [State.written, hpc] at hwritten
            cases hwritten
    | work e' input =>
        obtain ⟨t, -, hwrite⟩ := Option.map_eq_some_iff.mp hwritten
        cases hwrite
        exact maxZero_sub_le (h.usage_nonneg e r) (h.demand_nonneg t r)
    | _ => cases hwritten
  · rw [hkept]
    exact hsame

theorem covered_threads (h : Sheltered s) (hkeeps : Covers s label) {threads : Pipeline.State}
    (hmove : Pipeline.Move s.threads label.threads threads) (e : EdgeId) (r : Resource) :
    s.reserved (reservation.places threads e) r ≤ (s.accounts label e r).value := by
  obtain ⟨hkept, hgranted, hreleased⟩ | ⟨usage, hwritten, haccount⟩ := written_cases s label e
  · have hplaces := places_of_move h.sound hmove e
    rw [hgranted, hreleased, List.append_nil, List.nil_append] at hplaces
    rw [hkept, reserved_perm hplaces]
    exact h.covered e r
  · rw [haccount, reserved_perm (standing_perm h.sound hmove e)]
    exact hkeeps _ hwritten r

theorem within_threads (h : Sheltered s) {threads : Pipeline.State}
    (hmove : Pipeline.Move s.threads label.threads threads) (e : EdgeId) (r : Resource) :
    s.reserved (reservation.places threads e) r ≤ (s.capacity e r).value := by
  have hplaces := places_of_move h.sound hmove e
  obtain hnone | ⟨call, n, score, hpc, hgranted⟩ := granted_cases s.threads label.threads e
  · rw [hnone, List.nil_append] at hplaces
    refine Extended.le_trans ?_ (h.within e r)
    rw [← reserved_perm hplaces, reserved_append, add_comm]
    exact Extended.le_add_left (reserved_nonneg h.demand _) (reserved_nonneg h.demand _)
  · have hreleased : released s.threads label.threads e = [] := by
      refine (granted_or_released s.threads label.threads e).resolve_left ?_
      rw [hgranted]
      exact List.cons_ne_nil _ _
    have hsingle : s.reserved [call.task] r = (s.demand call.task r).value := by
      simp [State.reserved]
    rw [hreleased, List.append_nil, hgranted] at hplaces
    refine Extended.le_trans ?_ (h.fits call _ hpc e (List.mem_singleton_self e) r)
    rw [reserved_perm hplaces, reserved_append, hsingle, add_comm (s.usage e r).value]
    exact Extended.add_le_add_left (reserved_nonneg h.demand _) (h.covered e r)
      (h.demand_nonneg _ r)

theorem threads (h : Sheltered s) (hkeeps : Covers s label) {threads : Pipeline.State}
    (hexamined : examined s.threads label.threads = none)
    (hstep : Pipeline.step s.threads label.threads = some threads) :
    Sheltered { s with threads := threads, usage := s.accounts label } := by
  have hmove := Pipeline.step_move hstep
  have hcovered := h.covered_threads hkeeps hmove
  refine ⟨h.sound.move hmove, h.capacity, h.demand, hcovered, fun call pc' hpc' e he r => ?_,
    h.within_threads hmove⟩
  obtain ⟨pc, hpc, hold⟩ | ⟨⟨draws, n, todo, viable, hlabel, hpc⟩, -⟩ := hmove.candidates hpc' he
  · refine Extended.le_trans ?_ (h.fits call pc hpc e hold r)
    show (s.accounts label e r).value + _ ≤ _
    rw [add_comm, add_comm (s.usage e r).value]
    exact Extended.add_le_add_left (Extended.le_trans (reserved_nonneg h.demand _) (hcovered e r))
      (h.accounts_le hstep hpc hpc' he r) (h.demand_nonneg _ r)
  · simp only [examined, hlabel, hpc] at hexamined
    cases hexamined

theorem move {s' : State} (h : Sheltered s) (hkeeps : Keeps s label) (hmove : Move s label s') :
    Sheltered s' := by
  cases hmove with
  | examine hpc hexamined => exact h.examine hkeeps.2 hpc hexamined
  | compare hpc => exact h.compare label.improves hpc
  | threads hexamined hstep => exact h.threads hkeeps.1 hexamined hstep

theorem initial (h : Initial s) : Sheltered s := by
  have hplaces (e : EdgeId) : reservation.places s.threads e = [] :=
    Pipeline.places_initial h.threads e
  refine ⟨Sound.initial h.threads, h.capacity, h.demand, fun e r => ?_, fun call pc hpc => ?_,
    fun e r => ?_⟩
  · rw [hplaces, h.usage, Double.value_zero]
    exact Extended.finite_le_iff.mpr le_rfl
  · rw [h.threads.producer] at hpc
    cases hpc
  · rw [hplaces]
    exact Double.value_nonneg (h.capacity e r)

end Sheltered

def boot : State where
  threads := Pipeline.bootSingle Pipeline.mixedWorkload .fifo
  capacity := fun _ => amounts hundred (.ofRat 8192) hundred
  demand := fun t r => .ofRat ((Pipeline.mixedWorkload t).demand r)

theorem boot_initial : machine.initial boot where
  threads := Pipeline.boot_initial ..
  capacity := fun _ r => by
    show 0 ≤ amounts hundred (.ofRat 8192) hundred r
    cases r <;> decide +kernel
  demand := fun t r => by
    have hzero : (0 : Double) = .ofRat 0 := rfl
    rw [hzero]
    exact Double.ofRat_mono (Pipeline.bootSingle_demand Pipeline.mixedWorkload_mem .fifo t r)
  usage := rfl

def handOver : List Label := Pipeline.handOver.map fun label => { threads := label }

def fluctuate (cpu : ℚ) : List Label :=
  [{ threads := .fluctuate }, { threads := .producer {}, draws := { cpu := .ofRat cpu } },
    { threads := .producer {} }]

end EdgeAllocator.Doubles.Commitment
