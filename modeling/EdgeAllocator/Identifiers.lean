import EdgeAllocator.Initialize
import EdgeAllocator.Foundation.Machine

/-! The printed names of tasks, nodes and devices, and the maps and tables that are
keyed by them. -/
namespace EdgeAllocator.Identifiers

open Foundation Schema Initialize
open Simulator (Distributions edgeName edgeName_injective registry registry_perm)

variable {G : Type}

/-! ## Zero-padded numbers -/

theorem zeroFilled_number (width n : Nat) :
    Nat.ofDigitChars 10 (zeroFilled width n).toList 0 = n := by
  unfold zeroFilled
  rw [String.toList_append, String.toList_ofList, Nat.ofDigitChars_append,
    Nat.ofDigitChars_replicate_zero, Nat.mul_zero, Nat.toList_repr]
  exact Nat.ofDigitChars_ten_toDigits

theorem zeroFilled_injective (width : Nat) : Function.Injective (zeroFilled width) := by
  intro m n h
  have hnumber := zeroFilled_number width m
  rw [h, zeroFilled_number] at hnumber
  exact hnumber.symm

theorem append_left_injective (stem : String) : Function.Injective (stem ++ ·) := by
  intro a b h
  have htexts := congrArg String.toList h
  simp only [String.toList_append] at htexts
  exact String.toList_injective (List.append_cancel_left htexts)

theorem numbered_injective (stem : String) (width : Nat) :
    Function.Injective fun i => stem ++ zeroFilled width (i + 1) := by
  intro i j h
  have hnumbers := zeroFilled_injective width (append_left_injective stem h)
  exact Nat.succ.inj hnumbers

theorem generateTaskId_injective : Function.Injective Schema.generateTaskId :=
  numbered_injective "T" 6

theorem deviceId_injective : Function.Injective fun i => (deviceOf i).deviceId :=
  numbered_injective "DEV" 4

/-! ## The fleet and the devices -/

section Fleet

variable (distributions : Distributions G) (generator : G) (store : Store) (count : Nat)

theorem makeEdges_nodup :
    ((makeEdges distributions count generator store).nodes.map Prod.fst).Nodup := by
  rw [(makeEdges_names distributions generator store count).1]
  exact List.nodup_range.map edgeName_injective

theorem makeEdges_registers :
    (makeEdges distributions count generator store).monitor.ids.Perm
        ((makeEdges distributions count generator store).nodes.map Prod.fst) ∧
      (makeEdges distributions count generator store).monitor.ids.length = count := by
  obtain ⟨hnames, hmonitor⟩ := makeEdges_names distributions generator store count
  rw [hnames, hmonitor]
  refine ⟨registry_perm count, ?_⟩
  rw [(registry_perm count).length_eq, List.length_map, List.length_range]

theorem makeDevices_nodup : ((makeDevices count store).1.map Device.deviceId).Nodup := by
  rw [makeDevices_eq, List.map_map]
  exact List.nodup_range.map deviceId_injective

end Fleet

/-! ## The counter of `TaskManager` -/

def generateTaskId (taskCounter : UInt64) : String × UInt64 :=
  let taskCounter := taskCounter + 1
  ("T" ++ zeroFilled 6 taskCounter.toNat, taskCounter)

def generatedIds : Nat → UInt64 → List String
  | 0, _ => []
  | calls + 1, taskCounter =>
      let (taskId, taskCounter) := generateTaskId taskCounter
      taskId :: generatedIds calls taskCounter

theorem generateTaskId_eq {taskCounter : UInt64} (h : taskCounter.toNat + 1 < UInt64.size) :
    (generateTaskId taskCounter).1 = Schema.generateTaskId taskCounter.toNat ∧
      (generateTaskId taskCounter).2.toNat = taskCounter.toNat + 1 := by
  have hnext : (taskCounter + 1).toNat = taskCounter.toNat + 1 := by
    rw [UInt64.toNat_add, UInt64.toNat_one]
    unfold UInt64.size at h
    omega
  constructor
  · unfold generateTaskId Schema.generateTaskId
    simp only [hnext]
  · exact hnext

theorem generatedIds_eq (calls : Nat) {taskCounter : UInt64}
    (h : taskCounter.toNat + calls < UInt64.size) :
    generatedIds calls taskCounter =
      (List.range' taskCounter.toNat calls).map Schema.generateTaskId := by
  induction calls generalizing taskCounter with
  | zero => rfl
  | succ calls ih =>
      have hbelow : taskCounter.toNat + 1 < UInt64.size := by omega
      obtain ⟨hid, hnext⟩ := generateTaskId_eq hbelow
      have hlater : (generateTaskId taskCounter).2.toNat + calls < UInt64.size := by omega
      have hrest := ih hlater
      rw [hnext] at hrest
      rw [List.range'_succ, List.map_cons, ← hid, ← hrest]
      rfl

theorem generatedIds_nodup {calls : Nat} (h : calls < UInt64.size) :
    (generatedIds calls 0).Nodup := by
  rw [generatedIds_eq calls (by simpa using h)]
  exact (List.nodup_range' _).map generateTaskId_injective

/-! ## The entries under the ids -/

/-- The objects of one `TaskManager` with the tables and the map that their ids are
keys of. `taskIds` are the `task_id_` of the tasks in the order of creation. -/
structure State where
  taskCounter : UInt64 := 0
  taskIds : List String := []
  activeTasks : List (String × TaskRef) := []
  store : Store := {}

/-- `saveTask` brings the columns of its row; the id is the task's own. -/
inductive Label where
  | createTask
  | saveTask (t : TaskRef) (columns : Schema.Task)
  | updateTaskStatus (t : TaskRef) (status : Int)
  | insertActive (t : TaskRef)
  | eraseActive (t : TaskRef)
  deriving DecidableEq

def Label.task : Label → Option TaskRef
  | .createTask => none
  | .saveTask t _ | .updateTaskStatus t _ | .insertActive t | .eraseActive t => some t

def step (s : State) : Label → Option State
  | .createTask =>
      let (taskId, taskCounter) := generateTaskId s.taskCounter
      some { s with taskCounter := taskCounter, taskIds := s.taskIds ++ [taskId] }
  | .saveTask t columns => s.taskIds[t]?.map fun taskId =>
      { s with store := perform s.store (.saveTask { columns with taskId := taskId }) }
  | .updateTaskStatus t status => s.taskIds[t]?.map fun taskId =>
      { s with store := perform s.store (.updateTaskStatus taskId status) }
  | .insertActive t => s.taskIds[t]?.map fun taskId =>
      { s with activeTasks := replace Prod.fst (taskId, t) s.activeTasks }
  | .eraseActive t => s.taskIds[t]?.map fun taskId =>
      { s with activeTasks := s.activeTasks.filter fun entry => entry.1 ≠ taskId }

/-- Nothing is created yet. The tables may hold the rows of an earlier run. -/
structure Initial (s : State) : Prop where
  taskCounter : s.taskCounter = 0
  taskIds : s.taskIds = []
  activeTasks : s.activeTasks = []

def machine : Machine State Label := ⟨Initial, step⟩

def Below (s : State) (label : Label) : Prop :=
  label = .createTask → s.taskCounter.toNat + 1 < UInt64.size

instance (s : State) (label : Label) : Decidable (Below s label) :=
  inferInstanceAs (Decidable (_ → _))

def Elsewhere (u : TaskRef) (s : State) (label : Label) : Prop :=
  Below s label ∧ label.task ≠ some u

instance (u : TaskRef) (s : State) (label : Label) : Decidable (Elsewhere u s label) :=
  inferInstanceAs (Decidable (_ ∧ _))

def State.entries (s : State) (t : TaskRef) :
    Option (Option Schema.Task × Option (String × TaskRef)) :=
  s.taskIds[t]?.map fun taskId =>
    (lookup Schema.Task.taskId taskId s.store.tasks, lookup Prod.fst taskId s.activeTasks)

/-- The ids count the tasks, and each entry of `active_tasks_` is the task's own. -/
structure Sound (s : State) : Prop where
  counter : s.taskCounter.toNat = s.taskIds.length
  taskIds : s.taskIds = (List.range s.taskIds.length).map Schema.generateTaskId
  active : ∀ entry ∈ s.activeTasks, s.taskIds[entry.2]? = some entry.1
  distinct : (s.activeTasks.map Prod.fst).Nodup

inductive Move (s : State) : Label → State → Prop where
  | createTask :
      Move s .createTask
        { s with
          taskCounter := (generateTaskId s.taskCounter).2
          taskIds := s.taskIds ++ [(generateTaskId s.taskCounter).1] }
  | saveTask {t : TaskRef} {columns : Schema.Task} {taskId : String}
      (hid : s.taskIds[t]? = some taskId) :
      Move s (.saveTask t columns)
        { s with store := perform s.store (.saveTask { columns with taskId := taskId }) }
  | updateTaskStatus {t : TaskRef} {status : Int} {taskId : String}
      (hid : s.taskIds[t]? = some taskId) :
      Move s (.updateTaskStatus t status)
        { s with store := perform s.store (.updateTaskStatus taskId status) }
  | insertActive {t : TaskRef} {taskId : String} (hid : s.taskIds[t]? = some taskId) :
      Move s (.insertActive t) { s with activeTasks := replace Prod.fst (taskId, t) s.activeTasks }
  | eraseActive {t : TaskRef} {taskId : String} (hid : s.taskIds[t]? = some taskId) :
      Move s (.eraseActive t)
        { s with activeTasks := s.activeTasks.filter fun entry => entry.1 ≠ taskId }

theorem step_move {s s' : State} {label : Label} (h : step s label = some s') :
    Move s label s' := by
  cases label with
  | createTask =>
      cases h
      exact .createTask
  | saveTask t columns =>
      obtain ⟨taskId, hid, rfl⟩ := Option.map_eq_some_iff.mp h
      exact .saveTask hid
  | updateTaskStatus t status =>
      obtain ⟨taskId, hid, rfl⟩ := Option.map_eq_some_iff.mp h
      exact .updateTaskStatus hid
  | insertActive t =>
      obtain ⟨taskId, hid, rfl⟩ := Option.map_eq_some_iff.mp h
      exact .insertActive hid
  | eraseActive t =>
      obtain ⟨taskId, hid, rfl⟩ := Option.map_eq_some_iff.mp h
      exact .eraseActive hid

theorem Sound.initial {s : State} (h : Initial s) : Sound s where
  counter := by rw [h.taskCounter, h.taskIds]; rfl
  taskIds := by rw [h.taskIds]; rfl
  active := by
    rw [h.activeTasks]
    exact nofun
  distinct := by
    rw [h.activeTasks]
    exact .nil

theorem Sound.nodup {s : State} (h : Sound s) : s.taskIds.Nodup := by
  rw [h.taskIds]
  exact List.nodup_range.map generateTaskId_injective

theorem Sound.ids_ne {s : State} (h : Sound s) {t u : TaskRef} {taskId otherId : String}
    (ht : s.taskIds[t]? = some taskId) (hu : s.taskIds[u]? = some otherId) (hne : t ≠ u) :
    otherId ≠ taskId := by
  rintro rfl
  obtain ⟨hlt, -⟩ := List.getElem?_eq_some_iff.mp ht
  exact hne ((List.getElem?_inj hlt h.nodup).mp (ht.trans hu.symm))

theorem Sound.move {s s' : State} {label : Label} (h : Sound s) (hbelow : Below s label)
    (hmove : Move s label s') : Sound s' := by
  cases hmove with
  | createTask =>
      obtain ⟨hid, hnext⟩ := generateTaskId_eq (hbelow rfl)
      exact
        { counter := by rw [hnext, h.counter, List.length_append, List.length_singleton]
          taskIds := by
            rw [hid, h.counter, List.length_append, List.length_singleton, List.range_succ,
              List.map_append, ← h.taskIds]
            rfl
          active := fun entry hentry => by
            have hown := h.active entry hentry
            obtain ⟨hlt, -⟩ := List.getElem?_eq_some_iff.mp hown
            rw [List.getElem?_append_left hlt]
            exact hown
          distinct := h.distinct }
  | saveTask _ | updateTaskStatus _ => exact ⟨h.counter, h.taskIds, h.active, h.distinct⟩
  | insertActive hid =>
      refine ⟨h.counter, h.taskIds, fun entry hentry => ?_, nodup_replace_keys h.distinct⟩
      rcases List.mem_append.mp hentry with hold | hnew
      · exact h.active entry (List.mem_of_mem_filter hold)
      · rw [List.mem_singleton.mp hnew]
        exact hid
  | eraseActive _ =>
      exact ⟨h.counter, h.taskIds,
        fun entry hentry => h.active entry (List.mem_of_mem_filter hentry),
        h.distinct.sublist (List.filter_sublist.map Prod.fst)⟩

theorem sound_of_reachable {s : State} (hs : machine.Reachable Below s) : Sound s :=
  hs.invariant Sound.initial fun h hbelow hstep => h.move hbelow (step_move hstep)

theorem lookup_saveTask_ne {store : Store} {row : Schema.Task} {taskId : String}
    (h : taskId ≠ row.taskId) :
    lookup Schema.Task.taskId taskId (perform store (.saveTask row)).tasks =
      lookup Schema.Task.taskId taskId store.tasks := by
  unfold perform executeSql
  split_ifs
  · exact lookup_replace_ne h
  · rfl

theorem lookup_updateTaskStatus_ne {store : Store} {taskId otherId : String} {status : Int}
    (h : otherId ≠ taskId) :
    lookup Schema.Task.taskId otherId (perform store (.updateTaskStatus taskId status)).tasks =
      lookup Schema.Task.taskId otherId store.tasks := by
  rw [perform_of_permitted (by trivial)]
  apply lookup_map_ne
  · intro row
    split_ifs <;> rfl
  · intro row hrow
    rw [if_neg]
    rw [hrow]
    exact h

theorem Sound.entries_step {s s' : State} {label : Label} (h : Sound s) {u : TaskRef}
    (hu : u < s.taskIds.length) (hother : label.task ≠ some u) (hmove : Move s label s') :
    s'.entries u = s.entries u := by
  obtain ⟨otherId, hid⟩ : ∃ otherId, s.taskIds[u]? = some otherId :=
    ⟨_, List.getElem?_eq_getElem hu⟩
  have hne {t : TaskRef} {taskId : String} (ht : s.taskIds[t]? = some taskId)
      (htask : some t ≠ some u) : otherId ≠ taskId :=
    h.ids_ne ht hid fun heq => htask (congrArg some heq)
  unfold State.entries
  cases hmove with
  | createTask => rw [List.getElem?_append_left hu]
  | saveTask ht =>
      simp only [hid, Option.map_some]
      rw [lookup_saveTask_ne (hne ht hother)]
  | updateTaskStatus ht =>
      simp only [hid, Option.map_some]
      rw [lookup_updateTaskStatus_ne (hne ht hother)]
  | insertActive ht =>
      simp only [hid, Option.map_some]
      rw [lookup_replace_ne (hne ht hother)]
  | eraseActive ht =>
      simp only [hid, Option.map_some]
      rw [lookup_filter_ne (hne ht hother)]

theorem Move.taskIds_le {s s' : State} {label : Label} (h : Move s label s') :
    s.taskIds.length ≤ s'.taskIds.length := by
  cases h with
  | createTask => simp
  | saveTask _ | updateTaskStatus _ | insertActive _ | eraseActive _ => exact le_rfl

theorem Sound.entries_run {s s' : State} (h : Sound s) {u : TaskRef} (hu : u < s.taskIds.length)
    (hrun : machine.Run (Elsewhere u) s s') : s'.entries u = s.entries u := by
  have hkeep {v v' : State} {label : Label}
      (hv : Sound v ∧ u < v.taskIds.length ∧ v.entries u = s.entries u)
      (helsewhere : Elsewhere u v label) (hstep : machine.step v label = some v') :
      Sound v' ∧ u < v'.taskIds.length ∧ v'.entries u = s.entries u := by
    obtain ⟨hsound, hlt, hentries⟩ := hv
    have hmove := step_move hstep
    refine ⟨hsound.move helsewhere.1 hmove, hlt.trans_le hmove.taskIds_le, ?_⟩
    rw [hsound.entries_step hlt helsewhere.2 hmove, hentries]
  exact (hrun.preserves hkeep ⟨h, hu, rfl⟩).2.2

/-- Every entry of `active_tasks_` is the one of the task that put it there. -/
def State.ActiveOwned (s : State) : Prop :=
  (s.activeTasks.map Prod.fst).Nodup ∧
    ∀ entry ∈ s.activeTasks, s.taskIds[entry.2]? = some entry.1

/-- The ids of tasks, nodes and devices do not collide; the registry gets an entry for
each node, and what a task has under its id is left alone by all steps on other
tasks, whatever their order. -/
theorem ids_never_collide (distributions : Distributions G) (generator : G) (store : Store) :
    (∀ calls < UInt64.size, (generatedIds calls 0).Nodup) ∧
      (∀ count,
        ((makeEdges distributions count generator store).nodes.map Prod.fst).Nodup ∧
          (makeEdges distributions count generator store).monitor.ids.Perm
            ((makeEdges distributions count generator store).nodes.map Prod.fst) ∧
          (makeEdges distributions count generator store).monitor.ids.length = count) ∧
      (∀ count, ((makeDevices count store).1.map Device.deviceId).Nodup) ∧
      ∀ s, machine.Reachable Below s → s.taskIds.Nodup ∧ s.ActiveOwned ∧
        ∀ u < s.taskIds.length, ∀ s', machine.Run (Elsewhere u) s s' →
          s'.entries u = s.entries u := by
  refine ⟨fun _ => generatedIds_nodup, fun count => ?_, makeDevices_nodup store, fun s hs => ?_⟩
  · exact ⟨makeEdges_nodup distributions generator store count,
      makeEdges_registers distributions generator store count⟩
  · have hsound := sound_of_reachable hs
    exact ⟨hsound.nodup, ⟨hsound.distinct, hsound.active⟩, fun _ hu _ hrun =>
      hsound.entries_run hu hrun⟩

def createTwice : List Label := [.createTask, .createTask, .insertActive 0]

/-- The second task is put into `active_tasks_` and taken out beside the first. -/
theorem ids_never_collide_twice :
    let s := machine.final {} createTwice
    let s' := machine.final s [.insertActive 1, .updateTaskStatus 1 2, .eraseActive 1]
    s.taskIds = ["T000001", "T000002"] ∧ s'.entries 0 = s.entries 0 := by
  obtain ⟨-, -, -, h⟩ := ids_never_collide steadyDistributions () {}
  have hs : machine.Reachable Below (machine.final {} createTwice) :=
    ⟨{}, ⟨rfl, rfl, rfl⟩, Machine.run_of_checks (by decide +kernel)⟩
  exact ⟨by decide +kernel,
    (h _ hs).2.2 0 (by decide +kernel) _ (Machine.run_of_checks (by decide +kernel))⟩

end EdgeAllocator.Identifiers
