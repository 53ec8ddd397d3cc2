import EdgeAllocator.Reallocation

/-! The status of a task in memory beside the one in the `tasks` table, when nodes fail
and their queues are reallocated. -/
namespace EdgeAllocator.Agreement

open Foundation Allocator Controller

inductive Label where
  | allocateTaskNow (t : TaskRef)
  | simulateNodeFailure (e : EdgeId)
  | recoverNodeFromFailure (e : EdgeId)
  | enqueueTask (task : TaskPtr) (e : EdgeId)

def step (s : State) : Label → Option State
  | .allocateTaskNow t => (Controller.allocateTaskNow t s).map Prod.fst
  | .simulateNodeFailure e => Controller.simulateNodeFailure e s
  | .recoverNodeFromFailure e => Controller.recoverNodeFromFailure e s
  | .enqueueTask task e =>
      some { s with world := s.world.modifyNode e (EdgeNode.enqueueTask task) }

def record (w : World) (t : TaskRef) : TaskStatus × Option TaskStatus :=
  ((w.task t).status, w.database.taskStatus t)

def Consistent (pair : TaskStatus × Option TaskStatus) : Prop :=
  pair.2 = none ∨ pair.2 = some pair.1

def Agree (s : State) : Prop := ∀ t, Consistent (record s.world t)

def machine : Machine State Label := ⟨Agree, step⟩

/-- What one pass of the loop makes of the two, with the outcome of the allocation.
`allocateTask` writes to the table on success, and nobody does on failure. -/
def settle (pair : TaskStatus × Option TaskStatus) (success : Bool) :
    TaskStatus × Option TaskStatus :=
  if success then (.queued, pair.2.map fun _ => .queued) else (.reallocated, pair.2)

def attempts (e : EdgeId) : Nat → State → List (TaskRef × Bool)
  | 0, _ => []
  | n + 1, s =>
      if (s.world.node e).hasTasksInQueue then
        let rest := { s with world := s.world.modifyNode e fun node => node.dequeueTask.2 }
        match (s.world.node e).dequeueTask.1 with
        | none => attempts e n rest
        | some t => (t, !(getViableEdges rest.world t).isEmpty) ::
            ((reallocateTask t rest).map (attempts e n)).getD []
      else []

def outcomesOf (t : TaskRef) (attempts : List (TaskRef × Bool)) : List Bool :=
  attempts.filterMap fun attempt => if attempt.1 = t then some attempt.2 else none

def Settled (outcomes : List Bool) (stored : Option TaskStatus) : Prop :=
  stored = none ∨ outcomes.getLast? ≠ some false ∨
    true ∉ outcomes ∧ stored = some .reallocated

/-- Whether an edge is viable for a task of the queue, each time that it is dequeued
when the node fails. -/
def failureOutcomes (e : EdgeId) (s : State) (t : TaskRef) : List Bool :=
  outcomesOf t (attempts e (s.world.node e).getQueueLength (markFailed e s))

/-- When a node fails, an edge is viable for each saved task in its queue at the time
that the task is dequeued last. -/
def Rehomed (s : State) : Label → Prop
  | .simulateNodeFailure e => e ∈ s.world.fleet.ids →
      ∀ t, Settled (failureOutcomes e s t) (s.world.database.taskStatus t)
  | _ => True

instance (pair : TaskStatus × Option TaskStatus) : Decidable (Consistent pair) :=
  inferInstanceAs (Decidable (_ ∨ _))

section Settle

variable {pair : TaskStatus × Option TaskStatus} {outcomes : List Bool}

theorem foldl_settle_stored :
    (outcomes.foldl settle pair).2 =
      if true ∈ outcomes then pair.2.map fun _ => .queued else pair.2 := by
  induction outcomes generalizing pair with
  | nil => rfl
  | cons outcome outcomes ih =>
      rw [List.foldl_cons, ih]
      obtain ⟨status, stored⟩ := pair
      cases outcome with
      | true => cases stored <;> simp [settle]
      | false => simp [settle]

theorem consistent_settle_true (pair : TaskStatus × Option TaskStatus) :
    Consistent (settle pair true) := by
  obtain ⟨status, stored⟩ := pair
  cases stored with
  | none => exact Or.inl rfl
  | some stored => exact Or.inr rfl

theorem consistent_foldl_settle_iff (h : Consistent pair) :
    Consistent (outcomes.foldl settle pair) ↔ Settled outcomes pair.2 := by
  rcases List.eq_nil_or_concat outcomes with rfl | ⟨before, last, rfl⟩
  · exact iff_of_true h (Or.inr (Or.inl (by simp)))
  · rw [List.concat_eq_append, List.foldl_append]
    cases last with
    | true => exact iff_of_true (consistent_settle_true _) (Or.inr (Or.inl (by simp)))
    | false =>
        -- The status in memory is `REALLOCATED` now, and the table is as it was.
        have hfalse : Consistent ([false].foldl settle (before.foldl settle pair)) ↔
            (before.foldl settle pair).2 = none ∨
              (before.foldl settle pair).2 = some .reallocated := Iff.rfl
        rw [hfalse, foldl_settle_stored]
        unfold Settled
        by_cases hsuccess : true ∈ before
        · cases pair.2 <;> simp [hsuccess]
        · simp [hsuccess]

end Settle

theorem allocateTask_record {w w' : World} {t : TaskRef} {result : AllocationResult}
    (h : allocateTask w t = some (w', result)) :
    (getViableEdges w t = [] ∧ ∀ u, record w' u = record w u) ∨
      getViableEdges w t ≠ [] ∧
        record w' t = (.queued, (w.database.taskStatus t).map fun _ => .queued) ∧
        ∀ u ≠ t, record w' u = record w u := by
  obtain ⟨⟨w₁, result₁⟩, hdispatch, hnext⟩ := Option.bind_eq_some_iff.mp h
  cases dispatch_attempt hdispatch with
  | refuse hnone =>
      cases hnext
      exact Or.inl ⟨hnone, fun _ => rfl⟩
  | reserve index hviable =>
      cases hnext
      refine Or.inr ⟨List.ne_nil_of_mem hviable, ?_, fun u hu => ?_⟩
      · simp [record, World.modifyDatabase, World.modifyTask, Database.updateTaskStatus, assignTask,
          Task.setStatus, World.modifyNode, World.modifyAllocator]
      · simp [record, World.modifyDatabase, World.modifyTask, Database.updateTaskStatus,
          World.modifyNode, World.modifyAllocator, hu]

theorem reallocateTask_record {t : TaskRef} {s s' : State} (h : reallocateTask t s = some s') :
    record s'.world t = settle (record s.world t) (!(getViableEdges s.world t).isEmpty) ∧
      ∀ u ≠ t, record s'.world u = record s.world u := by
  obtain ⟨⟨v, result⟩, hnow, hnext⟩ := Option.map_eq_some_iff.mp h
  obtain ⟨hallocate, -, -⟩ := allocateTaskNow_some hnow
  cases hnext
  have hothers (u : TaskRef) (hu : u ≠ t) :
      record (markReallocated t s.world) u = record s.world u := by
    unfold record markReallocated
    rw [World.modifyTask_of_ne _ _ hu]
    rfl
  rcases allocateTask_record hallocate with ⟨hnone, hsame⟩ | ⟨hviable, hself, hsame⟩
  · have hempty : getViableEdges s.world t = [] := hnone
    refine ⟨?_, fun u hu => (hsame u).trans (hothers u hu)⟩
    refine (hsame t).trans ?_
    rw [hempty]
    unfold record markReallocated
    rw [World.modifyTask_self]
    rfl
  · have hnonempty : getViableEdges s.world t ≠ [] := hviable
    refine ⟨hself.trans ?_, fun u hu => (hsame u hu).trans (hothers u hu)⟩
    rw [List.isEmpty_eq_false_iff.mpr hnonempty]
    rfl

theorem outcomesOf_cons_self (t : TaskRef) (success : Bool) (rest : List (TaskRef × Bool)) :
    outcomesOf t ((t, success) :: rest) = success :: outcomesOf t rest := by
  simp [outcomesOf]

theorem outcomesOf_cons_ne {t u : TaskRef} (h : u ≠ t) (success : Bool)
    (rest : List (TaskRef × Bool)) : outcomesOf t ((u, success) :: rest) = outcomesOf t rest := by
  simp [outcomesOf, h]

theorem reallocateLoop_record {e : EdgeId} {n : Nat} {s s' : State}
    (h : reallocateLoop e n s = some s') (t : TaskRef) :
    record s'.world t = (outcomesOf t (attempts e n s)).foldl settle (record s.world t) := by
  induction n generalizing s with
  | zero =>
      cases h
      rfl
  | succ n ih =>
      unfold reallocateLoop at h
      unfold attempts
      by_cases hmore : (s.world.node e).hasTasksInQueue = true
      · rw [if_pos hmore] at h ⊢
        cases hfront : (s.world.node e).dequeueTask.1 with
        | none =>
            simp only [hfront] at h
            exact ih h
        | some u =>
            simp only [hfront] at h
            obtain ⟨v, hpass, hloop⟩ := Option.bind_eq_some_iff.mp h
            obtain ⟨hself, hothers⟩ := reallocateTask_record hpass
            have hrest := ih hloop
            simp only [hpass, Option.map_some, Option.getD_some]
            by_cases hu : u = t
            · rw [hu] at hself ⊢
              rw [outcomesOf_cons_self, List.foldl_cons, hrest, hself]
              rfl
            · rw [outcomesOf_cons_ne hu, hrest, hothers t (Ne.symm hu)]
              rfl
      · rw [if_neg hmore] at h ⊢
        cases h
        rfl

theorem simulateNodeFailure_of_mem {e : EdgeId} {s : State} (he : e ∈ s.world.fleet.ids) :
    simulateNodeFailure e s =
      reallocateLoop e (s.world.node e).getQueueLength (markFailed e s) := by
  unfold simulateNodeFailure
  rw [getEdgeNode_of_mem he]
  simp only [onNodeStatusChanged, handleNodeFailure, reallocateTasksFromFailedNode,
    Bool.false_eq_true, if_false, World.modifyNode_self,
    getEdgeNode_of_mem (show e ∈ (s.world.modifyNode e _).fleet.ids from he),
    EdgeNode.getQueueLength, EdgeNode.setAvailable_taskQueue]
  rfl

theorem simulateNodeFailure_of_not {e : EdgeId} {s : State} (he : e ∉ s.world.fleet.ids) :
    simulateNodeFailure e s = some s := by
  unfold simulateNodeFailure
  rw [getEdgeNode_of_not he]

theorem Agree.of_record {s s' : State} (h : Agree s)
    (hsame : ∀ t, record s'.world t = record s.world t) : Agree s' :=
  fun t => (hsame t).symm ▸ h t

theorem Agree.allocateTaskNow {s s' : State} {t : TaskRef} {result : AllocationResult}
    (h : Agree s) (hnow : Controller.allocateTaskNow t s = some (s', result)) : Agree s' := by
  obtain ⟨hallocate, -, -⟩ := allocateTaskNow_some hnow
  rcases allocateTask_record hallocate with ⟨-, hsame⟩ | ⟨-, hself, hsame⟩
  · exact h.of_record hsame
  · intro u
    by_cases hu : u = t
    · subst hu
      rw [hself]
      exact consistent_settle_true (record s.world u)
    · rw [hsame u hu]
      exact h u

theorem Agree.fail_iff {s s' : State} {e : EdgeId} (h : Agree s) (he : e ∈ s.world.fleet.ids)
    (hfail : simulateNodeFailure e s = some s') :
    Agree s' ↔ ∀ t, Settled (failureOutcomes e s t) (s.world.database.taskStatus t) := by
  rw [simulateNodeFailure_of_mem he] at hfail
  apply forall_congr'
  intro t
  rw [reallocateLoop_record hfail]
  exact consistent_foldl_settle_iff (h t)

theorem recoverNodeFromFailure_record {e : EdgeId} {s s' : State}
    (h : recoverNodeFromFailure e s = some s') (t : TaskRef) :
    record s'.world t = record s.world t := by
  unfold recoverNodeFromFailure onNodeStatusChanged at h
  split at h
  · cases h
    rfl
  · cases h
    rfl

theorem agree_step {s s' : State} {label : Label} (h : Agree s) (hstep : step s label = some s') :
    Agree s' ↔ Rehomed s label := by
  cases label with
  | allocateTaskNow t =>
      obtain ⟨⟨v, result⟩, hnow, hnext⟩ := Option.map_eq_some_iff.mp hstep
      cases hnext
      exact iff_of_true (h.allocateTaskNow hnow) trivial
  | simulateNodeFailure e =>
      by_cases he : e ∈ s.world.fleet.ids
      · rw [h.fail_iff he hstep]
        exact ⟨fun hsettled _ => hsettled, fun hrehomed => hrehomed he⟩
      · cases (simulateNodeFailure_of_not he).symm.trans hstep
        exact iff_of_true h fun hmem => absurd hmem he
  | recoverNodeFromFailure e =>
      exact iff_of_true (h.of_record (recoverNodeFromFailure_record hstep)) trivial
  | enqueueTask task e =>
      cases hstep
      exact iff_of_true (h.of_record fun _ => rfl) trivial

/-- In a run of any length over any fleet and any queues, table and memory agree
between all operations exactly if every failure rehomes the tasks that it takes. -/
theorem agree_iff_rehomed {labels : List Label} {s t : State} (hs : machine.initial s)
    (hexec : machine.exec s labels = some t) :
    machine.Along Agree s labels ↔ machine.Meets Rehomed s labels := by
  have hinv {u v : State} {label : Label} (_ : True) (_ : Machine.free u label)
      (_ : machine.step u label = some v) : True := trivial
  have hagree {u v : State} {label : Label} (_ : True) (h : Agree u) (_ : Machine.free u label)
      (hstep : machine.step u label = some v) : Agree v ↔ Rehomed u label := agree_step h hstep
  exact Machine.along_iff_meets hinv hagree hexec Machine.meets_free trivial hs

def savedPair : State :=
  { bootPair with world := bootPair.world.modifyDatabase fun database =>
      { database with taskStatus := fun _ => some .created } }

theorem savedPair_agree : Agree savedPair := fun _ => Or.inr rfl

def failFirst : List Label :=
  [.allocateTaskNow 0, .enqueueTask (some 0) "E01", .simulateNodeFailure "E02",
    .simulateNodeFailure "E01"]

theorem agree_iff_rehomed_failFirst :
    machine.Along Agree savedPair failFirst ↔ machine.Meets Rehomed savedPair failFirst :=
  agree_iff_rehomed savedPair_agree (Machine.exec_final (by decide +kernel))

/-- No node is left for the queued task: it is `REALLOCATED` in memory and `QUEUED` in
the table. -/
theorem failure_disagrees :
    ¬∀ (labels : List Label) (s t : State), machine.initial s →
      machine.exec s labels = some t → machine.Along Agree s labels := by
  intro h
  have hexec : machine.exec savedPair failFirst = some _ := Machine.exec_final (by decide +kernel)
  have hlast : Agree _ := (h _ _ _ savedPair_agree hexec).last hexec
  exact absurd (hlast 0) (by decide +kernel)

end EdgeAllocator.Agreement
