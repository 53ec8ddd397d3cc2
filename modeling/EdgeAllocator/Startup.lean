import EdgeAllocator.Foundation.Machine
import Mathlib.Tactic.SplitIfs

/-! `start` of the HTTP server beside the server thread that it creates. What they share
is `running_` and `server_fd_`. -/
namespace EdgeAllocator.HttpApiServer

open Foundation

inductive Call where
  | socket
  | bind
  | listen
  deriving DecidableEq, Repr

/-- Where `start` stands. `pollFd` and `pollRunning` are the two loads in the condition of
its loop, in pass `i`. -/
inductive StartPc where
  | exchangeRunning
  | spawn
  | pollFd (i : Nat)
  | pollRunning (i : Nat)
  | sleep (i : Nat)
  | loadFd
  | returned (value : Bool)
  deriving DecidableEq, Repr

inductive ServePc where
  | notStarted
  | socket
  | storeFd (fd : Int)
  | checkFd
  | setsockopt
  | bind
  | listen
  | withdrawFd
  | close (fd : Int)
  | clearRunning
  | accepting
  | exited
  deriving DecidableEq, Repr

structure State where
  running : Bool
  serverFd : Int
  start : StartPc
  serve : ServePc
  /-- The calls that have succeeded in the server thread. -/
  succeeded : List Call
  deriving DecidableEq, Repr

/-- A stopped server on which `start` is called. `stop` leaves no descriptor behind unless
it overtook the server thread, so none is assumed. -/
structure Initial (s : State) : Prop where
  running : s.running = false
  start : s.start = .exchangeRunning
  serve : s.serve = .notStarted
  succeeded : s.succeeded = []

def startStep (s : State) : Option State :=
  match s.start with
  | .exchangeRunning =>
      some { s with running := true, start := if s.running then .returned true else .spawn }
  | .spawn => some { s with start := .pollFd 0, serve := .socket }
  | .pollFd i =>
      some { s with start := if i < 50 ∧ s.serverFd < 0 then .pollRunning i else .loadFd }
  | .pollRunning i => some { s with start := if s.running then .sleep i else .loadFd }
  | .sleep i => some { s with start := .pollFd (i + 1) }
  | .loadFd => some { s with start := .returned (0 ≤ s.serverFd) }
  | .returned _ => none

/-- A step of `serve`. A system call returns `result`; the port only goes into `bind`,
which may return anything. -/
def serveStep (result : Int) (s : State) : Option State :=
  match s.serve with
  | .notStarted => none
  | .socket =>
      some { s with
        serve := .storeFd result
        succeeded := if result < 0 then s.succeeded else s.succeeded ++ [.socket] }
  | .storeFd fd => some { s with serve := .checkFd, serverFd := fd }
  | .checkFd => some { s with serve := if s.serverFd < 0 then .clearRunning else .setsockopt }
  | .setsockopt => some { s with serve := .bind }
  | .bind =>
      if result < 0 then some { s with serve := .withdrawFd }
      else some { s with serve := .listen, succeeded := s.succeeded ++ [.bind] }
  | .listen =>
      if result < 0 then some { s with serve := .withdrawFd }
      else some { s with serve := .accepting, succeeded := s.succeeded ++ [.listen] }
  | .withdrawFd => some { s with serve := .close s.serverFd, serverFd := -1 }
  | .close _ => some { s with serve := .clearRunning }
  | .clearRunning => some { s with serve := .exited, running := false }
  -- the loop that accepts clients writes neither of the two
  | .accepting => none
  | .exited => none

inductive Label where
  | start
  | serve (result : Int)
  deriving DecidableEq, Repr

def step (s : State) : Label → Option State
  | .start => startStep s
  | .serve result => serveStep result s

def machine : Machine State Label := ⟨Initial, step⟩

/-- `start` has not reported success before the server listens. -/
def Reports (s : State) : Prop :=
  s.start = .returned true → ∀ call, call ∈ s.succeeded

/-- The stretches of the server thread in which a descriptor is published and the server
does not accept clients. `leftover` is what `server_fd_` held when `start` was called. -/
def InWindow (leftover : Int) (s : State) : Prop :=
  match s.serve with
  | .notStarted | .socket | .storeFd _ => 0 ≤ leftover
  | .checkFd => .socket ∈ s.succeeded
  | .setsockopt | .bind | .listen | .withdrawFd => True
  | .close _ | .clearRunning | .exited | .accepting => False

/-- The last load of the descriptor in `start` does not fall into such a stretch. -/
def LoadsOutside (leftover : Int) (s : State) : Label → Prop
  | .start => s.start = .loadFd → ¬ InWindow leftover s
  | .serve _ => True

def Progress (s : State) : Prop :=
  match s.serve with
  | .notStarted | .socket => s.succeeded = []
  | .storeFd fd => s.succeeded = if fd < 0 then [] else [.socket]
  | .checkFd => s.succeeded = if s.serverFd < 0 then [] else [.socket]
  | .setsockopt | .bind => s.succeeded = [.socket]
  | .listen => s.succeeded = [.socket, .bind]
  | .accepting => s.succeeded = [.socket, .bind, .listen]
  | .withdrawFd | .close _ | .clearRunning | .exited => .listen ∉ s.succeeded

def Published (leftover : Int) (s : State) : Prop :=
  match s.serve with
  | .notStarted | .socket | .storeFd _ => s.serverFd = leftover
  | .checkFd => True
  | .setsockopt | .bind | .listen | .withdrawFd | .accepting => 0 ≤ s.serverFd
  | .close _ | .clearRunning | .exited => s.serverFd < 0

structure Consistent (leftover : Int) (s : State) : Prop where
  progress : Progress s
  published : Published leftover s
  fresh : s.start = .exchangeRunning → s.running = false
  unspawned : s.start = .exchangeRunning ∨ s.start = .spawn → s.serve = .notStarted

theorem Initial.consistent {s : State} (h : Initial s) : Consistent s.serverFd s where
  progress := by
    unfold Progress
    rw [h.serve]
    exact h.succeeded
  published := by
    unfold Published
    rw [h.serve]
  fresh _ := h.running
  unspawned _ := h.serve

theorem Consistent.published_iff {leftover : Int} {s : State} (h : Consistent leftover s) :
    0 ≤ s.serverFd ↔ InWindow leftover s ∨ s.serve = .accepting := by
  have hpublished := h.published
  have hprogress := h.progress
  unfold Published at hpublished
  unfold Progress at hprogress
  unfold InWindow
  cases hserve : s.serve <;> simp only [hserve] at hpublished hprogress ⊢
  case notStarted | socket | storeFd => simp [hpublished]
  case checkFd =>
    rw [hprogress]
    split_ifs with hfd
    · simpa using hfd
    · simpa using hfd
  case close | clearRunning | exited => simpa using hpublished
  all_goals simpa using hpublished

theorem Progress.not_listening {s : State} (h : Progress s) (hserve : s.serve ≠ .accepting) :
    .listen ∉ s.succeeded := by
  unfold Progress at h
  cases hat : s.serve <;> simp only [hat] at h
  case accepting => exact absurd hat hserve
  case storeFd | checkFd => split_ifs at h <;> rw [h] <;> decide
  case withdrawFd | close | clearRunning | exited => exact h
  all_goals
    rw [h]
    decide

theorem Progress.all_succeeded_iff {s : State} (h : Progress s) :
    (∀ call, call ∈ s.succeeded) ↔ s.serve = .accepting := by
  constructor
  · intro hall
    by_contra hserve
    exact h.not_listening hserve (hall .listen)
  · intro haccepting call
    unfold Progress at h
    rw [haccepting] at h
    rw [h]
    cases call <;> decide

theorem Progress.serveStep {s t : State} {result : Int} (h : Progress s)
    (hstep : serveStep result s = some t) : Progress t := by
  unfold Progress at h
  unfold HttpApiServer.serveStep at hstep
  cases hserve : s.serve <;> simp only [hserve] at h hstep
  case notStarted | accepting | exited => cases hstep
  case socket =>
    cases hstep
    rw [h]
    rfl
  case bind =>
    split_ifs at hstep <;> cases hstep
    · show Call.listen ∉ s.succeeded
      rw [h]
      decide
    · show s.succeeded ++ [Call.bind] = [.socket, .bind]
      rw [h]
      rfl
  case listen =>
    split_ifs at hstep <;> cases hstep
    · show Call.listen ∉ s.succeeded
      rw [h]
      decide
    · show s.succeeded ++ [Call.listen] = [.socket, .bind, .listen]
      rw [h]
      rfl
  case checkFd =>
    cases hstep
    unfold Progress
    split_ifs at h ⊢ with hfd
    · show Call.listen ∉ s.succeeded
      rw [h]
      decide
    · exact h
  all_goals
    cases hstep
    exact h

theorem Published.serveStep {leftover : Int} {s t : State} {result : Int}
    (h : Published leftover s) (hstep : serveStep result s = some t) : Published leftover t := by
  unfold Published at h
  unfold HttpApiServer.serveStep at hstep
  cases hserve : s.serve <;> simp only [hserve] at h hstep
  case notStarted | accepting | exited => cases hstep
  case bind | listen =>
    split_ifs at hstep <;> cases hstep
    · exact h
    · exact h
  case storeFd fd =>
    cases hstep
    trivial
  case checkFd =>
    cases hstep
    unfold Published
    split_ifs with hfd
    · exact hfd
    · exact Int.not_lt.mp hfd
  case withdrawFd =>
    cases hstep
    show (-1 : Int) < 0
    decide
  all_goals
    cases hstep
    exact h

theorem serveStep_frame {s t : State} {result : Int} (hstep : serveStep result s = some t) :
    t.start = s.start ∧ s.serve ≠ .notStarted ∧ t.serve ≠ .notStarted := by
  unfold serveStep at hstep
  cases hserve : s.serve <;> simp only [hserve] at hstep
  case notStarted | accepting | exited => cases hstep
  case bind | listen => split_ifs at hstep <;> cases hstep <;> exact ⟨rfl, nofun, nofun⟩
  case checkFd =>
    cases hstep
    refine ⟨rfl, nofun, ?_⟩
    dsimp only
    split_ifs <;> exact nofun
  all_goals
    cases hstep
    exact ⟨rfl, nofun, nofun⟩

def StartPc.Polls : StartPc → Prop
  | .exchangeRunning | .spawn | .returned _ => False
  | .pollFd _ | .pollRunning _ | .sleep _ | .loadFd => True

inductive StartMove (s : State) : State → Prop where
  | exchangeRunning (h : s.start = .exchangeRunning) :
      StartMove s
        { s with running := true, start := if s.running then .returned true else .spawn }
  | spawn (h : s.start = .spawn) : StartMove s { s with start := .pollFd 0, serve := .socket }
  | poll {pc : StartPc} (h : s.start ≠ .loadFd) (hpc : pc.Polls) :
      StartMove s { s with start := pc }
  | loadFd (h : s.start = .loadFd) :
      StartMove s { s with start := .returned (0 ≤ s.serverFd) }

theorem startStep_move {s t : State} (hstep : startStep s = some t) : StartMove s t := by
  unfold startStep at hstep
  cases hpc : s.start with
  | exchangeRunning =>
      simp only [hpc] at hstep
      cases hstep
      exact .exchangeRunning hpc
  | spawn =>
      simp only [hpc] at hstep
      cases hstep
      exact .spawn hpc
  | pollFd i =>
      simp only [hpc] at hstep
      cases hstep
      exact .poll (by rw [hpc]; exact nofun) (by split_ifs <;> trivial)
  | pollRunning i =>
      simp only [hpc] at hstep
      cases hstep
      exact .poll (by rw [hpc]; exact nofun) (by split_ifs <;> trivial)
  | sleep i =>
      simp only [hpc] at hstep
      cases hstep
      exact .poll (by rw [hpc]; exact nofun) trivial
  | loadFd =>
      simp only [hpc] at hstep
      cases hstep
      exact .loadFd hpc
  | returned value =>
      simp only [hpc] at hstep
      cases hstep

theorem Consistent.step {leftover : Int} {s t : State} {label : Label}
    (h : Consistent leftover s) (hstep : step s label = some t) : Consistent leftover t := by
  cases label with
  | serve result =>
      obtain ⟨hstart, hspawned, -⟩ := serveStep_frame hstep
      have habsurd (hpc : t.start = .exchangeRunning ∨ t.start = .spawn) : False := by
        rw [hstart] at hpc
        exact hspawned (h.unspawned hpc)
      exact ⟨h.progress.serveStep hstep, h.published.serveStep hstep,
        fun hpc => (habsurd (Or.inl hpc)).elim, fun hpc => (habsurd hpc).elim⟩
  | start =>
      cases startStep_move hstep with
      | exchangeRunning hpc =>
          exact ⟨h.progress, h.published, fun hpc' => by dsimp only at hpc'; split_ifs at hpc',
            fun _ => h.unspawned (Or.inl hpc)⟩
      | spawn hpc =>
          refine ⟨?_, ?_, nofun, fun hpc' => by cases hpc' <;> contradiction⟩
          · have hprogress := h.progress
            unfold Progress at hprogress
            rw [h.unspawned (Or.inr hpc)] at hprogress
            exact hprogress
          · have hpublished := h.published
            unfold Published at hpublished
            rw [h.unspawned (Or.inr hpc)] at hpublished
            exact hpublished
      | @poll pc _ hpc =>
          refine ⟨h.progress, h.published, fun hpc' => ?_, fun hpc' => ?_⟩
          · dsimp only at hpc'
            subst hpc'
            exact hpc.elim
          · dsimp only at hpc'
            obtain rfl | rfl := hpc' <;> exact hpc.elim
      | loadFd _ =>
          exact ⟨h.progress, h.published, nofun, fun hpc' => by cases hpc' <;> contradiction⟩

theorem reports_step {leftover : Int} {s t : State} {label : Label} (h : Consistent leftover s)
    (hs : Reports s) (hstep : step s label = some t) :
    Reports t ↔ LoadsOutside leftover s label := by
  cases label with
  | serve result =>
      obtain ⟨hstart, -⟩ := serveStep_frame hstep
      refine iff_of_true (fun hreturned => ?_) trivial
      -- the server thread has no step left once the three calls have succeeded
      rw [hstart] at hreturned
      have haccepting := h.progress.all_succeeded_iff.mp (hs hreturned)
      unfold step serveStep at hstep
      rw [haccepting] at hstep
      cases hstep
  | start =>
      cases startStep_move hstep with
      | exchangeRunning hpc =>
          refine iff_of_true (fun hreturned => ?_) fun hload => ?_
          · dsimp only at hreturned
            rw [h.fresh hpc] at hreturned
            cases hreturned
          · cases hpc.symm.trans hload
      | spawn hpc =>
          exact iff_of_true nofun fun hload => by cases hpc.symm.trans hload
      | @poll pc hpc hpolls =>
          refine iff_of_true (fun hreturned => ?_) fun hload => absurd hload hpc
          dsimp only at hreturned
          subst hreturned
          exact hpolls.elim
      | loadFd hpc =>
          have hreported : Reports { s with start := .returned (0 ≤ s.serverFd) } ↔
              (0 ≤ s.serverFd → ∀ call, call ∈ s.succeeded) := by
            unfold Reports
            simp
          rw [hreported, h.progress.all_succeeded_iff, h.published_iff]
          constructor
          · intro hload _ hwindow
            have haccepting := hload (Or.inl hwindow)
            unfold InWindow at hwindow
            rw [haccepting] at hwindow
            exact hwindow
          · intro hload hpublished
            exact hpublished.resolve_left (hload hpc)

/-- In a run of the two threads `start` returns true only after `socket`, `bind` and
`listen` have succeeded, exactly if its last load falls outside of the stretches of the
server thread in which a descriptor is published too early or too late. -/
theorem start_reports_iff {labels : List Label} {s t : State} (hs : machine.initial s)
    (hexec : machine.exec s labels = some t) :
    machine.Along Reports s labels ↔ machine.Meets (LoadsOutside s.serverFd) s labels := by
  have hkeep {u v : State} {label : Label} (h : Consistent s.serverFd u)
      (_ : Machine.free u label) (hstep : machine.step u label = some v) :
      Consistent s.serverFd v := h.step hstep
  have hgood {u v : State} {label : Label} (h : Consistent s.serverFd u) (hu : Reports u)
      (_ : Machine.free u label) (hstep : machine.step u label = some v) :
      Reports v ↔ LoadsOutside s.serverFd u label := reports_step h hu hstep
  have hstart : Reports s := by
    intro hreturned
    rw [hs.start] at hreturned
    cases hreturned
  exact Machine.along_iff_meets hkeep hgood hexec Machine.meets_free hs.consistent hstart

def fresh : State where
  running := false
  serverFd := -1
  start := .exchangeRunning
  serve := .notStarted
  succeeded := []

theorem fresh_initial : Initial fresh := ⟨rfl, rfl, rfl, rfl⟩

def bindsInTime : List Label :=
  [.start, .start, .start, .start, .serve 3, .serve 0, .serve 0, .serve 0, .serve 0, .serve 0,
    .start, .start, .start]

theorem start_reports_iff_bindsInTime :
    machine.Along Reports fresh bindsInTime ↔ machine.Meets (LoadsOutside (-1)) fresh bindsInTime :=
  start_reports_iff fresh_initial (Machine.exec_final (by decide))

def bindsTooLate : List Label :=
  [.start, .start, .serve 3, .serve 0, .start, .start, .serve 0, .serve 0, .serve (-1), .serve 0,
    .serve 0, .serve 0]

/-- `start` has returned true, and the server thread has given up without listening. -/
theorem start_reports_too_early :
    ¬∀ s : State, machine.Reachable Machine.free s → Reports s := by
  intro h
  have hreports : Reports (machine.final fresh bindsTooLate) :=
    h _ (Machine.reachable_final fresh_initial (by decide))
  exact absurd (hreports (by decide) .listen) (by decide)

end EdgeAllocator.HttpApiServer
