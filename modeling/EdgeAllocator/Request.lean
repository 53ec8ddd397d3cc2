import EdgeAllocator.Configuration

/-! `handleClient` on a `PUT /api/configuration`: from the body of the request through
`applyConfiguration` to the answer. -/
namespace EdgeAllocator.Request

open Foundation Live

/-- What the request needs of the JSON library. An error is an exception with its text,
which may quote bytes of the body; `dumps` tells whether a text can be written, for `dump`
throws on what is not UTF-8. -/
structure JsonLibrary (Json : Type) where
  parse : List UInt8 → Except (List UInt8) Json
  valueBool : Json → String → Bool → Except (List UInt8) Bool
  valueString : Json → String → String → Except (List UInt8) String
  dumps : List UInt8 → Bool

structure Wanted where
  automatic : Bool
  allocation : String
  scheduling : String
  deriving DecidableEq, Repr

def extract {Json : Type} (library : JsonLibrary Json) (body : List UInt8) :
    Except (List UInt8) Wanted := do
  let input ← library.parse body
  let automatic ← library.valueBool input "automatic" false
  let allocation ← library.valueString input "allocation_strategy" "multi_constraint"
  let scheduling ← library.valueString input "scheduling_algorithm" "edf"
  return ⟨automatic, allocation, scheduling⟩

inductive Answer where
  | success (configuration : ConfigurationItem)
  | refused (error : String)
  | thrown (what : List UInt8)

def Answer.status : Answer → Nat
  | .success _ => 200
  | .refused _ => 400
  | .thrown _ => 400

inductive Pc where
  | received
  | calling (wanted : Wanted)
  | applying
  | asking
  | reporting
  | answered (answer : Answer)
  /-- An exception has left the handler. -/
  | terminated

structure State where
  live : Live.State
  body : List UInt8
  pc : Pc := .received

inductive Label where
  | request
  | other (label : Live.Label)

def requestStep {Json : Type} (library : JsonLibrary Json) (k : Nat) (s : State) :
    Option State :=
  match s.pc with
  | .received =>
      match extract library s.body with
      | .ok wanted => some { s with pc := .calling wanted }
      | .error what =>
          some { s with pc := if library.dumps what then .answered (.thrown what) else .terminated }
  | .calling wanted =>
      (Live.step s.live (.apply k wanted.automatic wanted.allocation wanted.scheduling)).map
        fun live => { s with live := live, pc := .applying }
  | .applying =>
      (Live.step s.live (.client k)).map fun live =>
        match s.live.clients k with
        | .returned (.ok ()) => { s with live := live, pc := .asking }
        | .returned (.error error) =>
            { s with live := live, pc := .answered (.refused error) }
        | _ => { s with live := live }
  | .asking =>
      (Live.step s.live (.report k)).map fun live => { s with live := live, pc := .reporting }
  | .reporting =>
      (Live.step s.live (.client k)).map fun live =>
        match s.live.clients k with
        | .reporting (.returned item) => { s with live := live, pc := .answered (.success item) }
        | _ => { s with live := live }
  | .answered _ => none
  | .terminated => none

def step {Json : Type} (library : JsonLibrary Json) (k : Nat) (s : State) :
    Label → Option State
  | .request => requestStep library k s
  | .other label => (Live.step s.live label).map fun live => { s with live := live }

/-- The request has arrived, and its thread is in no call. -/
structure Arrived (k : Nat) (s : State) : Prop where
  pc : s.pc = .received
  client : s.live.clients k = .idle

def machine {Json : Type} (library : JsonLibrary Json) (k : Nat) : Machine State Label :=
  ⟨Arrived k, step library k⟩

def isChoosing : ProcessingPc → Bool
  | .choosing _ _ => true
  | _ => false

/-- No step belongs to another change of the configuration, nor to another call of the
request's own thread. -/
def Alone (k : Nat) (s : State) : Label → Prop
  | .request => True
  | .other (.process _) => isChoosing s.live.processing = false
  | .other (.apply _ _ _ _) => False
  | .other (.report k') => k' ≠ k
  | .other (.client k') => k' ≠ k ∧ (s.live.clients k').isReporting = true
  | .other .start | .other .stop | .other .main | .other (.work _ _) => True

instance (k : Nat) (s : State) (label : Label) : Decidable (Alone k s label) := by
  unfold Alone
  split <;> infer_instance

/-- The settings are the ones that a manual request names. -/
structure Fulfils (wanted : Wanted) (settings : Settings) : Prop where
  automaticMode : settings.automaticMode = false
  strategy : settings.strategy = wanted.allocation
  schedulingName : settings.schedulingName = wanted.scheduling
  allocation : allocationFromString wanted.allocation = some settings.allocation
  scheduling : schedulingFromString wanted.scheduling = some settings.scheduling

def Failed : Pc → Prop
  | .answered answer => answer.status ≠ 200
  | .terminated => True
  | _ => False

def Applied (k : Nat) (s : State) : Prop :=
  match s.pc with
  | .applying => s.live.clients k = .returned (.ok ())
  | .asking | .reporting => True
  | .answered answer => answer.status = 200
  | .received | .calling _ | .terminated => False

def Wanted.Names (wanted : Wanted) (allocation : AllocationStrategy)
    (scheduling : SchedulingStrategy) : Prop :=
  allocationFromString wanted.allocation = some allocation ∧
    schedulingFromString wanted.scheduling = some scheduling

/-- What a call of `applyConfiguration` knows of the settings where it stands, if nobody
else changes them. -/
def Stands (wanted : Wanted) (before settings : Settings) : ClientPc → Prop
  | .idle | .reporting _ => False
  | .autoLock | .autoSet | .autoUnlock | .autoChoose _ => wanted.automatic = true
  | .manualLock allocation scheduling | .validate allocation scheduling =>
      allocation = wanted.allocation ∧ scheduling = wanted.scheduling ∧ settings = before
  | .setAllocation allocation scheduling => wanted.Names allocation scheduling
  | .setScheduling allocation scheduling =>
      wanted.Names allocation scheduling ∧ settings.allocation = allocation
  | .setAutomatic allocation scheduling =>
      wanted.Names allocation scheduling ∧ settings.allocation = allocation ∧
        settings.scheduling = scheduling
  | .nameAllocation allocation scheduling =>
      wanted.Names allocation scheduling ∧ settings.allocation = allocation ∧
        settings.scheduling = scheduling ∧ settings.automaticMode = false
  | .nameScheduling allocation scheduling =>
      wanted.Names allocation scheduling ∧ settings.allocation = allocation ∧
        settings.scheduling = scheduling ∧ settings.automaticMode = false ∧
        settings.strategy = wanted.allocation
  | .unlock (.ok ()) | .returned (.ok ()) =>
      wanted.automatic = false → Fulfils wanted settings
  | .unlock (.error _) | .returned (.error _) => settings = before

theorem stands_step {me : Thread} {wanted : Wanted} {before : Settings} {s t : Live.State}
    {pc pc' : ClientPc} (h : Stands wanted before s.settings pc)
    (hstep : clientStep me s pc = some (t, pc')) (hreturned : ∀ result, pc ≠ .returned result) :
    Stands wanted before t.settings pc' := by
  cases pc with
  | idle => exact h.elim
  | reporting pc => exact h.elim
  | autoLock =>
      obtain ⟨-, rfl, rfl⟩ := lock_pair hstep
      exact h
  | autoSet =>
      cases hstep
      exact h
  | autoUnlock =>
      cases hstep
      exact h
  | autoChoose pc =>
      obtain ⟨-, -, rfl⟩ | ⟨next, -, rfl⟩ := autoChoose_some hstep
      · intro hmanual
        cases hmanual.symm.trans h
      · exact h
  | manualLock allocation scheduling =>
      obtain ⟨-, rfl, rfl⟩ := lock_pair hstep
      exact h
  | validate allocation scheduling =>
      obtain ⟨rfl, rfl, hbefore⟩ := h
      simp only [clientStep] at hstep
      split at hstep <;> cases hstep
      · exact hbefore
      · exact hbefore
      · exact ⟨‹_›, ‹_›⟩
  | setAllocation allocation scheduling =>
      obtain ⟨pipe, hpipe, rfl, rfl⟩ := drive_pair hstep
      rw [settings_setAllocation hpipe]
      exact ⟨h, rfl⟩
  | setScheduling allocation scheduling =>
      obtain ⟨pipe, hpipe, rfl, rfl⟩ := drive_pair hstep
      rw [settings_setScheduling hpipe]
      exact ⟨h.1, h.2, rfl⟩
  | setAutomatic allocation scheduling =>
      cases hstep
      exact ⟨h.1, h.2.1, h.2.2, rfl⟩
  | nameAllocation allocation scheduling =>
      cases hstep
      obtain ⟨hnames, hallocation, hscheduling, hmanual⟩ := h
      exact ⟨hnames, hallocation, hscheduling, hmanual, allocationToString_fromString hnames.1⟩
  | nameScheduling allocation scheduling =>
      cases hstep
      obtain ⟨hnames, hallocation, hscheduling, hmanual, hstrategy⟩ := h
      intro _
      exact
        { automaticMode := hmanual
          strategy := hstrategy
          schedulingName := schedulingToString_fromString hnames.2
          allocation := hnames.1.trans (congrArg some hallocation.symm)
          scheduling := hnames.2.trans (congrArg some hscheduling.symm) }
  | unlock result =>
      cases hstep
      cases result with
      | ok value => exact h
      | error error => exact h
  | returned result => exact absurd rfl (hreturned result)

theorem settings_report {me : Thread} {s t : Live.State} {pc pc' : ClientPc}
    (h : clientStep me s pc = some (t, pc')) (hreporting : pc.isReporting = true) :
    t.settings = s.settings := by
  cases pc with
  | reporting pc =>
      obtain ⟨-, rfl, -⟩ | ⟨next, hstep, -⟩ := reporting_some h
      · rfl
      · obtain ⟨owner, rfl⟩ := reportStep_frame hstep
        rfl
  | _ => cases hreporting

theorem alone_frame {k : Nat} {s : State} {label : Live.Label} {live : Live.State}
    (hmove : Live.Move s.live label live) (halone : Alone k s (.other label)) :
    live.settings = s.live.settings ∧ live.clients k = s.live.clients k := by
  cases hmove with
  | enter _ _ _ _ _ => exact ⟨rfl, rfl⟩
  | main hmain => exact ⟨settings_mainMove hmain, by cases hmain <;> rfl⟩
  | process input hprocess =>
      refine ⟨settings_processMove hprocess fun i pc hchoosing => ?_,
        congrFun (processMove_clients hprocess) k⟩
      unfold Alone at halone
      rw [hchoosing] at halone
      cases halone
  | work e input hpipe =>
      exact ⟨settings_drive hpipe (by rintro _ ⟨⟩) (by rintro _ ⟨⟩), rfl⟩
  | apply _ _ _ _ _ _ => exact halone.elim
  | report k' _ =>
      have hne : k' ≠ k := halone
      exact ⟨rfl, Function.update_of_ne hne.symm _ _⟩
  | @client k' u pc hclient =>
      obtain ⟨hne, hreporting⟩ := halone
      have hsettings := settings_report hclient hreporting
      refine ⟨hsettings, ?_⟩
      show Function.update u.clients k' pc k = s.live.clients k
      rw [Function.update_of_ne hne.symm, (clientStep_threads hclient).clients]

def InEffect {Json : Type} (library : JsonLibrary Json) (s : State) : Prop :=
  ∀ wanted, extract library s.body = .ok wanted → wanted.automatic = false →
    Fulfils wanted s.live.settings

/-- What is known of the settings where the request stands; `before` are the settings with
which it has met the runtime. -/
def Settled {Json : Type} (library : JsonLibrary Json) (k : Nat) (before : Settings)
    (s : State) : Prop :=
  match s.pc with
  | .received => s.live.settings = before
  | .calling wanted => extract library s.body = .ok wanted ∧ s.live.settings = before
  | .applying =>
      ∃ wanted, extract library s.body = .ok wanted ∧
        Stands wanted before s.live.settings (s.live.clients k)
  | .asking | .answered (.success _) => InEffect library s
  | .reporting => InEffect library s ∧ (s.live.clients k).isReporting = true
  | .answered (.refused _) | .answered (.thrown _) | .terminated => s.live.settings = before

section Run

variable {Json : Type} {library : JsonLibrary Json} {k : Nat} {before : Settings} {s t : State}

theorem settled_applying {live : Live.State} {body : List UInt8}
    (h : Settled library k before ⟨live, body, .applying⟩)
    (hstep : requestStep library k ⟨live, body, .applying⟩ = some t) :
    Settled library k before t := by
  obtain ⟨wanted, hwanted, hstands⟩ := h
  obtain ⟨live', hlive, hnext⟩ := Option.map_eq_some_iff.mp hstep
  dsimp only at hstands hlive hnext
  obtain ⟨⟨u, pc⟩, hclient, hupdate⟩ := Option.map_eq_some_iff.mp hlive
  dsimp only at hupdate
  cases hpc : live.clients k with
  | returned result =>
      rw [hpc] at hclient hnext hstands
      cases hclient
      subst hupdate
      cases result with
      | ok value =>
          subst hnext
          intro wanted' hwanted'
          cases hwanted.symm.trans hwanted'
          exact hstands
      | error error =>
          subst hnext
          exact hstands
  | _ =>
      rw [hpc] at hclient hnext hstands
      subst hnext hupdate
      refine ⟨wanted, hwanted, ?_⟩
      show Stands wanted before u.settings (Function.update u.clients k pc k)
      rw [Function.update_self]
      exact stands_step hstands hclient nofun

theorem settled_reporting {live : Live.State} {body : List UInt8}
    (h : Settled library k before ⟨live, body, .reporting⟩)
    (hstep : requestStep library k ⟨live, body, .reporting⟩ = some t) :
    Settled library k before t := by
  obtain ⟨heffect, hreporting⟩ := h
  obtain ⟨live', hlive, hnext⟩ := Option.map_eq_some_iff.mp hstep
  dsimp only at hreporting hlive hnext
  obtain ⟨⟨u, pc⟩, hclient, hupdate⟩ := Option.map_eq_some_iff.mp hlive
  dsimp only at hupdate
  have hsettings : live'.settings = live.settings := by
    have hsame := settings_report hclient hreporting
    rw [← hupdate]
    exact hsame
  have hkept {pc : Pc} : InEffect library ⟨live', body, pc⟩ := by
    unfold InEffect at heffect ⊢
    rw [hsettings]
    exact heffect
  cases hpc : live.clients k with
  | reporting report =>
      rw [hpc] at hclient hnext
      obtain ⟨⟨item, rfl⟩, -, -⟩ | ⟨next, hreport, rfl⟩ := reporting_some hclient
      · subst hnext
        exact hkept
      · cases report with
        | returned item => cases hreport
        | _ =>
            subst hnext hupdate
            refine ⟨hkept, ?_⟩
            show (Function.update u.clients k (.reporting next) k).isReporting = true
            rw [Function.update_self]
            rfl
  | _ =>
      rw [hpc] at hreporting
      cases hreporting

theorem settled_request (h : Settled library k before s)
    (hstep : requestStep library k s = some t) : Settled library k before t := by
  obtain ⟨live, body, pc⟩ := s
  cases pc with
  | received =>
      unfold requestStep at hstep
      dsimp only at hstep
      cases hextract : extract library body with
      | error what =>
          rw [hextract] at hstep
          cases hstep
          unfold Settled
          dsimp only
          split_ifs
          · exact h
          · exact h
      | ok wanted =>
          rw [hextract] at hstep
          cases hstep
          exact ⟨hextract, h⟩
  | calling wanted =>
      obtain ⟨hwanted, hbefore⟩ := h
      obtain ⟨live', hlive, rfl⟩ := Option.map_eq_some_iff.mp hstep
      refine ⟨wanted, hwanted, ?_⟩
      cases hidle : live.clients k with
      | idle =>
          simp only [Live.step, hidle] at hlive
          cases hlive
          show Stands wanted before live.settings (Function.update live.clients k _ k)
          rw [Function.update_self]
          split_ifs with hautomatic
          · exact hautomatic
          · exact ⟨rfl, rfl, hbefore⟩
      | _ =>
          simp only [Live.step, hidle] at hlive
          cases hlive
  | applying => exact settled_applying h hstep
  | asking =>
      obtain ⟨live', hlive, rfl⟩ := Option.map_eq_some_iff.mp hstep
      cases hidle : live.clients k with
      | idle =>
          simp only [Live.step, hidle] at hlive
          cases hlive
          refine ⟨h, ?_⟩
          show (Function.update live.clients k (.reporting .lock) k).isReporting = true
          rw [Function.update_self]
          rfl
      | _ =>
          simp only [Live.step, hidle] at hlive
          cases hlive
  | reporting => exact settled_reporting h hstep
  | answered answer => cases hstep
  | terminated => cases hstep

theorem settled_other {label : Live.Label} {live : Live.State}
    (h : Settled library k before s) (hlive : Live.step s.live label = some live)
    (halone : Alone k s (.other label)) : Settled library k before { s with live := live } := by
  obtain ⟨hsettings, hclients⟩ := alone_frame (Live.step_move hlive) halone
  unfold Settled InEffect at h ⊢
  rw [hsettings, hclients]
  exact h

theorem body_eq {label : Label} (hstep : step library k s label = some t) : t.body = s.body := by
  cases label with
  | other label =>
      obtain ⟨live, -, rfl⟩ := Option.map_eq_some_iff.mp hstep
      rfl
  | request =>
      unfold step requestStep at hstep
      dsimp only at hstep
      split at hstep
      · split at hstep <;> cases hstep <;> rfl
      · obtain ⟨live, -, rfl⟩ := Option.map_eq_some_iff.mp hstep
        rfl
      · obtain ⟨live, -, rfl⟩ := Option.map_eq_some_iff.mp hstep
        split <;> rfl
      · obtain ⟨live, -, rfl⟩ := Option.map_eq_some_iff.mp hstep
        rfl
      · obtain ⟨live, -, rfl⟩ := Option.map_eq_some_iff.mp hstep
        split <;> rfl
      · cases hstep
      · cases hstep

theorem settled_run (hs : Arrived k s) (hrun : (machine library k).Run (Alone k) s t) :
    Settled library k s.live.settings t ∧ t.body = s.body := by
  have hkeep {u v : State} {label : Label}
      (h : Settled library k s.live.settings u ∧ u.body = s.body) (halone : Alone k u label)
      (hstep : (machine library k).step u label = some v) :
      Settled library k s.live.settings v ∧ v.body = s.body := by
    refine ⟨?_, (body_eq hstep).trans h.2⟩
    cases label with
    | request => exact settled_request h.1 hstep
    | other label =>
        obtain ⟨live, hlive, rfl⟩ := Option.map_eq_some_iff.mp hstep
        exact settled_other h.1 hlive halone
  have hstart : Settled library k s.live.settings s := by
    unfold Settled
    rw [hs.pc]
  exact hrun.preserves hkeep ⟨hstart, rfl⟩

end Run

/-- A request to change the configuration does so wholly or not at all: unless the answer
is 200 all settings are as before, and once a manual request has released the mutex with
success they are the ones that it names. -/
theorem configuration_all_or_nothing {Json : Type} (library : JsonLibrary Json) (k : Nat)
    {s t : State} (hs : (machine library k).initial s)
    (hrun : (machine library k).Run (Alone k) s t) :
    (Failed t.pc → t.live.settings = s.live.settings) ∧
      ∀ wanted, extract library s.body = .ok wanted → wanted.automatic = false →
        Applied k t → Fulfils wanted t.live.settings := by
  obtain ⟨h, hbody⟩ := settled_run hs hrun
  unfold Settled at h
  unfold Applied
  constructor
  · intro hfailed
    cases hpc : t.pc <;> rw [hpc] at h hfailed
    case answered answer =>
      cases answer with
      | success _ => exact absurd rfl hfailed
      | refused _ => exact h
      | thrown _ => exact h
    case terminated => exact h
    all_goals exact hfailed.elim
  · intro wanted hwanted hmanual happlied
    rw [← hbody] at hwanted
    cases hpc : t.pc <;> rw [hpc] at h happlied
    case applying =>
      obtain ⟨wanted', hwanted', hstands⟩ := h
      cases hwanted.symm.trans hwanted'
      rw [happlied] at hstands
      exact hstands hmanual
    case asking => exact h wanted hwanted hmanual
    case reporting => exact h.1 wanted hwanted hmanual
    case answered answer =>
      cases answer with
      | success _ => exact h wanted hwanted hmanual
      | refused _ => cases happlied
      | thrown _ => cases happlied
    all_goals exact happlied.elim

def emptyObject : JsonLibrary Unit where
  parse body := if body = [0x7b, 0x7d] then .ok () else .error []
  valueBool _ _ fallback := .ok fallback
  valueString _ _ fallback := .ok fallback
  dumps _ := true

def defaultsRequested : State where
  live := singleRuntime true .multiConstraint .priorityBased
  body := [0x7b, 0x7d]

def answerDefaults : List Label :=
  [.request, .request, .request, .other .start, .other .main] ++ List.replicate 17 .request

theorem configuration_all_or_nothing_defaults :
    let t := (machine emptyObject 0).final defaultsRequested answerDefaults
    (Failed t.pc → t.live.settings = defaultsRequested.live.settings) ∧
      ∀ wanted, extract emptyObject defaultsRequested.body = .ok wanted →
        wanted.automatic = false → Applied 0 t → Fulfils wanted t.live.settings :=
  configuration_all_or_nothing emptyObject 0 ⟨rfl, rfl⟩
    (Machine.run_of_checks (by decide +kernel))

end EdgeAllocator.Request
