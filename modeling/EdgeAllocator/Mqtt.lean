import EdgeAllocator.Foundation.Machine
import Mathlib.Logic.Function.Basic
import Mathlib.Data.List.Basic

/-! `MqttClient`: which client handles a message. The adapter that Paho calls is a
static variable of `registerMessageCallback`, so all clients share the one that the
first call constructs. -/
namespace EdgeAllocator.Mqtt

open Foundation

abbrev ClientId := Nat

variable {Json Callback : Type}

structure Client (Callback : Type) where
  messageCallback : Option Callback := none
  /-- `set_callback` was called on the Paho object of the client. -/
  callbackSet : Bool := false
  messagesReceived : Nat := 0

structure Delivery (Json Callback : Type) where
  callback : Callback
  topic : String
  payload : Json

/-- `adapter` is the `owner_` of the static adapter, `none` before it is constructed.
The members of a client to come have their initial values. -/
structure State (Json Callback : Type) where
  constructed : Nat := 0
  client : ClientId → Client Callback := fun _ => {}
  adapter : Option ClientId := none
  deliveries : List (Delivery Json Callback) := []

inductive Label (Callback : Type) where
  | construct
  | registerMessageCallback (c : ClientId) (callback : Option Callback)
  | messageArrived (c : ClientId) (topic rawPayload : String)

def State.modifyClient (c : ClientId) (f : Client Callback → Client Callback)
    (s : State Json Callback) : State Json Callback :=
  { s with client := Function.update s.client c (f (s.client c)) }

def onMessageArrived (parse : String → Option Json) (c : ClientId) (topic rawPayload : String)
    (s : State Json Callback) : State Json Callback :=
  let s := s.modifyClient c fun client =>
    { client with messagesReceived := client.messagesReceived + 1 }
  match (s.client c).messageCallback with
  | none => s
  | some callback =>
      match parse rawPayload with
      | none => s
      | some payload => { s with deliveries := s.deliveries ++ [⟨callback, topic, payload⟩] }

/-- The static adapter is constructed by the first call and kept by all later ones. -/
def registerMessageCallback (c : ClientId) (callback : Option Callback)
    (s : State Json Callback) : State Json Callback :=
  { s.modifyClient c fun client =>
      { client with messageCallback := callback, callbackSet := true } with
    adapter := some (s.adapter.getD c) }

def messageArrived (parse : String → Option Json) (c : ClientId) (topic rawPayload : String)
    (s : State Json Callback) : State Json Callback :=
  if (s.client c).callbackSet then
    match s.adapter with
    | none => s
    | some owner => onMessageArrived parse owner topic rawPayload s
  else s

def step (parse : String → Option Json) (s : State Json Callback) :
    Label Callback → Option (State Json Callback)
  | .construct => some { s with constructed := s.constructed + 1 }
  | .registerMessageCallback c callback =>
      if c < s.constructed then some (registerMessageCallback c callback s) else none
  | .messageArrived c topic rawPayload =>
      if c < s.constructed then some (messageArrived parse c topic rawPayload s) else none

def machine (parse : String → Option Json) : Machine (State Json Callback) (Label Callback) :=
  ⟨fun s => s = {}, step parse⟩

/-- The message goes to the callback that its own client has at that time, if it has
one, and counts for no other client. -/
structure Reaches (s : State Json Callback) (c : ClientId) (topic : String) (payload : Json)
    (s' : State Json Callback) : Prop where
  delivered : s'.deliveries = s.deliveries ++
    ((s.client c).messageCallback.map fun callback => ⟨callback, topic, payload⟩).toList
  counted : (s.client c).callbackSet = true →
    (s'.client c).messagesReceived = (s.client c).messagesReceived + 1
  others : ∀ d ≠ c, (s'.client d).messagesReceived = (s.client d).messagesReceived

/-- A well-formed message that the step brings reaches its own client. -/
def ReachesOwn (parse : String → Option Json) (s : State Json Callback) : Label Callback → Prop
  | .messageArrived c topic rawPayload => ∀ payload, parse rawPayload = some payload →
      ∀ s', step parse s (.messageArrived c topic rawPayload) = some s' →
        Reaches s c topic payload s'
  | _ => True

/-- It comes in at the client that the adapter is bound to. -/
def AtOwner (parse : String → Option Json) (s : State Json Callback) : Label Callback → Prop
  | .messageArrived c _ rawPayload => (parse rawPayload).isSome = true →
      (s.client c).callbackSet = true → s.adapter = some c
  | _ => True

/-- A callback comes with a call on the Paho object, and that with the adapter. -/
structure Sound (s : State Json Callback) : Prop where
  callback : ∀ c, (s.client c).messageCallback ≠ none → (s.client c).callbackSet = true
  adapter : ∀ c, (s.client c).callbackSet = true → s.adapter ≠ none

variable {parse : String → Option Json} {s s' : State Json Callback} {c : ClientId}
  {topic rawPayload : String}

theorem onMessageArrived_client :
    (onMessageArrived parse c topic rawPayload s).client =
      Function.update s.client c
        { s.client c with messagesReceived := (s.client c).messagesReceived + 1 } := by
  unfold onMessageArrived
  simp only
  split
  · rfl
  · split <;> rfl

theorem onMessageArrived_adapter :
    (onMessageArrived parse c topic rawPayload s).adapter = s.adapter := by
  unfold onMessageArrived
  simp only
  split
  · rfl
  · split <;> rfl

theorem onMessageArrived_deliveries {payload : Json} (h : parse rawPayload = some payload) :
    (onMessageArrived parse c topic rawPayload s).deliveries = s.deliveries ++
      ((s.client c).messageCallback.map fun callback => ⟨callback, topic, payload⟩).toList := by
  unfold onMessageArrived State.modifyClient
  simp only [Function.update_self, h]
  cases (s.client c).messageCallback with
  | none => exact (List.append_nil _).symm
  | some callback => rfl

theorem onMessageArrived_callback (d : ClientId) :
    ((onMessageArrived parse c topic rawPayload s).client d).messageCallback =
        (s.client d).messageCallback ∧
      ((onMessageArrived parse c topic rawPayload s).client d).callbackSet =
        (s.client d).callbackSet := by
  rw [onMessageArrived_client]
  by_cases hd : d = c
  · subst hd
    rw [Function.update_self]
    exact ⟨rfl, rfl⟩
  · rw [Function.update_of_ne hd]
    exact ⟨rfl, rfl⟩

theorem onMessageArrived_received_ne {d : ClientId} (h : d ≠ c) :
    ((onMessageArrived parse c topic rawPayload s).client d).messagesReceived =
      (s.client d).messagesReceived := by
  rw [onMessageArrived_client, Function.update_of_ne h]

theorem onMessageArrived_reaches {payload : Json} (h : parse rawPayload = some payload) :
    Reaches s c topic payload (onMessageArrived parse c topic rawPayload s) where
  delivered := onMessageArrived_deliveries h
  counted := fun _ => by rw [onMessageArrived_client, Function.update_self]
  others := fun _ hd => onMessageArrived_received_ne hd

theorem Sound.reaches_unset (hs : Sound s) (h : ¬ (s.client c).callbackSet = true)
    (payload : Json) : Reaches s c topic payload s where
  delivered := by
    have hcallback : (s.client c).messageCallback = none := by
      by_contra hne
      exact h (hs.callback c hne)
    rw [hcallback]
    exact (List.append_nil _).symm
  counted := fun hset => absurd hset h
  others := fun _ _ => rfl

theorem Sound.initial : Sound ({} : State Json Callback) where
  callback := fun _ h => absurd rfl h
  adapter := fun _ h => absurd h (by simp)

theorem Sound.messageArrived (h : Sound s) : Sound (messageArrived parse c topic rawPayload s) := by
  unfold Mqtt.messageArrived
  split
  · split
    · exact h
    · constructor
      · intro d
        rw [(onMessageArrived_callback d).1, (onMessageArrived_callback d).2]
        exact h.callback d
      · intro d
        rw [(onMessageArrived_callback d).2, onMessageArrived_adapter]
        exact h.adapter d
  · exact h

theorem Sound.registerMessageCallback (h : Sound s) (callback : Option Callback) :
    Sound (registerMessageCallback c callback s) := by
  refine ⟨fun d hd => ?_, fun _ _ => Option.some_ne_none _⟩
  unfold Mqtt.registerMessageCallback State.modifyClient at hd ⊢
  by_cases hdc : d = c
  · subst hdc
    simp
  · simp only [Function.update_of_ne hdc] at hd ⊢
    exact h.callback d hd

theorem Sound.step {label : Label Callback} (h : Sound s) (hstep : step parse s label = some s') :
    Sound s' := by
  cases label with
  | construct =>
      cases hstep
      exact ⟨h.callback, h.adapter⟩
  | registerMessageCallback c callback =>
      obtain ⟨-, hs'⟩ := Option.ite_none_right_eq_some.mp hstep
      cases hs'
      exact h.registerMessageCallback callback
  | messageArrived c topic rawPayload =>
      obtain ⟨-, hs'⟩ := Option.ite_none_right_eq_some.mp hstep
      cases hs'
      exact h.messageArrived

theorem Sound.reachesOwn_iff {label : Label Callback} (h : Sound s)
    (hstep : Mqtt.step parse s label = some s') :
    ReachesOwn parse s label ↔ AtOwner parse s label := by
  cases label with
  | construct => exact Iff.rfl
  | registerMessageCallback c callback => exact Iff.rfl
  | messageArrived c topic rawPayload =>
      obtain ⟨-, hs'⟩ := Option.ite_none_right_eq_some.mp hstep
      cases hs'
      constructor
      · intro hreaches hparse hset
        obtain ⟨payload, hpayload⟩ := Option.isSome_iff_exists.mp hparse
        obtain ⟨owner, howner⟩ := Option.ne_none_iff_exists'.mp (h.adapter c hset)
        have hcounted := (hreaches payload hpayload _ hstep).counted hset
        unfold Mqtt.messageArrived at hcounted
        rw [if_pos hset, howner] at hcounted
        -- Another owner would have counted the message in the place of `c`.
        by_contra hne
        have hother : c ≠ owner := fun heq => hne (by rw [howner, heq])
        rw [onMessageArrived_received_ne hother] at hcounted
        omega
      · intro howner payload hpayload s' hs'
        cases hstep.symm.trans hs'
        unfold Mqtt.messageArrived
        by_cases hset : (s.client c).callbackSet = true
        · rw [if_pos hset, howner (by rw [hpayload]; rfl) hset]
          exact onMessageArrived_reaches hpayload
        · rw [if_neg hset]
          exact h.reaches_unset hset payload

def registrants (labels : List (Label Callback)) : List ClientId :=
  labels.filterMap fun
    | .registerMessageCallback c _ => some c
    | _ => none

theorem registrants_exec {labels : List (Label Callback)}
    (hexec : (machine parse).exec s labels = some s') :
    s'.adapter = s.adapter.or (registrants labels).head? ∧
      ∀ c, (s'.client c).callbackSet = true ↔
        (s.client c).callbackSet = true ∨ c ∈ registrants labels := by
  induction labels generalizing s with
  | nil =>
      cases hexec
      simp [registrants]
  | cons label labels ih =>
      obtain ⟨u, hu, hrest⟩ := Option.bind_eq_some_iff.mp hexec
      obtain ⟨hadapter, hset⟩ := ih hrest
      cases label with
      | construct =>
          cases hu
          exact ⟨hadapter, hset⟩
      | registerMessageCallback c callback =>
          obtain ⟨-, hu⟩ := Option.ite_none_right_eq_some.mp hu
          cases hu
          have hsplit : registrants (.registerMessageCallback c callback :: labels) =
              c :: registrants labels := rfl
          rw [hsplit]
          constructor
          · rw [hadapter, List.head?_cons]
            unfold registerMessageCallback
            cases s.adapter <;> rfl
          · intro d
            rw [hset d, List.mem_cons, ← or_assoc]
            apply or_congr_left
            unfold registerMessageCallback State.modifyClient
            by_cases hd : d = c
            · subst hd
              simp
            · simp [hd]
      | messageArrived c topic rawPayload =>
          obtain ⟨-, hu⟩ := Option.ite_none_right_eq_some.mp hu
          cases hu
          have hsame : (messageArrived parse c topic rawPayload s).adapter = s.adapter ∧
              ∀ d, ((messageArrived parse c topic rawPayload s).client d).callbackSet =
                (s.client d).callbackSet := by
            unfold messageArrived
            split
            · split
              · exact ⟨rfl, fun _ => rfl⟩
              · exact ⟨onMessageArrived_adapter, fun d => (onMessageArrived_callback d).2⟩
            · exact ⟨rfl, fun _ => rfl⟩
          rw [hsame.1] at hadapter
          simp only [hsame.2] at hset
          exact ⟨hadapter, hset⟩

/-- Every well-formed message at a client that has registered is at the client that
registered before all others. -/
def OnFirstRegistrant (parse : String → Option Json) (labels : List (Label Callback)) : Prop :=
  ∀ before c topic rawPayload after,
    labels = before ++ .messageArrived c topic rawPayload :: after →
      (parse rawPayload).isSome = true → c ∈ registrants before →
        (registrants before).head? = some c

/-- In every run of any number of clients, all well-formed messages reach their own
client exactly if each is at the client that was the first to register. -/
theorem messages_reach_own_iff {labels : List (Label Callback)}
    (hexec : (machine parse).exec {} labels = some s) :
    (machine parse).Meets (ReachesOwn parse) {} labels ↔ OnFirstRegistrant parse labels := by
  have hagree : (machine parse).Meets (ReachesOwn parse) {} labels ↔
      (machine parse).Meets (AtOwner parse) {} labels :=
    Machine.meets_congr (fun h hstep => Sound.step h hstep)
      (fun h hstep => Sound.reachesOwn_iff h hstep) hexec .initial
  rw [hagree, Machine.meets_iff_forall_before]
  have hstart (before : List (Label Callback)) (u : State Json Callback)
      (hbefore : (machine parse).exec {} before = some u) :
      u.adapter = (registrants before).head? ∧
        ∀ c, (u.client c).callbackSet = true ↔ c ∈ registrants before := by
    obtain ⟨hadapter, hset⟩ := registrants_exec hbefore
    exact ⟨hadapter, fun c => (hset c).trans (or_iff_right (by simp))⟩
  constructor
  · intro h before c topic rawPayload after hsplit hparse hmem
    rw [hsplit, Machine.exec_append] at hexec
    obtain ⟨u, hu, -⟩ := Option.bind_eq_some_iff.mp hexec
    obtain ⟨hadapter, hset⟩ := hstart before u hu
    rw [← hadapter]
    exact h before _ after u hsplit hu hparse ((hset c).mpr hmem)
  · intro h before label after u hsplit hu
    obtain ⟨hadapter, hset⟩ := hstart before u hu
    cases label with
    | construct => trivial
    | registerMessageCallback c callback => trivial
    | messageArrived c topic rawPayload =>
        intro hparse hregistered
        rw [hadapter]
        exact h before c topic rawPayload after hsplit hparse ((hset c).mp hregistered)

def twoClients : List (Label Char) :=
  [.construct, .construct, .registerMessageCallback 0 (some 'a'),
    .registerMessageCallback 1 (some 'b'), .messageArrived 1 "sensors/edge" "\x7b\x7d"]

def parseEmpty (rawPayload : String) : Option Unit :=
  if rawPayload = "\x7b\x7d" then some () else none

theorem messages_reach_own_iff_two :
    (machine parseEmpty).Meets (ReachesOwn parseEmpty) {} twoClients ↔
      OnFirstRegistrant parseEmpty twoClients :=
  messages_reach_own_iff (Machine.exec_final (by rfl))

/-- The first client counts the message of the second. -/
theorem message_reaches_other :
    ¬∀ (labels : List (Label Char)) (s : State Unit Char),
      (machine parseEmpty).exec {} labels = some s →
        (machine parseEmpty).Meets (ReachesOwn parseEmpty) {} labels := by
  intro h
  have hmeets := h twoClients _ (Machine.exec_final (by rfl))
  have hlast := Machine.meets_iff_forall_before.mp hmeets (twoClients.take 4)
    (.messageArrived 1 "sensors/edge" "\x7b\x7d") [] _ rfl rfl
  have hreaches := hlast () (by decide) _ rfl
  have hcount := hreaches.others 0 (by decide)
  exact absurd hcount (by decide)

end EdgeAllocator.Mqtt
