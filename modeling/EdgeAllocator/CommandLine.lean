import Mathlib.Tactic
import Mathlib.Data.Fintype.Basic
import EdgeAllocator.Foundation.Numeral

/-! `SimulationConfig::parseArgs` against the grammar of its arguments. A
`std::string` is a string with one character for each byte. -/
namespace EdgeAllocator.CommandLine

open Foundation

structure SimulationConfig where
  deviceCount : Nat := 100
  edgeNodeCount : Nat := 10
  taskCount : Nat := 10000
  strategy : String := "multi_constraint"
  scheduling : String := "priority_based"
  dbPath : String := "data/simulation.db"
  logPath : String := "logs/simulation.log"
  useMqtt : Bool := false
  mqttBroker : String := "tcp://localhost:1883"
  runComparison : Bool := false
  verbose : Bool := false
  webMode : Bool := false
  webPort : Nat := 8080
  automaticMode : Bool := false
  deriving DecidableEq

def sizeLimit : Nat := 2 ^ 64

def portLimit : Nat := 2 ^ 16

def stoul (text : String) : Except NumeralError Nat := readUnsigned sizeLimit text.toList

/-- How a call of `parseArgs` ends: with a configuration, with a call of `exit` after
what was written to the standard error, or with an exception of `std::stoul`. -/
inductive Outcome where
  | returned (config : SimulationConfig)
  | exited (status : Nat) (errors : String)
  | threw (error : NumeralError)
  deriving DecidableEq

/-- What the loop body makes of an argument: the scan goes on behind it, or behind
the value that follows it, or the call is over. -/
inductive Step where
  | next (config : SimulationConfig)
  | taken (config : SimulationConfig)
  | stop (outcome : Outcome)
  deriving DecidableEq

def matchesFlag (arg shortFlag longFlag : String) : Bool := arg = shortFlag || arg = longFlag

def takeNumber (value : String) (store : Nat → SimulationConfig) : Step :=
  match stoul value with
  | .ok n => .taken (store n)
  | .error error => .stop (.threw error)

/-- The loop body. `next` is the argument that follows, if there is one. -/
def parseArgument (config : SimulationConfig) (arg : String) (next : Option String) : Step :=
  let hasNext := next.isSome
  let value := next.getD ""
  if matchesFlag arg "-d" "--devices" && hasNext then
    takeNumber value fun n => { config with deviceCount := n }
  else if matchesFlag arg "-e" "--edges" && hasNext then
    takeNumber value fun n => { config with edgeNodeCount := n }
  else if matchesFlag arg "-t" "--tasks" && hasNext then
    takeNumber value fun n => { config with taskCount := n }
  else if matchesFlag arg "-s" "--strategy" && hasNext then
    .taken { config with strategy := value }
  else if arg = "--scheduling" && hasNext then .taken { config with scheduling := value }
  else if matchesFlag arg "-c" "--compare" then .next { config with runComparison := true }
  else if arg = "--mqtt" then .next { config with useMqtt := true }
  else if arg = "--broker" && hasNext then .taken { config with mqttBroker := value }
  else if arg = "--db" && hasNext then .taken { config with dbPath := value }
  else if arg = "--verbose" then .next { config with verbose := true }
  else if arg = "--web" then .next { config with webMode := true }
  else if arg = "--web-port" && hasNext then
    takeNumber value fun n => { config with webPort := n % portLimit }
  else if arg = "--automatic" then .next { config with automaticMode := true }
  else if matchesFlag arg "-h" "--help" then .stop (.exited 0 "")
  else .stop (.exited 1 ("Unknown argument: " ++ arg ++ "\n"))

def parseLoop (config : SimulationConfig) : List String → Outcome
  | [] => .returned config
  | arg :: rest =>
      match parseArgument config arg rest.head? with
      | .next config => parseLoop config rest
      | .taken config => parseLoop config rest.tail
      | .stop outcome => outcome
termination_by args => args.length
decreasing_by
  all_goals simp only [List.length_cons, List.length_tail]; omega

def parseArgs (args : List String) : Outcome := parseLoop {} args

/-- The flags of the grammar, each for one field. -/
inductive Flag where
  | devices
  | edges
  | tasks
  | strategy
  | scheduling
  | compare
  | mqtt
  | broker
  | db
  | verbose
  | web
  | webPort
  | automatic
  deriving DecidableEq

instance : Fintype Flag where
  elems := {.devices, .edges, .tasks, .strategy, .scheduling, .compare, .mqtt, .broker, .db,
    .verbose, .web, .webPort, .automatic}
  complete := by rintro (_ | _) <;> decide

namespace Flag

def spellings : Flag → List String
  | devices => ["-d", "--devices"]
  | edges => ["-e", "--edges"]
  | tasks => ["-t", "--tasks"]
  | strategy => ["-s", "--strategy"]
  | scheduling => ["--scheduling"]
  | compare => ["-c", "--compare"]
  | mqtt => ["--mqtt"]
  | broker => ["--broker"]
  | db => ["--db"]
  | verbose => ["--verbose"]
  | web => ["--web"]
  | webPort => ["--web-port"]
  | automatic => ["--automatic"]

def takesValue : Flag → Bool
  | compare | mqtt | verbose | web | automatic => false
  | _ => true

def limit : Flag → Option Nat
  | devices | edges | tasks => some sizeLimit
  | webPort => some portLimit
  | _ => none

/-- A value of the grammar: plain and in range if the field is numeric. -/
def Permits (flag : Flag) (value : String) : Prop :=
  ∀ bound ∈ flag.limit, Plain bound value.toList

def Reads (flag : Flag) (value : String) : Prop :=
  flag.limit.isSome = true → ∃ n, stoul value = .ok n

end Flag

abbrev Setting := Flag × Option String

def AllPermitted (settings : List Setting) : Prop :=
  ∀ flag value, (flag, some value) ∈ settings → flag.Permits value

def AllRead (settings : List Setting) : Prop :=
  ∀ flag value, (flag, some value) ∈ settings → flag.Reads value

/-- The arguments are known flags, each with its value behind it. -/
inductive Spells : List Setting → List String → Prop where
  | nil : Spells [] []
  | switch {flag : Flag} {word : String} {settings : List Setting} {args : List String}
      (hflag : flag.takesValue = false) (hword : word ∈ flag.spellings)
      (later : Spells settings args) : Spells ((flag, none) :: settings) (word :: args)
  | valued {flag : Flag} {word : String} (value : String) {settings : List Setting}
      {args : List String} (hflag : flag.takesValue = true) (hword : word ∈ flag.spellings)
      (later : Spells settings args) :
      Spells ((flag, some value) :: settings) (word :: value :: args)

def lastValue (flag : Flag) (settings : List Setting) : Option String :=
  ((settings.filter fun setting => setting.1 = flag).getLast?).bind Prod.snd

def given (flag : Flag) (settings : List Setting) : Bool :=
  settings.any fun setting => setting.1 = flag

def lastNumber (flag : Flag) (default : Nat) (settings : List Setting) : Nat :=
  (lastValue flag settings).elim default fun value => decimal value.toList

/-- Each field has the value of the last occurrence of its flag, or its default. -/
def configOf (settings : List Setting) : SimulationConfig where
  deviceCount := lastNumber .devices 100 settings
  edgeNodeCount := lastNumber .edges 10 settings
  taskCount := lastNumber .tasks 10000 settings
  strategy := (lastValue .strategy settings).getD "multi_constraint"
  scheduling := (lastValue .scheduling settings).getD "priority_based"
  dbPath := (lastValue .db settings).getD "data/simulation.db"
  useMqtt := given .mqtt settings
  mqttBroker := (lastValue .broker settings).getD "tcp://localhost:1883"
  runComparison := given .compare settings
  verbose := given .verbose settings
  webMode := given .web settings
  webPort := lastNumber .webPort 8080 settings
  automaticMode := given .automatic settings

/-- `parseArgs` returns the configuration of every argument vector of the grammar with
plain numerals in range, and refuses every other. -/
structure Conforms (args : List String) : Prop where
  accepts : ∀ settings, Spells settings args → AllPermitted settings →
    parseArgs args = .returned (configOf settings)
  refuses : (¬ ∃ settings, Spells settings args ∧ AllPermitted settings) →
    ∀ config, parseArgs args ≠ .returned config

section Settings

variable {flag : Flag} {settings : List Setting} {setting : Setting}

theorem lastValue_append :
    lastValue flag (settings ++ [setting]) =
      if setting.1 = flag then setting.2 else lastValue flag settings := by
  unfold lastValue
  rw [List.filter_append]
  split
  · rw [List.filter_cons_of_pos (by simpa), List.filter_nil, List.getLast?_append]
    rfl
  · rw [List.filter_cons_of_neg (by simpa), List.filter_nil, List.append_nil]

theorem given_append :
    given flag (settings ++ [setting]) = (given flag settings || decide (setting.1 = flag)) := by
  unfold given
  rw [List.any_append, List.any_cons, List.any_nil, Bool.or_false]

theorem lastNumber_append {default : Nat} :
    lastNumber flag default (settings ++ [setting]) =
      if setting.1 = flag then setting.2.elim default fun value => decimal value.toList
      else lastNumber flag default settings := by
  unfold lastNumber
  rw [lastValue_append]
  split <;> rfl

theorem AllPermitted.tail (h : AllPermitted (setting :: settings)) : AllPermitted settings :=
  fun flag value hmem => h flag value (List.mem_cons_of_mem _ hmem)

theorem AllRead.tail (h : AllRead (setting :: settings)) : AllRead settings :=
  fun flag value hmem => h flag value (List.mem_cons_of_mem _ hmem)

theorem AllRead.switch (h : AllRead settings) : AllRead ((flag, none) :: settings) := by
  intro flag' value hmem
  cases hmem with
  | tail _ hmem => exact h flag' value hmem

theorem AllRead.valued {value : String} (hvalue : flag.Reads value) (h : AllRead settings) :
    AllRead ((flag, some value) :: settings) := by
  intro flag' value' hmem
  cases hmem with
  | head => exact hvalue
  | tail _ hmem => exact h flag' value' hmem

end Settings

theorem spellings_disjoint (flag flag' : Flag) :
    ∀ word ∈ flag.spellings, word ∈ flag'.spellings → flag = flag' := by
  revert flag flag'
  decide

theorem Spells.unique {settings settings' : List Setting} {args : List String}
    (h : Spells settings args) (h' : Spells settings' args) : settings = settings' := by
  induction h generalizing settings' with
  | nil =>
      cases h'
      rfl
  | @switch flag word settings args hflag hword later ih =>
      cases h' with
      | @switch flag' _ settings' _ hflag' hword' later' =>
          rw [spellings_disjoint flag flag' word hword hword', ih later']
      | @valued flag' _ value settings' args' hflag' hword' later' =>
          rw [spellings_disjoint flag flag' word hword hword', hflag'] at hflag
          cases hflag
  | @valued flag word value settings args hflag hword later ih =>
      cases h' with
      | @switch flag' _ settings' _ hflag' hword' later' =>
          rw [spellings_disjoint flag flag' word hword hword', hflag'] at hflag
          cases hflag
      | @valued flag' _ _ settings' _ hflag' hword' later' =>
          rw [spellings_disjoint flag flag' word hword hword', ih later']

theorem stoul_of_permits {flag : Flag} {value : String} {bound : Nat}
    (hbound : flag.limit = some bound) (h : flag.Permits value) :
    stoul value = .ok (decimal value.toList) := by
  have hplain : Plain bound value.toList := h bound hbound
  have hle : bound ≤ sizeLimit := by
    cases flag <;> cases hbound <;> decide
  exact (hplain.mono hle).readUnsigned

section Body

variable {settings : List Setting} {flag : Flag} {word value : String}

theorem parseArgument_switch (next : Option String) (hflag : flag.takesValue = false)
    (hword : word ∈ flag.spellings) :
    parseArgument (configOf settings) word next =
      .next (configOf (settings ++ [(flag, none)])) := by
  cases flag <;> cases hflag <;> simp only [Flag.spellings, List.mem_cons, List.not_mem_nil,
    or_false] at hword
  case compare =>
    obtain rfl | rfl := hword <;>
    simp [parseArgument, matchesFlag, configOf, lastValue_append, given_append, lastNumber_append]
  all_goals
    subst hword
    simp [parseArgument, matchesFlag, configOf, lastValue_append, given_append, lastNumber_append]

theorem parseArgument_permitted (hflag : flag.takesValue = true) (hword : word ∈ flag.spellings)
    (hvalue : flag.Permits value) :
    parseArgument (configOf settings) word (some value) =
      .taken (configOf (settings ++ [(flag, some value)])) := by
  have hport (hweb : flag = .webPort) :
      decimal value.toList % portLimit = decimal value.toList := by
    subst hweb
    exact Nat.mod_eq_of_lt (hvalue portLimit rfl).inRange
  have hnumber (bound : Nat) (hbound : flag.limit = some bound) :=
    stoul_of_permits hbound hvalue
  cases flag <;> cases hflag <;> simp only [Flag.spellings, List.mem_cons, List.not_mem_nil,
    or_false] at hword
  case webPort =>
    subst hword
    simp [parseArgument, matchesFlag, takeNumber, hnumber _ rfl, hport rfl, configOf,
      lastValue_append, given_append, lastNumber_append]
  case devices | edges | tasks =>
    obtain rfl | rfl := hword <;>
    simp [parseArgument, matchesFlag, takeNumber, hnumber _ rfl, configOf, lastValue_append,
      given_append, lastNumber_append]
  case strategy =>
    obtain rfl | rfl := hword <;>
    simp [parseArgument, matchesFlag, configOf, lastValue_append, given_append, lastNumber_append]
  all_goals
    subst hword
    simp [parseArgument, matchesFlag, configOf, lastValue_append, given_append, lastNumber_append]

end Body

section Scan

variable {config : SimulationConfig} {flag : Flag} {word value : String} {next : Option String}

theorem parseArgument_known_switch (config : SimulationConfig) (next : Option String)
    (hflag : flag.takesValue = false) (hword : word ∈ flag.spellings) :
    ∃ config', parseArgument config word next = .next config' := by
  cases flag <;> cases hflag <;> simp only [Flag.spellings, List.mem_cons, List.not_mem_nil,
    or_false] at hword
  case compare => obtain rfl | rfl := hword <;> simp [parseArgument, matchesFlag]
  all_goals
    subst hword
    simp [parseArgument, matchesFlag]

theorem parseArgument_reads (config : SimulationConfig) (hflag : flag.takesValue = true)
    (hword : word ∈ flag.spellings) (hreads : flag.Reads value) :
    ∃ config', parseArgument config word (some value) = .taken config' := by
  cases flag <;> cases hflag <;> simp only [Flag.spellings, List.mem_cons, List.not_mem_nil,
    or_false] at hword
  case devices | edges | tasks =>
    obtain ⟨n, hread⟩ := hreads rfl
    obtain rfl | rfl := hword <;> simp [parseArgument, matchesFlag, takeNumber, hread]
  case webPort =>
    obtain ⟨n, hread⟩ := hreads rfl
    subst hword
    simp [parseArgument, matchesFlag, takeNumber, hread]
  case strategy => obtain rfl | rfl := hword <;> simp [parseArgument, matchesFlag]
  all_goals
    subst hword
    simp [parseArgument, matchesFlag]

theorem parseArgument_unread (config : SimulationConfig) (hword : word ∈ flag.spellings)
    (hunread : ¬ flag.Reads value) :
    ∃ error, parseArgument config word (some value) = .stop (.threw error) := by
  unfold Flag.Reads at hunread
  push Not at hunread
  obtain ⟨hnumeric, hnone⟩ := hunread
  cases hread : stoul value with
  | ok n => exact absurd hread (hnone n)
  | error error =>
      apply Exists.intro error
      cases flag <;> cases hnumeric <;> simp only [Flag.spellings, List.mem_cons,
        List.not_mem_nil, or_false] at hword
      · obtain rfl | rfl := hword <;> simp [parseArgument, matchesFlag, takeNumber, hread]
      · obtain rfl | rfl := hword <;> simp [parseArgument, matchesFlag, takeNumber, hread]
      · obtain rfl | rfl := hword <;> simp [parseArgument, matchesFlag, takeNumber, hread]
      · subst hword
        simp [parseArgument, matchesFlag, takeNumber, hread]

theorem parseArgument_unknown (config : SimulationConfig)
    (h : ∀ flag : Flag, word ∈ flag.spellings → flag.takesValue = true ∧ next = none) :
    ∃ status errors, parseArgument config word next = .stop (.exited status errors) := by
  have hswitch (flag : Flag) (hflag : flag.takesValue = false) : word ∉ flag.spellings := by
    intro hword
    have htakes := (h flag hword).1
    rw [hflag] at htakes
    cases htakes
  have hcompare : word ≠ "-c" ∧ word ≠ "--compare" := by
    simpa [Flag.spellings] using hswitch .compare rfl
  have hmqtt : word ≠ "--mqtt" := by simpa [Flag.spellings] using hswitch .mqtt rfl
  have hverbose : word ≠ "--verbose" := by simpa [Flag.spellings] using hswitch .verbose rfl
  have hweb : word ≠ "--web" := by simpa [Flag.spellings] using hswitch .web rfl
  have hautomatic : word ≠ "--automatic" := by
    simpa [Flag.spellings] using hswitch .automatic rfl
  cases next with
  | none =>
      by_cases hhelp : word = "-h" ∨ word = "--help" <;>
      simp [parseArgument, matchesFlag, hcompare, hmqtt, hverbose, hweb, hautomatic, hhelp]
  | some value =>
      have hvalued (flag : Flag) : word ∉ flag.spellings := by
        intro hword
        cases (h flag hword).2
      have hdevices : word ≠ "-d" ∧ word ≠ "--devices" := by
        simpa [Flag.spellings] using hvalued .devices
      have hedges : word ≠ "-e" ∧ word ≠ "--edges" := by
        simpa [Flag.spellings] using hvalued .edges
      have htasks : word ≠ "-t" ∧ word ≠ "--tasks" := by
        simpa [Flag.spellings] using hvalued .tasks
      have hstrategy : word ≠ "-s" ∧ word ≠ "--strategy" := by
        simpa [Flag.spellings] using hvalued .strategy
      have hscheduling : word ≠ "--scheduling" := by
        simpa [Flag.spellings] using hvalued .scheduling
      have hbroker : word ≠ "--broker" := by simpa [Flag.spellings] using hvalued .broker
      have hdb : word ≠ "--db" := by simpa [Flag.spellings] using hvalued .db
      have hport : word ≠ "--web-port" := by simpa [Flag.spellings] using hvalued .webPort
      by_cases hhelp : word = "-h" ∨ word = "--help" <;>
      simp [parseArgument, matchesFlag, hcompare, hmqtt, hverbose, hweb, hautomatic, hdevices,
        hedges, htasks, hstrategy, hscheduling, hbroker, hdb, hport, hhelp]

end Scan

section Loop

variable {config config' : SimulationConfig} {settings : List Setting} {args : List String}

theorem parseLoop_next {arg : String} (h : parseArgument config arg args.head? = .next config') :
    parseLoop config (arg :: args) = parseLoop config' args := by
  rw [parseLoop, h]

theorem parseLoop_taken {arg : String} (h : parseArgument config arg args.head? = .taken config') :
    parseLoop config (arg :: args) = parseLoop config' args.tail := by
  rw [parseLoop, h]

theorem parseLoop_stop {arg : String} {outcome : Outcome}
    (h : parseArgument config arg args.head? = .stop outcome) :
    parseLoop config (arg :: args) = outcome := by
  rw [parseLoop, h]

theorem parseLoop_permitted (h : Spells settings args) (hpermitted : AllPermitted settings)
    (done : List Setting) :
    parseLoop (configOf done) args = .returned (configOf (done ++ settings)) := by
  induction h generalizing done with
  | nil => rw [parseLoop, List.append_nil]
  | @switch flag word settings args hflag hword later ih =>
      rw [parseLoop_next (parseArgument_switch _ hflag hword),
        ih hpermitted.tail, List.append_assoc]
      rfl
  | @valued flag word value settings args hflag hword later ih =>
      have hvalue := hpermitted flag value List.mem_cons_self
      rw [parseLoop_taken (parseArgument_permitted hflag hword hvalue), List.tail_cons,
        ih hpermitted.tail, List.append_assoc]
      rfl

theorem parseLoop_read (h : Spells settings args) (hread : AllRead settings)
    (config : SimulationConfig) : ∃ config', parseLoop config args = .returned config' := by
  induction h generalizing config with
  | nil => exact ⟨config, by rw [parseLoop]⟩
  | @switch flag word settings args hflag hword later ih =>
      obtain ⟨config', hnext⟩ := parseArgument_known_switch config args.head? hflag
        hword
      rw [parseLoop_next hnext]
      exact ih hread.tail config'
  | @valued flag word value settings args hflag hword later ih =>
      obtain ⟨config', htaken⟩ := parseArgument_reads config hflag hword
        (hread flag value List.mem_cons_self)
      rw [parseLoop_taken htaken, List.tail_cons]
      exact ih hread.tail config'

theorem spells_of_returned (h : parseLoop config args = .returned config') :
    ∃ settings, Spells settings args ∧ AllRead settings := by
  induction hlength : args.length using Nat.strong_induction_on generalizing config args with
  | _ n ih =>
    subst hlength
    cases args with
    | nil => exact ⟨[], .nil, fun flag value hmem => by cases hmem⟩
    | cons word rest =>
        by_cases hknown : ∀ flag : Flag, word ∈ flag.spellings →
            flag.takesValue = true ∧ rest.head? = none
        · obtain ⟨status, errors, hstop⟩ := parseArgument_unknown config hknown
          rw [parseLoop_stop hstop] at h
          cases h
        push Not at hknown
        obtain ⟨flag, hword, hvalue⟩ := hknown
        cases hflag : flag.takesValue with
        | false =>
            obtain ⟨config₁, hnext⟩ := parseArgument_known_switch config rest.head? hflag
              hword
            rw [parseLoop_next hnext] at h
            obtain ⟨settings, hspells, hread⟩ := ih rest.length (by simp) h rfl
            exact ⟨(flag, none) :: settings, .switch hflag hword hspells, hread.switch⟩
        | true =>
            cases rest with
            | nil => exact absurd rfl (hvalue hflag)
            | cons value rest =>
                by_cases hreads : flag.Reads value
                · obtain ⟨config₁, htaken⟩ := parseArgument_reads config hflag hword hreads
                  rw [parseLoop_taken htaken, List.tail_cons] at h
                  obtain ⟨settings, hspells, hread⟩ := ih rest.length (by simp) h rfl
                  exact ⟨(flag, some value) :: settings, .valued value hflag hword hspells,
                    hread.valued hreads⟩
                · obtain ⟨error, hthrow⟩ := parseArgument_unread config hword hreads
                  rw [parseLoop_stop hthrow] at h
                  cases h

end Loop

/-- `parseArgs` conforms to its grammar on every vector but those of known flags whose
numeric values pass `std::stoul` while one of them is not a plain numeral in the
range of its field. -/
theorem parseArgs_conforms_iff (args : List String) :
    Conforms args ↔
      ∀ settings, Spells settings args → AllRead settings → AllPermitted settings := by
  constructor
  · intro h settings hspells hread
    by_contra hnot
    obtain ⟨config, hreturned⟩ := parseLoop_read hspells hread {}
    refine h.refuses ?_ config hreturned
    rintro ⟨settings', hspells', hpermitted⟩
    rw [hspells'.unique hspells] at hpermitted
    exact hnot hpermitted
  · intro h
    constructor
    · intro settings hspells hpermitted
      exact parseLoop_permitted hspells hpermitted []
    · intro hnone config hreturned
      obtain ⟨settings, hspells, hread⟩ := spells_of_returned hreturned
      exact hnone ⟨settings, hspells, h settings hspells hread⟩

/-- A negative number of devices is taken modulo the range. -/
theorem parseArgs_takes_negative :
    parseArgs ["--devices", "-1"] = .returned { deviceCount := sizeLimit - 1 } ∧
      ¬ Conforms ["--devices", "-1"] := by
  have hreturned :
      parseArgs ["--devices", "-1"] = .returned { deviceCount := sizeLimit - 1 } := by
    have htaken : parseArgument {} "--devices" (some "-1") =
        .taken { deviceCount := sizeLimit - 1 } := by
      decide +kernel
    rw [parseArgs, parseLoop_taken htaken, List.tail_cons, parseLoop]
  have hspelled : Spells [(.devices, some "-1")] ["--devices", "-1"] :=
    .valued "-1" rfl (by decide) .nil
  refine ⟨hreturned, fun h => h.refuses ?_ _ hreturned⟩
  rintro ⟨settings, hspells, hpermitted⟩
  rw [hspells.unique hspelled] at hpermitted
  have hplain : Plain sizeLimit "-1".toList :=
    hpermitted .devices "-1" List.mem_cons_self sizeLimit rfl
  exact absurd (hplain.digits '-' (by decide)) (by decide)

end EdgeAllocator.CommandLine
