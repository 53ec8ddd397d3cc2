import EdgeAllocator.Simulator

/-! The fleets of the experiments of one process. The generator of `createEdgeNodes`
is `static`: every experiment draws on where the one before it stopped. -/
namespace EdgeAllocator.Simulator

open Foundation

variable {G : Type} {distributions : Distributions G} {seed : G} {s s' : State G}

def capacityAt (distributions : Distributions G) (seed : G) (i : Nat) : ResourceCapacity :=
  (drawCapacity distributions ((skipNode distributions)^[i] seed)).1

def fleetFrom (distributions : Distributions G) (seed : G) (count start : Nat) :
    List (EdgeId × ResourceCapacity) :=
  (List.range count).map fun i => (edgeName i, capacityAt distributions seed (start + i))

theorem createEdgeNodes_from (distributions : Distributions G) (seed : G) (count start : Nat) :
    createEdgeNodes distributions count ((skipNode distributions)^[start] seed) =
      (fleetFrom distributions seed count start, (skipNode distributions)^[start + count] seed) := by
  rw [createEdgeNodes_eq, fleetFrom, Nat.add_comm start count, Function.iterate_add_apply]
  simp only [capacityAt, Nat.add_comm start, Function.iterate_add_apply]

/-- Each experiment takes the draws that follow those of the one before. -/
structure Drawn (distributions : Distributions G) (seed : G) (s : State G) : Prop where
  generator : s.generator =
    (skipNode distributions)^[s.config.edgeNodeCount * s.fleets.length] seed
  fleets : ∀ k < s.fleets.length, s.fleets[k]? =
    some (fleetFrom distributions seed s.config.edgeNodeCount (s.config.edgeNodeCount * k))

theorem Drawn.initial (h : Initial seed s) : Drawn distributions seed s where
  generator := by
    rw [h.generator, h.fleets]
    rfl
  fleets := by
    rw [h.fleets]
    exact fun k hk => absurd hk (Nat.not_lt_zero k)

theorem Drawn.move {label : Label} (h : Drawn distributions seed s)
    (hmove : Move distributions s label s') : Drawn distributions seed s' := by
  cases hmove with
  | @begin strategy todo hphase =>
      have hnodes := createEdgeNodes_from distributions seed s.config.edgeNodeCount
        (s.config.edgeNodeCount * s.fleets.length)
      rw [← h.generator] at hnodes
      unfold State.begin
      rw [hnodes]
      constructor
      · rw [List.length_append, List.length_singleton, Nat.mul_succ]
      · intro k hk
        rw [List.length_append, List.length_singleton] at hk
        by_cases hlast : k = s.fleets.length
        · rw [hlast, List.getElem?_concat_length]
        · have hbefore : k < s.fleets.length := by omega
          rw [List.getElem?_append_left hbefore]
          exact h.fleets k hbefore
  | _ => exact ⟨h.generator, h.fleets⟩

theorem drawn_of_reachable (hs : (machine distributions seed).Reachable Machine.free s) :
    Drawn distributions seed s :=
  hs.invariant Drawn.initial fun h _ hstep => h.move (step_move hstep)

/-- The fleet of an experiment is that of the first one exactly if the capacities
drawn for it repeat the first ones. -/
theorem fleet_repeats_iff (hs : (machine distributions seed).Reachable Machine.free s) {k : Nat}
    (hk : k < s.fleets.length) :
    s.fleets[k]? = s.fleets[0]? ↔ ∀ i < s.config.edgeNodeCount,
      capacityAt distributions seed (s.config.edgeNodeCount * k + i) =
        capacityAt distributions seed i := by
  have hdrawn := drawn_of_reachable hs
  rw [hdrawn.fleets k hk, hdrawn.fleets 0 (by omega), Option.some_inj, fleetFrom, fleetFrom,
    List.map_inj_left]
  simp only [List.mem_range, Prod.mk.injEq, true_and, Nat.mul_zero, Nat.zero_add]

abbrev Mt19937 := List Nat

def Mt19937.words : Nat → Nat → Nat → Mt19937
  | 0, _, _ => []
  | count + 1, i, word =>
      word :: words count (i + 1)
        ((1812433253 * (word ^^^ (word >>> 30)) + (i + 1)) % 2 ^ 32)

def Mt19937.seeded (value : Nat) : Mt19937 := Mt19937.words 624 0 (value % 2 ^ 32)

def Mt19937.temper (word : Nat) : Nat :=
  let word := word ^^^ (word >>> 11)
  let word := word ^^^ ((word <<< 7) &&& 0x9d2c5680)
  let word := word ^^^ ((word <<< 15) &&& 0xefc60000)
  word ^^^ (word >>> 18)

def Mt19937.next : Mt19937 → Nat × Mt19937
  | first :: second :: rest =>
      let joined := (first &&& 0x80000000) ||| (second &&& 0x7fffffff)
      let word := rest.getD 395 0 ^^^ (joined >>> 1) ^^^
        (if joined % 2 = 1 then 0x9908b0df else 0)
      (temper word, second :: (rest ++ [word]))
  | words => (0, words)

/-- `std::uniform_real_distribution<double>` over two outputs, without rounding. -/
def uniformReal (low high : ℚ) (generator : Mt19937) : ℚ × Mt19937 :=
  let (first, generator) := generator.next
  let (second, generator) := generator.next
  (low + (high - low) * ((first + second * 2 ^ 32 : Nat) / 2 ^ 64), generator)

/-- `std::uniform_int_distribution` by multiplication. The outputs that it rejects
do not occur below. -/
def uniformInt (low high : Int) (generator : Mt19937) : Int × Mt19937 :=
  let (output, generator) := generator.next
  (low + (high - low + 1) * output / 2 ^ 32, generator)

def mt19937 : Distributions Mt19937 where
  ram := uniformReal 4096 32768
  bandwidth := uniformReal 50 200
  latency := uniformInt 8 40

example : (Mt19937.seeded 42).next.1 = 1608637542 := by decide +kernel

def launched (config : SimulationConfig) : State Mt19937 where
  config := { config with edgeNodeCount := 1 }
  workload := fun _ => TaskProfile.ultrasonic
  generator := Mt19937.seeded 42

theorem launched_initial (config : SimulationConfig) :
    Initial (Mt19937.seeded 42) (launched config) :=
  ⟨rfl, rfl, rfl, rfl, rfl⟩

def mainSteps (n : Nat) : List Label := List.replicate n (.experiment (.main {}))

def workSteps (n : Nat) : List Label := List.replicate n (.experiment (.work "E01" {}))

def idleExperiment : List Label :=
  [.advance] ++ mainSteps 10 ++ workSteps 1 ++ mainSteps 3 ++ [.advance]

def secondFleet : State Mt19937 :=
  (machine mt19937 (Mt19937.seeded 42)).final (launched { taskCount := 0, runComparison := true })
    ([.advance] ++ idleExperiment ++ [.advance])

theorem secondFleet_reachable :
    (machine mt19937 (Mt19937.seeded 42)).Reachable Machine.free secondFleet :=
  Machine.reachable_final (launched_initial _) (by decide +kernel)

theorem fleet_repeats_iff_second :
    secondFleet.fleets[1]? = secondFleet.fleets[0]? ↔ ∀ i < secondFleet.config.edgeNodeCount,
      capacityAt mt19937 (Mt19937.seeded 42) (secondFleet.config.edgeNodeCount * 1 + i) =
        capacityAt mt19937 (Mt19937.seeded 42) i :=
  fleet_repeats_iff secondFleet_reachable (by decide +kernel)

/-- The first two nodes differ in their latency. -/
theorem fleets_differ :
    ¬∀ s : State Mt19937, (machine mt19937 (Mt19937.seeded 42)).Reachable Machine.free s →
      ∀ k < s.fleets.length, s.fleets[k]? = s.fleets[0]? := by
  intro h
  have hsame := h secondFleet secondFleet_reachable 1 (by decide +kernel)
  have hlatency := congrArg
    (Option.map fun nodes => nodes.map fun node => node.2.latencyMs) hsame
  exact absurd hlatency (by decide +kernel)

end EdgeAllocator.Simulator
