import EdgeAllocator.Foundation.Machine
import EdgeAllocator.Foundation.Waiting
import Mathlib.Order.Filter.AtTopBot.Basic

/-! Endless executions whose steps belong to parties, under strong fairness: a party
whose next step is enabled again and again steps again and again. Where every section
under a mutex ends, no party waits for a mutex for ever. Nothing here knows the program
that is verified with it. -/
namespace EdgeAllocator.Foundation

open Filter

variable {State Label Party Mutex : Type}

theorem measure_le {measure : ℕ → ℕ} {n : ℕ} (h : ∀ m ≥ n, measure (m + 1) ≤ measure m) :
    ∀ m ≥ n, measure m ≤ measure n := by
  intro m hm
  induction m, hm using Nat.le_induction with
  | base => exact le_rfl
  | succ m hm ih => exact (h m hm).trans ih

theorem not_frequently_of_falls (measure : ℕ → ℕ) {occurs : ℕ → Prop} {n : ℕ}
    (hle : ∀ m ≥ n, measure (m + 1) ≤ measure m)
    (hlt : ∀ m ≥ n, occurs m → measure (m + 1) < measure m) : ¬ ∃ᶠ m in atTop, occurs m := by
  induction hvalue : measure n using Nat.strong_induction_on generalizing n with
  | _ value ih =>
      intro hoften
      obtain ⟨m, hm, hoccurs⟩ := (frequently_atTop.mp hoften) n
      have hless : measure (m + 1) < value :=
        hvalue ▸ (hlt m hm hoccurs).trans_le (measure_le hle m hm)
      have hlater {k : ℕ} (hk : k ≥ m + 1) : k ≥ n := by omega
      exact ih _ hless (fun k hk => hle k (hlater hk)) (fun k hk => hlt k (hlater hk)) rfl hoften

theorem exists_last {occurs : ℕ → Prop} (h : ¬ ∃ᶠ n in atTop, occurs n) (n : ℕ) :
    ∃ m ≥ n, ∀ k ≥ m, ¬ occurs k := by
  obtain ⟨m, hm⟩ := eventually_atTop.mp (not_frequently.mp h)
  exact ⟨max n m, le_max_left n m, fun k hk => hm k ((le_max_right n m).trans hk)⟩

namespace Machine

variable {machine : Machine State Label}

/-- States in endless succession. Where no label stands, nothing happens. -/
structure Execution (machine : Machine State Label) where
  state : ℕ → State
  label : ℕ → Option Label
  follows : ∀ n, (label n).elim (some (state n)) (machine.step (state n)) = some (state (n + 1))

namespace Execution

theorem step_label (x : machine.Execution) {n : ℕ} {label : Label} (h : x.label n = some label) :
    machine.step (x.state n) label = some (x.state (n + 1)) := by
  have hfollows := x.follows n
  rwa [h] at hfollows

theorem state_succ (x : machine.Execution) {n : ℕ} (h : x.label n = none) :
    x.state (n + 1) = x.state n := by
  have hfollows := x.follows n
  rw [h] at hfollows
  exact (Option.some.inj hfollows).symm

theorem run_between (x : machine.Execution) {n m : ℕ} (h : n ≤ m) :
    machine.Run free (x.state n) (x.state m) := by
  induction m, h using Nat.le_induction with
  | base => exact .refl _
  | succ m _ ih =>
      cases hlabel : x.label m with
      | none =>
          rw [x.state_succ hlabel]
          exact ih
      | some label => exact .tail ih trivial (x.step_label hlabel)

theorem run (x : machine.Execution) (n : ℕ) : machine.Run free (x.state 0) (x.state n) :=
  x.run_between n.zero_le

theorem forever (x : machine.Execution) (good : State → Prop) {n : ℕ} (hn : good (x.state n))
    (hkeep : ∀ m ≥ n, ∀ label, x.label m = some label → good (x.state m) → good (x.state (m + 1))) :
    ∀ m ≥ n, good (x.state m) := by
  intro m hm
  induction m, hm using Nat.le_induction with
  | base => exact hn
  | succ m hm ih =>
      cases hlabel : x.label m with
      | none =>
          rw [x.state_succ hlabel]
          exact ih
      | some label => exact hkeep m hm label hlabel ih

def ofLabels (s : State) (labels : List Label) (h : (machine.exec s labels).isSome) :
    machine.Execution where
  state n := machine.final s (labels.take n)
  label n := labels[n]?
  follows n := by
    cases hlabel : labels[n]? with
    | none =>
        have hlong := List.getElem?_eq_none_iff.mp hlabel
        rw [Option.elim_none, List.take_of_length_le hlong, List.take_of_length_le (by omega)]
    | some label =>
        obtain ⟨hn, rfl⟩ := List.getElem?_eq_some_iff.mp hlabel
        obtain ⟨t, ht⟩ := Option.isSome_iff_exists.mp h
        rw [← List.take_append_drop n labels, exec_append] at ht
        obtain ⟨u, hu, hrest⟩ := Option.bind_eq_some_iff.mp ht
        rw [List.drop_eq_getElem_cons hn] at hrest
        obtain ⟨v, hv, -⟩ := Option.bind_eq_some_iff.mp hrest
        have hnext : machine.exec s (labels.take (n + 1)) = some v := by
          rw [List.take_add_one, List.getElem?_eq_getElem hn, exec_append, hu]
          simp [exec, hv]
        rw [final, final, hu, hnext]
        exact hv

theorem ofLabels_state {s : State} {labels : List Label} {h : (machine.exec s labels).isSome}
    {n : ℕ} (hn : labels.length ≤ n) : (ofLabels s labels h).state n = machine.final s labels := by
  show machine.final s (labels.take n) = _
  rw [List.take_of_length_le hn]

end Execution

/-- Which party takes a step, and whose next step is enabled. -/
structure Schedule (State Label Party : Type) where
  party : Label → Option Party
  enabled : State → Party → Prop

variable {schedule : Schedule State Label Party}

namespace Execution

def Takes (x : machine.Execution) (schedule : Schedule State Label Party) (p : Party) (n : ℕ) :
    Prop := (x.label n).bind schedule.party = some p

def StronglyFair (x : machine.Execution) (schedule : Schedule State Label Party) : Prop :=
  ∀ p, (∃ᶠ n in atTop, schedule.enabled (x.state n) p) → ∃ᶠ n in atTop, x.Takes schedule p n

theorem not_takes_forever (x : machine.Execution) {p : Party} {n : ℕ} (left : State → ℕ)
    (hle : ∀ m ≥ n, ∀ label, x.label m = some label → schedule.party label ≠ some p →
      left (x.state (m + 1)) ≤ left (x.state m))
    (hlt : ∀ m ≥ n, ∀ label, x.label m = some label → schedule.party label = some p →
      left (x.state (m + 1)) < left (x.state m)) :
    ¬ ∃ᶠ m in atTop, x.Takes schedule p m := by
  refine not_frequently_of_falls (fun m => left (x.state m)) (n := n) ?_ ?_
  · intro m hm
    cases hlabel : x.label m with
    | none => rw [x.state_succ hlabel]
    | some label =>
        by_cases hparty : schedule.party label = some p
        · exact (hlt m hm label hlabel hparty).le
        · exact hle m hm label hlabel hparty
  · intro m hm htakes
    obtain ⟨label, hlabel, hparty⟩ := Option.bind_eq_some_iff.mp htakes
    exact hlt m hm label hlabel hparty

theorem StronglyFair.exists_disabled {x : machine.Execution} (hfair : x.StronglyFair schedule)
    {p : Party} {n : ℕ} (hrests : ∀ m ≥ n, ¬ x.Takes schedule p m) :
    ∃ m ≥ n, ∀ k ≥ m, ¬ schedule.enabled (x.state k) p := by
  refine exists_last (fun hoften => ?_) n
  obtain ⟨m, hm, htakes⟩ := (frequently_atTop.mp (hfair p hoften)) n
  exact hrests m hm htakes

theorem stronglyFair_ofLabels {s : State} {labels : List Label}
    {h : (machine.exec s labels).isSome}
    (hend : ∀ p, ¬ schedule.enabled (machine.final s labels) p) :
    (ofLabels s labels h).StronglyFair schedule := by
  intro p hoften
  obtain ⟨n, hn, henabled⟩ := (frequently_atTop.mp hoften) labels.length
  rw [ofLabels_state hn] at henabled
  exact absurd henabled (hend p)

end Execution

/-- Parties that wait for mutexes in the order of a ranking and whose sections end: each
step in a section lowers what is left to do in it, and no other party's step raises it. -/
structure Sections (machine : Machine State Label) (schedule : Schedule State Label Party)
    (inv : State → Prop) (waiting : State → Waiting Party Mutex) (alive : State → Party → Prop)
    (effort : State → Party → ℕ) (rank : Mutex → ℕ) : Prop where
  ordered : ∀ {s}, inv s → (waiting s).Ordered rank
  unique : ∀ {s}, inv s → ∀ {p q m}, (waiting s).holds p m → (waiting s).holds q m → p = q
  next : ∀ {s}, inv s → ∀ {p}, alive s p →
    schedule.enabled s p ∨ ∃ m q, (waiting s).wants p = some m ∧ (waiting s).holds q m ∧ alive s q
  stays : ∀ {s label t}, inv s → inv t → machine.step s label = some t → ∀ {p},
    schedule.party label ≠ some p → alive s p →
      alive t p ∧ (waiting t).wants p = (waiting s).wants p
  keeps : ∀ {s label t}, inv s → inv t → machine.step s label = some t → ∀ {p},
    schedule.party label ≠ some p → ∀ m, (waiting t).holds p m ↔ (waiting s).holds p m
  undisturbed : ∀ {s label t}, inv s → inv t → machine.step s label = some t → ∀ {p m},
    schedule.party label ≠ some p → (waiting s).holds p m → effort t p ≤ effort s p
  falls : ∀ {s label t}, inv s → inv t → machine.step s label = some t → ∀ {p m},
    schedule.party label = some p → (waiting s).holds p m → (waiting t).holds p m →
      effort t p < effort s p

namespace Sections

variable {inv : State → Prop} {waiting : State → Waiting Party Mutex}
  {alive : State → Party → Prop} {effort : State → Party → ℕ} {rank : Mutex → ℕ} {bound : ℕ}
  {x : machine.Execution}

theorem not_party {n : ℕ} {label : Label} {p : Party} (hlabel : x.label n = some label)
    (hnot : ¬ x.Takes schedule p n) : schedule.party label ≠ some p := by
  rwa [Execution.Takes, hlabel, Option.bind_some] at hnot

section Execution

variable (h : Sections machine schedule inv waiting alive effort rank)
  (hinv : ∀ n, inv (x.state n))

include h hinv

theorem rests {p : Party} {n : ℕ} (hrests : ∀ m ≥ n, ¬ x.Takes schedule p m)
    (halive : alive (x.state n) p) : ∀ m ≥ n, alive (x.state m) p ∧
      (waiting (x.state m)).wants p = (waiting (x.state n)).wants p := by
  refine x.forever (fun s => alive s p ∧
    (waiting s).wants p = (waiting (x.state n)).wants p) ⟨halive, rfl⟩ ?_
  intro m hm label hlabel hgood
  obtain ⟨hstays, hwants⟩ := h.stays (hinv m) (hinv (m + 1)) (x.step_label hlabel)
    (not_party hlabel (hrests m hm)) hgood.1
  exact ⟨hstays, hwants.trans hgood.2⟩

theorem holder_stays {p q : Party} {m : Mutex} {n : ℕ} (hholds : (waiting (x.state n)).holds q m)
    (hheld : (waiting (x.state (n + 1))).holds p m) : (waiting (x.state (n + 1))).holds q m := by
  cases hlabel : x.label n with
  | none =>
      rw [x.state_succ hlabel]
      exact hholds
  | some label =>
      have hstep := x.step_label hlabel
      by_cases hparty : schedule.party label = some q
      · by_cases hsame : p = q
        · exact hsame ▸ hheld
        · have hother : schedule.party label ≠ some p := by
            rw [hparty]
            exact fun heq => hsame (Option.some.inj heq).symm
          have hbefore := (h.keeps (hinv n) (hinv (n + 1)) hstep hother m).mp hheld
          exact absurd (h.unique (hinv n) hbefore hholds) hsame
      · exact (h.keeps (hinv n) (hinv (n + 1)) hstep hparty m).mpr hholds

theorem section_ends {q : Party} {m : Mutex} {n : ℕ}
    (hholds : ∀ k ≥ n, (waiting (x.state k)).holds q m) :
    ¬ ∃ᶠ k in atTop, x.Takes schedule q k := by
  refine x.not_takes_forever (fun s => effort s q) (n := n) ?_ ?_
  · intro k hk label hlabel hparty
    exact h.undisturbed (hinv k) (hinv (k + 1)) (x.step_label hlabel) hparty (hholds k hk)
  · intro k hk label hlabel hparty
    exact h.falls (hinv k) (hinv (k + 1)) (x.step_label hlabel) hparty (hholds k hk)
      (hholds _ (by omega))

variable (hfair : x.StronglyFair schedule) (hbound : ∀ m, rank m < bound)

include hfair hbound

/-- A party whose wait for a mutex never ends waits for one that waits higher up. -/
theorem not_waiting {p : Party} {m : Mutex} {n : ℕ} (hrests : ∀ k ≥ n, ¬ x.Takes schedule p k)
    (halive : alive (x.state n) p) (hdisabled : ∀ k ≥ n, ¬ schedule.enabled (x.state k) p)
    (hwants : (waiting (x.state n)).wants p = some m) : False := by
  induction hlevel : bound - rank m using Nat.strong_induction_on generalizing p m n with
  | _ level ih =>
      have hheld {k : ℕ} (hk : k ≥ n) :
          ∃ q, (waiting (x.state k)).holds q m ∧ alive (x.state k) q := by
        obtain ⟨hk_alive, hk_wants⟩ := rests h hinv hrests halive k hk
        obtain henabled | ⟨m', q, hm', hq, hq_alive⟩ := h.next (hinv k) hk_alive
        · exact absurd henabled (hdisabled k hk)
        · rw [hk_wants, hwants] at hm'
          exact ⟨q, Option.some.inj hm' ▸ hq, hq_alive⟩
      obtain ⟨q, hq, hq_alive⟩ := hheld le_rfl
      have hholds : ∀ k ≥ n, (waiting (x.state k)).holds q m := by
        intro k hk
        induction k, hk using Nat.le_induction with
        | base => exact hq
        | succ k hk ihk =>
            obtain ⟨q', hq', -⟩ := hheld (k := k + 1) (by omega)
            exact holder_stays h hinv ihk hq'
      have hq_alive {k : ℕ} (hk : k ≥ n) : alive (x.state k) q := by
        obtain ⟨q', hq', halive'⟩ := hheld hk
        exact h.unique (hinv k) hq' (hholds k hk) ▸ halive'
      -- The holder comes to rest inside its section, at a mutex of higher rank.
      obtain ⟨i, hi, hq_rests⟩ := exists_last (section_ends h hinv hholds) n
      obtain ⟨j, hj, hq_disabled⟩ := hfair.exists_disabled hq_rests
      have hn : j ≥ n := hi.trans hj
      obtain henabled | ⟨m', -, hm', -, -⟩ := h.next (hinv j) (hq_alive hn)
      · exact hq_disabled j le_rfl henabled
      · have hascends := (h.ordered (hinv j)).ascending q m m' (hholds j hn) hm'
        have hless : bound - rank m' < level := by
          have := hbound m'
          omega
        exact ih _ hless (fun k hk => hq_rests k (hj.trans hk)) (hq_alive hn) hq_disabled hm' rfl

theorem takes_forever {p : Party} {n : ℕ} (halive : ∀ m ≥ n, alive (x.state m) p) :
    ∃ᶠ m in atTop, x.Takes schedule p m := by
  by_contra hnot
  obtain ⟨i, hi, hrests⟩ := exists_last hnot n
  obtain ⟨j, hj, hdisabled⟩ := hfair.exists_disabled hrests
  have hn : j ≥ n := hi.trans hj
  obtain henabled | ⟨m, -, hwants, -, -⟩ := h.next (hinv j) (halive j hn)
  · exact hdisabled j le_rfl henabled
  · exact not_waiting h hinv hfair hbound (fun k hk => hrests k (hj.trans hk)) (halive j hn)
      hdisabled hwants

/-- A party ends whose every step lowers a measure that no other step raises. -/
theorem exists_ended {p : Party} {n : ℕ} (left : State → ℕ)
    (hle : ∀ m ≥ n, ∀ label, x.label m = some label → schedule.party label ≠ some p →
      alive (x.state m) p → left (x.state (m + 1)) ≤ left (x.state m))
    (hlt : ∀ m ≥ n, ∀ label, x.label m = some label → schedule.party label = some p →
      alive (x.state m) p → left (x.state (m + 1)) < left (x.state m)) :
    ∃ m ≥ n, ¬ alive (x.state m) p := by
  by_contra hnot
  simp only [not_exists, not_and, not_not] at hnot
  refine x.not_takes_forever left (n := n) ?_ ?_ (takes_forever h hinv hfair hbound hnot)
  · exact fun m hm label hlabel hparty => hle m hm label hlabel hparty (hnot m hm)
  · exact fun m hm label hlabel hparty => hlt m hm label hlabel hparty (hnot m hm)

end Execution

end Sections
end Machine
end EdgeAllocator.Foundation
