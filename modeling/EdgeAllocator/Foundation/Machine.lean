import Mathlib.Data.Option.Basic

/-! Labelled machines with a partial step function, their runs, and the rules
that carry a fact from one step to every run. Nothing here knows the program
that is verified with it. -/
namespace EdgeAllocator.Foundation

/-- A label that is not enabled in a state has no successor there. -/
structure Machine (State Label : Type) where
  initial : State → Prop
  step : State → Label → Option State

namespace Machine

variable {State Label : Type} (machine : Machine State Label)

def exec (s : State) : List Label → Option State
  | [] => some s
  | label :: rest => (machine.step s label).bind fun t => exec t rest

def final (s : State) (labels : List Label) : State := (machine.exec s labels).getD s

/-- Runs all of whose steps satisfy `guard`, a condition on the state before
the step and the label of the step. -/
inductive Run (guard : State → Label → Prop) : State → State → Prop where
  | refl (s : State) : Run guard s s
  | tail {s t u : State} {label : Label} : Run guard s t → guard t label →
      machine.step t label = some u → Run guard s u

def Reachable (guard : State → Label → Prop) (s : State) : Prop :=
  ∃ start, machine.initial start ∧ machine.Run guard start s

def free : State → Label → Prop := fun _ _ => True

variable {machine} {guard guard' : State → Label → Prop}

theorem Run.preserves {inv : State → Prop}
    (hstep : ∀ {s label t}, inv s → guard s label → machine.step s label = some t → inv t)
    {s t : State} (hrun : machine.Run guard s t) (hs : inv s) : inv t := by
  induction hrun with
  | refl => exact hs
  | tail _ hguard hlast ih => exact hstep ih hguard hlast

theorem Reachable.invariant {inv : State → Prop}
    (hinit : ∀ {s}, machine.initial s → inv s)
    (hstep : ∀ {s label t}, inv s → guard s label → machine.step s label = some t → inv t)
    {s : State} (hs : machine.Reachable guard s) : inv s := by
  obtain ⟨start, hstart, hrun⟩ := hs
  exact hrun.preserves hstep (hinit hstart)

theorem Run.mono (hguard : ∀ s label, guard s label → guard' s label) {s t : State}
    (hrun : machine.Run guard s t) : machine.Run guard' s t := by
  induction hrun with
  | refl => exact .refl _
  | tail _ hg hlast ih => exact .tail ih (hguard _ _ hg) hlast

theorem Run.trans {s t u : State} (hfirst : machine.Run guard s t)
    (hsecond : machine.Run guard t u) : machine.Run guard s u := by
  induction hsecond with
  | refl => exact hfirst
  | tail _ hg hlast ih => exact .tail ih hg hlast

theorem Reachable.run {s t : State} (hs : machine.Reachable guard s)
    (hrun : machine.Run guard s t) : machine.Reachable guard t := by
  obtain ⟨start, hstart, hfirst⟩ := hs
  exact ⟨start, hstart, hfirst.trans hrun⟩

theorem run_of_exec {labels : List Label} {s t : State} (h : machine.exec s labels = some t) :
    machine.Run free s t := by
  induction labels generalizing s with
  | nil =>
      cases Option.some.inj h
      exact .refl _
  | cons label rest ih =>
      obtain ⟨u, hu, hrest⟩ := Option.bind_eq_some_iff.mp h
      exact (Run.tail (.refl s) trivial hu).trans (ih hrest)

theorem run_final {labels : List Label} {s : State} (h : (machine.exec s labels).isSome) :
    machine.Run free s (machine.final s labels) := by
  obtain ⟨t, ht⟩ := Option.isSome_iff_exists.mp h
  rw [final, ht]
  exact run_of_exec ht

theorem reachable_final {labels : List Label} {s : State} (hs : machine.initial s)
    (h : (machine.exec s labels).isSome) : machine.Reachable free (machine.final s labels) :=
  ⟨s, hs, run_final h⟩

theorem step_final {s : State} {label : Label} (h : (machine.step s label).isSome) :
    machine.step s label = some (machine.final s [label]) := by
  obtain ⟨t, ht⟩ := Option.isSome_iff_exists.mp h
  rw [final, exec, ht]
  rfl

def checks (guard : State → Label → Prop) [∀ s label, Decidable (guard s label)] (s : State) :
    List Label → Bool
  | [] => true
  | label :: rest => decide (guard s label) &&
      ((machine.step s label).map fun t => checks guard t rest).getD false

theorem exec_of_checks [∀ s label, Decidable (guard s label)] {labels : List Label} {s : State}
    (h : machine.checks guard s labels) :
    ∃ t, machine.exec s labels = some t ∧ machine.Run guard s t := by
  induction labels generalizing s with
  | nil => exact ⟨s, rfl, .refl s⟩
  | cons label rest ih =>
      rw [checks, Bool.and_eq_true, decide_eq_true_eq] at h
      obtain ⟨hguard, hrest⟩ := h
      cases hstep : machine.step s label with
      | none =>
          rw [hstep] at hrest
          cases hrest
      | some u =>
          rw [hstep] at hrest
          obtain ⟨t, hexec, hrun⟩ := ih hrest
          refine ⟨t, ?_, (Run.tail (.refl s) hguard hstep).trans hrun⟩
          rw [exec, hstep, Option.bind_some, hexec]

theorem run_of_checks [∀ s label, Decidable (guard s label)] {labels : List Label} {s : State}
    (h : machine.checks guard s labels) : machine.Run guard s (machine.final s labels) := by
  obtain ⟨t, hexec, hrun⟩ := exec_of_checks h
  rw [final, hexec]
  exact hrun

/-- One machine stands for another through a view of its states when every step
is seen as a run. -/
theorem Run.map {State' Label' : Type} {other : Machine State' Label'}
    {otherGuard : State' → Label' → Prop} (view : State → State')
    (hstep : ∀ {s label t}, guard s label → machine.step s label = some t →
      other.Run otherGuard (view s) (view t))
    {s t : State} (hrun : machine.Run guard s t) : other.Run otherGuard (view s) (view t) := by
  induction hrun with
  | refl => exact .refl _
  | tail _ hg hlast ih => exact ih.trans (hstep hg hlast)

theorem Reachable.map {State' Label' : Type} {other : Machine State' Label'}
    {otherGuard : State' → Label' → Prop} (view : State → State')
    (hinit : ∀ {s}, machine.initial s → other.initial (view s))
    (hstep : ∀ {s label t}, guard s label → machine.step s label = some t →
      other.Run otherGuard (view s) (view t))
    {s : State} (hs : machine.Reachable guard s) : other.Reachable otherGuard (view s) := by
  obtain ⟨start, hstart, hrun⟩ := hs
  exact ⟨view start, hinit hstart, hrun.map view hstep⟩

variable (machine)

def Along (good : State → Prop) : State → List Label → Prop
  | s, [] => good s
  | s, label :: rest => good s ∧ ∀ t, machine.step s label = some t → Along good t rest

/-- `meets` holds of every one of the listed steps. -/
def Meets (meets : State → Label → Prop) : State → List Label → Prop
  | _, [] => True
  | s, label :: rest => meets s label ∧ ∀ t, machine.step s label = some t → Meets meets t rest

variable {machine}

theorem Along.head {good : State → Prop} {s : State} {labels : List Label}
    (h : machine.Along good s labels) : good s := by
  cases labels with
  | nil => exact h
  | cons label rest => exact h.1

theorem Along.last {good : State → Prop} {labels : List Label} {s t : State}
    (h : machine.Along good s labels) (hexec : machine.exec s labels = some t) : good t := by
  induction labels generalizing s with
  | nil =>
      cases Option.some.inj hexec
      exact h
  | cons label rest ih =>
      obtain ⟨u, hu, hrest⟩ := Option.bind_eq_some_iff.mp hexec
      exact ih (h.2 u hu) hrest

theorem exec_final {labels : List Label} {s : State} (h : (machine.exec s labels).isSome) :
    machine.exec s labels = some (machine.final s labels) := by
  obtain ⟨t, ht⟩ := Option.isSome_iff_exists.mp h
  rw [final, ht]
  rfl

theorem meets_of_checks [∀ s label, Decidable (guard s label)] {labels : List Label} {s : State}
    (h : machine.checks guard s labels) : machine.Meets guard s labels := by
  induction labels generalizing s with
  | nil => trivial
  | cons label rest ih =>
      rw [checks, Bool.and_eq_true, decide_eq_true_eq] at h
      refine ⟨h.1, fun u hu => ih ?_⟩
      have hrest := h.2
      rw [hu] at hrest
      exact hrest

theorem meets_free {labels : List Label} {s : State} : machine.Meets free s labels := by
  induction labels generalizing s with
  | nil => trivial
  | cons label rest ih => exact ⟨trivial, fun _ _ => ih⟩

theorem exec_append {first second : List Label} {s : State} :
    machine.exec s (first ++ second) =
      (machine.exec s first).bind fun t => machine.exec t second := by
  induction first generalizing s with
  | nil => rfl
  | cons label rest ih =>
      rw [List.cons_append, exec, exec, Option.bind_assoc]
      congr 1
      funext t
      exact ih

theorem meets_congr {inv : State → Prop} {meets meets' : State → Label → Prop}
    (hinv : ∀ {s label t}, inv s → machine.step s label = some t → inv t)
    (hiff : ∀ {s label t}, inv s → machine.step s label = some t → (meets s label ↔ meets' s label))
    {labels : List Label} {s t : State} (hexec : machine.exec s labels = some t) (hs : inv s) :
    machine.Meets meets s labels ↔ machine.Meets meets' s labels := by
  induction labels generalizing s with
  | nil => exact Iff.rfl
  | cons label rest ih =>
      obtain ⟨u, hu, hrest⟩ := Option.bind_eq_some_iff.mp hexec
      have hnext := ih hrest (hinv hs hu)
      apply and_congr (hiff hs hu)
      constructor
      · intro h v hv
        cases hu.symm.trans hv
        exact hnext.mp (h u hu)
      · intro h v hv
        cases hu.symm.trans hv
        exact hnext.mpr (h u hu)

theorem meets_iff_forall_before {meets : State → Label → Prop} {labels : List Label} {s : State} :
    machine.Meets meets s labels ↔ ∀ before label after u, labels = before ++ label :: after →
      machine.exec s before = some u → meets u label := by
  induction labels generalizing s with
  | nil =>
      refine iff_of_true trivial fun before label after u hsplit => ?_
      simp at hsplit
  | cons label rest ih =>
      constructor
      · rintro ⟨hhead, htail⟩ before label' after u hsplit hexec
        cases before with
        | nil =>
            cases hsplit
            cases hexec
            exact hhead
        | cons first before =>
            cases hsplit
            obtain ⟨v, hv, hexec⟩ := Option.bind_eq_some_iff.mp hexec
            exact ih.mp (htail v hv) before label' after u rfl hexec
      · intro h
        refine ⟨h [] label rest s rfl rfl, fun v hv => ih.mpr fun before label' after u hsplit hexec =>
          h (label :: before) label' after u (congrArg (label :: ·) hsplit) ?_⟩
        rw [exec, hv]
        exact hexec

/-- When one step keeps `good` exactly if the step meets a condition, a whole
run stays good exactly if all its steps meet it. -/
theorem along_iff_meets {inv good : State → Prop} {meets : State → Label → Prop}
    (hinv : ∀ {s label t}, inv s → guard s label → machine.step s label = some t → inv t)
    (hgood : ∀ {s label t}, inv s → good s → guard s label → machine.step s label = some t →
      (good t ↔ meets s label))
    {labels : List Label} {s t : State} (hexec : machine.exec s labels = some t)
    (hguard : machine.Meets guard s labels) (hs : inv s) (hstart : good s) :
    machine.Along good s labels ↔ machine.Meets meets s labels := by
  induction labels generalizing s with
  | nil => exact iff_of_true hstart trivial
  | cons label rest ih =>
      obtain ⟨u, hu, hrest⟩ := Option.bind_eq_some_iff.mp hexec
      have hkeep := hgood hs hstart hguard.1 hu
      have hnext := ih hrest (hguard.2 u hu) (hinv hs hguard.1 hu)
      constructor
      · rintro ⟨-, halong⟩
        have hgoodu := (halong u hu).head
        refine ⟨hkeep.mp hgoodu, fun v hv => ?_⟩
        cases hu.symm.trans hv
        exact (hnext hgoodu).mp (halong u hu)
      · rintro ⟨hmeets, hrestMeets⟩
        refine ⟨hstart, fun v hv => ?_⟩
        cases hu.symm.trans hv
        exact (hnext (hkeep.mpr hmeets)).mpr (hrestMeets u hu)

end Machine
end EdgeAllocator.Foundation
