import Mathlib.Data.Option.Basic

/-! A datum behind a mutex. While the mutex is free the datum is good; a thread
inside its critical section keeps a promise about the datum instead. Nothing
here knows the program that is verified with it. -/
namespace EdgeAllocator.Foundation

/-- What a rule about the mutex sees of a state: its owner, the datum, and for
each thread inside its section what it promises of the datum. -/
structure Monitor (Thread Data : Type) where
  owner : Option Thread
  data : Data
  promise : Thread → Option (Data → Prop)

namespace Monitor

variable {Thread Data : Type} {good : Data → Prop} {m m' : Monitor Thread Data}

/-- Only the owner is inside, its promise holds, and without an owner the datum
is good. -/
structure Protects (good : Data → Prop) (m : Monitor Thread Data) : Prop where
  inside : ∀ thread p, m.promise thread = some p → m.owner = some thread ∧ p m.data
  free : m.owner = none → good m.data

/-- What a step of thread `me` may do to the owner, the datum and its own
promise. -/
inductive Step (good : Data → Prop) (me : Thread) : Option Thread → Data →
    Option (Data → Prop) → Option Thread → Data → Option (Data → Prop) → Prop where
  | keep (owner : Option Thread) (data : Data) (p : Option (Data → Prop)) :
      Step good me owner data p owner data p
  | enter (data : Data) {p : Data → Prop} (hkept : good data → p data) :
      Step good me none data none (some me) data (some p)
  | within (owner : Option Thread) {data data' : Data} {p p' : Data → Prop}
      (hkept : p data → p' data') : Step good me owner data (some p) owner data' (some p')
  | leave (owner : Option Thread) {data data' : Data} {p : Data → Prop}
      (hkept : p data → good data') : Step good me owner data (some p) none data' none

theorem Step.forget {Part : Type} (view : Data → Part) {me : Thread}
    {owner owner' : Option Thread} {data data' : Data} {p p' : Option (Data → Prop)}
    (h : Step good me owner data p owner' data' p') :
    Step (fun _ => True) me owner (view data) (p.map fun _ _ => True) owner' (view data')
      (p'.map fun _ _ => True) := by
  cases h with
  | keep => exact .keep _ _ _
  | enter _ _ => exact .enter _ id
  | within _ _ => exact .within _ id
  | leave _ _ => exact .leave _ id

theorem Protects.step (h : Protects good m) {me : Thread}
    (hstep : Step good me m.owner m.data (m.promise me) m'.owner m'.data (m'.promise me))
    (hothers : ∀ thread, thread ≠ me → m'.promise thread = m.promise thread) :
    Protects good m' := by
  obtain ⟨owner, data, promise⟩ := m
  obtain ⟨owner', data', promise'⟩ := m'
  simp only at hstep hothers
  have hmine := h.inside me
  have hother {thread : Thread} {p : Data → Prop} (hp : promise thread = some p) :
      owner = some thread ∧ p data := h.inside thread p hp
  generalize hme : promise me = mine at hstep
  generalize hme' : promise' me = mine' at hstep
  cases hstep with
  | keep =>
      refine ⟨fun thread p hp => h.inside thread p ?_, h.free⟩
      by_cases heq : thread = me
      · rw [heq] at hp ⊢
        exact (hme.trans hme'.symm).trans hp
      · exact (hothers thread heq).symm.trans hp
  | enter _ hkept =>
      refine ⟨fun thread q hq => ?_, fun hfree => (by cases hfree)⟩
      by_cases heq : thread = me
      · rw [heq] at hq ⊢
        cases hme'.symm.trans hq
        exact ⟨rfl, hkept (h.free rfl)⟩
      · cases (hother ((hothers thread heq).symm.trans hq)).1
  | within _ hkept =>
      obtain ⟨howner, hp⟩ := hmine _ hme
      refine ⟨fun thread q hq => ?_, fun hfree => ?_⟩
      · by_cases heq : thread = me
        · rw [heq] at hq ⊢
          cases hme'.symm.trans hq
          exact ⟨howner, hkept hp⟩
        · have howner' := (hother ((hothers thread heq).symm.trans hq)).1
          exact absurd (Option.some.inj (howner'.symm.trans howner)) heq
      · cases howner.symm.trans hfree
  | leave _ hkept =>
      obtain ⟨howner, hp⟩ := hmine _ hme
      refine ⟨fun thread q hq => ?_, fun _ => hkept hp⟩
      by_cases heq : thread = me
      · rw [heq] at hq
        cases hme'.symm.trans hq
      · have howner' := (hother ((hothers thread heq).symm.trans hq)).1
        exact absurd (Option.some.inj (howner'.symm.trans howner)) heq

theorem Protects.disturb (h : Protects good m) (howner : m'.owner = m.owner)
    (hpromise : ∀ thread, m'.promise thread = m.promise thread)
    (hkept : ∀ thread p, m.owner = some thread → m.promise thread = some p → p m.data → p m'.data)
    (hgood : good m.data → good m'.data) : Protects good m' := by
  refine ⟨fun thread p hp => ?_, fun hfree => hgood (h.free (howner ▸ hfree))⟩
  rw [hpromise] at hp
  obtain ⟨hinside, hdata⟩ := h.inside thread p hp
  exact ⟨howner.trans hinside, hkept thread p hinside hp hdata⟩

end Monitor
end EdgeAllocator.Foundation
