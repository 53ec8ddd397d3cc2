import EdgeAllocator.Foundation.Monitor
import Mathlib.Logic.Relation
import Mathlib.Order.WellFounded

/-! Mutexes with an owner, and threads that wait for one another. Where every
thread takes its mutexes in the order of a ranking, each wait leads to a thread
that moves. Nothing here knows the program that is verified with it. -/
namespace EdgeAllocator.Foundation

section Ownership

variable {Thread : Type} {owner owner' : Option Thread} {inside inside' : Thread → Bool}

def Exclusive (owner : Option Thread) (inside : Thread → Bool) : Prop :=
  ∀ thread, inside thread = true ↔ owner = some thread

/-- What a step of thread `me` may do to the owner of a mutex and to whether it
is inside itself. -/
inductive LockStep (me : Thread) : Option Thread → Bool → Option Thread → Bool → Prop where
  | keep (owner : Option Thread) (inside : Bool) : LockStep me owner inside owner inside
  | enter : LockStep me none false (some me) true
  | leave (owner : Option Thread) : LockStep me owner true none false

theorem Monitor.Step.lockStep {Data : Type} {good : Data → Prop} {me : Thread}
    {data data' : Data} {p p' : Option (Data → Prop)}
    (h : Monitor.Step good me owner data p owner' data' p') :
    LockStep me owner p.isSome owner' p'.isSome := by
  cases h with
  | keep => exact .keep _ _
  | enter => exact .enter
  | within => exact .keep _ _
  | leave => exact .leave _

theorem Exclusive.free (hinside : ∀ thread, inside thread = false) : Exclusive none inside :=
  fun thread => by simp [hinside thread]

theorem Exclusive.unique (h : Exclusive owner inside) {thread other : Thread}
    (hthread : inside thread = true) (hother : inside other = true) : thread = other :=
  Option.some.inj (((h thread).mp hthread).symm.trans ((h other).mp hother))

theorem Exclusive.outside (h : Exclusive owner inside) {thread other : Thread}
    (hthread : inside thread = true) (hne : other ≠ thread) : inside other = false :=
  Bool.eq_false_iff.mpr fun hother => hne (h.unique hother hthread)

theorem Exclusive.step (h : Exclusive owner inside) {me : Thread}
    (hstep : LockStep me owner (inside me) owner' (inside' me))
    (hothers : ∀ thread, thread ≠ me → inside' thread = inside thread) :
    Exclusive owner' inside' := by
  intro thread
  have hme := h me
  have hthread := h thread
  by_cases heq : thread = me
  · subst heq
    generalize inside thread = was at hstep hme
    generalize inside' thread = becomes at hstep
    cases hstep with
    | keep => exact hme
    | enter => simp
    | leave => simp
  · rw [hothers thread heq]
    generalize inside me = was at hstep hme
    generalize inside' me = becomes at hstep
    cases hstep with
    | keep => exact hthread
    | enter => simpa [Ne.symm heq] using hthread
    | leave =>
        rw [hthread, hme.mp rfl]
        simp [Ne.symm heq]

end Ownership

section Waiting

variable {Party Mutex : Type}

/-- What each party waits for: a mutex that it is about to take, or the end of
another party. -/
structure Waiting (Party Mutex : Type) where
  wants : Party → Option Mutex
  holds : Party → Mutex → Prop
  joins : Party → Party → Prop

namespace Waiting

variable (waiting : Waiting Party Mutex)

def WaitsFor (p q : Party) : Prop :=
  (∃ m, waiting.wants p = some m ∧ waiting.holds q m) ∨ waiting.joins p q

/-- Mutexes are taken in the order of a ranking; who waits for the end of another
party holds none and is itself waited for by no one. -/
structure Ordered (rank : Mutex → Nat) : Prop where
  ascending : ∀ p m m', waiting.holds p m → waiting.wants p = some m' → rank m < rank m'
  unburdened : ∀ p q, waiting.joins p q → ∀ m, ¬ waiting.holds p m
  unawaited : ∀ p q, waiting.joins p q → ∀ r, ¬ waiting.joins r p

variable {waiting} {rank : Mutex → Nat} {bound : Nat}

open Classical in
noncomputable def level (waiting : Waiting Party Mutex) (rank : Mutex → Nat) (bound : Nat)
    (p : Party) : Nat :=
  if ∃ q, waiting.joins p q then bound + 1
  else (waiting.wants p).elim 0 fun m => bound - rank m

theorem Ordered.level_lt (h : waiting.Ordered rank) (hbound : ∀ m, rank m < bound) {p q : Party}
    (hwaits : waiting.WaitsFor p q) :
    level waiting rank bound q < level waiting rank bound p := by
  rcases hwaits with ⟨m, hwants, hholds⟩ | hjoins
  · have hq : ¬ ∃ r, waiting.joins q r := fun ⟨r, hjoins⟩ => h.unburdened q r hjoins m hholds
    have hm := hbound m
    unfold level
    rw [if_neg hq, hwants]
    cases hnext : waiting.wants q with
    | none =>
        split_ifs <;> simp only [Option.elim_none, Option.elim_some] <;> omega
    | some m' =>
        have := h.ascending q m m' hholds hnext
        have := hbound m'
        split_ifs <;> simp only [Option.elim_some] <;> omega
  · have hq : ¬ ∃ r, waiting.joins q r := fun ⟨r, hr⟩ => h.unawaited q r hr p hjoins
    unfold level
    rw [if_neg hq, if_pos ⟨q, hjoins⟩]
    cases waiting.wants q with
    | none => exact Nat.succ_pos _
    | some m =>
        simp only [Option.elim_some]
        omega

theorem Ordered.acyclic (h : waiting.Ordered rank) (hbound : ∀ m, rank m < bound) (p : Party) :
    ¬ Relation.TransGen waiting.WaitsFor p p := by
  have hdescends {p q : Party} (hchain : Relation.TransGen waiting.WaitsFor p q) :
      level waiting rank bound q < level waiting rank bound p := by
    induction hchain with
    | single hwaits => exact h.level_lt hbound hwaits
    | tail _ hwaits ih => exact (h.level_lt hbound hwaits).trans ih
  exact fun hcycle => lt_irrefl _ (hdescends hcycle)

/-- Where every party that is alive moves or waits for one that is alive, each
of them waits, in the end, for one that moves. -/
theorem Ordered.chain (h : waiting.Ordered rank) (hbound : ∀ m, rank m < bound)
    {alive moves : Party → Prop}
    (hnext : ∀ p, alive p → moves p ∨ ∃ q, waiting.WaitsFor p q ∧ alive q) {p : Party}
    (hp : alive p) : ∃ q, Relation.ReflTransGen waiting.WaitsFor p q ∧ moves q := by
  induction hlevel : level waiting rank bound p using Nat.strong_induction_on generalizing p with
  | _ n ih =>
      rcases hnext p hp with hmoves | ⟨q, hwaits, hq⟩
      · exact ⟨p, .refl, hmoves⟩
      · obtain ⟨r, hchain, hmoves⟩ := ih _ (hlevel ▸ h.level_lt hbound hwaits) hq rfl
        exact ⟨r, .head hwaits hchain, hmoves⟩

end Waiting
end Waiting
end EdgeAllocator.Foundation
