import Mathlib.Data.List.Basic
import Mathlib.Order.Basic

/-! Code of one thread under non-recursive mutexes. It is given the mutexes that
the thread holds, and it ends where it tries to lock one of them again. Code that
takes its mutexes in the order of a ranking never does. -/
namespace EdgeAllocator.Foundation

inductive Halt (M : Type) where
  | relock (m : M)
  | fault

def Locking (M σ α : Type) : Type := List M → σ → Except (Halt M) (α × σ)

namespace Locking

variable {M σ α β : Type}

instance : Monad (Locking M σ) where
  pure a := fun _ s => .ok (a, s)
  bind c f := fun held s =>
    match c held s with
    | .ok (a, s') => f a held s'
    | .error halt => .error halt

def read (f : σ → α) : Locking M σ α := fun _ s => .ok (f s, s)

def modify (f : σ → σ) : Locking M σ Unit := fun _ s => .ok ((), f s)

def fault : Locking M σ α := fun _ _ => .error .fault

def withLock [DecidableEq M] (m : M) (c : Locking M σ α) : Locking M σ α := fun held s =>
  if m ∈ held then .error (.relock m) else c (m :: held) s

/-- The code locks a mutex that its thread holds already. -/
def Relocks (c : Locking M σ α) (held : List M) (s : σ) : Prop :=
  ∃ m, c held s = .error (.relock m)

def outcome : Option (α × σ) → Except (Halt M) (α × σ)
  | none => .error .fault
  | some result => .ok result

/-- With no mutex of rank `r` or above held, the code is the function. -/
def Computes (rank : M → Nat) (r : Nat) (c : Locking M σ α) (f : σ → Option (α × σ)) : Prop :=
  ∀ held, (∀ m ∈ held, rank m < r) → ∀ s, c held s = outcome (f s)

theorem outcome_ne_relock (result : Option (α × σ)) (m : M) :
    outcome result ≠ .error (.relock m) := by
  cases result <;> exact nofun

theorem bind_ok {c : Locking M σ α} {held : List M} {s s' : σ} {a : α}
    (h : c held s = .ok (a, s')) (k : α → Locking M σ β) : (c >>= k) held s = k a held s' := by
  show (match c held s with
    | .ok (a, s') => k a held s'
    | .error halt => .error halt) = _
  rw [h]

theorem bind_error {c : Locking M σ α} {held : List M} {s : σ} {halt : Halt M}
    (h : c held s = .error halt) (k : α → Locking M σ β) : (c >>= k) held s = .error halt := by
  show (match c held s with
    | .ok (a, s') => k a held s'
    | .error halt => .error halt) = _
  rw [h]

theorem withLock_free [DecidableEq M] {m : M} {held : List M} (h : m ∉ held)
    (c : Locking M σ α) (s : σ) : withLock m c held s = c (m :: held) s :=
  if_neg h

theorem withLock_held [DecidableEq M] {m : M} {held : List M} (h : m ∈ held)
    (c : Locking M σ α) (s : σ) : withLock m c held s = .error (.relock m) :=
  if_pos h

namespace Computes

variable {rank : M → Nat} {r : Nat} {c : Locking M σ α} {f : σ → Option (α × σ)}

theorem not_relocks (h : Computes rank r c f) {held : List M} (hheld : ∀ m ∈ held, rank m < r)
    (s : σ) : ¬Relocks c held s := by
  intro ⟨m, hm⟩
  exact outcome_ne_relock (f s) m ((h held hheld s).symm.trans hm)

theorem congr {g : σ → Option (α × σ)} (h : Computes rank r c f) (hfg : ∀ s, f s = g s) :
    Computes rank r c g := by
  intro held hheld s
  rw [h held hheld s, hfg s]

theorem mono {r' : Nat} (h : Computes rank r c f) (hr : r' ≤ r) : Computes rank r' c f :=
  fun held hheld => h held fun m hm => Nat.lt_of_lt_of_le (hheld m hm) hr

protected theorem pure (a : α) :
    Computes rank r (pure a : Locking M σ α) fun s => some (a, s) :=
  fun _ _ _ => rfl

protected theorem read (g : σ → α) :
    Computes rank r (.read g : Locking M σ α) fun s => some (g s, s) :=
  fun _ _ _ => rfl

protected theorem modify (g : σ → σ) :
    Computes rank r (.modify g : Locking M σ Unit) fun s => some ((), g s) :=
  fun _ _ _ => rfl

protected theorem fault : Computes rank r (.fault : Locking M σ α) fun _ => none :=
  fun _ _ _ => rfl

protected theorem bind {k : α → Locking M σ β} {g : α → σ → Option (β × σ)}
    (h : Computes rank r c f) (hk : ∀ a, Computes rank r (k a) (g a)) :
    Computes rank r (c >>= k) fun s => (f s).bind fun (a, s') => g a s' := by
  intro held hheld s
  have hc := h held hheld s
  dsimp only
  cases hresult : f s with
  | none =>
      rw [hresult] at hc
      exact bind_error hc k
  | some result =>
      rw [hresult] at hc
      exact (bind_ok hc k).trans (hk result.1 held hheld result.2)

protected theorem ite {c' : Locking M σ α} {f' : σ → Option (α × σ)} (p : Prop) [Decidable p]
    (h : Computes rank r c f) (h' : Computes rank r c' f') :
    Computes rank r (if p then c else c') fun s => if p then f s else f' s := by
  split <;> assumption

protected theorem withLock [DecidableEq M] {m : M} (hm : r ≤ rank m)
    (h : Computes rank (rank m + 1) c f) : Computes rank r (withLock m c) f := by
  intro held hheld s
  rw [withLock_free (fun hmem => absurd (hheld m hmem) (by omega))]
  apply h
  intro m' hm'
  rcases List.mem_cons.mp hm' with rfl | hmem
  · omega
  · have := hheld m' hmem
    omega

theorem foldlM {step : β → α → Locking M σ β} {next : σ → β → α → β}
    (h : ∀ b a, Computes rank r (step b a) fun s => some (next s b a, s)) (l : List α) (b : β) :
    Computes rank r (l.foldlM step b) fun s => some (l.foldl (next s) b, s) := by
  induction l generalizing b with
  | nil => exact Computes.pure b
  | cons a l ih => exact Computes.bind (h b a) ih

theorem forM {body : α → Locking M σ Unit} {next : σ → α → σ}
    (h : ∀ a, Computes rank r (body a) fun s => some ((), next s a)) (l : List α) :
    Computes rank r (l.forM body) fun s => some ((), l.foldl next s) := by
  induction l with
  | nil => exact Computes.pure ()
  | cons a l ih => exact Computes.bind (h a) fun _ => ih

end Computes
end Locking
end EdgeAllocator.Foundation
