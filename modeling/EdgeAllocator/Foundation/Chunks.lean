import Mathlib.Data.List.Infix
import Mathlib.Data.List.DropRight

/-! A stream that arrives in chunks: reading while more is wanted, and the first place
of a pattern in what has been read. -/
namespace EdgeAllocator.Foundation

variable {α : Type}

/-- A stream as `recv` may deliver it: cut into chunks of at most `limit` bytes. -/
structure Segmentation (limit : Nat) (stream : List α) where
  chunks : List (List α)
  joined : chunks.flatten = stream
  sized : ∀ chunk ∈ chunks, 1 ≤ chunk.length ∧ chunk.length ≤ limit

theorem Segmentation.ne_nil {limit : Nat} {stream : List α} (cut : Segmentation limit stream) :
    ∀ chunk ∈ cut.chunks, chunk ≠ [] :=
  fun chunk hchunk => List.ne_nil_of_length_pos (cut.sized chunk hchunk).1

/-- Appends chunks to what has been read while `more` of it is wanted. An empty chunk is
the end of the stream. -/
def readWhile (more : List α → Bool) (text : List α) : List (List α) → List α × List (List α)
  | [] => (text, [])
  | chunk :: later =>
      if more text = true ∧ chunk.isEmpty = false then readWhile more (text ++ chunk) later
      else (text, chunk :: later)

/-- Nothing is lost and nothing is read twice. -/
theorem readWhile_joined (more : List α → Bool) (text : List α) (chunks : List (List α)) :
    (readWhile more text chunks).1 ++ (readWhile more text chunks).2.flatten =
      text ++ chunks.flatten := by
  induction chunks generalizing text with
  | nil => rfl
  | cons chunk later ih =>
      unfold readWhile
      split
      · rw [ih, List.flatten_cons, List.append_assoc]
      · rfl

theorem readWhile_suffix (more : List α → Bool) (text : List α) (chunks : List (List α)) :
    (readWhile more text chunks).2 <:+ chunks := by
  induction chunks generalizing text with
  | nil => exact List.suffix_refl []
  | cons chunk later ih =>
      unfold readWhile
      split
      · exact (ih _).trans (List.suffix_cons chunk later)
      · exact List.suffix_refl _

theorem readWhile_stops (more : List α → Bool) (text : List α) {chunks : List (List α)}
    (hchunks : ∀ chunk ∈ chunks, chunk ≠ []) :
    more (readWhile more text chunks).1 = false ∨ (readWhile more text chunks).2 = [] := by
  induction chunks generalizing text with
  | nil => exact Or.inr rfl
  | cons chunk later ih =>
      have hchunk : chunk.isEmpty = false :=
        List.isEmpty_eq_false_iff.mpr (hchunks chunk List.mem_cons_self)
      unfold readWhile
      split
      · exact ih _ fun chunk' hchunk' => hchunks chunk' (List.mem_cons_of_mem chunk hchunk')
      · rename_i hstop
        cases hmore : more text with
        | false => exact Or.inl rfl
        | true => exact absurd ⟨hmore, hchunk⟩ hstop

variable [DecidableEq α] {pattern text rest : List α}

def find (pattern : List α) : List α → Option Nat
  | [] => if pattern = [] then some 0 else none
  | c :: text => if pattern <+: c :: text then some 0 else (find pattern text).map (· + 1)

theorem find_within {i : Nat} (h : find pattern text = some i) :
    i + pattern.length ≤ text.length := by
  induction text generalizing i with
  | nil =>
      unfold find at h
      split at h
      · rename_i hempty
        cases h
        subst hempty
        exact Nat.le_refl 0
      · cases h
  | cons c text ih =>
      unfold find at h
      split at h
      · rename_i hprefix
        cases h
        rw [Nat.zero_add]
        exact hprefix.length_le
      · obtain ⟨j, hj, rfl⟩ := Option.map_eq_some_iff.mp h
        have hwithin := ih hj
        rw [List.length_cons]
        omega

theorem find_append {i : Nat} (rest : List α) (h : find pattern text = some i) :
    find pattern (text ++ rest) = some i := by
  induction text generalizing i with
  | nil =>
      unfold find at h
      split at h
      · rename_i hempty
        cases h
        subst hempty
        cases rest with
        | nil => rfl
        | cons c rest => exact if_pos List.nil_prefix
      · cases h
  | cons c text ih =>
      unfold find at h
      rw [List.cons_append]
      unfold find
      split at h
      · rename_i hprefix
        have hlonger : pattern <+: c :: (text ++ rest) :=
          hprefix.trans (List.prefix_append (c :: text) rest)
        rw [if_pos hlonger]
        exact h
      · rename_i hprefix
        obtain ⟨j, hj, rfl⟩ := Option.map_eq_some_iff.mp h
        have hlength : pattern.length ≤ (c :: text).length := by
          have hwithin := find_within hj
          rw [List.length_cons]
          omega
        have hlonger : ¬ pattern <+: c :: (text ++ rest) := fun hlong =>
          hprefix (List.prefix_of_prefix_length_le hlong (List.prefix_append (c :: text) rest)
            hlength)
        rw [if_neg hlonger, ih hj]
        rfl

theorem find_of_append {i : Nat} (h : find pattern (text ++ rest) = some i)
    (hwithin : i + pattern.length ≤ text.length) : find pattern text = some i := by
  induction text generalizing i with
  | nil =>
      have hempty : pattern = [] := List.eq_nil_of_length_eq_zero (by
        rw [List.length_nil] at hwithin
        omega)
      have hi : i = 0 := by
        rw [List.length_nil] at hwithin
        omega
      rw [hi]
      exact if_pos hempty
  | cons c text ih =>
      rw [List.cons_append] at h
      unfold find at h ⊢
      split at h
      · rename_i hprefix
        cases h
        rw [if_pos (List.prefix_of_prefix_length_le hprefix (List.prefix_append (c :: text) rest)
          (by omega))]
      · rename_i hprefix
        obtain ⟨j, hj, rfl⟩ := Option.map_eq_some_iff.mp h
        have hshorter : ¬ pattern <+: c :: text := fun hshort =>
          hprefix (hshort.trans (List.prefix_append (c :: text) rest))
        rw [if_neg hshorter, ih hj (by rw [List.length_cons] at hwithin; omega)]
        rfl

end EdgeAllocator.Foundation
