import Mathlib.Data.List.Basic

/-! Tables as lists of rows, with a primary key in some and references from others. -/
namespace EdgeAllocator.Foundation

variable {α β κ : Type*}

/-- `INSERT OR REPLACE`: the row comes last, and in the place of the one of its key. -/
def replace [DecidableEq κ] (key : α → κ) (row : α) (rows : List α) : List α :=
  rows.filter (fun other => key other ≠ key row) ++ [row]

theorem mem_replace_keys [DecidableEq κ] {key : α → κ} {row : α} {rows : List α} {k : κ} :
    k ∈ (replace key row rows).map key ↔ k ∈ rows.map key ∨ k = key row := by
  rw [replace, List.map_append, List.mem_append, List.map_singleton, List.mem_singleton]
  by_cases hk : k = key row
  · simp [hk]
  · simp only [hk, or_false, List.mem_map, List.mem_filter, decide_eq_true_eq]
    constructor
    · rintro ⟨other, ⟨hmem, -⟩, hkey⟩
      exact ⟨other, hmem, hkey⟩
    · rintro ⟨other, hmem, hkey⟩
      exact ⟨other, ⟨hmem, by rwa [hkey]⟩, hkey⟩

theorem replace_of_fresh [DecidableEq κ] {key : α → κ} {row : α} {rows : List α}
    (h : key row ∉ rows.map key) : replace key row rows = rows ++ [row] := by
  rw [replace, List.filter_eq_self.mpr]
  intro other hother
  have hne : key other ≠ key row := fun heq => h (heq ▸ List.mem_map_of_mem hother)
  simpa using hne

def lookup [DecidableEq κ] (key : α → κ) (k : κ) (rows : List α) : Option α :=
  rows.find? fun row => key row = k

section Lookup

variable [DecidableEq κ] {key : α → κ} {rows : List α} {k : κ}

theorem lookup_filter_ne {k' : κ} (h : k ≠ k') :
    lookup key k (rows.filter fun row => key row ≠ k') = lookup key k rows := by
  unfold lookup
  rw [List.find?_filter]
  congr 1
  funext row
  by_cases hrow : key row = k
  · simp [hrow, h]
  · simp [hrow]

theorem lookup_replace_ne {row : α} (h : k ≠ key row) :
    lookup key k (replace key row rows) = lookup key k rows := by
  have hlast : lookup key k [row] = none := by simp [lookup, Ne.symm h]
  have hsplit : lookup key k (replace key row rows) =
      (lookup key k (rows.filter fun other => key other ≠ key row)).or (lookup key k [row]) :=
    List.find?_append
  rw [hsplit, hlast, Option.or_none, lookup_filter_ne h]

theorem lookup_map_ne {f : α → α} (hkey : ∀ row, key (f row) = key row)
    (h : ∀ row, key row = k → f row = row) : lookup key k (rows.map f) = lookup key k rows := by
  induction rows with
  | nil => rfl
  | cons row rows ih =>
      unfold lookup at ih ⊢
      rw [List.map_cons, List.find?_cons, List.find?_cons, hkey, ih]
      by_cases hrow : key row = k
      · rw [h row hrow]
      · simp [hrow]

theorem nodup_replace_keys {row : α} (h : (rows.map key).Nodup) :
    ((replace key row rows).map key).Nodup := by
  rw [replace, List.map_append, List.nodup_append]
  refine ⟨h.sublist (List.filter_sublist.map key), List.pairwise_singleton _ _, ?_⟩
  intro k hk k' hk'
  obtain ⟨other, hother, rfl⟩ := List.mem_map.mp hk
  rw [List.map_singleton, List.mem_singleton] at hk'
  rw [hk']
  simpa using (List.mem_filter.mp hother).2

end Lookup

section Unique

variable [DecidableEq κ] {key : α → κ} {rows : List α}

theorem filter_key_of_mem (h : (rows.map key).Nodup) {row : α} (hrow : row ∈ rows) :
    rows.filter (fun other => key other = key row) = [row] := by
  induction rows with
  | nil => cases hrow
  | cons head rest ih =>
      obtain ⟨hfresh, hnodup⟩ := List.nodup_cons.mp h
      obtain rfl | hmem := List.mem_cons.mp hrow
      · rw [List.filter_cons_of_pos (by simp), List.filter_eq_nil_iff.mpr]
        intro other hother
        have hne : key other ≠ key row := fun heq => hfresh (heq ▸ List.mem_map_of_mem hother)
        simpa using hne
      · have hne : key head ≠ key row := fun heq => hfresh (heq ▸ List.mem_map_of_mem hmem)
        rw [List.filter_cons_of_neg (by simpa using hne), ih hnodup hmem]

theorem filter_key_of_not_mem {k : κ} (h : k ∉ rows.map key) :
    rows.filter (fun other => key other = k) = [] := by
  rw [List.filter_eq_nil_iff]
  intro other hother
  have hne : key other ≠ k := fun heq => h (heq ▸ List.mem_map_of_mem hother)
  simpa using hne

end Unique

def Refers (reference : β → κ) (children : List β) (key : α → κ) (parents : List α) : Prop :=
  ∀ child ∈ children, reference child ∈ parents.map key

def Unreferenced (reference : β → κ) (children : List β) (key : α → κ) (parents : List α) :
    Prop :=
  ∀ child ∈ children, reference child ∉ parents.map key

instance [DecidableEq κ] (reference : β → κ) (children : List β) (key : α → κ)
    (parents : List α) : Decidable (Unreferenced reference children key parents) :=
  inferInstanceAs (Decidable (∀ child ∈ children, _))

section Refers

variable {reference : β → κ} {children : List β} {key : α → κ} {parents : List α}

theorem Refers.nil : Refers reference [] key parents := fun _ h => by cases h

theorem refers_append_iff {child : β} :
    Refers reference (children ++ [child]) key parents ↔
      Refers reference children key parents ∧ reference child ∈ parents.map key := by
  unfold Refers
  simp [or_imp, forall_and]

theorem Refers.mono {parents' : List α} (h : Refers reference children key parents)
    (hkeys : ∀ k ∈ parents.map key, k ∈ parents'.map key) :
    Refers reference children key parents' :=
  fun child hchild => hkeys _ (h child hchild)

theorem Refers.subset {children' : List β} (h : Refers reference children key parents)
    (hsubset : ∀ child ∈ children', child ∈ children) : Refers reference children' key parents :=
  fun child hchild => h child (hsubset child hchild)

/-- Replacing a parent row deletes it in passing only. -/
theorem Refers.replace_parent [DecidableEq κ] (h : Refers reference children key parents)
    (row : α) : Refers reference children key (replace key row parents) :=
  h.mono fun _ hk => mem_replace_keys.mpr (Or.inl hk)

theorem refers_replace_child_iff {ι : Type*} [DecidableEq ι] {id : β → ι} {row : β}
    (h : Refers reference children key parents) :
    Refers reference (replace id row children) key parents ↔
      reference row ∈ parents.map key := by
  rw [replace, refers_append_iff]
  exact and_iff_right (h.subset fun child hchild => List.mem_of_mem_filter hchild)

theorem Refers.map_child (h : Refers reference children key parents) {f : β → β}
    (hf : ∀ child, reference (f child) = reference child) :
    Refers reference (children.map f) key parents := by
  intro child hchild
  obtain ⟨before, hbefore, rfl⟩ := List.mem_map.mp hchild
  rw [hf before]
  exact h before hbefore

theorem refers_nil_iff : Refers reference children key ([] : List α) ↔ children = [] := by
  rw [List.eq_nil_iff_forall_not_mem]
  exact forall_congr' fun child => by simp

theorem unreferenced_iff (h : Refers reference children key parents) :
    Unreferenced reference children key parents ↔ children = [] := by
  rw [List.eq_nil_iff_forall_not_mem]
  exact forall_congr' fun child =>
    ⟨fun hnone hchild => hnone hchild (h child hchild), fun hnone hchild => absurd hchild hnone⟩

theorem unreferenced_nil_child : Unreferenced reference [] key parents :=
  fun _ h => by cases h

end Refers

end EdgeAllocator.Foundation
