import Mathlib.Data.List.FinRange
import Mathlib.Data.List.Perm.Subperm
import Mathlib.Data.List.ReduceOption
import Mathlib.Data.List.TakeWhile

/-!
    A table of slots, some of them empty, kept as a list of options. A value goes into the first empty
    slot, and its first occurrence is taken out again, which leaves a hole. What the table contains is
    `List.reduceOption`. The last section is on the lists of indices that such a table is compared
    with. -/

namespace Slots

variable {α : Type}

/-- Put `x` into the first empty slot, if there is one. -/
def put : List (Option α) → α → List (Option α)
  | [], _ => []
  | none :: l, x => some x :: l
  | some y :: l, x => some y :: put l x

/-- Empty the first slot that contains `x`, if there is one. -/
def remove [DecidableEq α] : List (Option α) → α → List (Option α)
  | [], _ => []
  | none :: l, x => none :: remove l x
  | some y :: l, x => if x = y then none :: l else some y :: remove l x

/-- `x` is in a slot that comes before every empty one. -/
def Ahead (x : α) (l : List (Option α)) : Prop := some x ∈ l.takeWhile Option.isSome

instance [DecidableEq α] (x : α) (l : List (Option α)) : Decidable (Ahead x l) := by
  unfold Ahead; infer_instance

@[simp] theorem length_put : ∀ (l : List (Option α)) (x : α), (put l x).length = l.length
  | [], _ => rfl
  | none :: _, _ => rfl
  | some y :: l, x => by rw [put, List.length_cons, length_put l x, List.length_cons]

/-- A put brings no value but its own. -/
theorem mem_put {x y : α} : ∀ {l : List (Option α)}, some y ∈ put l x → some y ∈ l ∨ y = x
  | none :: l, h => by
    rw [put, List.mem_cons, Option.some.injEq] at h
    exact h.symm.imp_left (List.mem_cons_of_mem none)
  | some z :: l, h => by
    rw [put, List.mem_cons] at h
    rcases h with h | h
    · exact Or.inl (h ▸ List.mem_cons_self)
    · exact (mem_put h).imp_left (List.mem_cons_of_mem (some z))

/-- A put with room adds one value. -/
theorem reduceOption_put : ∀ {l : List (Option α)} (x : α), none ∈ l →
    (put l x).reduceOption.Perm (x :: l.reduceOption)
  | none :: l, x, _ => by
    rw [put, List.reduceOption_cons_of_some, List.reduceOption_cons_of_none]
  | some y :: l, x, h => by
    have hl : none ∈ l := by simpa using h
    rw [put, List.reduceOption_cons_of_some, List.reduceOption_cons_of_some]
    exact ((reduceOption_put x hl).cons y).trans (.swap x y _)

theorem none_mem_of_length_lt : ∀ {l : List (Option α)}, l.reduceOption.length < l.length → none ∈ l
  | none :: _, _ => List.mem_cons_self
  | some y :: l, h => by
    rw [List.reduceOption_cons_of_some, List.length_cons, List.length_cons] at h
    exact List.mem_cons_of_mem _ (none_mem_of_length_lt (by omega))

theorem length_reduceOption_of_full : ∀ {l : List (Option α)}, none ∉ l →
    l.reduceOption.length = l.length
  | [], _ => rfl
  | none :: _, h => absurd List.mem_cons_self h
  | some y :: l, h => by
    rw [List.reduceOption_cons_of_some, List.length_cons, List.length_cons,
      length_reduceOption_of_full fun hn => h (List.mem_cons_of_mem _ hn)]

/-- In a full table every value is ahead. -/
theorem ahead_of_full {l : List (Option α)} (h : none ∉ l) {x : α} (hx : some x ∈ l) : Ahead x l := by
  unfold Ahead
  rwa [List.takeWhile_eq_self_iff.mpr]
  intro y hy
  cases y with
  | none => exact absurd hy h
  | some z => rfl

variable [DecidableEq α]

theorem reduceOption_remove : ∀ (l : List (Option α)) (x : α),
    (remove l x).reduceOption = l.reduceOption.erase x
  | [], _ => rfl
  | none :: l, x => by
    rw [remove, List.reduceOption_cons_of_none, List.reduceOption_cons_of_none, reduceOption_remove l x]
  | some y :: l, x => by
    rw [remove, List.reduceOption_cons_of_some]
    by_cases hxy : x = y
    · rw [if_pos hxy, hxy, List.reduceOption_cons_of_none, List.erase_cons_head]
    · rw [if_neg hxy, List.reduceOption_cons_of_some, reduceOption_remove l x,
        List.erase_cons_tail (by simpa using fun h => hxy h.symm)]

theorem remove_of_not_mem {x : α} : ∀ {l : List (Option α)}, x ∉ l.reduceOption → remove l x = l
  | [], _ => rfl
  | none :: l, h => by
    rw [List.reduceOption_cons_of_none] at h
    rw [remove, remove_of_not_mem h]
  | some y :: l, h => by
    rw [List.reduceOption_cons_of_some, List.mem_cons, not_or] at h
    rw [remove, if_neg h.1, remove_of_not_mem h.2]

omit [DecidableEq α] in
theorem Ahead.mem {x : α} {l : List (Option α)} (h : Ahead x l) : x ∈ l.reduceOption :=
  List.reduceOption_mem_iff.mpr (List.takeWhile_subset _ h)

/-! ### Indices -/

/-- Filters that select the same indices. -/
theorem filter_eq_of_mem {n : ℕ} {p q : Fin n → Bool}
    (h : ∀ j, j ∈ (List.finRange n).filter p ↔ j ∈ (List.finRange n).filter q) :
    (List.finRange n).filter p = (List.finRange n).filter q := by
  refine List.filter_congr fun j _ => ?_
  have := h j
  simpa only [List.mem_filter, List.mem_finRange, true_and, Bool.coe_iff_coe] using this

/-- Filters of which one selects `i` besides what the other selects. -/
theorem filter_perm_cons {n : ℕ} {p q : Fin n → Bool} {i : Fin n}
    (hi : i ∈ (List.finRange n).filter p)
    (h : ∀ j, j ∈ (List.finRange n).filter q ↔ j ∈ (List.finRange n).filter p ∧ j ≠ i) :
    ((List.finRange n).filter p).Perm (i :: (List.finRange n).filter q) := by
  have hnodup := List.nodup_finRange n
  refine (List.perm_ext_iff_of_nodup (hnodup.filter _) ?_).mpr fun j => ?_
  · exact List.nodup_cons.mpr ⟨fun hiq => ((h i).mp hiq).2 rfl, hnodup.filter _⟩
  · rw [List.mem_cons, h j]
    by_cases hj : j = i
    · subst hj; simp only [hi, true_or]
    · simp only [hj, ne_eq, not_false_eq_true, and_true, false_or]

/-- A filter that selects indices below `m` selects at most `m`. -/
theorem length_filter_le {n m : ℕ} {p : Fin n → Bool}
    (h : ∀ j ∈ (List.finRange n).filter p, (j : ℕ) < m) :
    ((List.finRange n).filter p).length ≤ m := by
  have hnodup : (((List.finRange n).filter p).map Fin.val).Nodup :=
    ((List.nodup_finRange n).filter _).map Fin.val_injective
  have hsub : ((List.finRange n).filter p).map Fin.val ⊆ List.range m := by
    intro x hx
    obtain ⟨j, hj, rfl⟩ := List.mem_map.mp hx
    exact List.mem_range.mpr (h j hj)
  simpa using (hnodup.subperm hsub).length_le

end Slots
