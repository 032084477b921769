import Mathlib.Data.Finset.Card
import Mathlib.Data.Finset.Image

/-!
    A memory of bounded size that works in rounds. In each round a list of values is entered, of which
    the memory takes those for which it still has room, next to what it held before; then it forgets
    what was not in the list. -/

namespace Memory

variable {α : Type} [DecidableEq α]

/-- Enter one value, if there is room. -/
def enter (n : ℕ) (held : Finset α) (x : α) : Finset α :=
  if held.card < n then insert x held else held

/-- Enter one value after another. -/
def enterAll (n : ℕ) (held : Finset α) (l : List α) : Finset α := l.foldl (enter n) held

/-- One round of the memory. -/
def round (n : ℕ) (held : Finset α) (l : List α) : Finset α :=
  (enterAll n held l).filter fun x => x ∈ l

variable {n : ℕ} {held : Finset α} {x y : α} {l : List α}

theorem enter_of_mem (h : x ∈ held) : enter n held x = held := by
  unfold enter
  rw [Finset.insert_eq_self.mpr h, ite_self]

theorem mem_enter_of_mem (h : y ∈ held) : y ∈ enter n held x := by
  unfold enter
  split
  · exact Finset.mem_insert_of_mem h
  · exact h

theorem mem_of_mem_enter (h : y ∈ enter n held x) : y = x ∨ y ∈ held := by
  unfold enter at h
  split at h
  · exact Finset.mem_insert.mp h
  · exact Or.inr h

theorem mem_enterAll_of_mem : ∀ {l : List α} {held : Finset α}, y ∈ held → y ∈ enterAll n held l
  | [], _, h => h
  | _ :: l, _, h => mem_enterAll_of_mem (l := l) (mem_enter_of_mem h)

/-- What comes first finds room, if there is any. -/
theorem mem_enterAll_cons (h : held.card < n) : x ∈ enterAll n held (x :: l) := by
  refine mem_enterAll_of_mem (l := l) ?_
  rw [enter, if_pos h]
  exact Finset.mem_insert_self x held

theorem mem_of_mem_enterAll : ∀ {l : List α} {held : Finset α}, y ∈ enterAll n held l →
    y ∈ l ∨ y ∈ held := by
  intro l
  induction l with
  | nil =>
    intro _ h
    exact Or.inr h
  | cons x l ih =>
    intro held h
    rcases ih h with h | h
    · exact Or.inl (List.mem_cons_of_mem x h)
    · rcases mem_of_mem_enter h with rfl | h
      · exact Or.inl List.mem_cons_self
      · exact Or.inr h

theorem mem_round : x ∈ round n held l ↔ x ∈ enterAll n held l ∧ x ∈ l := Finset.mem_filter

end Memory
