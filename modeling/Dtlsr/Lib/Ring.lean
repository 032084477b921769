import Mathlib.Data.List.DropRight
import Mathlib.Data.Nat.ModEq

/-!
    A ring buffer that overwrites its oldest value when it is full: an array with the index of the next
    cell to write, a count that stops at the size of the array, and a flag for having been filled once.
    The value pushed `j`-th is in cell `j % n`, as long as no more than `n` have been pushed since. -/

namespace Ring

variable {α : Type} {n : ℕ}

/-- The ring into which the values of `l` have been pushed, one after another. -/
structure Holds (cells : Fin n → α) (front count : ℕ) (full : Bool) (l : List α) : Prop where
  front : front = l.length % n
  count : count = min n l.length
  full : full = true ↔ n ≤ l.length
  cell : ∀ (j : ℕ) (hj : j < l.length), l.length ≤ j + n →
    ∀ i : Fin n, (i : ℕ) = j % n → cells i = l[j]

/-- What the ring contains, the oldest value first. -/
def contents [NeZero n] (cells : Fin n → α) (front count : ℕ) (full : Bool) : List α :=
  (List.range count).map fun k => cells (Fin.ofNat n ((if full then front else 0) + k))

variable {cells : Fin n → α} {front count : ℕ} {full : Bool} {l : List α}

theorem Holds.nil (hn : 0 < n) : Holds cells 0 0 false ([] : List α) where
  front := by simp
  count := by simp
  full := by simp; omega
  cell j hj := absurd hj (by simp)

theorem succ_mod_eq (hn : 0 < n) (m : ℕ) : (m + 1) % n = if m % n + 1 = n then 0 else m % n + 1 := by
  have hlt := Nat.mod_lt m hn
  have heq : m + 1 = m % n + 1 + n * (m / n) := by
    have := Nat.mod_add_div m n
    omega
  rw [heq, Nat.add_mul_mod_self_left]
  split
  · rename_i h
    rw [h, Nat.mod_self]
  · rename_i h
    exact Nat.mod_eq_of_lt (by omega)

/-- Two positions less than `n` apart are in different cells. -/
theorem mod_ne_of_lt {j k : ℕ} (hjk : j < k) (hkn : k < j + n) : j % n ≠ k % n := by
  intro h
  have hdvd : n ∣ k - j := (Nat.modEq_iff_dvd' hjk.le).mp h
  have := Nat.le_of_dvd (by omega) hdvd
  omega

theorem Holds.push (h : Holds cells front count full l) {i : Fin n} (hi : (i : ℕ) = front) (x : α) :
    Holds (Function.update cells i x) (if front + 1 = n then 0 else front + 1)
      (if full then count else count + 1) (full || decide (front + 1 = n)) (l ++ [x]) := by
  have hn : 0 < n := i.pos
  have hfront := h.front
  have hlen : (l ++ [x]).length = l.length + 1 := by simp
  have hlast : front + 1 = n → n ≤ l.length + 1 := by
    have := Nat.mod_le l.length n
    omega
  have hfirst : l.length + 1 = n → front = l.length := by
    intro hl
    rw [hfront, Nat.mod_eq_of_lt (by omega)]
  constructor
  · rw [hlen, succ_mod_eq hn, ← hfront]
  · rw [hlen, h.count]
    split
    · rename_i hfull
      have := h.full.mp hfull
      omega
    · rename_i hfull
      have := mt h.full.mpr hfull
      omega
  · rw [hlen, Bool.or_eq_true, h.full, decide_eq_true_eq]
    omega
  · intro j hj hjn i' hi'
    rw [hlen] at hj hjn
    rcases Nat.lt_succ_iff_lt_or_eq.mp hj with hjl | rfl
    · have hne : i' ≠ i := by
        rintro rfl
        exact mod_ne_of_lt (n := n) hjl (by omega) (by rw [← hi', hi, hfront])
      rw [Function.update_of_ne hne, List.getElem_append_left hjl]
      exact h.cell j hjl (by omega) i' hi'
    · have heq : i' = i := Fin.ext (by rw [hi', hi, hfront])
      rw [heq, Function.update_self, List.getElem_append_right le_rfl]
      simp

/-- The ring contains the last `n` values pushed. -/
theorem Holds.contents_eq [NeZero n] (h : Holds cells front count full l) :
    contents cells front count full = l.rtake n := by
  have hn : 0 < n := Nat.pos_of_neZero n
  refine List.ext_getElem ?_ fun k hk hk' => ?_
  · rw [contents, List.length_map, List.length_range, h.count, List.rtake.eq_1, List.length_drop]
    omega
  · simp only [contents, List.length_map, List.length_range] at hk
    rw [h.count] at hk
    simp only [contents, List.getElem_map, List.getElem_range, List.rtake.eq_1, List.getElem_drop]
    refine h.cell _ (by omega) (by omega) _ ?_
    rw [Fin.val_ofNat]
    split
    · rename_i hfull
      have hle := h.full.mp hfull
      have heq : l.length = l.length - n + n := by omega
      rw [h.front, Nat.mod_add_mod]
      conv_lhs => rw [heq]
      rw [Nat.add_right_comm, Nat.add_mod_right]
    · rename_i hfull
      have hlt := mt h.full.mpr hfull
      rw [show l.length - n = 0 by omega]

end Ring
