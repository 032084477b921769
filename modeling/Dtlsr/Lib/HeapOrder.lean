import Mathlib.Data.List.Perm.Basic
import Mathlib.Logic.Equiv.Basic
import Mathlib.Order.WithBot
import Mathlib.Tactic.Common

/-!
    The order of a binary heap kept in an array. The keys of the array are one total function on
    positions, `⊤` past the end, so that heap order is a statement about every position and its parent
    with no bounds in it, and exchanging two cells is composition with a transposition. `DownOrder` and
    `UpOrder` say that the order holds but for one position, which is on its way down or up. -/

namespace HeapOrder

def parent (i : ℕ) : ℕ := (i - 1) / 2
def left (i : ℕ) : ℕ := 2 * i + 1
def right (i : ℕ) : ℕ := 2 * i + 2

theorem parent_lt {i : ℕ} (h : 0 < i) : parent i < i := by unfold parent; omega

theorem parent_eq_iff {c i : ℕ} (h : 0 < c) : parent c = i ↔ c = left i ∨ c = right i := by
  unfold parent left right; omega

theorem comp_swap_left {E : Type} (f : ℕ → E) (i j : ℕ) : (f ∘ Equiv.swap i j) i = f j := by simp

theorem comp_swap_right {E : Type} (f : ℕ → E) (i j : ℕ) : (f ∘ Equiv.swap i j) j = f i := by simp

theorem comp_swap_other {E : Type} (f : ℕ → E) {i j k : ℕ} (hi : k ≠ i) (hj : k ≠ j) :
    (f ∘ Equiv.swap i j) k = f k := by
  simp [Equiv.swap_apply_of_ne_of_ne hi hj]

section Order
variable {E : Type} [LinearOrder E] {f : ℕ → E} {lo i c : ℕ}

/-- Every position whose parent is at or after `lo` is in order with it. -/
def OrderedFrom (f : ℕ → E) (lo : ℕ) : Prop := ∀ c, 0 < c → lo ≤ parent c → f (parent c) ≤ f c

/-- Heap order from `lo` on, except that position `i` may be larger than its children. -/
structure DownOrder (f : ℕ → E) (lo i : ℕ) : Prop where
  except : ∀ c, 0 < c → lo ≤ parent c → parent c ≠ i → f (parent c) ≤ f c
  grand : 0 < i → lo ≤ parent i → ∀ c, 0 < c → parent c = i → f (parent i) ≤ f c

/-- Heap order, except that position `i` may be smaller than its parent. -/
structure UpOrder (f : ℕ → E) (i : ℕ) : Prop where
  except : ∀ c, 0 < c → c ≠ i → f (parent c) ≤ f c
  grand : 0 < i → ∀ c, 0 < c → parent c = i → f (parent i) ≤ f c

theorem root_le (h : OrderedFrom f 0) (i : ℕ) : f 0 ≤ f i := by
  induction i using Nat.strongRecOn with
  | ind i ih =>
    rcases Nat.eq_zero_or_pos i with rfl | hi
    · exact le_rfl
    · exact (ih (parent i) (parent_lt hi)).trans (h i hi (Nat.zero_le _))

theorem OrderedFrom.downOrder (h : OrderedFrom f (i + 1)) : DownOrder f i i where
  except c hc hlo hne := h c hc (by omega)
  grand hi hlo := absurd (parent_lt hi) (by omega)

theorem DownOrder.finish (h : DownOrder f lo i) (hstop : ∀ c, 0 < c → parent c = i → f i ≤ f c) :
    OrderedFrom f lo := by
  intro c hc hlo
  by_cases hp : parent c = i
  · rw [hp]; exact hstop c hc hp
  · exact h.except c hc hlo hp

/-- The smallest child moves up, and the position on its way down takes its place. -/
theorem DownOrder.move (h : DownOrder f lo i) (hlo : lo ≤ i) (hc : 0 < c) (hp : parent c = i)
    (hlt : f c ≤ f i) (hmin : ∀ d, 0 < d → parent d = i → f c ≤ f d) :
    DownOrder (f ∘ Equiv.swap i c) lo c := by
  have hic : i < c := hp ▸ parent_lt hc
  constructor
  · intro d hd hdlo hdc
    by_cases hdi : d = i
    · subst hdi
      have hpd := parent_lt hd
      rw [comp_swap_left, comp_swap_other f (by omega) (by omega)]
      exact h.grand hd hdlo c hc hp
    · by_cases hdeq : d = c
      · subst hdeq
        rw [hp, comp_swap_left, comp_swap_right]
        exact hlt
      · rw [comp_swap_other f hdi hdeq]
        by_cases hpi : parent d = i
        · rw [hpi, comp_swap_left]; exact hmin d hd hpi
        · rw [comp_swap_other f hpi hdc]; exact h.except d hd hdlo hpi
  · intro _ _ d hd hdc
    have hcd : c < d := hdc ▸ parent_lt hd
    rw [hp, comp_swap_left, comp_swap_other f (by omega) (by omega)]
    have := h.except d hd (by omega) (by omega)
    rwa [hdc] at this

/-- Lowering one key leaves the order but for it and its parent. -/
theorem OrderedFrom.lower {g : ℕ → E} (h : OrderedFrom f 0) (hle : g i ≤ f i)
    (hsame : ∀ j, j ≠ i → g j = f j) : UpOrder g i := by
  have hbelow : ∀ c, 0 < c → parent c = i → g c = f c := fun c hc hp =>
    hsame c (hp ▸ (parent_lt hc).ne')
  constructor
  · intro c hc hci
    rw [hsame c hci]
    by_cases hp : parent c = i
    · rw [hp]
      exact hle.trans (hp ▸ h c hc (Nat.zero_le _))
    · rw [hsame _ hp]
      exact h c hc (Nat.zero_le _)
  · intro hi c hc hp
    have hpi : parent i ≠ i := (parent_lt hi).ne
    rw [hsame _ hpi, hbelow c hc hp]
    exact (h i hi (Nat.zero_le _)).trans (hp ▸ h c hc (Nat.zero_le _))

theorem UpOrder.finish (h : UpOrder f i) (hstop : 0 < i → f (parent i) ≤ f i) : OrderedFrom f 0 := by
  intro c hc _
  by_cases hci : c = i
  · subst hci; exact hstop hc
  · exact h.except c hc hci

/-- The parent moves down, and the position on its way up takes its place. -/
theorem UpOrder.move (h : UpOrder f i) (hi : 0 < i) (hlt : f i ≤ f (parent i)) :
    UpOrder (f ∘ Equiv.swap i (parent i)) (parent i) := by
  have hpi := parent_lt hi
  constructor
  · intro c hc hcp
    by_cases hci : c = i
    · subst hci
      rw [comp_swap_left, comp_swap_right]
      exact hlt
    · rw [comp_swap_other f hci hcp]
      by_cases hpc : parent c = i
      · rw [hpc, comp_swap_left]; exact h.grand hi c hc hpc
      · by_cases hpp : parent c = parent i
        · rw [hpp, comp_swap_right]
          exact hlt.trans (hpp ▸ h.except c hc hci)
        · rw [comp_swap_other f hpc hpp]; exact h.except c hc hci
  · intro hp c hc hcp
    have hpp := parent_lt hp
    have hup : f (parent (parent i)) ≤ f (parent i) := h.except (parent i) hp (by omega)
    rw [comp_swap_other f (by omega) (by omega)]
    by_cases hci : c = i
    · subst hci; rwa [comp_swap_left]
    · rw [comp_swap_other f hci (by have := parent_lt hc; omega)]
      exact hup.trans (hcp ▸ h.except c hc hci)

end Order

/-! ### The keys of an array -/

section Keys
variable {ι D : Type} (key : ι → D)

/-- The keys of the array `l`, `⊤` past its end. -/
def keys (l : List ι) (i : ℕ) : WithTop D := l[i]?.elim ⊤ fun x => (key x : WithTop D)

variable {key} {l : List ι} {i j : ℕ}

theorem keys_of_lt (h : i < l.length) : keys key l i = key l[i] := by
  simp [keys, List.getElem?_eq_getElem h]

theorem keys_of_le (h : l.length ≤ i) : keys key l i = ⊤ := by
  simp [keys, List.getElem?_eq_none h]

theorem keys_swap (hi : i < l.length) (hj : j < l.length) :
    keys key ((l.set i l[j]).set j l[i]) = keys key l ∘ Equiv.swap i j := by
  funext k
  simp only [keys, Function.comp_apply, Equiv.swap_apply_def, List.getElem?_set, List.length_set]
  by_cases hkj : k = j
  · subst hkj
    by_cases hki : k = i
    · subst hki; simp [hi]
    · simp [hki, hi, hj]
  · by_cases hki : k = i
    · subst hki
      rw [if_neg (fun h => hkj h.symm)]
      simp [hi, hj]
    · simp [hki, hkj, Ne.symm hki, Ne.symm hkj]

theorem keys_append_other {x : ι} (h : i ≠ l.length) : keys key (l ++ [x]) i = keys key l i := by
  rcases Nat.lt_or_ge i l.length with hlt | hge
  · simp [keys, List.getElem?_append_left hlt]
  · rw [keys_of_le (by simp; omega), keys_of_le hge]

end Keys

end HeapOrder
