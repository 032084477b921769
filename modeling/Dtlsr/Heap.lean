import Dtlsr.Lib.Checked
import Dtlsr.Lib.HeapOrder

/-!
    `algorithm/heap.c`: a min-heap of pointers to Dijkstra nodes. A pointer is a value of some type
    `ι`, and `tentDist` reads the distance in the node it points at, so that lowering a distance in
    place changes the keys under an unchanged array. -/

namespace Dtlsr
open Checked HeapOrder

/-- `node_ptrs` holds the `size` cells in use of the `max_size` allocated. -/
structure MinHeap (ι : Type) where
  maxSize : ℕ
  nodePtrs : List ι

abbrev MinHeap.size {ι : Type} (h : MinHeap ι) : ℕ := h.nodePtrs.length

section Code
variable {ι D : Type} [LinearOrder D] (tentDist : ι → D)

def minheapAlloc (max : ℕ) : MinHeap ι := { maxSize := max, nodePtrs := [] }

def swap (ptrs : List ι) (i j : ℕ) : Exec (List ι) := do
  let a ← cell ptrs i
  let b ← cell ptrs j
  pure ((ptrs.set i b).set j a)

/-- The loop that `minheap_insert` and `minheap_decrease_dist` end with. -/
def siftUp : ℕ → List ι → ℕ → Exec (List ι)
  | 0, _, _ => .error .outOfFuel
  | fuel + 1, ptrs, i =>
    if i = 0 then pure ptrs
    else do
      let above ← cell ptrs (parent i)
      let here ← cell ptrs i
      if tentDist above > tentDist here then siftUp fuel (← swap ptrs i (parent i)) (parent i)
      else pure ptrs

def minheapInsert (h : MinHeap ι) (n : ι) : Exec (MinHeap ι) :=
  if h.size < h.maxSize then do
    let ptrs ← siftUp tentDist (h.size + 1) (h.nodePtrs ++ [n]) h.size
    pure { h with nodePtrs := ptrs }
  else .error .assertFail

/-- The new distance of the first node with the id is written to the node, in place. It comes as an
    integer, and must not be greater than the one that was there. -/
def minheapDecreaseDist [DecidableEq ι] [IntCast D] (id : ι → ℤ) (h : MinHeap ι)
    (target newDist : ℤ) : Exec ((ι → D) × MinHeap ι) := do
  let found ← firstIdx h.size fun i => do pure (decide (id (← cell h.nodePtrs i) = target))
  match found with
  | none => pure (tentDist, h)
  | some i => do
    let n ← cell h.nodePtrs i
    let tentDist := Function.update tentDist n (newDist : D)
    let ptrs ← siftUp tentDist h.size h.nodePtrs i
    pure (tentDist, { h with nodePtrs := ptrs })

/-- `if (c < h->size && dist of c < dist of smallest) smallest = c;` -/
def pickSmaller (ptrs : List ι) (smallest c : ℕ) : Exec ℕ :=
  if c < ptrs.length then do
    let x ← cell ptrs c
    let y ← cell ptrs smallest
    pure (if tentDist x < tentDist y then c else smallest)
  else pure smallest

def minheapHeapify : ℕ → List ι → ℕ → Exec (List ι)
  | 0, _, _ => .error .outOfFuel
  | fuel + 1, ptrs, i => do
    let smallest ← pickSmaller tentDist ptrs i (left i)
    let smallest ← pickSmaller tentDist ptrs smallest (right i)
    if smallest ≠ i then minheapHeapify fuel (← swap ptrs i smallest) smallest else pure ptrs

/-- `for (int i = h->size / 2 - 1; i >= 0; i--) minheap_heapify(h, i);` -/
def buildLoop : ℕ → List ι → Exec (List ι)
  | 0, ptrs => pure ptrs
  | i + 1, ptrs => do buildLoop i (← minheapHeapify tentDist ptrs.length ptrs i)

def minheapBuildHeap (h : MinHeap ι) : Exec (MinHeap ι) := do
  let ptrs ← buildLoop tentDist (h.size / 2) h.nodePtrs
  pure { h with nodePtrs := ptrs }

def minheapPop (h : MinHeap ι) : Exec (ι × MinHeap ι) := do
  let root ← cell h.nodePtrs 0
  if h.size = 1 then pure (root, { h with nodePtrs := h.nodePtrs.dropLast })
  else do
    let last ← cell h.nodePtrs (h.size - 1)
    let ptrs := (h.nodePtrs.set 0 last).dropLast
    let ptrs ← minheapHeapify tentDist ptrs.length ptrs 0
    pure (root, { h with nodePtrs := ptrs })

end Code

/-! ### Specification -/

section Spec
variable {ι D : Type} [LinearOrder D] {tentDist : ι → D}

/-- Every entry but the root has a distance not less than its parent's. -/
def MinHeap.Ordered (tentDist : ι → D) (h : MinHeap ι) : Prop :=
  OrderedFrom (keys tentDist h.nodePtrs) 0

theorem MinHeap.ordered_iff {h : MinHeap ι} : h.Ordered tentDist ↔ ∀ c x y, 0 < c →
    h.nodePtrs[parent c]? = some x → h.nodePtrs[c]? = some y → tentDist x ≤ tentDist y := by
  constructor
  · intro ho c x y hc hx hy
    have := ho c hc (Nat.zero_le _)
    simpa [keys, hx, hy] using this
  · intro hall c hc _
    rcases Nat.lt_or_ge c h.nodePtrs.length with hlt | hge
    · have hp := (parent_lt hc).trans hlt
      rw [keys_of_lt hp, keys_of_lt hlt]
      exact_mod_cast hall c _ _ hc (List.getElem?_eq_getElem hp) (List.getElem?_eq_getElem hlt)
    · rw [keys_of_le hge]
      exact le_top

theorem swap_eq {ptrs : List ι} {i j : ℕ} (hi : i < ptrs.length) (hj : j < ptrs.length) :
    swap ptrs i j = .ok ((ptrs.set i ptrs[j]).set j ptrs[i]) := by
  rw [swap, cell_of_lt hi, ok_bind, cell_of_lt hj, ok_bind, pure_eq_ok]

/-- The loop up ends, permutes the array and restores the order. -/
theorem siftUp_ensures : ∀ {fuel i : ℕ} {ptrs : List ι}, i < fuel → i < ptrs.length →
    UpOrder (keys tentDist ptrs) i →
    Ensures (siftUp tentDist fuel ptrs i) fun out =>
      out.Perm ptrs ∧ OrderedFrom (keys tentDist out) 0 := by
  intro fuel
  induction fuel with
  | zero =>
    intro i _ hfuel _ _
    exact absurd hfuel (Nat.not_lt_zero i)
  | succ fuel ih =>
    intro i ptrs hfuel hi hup
    rw [siftUp]
    by_cases h0 : i = 0
    · rw [if_pos h0]
      exact Ensures.ok ⟨List.Perm.refl _, hup.finish fun h => absurd h0 (by omega)⟩
    · have hlt := parent_lt (Nat.pos_of_ne_zero h0)
      have hp : parent i < ptrs.length := hlt.trans hi
      rw [if_neg h0, cell_of_lt hp, ok_bind, cell_of_lt hi, ok_bind]
      by_cases hgt : tentDist ptrs[parent i] > tentDist ptrs[i]
      · rw [if_pos hgt, swap_eq hi hp, ok_bind]
        have hkeys : keys tentDist ptrs i ≤ keys tentDist ptrs (parent i) := by
          rw [keys_of_lt hi, keys_of_lt hp]; exact_mod_cast hgt.le
        refine (ih (by omega) (by simpa using hp) ?_).mono fun out hout => ?_
        · rw [keys_swap hi hp]; exact hup.move (Nat.pos_of_ne_zero h0) hkeys
        · exact ⟨hout.1.trans (List.set_set_perm hi hp), hout.2⟩
      · rw [if_neg hgt]
        refine Ensures.ok ⟨List.Perm.refl _, hup.finish fun _ => ?_⟩
        rw [keys_of_lt hi, keys_of_lt hp]; exact_mod_cast not_lt.mp hgt

theorem minheapInsert_ensures {h : MinHeap ι} (hsize : h.size < h.maxSize)
    (ho : h.Ordered tentDist) (n : ι) :
    Ensures (minheapInsert tentDist h n) fun out => out.maxSize = h.maxSize ∧
      out.nodePtrs.Perm (n :: h.nodePtrs) ∧ out.Ordered tentDist := by
  rw [minheapInsert, if_pos hsize]
  have hup : UpOrder (keys tentDist (h.nodePtrs ++ [n])) h.size := by
    constructor
    · intro c hc hne
      rcases Nat.lt_or_ge c h.size with hlt | hge
      · have hpc := parent_lt hc
        rw [keys_append_other (by unfold MinHeap.size at hlt; omega), keys_append_other hne]
        exact ho c hc (Nat.zero_le _)
      · rw [keys_of_le (l := h.nodePtrs ++ [n]) (i := c)
          (by simp only [List.length_append, List.length_singleton]; unfold MinHeap.size at *; omega)]
        exact le_top
    · intro _ c hc hpc
      have hlt := parent_lt hc
      rw [keys_of_le (l := h.nodePtrs ++ [n]) (i := c)
        (by simp only [List.length_append, List.length_singleton]; unfold MinHeap.size at *; omega)]
      exact le_top
  refine (siftUp_ensures (Nat.lt_succ_self _) (by simp [MinHeap.size]) hup).bind fun ptrs hptrs => ?_
  exact Ensures.ok ⟨rfl, hptrs.1.trans (List.perm_append_singleton n h.nodePtrs), hptrs.2⟩

/-- Lowering one entry leaves the order but for that entry and its parent. -/
theorem upOrder_update [DecidableEq ι] {ptrs : List ι} {i : ℕ} {d : D} (hi : i < ptrs.length)
    (hnodup : ptrs.Nodup) (ho : OrderedFrom (keys tentDist ptrs) 0) (hle : d ≤ tentDist ptrs[i]) :
    UpOrder (keys (Function.update tentDist ptrs[i] d) ptrs) i := by
  refine ho.lower ?_ fun j hj => ?_
  · rw [keys_of_lt hi, keys_of_lt hi, Function.update_self]
    exact_mod_cast hle
  · rcases Nat.lt_or_ge j ptrs.length with hlt | hge
    · have hne : ptrs[j] ≠ ptrs[i] := fun h => hj (hnodup.getElem_inj_iff.mp h)
      rw [keys_of_lt hlt, keys_of_lt hlt, Function.update_of_ne hne]
    · rw [keys_of_le hge, keys_of_le hge]

/-- `minheap_decrease_dist` lowers the first node with the id, if there is one, and restores the
    order. -/
theorem minheapDecreaseDist_ensures [DecidableEq ι] [IntCast D] {id : ι → ℤ} {h : MinHeap ι}
    {target newDist : ℤ} (ho : h.Ordered tentDist) (hnodup : h.nodePtrs.Nodup)
    (hle : ∀ n, h.nodePtrs.find? (fun n => id n = target) = some n → (newDist : D) ≤ tentDist n) :
    Ensures (minheapDecreaseDist tentDist id h target newDist) fun out =>
      out.2.maxSize = h.maxSize ∧ out.2.nodePtrs.Perm h.nodePtrs ∧ out.2.Ordered out.1 ∧
      (out.1 = tentDist ∨ ∃ n ∈ h.nodePtrs, (newDist : D) ≤ tentDist n ∧
        out.1 = Function.update tentDist n (newDist : D)) := by
  have hprobe : ∀ m : ℕ, (m : ℤ) < h.size → ∃ b,
      (do pure (decide (id (← cell h.nodePtrs m) = target)) : Exec Bool) = .ok b := by
    intro m hm
    exact ⟨_, by rw [cell_of_lt (by simpa using hm), ok_bind, pure_eq_ok]⟩
  obtain ⟨r, hr⟩ := firstIdx_ensures hprobe
  rw [minheapDecreaseDist, hr, ok_bind]
  cases r with
  | none => exact Ensures.ok ⟨rfl, List.Perm.refl _, ho, Or.inl rfl⟩
  | some i =>
    obtain ⟨hlt, hhit, hbefore⟩ := firstIdx_some hr
    have hi : i < h.nodePtrs.length := by simpa using hlt
    have hfirst : h.nodePtrs.find? (fun n => id n = target) = some h.nodePtrs[i] := by
      rw [List.find?_eq_some_iff_getElem]
      rw [cell_of_lt hi] at hhit
      refine ⟨by simpa using hhit, i, hi, rfl, fun j hj => ?_⟩
      have := hbefore j hj
      rw [cell_of_lt (hj.trans hi)] at this
      simpa using this
    have hdist := hle _ hfirst
    dsimp only
    rw [cell_of_lt hi, ok_bind]
    refine (siftUp_ensures hi hi (upOrder_update hi hnodup ho hdist)).bind fun ptrs hptrs => ?_
    exact Ensures.ok ⟨rfl, hptrs.1, hptrs.2, Or.inr ⟨_, List.getElem_mem hi, hdist, rfl⟩⟩

theorem pickSmaller_ensures {ptrs : List ι} {s c : ℕ} (hs : s < ptrs.length) :
    Ensures (pickSmaller tentDist ptrs s c) fun r => (r = s ∨ r = c) ∧ r < ptrs.length ∧
      keys tentDist ptrs r ≤ keys tentDist ptrs s ∧ keys tentDist ptrs r ≤ keys tentDist ptrs c := by
  rw [pickSmaller]
  by_cases hc : c < ptrs.length
  · rw [if_pos hc, cell_of_lt hc, ok_bind, cell_of_lt hs, ok_bind, pure_eq_ok]
    refine Ensures.ok ?_
    by_cases hlt : tentDist ptrs[c] < tentDist ptrs[s]
    · rw [if_pos hlt]
      refine ⟨Or.inr rfl, hc, ?_, le_rfl⟩
      rw [keys_of_lt hc, keys_of_lt hs]; exact_mod_cast hlt.le
    · rw [if_neg hlt]
      refine ⟨Or.inl rfl, hs, le_rfl, ?_⟩
      rw [keys_of_lt hc, keys_of_lt hs]; exact_mod_cast not_lt.mp hlt
  · rw [if_neg hc]
    exact Ensures.ok ⟨Or.inl rfl, hs, le_rfl, by rw [keys_of_le (i := c) (by omega)]; exact le_top⟩

/-- One call of the recursion down: it stops, or it exchanges `i` with the smaller of its children. -/
theorem minheapHeapify_step (tentDist : ι → D) {ptrs : List ι} {i : ℕ} (hi : i < ptrs.length) :
    ∃ s, ∃ hs : s < ptrs.length, (s = i ∨ 0 < s ∧ parent s = i) ∧
      keys tentDist ptrs s ≤ keys tentDist ptrs i ∧
      (∀ d, 0 < d → parent d = i → keys tentDist ptrs s ≤ keys tentDist ptrs d) ∧
      ∀ fuel, minheapHeapify tentDist (fuel + 1) ptrs i =
        if s ≠ i then minheapHeapify tentDist fuel ((ptrs.set i ptrs[s]).set s ptrs[i]) s
        else .ok ptrs := by
  have hpick : ∀ {s : ℕ}, s < ptrs.length → ∀ c, Ensures (pickSmaller tentDist ptrs s c) _ :=
    fun hs c => pickSmaller_ensures hs
  obtain ⟨s1, hs1, hor1, hlt1, hle1, hleft⟩ := hpick hi (left i)
  obtain ⟨s2, hs2, hor2, hlt2, hle2, hright⟩ := hpick hlt1 (right i)
  refine ⟨s2, hlt2, ?_, hle2.trans hle1, ?_, fun fuel => ?_⟩
  · rcases hor2 with rfl | rfl
    · rcases hor1 with rfl | rfl
      · exact Or.inl rfl
      · exact Or.inr ⟨by simp [left], by simp [parent, left]⟩
    · exact Or.inr ⟨by simp [right], by simp only [parent, right]; omega⟩
  · intro d hd hp
    rcases (parent_eq_iff hd).mp hp with rfl | rfl
    · exact hle2.trans hleft
    · exact hright
  · rw [minheapHeapify, hs1, ok_bind, hs2, ok_bind, swap_eq hi hlt2, ok_bind, pure_eq_ok]

/-- The recursion down ends, permutes the array and restores the order from `lo` on. -/
theorem minheapHeapify_ensures {lo : ℕ} : ∀ {fuel i : ℕ} {ptrs : List ι},
    ptrs.length ≤ i + fuel → i < ptrs.length → lo ≤ i → DownOrder (keys tentDist ptrs) lo i →
    Ensures (minheapHeapify tentDist fuel ptrs i) fun out =>
      out.Perm ptrs ∧ OrderedFrom (keys tentDist out) lo := by
  intro fuel
  induction fuel with
  | zero =>
    intro i _ hfuel hi _ _
    exact absurd hfuel (by omega)
  | succ fuel ih =>
    intro i ptrs hfuel hi hlo hdown
    obtain ⟨s, hs, hor, hle, hmin, heq⟩ := minheapHeapify_step tentDist hi
    rw [heq]
    rcases hor with rfl | ⟨hpos, hpar⟩
    · rw [if_neg (by simp)]
      exact Ensures.ok ⟨List.Perm.refl _, hdown.finish hmin⟩
    · have hgt : i < s := hpar ▸ parent_lt hpos
      rw [if_pos hgt.ne']
      refine (ih (by simp; omega) (by simpa using hs) (hlo.trans hgt.le) ?_).mono fun out hout => ?_
      · rw [keys_swap hi hs]; exact hdown.move hlo hpos hpar hle hmin
      · exact ⟨hout.1.trans (List.set_set_perm hi hs), hout.2⟩

/-- Whatever the order of the array, the recursion down ends, with one result for every depth that is
    enough. From past the last entry it stops at once. -/
theorem minheapHeapify_ends (tentDist : ι → D) : ∀ (k i : ℕ) (ptrs : List ι), ptrs.length ≤ i + k →
    ∃ out, out.Perm ptrs ∧ ∀ fuel, k ≤ fuel → 0 < fuel → minheapHeapify tentDist fuel ptrs i = .ok out := by
  have hpast : ∀ {i : ℕ} {ptrs : List ι}, ptrs.length ≤ i → ∀ fuel, 0 < fuel →
      minheapHeapify tentDist fuel ptrs i = .ok ptrs := by
    intro i ptrs hi fuel hfuel
    obtain ⟨fuel, rfl⟩ := Nat.exists_eq_succ_of_ne_zero hfuel.ne'
    have hl : ¬left i < ptrs.length := by unfold left; omega
    have hr : ¬right i < ptrs.length := by unfold right; omega
    simp [minheapHeapify, pickSmaller, hl, hr]
  intro k
  induction k with
  | zero =>
    intro i ptrs hk
    exact ⟨ptrs, List.Perm.refl _, fun fuel _ => hpast hk fuel⟩
  | succ k ih =>
    intro i ptrs hk
    rcases Nat.lt_or_ge i ptrs.length with hi | hi
    · obtain ⟨s, hs, hor, -, -, heq⟩ := minheapHeapify_step tentDist hi
      rcases hor with rfl | ⟨hpos, hpar⟩
      · refine ⟨ptrs, List.Perm.refl _, fun fuel _ hfuel => ?_⟩
        obtain ⟨fuel, rfl⟩ := Nat.exists_eq_succ_of_ne_zero hfuel.ne'
        rw [heq, if_neg (by simp)]
      · have hgt : i < s := hpar ▸ parent_lt hpos
        obtain ⟨out, hperm, hout⟩ := ih s ((ptrs.set i ptrs[s]).set s ptrs[i]) (by simp; omega)
        refine ⟨out, hperm.trans (List.set_set_perm hi hs), fun fuel hfuel _ => ?_⟩
        obtain ⟨fuel, rfl⟩ := Nat.exists_eq_succ_of_ne_zero (show fuel ≠ 0 by omega)
        rw [heq, if_pos hgt.ne']
        exact hout fuel (by omega) (by omega)
    · exact ⟨ptrs, List.Perm.refl _, fun fuel _ => hpast hi fuel⟩

theorem buildLoop_ensures : ∀ {k : ℕ} {ptrs : List ι}, k ≤ ptrs.length →
    OrderedFrom (keys tentDist ptrs) k →
    Ensures (buildLoop tentDist k ptrs) fun out =>
      out.Perm ptrs ∧ OrderedFrom (keys tentDist out) 0 := by
  intro k
  induction k with
  | zero =>
    intro ptrs _ h
    exact Ensures.ok ⟨List.Perm.refl _, h⟩
  | succ i ih =>
    intro ptrs hk h
    rw [buildLoop]
    refine (minheapHeapify_ensures (by omega) (by omega) le_rfl h.downOrder).bind
      fun ptrs' ⟨hperm, ho⟩ => ?_
    refine (ih (by rw [hperm.length_eq]; omega) ho).mono fun out hout => ?_
    exact ⟨hout.1.trans hperm, hout.2⟩

/-- Rebuilding permutes the array and orders it, whatever the distances were. -/
theorem minheapBuildHeap_ensures (h : MinHeap ι) :
    Ensures (minheapBuildHeap tentDist h) fun out => out.maxSize = h.maxSize ∧
      out.nodePtrs.Perm h.nodePtrs ∧ out.Ordered tentDist := by
  have hleaves : OrderedFrom (keys tentDist h.nodePtrs) (h.size / 2) := by
    intro c hc hlo
    rw [keys_of_le (i := c) (by unfold parent at hlo; unfold MinHeap.size at hlo; omega)]
    exact le_top
  rw [minheapBuildHeap]
  refine (buildLoop_ensures (by unfold MinHeap.size; omega) hleaves).bind fun ptrs hptrs => ?_
  exact Ensures.ok ⟨rfl, hptrs.1, hptrs.2⟩

/-- Rebuilding restores the heap: whatever the order and the distances of the entries, the array is
    permuted so that no entry but the root is closer than its parent, and `minheap_heapify` ends for
    every index, with one result for every depth of recursion that is enough. -/
theorem buildHeap_restores (tentDist : ι → D) (h : MinHeap ι) :
    (∃ out, minheapBuildHeap tentDist h = .ok out ∧ out.maxSize = h.maxSize ∧
      out.nodePtrs.Perm h.nodePtrs ∧ ∀ c x y, 0 < c → out.nodePtrs[parent c]? = some x →
        out.nodePtrs[c]? = some y → tentDist x ≤ tentDist y) ∧
    ∀ i : ℕ, ∃ out, out.Perm h.nodePtrs ∧ ∀ fuel, h.size ≤ i + fuel → 0 < fuel →
      minheapHeapify tentDist fuel h.nodePtrs i = .ok out := by
  constructor
  · have hbuild : Ensures (minheapBuildHeap tentDist h) _ := minheapBuildHeap_ensures h
    obtain ⟨out, hout, hmax, hperm, ho⟩ := hbuild
    exact ⟨out, hout, hmax, hperm, MinHeap.ordered_iff.mp ho⟩
  · intro i
    obtain ⟨out, hperm, hends⟩ := minheapHeapify_ends tentDist (h.size - i) i h.nodePtrs
      (by unfold MinHeap.size; omega)
    exact ⟨out, hperm, fun fuel hfuel => hends fuel (by omega)⟩

/-- `minheap_pop` on two or more entries: the last one moves to the root and sinks. -/
theorem minheapPop_eq (max : ℕ) (root last : ι) (mid : List ι) :
    minheapPop tentDist { maxSize := max, nodePtrs := root :: (mid ++ [last]) } = (do
      let ptrs ← minheapHeapify tentDist (mid.length + 1) (last :: mid) 0
      pure (root, { maxSize := max, nodePtrs := ptrs })) := by
  have hlast : cell (root :: (mid ++ [last])) (mid.length + 1) = .ok last := by
    rw [cell_of_lt (by simp)]; simp
  have hdrop : (last :: (mid ++ [last])).dropLast = last :: mid := by
    rw [← List.cons_append, List.dropLast_concat]
  rw [minheapPop, cell_of_lt (by simp), ok_bind]
  simp [MinHeap.size, hlast, hdrop]

/-- `minheap_pop` of a nonempty heap takes out an entry of least distance. -/
theorem minheapPop_ensures {h : MinHeap ι} (hpos : 0 < h.size) (ho : h.Ordered tentDist) :
    Ensures (minheapPop tentDist h) fun out => out.2.maxSize = h.maxSize ∧
      (out.1 :: out.2.nodePtrs).Perm h.nodePtrs ∧ out.2.Ordered tentDist ∧
      ∀ x ∈ h.nodePtrs, tentDist out.1 ≤ tentDist x := by
  obtain ⟨max, ptrs⟩ := h
  cases ptrs with
  | nil => exact absurd hpos (by simp [MinHeap.size])
  | cons root rest =>
    have hroot : ∀ x ∈ root :: rest, tentDist root ≤ tentDist x := by
      intro x hx
      obtain ⟨i, hi, rfl⟩ := List.getElem_of_mem hx
      have h0 := root_le ho i
      rw [keys_of_lt (by simp), keys_of_lt hi] at h0
      exact_mod_cast h0
    rcases List.eq_nil_or_concat rest with rfl | ⟨mid, last, rfl⟩
    · rw [minheapPop, cell_of_lt (by simp), ok_bind, if_pos (by simp [MinHeap.size])]
      exact Ensures.ok ⟨rfl, by simp, fun c _ _ => by simp [keys], hroot⟩
    · rw [List.concat_eq_append] at ho hroot ⊢
      rw [minheapPop_eq]
      -- below the root nothing moved
      have hsub : ∀ c, 0 < c → c < mid.length + 1 →
          keys tentDist (last :: mid) c = keys tentDist (root :: (mid ++ [last])) c := by
        intro c hc hlt
        obtain ⟨d, rfl⟩ := Nat.exists_eq_succ_of_ne_zero hc.ne'
        simp [keys, List.getElem?_append_left (show d < mid.length by omega)]
      have hdown : DownOrder (keys tentDist (last :: mid)) 0 0 := by
        refine ⟨fun c hc _ hp => ?_, fun h => absurd h (lt_irrefl 0)⟩
        rcases Nat.lt_or_ge c (mid.length + 1) with hlt | hge
        · have := parent_lt hc
          rw [hsub c hc hlt, hsub _ (Nat.pos_of_ne_zero hp) (by omega)]
          exact ho c hc (Nat.zero_le _)
        · rw [keys_of_le (l := last :: mid) (i := c) (by simpa using hge)]
          exact le_top
      refine (minheapHeapify_ensures (by simp) (by simp) le_rfl hdown).bind fun ptrs hptrs => ?_
      obtain ⟨hp, ho'⟩ := hptrs
      refine Ensures.ok ⟨rfl, (hp.cons root).trans ?_, ho', hroot⟩
      exact (List.perm_append_singleton last mid).symm.cons root

end Spec

end Dtlsr
