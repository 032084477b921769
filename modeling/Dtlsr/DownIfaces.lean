import Dtlsr.Reached
import Dtlsr.Lib.Slots

/-!
    The interfaces that `capture.c` takes for down. `down_ifaces`, `n_down_ifaces` and `is_capturing`
    are kept by `capture_start_iface` and `capture_end_iface` and by nothing else. The table is one of
    `Lib/Slots`, in which `capture_end_iface` searches past slots that may be empty. -/

namespace Dtlsr
open Checked

/-! ### The functions of `capture.c` -/

/-- The bookkeeping of the interfaces that are down stays the same. -/
structure SameBooks (c c' : Capture) : Prop where
  downIfaces : c'.downIfaces = c.downIfaces
  nDownIfaces : c'.nDownIfaces = c.nDownIfaces
  isCapturing : c'.isCapturing = c.isCapturing

theorem SameBooks.refl (c : Capture) : SameBooks c c := ⟨rfl, rfl, rfl⟩

theorem SameBooks.trans {c c' c'' : Capture} (h : SameBooks c c') (h' : SameBooks c' c'') :
    SameBooks c c'' :=
  ⟨h'.downIfaces.trans h.downIfaces, h'.nDownIfaces.trans h.nDownIfaces,
    h'.isCapturing.trans h.isCapturing⟩

theorem dumpPacket_sameBooks (status : LinkState) (c : Capture) (p : Packet) :
    SameBooks c (dumpPacket status c p) := by
  unfold dumpPacket
  split_ifs <;> exact ⟨rfl, rfl, rfl⟩

theorem foldl_sameBooks {ι : Type} {f : Capture → ι → Capture} (hf : ∀ c a, SameBooks c (f c a)) :
    ∀ (l : List ι) (c : Capture), SameBooks c (l.foldl f c) := by
  intro l
  induction l with
  | nil =>
    intro c
    exact .refl c
  | cons a l ih =>
    intro c
    exact (hf c a).trans (ih (f c a))

theorem arrive_sameBooks (c : Capture) (a : ℕ × Packet) : SameBooks c (arrive c a) := by
  unfold arrive
  split
  · split <;> exact ⟨rfl, rfl, rfl⟩
  · exact .refl c

theorem forUpto_sameBooks {n : ℤ} {c c' : Capture} {f : ℕ → Capture → Exec Capture}
    (h : forUpto n c f = .ok c') (hf : ∀ i c c', f i c = .ok c' → SameBooks c c') :
    SameBooks c c' :=
  forUpto_ok (fun _ t => SameBooks c t) (.refl c) h
    fun i t t' _ ht hround => ht.trans (hf i t t' hround)

section Functions
variable {M : Type} {this : LocalNode M} {c c' : Capture} {iface : String} {hops : HopTable}

theorem capturePackets_sameBooks (h : capturePackets this c = .ok c') : SameBooks c c' := by
  refine forUpto_sameBooks h fun i c c' hround => ?_
  obtain ⟨info, -, hround⟩ := bind_ok_iff.mp hround
  obtain ⟨status, -, hround⟩ := bind_ok_iff.mp hround
  cases hround
  exact (foldl_sameBooks (dumpPacket_sameBooks status) info.queue c).trans ⟨rfl, rfl, rfl⟩

theorem captureReplayIface_sameBooks (h : captureReplayIface this iface hops c = .ok c') :
    SameBooks c c' := by
  obtain ⟨fexp, -, h⟩ := bind_ok_iff.mp h
  cases fexp <;> cases h <;> exact ⟨rfl, rfl, rfl⟩

theorem captureRemoveReplayedPackets_sameBooks
    (h : captureRemoveReplayedPackets this iface hops c = .ok c') : SameBooks c c' := by
  obtain ⟨fexp, -, h⟩ := bind_ok_iff.mp h
  cases h
  exact ⟨rfl, rfl, rfl⟩

theorem firstCell_put {x : String} : ∀ {l : List (Option String)} {r : Option ℕ},
    firstCell (fun o => pure o.isNone) l = .ok r →
    (r.elim l fun i => l.set i (some x)) = Slots.put l x
  | [], r, h => by cases h; rfl
  | none :: l, r, h => by cases h; rfl
  | some y :: l, r, h => by
    rw [firstCell_miss (p := fun o : Option String => pure o.isNone) rfl] at h
    obtain ⟨r', hr', h⟩ := bind_ok_iff.mp h
    cases h
    rw [Slots.put, ← firstCell_put hr']
    cases r' <;> rfl

/-- The interface goes into the first empty slot. -/
theorem captureStartIface_books (hlen : this.node.nNeighbours = c.downIfaces.length)
    (h : captureStartIface this iface hops c = .ok c') :
    c'.downIfaces = Slots.put c.downIfaces iface ∧ c'.nDownIfaces = c.nDownIfaces + 1 ∧
      c'.isCapturing = true := by
  obtain ⟨free, hfree, h⟩ := bind_ok_iff.mp h
  obtain ⟨c1, hc1, h⟩ := bind_ok_iff.mp h
  cases h
  have hput : (free.elim c.downIfaces fun i => c.downIfaces.set i (some iface)) =
      Slots.put c.downIfaces iface := by
    refine firstCell_put (r := free) ?_
    rw [← firstIdx_cell, ← hlen]
    exact hfree
  have hbooks := forUpto_sameBooks hc1 fun i c c' hround => by
    obtain ⟨info, -, hround⟩ := bind_ok_iff.mp hround
    obtain ⟨filterExp, -, hround⟩ := bind_ok_iff.mp hround
    cases hround
    exact ⟨rfl, rfl, rfl⟩
  refine ⟨?_, ?_, ?_⟩
  · rw [← hput, hbooks.downIfaces]
    cases free <;> rfl
  · simp only [hbooks.nDownIfaces]
    cases free <;> rfl
  · simp only [hbooks.isCapturing]
    cases free <;> rfl

theorem captureEndIface_zero {strcmpNull : Exec Bool} (hn : c.nDownIfaces = 0)
    (h : captureEndIface strcmpNull this iface c = .ok c') : c' = c := by
  rw [captureEndIface, if_pos hn] at h
  exact (Except.ok.inj h).symm

/-- The slot that the search hits is emptied. -/
theorem captureEndIface_books {strcmpNull : Exec Bool} (hn : c.nDownIfaces ≠ 0)
    (h : captureEndIface strcmpNull this iface c = .ok c') :
    ∃ hit, downIfaceIdx strcmpNull this iface c.downIfaces = .ok hit ∧
      c'.downIfaces = (hit.elim c.downIfaces fun i => c.downIfaces.set i none) ∧
      c'.nDownIfaces = c.nDownIfaces - 1 ∧
      c'.isCapturing = (!decide (c.nDownIfaces - 1 = 0) && c.isCapturing) := by
  unfold captureEndIface at h
  rw [if_neg hn] at h
  obtain ⟨hit, hhit, h⟩ := bind_ok_iff.mp h
  have hbooks := capturePackets_sameBooks h
  refine ⟨hit, hhit, ?_, ?_, ?_⟩
  · rw [hbooks.downIfaces]
    cases hit <;> dsimp only <;> split <;> rfl
  · rw [hbooks.nDownIfaces]
    cases hit <;> dsimp only <;> split <;> rfl
  · rw [hbooks.isCapturing]
    cases hit <;> dsimp only <;> split <;> simp [*]

end Functions

/-! ### The search -/

theorem ifaceMatches_some {b : Exec Bool} {x y : String} :
    ifaceMatches b x (some y) = .ok (decide (x = y)) := rfl

/-- Where empty slots are no match, the search finds what is to be removed. -/
theorem firstCell_remove {x : String} : ∀ {l : List (Option String)} {r : Option ℕ},
    firstCell (ifaceMatches (.ok false) x) l = .ok r →
    (r.elim l fun i => l.set i none) = Slots.remove l x
  | [], r, h => by cases h; rfl
  | none :: l, r, h => by
    rw [firstCell_miss (p := ifaceMatches (.ok false) x) rfl] at h
    obtain ⟨r', hr', h⟩ := bind_ok_iff.mp h
    cases h
    rw [Slots.remove, ← firstCell_remove hr']
    cases r' <;> rfl
  | some y :: l, r, h => by
    rw [Slots.remove]
    by_cases hxy : x = y
    · rw [firstCell_hit (by rw [ifaceMatches_some, decide_eq_true hxy])] at h
      cases h
      rw [if_pos hxy]
      rfl
    · rw [firstCell_miss (by rw [ifaceMatches_some, decide_eq_false hxy])] at h
      obtain ⟨r', hr', h⟩ := bind_ok_iff.mp h
      cases h
      rw [if_neg hxy, ← firstCell_remove hr']
      cases r' <;> rfl

/-- A search that ends before the first empty slot does not depend on what becomes of a comparison with
    one. -/
theorem firstCell_ahead {x : String} : ∀ {l : List (Option String)}, Slots.Ahead x l →
    ∃ r, ∀ b, firstCell (ifaceMatches b x) l = .ok r
  | [], h => by simp [Slots.Ahead] at h
  | none :: l, h => by simp [Slots.Ahead] at h
  | some y :: l, h => by
    by_cases hxy : x = y
    · exact ⟨some 0, fun b => firstCell_hit (by rw [ifaceMatches_some, decide_eq_true hxy]) l⟩
    · obtain ⟨r, hr⟩ := firstCell_ahead (x := x) (l := l) (by simpa [Slots.Ahead, hxy] using h)
      refine ⟨r.map (· + 1), fun b => ?_⟩
      rw [firstCell_miss (by rw [ifaceMatches_some, decide_eq_false hxy]), hr b]
      rfl

/-- Otherwise it meets an empty slot, if there is one. -/
theorem firstCell_null {x : String} {e : Fault} : ∀ {l : List (Option String)}, ¬Slots.Ahead x l →
    none ∈ l → firstCell (ifaceMatches (.error e) x) l = .error e
  | none :: l, _, _ => rfl
  | some y :: l, h, hnone => by
    have hxy : x ≠ y := fun hxy => h (by simp [Slots.Ahead, hxy])
    have ih := firstCell_null (x := x) (e := e) (l := l)
      (fun ha => h (by simpa [Slots.Ahead, hxy] using ha)) (by simpa using hnone)
    rw [firstCell_miss (by rw [ifaceMatches_some, decide_eq_false hxy]), ih]
    rfl

section Search
variable {M : Type} {this : LocalNode M} {c c' : Capture} {iface : String}

theorem downIfaceIdx_eq (hlen : this.node.nNeighbours = c.downIfaces.length)
    (strcmpNull : Exec Bool) : downIfaceIdx strcmpNull this iface c.downIfaces =
      firstCell (ifaceMatches strcmpNull iface) c.downIfaces := by
  unfold downIfaceIdx
  rw [hlen]
  exact firstIdx_cell _ c.downIfaces

/-- Unless it ignores the interface, `capture_end_iface` removes it. -/
theorem captureEndIface_remove {strcmpNull : Exec Bool}
    (hlen : this.node.nNeighbours = c.downIfaces.length) (hn : c.nDownIfaces ≠ 0)
    (hread : strcmpNull = .ok false ∨ Slots.Ahead iface c.downIfaces)
    (h : captureEndIface strcmpNull this iface c = .ok c') :
    c'.downIfaces = Slots.remove c.downIfaces iface ∧ c'.nDownIfaces = c.nDownIfaces - 1 ∧
      c'.isCapturing = (!decide (c.nDownIfaces - 1 = 0) && c.isCapturing) := by
  obtain ⟨hit, hhit, hslots, hrest⟩ := captureEndIface_books hn h
  refine ⟨hslots.trans (firstCell_remove ?_), hrest⟩
  rw [downIfaceIdx_eq hlen] at hhit
  rcases hread with rfl | hahead
  · exact hhit
  · obtain ⟨r, hr⟩ := firstCell_ahead hahead
    rw [hr, ← hhit, hr]

/-- The comparisons that `capture_end_iface` makes reach no empty slot, if the interface is ahead of
    them all. -/
theorem captureEndIface_ahead (hlen : this.node.nNeighbours = c.downIfaces.length)
    (hahead : c.nDownIfaces ≠ 0 → Slots.Ahead iface c.downIfaces) (b b' : Exec Bool) :
    captureEndIface b this iface c = captureEndIface b' this iface c := by
  unfold captureEndIface
  split
  · rfl
  · rename_i hn
    obtain ⟨r, hr⟩ := firstCell_ahead (hahead hn)
    rw [downIfaceIdx_eq hlen, downIfaceIdx_eq hlen, hr, hr]

theorem captureEndIface_null (hlen : this.node.nNeighbours = c.downIfaces.length)
    (hn : c.nDownIfaces ≠ 0) (hahead : ¬Slots.Ahead iface c.downIfaces) (hnone : none ∈ c.downIfaces)
    (e : Fault) : captureEndIface (.error e) this iface c = .error e := by
  unfold captureEndIface
  rw [if_neg hn, downIfaceIdx_eq hlen, firstCell_null hahead hnone]
  rfl

end Search

/-! ### What the bookkeeping records -/

/-- `down_ifaces` contains the interfaces in `names`, each as often as it occurs there; `n_down_ifaces`
    is their number; and packets are captured exactly while there is one. -/
structure Records (c : Capture) (names : List String) : Prop where
  downIfaces : c.downIfaces.reduceOption.Perm names
  nDownIfaces : c.nDownIfaces = names.length
  isCapturing : c.isCapturing = true ↔ 0 < names.length

instance (c : Capture) (names : List String) : Decidable (Records c names) :=
  decidable_of_iff (c.downIfaces.reduceOption.Perm names ∧ c.nDownIfaces = names.length ∧
    (c.isCapturing = true ↔ 0 < names.length)) ⟨fun h => ⟨h.1, h.2.1, h.2.2⟩, fun h => ⟨h.1, h.2, h.3⟩⟩

section Records
variable {M : Type} {this : LocalNode M} {c c' : Capture} {iface : String} {hops : HopTable}
  {names names' : List String}

theorem Records.sameBooks (h : Records c names) (hsame : SameBooks c c') : Records c' names :=
  ⟨by rw [hsame.downIfaces]; exact h.downIfaces, by rw [hsame.nDownIfaces]; exact h.nDownIfaces,
    by rw [hsame.isCapturing]; exact h.isCapturing⟩

theorem Records.perm (h : Records c names) (hperm : names.Perm names') : Records c names' :=
  ⟨h.downIfaces.trans hperm, by rw [← hperm.length_eq]; exact h.nDownIfaces,
    by rw [← hperm.length_eq]; exact h.isCapturing⟩

/-- `capture_start_iface` records one more, if there is room. -/
theorem Records.start (h : Records c names) (hlen : this.node.nNeighbours = c.downIfaces.length)
    (hroom : names.length < c.downIfaces.length)
    (hstart : captureStartIface this iface hops c = .ok c') : Records c' (iface :: names) := by
  obtain ⟨hslots, hcount, hcap⟩ := captureStartIface_books hlen hstart
  have hnone := Slots.none_mem_of_length_lt (by rw [h.downIfaces.length_eq]; exact hroom)
  refine ⟨?_, ?_, ?_⟩
  · rw [hslots]
    exact (Slots.reduceOption_put iface hnone).trans (h.downIfaces.cons iface)
  · rw [hcount, h.nDownIfaces]; simp
  · rw [hcap]; simp

/-- `capture_end_iface` takes out an interface that is recorded. -/
theorem Records.remove (h : Records c (iface :: names))
    (hlen : this.node.nNeighbours = c.downIfaces.length)
    (hend : captureEndIface (.ok false) this iface c = .ok c') : Records c' names := by
  have hn : c.nDownIfaces ≠ 0 := by rw [h.nDownIfaces]; simp; omega
  obtain ⟨hslots, hcount, hcap⟩ := captureEndIface_remove hlen hn (Or.inl rfl) hend
  have hleft : c.nDownIfaces - 1 = names.length := by rw [h.nDownIfaces]; simp
  refine ⟨?_, by rw [hcount, hleft], ?_⟩
  · rw [hslots, Slots.reduceOption_remove]
    exact (h.downIfaces.erase iface).trans (by rw [List.erase_cons_head])
  · rw [hcap, hleft, h.isCapturing.mpr (by simp)]
    simp [List.length_pos_iff]

/-- An interface that is not recorded is ignored while none is. -/
theorem Records.ignore {strcmpNull : Exec Bool} (h : Records c [])
    (hend : captureEndIface strcmpNull this iface c = .ok c') : Records c' [] := by
  rw [captureEndIface_zero h.nDownIfaces hend]
  exact h

/-- While one is, `capture_end_iface` counts down for any interface, recorded or not. -/
theorem Records.spoilt {strcmpNull : Exec Bool} (h : Records c names) (hne : names ≠ [])
    (hend : captureEndIface strcmpNull this iface c = .ok c') : ¬Records c' names := by
  have hn : c.nDownIfaces ≠ 0 := by rw [h.nDownIfaces]; simpa using hne
  obtain ⟨-, -, -, hcount, -⟩ := captureEndIface_books hn hend
  intro h'
  rw [h'.nDownIfaces, h.nDownIfaces] at hcount
  omega

end Records

end Dtlsr
