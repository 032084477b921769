import Dtlsr.ShortestPaths

/-!
    What `pathfind` has filled in whenever it returns, also where it would not return on other input: no
    bound on the records is assumed. A node with a predecessor hangs below the source, through records
    that are seen, so each next hop is a neighbour of the source, and each address is one that a seen
    record lists. -/

namespace Dtlsr
open Checked

/-! ### One relaxation -/

section Relax
variable {M : Type} [Ring M] [LinearOrder M]

/-- All that a slot can do: nothing, or a shorter way to the neighbour that it lists is written. -/
theorem relaxNeighbour_cases {b : Build} {curr : Fin maxNodeNum} {i : ℕ}
    {s s' : DijkstraNodes M × MinHeap (Fin maxNodeNum)} (h : relaxNeighbour b curr i s = .ok s') :
    s'.1 = s.1 ∨ ∃ (j : Fin maxNodeFan) (k : Fin maxNodeNum), i = j ∧
      (s.1 curr).neighbourIds j = (k : ℕ) + 1 ∧
      (s.1 curr).tentDist + (s.1 curr).linkMetrics j < (s.1 k).tentDist ∧
      s'.1 = Function.update s.1 k { s.1 k with
        prevId := (s.1 curr).id, tentDist := (s.1 curr).tentDist + (s.1 curr).linkMetrics j } := by
  obtain ⟨status, -, h⟩ := bind_ok_iff.mp h
  split at h
  · cases h
    exact Or.inl rfl
  · obtain ⟨id, hid, h⟩ := bind_ok_iff.mp h
    obtain ⟨nb, hnb, h⟩ := bind_ok_iff.mp h
    obtain ⟨metric, hmetric, h⟩ := bind_ok_iff.mp h
    dsimp only at h
    split at h
    · rename_i hlt
      obtain ⟨nodes, hnodes, h⟩ := bind_ok_iff.mp h
      obtain ⟨heap, -, h⟩ := bind_ok_iff.mp h
      cases h
      obtain ⟨k, hk, rfl⟩ := write_ok_iff.mp hnodes
      obtain ⟨k', hk', rfl⟩ := read_ok_iff.mp hnb
      obtain rfl : k = k' := Fin.ext (by omega)
      obtain ⟨j, hj, rfl⟩ := read_ok_iff.mp hid
      obtain ⟨j', hj', rfl⟩ := read_ok_iff.mp hmetric
      obtain rfl : j = j' := Fin.ext (by omega)
      exact Or.inr ⟨j, k, by omega, by omega, hlt, rfl⟩
    · cases h
      exact Or.inl rfl

theorem relaxNeighbour_count {b : Build} {curr : Fin maxNodeNum} {i : ℕ}
    {s s' : DijkstraNodes M × MinHeap (Fin maxNodeNum)} (h : relaxNeighbour b curr i s = .ok s')
    (j : Fin maxNodeNum) : (s'.1 j).nNeighbours = (s.1 j).nNeighbours := by
  rcases relaxNeighbour_cases h with hsame | ⟨j', k, -, -, -, hk⟩
  · rw [hsame]
  · rw [hk]
    rcases eq_or_ne j k with rfl | hjk
    · rw [Function.update_self]
    · rw [Function.update_of_ne hjk]

/-- What every relaxation of a used slot keeps, the main loop keeps. -/
theorem dijkstraLoop_keeps {b : Build} (I : DijkstraNodes M → Prop)
    (hround : ∀ (curr : Fin maxNodeNum) (i : ℕ) (s s' : DijkstraNodes M × MinHeap (Fin maxNodeNum)),
      (i : ℤ) < (s.1 curr).nNeighbours → I s.1 → relaxNeighbour b curr i s = .ok s' → I s'.1) :
    ∀ {fuel : ℕ} {nodes out : DijkstraNodes M} {h : MinHeap (Fin maxNodeNum)}, I nodes →
      dijkstraLoop b fuel (nodes, h) = .ok out → I out := by
  intro fuel
  induction fuel with
  | zero =>
    intro nodes out h _ hout
    cases hout
  | succ fuel ih =>
    intro nodes out h hI hout
    unfold dijkstraLoop at hout
    split at hout
    · obtain ⟨⟨curr, h1⟩, -, hout⟩ := bind_ok_iff.mp hout
      obtain ⟨⟨nodes', h2⟩, hrelax, hout⟩ := bind_ok_iff.mp hout
      refine ih ?_ hout
      unfold relaxNeighbours at hrelax
      split at hrelax
      · cases hrelax
        exact hI
      · -- the bound of the loop is the count of the popped node, which no round changes
        refine (forUpto_ok (fun _ (s : DijkstraNodes M × MinHeap (Fin maxNodeNum)) =>
          I s.1 ∧ (s.1 curr).nNeighbours = (nodes curr).nNeighbours)
          ⟨hI, rfl⟩ hrelax fun i s s' hi hs hslot => ?_).1
        obtain ⟨hIs, hcount⟩ := hs
        exact ⟨hround curr i s s' (by rw [hcount]; exact hi) hIs hslot,
          (relaxNeighbour_count hslot curr).trans hcount⟩
    · cases hout
      exact hI

end Relax

/-! ### The tree below the source -/

section Below
variable {M : Type} [Ring M] [LinearOrder M] {b : Build} {graph : Graph M} {src : Fin maxNodeNum}
  {nodes : DijkstraNodes M}

/-- Entry `k` has id `k + 1`, the source is seen, and the other seen records have no negative metric. -/
structure HopInput (graph : Graph M) (src : Fin maxNodeNum) : Prop where
  id : ∀ k, (graph k).id = (k : ℕ) + 1
  source : (graph src).state = .nodeSeen
  nonneg : ∀ k ≠ src, (graph k).state = .nodeSeen → ∀ i : Fin maxNodeFan,
    ((i : ℕ) : ℤ) < (graph k).nNeighbours → 0 ≤ (graph k).linkMetrics i

/-- `u` is the source, or has a predecessor. -/
def Found (src : Fin maxNodeNum) (nodes : DijkstraNodes M) (u : Fin maxNodeNum) : Prop :=
  u = src ∨ (nodes u).prevId ≠ -1

/-- A predecessor is a seen record that lists the node, and has been found itself; a node that has not
    been found is at the initial distance, which is the largest. -/
structure BelowSource (graph : Graph M) (src : Fin maxNodeNum) (nodes : DijkstraNodes M) : Prop where
  copied : ∀ k, nodes k = { dijkstraCopy graph ((src : ℕ) + 1) k with
    tentDist := (nodes k).tentDist, prevId := (nodes k).prevId }
  prev : ∀ v, (nodes v).prevId ≠ -1 → ∃ u : Fin maxNodeNum, (nodes v).prevId = (u : ℕ) + 1 ∧
    (graph u).state = .nodeSeen ∧ (graph u).Lists v ∧ Found src nodes u
  far : ∀ u, ¬Found src nodes u → (nodes u).tentDist = infiniteDist
  le : ∀ u, (nodes u).tentDist ≤ infiniteDist

theorem BelowSource.id (h : BelowSource graph src nodes) (hg : HopInput graph src)
    (k : Fin maxNodeNum) : (nodes k).id = (k : ℕ) + 1 := by
  rw [h.copied k]; simp [hg.id k]

theorem BelowSource.slots (h : BelowSource graph src nodes) {k : Fin maxNodeNum}
    (hs : (graph k).state = .nodeSeen) : (nodes k).nNeighbours = (graph k).nNeighbours ∧
      (nodes k).neighbourIds = (graph k).neighbourIds ∧
      (nodes k).linkMetrics = (graph k).linkMetrics := by
  rw [h.copied k]; simp [dijkstraCopy, hs]

/-- Only seen records have slots. -/
theorem BelowSource.seen (h : BelowSource graph src nodes) {k : Fin maxNodeNum} {i : ℕ}
    (hi : (i : ℤ) < (nodes k).nNeighbours) : (graph k).state = .nodeSeen := by
  by_contra hn
  rw [h.copied k] at hi
  simp [dijkstraCopy, hn] at hi
  omega

/-- A neighbour of a seen record that has been found may be given a smaller distance. -/
theorem BelowSource.relabel (h : BelowSource graph src nodes) {u v : Fin maxNodeNum} {d : M}
    (hs : (graph u).state = .nodeSeen) (hv : (graph u).Lists v) (hu : Found src nodes u)
    (hd : d ≤ infiniteDist) : BelowSource graph src (Function.update nodes v
      { nodes v with prevId := (u : ℕ) + 1, tentDist := d }) := by
  -- what has been found stays found
  have hfound : ∀ k, k = v ∨ Found src nodes k → Found src (Function.update nodes v
      { nodes v with prevId := (u : ℕ) + 1, tentDist := d }) k := by
    intro k hk
    rcases eq_or_ne k v with rfl | hkv
    · exact Or.inr (by rw [Function.update_self]; simp only; omega)
    · refine (hk.resolve_left hkv).imp_right fun hprev => ?_
      rw [Function.update_of_ne hkv]
      exact hprev
  refine ⟨fun k => ?_, fun k hk => ?_, fun k hk => ?_, fun k => ?_⟩ <;>
    rcases eq_or_ne k v with rfl | hkv
  · have := h.copied k
    rw [Function.update_self]
    rw [this]
  · rw [Function.update_of_ne hkv]
    exact h.copied k
  · exact ⟨u, by rw [Function.update_self], hs, hv, hfound u (Or.inr hu)⟩
  · rw [Function.update_of_ne hkv] at hk ⊢
    obtain ⟨p, hp, hps, hpl, hpf⟩ := h.prev k hk
    exact ⟨p, hp, hps, hpl, hfound p (Or.inr hpf)⟩
  · exact absurd (hfound k (Or.inl rfl)) hk
  · rw [Function.update_of_ne hkv]
    exact h.far k fun hf => hk (hfound k (Or.inr hf))
  · rw [Function.update_self]
    exact hd
  · rw [Function.update_of_ne hkv]
    exact h.le k

variable [IsStrictOrderedRing M]

theorem dijkstraInit_below : BelowSource graph src (dijkstraInit graph ((src : ℕ) + 1)) where
  copied _ := rfl
  prev v hv := absurd (dijkstraCopy_prevId graph _ v) hv
  far u hu := by
    have hne : ((u : ℕ) : ℤ) + 1 ≠ (src : ℕ) + 1 := fun heq => hu (Or.inl (Fin.ext (by omega)))
    rw [dijkstraInit, dijkstraCopy, if_neg hne]
    split <;> rfl
  le u := by
    have hpos : (0 : M) ≤ infiniteDist := by rw [infiniteDist]; norm_num
    unfold dijkstraInit dijkstraCopy
    split
    · dsimp only
      split
      · exact hpos
      · exact le_rfl
    · exact le_rfl

/-- A slot of a node that has not been found shortens nothing. -/
theorem relaxNeighbour_below (hg : HopInput graph src) {curr : Fin maxNodeNum} {i : ℕ}
    {s s' : DijkstraNodes M × MinHeap (Fin maxNodeNum)} (hi : (i : ℤ) < (s.1 curr).nNeighbours)
    (hs : BelowSource graph src s.1) (h : relaxNeighbour b curr i s = .ok s') :
    BelowSource graph src s'.1 := by
  rcases relaxNeighbour_cases h with hsame | ⟨j, k, rfl, hid, hlt, hk⟩
  · rw [hsame]
    exact hs
  · have hseen := hs.seen hi
    obtain ⟨hcount, hids, hmetrics⟩ := hs.slots hseen
    rw [hcount] at hi
    rw [hids] at hid
    rw [hk, hs.id hg]
    refine hs.relabel hseen ⟨j, hi, hid⟩ ?_ (hlt.le.trans (hs.le k))
    by_contra hcurr
    have hne : curr ≠ src := fun heq => hcurr (Or.inl heq)
    refine absurd hlt (not_lt.mpr ?_)
    calc (s.1 k).tentDist ≤ infiniteDist := hs.le k
      _ = (s.1 curr).tentDist := (hs.far curr hcurr).symm
      _ ≤ (s.1 curr).tentDist + (s.1 curr).linkMetrics j := by
        rw [hmetrics]
        exact le_add_of_nonneg_right (hg.nonneg curr hne hseen j hi)

theorem dijkstra_below (hg : HopInput graph src) (h : dijkstra b graph ((src : ℕ) + 1) = .ok nodes) :
    BelowSource graph src nodes := by
  obtain ⟨heap, -, h⟩ := bind_ok_iff.mp h
  exact dijkstraLoop_keeps (BelowSource graph src)
    (fun _ _ _ _ hi hI hround => relaxNeighbour_below hg hi hI hround) dijkstraInit_below h

end Below

/-! ### The table -/

section Table
variable {M : Type} [Ring M] [LinearOrder M] {b : Build} {graph : Graph M} {src : Fin maxNodeNum}
  {nodes : DijkstraNodes M}

/-- An address that a seen record lists. -/
def ListedIp (graph : Graph M) (ip : Ip) : Prop :=
  ∃ (k : Fin maxNodeNum) (i : Fin maxNodeFan), (graph k).state = .nodeSeen ∧
    ((i : ℕ) : ℤ) < (graph k).nNeighbours ∧ (graph k).neighbourIps i = ip

/-- `get_dst_ip` returns an address that the predecessor lists. -/
theorem BelowSource.dstIp (h : BelowSource graph src nodes) (hg : HopInput graph src)
    {d : Fin maxNodeNum} {ip : Ip} (hd : (nodes d).prevId ≠ -1)
    (hip : getDstIp graph nodes ((d : ℕ) + 1) = .ok ip) : ListedIp graph ip := by
  obtain ⟨p, hp, hs, -, -⟩ := h.prev d hd
  unfold getDstIp at hip
  rw [read_of_eq nodes d (by omega), ok_bind, hp, read_of_eq nodes p (by omega), ok_bind] at hip
  obtain ⟨slot, hslot, hip⟩ := bind_ok_iff.mp hip
  cases slot with
  | none => cases hip
  | some i =>
    obtain ⟨hi, -, -⟩ := firstIdx_some hslot
    rw [(h.slots hs).1] at hi
    simp only at hip
    rw [h.id hg p, read_of_eq graph p (by omega), ok_bind] at hip
    obtain ⟨j, hj, rfl⟩ := read_ok_iff.mp hip
    exact ⟨p, j, hs, by omega, rfl⟩

variable [FloorRing M]

/-- A backtrace that ends has followed the predecessors to the source, and the last node that it has
    left is a neighbour of the source. -/
theorem backtrace_source (h : BelowSource graph src nodes) (hg : HopInput graph src) :
    ∀ {fuel : ℕ} {t out : Trace M} {v : Fin maxNodeNum}, t.this = nodes v → Found src nodes v →
      (∀ n ∈ t.next, ∃ x, n = nodes x ∧ (nodes x).prevId = (v : ℕ) + 1) →
      backtrace graph nodes fuel t = .ok out →
      ∀ n ∈ out.next, ∃ x, n = nodes x ∧ (nodes x).prevId = (src : ℕ) + 1 := by
  intro fuel
  induction fuel with
  | zero =>
    intro _ _ _ _ _ _ hout
    cases hout
  | succ fuel ih =>
    intro t out v ht hv hnext hout
    rw [backtrace, ht] at hout
    split at hout
    · rename_i hroot
      cases hout
      obtain rfl := hv.resolve_right fun hn => hn hroot
      exact hnext
    · rename_i hprev
      obtain ⟨u, hu, -, -, hfound⟩ := h.prev v hprev
      have hleft : ∀ n ∈ some (nodes v), ∃ x, n = nodes x ∧ (nodes x).prevId = (u : ℕ) + 1 := by
        intro n hn
        obtain rfl := Option.mem_some_iff.mp hn
        exact ⟨v, rfl, hu⟩
      simp only [hu] at hout
      rw [read_of_eq nodes u (by omega), ok_bind] at hout
      obtain ⟨slot, -, hout⟩ := bind_ok_iff.mp hout
      cases slot with
      | none => exact ih rfl hfound hleft hout
      | some i =>
        obtain ⟨state, -, hout⟩ := bind_ok_iff.mp hout
        obtain ⟨node, -, hout⟩ := bind_ok_iff.mp hout
        obtain ⟨metric, -, hout⟩ := bind_ok_iff.mp hout
        exact ih rfl hfound hleft hout

/-- The next hop is a neighbour of the source, if there is one. -/
theorem BelowSource.nextHop (h : BelowSource graph src nodes) (hg : HopInput graph src)
    {d : Fin maxNodeNum} {hop : ℤ} {t : Trace M} (hd : (nodes d).prevId ≠ -1)
    (ht : getNextHop graph nodes ((d : ℕ) + 1) = .ok (hop, t)) (hne : hop ≠ -1) :
    ∃ x, hop = ((x : Fin maxNodeNum) : ℕ) + 1 ∧ (graph src).Lists x := by
  unfold getNextHop at ht
  rw [read_of_eq nodes d (by omega), ok_bind] at ht
  obtain ⟨out, hout, ht⟩ := bind_ok_iff.mp ht
  have hlast := backtrace_source h hg rfl (Or.inr hd) (by simp) hout
  split at ht
  · cases ht
    exact absurd rfl hne
  · cases hn : out.next with
    | none => rw [hn] at ht; cases ht
    | some n =>
      rw [hn] at ht
      cases ht
      obtain ⟨x, rfl, hx⟩ := hlast n (by rw [hn]; rfl)
      obtain ⟨u, hu, -, hlists, -⟩ := h.prev x (by rw [hx]; omega)
      obtain rfl : src = u := Fin.ext (by omega)
      exact ⟨x, h.id hg x, hlists⟩

variable [IsStrictOrderedRing M]

/-- Wherever the table of `pathfind` holds a next hop, it is a neighbour of the source, and the
    destination is an address that a seen record lists. -/
theorem pathfind_sources {hops : HopTable} (hg : HopInput graph src)
    (h : pathfind b graph ((src : ℕ) + 1) = .ok hops) (d : Fin maxNodeNum)
    (hd : (hops d).nextHop ≠ -1) :
    (∃ x, (hops d).nextHop = ((x : Fin maxNodeNum) : ℕ) + 1 ∧ (graph src).Lists x) ∧
      ListedIp graph (hops d).destIp := by
  obtain ⟨nodes, hnodes, htable⟩ := bind_ok_iff.mp h
  have hbelow := dijkstra_below hg hnodes
  have hentry := fill_ok_iff.mp htable d
  unfold hopDest at hentry
  split at hentry
  · rename_i hc
    obtain ⟨⟨hop, t⟩, hhop, hentry⟩ := bind_ok_iff.mp hentry
    obtain ⟨ip, hip, hentry⟩ := bind_ok_iff.mp hentry
    cases hst : t.nextHopState with
    | none => simp only [hst] at hentry; cases hentry
    | some st =>
      simp only [hst] at hentry
      have heq := Except.ok.inj hentry
      rw [← heq] at hd ⊢
      exact ⟨hbelow.nextHop hg hc.2 hhop hd, hbelow.dstIp hg hc.2 hip⟩
  · have heq := Except.ok.inj hentry
    rw [← heq] at hd
    exact absurd rfl hd

end Table

end Dtlsr
