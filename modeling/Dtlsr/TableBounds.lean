import Dtlsr.LocalGraph
import Dtlsr.ShortestPaths

/-!
    Received buffers are cast to records without a check. `TablesOk` is what the code relies on when it
    uses ids, neighbour ids and counts as indices; here is exactly which records keep it. A path-finding
    over a graph that has it stays in its arrays, whatever the metrics are. -/

namespace Dtlsr
open Checked

/-- A record that entry `k` may hold: it has id `k + 1`, and if it is seen, its slots in use are within the
    tables. -/
structure EntryOk {M : Type} (k : Fin maxNodeNum) (n : Node M) : Prop where
  id : n.id = (k : ℕ) + 1
  count : n.state = .nodeSeen → 0 ≤ n.nNeighbours
  bounds : n.state = .nodeSeen → n.InBounds

def TablesOk {M : Type} (graph : Graph M) : Prop := ∀ k, EntryOk k (graph k)

/-! ### Path-finding -/

section Pathfind
variable {M : Type} {nodes : DijkstraNodes M} {graph : Graph M}

/-- The array of Dijkstra nodes holds only indices into itself. -/
structure NodesOk (nodes : DijkstraNodes M) : Prop where
  id : ∀ k, (nodes k).id = (k : ℕ) + 1
  fan : ∀ k, (nodes k).nNeighbours ≤ maxNodeFan
  ids : ∀ k (i : Fin maxNodeFan), ((i : ℕ) : ℤ) < (nodes k).nNeighbours →
    ∃ j : Fin maxNodeNum, (nodes k).neighbourIds i = (j : ℕ) + 1
  prev : ∀ k, (nodes k).prevId = -1 ∨ ∃ p : Fin maxNodeNum, (nodes k).prevId = (p : ℕ) + 1

/-- New distances and predecessors do not change the slots. -/
theorem NodesOk.update (h : NodesOk nodes) (k p : Fin maxNodeNum) (alt : M) :
    NodesOk (Function.update nodes k { nodes k with prevId := (nodes p).id, tentDist := alt }) := by
  have hupdate : ∀ j, ∃ prevId tentDist, (prevId = (nodes j).prevId ∨ prevId = (nodes p).id) ∧
      Function.update nodes k { nodes k with prevId := (nodes p).id, tentDist := alt } j =
        { nodes j with prevId, tentDist } := by
    intro j
    by_cases hj : j = k
    · subst hj
      exact ⟨_, _, Or.inr rfl, Function.update_self ..⟩
    · exact ⟨(nodes j).prevId, (nodes j).tentDist, Or.inl rfl, Function.update_of_ne hj ..⟩
  constructor <;> intro j <;> obtain ⟨prevId, tentDist, hprev, hj⟩ := hupdate j <;> rw [hj]
  · exact h.id j
  · exact h.fan j
  · exact h.ids j
  · rcases hprev with rfl | rfl
    · exact h.prev j
    · exact Or.inr ⟨p, h.id p⟩

theorem slotOf_avoids (h : NodesOk nodes) (k : Fin maxNodeNum) (id : ℤ) :
    Avoids .outOfBounds (slotOf (nodes k) id) fun r => ∀ i, r = some i →
      (i : ℤ) < (nodes k).nNeighbours := by
  refine firstIdx_avoids fun m hm => ?_
  have hm6 : m < maxNodeFan := by have := h.fan k; omega
  rw [read_of_lt _ hm6]
  exact Avoids.ok trivial

theorem getDstIp_avoids (h : NodesOk nodes) {d : Fin maxNodeNum} (hprev : (nodes d).prevId ≠ -1) :
    Avoids .outOfBounds (getDstIp graph nodes ((d : ℕ) + 1)) fun _ => True := by
  obtain ⟨p, hp⟩ := (h.prev d).resolve_left hprev
  rw [getDstIp, read_of_eq nodes d (by omega), ok_bind, read_of_eq nodes p (by omega), ok_bind]
  refine (slotOf_avoids h p _).bind ?_
  rintro (_ | i) hi
  · exact Avoids.error (by decide)
  · have hi6 : i < maxNodeFan := by have := h.fan p; have := hi i rfl; omega
    simp only
    rw [h.id p, read_of_eq graph p (by omega), ok_bind, read_of_lt _ hi6]
    exact Avoids.ok trivial

theorem heapInit_avoids [LinearOrder M] (nodes : DijkstraNodes M) :
    Avoids .outOfBounds (heapInit nodes) fun h => h.Ordered (tentDists nodes) := by
  refine forAll_avoids (fun c _ _ => by simp [minheapAlloc, HeapOrder.keys]) fun i h ho => ?_
  split
  · by_cases hsize : h.size < h.maxSize
    · exact (minheapInsert_ensures hsize ho i).avoids.mono fun _ hout => hout.2.2
    · rw [minheapInsert, if_neg hsize]
      exact Avoids.error (by decide)
  · exact Avoids.ok ho

variable [Ring M]

theorem dijkstraInit_ok (h : TablesOk graph) (srcId : ℤ) : NodesOk (dijkstraInit graph srcId) := by
  constructor <;> intro k
  · exact (dijkstraCopy_id graph srcId k).trans (h k).id
  · unfold dijkstraInit dijkstraCopy
    split
    · rename_i hs
      exact ((h k).bounds hs).fan
    · exact Int.natCast_nonneg _
  · intro i
    unfold dijkstraInit dijkstraCopy
    split
    · rename_i hs
      intro hi
      obtain ⟨h1, h2⟩ := ((h k).bounds hs).ids i hi
      exact ⟨⟨((graph k).neighbourIds i - 1).toNat, by omega⟩, by simp only; omega⟩
    · intro hi
      exact absurd hi (by simp)
  · exact Or.inl (dijkstraCopy_prevId graph srcId k)

variable [LinearOrder M]

/-- The state of the loop over the `n` slots of `curr`. -/
structure SlotsOk (curr : Fin maxNodeNum) (n : ℤ) (s : DijkstraNodes M × MinHeap (Fin maxNodeNum)) :
    Prop where
  nodes : NodesOk s.1
  ordered : s.2.Ordered (tentDists s.1)
  count : (s.1 curr).nNeighbours = n

theorem relaxNeighbour_avoids (b : Build) {curr : Fin maxNodeNum} {n : ℤ} {i : ℕ} (hi : (i : ℤ) < n)
    {s : DijkstraNodes M × MinHeap (Fin maxNodeNum)} (hs : SlotsOk curr n s) :
    Avoids .outOfBounds (relaxNeighbour b curr i s) (SlotsOk curr n) := by
  obtain ⟨nodes, h⟩ := s
  have hcount := hs.count
  have hnodes := hs.nodes
  dsimp only at hcount hnodes
  have hi6 : i < maxNodeFan := by have := hnodes.fan curr; omega
  obtain ⟨k, hk⟩ := hnodes.ids curr ⟨i, hi6⟩ (by simp only; omega)
  simp only [relaxNeighbour, read_of_lt _ hi6, ok_bind]
  split
  · exact Avoids.ok hs
  · rw [read_of_eq nodes k (by rw [hk]; omega), ok_bind]
    split
    · rw [write_of_eq nodes k (by rw [hk]; omega), ok_bind]
      refine (minheapBuildHeap_ensures h).avoids.bind fun h' hh' => ?_
      refine Avoids.ok ⟨hnodes.update k curr _, hh'.2.2, ?_⟩
      dsimp only
      by_cases hc : curr = k
      · subst hc; rw [Function.update_self]; exact hcount
      · rw [Function.update_of_ne hc]; exact hcount
    · exact Avoids.ok hs

theorem relaxNeighbours_avoids (b : Build) (curr : Fin maxNodeNum)
    {s : DijkstraNodes M × MinHeap (Fin maxNodeNum)} (hs : NodesOk s.1)
    (ho : s.2.Ordered (tentDists s.1)) :
    Avoids .outOfBounds (relaxNeighbours b curr s) fun s' =>
      NodesOk s'.1 ∧ s'.2.Ordered (tentDists s'.1) := by
  rw [relaxNeighbours]
  split
  · exact Avoids.ok ⟨hs, ho⟩
  · refine (forUpto_avoids (I := SlotsOk curr (s.1 curr).nNeighbours) ⟨hs, ho, rfl⟩ ?_).mono
      fun s' h => ⟨h.nodes, h.ordered⟩
    intro i hi t ht
    exact relaxNeighbour_avoids b hi ht

theorem dijkstraLoop_avoids (b : Build) : ∀ (fuel : ℕ) {nodes : DijkstraNodes M}
    {h : MinHeap (Fin maxNodeNum)}, NodesOk nodes → h.Ordered (tentDists nodes) →
    Avoids .outOfBounds (dijkstraLoop b fuel (nodes, h)) NodesOk := by
  intro fuel
  induction fuel with
  | zero =>
    intro _ _ _ _
    exact Avoids.error (by decide)
  | succ fuel ih =>
    intro nodes h hs ho
    rw [dijkstraLoop]
    split
    · rename_i hpos
      refine (minheapPop_ensures hpos ho).avoids.bind ?_
      rintro ⟨curr, h'⟩ ⟨-, -, ho', -⟩
      refine (relaxNeighbours_avoids b curr hs ho').bind ?_
      rintro ⟨nodes', h''⟩ ⟨hs'', ho''⟩
      exact ih hs'' ho''
    · exact Avoids.ok hs

theorem dijkstra_avoids (b : Build) (h : TablesOk graph) (srcId : ℤ) :
    Avoids .outOfBounds (dijkstra b graph srcId) NodesOk := by
  rw [dijkstra]
  refine (heapInit_avoids _).bind fun heap ho => ?_
  exact dijkstraLoop_avoids b _ (dijkstraInit_ok h srcId) ho

variable [FloorRing M]

/-- The backtrace only goes from one node of the array to another. -/
theorem backtrace_avoids (h : NodesOk nodes) : ∀ (fuel : ℕ) {t : Trace M} {k : Fin maxNodeNum},
    t.this = nodes k → Avoids .outOfBounds (backtrace graph nodes fuel t) fun _ => True := by
  intro fuel
  induction fuel with
  | zero =>
    intro _ _ _
    exact Avoids.error (by decide)
  | succ fuel ih =>
    intro t k ht
    rw [backtrace]
    split
    · exact Avoids.ok trivial
    · rename_i hprev
      rw [ht] at hprev ⊢
      obtain ⟨p, hp⟩ := (h.prev k).resolve_left hprev
      dsimp only
      rw [read_of_eq nodes p (by omega), ok_bind]
      refine (slotOf_avoids h p _).bind ?_
      rintro (_ | i) hi
      · exact ih rfl
      · have hi6 : i < maxNodeFan := by have := h.fan p; have := hi i rfl; omega
        simp only
        rw [read_of_lt _ hi6, ok_bind, h.id p, read_of_eq graph p (by omega), ok_bind,
          read_of_lt _ hi6, ok_bind]
        exact ih rfl

theorem getNextHop_avoids (h : NodesOk nodes) (d : Fin maxNodeNum) :
    Avoids .outOfBounds (getNextHop graph nodes ((d : ℕ) + 1)) fun _ => True := by
  rw [getNextHop, read_of_eq nodes d (by omega), ok_bind]
  refine (backtrace_avoids h _ rfl).bind fun t _ => ?_
  split
  · exact Avoids.ok trivial
  · cases t.next with
    | none => exact Avoids.error (by decide)
    | some next => exact Avoids.ok trivial

/-- Over a graph in order `pathfind` stays in its arrays. -/
theorem pathfind_avoids (b : Build) (h : TablesOk graph) (srcId : ℤ) :
    Avoids .outOfBounds (pathfind b graph srcId) fun _ => True := by
  rw [pathfind]
  refine (dijkstra_avoids b h srcId).bind fun nodes hn => fill_avoids fun d => ?_
  rw [hopDest]
  split
  · rename_i hd
    refine (getNextHop_avoids hn d).bind fun out _ => ?_
    refine (getDstIp_avoids hn hd.2).bind fun ip _ => ?_
    cases out.2.nextHopState with
    | none => exact Avoids.error (by decide)
    | some st => exact Avoids.ok trivial
  · exact Avoids.ok trivial

end Pathfind

/-! ### Receiving -/

section Receive
variable {M : Type} {graph : Graph M}

theorem entryOk_marked {r old : Node M} {k : Fin maxNodeNum} :
    EntryOk k (markedEntry r k old) ↔ EntryOk k old := by
  unfold markedEntry
  split
  · rename_i hun
    have hold : old.state ≠ .nodeSeen := by rw [hun.1]; simp
    exact ⟨fun h => ⟨h.id, fun hs => absurd hs hold, fun hs => absurd hs hold⟩,
      fun h => ⟨h.id, fun hs => (by cases hs), fun hs => (by cases hs)⟩⟩
  · exact Iff.rfl

theorem markNeighbours_error {r : Node M} {e : Fault} (h : markNeighbours graph r = .error e) :
    e = .outOfBounds := by
  obtain ⟨i, -, g, h⟩ := foldlM_error _ h
  rcases bind_error_iff.mp h with h | ⟨id, -, h⟩
  · exact read_error h
  · rcases bind_error_iff.mp h with h | ⟨n, -, h⟩
    · exact read_error h
    · split at h
      · exact write_error h
      · cases h

variable [DecidableEq M]

theorem entryOk_merged {this other : Node M} {k : Fin maxNodeNum} (h : EntryOk k this) :
    EntryOk k (mergedEntry this other) ↔ (Takes this other → EntryOk k other) := by
  unfold mergedEntry
  split
  · rename_i ht
    exact ⟨fun h _ => h, fun h => h ht⟩
  · rename_i ht
    exact ⟨fun _ ht' => absurd ht' ht, fun _ => h⟩

/-- The router LSA says nothing, or names an entry and lists entries only; a count below 0 is not
    stored. -/
def RouterLsaOk (graph : Graph M) (r : Node M) : Prop :=
  r.state = .nodeUnseen ∨ ∃ k : Fin maxNodeNum, r.id = (k : ℕ) + 1 ∧ r.InBounds ∧
    (Supersedes (graph k) r → 0 ≤ r.nNeighbours)

/-- Every record of the network LSA that is stored may be held by its entry. -/
def NetworkLsaOk (graph others : Graph M) : Prop :=
  ∀ k, Takes (graph k) (others k) → EntryOk k (others k)

theorem mergeInNode_avoids_iff (h : TablesOk graph) (r : Node M) :
    Avoids .outOfBounds (mergeInNode graph r) (fun out => TablesOk out.1) ↔ RouterLsaOk graph r := by
  by_cases hun : r.state = .nodeUnseen
  · rw [mergeInNode, if_pos hun]
    exact ⟨fun _ => Or.inl hun, fun _ => Avoids.ok h⟩
  · have hmerge : ∀ k : Fin maxNodeNum, r.id = (k : ℕ) + 1 → _ := fun k hid =>
      mergeInNode_takes hun hid fun hs => Or.inl ((h k).bounds hs).fan
    have hentry : ∀ k, (∀ j, EntryOk j (markedEntry r j
        (Function.update graph k (mergedEntry (graph k) r) j))) ↔
          (Takes (graph k) r → EntryOk k r) := by
      intro k
      rw [← entryOk_merged (h k)]
      refine ⟨fun hall => ?_, fun hk j => entryOk_marked.mpr ?_⟩
      · have := entryOk_marked.mp (hall k)
        rwa [Function.update_self] at this
      · by_cases hj : j = k
        · subst hj; rwa [Function.update_self]
        · rw [Function.update_of_ne hj]; exact h j
    constructor
    · intro hsafe
      right
      obtain ⟨k, hid⟩ : ∃ k : Fin maxNodeNum, r.id = (k : ℕ) + 1 := by
        by_contra hnone
        refine hsafe.1 ?_
        rw [mergeInNode, if_neg hun, Checked.read, dif_neg]
        · rfl
        · intro hrange
          exact hnone ⟨⟨(r.id - 1).toNat, by omega⟩, by simp only; omega⟩
      rw [hmerge k hid, avoids_map_iff] at hsafe
      cases hmark : markNeighbours (Function.update graph k (mergedEntry (graph k) r)) r with
      | error e => exact absurd (by rw [hmark, markNeighbours_error hmark]) hsafe.1
      | ok g =>
        have hr := markNeighbours_inBounds hmark
        have htables := hsafe.2 _ (markNeighbours_eq hr)
        exact ⟨k, hid, hr, fun hsup => ((hentry k).mp htables (Or.inl hsup)).count hsup.1⟩
    · rintro (hun' | ⟨k, hid, hr, hcount⟩)
      · exact absurd hun' hun
      · rw [hmerge k hid, avoids_map_iff, markNeighbours_eq hr]
        refine Avoids.ok ((hentry k).mpr fun htakes => ⟨hid, fun hs => hcount ?_, fun _ => hr⟩)
        rcases htakes with hsup | ⟨hgraph, -⟩
        · exact hsup
        · exact ⟨hs, Or.inl (by rw [hgraph]; simp)⟩

theorem mergeInGraph_avoids_iff (h : TablesOk graph) (others : Graph M) :
    Avoids .outOfBounds (mergeInGraph graph others) (fun out => TablesOk out.1) ↔
      NetworkLsaOk graph others := by
  have hfill : fill maxNodeNum (fun i => mergeEntry (graph i) (others i)) = .ok fun i =>
      (mergedEntry (graph i) (others i), decide (Takes (graph i) (others i))) :=
    fill_ok_iff.mpr fun i => mergeEntry_eq fun hs => Or.inl ((h i).bounds hs).fan
  rw [mergeInGraph, avoids_map_iff, hfill]
  have hiff : TablesOk (fun i => mergedEntry (graph i) (others i)) ↔ NetworkLsaOk graph others :=
    forall_congr' fun k => entryOk_merged (h k)
  exact ⟨fun hsafe => hiff.mp (hsafe.2 _ rfl), fun hok => Avoids.ok (hiff.mpr hok)⟩

end Receive

section Malformed
variable {M : Type} [Ring M] [LinearOrder M] [FloorRing M]

/-- The receive stays in the tables and leaves them in order, and so does a path-finding that follows. -/
def KeepsTables {σ : Type} (x : Exec (Graph M × σ)) : Prop :=
  Avoids .outOfBounds x fun out =>
    TablesOk out.1 ∧ ∀ b srcId, pathfind b out.1 srcId ≠ .error .outOfBounds

theorem keepsTables_iff {σ : Type} {x : Exec (Graph M × σ)} :
    KeepsTables x ↔ Avoids .outOfBounds x fun out => TablesOk out.1 :=
  ⟨fun h => h.mono fun _ hout => hout.1,
    fun h => h.mono fun _ hout => ⟨hout, fun b srcId => (pathfind_avoids b hout srcId).1⟩⟩

/-- Which LSAs the code can take: nothing in them is checked. -/
theorem malformed_lsa_iff {graph : Graph M} (h : TablesOk graph) :
    (∀ (this : LocalNode M) (lsa : Node M) (source : Ip),
      KeepsTables (receiveRouterLsa graph this lsa source) ↔ RouterLsaOk graph lsa) ∧
    ∀ others, KeepsTables (receiveNetworkLsa graph others) ↔ NetworkLsaOk graph others := by
  refine ⟨fun this lsa source => ?_, fun others => ?_⟩
  · rw [keepsTables_iff, ← mergeInNode_avoids_iff h lsa]
    exact avoids_map_iff
  · rw [keepsTables_iff]
    exact mergeInGraph_avoids_iff h others

end Malformed

theorem graphInit_tablesOk {M : Type} (graph : Graph M) : TablesOk (graphInit graph) :=
  fun _ => ⟨rfl, fun hs => (by cases hs), fun hs => (by cases hs)⟩

/-- The graph of a router that has just started. -/
theorem malformed_lsa_start : KeepsTables (receiveRouterLsa (graphInit fun _ => zeroNode) zeroLocalNode
    { zeroNode with id := 12, state := .nodeSeen } 0) ↔
      RouterLsaOk (graphInit fun _ => zeroNode) { zeroNode with id := 12, state := .nodeSeen } :=
  (malformed_lsa_iff (graphInit_tablesOk fun _ => zeroNode)).1 _ _ _

/-- A router LSA of node 13 writes behind the graph; a network LSA whose first record has id 5 leaves that
    id in the first entry. -/
theorem malformed_lsa_leaves : TablesOk (graphInit fun _ => zeroNode) ∧
    receiveRouterLsa (graphInit fun _ => zeroNode) zeroLocalNode
      { zeroNode with id := 13, state := .nodeSeen } 0 = .error .outOfBounds ∧
    ¬KeepsTables (receiveNetworkLsa (graphInit fun _ => zeroNode)
      fun _ => { zeroNode with id := 5, state := .nodeOpaque }) := by
  refine ⟨graphInit_tablesOk _, rfl, fun hkeeps => ?_⟩
  have hok := (mergeInGraph_avoids_iff (graphInit_tablesOk _) _).mp (keepsTables_iff.mp hkeeps)
  exact absurd (hok 0 (Or.inr ⟨rfl, by simp⟩)).id (by decide)

end Dtlsr
