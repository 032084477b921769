import Dtlsr.Pathfind

/-!
    What `dijkstra` computes. The invariant `Tree` reads the array of Dijkstra nodes as the labels of
    `Lib/Walks`: the distance of a node is its `tent_dist`, its predecessor is the node that `prev_id`
    names. Popping settles a node and every slot of it relaxes one link, so the rules of the library
    carry the invariant through both loops; the rebuild of the heap after each relaxation restores its
    order under the distances that changed. -/

namespace Dtlsr
open Checked Walks

section Defs
variable {M : Type}

/-- Slot `i` of `u` is a link to `v` that `dijkstra` uses. -/
structure Slot (b : Build) (graph : Graph M) (u : Fin maxNodeNum) (i : Fin maxNodeFan)
    (v : Fin maxNodeNum) : Prop where
  used : ((i : ℕ) : ℤ) < (graph u).nNeighbours
  id : (graph u).neighbourIds i = (v : ℕ) + 1
  up : b = .lsr → (graph u).linkStatuses i = .linkUp

/-- A link of metric `w` out of a seen node; the LSR build only sees those recorded as up. -/
def Link (b : Build) (graph : Graph M) (u : Fin maxNodeNum) (w : M) (v : Fin maxNodeNum) : Prop :=
  (graph u).state = .nodeSeen ∧ ∃ i, Slot b graph u i v ∧ w = (graph u).linkMetrics i

/-- The graphs that `dijkstra` is given: entry `i` has id `i + 1`, seen records are within bounds, and
    no metric is negative. -/
structure PathInput [Ring M] [LinearOrder M] (graph : Graph M) : Prop where
  ids : ∀ k, (graph k).id = (k : ℕ) + 1
  bounds : ∀ k, (graph k).state = .nodeSeen → (graph k).InBounds
  nonneg : ∀ k, (graph k).state = .nodeSeen → ∀ i : Fin maxNodeFan,
    ((i : ℕ) : ℤ) < (graph k).nNeighbours → 0 ≤ (graph k).linkMetrics i

/-- No metric is above the maximal 50000. -/
def MaxMetric [Ring M] [LinearOrder M] (graph : Graph M) : Prop :=
  ∀ k, (graph k).state = .nodeSeen → ∀ i : Fin maxNodeFan,
    ((i : ℕ) : ℤ) < (graph k).nNeighbours → (graph k).linkMetrics i ≤ 50000

theorem Link.seen {b : Build} {graph : Graph M} {u v : Fin maxNodeNum} {w : M}
    (h : Link b graph u w v) : (graph u).state = .nodeSeen := h.1

/-- The entry that an id names. -/
def idIndex (id : ℤ) : Option (Fin maxNodeNum) :=
  if h : 1 ≤ id ∧ id ≤ maxNodeNum then some ⟨(id - 1).toNat, by omega⟩ else none

theorem idIndex_eq_some {id : ℤ} {k : Fin maxNodeNum} : idIndex id = some k ↔ id = (k : ℕ) + 1 := by
  unfold idIndex
  split
  · rename_i h
    rw [Option.some.injEq, Fin.ext_iff]
    simp only
    omega
  · rename_i h
    simp only [reduceCtorEq, false_iff]
    have := k.isLt
    omega

@[simp] theorem idIndex_succ (k : Fin maxNodeNum) : idIndex ((k : ℕ) + 1) = some k :=
  idIndex_eq_some.mpr rfl

@[simp] theorem idIndex_neg_one : idIndex (-1) = none := rfl

/-- The predecessor that `prev_id` names. -/
def predOf (nodes : DijkstraNodes M) (k : Fin maxNodeNum) : Option (Fin maxNodeNum) :=
  idIndex (nodes k).prevId

end Defs

section Copy
variable {M : Type} [Ring M]

@[simp] theorem dijkstraCopy_id (graph : Graph M) (srcId : ℤ)
    (k : Fin maxNodeNum) :
    (dijkstraCopy graph srcId k).id = (graph k).id := by
  unfold dijkstraCopy; split <;> rfl

@[simp] theorem dijkstraCopy_state (graph : Graph M) (srcId : ℤ)
    (k : Fin maxNodeNum) :
    (dijkstraCopy graph srcId k).state = (graph k).state := by
  unfold dijkstraCopy; split <;> rfl

@[simp] theorem dijkstraCopy_prevId (graph : Graph M) (srcId : ℤ)
    (k : Fin maxNodeNum) :
    (dijkstraCopy graph srcId k).prevId = -1 := by
  unfold dijkstraCopy; split <;> rfl

end Copy

section Spec
variable {M : Type} [Ring M] [LinearOrder M]

/-- The array of Dijkstra nodes during a run: only distances and predecessors have changed since
    `dijkstra_init`, and they are labels. -/
structure Tree (b : Build) (graph : Graph M) (src : Fin maxNodeNum) (nodes : DijkstraNodes M)
    (done queue skip : Set (Fin maxNodeNum)) : Prop where
  copied : ∀ k, nodes k = { dijkstraCopy graph ((src : ℕ) + 1) k with
    tentDist := (nodes k).tentDist, prevId := (nodes k).prevId }
  prev : ∀ k, (nodes k).prevId = -1 ∨ ∃ p : Fin maxNodeNum, (nodes k).prevId = (p : ℕ) + 1
  labels : Labels (Link b graph) infiniteDist src (tentDists nodes) (predOf nodes) done queue skip

variable {b : Build} {graph : Graph M} {src : Fin maxNodeNum} {nodes : DijkstraNodes M}
  {done queue skip : Set (Fin maxNodeNum)}

theorem Tree.id (h : Tree b graph src nodes done queue skip) (hg : PathInput graph)
    (k : Fin maxNodeNum) : (nodes k).id = (k : ℕ) + 1 := by
  rw [h.copied k]; simp [hg.ids k]

theorem Tree.state (h : Tree b graph src nodes done queue skip) (k : Fin maxNodeNum) :
    (nodes k).state = (graph k).state := by
  rw [h.copied k]; simp

/-- The slots of a seen node are those of its record. -/
theorem Tree.slots (h : Tree b graph src nodes done queue skip) {k : Fin maxNodeNum}
    (hs : (graph k).state = .nodeSeen) : (nodes k).nNeighbours = (graph k).nNeighbours ∧
      (nodes k).neighbourIds = (graph k).neighbourIds ∧
      (nodes k).linkStatuses = (graph k).linkStatuses ∧
      (nodes k).linkMetrics = (graph k).linkMetrics := by
  rw [h.copied k]; simp [dijkstraCopy, hs]

theorem Tree.prevId_eq (h : Tree b graph src nodes done queue skip) (k : Fin maxNodeNum) :
    (nodes k).prevId = -1 ∧ predOf nodes k = none ∨
      ∃ p, (nodes k).prevId = ((p : Fin maxNodeNum) : ℕ) + 1 ∧ predOf nodes k = some p := by
  rcases h.prev k with hk | ⟨p, hk⟩
  · exact Or.inl ⟨hk, by rw [predOf, hk]; rfl⟩
  · exact Or.inr ⟨p, hk, by rw [predOf, hk]; simp⟩

/-! ### Links -/

theorem Link.nonneg (hg : PathInput graph) {u v : Fin maxNodeNum} {w : M} (h : Link b graph u w v) :
    0 ≤ w := by
  obtain ⟨hs, i, hi, rfl⟩ := h
  exact hg.nonneg u hs i hi.used

theorem Link.le_max (hmax : MaxMetric graph) {u v : Fin maxNodeNum} {w : M}
    (h : Link b graph u w v) : w ≤ 50000 := by
  obtain ⟨hs, i, hi, rfl⟩ := h
  exact hmax u hs i hi.used

variable [IsStrictOrderedRing M]

/-- A walk that meets no node twice is shorter than the initial distance. -/
theorem Link.walk_lt (hmax : MaxMetric graph) {v : Fin maxNodeNum}
    {l : List (Fin maxNodeNum)} {c : M} (hwalk : Walk (Link b graph) src l v c) (hnd : l.Nodup) :
    c + 50000 < infiniteDist := by
  have hcost := hwalk.cost_le (B := (50000 : M)) fun _ _ _ e => e.le_max hmax
  have hlen : l.length ≤ 12 := by
    simpa using hnd.length_le_card
  calc c + 50000 ≤ l.length • (50000 : M) := hcost
    _ ≤ 12 • (50000 : M) := nsmul_le_nsmul_left (by norm_num) hlen
    _ < infiniteDist := by rw [infiniteDist, nsmul_eq_mul]; norm_num

/-! ### Initialisation -/

theorem tree_init (hsrc : (graph src).state = .nodeSeen) (queue : Set (Fin maxNodeNum)) :
    Tree b graph src (dijkstraInit graph ((src : ℕ) + 1)) ∅ queue ∅ where
  copied _ := rfl
  prev k := Or.inl (by simp [dijkstraInit])
  labels := by
    have hdist : tentDists (dijkstraInit graph ((src : ℕ) + 1)) =
        fun v => if v = src then 0 else infiniteDist := by
      funext k
      by_cases hk : k = src
      · subst hk; simp [tentDists, dijkstraInit, dijkstraCopy, hsrc]
      · have : ((k : ℕ) : ℤ) ≠ (src : ℕ) := by
          intro h; exact hk (Fin.ext (by omega))
        unfold tentDists dijkstraInit dijkstraCopy
        rw [if_neg hk]
        split
        · simp [this]
        · rfl
    have hpred : predOf (dijkstraInit graph ((src : ℕ) + 1)) = fun _ => none := by
      funext k; simp [predOf, dijkstraInit]
    rw [hdist, hpred]
    exact Labels.init (by rw [infiniteDist]; norm_num) queue

omit [Ring M] [IsStrictOrderedRing M] in
/-- `heap_init` queues each seen node once. -/
theorem heapInit_ensures (nodes : DijkstraNodes M) : Ensures (heapInit nodes) fun h =>
    h.Ordered (tentDists nodes) ∧ h.nodePtrs.Nodup ∧
      ∀ k, k ∈ h.nodePtrs ↔ (nodes k).state = .nodeSeen := by
  refine (forAll_ensures (fun i (h : MinHeap (Fin maxNodeNum)) => h.maxSize = maxNodeNum ∧
    h.Ordered (tentDists nodes) ∧ h.nodePtrs.Nodup ∧ h.size ≤ i ∧
      ∀ k, k ∈ h.nodePtrs ↔ (k : ℕ) < i ∧ (nodes k).state = .nodeSeen) ?_ ?_).mono ?_
  · refine ⟨rfl, fun c _ _ => ?_, List.nodup_nil, le_rfl, fun k => by simp [minheapAlloc]⟩
    simp [minheapAlloc, HeapOrder.keys]
  · rintro i h ⟨hmax, ho, hnd, hsize, hmem⟩
    by_cases hs : (nodes i).state = .nodeSeen
    · rw [if_pos hs]
      refine (minheapInsert_ensures (by rw [hmax]; omega) ho i).mono ?_
      rintro out ⟨hmax', hperm, ho'⟩
      have hi : i ∉ h.nodePtrs := fun hi => absurd ((hmem i).mp hi).1 (lt_irrefl _)
      refine ⟨hmax'.trans hmax, ho', hperm.nodup_iff.mpr (List.nodup_cons.mpr ⟨hi, hnd⟩), ?_, ?_⟩
      · rw [MinHeap.size, hperm.length_eq, List.length_cons]; exact Nat.succ_le_succ hsize
      · intro k
        rw [hperm.mem_iff, List.mem_cons, hmem]
        constructor
        · rintro (rfl | ⟨hlt, hk⟩)
          · exact ⟨Nat.lt_succ_self _, hs⟩
          · exact ⟨by omega, hk⟩
        · rintro ⟨hlt, hk⟩
          rcases Nat.lt_succ_iff_lt_or_eq.mp hlt with hlt | heq
          · exact Or.inr ⟨hlt, hk⟩
          · exact Or.inl (Fin.ext heq)
    · rw [if_neg hs]
      refine Ensures.ok ⟨hmax, ho, hnd, by omega, fun k => ?_⟩
      rw [hmem]
      refine and_congr_left fun hk => ⟨fun h => by omega, fun hlt => ?_⟩
      refine (Nat.lt_succ_iff_lt_or_eq.mp hlt).resolve_right fun heq => hs ?_
      rwa [← Fin.ext heq]
  · rintro h ⟨-, ho, hnd, -, hmem⟩
    exact ⟨ho, hnd, fun k => by rw [hmem]; simp⟩

/-! ### Relaxation -/

/-- Writing a shorter way to `v` through `u` relaxes a link. -/
theorem Tree.relax (h : Tree b graph src nodes done queue {u}) (hg : PathInput graph)
    {v : Fin maxNodeNum} {w : M} (hu : u ∈ done)
    (hlast : ∀ x ∈ done, tentDists nodes x ≤ tentDists nodes u) (e : Link b graph u w v)
    (hlt : tentDists nodes u + w < tentDists nodes v) :
    let nodes' := Function.update nodes v
      { nodes v with prevId := (nodes u).id, tentDist := (nodes u).tentDist + w }
    Tree b graph src nodes' done queue {u} ∧
      tentDists nodes' = Function.update (tentDists nodes) v (tentDists nodes u + w) := by
  intro nodes'
  have hdist : tentDists nodes' = Function.update (tentDists nodes) v (tentDists nodes u + w) := by
    funext k
    by_cases hk : k = v
    · subst hk; simp [nodes', tentDists]
    · simp [nodes', tentDists, hk]
  have hpred : predOf nodes' = Function.update (predOf nodes) v (some u) := by
    funext k
    by_cases hk : k = v
    · subst hk; simp [nodes', predOf, h.id hg]
    · simp [nodes', predOf, hk]
  refine ⟨⟨fun k => ?_, fun k => ?_, ?_⟩, hdist⟩
  · by_cases hk : k = v
    · subst hk
      have := h.copied k
      simp only [nodes', Function.update_self]
      rw [this]
    · simp only [nodes', Function.update_of_ne hk]; exact h.copied k
  · by_cases hk : k = v
    · subst hk; exact Or.inr ⟨u, by simp [nodes', h.id hg]⟩
    · simp only [nodes', Function.update_of_ne hk]; exact h.prev k
  · rw [hdist, hpred]
    exact h.labels.relax hu hlast e (e.nonneg hg) hlt

/-- The inner loop after `i` slots of the popped node `u`. -/
structure Relaxing (b : Build) (graph : Graph M) (src u : Fin maxNodeNum)
    (done : Set (Fin maxNodeNum)) (ptrs : List (Fin maxNodeNum)) (i : ℕ)
    (s : DijkstraNodes M × MinHeap (Fin maxNodeNum)) : Prop where
  tree : Tree b graph src s.1 done {k | k ∈ ptrs} {u}
  last : ∀ x ∈ done, tentDists s.1 x ≤ tentDists s.1 u
  perm : s.2.nodePtrs.Perm ptrs
  ordered : s.2.Ordered (tentDists s.1)
  slots : ∀ j : Fin maxNodeFan, (j : ℕ) < i → ∀ v, Slot b graph u j v →
    tentDists s.1 v ≤ tentDists s.1 u + (graph u).linkMetrics j

theorem relaxNeighbour_ensures {u : Fin maxNodeNum} {ptrs : List (Fin maxNodeNum)}
    {i : ℕ} {s : DijkstraNodes M × MinHeap (Fin maxNodeNum)} (hg : PathInput graph)
    (hs : (graph u).state = .nodeSeen) (hu : u ∈ done) (hi : (i : ℤ) < (graph u).nNeighbours)
    (h : Relaxing b graph src u done ptrs i s) :
    Ensures (relaxNeighbour b u i s) (Relaxing b graph src u done ptrs (i + 1)) := by
  obtain ⟨nodes, heap⟩ := s
  obtain ⟨htree, hlast, hperm, hord, hslots⟩ := h
  dsimp only at htree hlast hperm hord hslots
  have hb := hg.bounds u hs
  have hi6 := hb.fan.lt hi
  obtain ⟨k, hk⟩ : ∃ k : Fin maxNodeNum, (graph u).neighbourIds ⟨i, hi6⟩ = (k : ℕ) + 1 := by
    obtain ⟨h1, h2⟩ := hb.ids ⟨i, hi6⟩ hi
    exact ⟨⟨((graph u).neighbourIds ⟨i, hi6⟩ - 1).toNat, by omega⟩, by simp only; omega⟩
  obtain ⟨-, hids, hsts, hmets⟩ := htree.slots hs
  -- a slot below `i + 1` is below `i`, or it is this one
  have hnext : ∀ (P : Fin maxNodeFan → Prop), (∀ j : Fin maxNodeFan, (j : ℕ) < i → P j) →
      P ⟨i, hi6⟩ → ∀ j : Fin maxNodeFan, (j : ℕ) < i + 1 → P j := by
    intro P hP hPi j hj
    rcases Nat.lt_succ_iff_lt_or_eq.mp hj with hlt | rfl
    · exact hP j hlt
    · exact hPi
  rw [relaxNeighbour]
  simp only [hids, hsts, hmets, read_of_lt _ hi6, ok_bind]
  by_cases hdown : b = .lsr ∧ (graph u).linkStatuses ⟨i, hi6⟩ = .linkDown
  · rw [if_pos hdown]
    refine Ensures.ok ⟨htree, hlast, hperm, hord, hnext _ hslots fun v hv => ?_⟩
    have hup := hv.up hdown.1
    rw [hdown.2] at hup
    cases hup
  · rw [if_neg hdown, read_of_eq nodes k (by omega), ok_bind]
    have hslot : Slot b graph u ⟨i, hi6⟩ k := by
      refine ⟨hi, hk, fun hb => ?_⟩
      cases hst : (graph u).linkStatuses ⟨i, hi6⟩ with
      | linkDown => exact absurd ⟨hb, hst⟩ hdown
      | linkUp => rfl
    have hlink : Link b graph u ((graph u).linkMetrics ⟨i, hi6⟩) k := ⟨hs, _, hslot, rfl⟩
    have honly : ∀ v, Slot b graph u ⟨i, hi6⟩ v → v = k := fun v hv => by
      have := hv.id; rw [hk] at this; exact Fin.ext (by omega)
    by_cases hlt : (nodes u).tentDist + (graph u).linkMetrics ⟨i, hi6⟩ < (nodes k).tentDist
    · rw [if_pos hlt, write_of_eq nodes k (by omega), ok_bind]
      obtain ⟨htree', hdist⟩ := htree.relax hg hu hlast hlink hlt
      have hne : ∀ x ∈ done, x ≠ k := by
        rintro x hx rfl
        exact Labels.notMem_of_improves hlast (hlink.nonneg hg) hlt hx
      refine (minheapBuildHeap_ensures heap).bind fun h' ⟨_, hp, ho⟩ => Ensures.ok ?_
      have hkept : ∀ x ∈ done, Function.update (tentDists nodes) k
          (tentDists nodes u + (graph u).linkMetrics ⟨i, hi6⟩) x = tentDists nodes x :=
        fun x hx => Function.update_of_ne (hne x hx) _ _
      refine ⟨htree', ?_, hp.trans hperm, ho, hnext _ ?_ ?_⟩
      · simp only [hdist]
        intro x hx
        rw [hkept x hx, hkept u hu]
        exact hlast x hx
      · simp only [hdist]
        intro j hj v hv
        rw [hkept u hu]
        by_cases hvk : v = k
        · subst hvk
          rw [Function.update_self]
          exact hlt.le.trans (hslots j hj v hv)
        · rw [Function.update_of_ne hvk]; exact hslots j hj v hv
      · simp only [hdist]
        intro v hv
        rw [honly v hv, hkept u hu, Function.update_self]
    · rw [if_neg hlt]
      refine Ensures.ok ⟨htree, hlast, hperm, hord, hnext _ hslots fun v hv => ?_⟩
      rw [honly v hv]
      exact not_lt.mp hlt

/-! ### The main loop -/

/-- The main loop between two rounds. -/
structure Searching (b : Build) (graph : Graph M) (src : Fin maxNodeNum)
    (done : Set (Fin maxNodeNum)) (nodes : DijkstraNodes M) (h : MinHeap (Fin maxNodeNum)) :
    Prop where
  tree : Tree b graph src nodes done {k | k ∈ h.nodePtrs} ∅
  ordered : h.Ordered (tentDists nodes)
  nodup : h.nodePtrs.Nodup
  seen : ∀ k, (graph k).state = .nodeSeen ↔ k ∈ done ∨ k ∈ h.nodePtrs

theorem dijkstraLoop_ensures (hg : PathInput graph) : ∀ {fuel : ℕ} {done : Set (Fin maxNodeNum)}
    {nodes : DijkstraNodes M} {h : MinHeap (Fin maxNodeNum)}, h.size < fuel →
    Searching b graph src done nodes h → Ensures (dijkstraLoop b fuel (nodes, h)) fun nodes' =>
      ∃ done', Tree b graph src nodes' done' ∅ ∅ ∧ ∀ k, (graph k).state = .nodeSeen → k ∈ done' := by
  intro fuel
  induction fuel with
  | zero =>
    intro _ _ _ hfuel _
    exact absurd hfuel (Nat.not_lt_zero _)
  | succ fuel ih =>
    intro done nodes h hfuel hI
    rw [dijkstraLoop]
    by_cases hsize : 0 < h.size
    · rw [if_pos hsize]
      refine (minheapPop_ensures hsize hI.ordered).bind fun ⟨u, h'⟩ ⟨_, hperm, ho, hmin⟩ => ?_
      simp only at hperm ho hmin ⊢
      have hu : u ∈ h.nodePtrs := hperm.subset List.mem_cons_self
      have hnd := List.nodup_cons.mp (hperm.nodup_iff.mpr hI.nodup)
      have hseen : (graph u).state = .nodeSeen := (hI.seen u).mpr (Or.inr hu)
      have hround : Ensures (relaxNeighbours b u (nodes, h')) fun s =>
          Searching b graph src (insert u done) s.1 s.2 ∧ s.2.size = h'.size := by
        rw [relaxNeighbours, if_neg (by simp only [hI.tree.state u, hseen]; simp)]
        have hstart : Relaxing b graph src u (insert u done) h'.nodePtrs 0 (nodes, h') := by
          refine ⟨⟨hI.tree.copied, hI.tree.prev, ?_⟩, ?_, List.Perm.refl _, ho, by omega⟩
          · refine hI.tree.labels.settle hu hmin (fun k hk => ?_) hnd.1
            exact hperm.subset (List.mem_cons_of_mem u hk)
          · intro x hx
            rcases Set.mem_insert_iff.mp hx with rfl | hx
            · exact le_rfl
            · exact hI.tree.labels.front x hx u hu
        have hn : (nodes u).nNeighbours = (graph u).nNeighbours := (hI.tree.slots hseen).1
        refine (forUpto_ensures (Relaxing b graph src u (insert u done) h'.nodePtrs) hstart
          fun i s hi hs => relaxNeighbour_ensures hg hseen (Set.mem_insert u done)
            (by rw [← hn]; exact hi) hs).mono ?_
        rintro ⟨nodes', h''⟩ hR
        have hmem : ∀ k, k ∈ h''.nodePtrs ↔ k ∈ h'.nodePtrs := fun k => hR.perm.mem_iff
        refine ⟨⟨⟨hR.tree.copied, hR.tree.prev, ?_⟩, hR.ordered, ?_, fun k => ?_⟩, ?_⟩
        · have hclose := hR.tree.labels.close (u := u) (by
            rintro w v ⟨-, j, hj, rfl⟩
            refine hR.slots j ?_ v hj
            simp only [hn]
            have := hj.used
            omega)
          simpa only [hmem] using hclose
        · exact hR.perm.nodup_iff.mpr hnd.2
        · rw [hI.seen, hmem, ← hperm.mem_iff, List.mem_cons, Set.mem_insert_iff]
          tauto
        · exact hR.perm.length_eq
      refine hround.bind fun s ⟨hs, hlen⟩ => ih ?_ hs
      rw [hlen]
      have := hperm.length_eq
      simp only [List.length_cons] at this
      unfold MinHeap.size at hfuel ⊢
      omega
    · rw [if_neg hsize]
      have hnil : h.nodePtrs = [] := List.eq_nil_of_length_eq_zero (by
        unfold MinHeap.size at hsize; omega)
      refine Ensures.ok ⟨done, by simpa [hnil] using hI.tree, fun k hk => ?_⟩
      simpa [hnil] using (hI.seen k).mp hk

/-- What `dijkstra` leaves: a tree with every link relaxed. -/
theorem dijkstra_tree (b : Build) (hg : PathInput graph) (hsrc : (graph src).state = .nodeSeen) :
    Ensures (dijkstra b graph ((src : ℕ) + 1)) fun nodes => ∃ done,
      Tree b graph src nodes done ∅ ∅ ∧ ∀ u w v, Link b graph u w v → u ∈ done := by
  rw [dijkstra]
  refine (heapInit_ensures _).bind fun h ⟨ho, hnd, hmem⟩ => ?_
  refine (dijkstraLoop_ensures hg ?_ ⟨tree_init hsrc _, ho, hnd, fun k => ?_⟩).mono
    fun nodes ⟨done, h, hall⟩ => ⟨done, h, fun u w v e => hall u e.seen⟩
  · have := hnd.length_le_card
    simp only [Fintype.card_fin] at this
    exact Nat.lt_succ_of_le this
  · rw [hmem]; simp [dijkstraInit]

end Spec

end Dtlsr
