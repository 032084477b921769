import Dtlsr.Lib.Relate
import Dtlsr.LocalGraph

/-!
    What of a record the code may look at: its id, its state and its time stamp, and of a seen record
    the slots in use. Everything else may be uninitialised memory, the router's own or that of another
    router that has sent it. Here the merges, Dijkstra's algorithm and the backtrace are shown to look
    at nothing else, on two graphs side by side. -/

namespace Dtlsr
open Checked

section Alike
variable {M : Type}

/-- Two records with the same slots in use. -/
structure SameSlots (a b : Node M) : Prop extends SameContent a b where
  addresses : ∀ i : Fin maxNodeFan, ((i : ℕ) : ℤ) < a.nNeighbours →
    a.sourceIps i = b.sourceIps i ∧ a.neighbourIps i = b.neighbourIps i

/-- Two entries that the code cannot tell apart. -/
structure Alike (a b : Node M) : Prop where
  id : a.id = b.id
  state : a.state = b.state
  timestamp : a.timestamp = b.timestamp
  slots : a.state = .nodeSeen → SameSlots a b

instance [DecidableEq M] (a b : Node M) : Decidable (Alike a b) :=
  decidable_of_iff (a.id = b.id ∧ a.state = b.state ∧ a.timestamp = b.timestamp ∧
      (a.state = .nodeSeen → SameContent a b ∧ ∀ i : Fin maxNodeFan, ((i : ℕ) : ℤ) < a.nNeighbours →
        a.sourceIps i = b.sourceIps i ∧ a.neighbourIps i = b.neighbourIps i))
    ⟨fun ⟨h1, h2, h3, h4⟩ => ⟨h1, h2, h3, fun hs => ⟨(h4 hs).1, (h4 hs).2⟩⟩,
      fun h => ⟨h.id, h.state, h.timestamp, fun hs =>
        ⟨(h.slots hs).toSameContent, (h.slots hs).addresses⟩⟩⟩

theorem Alike.refl (a : Node M) : Alike a a :=
  ⟨rfl, rfl, rfl, fun _ => ⟨.refl a, fun _ _ => ⟨rfl, rfl⟩⟩⟩

/-- The records at one place of two graphs: their id is that of the place. -/
structure AlikeAt (k : Fin maxNodeNum) (a b : Node M) : Prop extends Alike a b where
  own : a.id = (k : ℕ) + 1

def AlikeGraphs (g1 g2 : Graph M) : Prop := ∀ k, AlikeAt k (g1 k) (g2 k)

theorem graphInit_alike (memory1 memory2 : Graph M) :
    AlikeGraphs (graphInit memory1) (graphInit memory2) :=
  fun _ => ⟨⟨rfl, rfl, rfl, fun h => by cases h⟩, rfl⟩

/-- A round of a loop that marks a neighbour. -/
theorem mark_alike {g1 g2 : Graph M} {j : ℤ} (mk : Node M → Node M) (hg : AlikeGraphs g1 g2)
    (hmk : ∀ k : Fin maxNodeNum, j = (k : ℕ) → ∀ n1 n2, AlikeAt k n1 n2 →
      AlikeAt k (mk n1) (mk n2)) :
    Relates AlikeGraphs
      (do let n ← read g1 j; if n.state = .nodeUnseen then write g1 j (mk n) else pure g1)
      (do let n ← read g2 j; if n.state = .nodeUnseen then write g2 j (mk n) else pure g2) := by
  refine Relates.read fun k hk => ?_
  rw [← (hg k).state]
  refine Relates.ite (fun hun => ?_) fun _ => hg
  rw [write_of_eq g1 k hk, write_of_eq g2 k hk]
  exact forall_update hg (hmk k hk _ _ (hg k))

theorem markNeighbours_alike {g1 g2 : Graph M} {r1 r2 : Node M} (hg : AlikeGraphs g1 g2)
    (hr : SameSlots r1 r2) : Relates AlikeGraphs (markNeighbours g1 r1) (markNeighbours g2 r2) := by
  unfold markNeighbours
  rw [← hr.count]
  refine forUpto_relates hg fun i hi h1 h2 hh => ?_
  unfold markNeighbour
  rw [← read_congr fun k hk => (hr.links k (by omega)).1]
  refine Relates.bind_same fun id1 => ?_
  exact mark_alike (fun n => { n with state := .nodeOpaque }) hh fun k _ n1 n2 hn =>
    ⟨⟨hn.id, rfl, hn.timestamp, fun h => by cases h⟩, hn.own⟩

end Alike

/-! ### Merging -/

section Merge
variable {M : Type} [DecidableEq M] {a1 a2 b1 b2 : Node M} {g1 g2 : Graph M}

/-- `nodes_eq` looks at the slots of seen records only. -/
theorem nodesEq_alike (ha : Alike a1 a2) (hb : Alike b1 b2) (hs : b1.state = .nodeSeen) :
    nodesEq a1 b1 = nodesEq a2 b2 := by
  unfold nodesEq
  by_cases hsa : a1.state = .nodeSeen
  · have hca := ha.slots hsa
    have hcb := hb.slots hs
    rw [← ha.id, ← ha.state, ← hca.count, ← hb.id, ← hb.state, ← hcb.count]
    by_cases hc : a1.id = b1.id ∧ a1.state = b1.state ∧ a1.nNeighbours = b1.nNeighbours
    · rw [if_pos hc, if_pos hc]
      refine congrArg (· >>= _) (firstIdx_congr fun m hm => ?_)
      have hm' := hm
      rw [hc.2.2] at hm'
      rw [read_congr fun k hk => (hca.links k (by omega)).1,
        read_congr fun k hk => (hca.links k (by omega)).2.1,
        read_congr fun k hk => (hca.links k (by omega)).2.2,
        read_congr fun k hk => (hcb.links k (by omega)).1,
        read_congr fun k hk => (hcb.links k (by omega)).2.1,
        read_congr fun k hk => (hcb.links k (by omega)).2.2]
    · rw [if_neg hc, if_neg hc]
  · have hne : a1.state ≠ b1.state := fun h => hsa (h.trans hs)
    rw [if_neg fun h => hne h.2.1, if_neg fun h => hne (by rw [ha.state, h.2.1, hb.state])]

theorem replaceNewer_alike (ha : Alike a1 a2) (hb : Alike b1 b2) (u : Bool) :
    Relates (fun p q => Alike p.1 q.1 ∧ (p.1 = a1 ∨ p.1 = b1) ∧ p.2 = q.2)
      (replaceNewer a1 b1 u) (replaceNewer a2 b2 u) := by
  unfold replaceNewer
  rw [← hb.state, ← ha.timestamp, ← hb.timestamp]
  refine Relates.ite (fun hc => ?_) fun _ => ⟨ha, Or.inl rfl, rfl⟩
  rw [nodesEq_alike ha hb hc.1]
  refine Relates.bind_same fun eq => ?_
  cases eq with
  | false => exact ⟨hb, Or.inr rfl, rfl⟩
  | true => exact ⟨ha, Or.inl rfl, rfl⟩

theorem mergeEntry_alike (ha : Alike a1 a2) (hb : Alike b1 b2) :
    Relates (fun p q => Alike p.1 q.1 ∧ (p.1 = a1 ∨ p.1 = b1) ∧ p.2 = q.2)
      (mergeEntry a1 b1) (mergeEntry a2 b2) := by
  have hkeep := replaceNewer_alike ha hb false
  have htake : Relates (fun p q => Alike p.1 q.1 ∧ (p.1 = a1 ∨ p.1 = b1) ∧ p.2 = q.2)
      (replaceNewer b1 b1 true) (replaceNewer b2 b2 true) :=
    (replaceNewer_alike hb hb true).mono fun p q h => ⟨h.1, Or.inr (or_self_iff.mp h.2.1), h.2.2⟩
  unfold mergeEntry
  rw [← hb.state, ← ha.state]
  cases hbs : b1.state with
  | nodeUnseen => exact ⟨ha, Or.inl rfl, rfl⟩
  | nodeOpaque => cases has : a1.state <;> simpa [has, ← ha.state] using by assumption
  | nodeSeen => cases has : a1.state <;> simpa [has, hbs, ← ha.state, ← hb.state] using by assumption

theorem mergeInGraph_alike {h1 h2 : Graph M} (hg : AlikeGraphs g1 g2) (hh : AlikeGraphs h1 h2) :
    Relates (fun p q => AlikeGraphs p.1 q.1 ∧ p.2 = q.2) (mergeInGraph g1 h1)
      (mergeInGraph g2 h2) := by
  unfold mergeInGraph
  refine (fill_relates fun i =>
    mergeEntry_alike (hg i).toAlike (hh i).toAlike).bind fun out1 out2 hout => ?_
  refine ⟨fun k => ⟨(hout k).1, ?_⟩, ?_⟩
  · rcases (hout k).2.1 with h | h
    · simpa only [h] using (hg k).own
    · simpa only [h] using (hh k).own
  · simp only [(hout _).2.2]

/-- A router LSA is a seen record. -/
theorem mergeInNode_alike {r1 r2 : Node M} (hg : AlikeGraphs g1 g2) (hr : Alike r1 r2)
    (hs : r1.state = .nodeSeen) : Relates (fun p q => AlikeGraphs p.1 q.1 ∧ p.2 = q.2)
      (mergeInNode g1 r1) (mergeInNode g2 r2) := by
  have hs2 : r2.state = .nodeSeen := by rw [← hr.state, hs]
  unfold mergeInNode
  rw [if_neg (by simp [hs]), if_neg (by simp [hs2]), ← hr.id, ← hr.state]
  refine Relates.read fun k hk => ?_
  have hown : AlikeAt k r1 r2 := ⟨hr, by omega⟩
  -- whichever record the last test leaves has the id of the entry
  have hstore : ∀ p q : Node M × Bool, AlikeAt k p.1 q.1 ∧ p.2 = q.2 →
      Relates (fun p q => AlikeGraphs p.1 q.1 ∧ p.2 = q.2)
        (do let g ← write g1 (r1.id - 1) p.1; let g ← markNeighbours g r1; pure (g, p.2))
        (do let g ← write g2 (r1.id - 1) q.1; let g ← markNeighbours g r2; pure (g, q.2)) := by
    intro p q hpq
    rw [write_of_eq g1 k hk, write_of_eq g2 k hk]
    refine (markNeighbours_alike (forall_update hg hpq.1) (hr.slots hs)).bind fun h1 h2 hh => ?_
    exact ⟨hh, hpq.2⟩
  rw [← (hg k).state]
  by_cases hc : (g1 k).state = .nodeUnseen ∨ (g1 k).state = .nodeOpaque ∧ r1.state = .nodeSeen
  · simp only [if_pos hc]
    refine (replaceNewer_alike hr hr true).bind fun p q h => hstore p q ⟨⟨h.1, ?_⟩, h.2.2⟩
    rw [or_self_iff.mp h.2.1, hown.own]
  · simp only [if_neg hc]
    refine (replaceNewer_alike (hg k).toAlike hr false).bind fun p q h =>
      hstore p q ⟨⟨h.1, ?_⟩, h.2.2⟩
    rcases h.2.1 with h | h
    · rw [h, (hg k).own]
    · rw [h, hown.own]

end Merge

/-! ### The router's own record -/

section Own
variable {M : Type} [Field M] [Libm M] {b : Build} {p : HistParams M} {g1 g2 : Graph M}

theorem updateGlobalThis_alike {this : LocalNode M} {now : ℕ} (hg : AlikeGraphs g1 g2) :
    Relates (fun p q => AlikeGraphs p.1 q.1 ∧ p.2 = q.2)
      (updateGlobalThis b p g1 this now) (updateGlobalThis b p g2 this now) := by
  unfold updateGlobalThis
  simp only [localNodeUpdateMetrics_id]
  refine Relates.write fun k hk => ?_
  have hid : (localNodeUpdateMetrics b p this now).node.id = (k : ℕ) + 1 := by
    rw [localNodeUpdateMetrics_id]
    omega
  have hh := forall_update hg (AlikeAt.mk (.refl _) hid)
  refine (forUpto_relates hh fun i hi h1 h2 hh => ?_).bind fun h1 h2 hh' => ⟨hh', rfl⟩
  unfold markOpaque
  refine Relates.bind_same fun id1 => ?_
  exact mark_alike (fun n => { n with id := id1, state := .nodeOpaque }) hh
    fun k hk n1 n2 hn => ⟨⟨rfl, rfl, hn.timestamp, fun h => by cases h⟩, show id1 = _ by omega⟩

end Own

/-! ### Dijkstra's algorithm -/

section Copies
variable {M : Type} {g : Graph M} {k : Fin maxNodeNum}

/-- The nodes at one place of two searches. One that has neighbours is a copy of a seen entry of `g`,
    with its slots. -/
structure CopiedAt (g : Graph M) (k : Fin maxNodeNum) (a b : DijkstraNode M) : Prop where
  id : a.id = b.id
  own : a.id = (k : ℕ) + 1
  state : a.state = b.state
  tentDist : a.tentDist = b.tentDist
  prevId : a.prevId = b.prevId
  count : a.nNeighbours = b.nNeighbours
  links : ∀ i : Fin maxNodeFan, ((i : ℕ) : ℤ) < a.nNeighbours →
    a.neighbourIds i = b.neighbourIds i ∧ a.linkStatuses i = b.linkStatuses i ∧
      a.linkMetrics i = b.linkMetrics i
  seen : 0 < a.nNeighbours → (g k).state = .nodeSeen ∧ a.nNeighbours = (g k).nNeighbours

def Copies (g : Graph M) (n1 n2 : DijkstraNodes M) : Prop := ∀ k, CopiedAt g k (n1 k) (n2 k)

/-- The state of a search, whose heap is the same in both. -/
def SearchAlike (g : Graph M) (s t : DijkstraNodes M × MinHeap (Fin maxNodeNum)) : Prop :=
  Copies g s.1 t.1 ∧ s.2 = t.2

theorem dijkstraInit_copies [Ring M] {g1 g2 : Graph M} (hg : AlikeGraphs g1 g2) (srcId : ℤ) :
    Copies g1 (dijkstraInit g1 srcId) (dijkstraInit g2 srcId) := by
  intro k
  unfold dijkstraInit dijkstraCopy
  rw [← (hg k).state]
  by_cases hs : (g1 k).state = .nodeSeen
  · have hc := (hg k).slots hs
    rw [if_pos hs, if_pos hs]
    exact ⟨(hg k).id, (hg k).own, rfl, rfl, rfl, hc.count, hc.links, fun _ => ⟨hs, rfl⟩⟩
  · rw [if_neg hs, if_neg hs]
    exact ⟨(hg k).id, (hg k).own, rfl, rfl, rfl, rfl, fun _ _ => ⟨rfl, rfl, rfl⟩,
      fun h => absurd h (lt_irrefl 0)⟩

theorem Copies.tentDists {n1 n2 : DijkstraNodes M} (h : Copies g n1 n2) :
    tentDists n1 = tentDists n2 :=
  funext fun k => (h k).tentDist

theorem slotOf_alike {g : Graph M} {k : Fin maxNodeNum} {a b : DijkstraNode M}
    (h : CopiedAt g k a b) (id : ℤ) : slotOf a id = slotOf b id := by
  unfold slotOf
  rw [← h.count]
  refine firstIdx_congr fun m hm => ?_
  rw [read_congr fun j hj => (h.links j (by omega)).1]

/-- The entry that a slot of a node stands for is a seen one, and the slot is in use there. -/
theorem slotOf_seen {g : Graph M} {k : Fin maxNodeNum} {a b : DijkstraNode M} (h : CopiedAt g k a b)
    {id : ℤ} {i : ℕ} (hi : slotOf a id = .ok (some i)) :
    (i : ℤ) < a.nNeighbours ∧ (g k).state = .nodeSeen ∧ (i : ℤ) < (g k).nNeighbours := by
  obtain ⟨hlt, -⟩ := firstIdx_some hi
  obtain ⟨hs, hc⟩ := h.seen (by omega)
  exact ⟨hlt, hs, by omega⟩

/-- Two states of a backtrace. -/
structure TraceAlike (g : Graph M) (t1 t2 : Trace M) : Prop where
  this : ∃ k, CopiedAt g k t1.this t2.this
  next : t1.next.map DijkstraNode.id = t2.next.map DijkstraNode.id
  metric : t1.metric = t2.metric
  nextHopState : t1.nextHopState = t2.nextHopState

theorem getDstIp_alike {g1 g2 : Graph M} {n1 n2 : DijkstraNodes M} (hg : AlikeGraphs g1 g2)
    (hn : Copies g1 n1 n2) (dstId : ℤ) :
    Relates Eq (getDstIp g1 n1 dstId) (getDstIp g2 n2 dstId) := by
  unfold getDstIp
  refine Relates.read fun k _ => ?_
  rw [← (hn k).prevId]
  refine Relates.read fun j _ => ?_
  rw [← (hn k).id, ← slotOf_alike (hn j)]
  cases hslot : slotOf (n1 j) (n1 k).id with
  | error e => rfl
  | ok slot =>
    cases slot with
    | none => rfl
    | some i =>
      obtain ⟨-, hs, hig⟩ := slotOf_seen (hn j) hslot
      rw [ok_bind, ok_bind]
      simp only []
      have hj : (n1 j).id - 1 = (j : ℕ) := by rw [(hn j).own, add_sub_cancel_right]
      rw [← (hn j).id, read_of_eq g1 j hj, read_of_eq g2 j hj]
      exact Relates.of_eq (read_congr fun l hl => (((hg j).slots hs).addresses l (by omega)).2)

end Copies

section Dijkstra
variable {M : Type} [LinearOrder M] {g : Graph M}

theorem heapInit_copies {n1 n2 : DijkstraNodes M} (h : Copies g n1 n2) :
    heapInit n1 = heapInit n2 := by
  unfold heapInit
  simp only [h.tentDists, (h _).state]

variable [Ring M]

/-- A round on a slot in use of the node that was popped. -/
theorem relaxNeighbour_alike {b : Build} {curr : Fin maxNodeNum} {i : ℕ}
    {s t : DijkstraNodes M × MinHeap (Fin maxNodeNum)} (h : SearchAlike g s t)
    (hi : (i : ℤ) < (s.1 curr).nNeighbours) :
    Relates (fun s' t' => SearchAlike g s' t' ∧ (s'.1 curr).nNeighbours = (s.1 curr).nNeighbours)
      (relaxNeighbour b curr i s) (relaxNeighbour b curr i t) := by
  obtain ⟨n1, h1⟩ := s
  obtain ⟨n2, h2⟩ := t
  obtain ⟨hn, rfl⟩ : Copies g n1 n2 ∧ h1 = h2 := h
  have hlinks := (hn curr).links
  have hi' : (i : ℤ) < (n1 curr).nNeighbours := hi
  unfold relaxNeighbour
  simp only []
  rw [← read_congr fun j hj => (hlinks j (by omega)).2.1,
    ← read_congr fun j hj => (hlinks j (by omega)).1,
    ← read_congr fun j hj => (hlinks j (by omega)).2.2, ← (hn curr).tentDist, ← (hn curr).id]
  refine Relates.bind_same fun status => ?_
  refine Relates.ite (fun _ => ⟨⟨hn, rfl⟩, rfl⟩) fun _ => ?_
  refine Relates.bind_same fun id => ?_
  refine Relates.read fun j hj => ?_
  refine Relates.bind_same fun metric => ?_
  rw [← (hn j).tentDist]
  refine Relates.ite (fun _ => ?_) fun _ => ⟨⟨hn, rfl⟩, rfl⟩
  have hn' := forall_update hn (show CopiedAt g j
    { n1 j with prevId := (n1 curr).id, tentDist := (n1 curr).tentDist + metric }
    { n2 j with prevId := (n1 curr).id, tentDist := (n1 curr).tentDist + metric } from
      ⟨(hn j).id, (hn j).own, (hn j).state, rfl, rfl, (hn j).count, (hn j).links, (hn j).seen⟩)
  rw [write_of_eq n1 j hj, write_of_eq n2 j hj, ok_bind, ok_bind, Copies.tentDists hn']
  refine Relates.bind_same fun h => ⟨⟨hn', rfl⟩, ?_⟩
  -- the node that is written keeps its slots
  rcases eq_or_ne curr j with rfl | hne
  · simp only [Function.update_self]
  · simp only [Function.update_of_ne hne]

theorem relaxNeighbours_alike {b : Build} {curr : Fin maxNodeNum}
    {s t : DijkstraNodes M × MinHeap (Fin maxNodeNum)} (h : SearchAlike g s t) :
    Relates (SearchAlike g) (relaxNeighbours b curr s) (relaxNeighbours b curr t) := by
  unfold relaxNeighbours
  rw [← (h.1 curr).state, ← (h.1 curr).count]
  refine Relates.ite (fun _ => h) fun _ => ?_
  -- a round changes no node's number of neighbours
  refine Relates.mono (forUpto_relates (R := fun s' t' => SearchAlike g s' t' ∧
    (s'.1 curr).nNeighbours = (s.1 curr).nNeighbours) ⟨h, rfl⟩ fun i hi s' t' hst => ?_)
    fun s' t' hst => hst.1
  refine (relaxNeighbour_alike hst.1 (by rw [hst.2]; exact hi)).mono fun s'' t'' h' => ?_
  exact ⟨h'.1, h'.2.trans hst.2⟩

theorem dijkstraLoop_alike {b : Build} : ∀ {fuel : ℕ}
    {s t : DijkstraNodes M × MinHeap (Fin maxNodeNum)}, SearchAlike g s t →
      Relates (Copies g) (dijkstraLoop b fuel s) (dijkstraLoop b fuel t)
  | 0, _, _, _ => rfl
  | fuel + 1, (n1, h), (n2, h'), hst => by
    obtain ⟨hn, rfl⟩ : Copies g n1 n2 ∧ h = h' := hst
    rw [dijkstraLoop, dijkstraLoop]
    refine Relates.ite (fun _ => ?_) fun _ => hn
    rw [← hn.tentDists]
    refine Relates.bind_same fun out => ?_
    refine (relaxNeighbours_alike (s := (n1, out.2)) (t := (n2, out.2)) ⟨hn, rfl⟩).bind
      fun s t hst => ?_
    exact dijkstraLoop_alike hst

theorem dijkstra_alike {b : Build} {g1 g2 : Graph M} (hg : AlikeGraphs g1 g2) (srcId : ℤ) :
    Relates (Copies g1) (dijkstra b g1 srcId) (dijkstra b g2 srcId) := by
  have hn := dijkstraInit_copies hg srcId
  unfold dijkstra
  simp only []
  rw [← heapInit_copies hn]
  refine Relates.bind_same fun h => ?_
  exact dijkstraLoop_alike ⟨hn, rfl⟩

end Dijkstra

/-! ### Next hops -/

section Backtrace
variable {M : Type} [Ring M] [LinearOrder M] [FloorRing M] {g1 g2 : Graph M}
  {n1 n2 : DijkstraNodes M}

theorem backtrace_alike (hg : AlikeGraphs g1 g2) (hn : Copies g1 n1 n2) : ∀ {fuel : ℕ}
    {t1 t2 : Trace M}, TraceAlike g1 t1 t2 →
      Relates (TraceAlike g1) (backtrace g1 n1 fuel t1) (backtrace g2 n2 fuel t2) := by
  intro fuel
  induction fuel with
  | zero =>
    intro _ _ _
    rfl
  | succ fuel ih =>
    intro t1 t2 ht
    obtain ⟨k, hthis⟩ := ht.this
    rw [backtrace, backtrace, ← hthis.prevId]
    refine Relates.ite (fun _ => ht) fun _ => ?_
    simp only [← hthis.prevId]
    refine Relates.read fun j _ => ?_
    rw [← hthis.id, ← slotOf_alike (hn j)]
    cases hslot : slotOf (n1 j) t1.this.id with
    | error e => rfl
    | ok slot =>
      rw [ok_bind, ok_bind]
      cases slot with
      | none =>
        exact ih ⟨⟨j, hn j⟩, congrArg some hthis.id, ht.metric, ht.nextHopState⟩
      | some i =>
        obtain ⟨hi, hs, hig⟩ := slotOf_seen (hn j) hslot
        simp only []
        have hj : (n1 j).id - 1 = (j : ℕ) := by rw [(hn j).own, add_sub_cancel_right]
        rw [← read_congr fun m hm => ((hn j).links m (by omega)).2.1, ← (hn j).id,
          read_of_eq g1 j hj, read_of_eq g2 j hj]
        refine Relates.bind_same fun state => ?_
        rw [ok_bind, ok_bind, ← read_congr fun l hl => (((hg j).slots hs).links l (by omega)).2.2]
        refine Relates.bind_same fun metric => ?_
        exact ih
          ⟨⟨j, hn j⟩, congrArg some hthis.id, congrArg (sDSafeAdd · metric) ht.metric, rfl⟩

theorem getNextHop_alike (hg : AlikeGraphs g1 g2) (hn : Copies g1 n1 n2) (dstId : ℤ) :
    Relates (fun p q => p.1 = q.1 ∧ TraceAlike g1 p.2 q.2) (getNextHop g1 n1 dstId)
      (getNextHop g2 n2 dstId) := by
  unfold getNextHop
  refine Relates.read fun j _ => ?_
  have h0 : TraceAlike g1 { this := n1 j, next := none, metric := 1, nextHopState := none }
      { this := n2 j, next := none, metric := 1, nextHopState := none } :=
    ⟨⟨j, hn j⟩, rfl, rfl, rfl⟩
  refine (backtrace_alike hg hn h0).bind fun t1 t2 ht => ?_
  obtain ⟨k, hthis⟩ := ht.this
  have hnext := ht.next
  rw [← hthis.id]
  refine Relates.ite (fun _ => ⟨rfl, ht⟩) fun _ => ?_
  cases h1 : t1.next with
  | none =>
    cases h2 : t2.next with
    | none => rfl
    | some b => rw [h1, h2] at hnext; cases hnext
  | some a =>
    cases h2 : t2.next with
    | none => rw [h1, h2] at hnext; cases hnext
    | some b =>
      rw [h1, h2] at hnext
      exact ⟨Option.some.inj hnext, ht⟩

theorem hopDest_alike (hg : AlikeGraphs g1 g2) (hn : Copies g1 n1 n2) (i : Fin maxNodeNum) :
    Relates Eq (hopDest g1 n1 i) (hopDest g2 n2 i) := by
  unfold hopDest
  rw [← (hn i).state, ← (hn i).prevId]
  refine Relates.ite (fun _ => ?_) fun _ => rfl
  refine (getNextHop_alike hg hn _).bind fun p q hpq => ?_
  refine (getDstIp_alike hg hn _).bind fun ip _ hip => ?_
  subst hip
  obtain ⟨hhop, ht⟩ := hpq
  rw [← hhop, ← ht.metric, ← ht.nextHopState]
  exact Relates.of_eq rfl

/-- The next hops are the same for two graphs that cannot be told apart. -/
theorem pathfind_alike {b : Build} (hg : AlikeGraphs g1 g2) (srcId : ℤ) :
    Relates Eq (pathfind b g1 srcId) (pathfind b g2 srcId) := by
  refine (dijkstra_alike hg srcId).bind fun n1 n2 hn => ?_
  refine (fill_relates fun i => hopDest_alike hg hn i).mono fun t1 t2 ht => funext ht

end Backtrace

end Dtlsr
