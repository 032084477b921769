import Dtlsr.Routes
import Dtlsr.RouteControl

/-!
    Routers that share one graph and each forward along their own `pathfind`. Towards a fixed
    destination every hop is strictly closer, so packets do not loop; but routes are installed for the
    subnet of the last link of a path, and there two routers agree only if their trees do. -/

namespace Dtlsr
open Checked Walks

section Tables
variable {M : Type} [Ring M] [LinearOrder M] [IsStrictOrderedRing M] [FloorRing M] {b : Build}
  {graph : Graph M}

/-- What each seen router computes on the shared graph. -/
structure Runs (b : Build) (graph : Graph M) (nodes : Fin maxNodeNum → DijkstraNodes M)
    (tables : Fin maxNodeNum → HopTable) (r : Fin maxNodeNum) : Prop where
  tree : dijkstra b graph ((r : ℕ) + 1) = .ok (nodes r)
  table : pathfind b graph ((r : ℕ) + 1) = .ok (tables r)
  distances : Distances b graph r (nodes r)
  nextHops : NextHops b graph r (nodes r) (tables r)

theorem exists_runs (b : Build) (hg : PathInput graph) :
    ∃ nodes tables, ∀ r, (graph r).state = .nodeSeen → Runs b graph nodes tables r := by
  have hrun : ∀ r, ∃ ns hops, (graph r).state = .nodeSeen →
      dijkstra b graph ((r : ℕ) + 1) = .ok ns ∧ pathfind b graph ((r : ℕ) + 1) = .ok hops ∧
        Distances b graph r ns ∧ NextHops b graph r ns hops := by
    intro r
    by_cases hr : (graph r).state = .nodeSeen
    · obtain ⟨ns, hops, h⟩ := pathfind_ensures b hg hr
      exact ⟨ns, hops, fun _ => h⟩
    · exact ⟨dijkstraInit graph 0, fun _ => ⟨0, 0, 0, .linkDown⟩, fun h => absurd h hr⟩
  choose nodes tables h using hrun
  exact ⟨nodes, tables, fun r hr =>
    ⟨(h r hr).1, (h r hr).2.1, (h r hr).2.2.1, (h r hr).2.2.2⟩⟩

/-- One step of a route: to a router `v` from which the destination is reached as well, and is closer
    by the metric of the link. -/
structure Step (b : Build) (graph : Graph M) (u d v : Fin maxNodeNum) (c : M) : Prop where
  known : (graph d).state ≠ .nodeUnseen
  hop : ∃ w c', Link b graph u w v ∧ (∃ l, Walk (Link b graph) v l d c') ∧ c = w + c'
  seen : v = d ∨ (graph v).state = .nodeSeen
  near : v = d ∨ InReach b graph v d

variable {nodes : Fin maxNodeNum → DijkstraNodes M} {tables : Fin maxNodeNum → HopTable}
  {u v d : Fin maxNodeNum}

omit [FloorRing M] [IsStrictOrderedRing M] in
/-- Every entry that is not -1 is a route. -/
theorem NextHops.exists_route {ns : DijkstraNodes M} {hops : HopTable}
    (h : NextHops b graph u ns hops) (hroute : (hops d).nextHop ≠ -1) :
    ((graph d).state ≠ .nodeUnseen ∧ d ≠ u ∧ InReach b graph u d) ∧
      ∃ (l : List (Fin maxNodeNum)) (x p : Fin maxNodeNum), (ns d).prevId = (p : ℕ) + 1 ∧
        Route b graph u d (hops d) l (ns d).tentDist x p := by
  have hd : (graph d).state ≠ .nodeUnseen ∧ d ≠ u ∧ InReach b graph u d := by
    by_contra hn
    refine hroute ?_
    rw [h.noRoute d (by tauto)]
  exact ⟨hd, h.route d hd.1 hd.2.1 hd.2.2⟩

omit [FloorRing M] in
theorem NextHops.step {ns : DijkstraNodes M} {hops : HopTable} (hg : PathInput graph)
    (hdist : Distances b graph u ns) (h : NextHops b graph u ns hops)
    (hroute : (hops d).nextHop ≠ -1) :
    ∃ x : Fin maxNodeNum, (hops d).nextHop = (x : ℕ) + 1 ∧ Step b graph u d x (ns d).tentDist := by
  obtain ⟨⟨hknown, -, hreach⟩, l, x, p, -, hr⟩ := h.exists_route hroute
  obtain ⟨rest, rfl⟩ := hr.head
  obtain ⟨w, c', e, hw, hc⟩ := hr.shortest.walk.uncons
  refine ⟨x, hr.nextHop, hknown, ⟨w, c', e, ⟨_, hw⟩, hc⟩, ?_, ?_⟩
  · cases hw with
    | nil => exact Or.inl rfl
    | cons e' _ => exact Or.inr e'.seen
  · refine Or.inr ⟨_, c', hw, ?_⟩
    obtain ⟨l0, c0, hw0, hlt⟩ := hreach
    calc c' ≤ w + c' := le_add_of_nonneg_left (e.nonneg hg)
      _ = (ns d).tentDist := hc.symm
      _ ≤ c0 := hdist.least d l0 c0 hw0
      _ < infiniteDist := hlt

/-- Loop freedom: where every metric is positive, the routers that a packet for `d` passes on its way
    from `u` all have a route to `d`, none is passed twice, and the last is `d` itself. -/
theorem forwarding_loop_free (b : Build) {graph : Graph M} (hg : PathInput graph)
    (hmetric : ∀ r, (graph r).state = .nodeSeen → ∀ i : Fin maxNodeFan,
      ((i : ℕ) : ℤ) < (graph r).nNeighbours →
        0 < (graph r).linkMetrics i ∧ (graph r).linkMetrics i ≤ 50000) :
    ∃ tables : Fin maxNodeNum → HopTable,
      (∀ r, (graph r).state = .nodeSeen → pathfind b graph ((r : ℕ) + 1) = .ok (tables r)) ∧
      ∀ u d, (graph u).state = .nodeSeen → (tables u d).nextHop ≠ -1 →
        ∃ path : List (Fin maxNodeNum), path.head? = some u ∧ path.getLast? = some d ∧
          path.Nodup ∧ path.length - 1 ≤ maxNodeNum - 1 ∧
          path.IsChain fun r s => (graph r).state = .nodeSeen ∧
            (tables r d).nextHop = (s : ℕ) + 1 := by
  obtain ⟨nodes, tables, hruns⟩ := exists_runs b hg
  refine ⟨tables, fun r hr => (hruns r hr).table, fun u d hu hroute => ?_⟩
  -- the rank of a router is its own distance to `d`
  let rank : Fin maxNodeNum → M := fun r => if r = d then 0 else (nodes r d).tentDist
  let good : Fin maxNodeNum → Prop := fun r =>
    r = d ∨ (graph r).state = .nodeSeen ∧ (tables r d).nextHop ≠ -1
  have hdown : ∀ r, good r → r ≠ d → ∃ s : Fin maxNodeNum,
      ((graph r).state = .nodeSeen ∧ (tables r d).nextHop = (s : ℕ) + 1) ∧ rank s < rank r ∧
        good s := by
    intro r hr hrd
    obtain ⟨hseen, hr⟩ := hr.resolve_left hrd
    obtain ⟨s, hs, hstep⟩ := (hruns r hseen).nextHops.step hg (hruns r hseen).distances hr
    obtain ⟨w, c', e, ⟨l, hw⟩, hc⟩ := hstep.hop
    have hwpos : 0 < w := by
      obtain ⟨hseen, i, hi, rfl⟩ := e
      exact (hmetric r hseen i hi.used).1
    refine ⟨s, ⟨hseen, hs⟩, ?_, ?_⟩
    · simp only [rank, if_neg hrd, hc]
      by_cases hsd : s = d
      · have hc' : 0 ≤ c' := hw.nonneg fun _ _ _ e => e.nonneg hg
        rw [if_pos hsd]
        exact add_pos_of_pos_of_nonneg hwpos hc'
      · rw [if_neg hsd]
        have hs := hstep.seen.resolve_left hsd
        exact ((hruns s hs).distances.least d l c' hw).trans_lt (lt_add_of_pos_left c' hwpos)
    · by_cases hsd : s = d
      · exact Or.inl hsd
      · have hs := hstep.seen.resolve_left hsd
        obtain ⟨_, x, _, -, hroute⟩ := (hruns s hs).nextHops.route d hstep.known
          (Ne.symm hsd) (hstep.near.resolve_left hsd)
        exact Or.inr ⟨hs, by rw [hroute.nextHop]; omega⟩
  obtain ⟨path, hhead, hlast, hnd, hch, -⟩ := exists_descending rank hdown (Or.inr ⟨hu, hroute⟩)
  have hlen : path.length ≤ maxNodeNum := by simpa using hnd.length_le_card
  exact ⟨path, hhead, hlast, hnd, by omega, hch⟩

theorem pentagon_nextHop {hops : HopTable} (h : pathfind .lsr pentagon 1 = .ok hops) :
    (hops 2).nextHop = 2 := by
  have hrun : (pathfind .lsr pentagon 1).toOption.map (fun hops => (hops 2).nextHop) = some 2 := by
    decide +kernel
  rw [h] at hrun
  exact Option.some.inj hrun

/-- In the pentagon node 1 is two hops from node 3. -/
theorem forwarding_loop_free_pentagon : ∃ tables : Fin maxNodeNum → HopTable,
    pathfind .lsr pentagon 1 = .ok (tables 0) ∧ (tables 0 2).nextHop = 2 ∧
      ∃ path : List (Fin maxNodeNum), path.head? = some 0 ∧ path.getLast? = some 2 ∧ path.Nodup ∧
        path.IsChain fun r s => (tables r 2).nextHop = (s : ℕ) + 1 := by
  obtain ⟨tables, htable, h⟩ := forwarding_loop_free .lsr pentagon_input (by decide)
  have htable0 : pathfind .lsr pentagon 1 = .ok (tables 0) := htable 0 (by decide)
  have hroute := pentagon_nextHop htable0
  obtain ⟨path, hhead, hlast, hnd, -, hch⟩ := h 0 2 (by decide) (by rw [hroute]; decide)
  exact ⟨tables, htable0, hroute, path, hhead, hlast, hnd, hch.imp fun _ _ hrs => hrs.2⟩

/-! ### Subnets -/

/-- The address `x` is within reach of router `v` and its table: its subnet is the subnet of one of
    `v`'s own links, or the filtered table has a route to it. -/
def CanForward {M : Type} (graph : Graph M) (v : Fin maxNodeNum) (hops : HopTable) (x : Ip) : Prop :=
  (∃ j : Fin maxNodeFan, ((j : ℕ) : ℤ) < (graph v).nNeighbours ∧
    (graph v).neighbourIps j &&& netmask = x &&& netmask) ∨
  ∃ i, (filterNextHops hops i).nextHop ≠ -1 ∧ (filterNextHops hops i).destIp = x &&& netmask

instance {M : Type} (graph : Graph M) (v : Fin maxNodeNum) (hops : HopTable) (x : Ip) :
    Decidable (CanForward graph v hops x) :=
  decidable_of_iff ((∃ j : Fin maxNodeFan, ((j : ℕ) : ℤ) < (graph v).nNeighbours ∧
      (graph v).neighbourIps j &&& netmask = x &&& netmask) ∨
    ∃ i, (hops i).nextHop ≠ -1 ∧ (hops i).destIp &&& netmask = x &&& netmask)
    (by rw [CanForward, filterNextHops_subnet])

/-- Slot `i` of the seen record `u` is a link to `v`. -/
structure LinkEnd {M : Type} (graph : Graph M) (u : Fin maxNodeNum) (i : Fin maxNodeFan)
    (v : Fin maxNodeNum) : Prop where
  seen : (graph u).state = .nodeSeen
  used : ((i : ℕ) : ℤ) < (graph u).nNeighbours
  id : (graph u).neighbourIds i = (v : ℕ) + 1

/-- A network of seen nodes with all links up and of one positive metric, each link listed by both ends
    and with a /24 of its own that holds the addresses of its two ends. -/
structure SubnetPerLink {M : Type} [Ring M] [LinearOrder M] (graph : Graph M) : Prop where
  input : PathInput graph
  known : ∀ k, (graph k).state ≠ .nodeOpaque
  up : ∀ u i v, LinkEnd graph u i v → (graph u).linkStatuses i = .linkUp
  metric : ∃ m : M, 0 < m ∧ ∀ u i v, LinkEnd graph u i v → (graph u).linkMetrics i = m
  mirrored : ∀ u i v, LinkEnd graph u i v → ∃ j, LinkEnd graph v j u ∧
    (graph v).neighbourIps j = (graph u).sourceIps i ∧
    (graph v).sourceIps j = (graph u).neighbourIps i
  ends : ∀ u i v, LinkEnd graph u i v →
    (graph u).sourceIps i &&& netmask = (graph u).neighbourIps i &&& netmask ∧
      (graph u).sourceIps i ≠ (graph u).neighbourIps i
  own : ∀ u i v u' i' v', LinkEnd graph u i v → LinkEnd graph u' i' v' →
    (graph u).neighbourIps i &&& netmask = (graph u').neighbourIps i' &&& netmask →
      u = u' ∧ i = i' ∨ u' = v ∧ v' = u

omit [IsStrictOrderedRing M] [FloorRing M] in
theorem SubnetPerLink.pos (h : SubnetPerLink graph) {w : M} (e : Link b graph u w v) : 0 < w := by
  obtain ⟨m, hm, hall⟩ := h.metric
  obtain ⟨hseen, i, hi, rfl⟩ := e
  rw [hall u i v ⟨hseen, hi.used, hi.id⟩]
  exact hm

omit [LinearOrder M] [IsStrictOrderedRing M] [FloorRing M] [Ring M] in
theorem ListsFirst.unique {p : Fin maxNodeNum} {i j : Fin maxNodeFan} (hi : ListsFirst graph p d i)
    (hj : ListsFirst graph p d j) : i = j := by
  rcases lt_trichotomy i j with h | h | h
  · exact absurd hi.id (hj.first i h)
  · exact h
  · exact absurd hj.id (hi.first j h)

omit [IsStrictOrderedRing M] [FloorRing M] in
/-- Two routes to one destination with the same last link name the same address. -/
theorem Route.destIp_eq {p : Fin maxNodeNum} {h h' : HopDest} {l l' : List (Fin maxNodeNum)}
    {c c' : M} {x x' : Fin maxNodeNum} (hr : Route b graph u d h l c x p)
    (hr' : Route b graph v d h' l' c' x' p) : h.destIp = h'.destIp := by
  obtain ⟨i, hi, h1⟩ := hr.destIp
  obtain ⟨j, hj, h2⟩ := hr'.destIp
  rw [h1, h2, hi.unique hj]

omit [FloorRing M] in
/-- The rest of a route from its next hop on is a shortest path with the same last link. -/
theorem Route.rest {p : Fin maxNodeNum} {h : HopDest} {l : List (Fin maxNodeNum)} {c : M}
    (hr : Route b graph u d h l c v p) (hvd : v ≠ d) :
    ∃ pre c', Shortest (Link b graph) v (pre ++ [p, d]) d c' := by
  obtain ⟨rest, hl⟩ := hr.head
  obtain ⟨pre, hl'⟩ := hr.last
  have hshort := hr.shortest
  rw [hl] at hshort
  obtain ⟨w, c', -, hs, -⟩ := hshort.tail
  have heq := hl.symm.trans hl'
  cases pre with
  | nil =>
    simp only [List.nil_append, List.cons.injEq] at heq
    exact absurd heq.2.1 hvd
  | cons y pre =>
    simp only [List.cons_append, List.cons.injEq] at heq
    exact ⟨pre, c', heq.2 ▸ hs⟩

omit [FloorRing M] in
/-- Where a shortest path from `v` enters `d` from `p`, the tree of `v` does not enter `p` from `d`. -/
theorem Distances.not_both_ways {p : Fin maxNodeNum} {h : HopDest} {l pre : List (Fin maxNodeNum)}
    {c : M} {x : Fin maxNodeNum} {ns : DijkstraNodes M} (hg : SubnetPerLink graph)
    (hdist : Distances b graph v ns) (hs : Shortest (Link b graph) v (pre ++ [p, d]) d c)
    (hr : Route b graph v p h l (ns p).tentDist x d) : False := by
  obtain ⟨cp, w, hwp, e, rfl⟩ := hs.walk.unsnoc
  obtain ⟨pre', hl⟩ := hr.last
  have hwalk := hr.shortest.walk
  rw [hl] at hwalk
  obtain ⟨cd, w', hwd, e', hp⟩ := hwalk.unsnoc
  have h1 : (ns p).tentDist ≤ cp := hdist.least p _ _ hwp
  have h2 : cp + w ≤ cd := hs.least _ _ hwd
  refine absurd ?_ (lt_irrefl cd)
  calc cd < cd + w' := lt_add_of_pos_right cd (hg.pos e')
    _ = (ns p).tentDist := hp.symm
    _ ≤ cp := h1
    _ < cp + w := lt_add_of_pos_right cp (hg.pos e)
    _ ≤ cd := h2

/-- Hop by hop at subnet level: the next hop `v` of `u` towards `d` can forward the address that `u`'s
    route is installed for exactly when `v` itself ends the path that `u` found, or its own tree enters
    `d` over the same link. So it can when all shortest paths from `v` enter `d` from one node. -/
theorem canForward_iff (b : Build) {graph : Graph M} (hg : SubnetPerLink graph) :
    ∃ (nodes : Fin maxNodeNum → DijkstraNodes M) (tables : Fin maxNodeNum → HopTable),
      (∀ r, (graph r).state = .nodeSeen → dijkstra b graph ((r : ℕ) + 1) = .ok (nodes r) ∧
        pathfind b graph ((r : ℕ) + 1) = .ok (tables r)) ∧
      ∀ u v d : Fin maxNodeNum, (graph u).state = .nodeSeen →
        (tables u d).nextHop = (v : ℕ) + 1 → v ≠ d →
        (CanForward graph v (tables v) (tables u d).destIp ↔
          (nodes u d).prevId = (v : ℕ) + 1 ∨ (nodes v d).prevId = (nodes u d).prevId) ∧
        ((∀ pre p c pre' p' c', Shortest (Link b graph) v (pre ++ [p, d]) d c →
          Shortest (Link b graph) v (pre' ++ [p', d]) d c' → p = p') →
            CanForward graph v (tables v) (tables u d).destIp) := by
  obtain ⟨nodes, tables, hruns⟩ := exists_runs b hg.input
  refine ⟨nodes, tables, fun r hr => ⟨(hruns r hr).tree, (hruns r hr).table⟩, ?_⟩
  intro u v d hu hv hvd
  have hne : (tables u d).nextHop ≠ -1 := by rw [hv]; omega
  obtain ⟨-, l, x, p, hp, hroute⟩ := (hruns u hu).nextHops.exists_route hne
  obtain rfl : x = v := Fin.ext (by have := hroute.nextHop; omega)
  obtain ⟨x', hx', hstep⟩ := (hruns u hu).nextHops.step hg.input (hruns u hu).distances hne
  obtain rfl : x' = x := Fin.ext (by omega)
  have hseen := hstep.seen.resolve_left hvd
  obtain ⟨i, hi, hip⟩ := hroute.destIp
  obtain ⟨pre, c', hrest⟩ := hroute.rest hvd
  -- the tree of `v` reaches `d` too, over its own last link
  obtain ⟨l', y, q, hq, hroute'⟩ := (hruns x' hseen).nextHops.route d hstep.known (Ne.symm hvd)
    (hstep.near.resolve_left hvd)
  have hpseen : (graph p).state = .nodeSeen := by
    obtain ⟨_, _, _, e, -⟩ := hrest.walk.unsnoc
    exact e.seen
  have hend : LinkEnd graph p i d := ⟨hpseen, hi.used, hi.id⟩
  have hiff : CanForward graph x' (tables x') (tables u d).destIp ↔
      (nodes u d).prevId = (x' : ℕ) + 1 ∨ (nodes x' d).prevId = (nodes u d).prevId := by
    constructor
    · rintro (⟨j, hj, hnet⟩ | hentry)
      · -- the subnet is that of an own link
        rw [hip] at hnet
        obtain ⟨h1, h2⟩ := (hg.input.bounds x' hseen).ids j hj
        obtain ⟨k, hk⟩ : ∃ k : Fin maxNodeNum, (graph x').neighbourIds j = (k : ℕ) + 1 :=
          ⟨⟨((graph x').neighbourIds j - 1).toNat, by omega⟩, by simp only; omega⟩
        rcases hg.own p i d x' j k hend ⟨hseen, hj, hk⟩ hnet.symm with ⟨rfl, -⟩ | ⟨hxd, -⟩
        · exact Or.inl hp
        · exact absurd hxd hvd
      · obtain ⟨k, hk, hnet⟩ := filterNextHops_subnet.mp hentry
        obtain ⟨-, l'', z, q', hq', hr⟩ := (hruns x' hseen).nextHops.exists_route hk
        obtain ⟨j, hj, hjip⟩ := hr.destIp
        have hqseen : (graph q').state = .nodeSeen := by
          obtain ⟨pre'', hl⟩ := hr.last
          have := hr.shortest.walk
          rw [hl] at this
          obtain ⟨_, _, _, e, -⟩ := this.unsnoc
          exact e.seen
        rw [hip, hjip] at hnet
        rcases hg.own p i d q' j k hend ⟨hqseen, hj.used, hj.id⟩ hnet.symm with
          ⟨rfl, rfl⟩ | ⟨rfl, rfl⟩
        · obtain rfl : k = d := by
            have := hi.id
            have := hj.id
            exact Fin.ext (by omega)
          exact Or.inr (hq'.trans hp.symm)
        · exact ((hruns x' hseen).distances.not_both_ways hg hrest hr).elim
    · rintro (hown | hsame)
      · obtain rfl : p = x' := Fin.ext (by omega)
        exact Or.inl ⟨i, hi.used, by rw [hip]⟩
      · obtain rfl : q = p := Fin.ext (by omega)
        refine Or.inr (filterNextHops_subnet.mpr ⟨d, ?_, ?_⟩)
        · rw [hroute'.nextHop]; omega
        · rw [hroute'.destIp_eq hroute]
  refine ⟨hiff, fun hone => hiff.mpr (Or.inr ?_)⟩
  obtain ⟨pre', hl'⟩ := hroute'.last
  rw [hq, hp, hone pre p c' pre' q _ hrest (hl' ▸ hroute'.shortest)]

end Tables

/-- The conditions on the links, checked slot by slot. -/
theorem SubnetPerLink.of_slots {M : Type} [Ring M] [LinearOrder M] {graph : Graph M} {m : M}
    (hm : 0 < m) (hg : PathInput graph) (hknown : ∀ k, (graph k).state ≠ .nodeOpaque)
    (hslot : ∀ u, (graph u).state = .nodeSeen → ∀ i : Fin maxNodeFan,
      ((i : ℕ) : ℤ) < (graph u).nNeighbours →
        ((graph u).linkStatuses i = .linkUp ∧ (graph u).linkMetrics i = m ∧
          (graph u).sourceIps i &&& netmask = (graph u).neighbourIps i &&& netmask ∧
          (graph u).sourceIps i ≠ (graph u).neighbourIps i) ∧
        (∃ v : Fin maxNodeNum, (graph u).neighbourIds i = (v : ℕ) + 1 ∧ (graph v).state = .nodeSeen ∧
          ∃ j : Fin maxNodeFan, ((j : ℕ) : ℤ) < (graph v).nNeighbours ∧
            (graph v).neighbourIds j = (u : ℕ) + 1 ∧
            (graph v).neighbourIps j = (graph u).sourceIps i ∧
            (graph v).sourceIps j = (graph u).neighbourIps i) ∧
        ∀ u', (graph u').state = .nodeSeen → ∀ i' : Fin maxNodeFan,
          ((i' : ℕ) : ℤ) < (graph u').nNeighbours →
          (graph u).neighbourIps i &&& netmask = (graph u').neighbourIps i' &&& netmask →
            u = u' ∧ i = i' ∨ (graph u).neighbourIds i = (u' : ℕ) + 1 ∧
              (graph u').neighbourIds i' = (u : ℕ) + 1) : SubnetPerLink graph where
  input := hg
  known := hknown
  up u i v h := (hslot u h.seen i h.used).1.1
  metric := ⟨m, hm, fun u i v h => (hslot u h.seen i h.used).1.2.1⟩
  mirrored u i v h := by
    obtain ⟨-, ⟨v', hv', hseen, j, hj, hid, h1, h2⟩, -⟩ := hslot u h.seen i h.used
    obtain rfl : v' = v := by
      have := h.id
      exact Fin.ext (by omega)
    exact ⟨j, ⟨hseen, hj, hid⟩, h1, h2⟩
  ends u i v h := (hslot u h.seen i h.used).1.2.2
  own u i v u' i' v' h h' hnet := by
    refine ((hslot u h.seen i h.used).2.2 u' h'.seen i' h'.used hnet).imp_right fun hid => ?_
    have h1 := h.id
    have h2 := h'.id
    exact ⟨Fin.ext (by omega), Fin.ext (by omega)⟩

theorem pentagon_subnets : SubnetPerLink pentagon :=
  .of_slots (m := 1) (by decide) pentagon_input (by decide) (by decide +kernel)

/-- Node 4 hangs off node 3 of the square 1, 3, 9, 10: two shortest paths lead from 3 to 10. -/
def square : Graph ℤ := graphOf
  [(1, [(3, 4, 2), (10, 0, 2)]), (3, [(4, 2, 1), (9, 3, 1), (1, 4, 1)]), (4, [(3, 2, 2)]),
    (9, [(10, 1, 2), (3, 3, 2)]), (10, [(1, 0, 1), (9, 1, 1)])]

theorem square_subnets : SubnetPerLink square :=
  .of_slots (m := 1) (by decide) ⟨by decide, by decide, by decide⟩ (by decide) (by decide +kernel)

/-- Node 1 of the pentagon reaches node 3 by node 2, which ends the path itself. -/
theorem canForward_pentagon : ∃ hops1 hops2, pathfind .lsr pentagon 1 = .ok hops1 ∧
    pathfind .lsr pentagon 2 = .ok hops2 ∧ (hops1 2).nextHop = 2 ∧
      CanForward pentagon 1 hops2 (hops1 2).destIp := by
  obtain ⟨nodes, tables, hruns, h⟩ := canForward_iff .lsr pentagon_subnets
  have htable : pathfind .lsr pentagon 1 = .ok (tables 0) := (hruns 0 (by decide)).2
  have hop := pentagon_nextHop htable
  refine ⟨tables 0, tables 1, htable, (hruns 1 (by decide)).2, hop, ?_⟩
  refine (h 0 1 2 (by decide) hop (by decide)).1.mpr (Or.inl ?_)
  have hrun : (dijkstra .lsr pentagon 1).toOption.map (fun ns => (ns 2).prevId) = some 2 := by
    decide +kernel
  have hok := (hruns 0 (by decide)).1
  rw [show ((0 : Fin maxNodeNum) : ℕ) = 0 from rfl, Nat.cast_zero, zero_add] at hok
  rw [hok] at hrun
  exact Option.some.inj hrun

/-- Node 4 of the square routes to 10 by 3 and 9, over the subnet of 9 and 10; node 3 itself goes by 1,
    and has no route to that subnet. -/
theorem square_disagrees : ¬∀ (b : Build) (graph : Graph ℤ), SubnetPerLink graph →
    ∀ (u v d : Fin maxNodeNum) (hopsU hopsV : HopTable), (graph u).state = .nodeSeen →
      pathfind b graph ((u : ℕ) + 1) = .ok hopsU → pathfind b graph ((v : ℕ) + 1) = .ok hopsV →
      (hopsU d).nextHop = (v : ℕ) + 1 → v ≠ d →
        CanForward graph v hopsV (hopsU d).destIp := by
  intro h
  have h4 : (pathfind .lsr square 4).toOption.map (fun t => ((t 9).nextHop, (t 9).destIp)) =
      some (3, inetAddr 10 0 1 1) := by decide +kernel
  have h3 : (pathfind .lsr square 3).toOption.map
      (fun t => decide (CanForward square 2 t (inetAddr 10 0 1 1))) = some false := by
    decide +kernel
  obtain ⟨t4, hrun4, hhop⟩ := Option.map_eq_some_iff.mp h4
  obtain ⟨t3, hrun3, hno⟩ := Option.map_eq_some_iff.mp h3
  obtain ⟨hnext, hip⟩ := Prod.mk.inj hhop
  have hcan := h .lsr square square_subnets 3 2 9 t4 t3 (by decide) (ok_of_toOption hrun4)
    (ok_of_toOption hrun3) hnext (by decide)
  rw [hip] at hcan
  exact of_decide_eq_false hno hcan

end Dtlsr
