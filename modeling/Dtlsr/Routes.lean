import Dtlsr.ShortestPaths

/-!
    The table of next hops that `pathfind` fills. The backtrace from a destination walks up the tree of
    `dijkstra`, so what it reports is the first hop of a shortest path, and `get_dst_ip` looks at the
    last link of the same path. -/

namespace Dtlsr
open Checked Walks

/-- `p` lists `d`, first at slot `i`. -/
structure ListsFirst {M : Type} (graph : Graph M) (p d : Fin maxNodeNum) (i : Fin maxNodeFan) :
    Prop where
  used : ((i : ℕ) : ℤ) < (graph p).nNeighbours
  id : (graph p).neighbourIds i = (d : ℕ) + 1
  first : ∀ j < i, (graph p).neighbourIds j ≠ (d : ℕ) + 1

/-! ### The metrics along a path -/

section Metrics
variable {M : Type} (graph : Graph M)

/-- The first slot at which `p` lists `d`. -/
def slotTo (p d : Fin maxNodeNum) : Option (Fin maxNodeFan) :=
  (List.finRange maxNodeFan).find? fun i =>
    ((i : ℕ) : ℤ) < (graph p).nNeighbours ∧ (graph p).neighbourIds i = (d : ℕ) + 1

theorem ListsFirst.slotTo_eq {graph : Graph M} {p d : Fin maxNodeNum} {i : Fin maxNodeFan}
    (h : ListsFirst graph p d i) : slotTo graph p d = some i :=
  find_finRange_eq_some.mpr ⟨by simp [h.used, h.id], fun j hj => by simp [h.first j hj]⟩

variable [Zero M]

/-- The metric of the link from `p` to `d`. -/
def metricTo (p d : Fin maxNodeNum) : M := (slotTo graph p d).elim 0 (graph p).linkMetrics

/-- The metrics of the links of a path, from its first node on. -/
def pathMetrics : List (Fin maxNodeNum) → List M
  | u :: v :: path => metricTo graph u v :: pathMetrics (v :: path)
  | _ => []

variable {graph}

theorem pathMetrics_snoc (u v : Fin maxNodeNum) : ∀ path : List (Fin maxNodeNum),
    pathMetrics graph (path ++ [u, v]) = pathMetrics graph (path ++ [u]) ++ [metricTo graph u v]
  | [] => rfl
  | [x] => rfl
  | x :: y :: path => by
    have ih := pathMetrics_snoc u v (y :: path)
    rw [List.cons_append, List.cons_append] at ih
    rw [List.cons_append, List.cons_append, pathMetrics, ih]
    rfl

theorem length_pathMetrics : ∀ path : List (Fin maxNodeNum),
    (pathMetrics graph path).length = path.length - 1
  | [] => rfl
  | [_] => rfl
  | u :: v :: path => by
    rw [pathMetrics, List.length_cons, length_pathMetrics (v :: path)]
    rfl

end Metrics

section Route
variable {M : Type} [Ring M] [LinearOrder M]

/-- `h` is the route from `src` along the shortest path `l` to `d`: it names the second node `x` of the
    path, and an address that the last but one node `p` lists for `d`. -/
structure Route (b : Build) (graph : Graph M) (src d : Fin maxNodeNum) (h : HopDest)
    (l : List (Fin maxNodeNum)) (c : M) (x p : Fin maxNodeNum) : Prop where
  shortest : Shortest (Link b graph) src l d c
  head : ∃ rest, l = src :: x :: rest
  last : ∃ pre, l = pre ++ [p, d]
  nextHop : h.nextHop = (x : ℕ) + 1
  destIp : ∃ i, ListsFirst graph p d i ∧ h.destIp = (graph p).neighbourIps i

/-- `d` has a path from `src` whose nodes before `d` are all seen. -/
def Reachable (b : Build) (graph : Graph M) (src d : Fin maxNodeNum) : Prop :=
  ∃ l c, Walk (Link b graph) src l d c

/-- `d` has such a path of less than the initial distance: the paths that `dijkstra` can find. -/
def InReach (b : Build) (graph : Graph M) (src d : Fin maxNodeNum) : Prop :=
  ∃ l c, Walk (Link b graph) src l d c ∧ c < infiniteDist

/-- The distances of `dijkstra` are those of the links. -/
structure Distances (b : Build) (graph : Graph M) (src : Fin maxNodeNum) (nodes : DijkstraNodes M) :
    Prop where
  least : ∀ d l c, Walk (Link b graph) src l d c → (nodes d).tentDist ≤ c
  attained : ∀ d, InReach b graph src d →
    ∃ l, Shortest (Link b graph) src l d (nodes d).tentDist
  unreached : ∀ d, ¬InReach b graph src d ↔
    (nodes d).tentDist = infiniteDist ∧ (nodes d).prevId = -1
  source : (nodes src).tentDist = 0 ∧ (nodes src).prevId = -1

/-- The table holds a route to each known node within reach, and no other. -/
structure NextHops (b : Build) (graph : Graph M) (src : Fin maxNodeNum) (nodes : DijkstraNodes M)
    (hops : HopTable) : Prop where
  route : ∀ d, (graph d).state ≠ .nodeUnseen → d ≠ src → InReach b graph src d →
    ∃ (l : List (Fin maxNodeNum)) (x p : Fin maxNodeNum), (nodes d).prevId = (p : ℕ) + 1 ∧
      Route b graph src d (hops d) l (nodes d).tentDist x p
  noRoute : ∀ d, (graph d).state = .nodeUnseen ∨ d = src ∨ ¬InReach b graph src d →
    hops d = { nextHop := -1, destIp := 0, metric := 0, nextHopState := .linkDown }

end Route

section Backtrace
variable {M : Type} [Ring M] [LinearOrder M] {b : Build} {graph : Graph M}
  {src : Fin maxNodeNum} {nodes : DijkstraNodes M} {done queue skip : Set (Fin maxNodeNum)}

/-- Looking `v` up among the neighbours of a node that has a link to it. -/
theorem slotOf_ensures (h : Tree b graph src nodes done queue skip) (hg : PathInput graph)
    {u v : Fin maxNodeNum} {w : M} (e : Link b graph u w v) :
    Ensures (slotOf (nodes u) ((v : ℕ) + 1)) fun r =>
      ∃ i : Fin maxNodeFan, r = some (i : ℕ) ∧ ListsFirst graph u v i := by
  obtain ⟨hs, j, hj, -⟩ := e
  obtain ⟨hn, hids, -, -⟩ := h.slots hs
  have hfan := (hg.bounds u hs).fan
  rw [slotOf, hn, hids]
  generalize hp : (fun i : ℕ => (do
    pure (decide (((v : ℕ) : ℤ) + 1 = (← read (graph u).neighbourIds i))) : Exec Bool)) = p
  have hprobe : ∀ i : Fin maxNodeFan,
      p i = .ok (decide (((v : ℕ) : ℤ) + 1 = (graph u).neighbourIds i)) := by
    intro i
    subst hp
    simp only [read_of_lt _ i.isLt, ok_bind, pure_eq_ok]
  obtain ⟨i, hi⟩ := firstIdx_hit (n := (graph u).nNeighbours) (p := p) (k := j) hj.used
    (fun m hm => ⟨_, hprobe ⟨m, hfan.lt hm⟩⟩) (by rw [hprobe, hj.id]; simp)
  obtain ⟨hlt, htrue, hfalse⟩ := firstIdx_some hi
  have hi6 := hfan.lt hlt
  refine ⟨some i, hi, ⟨i, hi6⟩, rfl, hlt, ?_, fun m hm => ?_⟩
  · have := (hprobe ⟨i, hi6⟩).symm.trans htrue
    simpa [eq_comm] using this
  · have := (hprobe m).symm.trans (hfalse m hm)
    simpa [eq_comm] using this

variable [FloorRing M]

/-- What the backtrace adds up along a path, back from its last link. -/
def tracedMetric (graph : Graph M) (path : List (Fin maxNodeNum)) (metric : ℤ) : ℤ :=
  (pathMetrics graph path).foldr (fun d s => sDSafeAdd s d) metric

/-- The backtrace from `v` follows its chain to the source and ends with the second node of it. -/
theorem backtrace_ensures (h : Tree b graph src nodes done queue skip) (hg : PathInput graph) :
    ∀ {l : List (Fin maxNodeNum)} {v : Fin maxNodeNum}, Chain (predOf nodes) src l v →
    ∀ {fuel : ℕ} {t : Trace M}, l.length ≤ fuel → t.this = nodes v →
    Ensures (backtrace graph nodes fuel t) fun out => out.this = nodes src ∧
      (out.next = (l.tail.head?.map nodes).or t.next) ∧
      (l.tail ≠ [] ∨ t.nextHopState.isSome → out.nextHopState.isSome) ∧
      out.metric = tracedMetric graph l t.metric := by
  intro l v hchain
  induction hchain with
  | root hroot =>
    intro fuel t hfuel ht
    obtain ⟨fuel, rfl⟩ := Nat.exists_eq_succ_of_ne_zero (n := fuel) (by simp at hfuel; omega)
    have hprev : (nodes src).prevId = -1 := by
      rcases h.prevId_eq src with ⟨hp, -⟩ | ⟨p, -, hp⟩
      · exact hp
      · rw [hroot] at hp; cases hp
    rw [backtrace, ht, if_pos hprev]
    exact Ensures.ok ⟨ht, rfl, fun hn => hn.resolve_left fun h => h rfl, rfl⟩
  | @snoc u v l hch hpred ih =>
    intro fuel t hfuel ht
    obtain ⟨fuel, rfl⟩ := Nat.exists_eq_succ_of_ne_zero (n := fuel) (by simp at hfuel; omega)
    have hprev : (nodes v).prevId = (u : ℕ) + 1 := by
      rcases h.prevId_eq v with ⟨-, hp⟩ | ⟨p, hid, hp⟩
      · rw [hpred] at hp; cases hp
      · rw [hpred, Option.some.injEq] at hp; rw [hid, hp]
    obtain ⟨⟨w, e, -⟩, -⟩ := h.labels.step v u hpred
    rw [backtrace, ht, if_neg (by rw [hprev]; omega)]
    simp only [hprev, h.id hg v]
    rw [read_of_eq nodes u (by omega), ok_bind]
    refine (slotOf_ensures h hg e).bind ?_
    rintro _ ⟨i, rfl, hi⟩
    simp only
    rw [read_of_lt _ i.isLt, ok_bind, h.id hg u, read_of_eq graph u (by omega), ok_bind,
      read_of_lt _ i.isLt, ok_bind]
    refine (ih (by simpa using hfuel) rfl).mono ?_
    rintro out ⟨hthis, hnext, hstate, hmetric⟩
    refine ⟨hthis, ?_, fun _ => hstate (Or.inr rfl), ?_⟩
    · rw [hnext]
      cases l with
      | nil => exact absurd hch.mem (by simp)
      | cons y rest => cases rest <;> rfl
    · obtain ⟨pre, rfl⟩ := hch.concat
      have hlink : metricTo graph u v = (graph u).linkMetrics i := by
        rw [metricTo, hi.slotTo_eq, Option.elim_some]
      rw [hmetric, tracedMetric, tracedMetric, List.append_assoc, List.singleton_append,
        pathMetrics_snoc, List.foldr_append, List.foldr_cons, List.foldr_nil, hlink]

/-- The entry `hop` is what the backtrace finds along the chain `l` from `src` over `p` to `d`. -/
structure TracedHop (graph : Graph M) (src d : Fin maxNodeNum) (hop : HopDest)
    (l : List (Fin maxNodeNum)) (x p : Fin maxNodeNum) : Prop where
  head : ∃ rest, l = src :: x :: rest
  last : ∃ pre, l = pre ++ [p, d]
  nextHop : hop.nextHop = (x : ℕ) + 1
  destIp : ∃ i, ListsFirst graph p d i ∧ hop.destIp = (graph p).neighbourIps i
  metric : hop.metric = tracedMetric graph l 1

omit [FloorRing M] in
/-- The chain of a node with a predecessor has the source at its one end, and the predecessor and the node
    at the other. -/
theorem Tree.chain_ends (h : Tree b graph src nodes done queue skip) {d p : Fin maxNodeNum}
    {l : List (Fin maxNodeNum)} (hch : Chain (predOf nodes) src l d) (hp : predOf nodes d = some p) :
    d ≠ src ∧ (∃ x rest, l = src :: x :: rest) ∧ ∃ pre, l = pre ++ [p, d] := by
  have hne : d ≠ src := by
    rintro rfl
    rw [h.labels.src_pred] at hp; cases hp
  refine ⟨hne, ?_, ?_⟩
  · obtain ⟨t, rfl⟩ := (h.labels.chain_walk hch).head
    cases t with
    | nil => exact absurd (List.mem_singleton.mp hch.mem) hne
    | cons x rest => exact ⟨x, rest, rfl⟩
  · cases hch with
    | root hroot => rw [hroot] at hp; cases hp
    | snoc hch' hp' =>
      rw [hp, Option.some.injEq] at hp'
      subst hp'
      obtain ⟨pre, rfl⟩ := hch'.concat
      exact ⟨pre, by simp⟩

omit [FloorRing M] in
theorem Tree.prevId_of_pred (h : Tree b graph src nodes done queue skip) {d p : Fin maxNodeNum}
    (hp : predOf nodes d = some p) : (nodes d).prevId = (p : ℕ) + 1 := by
  rcases h.prevId_eq d with ⟨-, hn⟩ | ⟨q, hid, hq⟩
  · rw [hp] at hn; cases hn
  · rw [hp, Option.some.injEq] at hq; rw [hid, hq]

omit [Ring M] [LinearOrder M] [FloorRing M] in
theorem length_le_of_nodup {l : List (Fin maxNodeNum)} (hnd : l.Nodup) : l.length ≤ maxNodeNum := by
  simpa using hnd.length_le_card

/-- `get_next_hop` of a node with a predecessor. -/
theorem getNextHop_ensures (h : Tree b graph src nodes done queue skip) (hg : PathInput graph)
    {d : Fin maxNodeNum} {l rest : List (Fin maxNodeNum)} {x : Fin maxNodeNum} (hd : d ≠ src)
    (hch : Chain (predOf nodes) src l d) (hnd : l.Nodup) (hl : l = src :: x :: rest) :
    Ensures (getNextHop graph nodes ((d : ℕ) + 1)) fun out => out.1 = (x : ℕ) + 1 ∧
      out.2.nextHopState.isSome ∧ out.2.metric = tracedMetric graph l 1 := by
  have hlen : l.length ≤ maxNodeNum + 1 := (length_le_of_nodup hnd).trans (Nat.le_succ _)
  rw [getNextHop, read_of_eq nodes d (by omega), ok_bind]
  refine (backtrace_ensures h hg hch hlen rfl).bind ?_
  rintro out ⟨hthis, hnext, hstate, hmetric⟩
  rw [hthis, h.id hg, if_neg (by intro heq; exact hd (Fin.ext (by omega))), hnext, hl]
  exact Ensures.ok ⟨h.id hg x, hstate (Or.inl (by rw [hl]; simp)), hl ▸ hmetric⟩

omit [FloorRing M] in
/-- `get_dst_ip` of a node with a predecessor. -/
theorem getDstIp_ensures (h : Tree b graph src nodes done queue skip) (hg : PathInput graph)
    {d p : Fin maxNodeNum} (hp : predOf nodes d = some p) :
    Ensures (getDstIp graph nodes ((d : ℕ) + 1)) fun ip =>
      ∃ i, ListsFirst graph p d i ∧ ip = (graph p).neighbourIps i := by
  obtain ⟨⟨w, e, -⟩, -⟩ := h.labels.step d p hp
  rw [getDstIp, read_of_eq nodes d (by omega), ok_bind, h.prevId_of_pred hp,
    read_of_eq nodes p (by omega), ok_bind, h.id hg d]
  refine (slotOf_ensures h hg e).bind ?_
  rintro _ ⟨i, rfl, hi⟩
  simp only
  rw [h.id hg p, read_of_eq graph p (by omega), ok_bind, read_of_lt _ i.isLt]
  exact Ensures.ok ⟨i, hi, rfl⟩

/-- One entry of the table, for a node with a predecessor. -/
theorem hopDest_ensures (h : Tree b graph src nodes done queue skip) (hg : PathInput graph)
    {d p : Fin maxNodeNum} {l : List (Fin maxNodeNum)} (hd : (graph d).state ≠ .nodeUnseen)
    (hch : Chain (predOf nodes) src l d) (hnd : l.Nodup) (hp : predOf nodes d = some p) :
    Ensures (hopDest graph nodes d) fun hop => ∃ x, TracedHop graph src d hop l x p := by
  obtain ⟨hne, ⟨x, rest, hl⟩, hlast⟩ := h.chain_ends hch hp
  rw [hopDest, if_pos ⟨by rw [h.state]; exact hd, by rw [h.prevId_of_pred hp]; omega⟩]
  refine (getNextHop_ensures h hg hne hch hnd hl).bind ?_
  rintro ⟨hop, t⟩ ⟨hhop, hst, hmetric⟩
  simp only
  refine (getDstIp_ensures h hg hp).bind fun ip hip => ?_
  obtain ⟨st, hst⟩ := Option.isSome_iff_exists.mp hst
  rw [hst]
  exact Ensures.ok ⟨x, ⟨rest, hl⟩, hlast, hhop, hip, hmetric⟩

variable [IsStrictOrderedRing M]

/-- `dijkstra` leaves a tree, and every entry of the table of `pathfind` is traced along its chain in it. -/
theorem pathfind_tree (b : Build) (hg : PathInput graph) (hsrc : (graph src).state = .nodeSeen) :
    ∃ nodes hops done, dijkstra b graph ((src : ℕ) + 1) = .ok nodes ∧
      pathfind b graph ((src : ℕ) + 1) = .ok hops ∧ Tree b graph src nodes done ∅ ∅ ∧
      (∀ u w v, Link b graph u w v → u ∈ done) ∧
      (∀ d p, (graph d).state ≠ .nodeUnseen → predOf nodes d = some p → ∀ l,
        Chain (predOf nodes) src l d → l.Nodup → ∃ x, TracedHop graph src d (hops d) l x p) ∧
      ∀ d, (graph d).state = .nodeUnseen ∨ predOf nodes d = none →
        hops d = { nextHop := -1, destIp := 0, metric := 0, nextHopState := .linkDown } := by
  obtain ⟨nodes, hrun, done, h, hall⟩ := dijkstra_tree b hg hsrc
  have hentry : ∀ d, ∃ hop, hopDest graph nodes d = .ok hop ∧
      (∀ p, (graph d).state ≠ .nodeUnseen → predOf nodes d = some p → ∀ l,
        Chain (predOf nodes) src l d → l.Nodup → ∃ x, TracedHop graph src d hop l x p) ∧
      ((graph d).state = .nodeUnseen ∨ predOf nodes d = none →
        hop = { nextHop := -1, destIp := 0, metric := 0, nextHopState := .linkDown }) := by
    intro d
    by_cases hd : (graph d).state ≠ .nodeUnseen ∧ ∃ p, predOf nodes d = some p
    · obtain ⟨hst, p, hp⟩ := hd
      obtain ⟨l, hch, hnd, -⟩ := h.labels.chain d (Or.inr (by rw [hp]; rfl))
      obtain ⟨hop, hok, hhop⟩ := hopDest_ensures h hg hst hch hnd hp
      refine ⟨hop, hok, fun p' _ hp' l' hch' _ => ?_, ?_⟩
      · obtain rfl := hch.unique hch'
        obtain rfl := Option.some.inj (hp.symm.trans hp')
        exact hhop
      · rintro (hun | hn)
        · exact absurd hun hst
        · rw [hp] at hn; cases hn
    · refine ⟨_, if_neg ?_, fun p hst hp => absurd ⟨hst, p, hp⟩ hd, fun _ => rfl⟩
      rintro ⟨hst, hprev⟩
      rw [h.state] at hst
      rcases h.prevId_eq d with ⟨hn, -⟩ | ⟨p, -, hp⟩
      · exact hprev hn
      · exact hd ⟨hst, p, hp⟩
  choose hops hok htraced hnone using hentry
  refine ⟨nodes, hops, done, hrun, ?_, h, hall, htraced, hnone⟩
  rw [pathfind, hrun, ok_bind, getNextHops, fill_ok_iff]
  exact hok

/-- The specification of `dijkstra` and `pathfind`. -/
theorem pathfind_ensures (b : Build) (hg : PathInput graph) (hsrc : (graph src).state = .nodeSeen) :
    ∃ nodes hops, dijkstra b graph ((src : ℕ) + 1) = .ok nodes ∧
      pathfind b graph ((src : ℕ) + 1) = .ok hops ∧ Distances b graph src nodes ∧
      NextHops b graph src nodes hops := by
  obtain ⟨nodes, hops, done, hrun, htable, h, hall, htraced, hnone⟩ := pathfind_tree b hg hsrc
  have hreach : ∀ d, tentDists nodes d < infiniteDist ↔ InReach b graph src d :=
    h.labels.lt_top_iff hall
  have hprev : ∀ d, d ≠ src → InReach b graph src d → ∃ p, predOf nodes d = some p := by
    intro d hd hr
    exact Option.isSome_iff_exists.mp ((h.labels.pred_isSome_iff hd).mpr ((hreach d).mpr hr))
  have hno : ∀ d, ¬InReach b graph src d → predOf nodes d = none := by
    intro d hr
    cases hp : predOf nodes d with
    | none => rfl
    | some p => exact absurd ((hreach d).mp (h.labels.step d p hp).2) hr
  have hminus : ∀ d, predOf nodes d = none → (nodes d).prevId = -1 := by
    intro d hp
    rcases h.prevId_eq d with ⟨hn, -⟩ | ⟨p, -, hp'⟩
    · exact hn
    · rw [hp] at hp'; cases hp'
  refine ⟨nodes, hops, hrun, htable,
    ⟨?_, ?_, ?_, h.labels.src_dist, hminus src h.labels.src_pred⟩, ?_, ?_⟩
  · intro d l c hw
    have := h.labels.dist_le hall hw
    rwa [h.labels.src_dist, zero_add] at this
  · intro d hr
    obtain ⟨l, _, hshort⟩ := h.labels.shortest hall ((hreach d).mpr hr)
    exact ⟨l, hshort⟩
  · intro d
    constructor
    · intro hr
      exact ⟨le_antisymm (h.labels.le_top d) (not_lt.mp fun hlt => hr ((hreach d).mp hlt)),
        hminus d (hno d hr)⟩
    · rintro ⟨hdist, -⟩ hr
      exact absurd hdist ((hreach d).mpr hr).ne
  · intro d hst hne hr
    obtain ⟨p, hp⟩ := hprev d hne hr
    obtain ⟨l, hch, hshort⟩ := h.labels.shortest hall ((hreach d).mpr hr)
    obtain ⟨x, hhop⟩ := htraced d p hst hp l hch hshort.nodup
    exact ⟨l, x, p, h.prevId_of_pred hp, hshort, hhop.head, hhop.last, hhop.nextHop, hhop.destIp⟩
  · rintro d (hun | rfl | hr)
    · exact hnone d (Or.inl hun)
    · exact hnone d (Or.inr h.labels.src_pred)
    · exact hnone d (Or.inr (hno d hr))

omit [FloorRing M] in
/-- Below the maximal metric every path counts. -/
theorem inReach_iff (hg : PathInput graph) (hmax : MaxMetric graph)
    (hsrc : (graph src).state = .nodeSeen) (d : Fin maxNodeNum) :
    InReach b graph src d ↔ Reachable b graph src d := by
  constructor
  · rintro ⟨l, c, hw, -⟩
    exact ⟨l, c, hw⟩
  · rintro ⟨l, c, hw⟩
    obtain ⟨nodes, -, done, h, hall⟩ := dijkstra_tree b hg hsrc
    -- along the walk, each node ends a walk without repetition that leaves room for one more link
    have hstep : ∀ {u v : Fin maxNodeNum} {l c}, Walk (Link b graph) u l v c →
        tentDists nodes u < infiniteDist → tentDists nodes v < infiniteDist := by
      intro u v l c hw
      induction hw with
      | nil => exact id
      | @cons u v d w c l e _ ih =>
        intro hu
        refine ih ?_
        obtain ⟨lu, -, hshort⟩ := h.labels.shortest hall hu
        calc tentDists nodes v ≤ tentDists nodes u + w :=
              h.labels.relaxed u (hall u w v e) (Set.notMem_empty u) w v e
          _ ≤ tentDists nodes u + 50000 := by gcongr; exact e.le_max hmax
          _ < infiniteDist := Link.walk_lt hmax hshort.walk hshort.nodup
    refine (h.labels.lt_top_iff hall d).mp (hstep hw ?_)
    rw [h.labels.src_dist, infiniteDist]
    norm_num

/-- Shortest paths: `dijkstra` returns the least total metric over the paths to each node, and keeps
    the initial label exactly where there is no path; the table of `pathfind` follows one shortest path
    to each known node that has one, and holds no other route. -/
theorem pathfind_shortest (b : Build) {graph : Graph M} {src : Fin maxNodeNum}
    (hg : PathInput graph) (hmax : MaxMetric graph) (hsrc : (graph src).state = .nodeSeen) :
    ∃ nodes hops, dijkstra b graph ((src : ℕ) + 1) = .ok nodes ∧
      pathfind b graph ((src : ℕ) + 1) = .ok hops ∧
      (∀ d, Reachable b graph src d →
        IsLeast {c | ∃ l, Walk (Link b graph) src l d c} (nodes d).tentDist) ∧
      (∀ d, ((nodes d).tentDist = 65565 * 65565 ∧ (nodes d).prevId = -1) ↔
        ¬Reachable b graph src d) ∧
      ((nodes src).tentDist = 0 ∧ (nodes src).prevId = -1) ∧
      (∀ d, (graph d).state ≠ .nodeUnseen → d ≠ src → Reachable b graph src d →
        ∃ l x p, Route b graph src d (hops d) l (nodes d).tentDist x p) ∧
      ∀ d, (graph d).state = .nodeUnseen ∨ d = src ∨ ¬Reachable b graph src d →
        (hops d).nextHop = -1 := by
  obtain ⟨nodes, hops, hrun, htable, hdist, hnext⟩ := pathfind_ensures b hg hsrc
  simp only [← inReach_iff hg hmax hsrc]
  refine ⟨nodes, hops, hrun, htable, fun d hr => ?_, fun d => (hdist.unreached d).symm,
    hdist.source, fun d h1 h2 h3 => ?_, fun d hd => ?_⟩
  · obtain ⟨l, hshort⟩ := hdist.attained d hr
    refine ⟨⟨l, hshort.walk⟩, ?_⟩
    rintro c ⟨l, hw⟩
    exact hdist.least d l c hw
  · obtain ⟨l, x, p, -, hroute⟩ := hnext.route d h1 h2 h3
    exact ⟨l, x, p, hroute⟩
  · rw [hnext.noRoute d hd]

end Backtrace

/-! ### The pentagon of the tests -/

/-- A seen node whose slots are given as neighbour id, subnet `10.0.subnet.0` and own host there; the
    links are up, of metric 1, and the hosts of a subnet are 1 and 2. -/
def seenNode (id : ℤ) (slots : List (ℤ × ℕ × ℕ)) : Node ℤ where
  id := id
  state := .nodeSeen
  nNeighbours := slots.length
  sourceIps := fun i => slots[i]?.elim 0 fun s => inetAddr 10 0 s.2.1 s.2.2
  neighbourIps := fun i => slots[i]?.elim 0 fun s => inetAddr 10 0 s.2.1 (3 - s.2.2)
  neighbourIds := fun i => slots[i]?.elim 0 fun s => s.1
  linkStatuses := fun _ => .linkUp
  linkMetrics := fun _ => 1
  timestamp := 0

/-- The graph of the given nodes, with the other entries unseen. -/
def graphOf (rows : List (ℕ × List (ℤ × ℕ × ℕ))) : Graph ℤ := fun k =>
  match rows.lookup ((k : ℕ) + 1) with
  | some slots => seenNode ((k : ℕ) + 1) slots
  | none => { seenNode ((k : ℕ) + 1) [] with state := .nodeUnseen }

/-- Nodes 1 to 5 in a ring. -/
def pentagon : Graph ℤ := graphOf
  [(1, [(5, 4, 2), (2, 0, 1)]), (2, [(1, 0, 2), (3, 1, 1)]), (3, [(2, 1, 2), (4, 2, 1)]),
    (4, [(3, 2, 2), (5, 3, 1)]), (5, [(4, 3, 2), (1, 4, 1)])]

theorem pentagon_input : PathInput pentagon := ⟨by decide, by decide, by decide⟩

theorem pentagon_max : MaxMetric pentagon := by unfold MaxMetric; decide

/-- Node 1 is two hops from node 3. -/
theorem pathfind_shortest_pentagon : ∃ nodes hops, dijkstra .lsr pentagon 1 = .ok nodes ∧
    pathfind .lsr pentagon 1 = .ok hops ∧ (nodes 0).tentDist = 0 ∧
    ∃ l x p, Route .lsr pentagon 0 2 (hops 2) l (nodes 2).tentDist x p := by
  obtain ⟨nodes, hops, hrun, htable, -, -, h0, hroute, -⟩ :=
    pathfind_shortest .lsr pentagon_input pentagon_max
      (show (pentagon 0).state = .nodeSeen by decide)
  refine ⟨nodes, hops, hrun, htable, h0.1, hroute 2 (by decide) (by decide) ?_⟩
  refine ⟨[0, 1, 2], _, .cons (w := 1) ⟨by decide, 1, ⟨by decide, by decide, by decide⟩, by decide⟩
    (.cons (w := 1) ⟨by decide, 1, ⟨by decide, by decide, by decide⟩, by decide⟩ (.nil 2))⟩

end Dtlsr
