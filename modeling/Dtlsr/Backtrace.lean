import Mathlib.Algebra.Order.BigOperators.Group.List
import Dtlsr.Routes

/-!
    What the backtrace of `get_next_hop` does with the tree of `dijkstra`. Its loop has no bound of its
    own: it ends because the predecessors lead to the source and repeat no node. On the way it adds up
    the metrics of the links in a `short`. Above the largest `short` the sum does not stay there: it
    starts again from -1, because `UINT16_MAX` is -1 in a `short`. -/

namespace Dtlsr
open Checked Walks

section Ends
variable {M : Type} [Ring M] [LinearOrder M] [FloorRing M] {b : Build} {graph : Graph M}
  {src : Fin maxNodeNum} {nodes : DijkstraNodes M} {done queue skip : Set (Fin maxNodeNum)}

/-- The backtrace from `d` visits `path`, from its end to its head. -/
structure BacktraceEnds (graph : Graph M) (src : Fin maxNodeNum) (nodes : DijkstraNodes M)
    (d : Fin maxNodeNum) (path : List (Fin maxNodeNum)) : Prop where
  source : path.head? = some src
  start : path.getLast? = some d
  /-- a step for each link of the path -/
  steps : path.length - 1 ≤ maxNodeNum - 1
  links : path.IsChain fun u v => (nodes v).prevId = (u : ℕ) + 1 ∧ (graph u).state = .nodeSeen ∧
    ∃ i : Fin maxNodeFan, slotOf (nodes u) (nodes v).id = .ok (some (i : ℕ)) ∧
      ListsFirst graph u v i
  /-- with fuel for these steps and the last test the loop ends, at the source -/
  ends : ∀ t : Trace M, t.this = nodes d →
    ∃ out, backtrace graph nodes path.length t = .ok out ∧ out.this = nodes src
  nextHop : ∃ (x : Fin maxNodeNum) (t : Trace M),
    getNextHop graph nodes ((d : ℕ) + 1) = .ok ((x : ℕ) + 1, t) ∧ (graph src).Lists x
  dstIp : ∃ ip, getDstIp graph nodes ((d : ℕ) + 1) = .ok ip

omit [FloorRing M] in
/-- The nodes before the last of a chain are seen, and list the next one. -/
theorem Tree.links (h : Tree b graph src nodes done queue skip) (hg : PathInput graph)
    {l : List (Fin maxNodeNum)} {d : Fin maxNodeNum} (hch : Chain (predOf nodes) src l d) :
    l.IsChain fun u v => (nodes v).prevId = (u : ℕ) + 1 ∧ (graph u).state = .nodeSeen ∧
      ∃ i : Fin maxNodeFan, slotOf (nodes u) (nodes v).id = .ok (some (i : ℕ)) ∧
      ListsFirst graph u v i := by
  refine hch.isChain.imp fun u v hp => ?_
  obtain ⟨⟨w, e, -⟩, -⟩ := h.labels.step v u hp
  obtain ⟨r, hr, i, rfl, hi⟩ := slotOf_ensures h hg e
  exact ⟨h.prevId_of_pred hp, e.seen, i, by rw [h.id hg v]; exact hr, hi⟩

/-- The loop of `get_next_hop` ends: from every node that has a predecessor it reaches the source, over
    seen nodes that each list the one before, and returns one of the source's neighbours. -/
theorem backtrace_ends [IsStrictOrderedRing M] (b : Build) (hg : PathInput graph)
    (hsrc : (graph src).state = .nodeSeen) :
    ∃ nodes, dijkstra b graph ((src : ℕ) + 1) = .ok nodes ∧
      ∀ d, (nodes d).prevId ≠ -1 → ∃ path, BacktraceEnds graph src nodes d path := by
  obtain ⟨nodes, hrun, done, h, -⟩ := dijkstra_tree b hg hsrc
  refine ⟨nodes, hrun, fun d hd => ?_⟩
  obtain ⟨p, hp⟩ : ∃ p, predOf nodes d = some p := by
    rcases h.prevId_eq d with ⟨hn, -⟩ | ⟨p, -, hp⟩
    · exact absurd hn hd
    · exact ⟨p, hp⟩
  obtain ⟨l, hch, hnd, -⟩ := h.labels.chain d (Or.inr (by rw [hp]; rfl))
  obtain ⟨hne, ⟨x, rest, hl⟩, -⟩ := h.chain_ends hch hp
  have hlinks := h.links hg hch
  refine ⟨l, hch.head, ?_, Nat.sub_le_sub_right (length_le_of_nodup hnd) 1, hlinks, ?_, ?_, ?_⟩
  · obtain ⟨pre, rfl⟩ := hch.concat
    exact List.getLast?_concat
  · intro t ht
    obtain ⟨out, hout, hthis, -⟩ := backtrace_ensures h hg hch le_rfl ht
    exact ⟨out, hout, hthis⟩
  · obtain ⟨⟨hop, t⟩, hnext, hhop, -⟩ := getNextHop_ensures h hg hne hch hnd hl
    rw [hl, List.isChain_cons_cons] at hlinks
    obtain ⟨⟨-, -, i, -, hi⟩, -⟩ := hlinks
    exact ⟨x, t, by rw [hnext, ← hhop], i, hi.used, hi.id⟩
  · obtain ⟨ip, hip, -⟩ := getDstIp_ensures h hg hp
    exact ⟨ip, hip⟩

/-- Node 3 of the pentagon is behind node 2. -/
theorem backtrace_ends_pentagon : ∃ nodes path, dijkstra .dtlsr pentagon 1 = .ok nodes ∧
    BacktraceEnds pentagon 0 nodes 2 path := by
  obtain ⟨nodes, hrun, hends⟩ := backtrace_ends .dtlsr pentagon_input
    (show (pentagon 0).state = .nodeSeen by decide)
  have hprev : (nodes 2).prevId = 2 := by
    have hrun' : (dijkstra .dtlsr pentagon 1).toOption.map (fun ns => (ns 2).prevId) = some 2 := by
      decide +kernel
    rw [show dijkstra .dtlsr pentagon 1 = .ok nodes from hrun] at hrun'
    exact Option.some.inj hrun'
  obtain ⟨path, hpath⟩ := hends 2 (by rw [hprev]; decide)
  exact ⟨nodes, path, hrun, hpath⟩

end Ends

/-! ### The metric of a route -/

def int16Max : ℤ := 32767

/-- The metrics are in the range of `ts_compute_metric`. -/
def TsMetrics {M : Type} [Ring M] [LinearOrder M] (graph : Graph M) : Prop :=
  ∀ k, (graph k).state = .nodeSeen → ∀ i : Fin maxNodeFan,
    ((i : ℕ) : ℤ) < (graph k).nNeighbours → (graph k).linkMetrics i ≤ (10000 : ℕ)

section Saturation
variable {M : Type} [Ring M] [LinearOrder M] [FloorRing M]

/-- The sum of the truncated metrics along a path. -/
def pathCost (graph : Graph M) (path : List (Fin maxNodeNum)) : ℤ :=
  ((pathMetrics graph path).map Int.floor).sum

/-- The predecessors lead from `d` back along `path`, to its head. -/
structure FollowedPath (nodes : DijkstraNodes M) (src d : Fin maxNodeNum)
    (path : List (Fin maxNodeNum)) : Prop where
  source : path.head? = some src
  start : path.getLast? = some d
  links : path.IsChain fun u v => (nodes v).prevId = (u : ℕ) + 1

/-- The metric of the route to `d` is the sum along `path`, bounded by the largest `short`. -/
structure MetricSaturates (graph : Graph M) (hops : HopTable) (d : Fin maxNodeNum)
    (path : List (Fin maxNodeNum)) : Prop where
  metric : (hops d).metric = min int16Max (1 + pathCost graph path)
  nonneg : 0 ≤ (hops d).metric
  /-- not smaller than at the nodes before -/
  mono : ∀ u ∈ path, (hops u).metric ≤ (hops d).metric

section Unique
variable {nodes : DijkstraNodes M} {src d : Fin maxNodeNum} {l l' : List (Fin maxNodeNum)}

omit [Ring M] [LinearOrder M] [FloorRing M] in
theorem FollowedPath.chain (hroot : predOf nodes src = none) (h : FollowedPath nodes src d l) :
    Chain (predOf nodes) src l d := by
  induction l using List.reverseRecOn generalizing d with
  | nil => cases h.start
  | append_singleton l v ih =>
    obtain rfl : v = d := by simpa using h.start
    rcases List.eq_nil_or_concat l with rfl | ⟨l, u, rfl⟩
    · obtain rfl : v = src := by simpa using h.source
      exact .root hroot
    · rw [List.concat_eq_append] at h ih ⊢
      have hlinks := h.links
      rw [List.append_assoc, List.singleton_append, List.isChain_append_cons_cons] at hlinks
      have hsource : (l ++ [u]).head? = some src := by
        rw [← h.source]
        exact (List.head?_append_of_ne_nil _ (by simp)).symm
      exact .snoc (ih ⟨hsource, List.getLast?_concat .., hlinks.1⟩) (idIndex_eq_some.mpr hlinks.2.1)

omit [Ring M] [LinearOrder M] [FloorRing M] in
/-- The predecessors lead back along one path only. -/
theorem FollowedPath.unique (hroot : predOf nodes src = none) (h : FollowedPath nodes src d l)
    (h' : FollowedPath nodes src d l') : l = l' := (h.chain hroot).unique (h'.chain hroot)

end Unique

theorem toShort_of_le {x : ℤ} (hx : -32768 ≤ x) (hx' : x ≤ int16Max) : toShort x = x :=
  Int.bmod_eq_of_le (by omega) (by unfold int16Max at hx'; omega)

theorem toShort_of_gt {x : ℤ} (hx : int16Max < x) (hx' : x < 65536) : toShort x = x - 65536 := by
  unfold int16Max at hx
  rw [toShort, Int.bmod_def]
  split <;> omega

variable [IsStrictOrderedRing M]

/-- One addition: a sum above the largest `short` becomes -1. -/
theorem sDSafeAdd_eq {s : ℤ} {d : M} (hs : -1 ≤ s) (hs' : s ≤ int16Max) (hd : 0 ≤ d)
    (hd' : d ≤ 10000) : sDSafeAdd s d = if s + ⌊d⌋ ≤ int16Max then s + ⌊d⌋ else -1 := by
  have hfloor : 0 ≤ ⌊d⌋ := Int.floor_nonneg.mpr hd
  have hfloor' : ⌊d⌋ ≤ 10000 :=
    Int.floor_le_iff.mpr (by push_cast; exact hd'.trans_lt (lt_add_one _))
  have hlt : ¬(d ≥ 65535 ∨ s ≥ 65535) := by
    rintro (h | h)
    · exact absurd (h.trans hd') (by norm_num)
    · unfold int16Max at hs'; omega
  unfold int16Max at hs'
  have hds : toShort ⌊d⌋ = ⌊d⌋ := toShort_of_le (by omega) (by unfold int16Max; omega)
  rw [sDSafeAdd, if_neg hlt, truncate_of_nonneg hd]
  simp only [hds, add_comm ⌊d⌋]
  by_cases hle : s + ⌊d⌋ ≤ int16Max
  · rw [if_pos hle, toShort_of_le (by omega) hle, if_neg (by omega)]
  · rw [if_neg hle, toShort_of_gt (not_le.mp hle) (by omega), if_pos (by omega)]
    rfl

/-- The additions from the last metric to the first: exact up to the largest `short`; above it, and below
    twice its size, what is left stays below it. -/
theorem foldr_sDSafeAdd {s : ℤ} (hs : 0 ≤ s) : ∀ ms : List M, (∀ m ∈ ms, 0 ≤ m ∧ m ≤ 10000) →
    (s + (ms.map Int.floor).sum ≤ int16Max →
      ms.foldr (fun d s => sDSafeAdd s d) s = s + (ms.map Int.floor).sum) ∧
    (int16Max < s + (ms.map Int.floor).sum → s ≤ int16Max → s + (ms.map Int.floor).sum < 65536 →
      -1 ≤ ms.foldr (fun d s => sDSafeAdd s d) s ∧
        ms.foldr (fun d s => sDSafeAdd s d) s ≤ s + (ms.map Int.floor).sum - 32769) := by
  intro ms
  induction ms with
  | nil =>
    intro _
    simp only [List.map_nil, List.sum_nil, List.foldr_nil]
    exact ⟨fun _ => by omega, fun h h' => by omega⟩
  | cons d ms ih =>
    intro hm
    obtain ⟨hfit, hover⟩ := ih fun m h => hm m (List.mem_cons_of_mem _ h)
    obtain ⟨hd, hd'⟩ := hm d List.mem_cons_self
    have hsum : 0 ≤ (ms.map Int.floor).sum := by
      refine List.sum_nonneg fun z hz => ?_
      obtain ⟨m, h, rfl⟩ := List.mem_map.mp hz
      exact Int.floor_nonneg.mpr (hm m (List.mem_cons_of_mem _ h)).1
    have hfloor : 0 ≤ ⌊d⌋ := Int.floor_nonneg.mpr hd
    simp only [List.map_cons, List.sum_cons, List.foldr_cons]
    generalize hr : ms.foldr (fun d s => sDSafeAdd s d) s = r at hfit hover ⊢
    generalize (ms.map Int.floor).sum = total at *
    by_cases hle : s + total ≤ int16Max
    · obtain rfl := hfit hle
      rw [sDSafeAdd_eq (by omega) hle hd hd']
      split <;> constructor <;> unfold int16Max at * <;> omega
    · constructor
      · intro h; omega
      · intro _ hs' hlt
        obtain ⟨hlow, hhigh⟩ := hover (by omega) hs' (by omega)
        rw [sDSafeAdd_eq hlow (by unfold int16Max at *; omega) hd hd',
          if_pos (by unfold int16Max at *; omega)]
        omega

section Paths
variable {b : Build} {graph : Graph M} {src : Fin maxNodeNum} {nodes : DijkstraNodes M}
  {done queue skip : Set (Fin maxNodeNum)}

omit [FloorRing M] [IsStrictOrderedRing M] in
/-- The link from a predecessor leaves a seen node, and its metric is in range. -/
theorem Tree.metricTo_range (h : Tree b graph src nodes done queue skip) (hg : PathInput graph)
    (hts : TsMetrics graph) {u v : Fin maxNodeNum} (hp : predOf nodes v = some u) :
    (graph u).state = .nodeSeen ∧ 0 ≤ metricTo graph u v ∧ metricTo graph u v ≤ 10000 := by
  obtain ⟨⟨w, e, -⟩, -⟩ := h.labels.step v u hp
  obtain ⟨-, -, i, rfl, hi⟩ := slotOf_ensures h hg e
  rw [metricTo, hi.slotTo_eq]
  exact ⟨e.seen, hg.nonneg u e.seen i hi.used, by simpa using hts u e.seen i hi.used⟩

omit [FloorRing M] [IsStrictOrderedRing M] in
theorem Tree.pathMetrics_range (h : Tree b graph src nodes done queue skip) (hg : PathInput graph)
    (hts : TsMetrics graph) {l : List (Fin maxNodeNum)} {d : Fin maxNodeNum}
    (hch : Chain (predOf nodes) src l d) : ∀ m ∈ pathMetrics graph l, 0 ≤ m ∧ m ≤ 10000 := by
  induction hch with
  | root _ => simp [pathMetrics]
  | @snoc u v l hch hp ih =>
    obtain ⟨pre, rfl⟩ := hch.concat
    intro m hm
    rw [List.append_assoc, List.singleton_append, pathMetrics_snoc, List.mem_append,
      List.mem_singleton] at hm
    rcases hm with hm | rfl
    · exact ih m hm
    · exact (h.metricTo_range hg hts hp).2

omit [IsStrictOrderedRing M] in
theorem pathCost_snoc {u v : Fin maxNodeNum} {l : List (Fin maxNodeNum)}
    (hch : Chain (predOf nodes) src l u) :
    pathCost graph (l ++ [v]) = pathCost graph l + ⌊metricTo graph u v⌋ := by
  obtain ⟨pre, rfl⟩ := hch.concat
  simp [pathCost, pathMetrics_snoc]

omit [IsStrictOrderedRing M] in
theorem Tree.pathCost_nonneg (h : Tree b graph src nodes done queue skip) (hg : PathInput graph)
    (hts : TsMetrics graph) {l : List (Fin maxNodeNum)} {d : Fin maxNodeNum}
    (hch : Chain (predOf nodes) src l d) : 0 ≤ pathCost graph l := by
  refine List.sum_nonneg fun z hz => ?_
  obtain ⟨m, hm, rfl⟩ := List.mem_map.mp hz
  exact Int.floor_nonneg.mpr (h.pathMetrics_range hg hts hch m hm).1

omit [IsStrictOrderedRing M] in
/-- The nodes before the last of a chain are seen, and their own chains cost no more. -/
theorem Tree.pathCost_mem (h : Tree b graph src nodes done queue skip) (hg : PathInput graph)
    (hts : TsMetrics graph) {l : List (Fin maxNodeNum)} {d u : Fin maxNodeNum}
    (hch : Chain (predOf nodes) src l d) (hu : u ∈ l) :
    (u = d ∨ (graph u).state = .nodeSeen) ∧
      ∃ l', Chain (predOf nodes) src l' u ∧ pathCost graph l' ≤ pathCost graph l := by
  induction hch with
  | root hs =>
    obtain rfl := List.mem_singleton.mp hu
    exact ⟨Or.inl rfl, [u], .root hs, le_rfl⟩
  | @snoc p v l hch hp ih =>
    obtain ⟨hs, hm, -⟩ := h.metricTo_range hg hts hp
    have hstep : pathCost graph l ≤ pathCost graph (l ++ [v]) := by
      rw [pathCost_snoc hch]
      exact le_add_of_nonneg_right (Int.floor_nonneg.mpr hm)
    rcases List.mem_append.mp hu with hu | hu
    · obtain ⟨hstate, l', hch', hle⟩ := ih hu
      refine ⟨Or.inr ?_, l', hch', hle.trans hstep⟩
      rcases hstate with rfl | hstate
      · exact hs
      · exact hstate
    · obtain rfl := List.mem_singleton.mp hu
      exact ⟨Or.inl rfl, l ++ [u], .snoc hch hp, le_rfl⟩

/-- The metric of an entry, as long as the sum is below twice the largest `short`. -/
theorem Tree.metric_of_traced (h : Tree b graph src nodes done queue skip) (hg : PathInput graph)
    (hts : TsMetrics graph) {l : List (Fin maxNodeNum)} {d x p : Fin maxNodeNum} {hop : HopDest}
    (hch : Chain (predOf nodes) src l d) (htraced : TracedHop graph src d hop l x p) :
    (1 + pathCost graph l ≤ int16Max → hop.metric = 1 + pathCost graph l) ∧
      (int16Max < 1 + pathCost graph l → 1 + pathCost graph l < 65536 →
        hop.metric < int16Max) := by
  obtain ⟨hfit, hover⟩ :=
    foldr_sDSafeAdd (s := 1) (by omega) _ (h.pathMetrics_range hg hts hch)
  rw [htraced.metric, tracedMetric]
  refine ⟨hfit, fun hgt hlt => ?_⟩
  have hhigh := (hover hgt (by unfold int16Max; omega) hlt).2
  unfold pathCost at hlt
  unfold int16Max
  omega

/-- The paths in the tree of `dijkstra`, and what `get_next_hops` makes of them: the known nodes that have
    a predecessor have a route, whose metric is the sum along the path if a `short` holds it. -/
structure TreePaths (graph : Graph M) (src : Fin maxNodeNum) (nodes : DijkstraNodes M) (hops : HopTable)
    (path : Fin maxNodeNum → List (Fin maxNodeNum)) : Prop where
  chain : ∀ d p, predOf nodes d = some p → Chain (predOf nodes) src (path d) d
  routed : ∀ d, (hops d).nextHop ≠ -1 ↔ (graph d).state ≠ .nodeUnseen ∧ ∃ p, predOf nodes d = some p
  metric : ∀ d, (hops d).nextHop ≠ -1 →
    (1 + pathCost graph (path d) ≤ int16Max → (hops d).metric = 1 + pathCost graph (path d)) ∧
      (int16Max < 1 + pathCost graph (path d) → 1 + pathCost graph (path d) < 65536 →
        (hops d).metric < int16Max)
  unrouted : ∀ d, predOf nodes d = none → (hops d).metric = 0

theorem Tree.exists_paths {hops : HopTable} (h : Tree b graph src nodes done queue skip)
    (hg : PathInput graph) (hts : TsMetrics graph)
    (htraced : ∀ d p, (graph d).state ≠ .nodeUnseen → predOf nodes d = some p → ∀ l,
      Chain (predOf nodes) src l d → l.Nodup → ∃ x, TracedHop graph src d (hops d) l x p)
    (hnone : ∀ d, (graph d).state = .nodeUnseen ∨ predOf nodes d = none →
      hops d = { nextHop := -1, destIp := 0, metric := 0, nextHopState := .linkDown }) :
    ∃ path, TreePaths graph src nodes hops path := by
  have hpath : ∀ d, ∃ l, ∀ p, predOf nodes d = some p → Chain (predOf nodes) src l d ∧ l.Nodup := by
    intro d
    cases hp : predOf nodes d with
    | none => exact ⟨[], fun p hp => by cases hp⟩
    | some p =>
      obtain ⟨l, hch, hnd, -⟩ := h.labels.chain d (Or.inr (by rw [hp]; rfl))
      exact ⟨l, fun _ _ => ⟨hch, hnd⟩⟩
  choose path hpath using hpath
  have hrouted : ∀ d, (hops d).nextHop ≠ -1 ↔
      (graph d).state ≠ .nodeUnseen ∧ ∃ p, predOf nodes d = some p := by
    intro d
    constructor
    · intro hne
      by_contra hcon
      refine hne ?_
      rw [hnone d]
      by_contra hcon'
      rw [not_or] at hcon'
      exact hcon ⟨hcon'.1, Option.ne_none_iff_exists'.mp hcon'.2⟩
    · rintro ⟨hst, p, hp⟩
      obtain ⟨hch, hnd⟩ := hpath d p hp
      obtain ⟨x, hhop⟩ := htraced d p hst hp _ hch hnd
      rw [hhop.nextHop]
      omega
  refine ⟨path, fun d p hp => (hpath d p hp).1, hrouted, fun d hd => ?_, fun d hd => ?_⟩
  · obtain ⟨hst, p, hp⟩ := (hrouted d).mp hd
    obtain ⟨hch, hnd⟩ := hpath d p hp
    obtain ⟨x, hhop⟩ := htraced d p hst hp _ hch hnd
    exact h.metric_of_traced hg hts hch hhop
  · rw [hnone d (Or.inr hd)]

section Table
variable {hops : HopTable} {path : Fin maxNodeNum → List (Fin maxNodeNum)} {d : Fin maxNodeNum}

omit [IsStrictOrderedRing M] in
theorem TreePaths.followed (ht : TreePaths graph src nodes hops path)
    (h : Tree b graph src nodes done queue skip) (hd : (hops d).nextHop ≠ -1) :
    FollowedPath nodes src d (path d) := by
  obtain ⟨-, p, hp⟩ := (ht.routed d).mp hd
  have hch := ht.chain d p hp
  refine ⟨hch.head, ?_, hch.isChain.imp fun u v hp => h.prevId_of_pred hp⟩
  obtain ⟨pre, hpre⟩ := hch.concat
  rw [hpre, List.getLast?_concat]

/-- Where every route has the bounded sum for its metric, no sum passes the largest `short`: along a chain
    the first that does is below twice its size. -/
theorem TreePaths.fits (ht : TreePaths graph src nodes hops path)
    (h : Tree b graph src nodes done queue skip) (hg : PathInput graph) (hts : TsMetrics graph)
    (hsat : ∀ d, (hops d).nextHop ≠ -1 → MetricSaturates graph hops d (path d))
    (hd : (hops d).nextHop ≠ -1) : 1 + pathCost graph (path d) ≤ int16Max := by
  have hchain : ∀ {l d}, Chain (predOf nodes) src l d → (graph d).state ≠ .nodeUnseen →
      1 + pathCost graph l ≤ int16Max := by
    intro l d hch
    induction hch with
    | root _ =>
      intro _
      simp [pathCost, pathMetrics, int16Max]
    | @snoc u v l hch hp ih =>
      intro hst
      obtain ⟨hs, -, hm⟩ := h.metricTo_range hg hts hp
      have hfloor : ⌊metricTo graph u v⌋ ≤ 10000 :=
        Int.floor_le_iff.mpr (by push_cast; exact hm.trans_lt (lt_add_one _))
      have ih := ih (by rw [hs]; decide)
      have hv : (hops v).nextHop ≠ -1 := (ht.routed v).mpr ⟨hst, u, hp⟩
      have hsum := (hsat v hv).metric
      have hlow := (ht.metric v hv).2
      rw [(ht.chain v u hp).unique (hch.snoc hp)] at hsum hlow
      rw [pathCost_snoc hch] at hlow hsum ⊢
      by_contra hgt
      have := hlow (not_le.mp hgt) (by unfold int16Max at ih; omega)
      rw [hsum, min_eq_left (not_le.mp hgt).le] at this
      exact lt_irrefl _ this
  obtain ⟨hst, p, hp⟩ := (ht.routed d).mp hd
  exact hchain (ht.chain d p hp) hst

omit [IsStrictOrderedRing M] in
/-- Where no sum passes it, the metrics of the nodes before are the sums along the path so far. -/
theorem TreePaths.saturates (ht : TreePaths graph src nodes hops path)
    (h : Tree b graph src nodes done queue skip) (hg : PathInput graph) (hts : TsMetrics graph)
    (hfit : ∀ d, (hops d).nextHop ≠ -1 → 1 + pathCost graph (path d) ≤ int16Max)
    (hd : (hops d).nextHop ≠ -1) : MetricSaturates graph hops d (path d) := by
  obtain ⟨hst, p, hp⟩ := (ht.routed d).mp hd
  have hch := ht.chain d p hp
  have hsum := (ht.metric d hd).1 (hfit d hd)
  have hpos := h.pathCost_nonneg hg hts hch
  refine ⟨by rw [hsum, min_eq_right (hfit d hd)], by omega, fun u hu => ?_⟩
  obtain ⟨hstate, l', hch', hcost⟩ := h.pathCost_mem hg hts hch hu
  cases hpu : predOf nodes u with
  | none =>
    rw [ht.unrouted u hpu]
    omega
  | some q =>
    have hu : (hops u).nextHop ≠ -1 := by
      refine (ht.routed u).mpr ⟨?_, q, hpu⟩
      rcases hstate with rfl | hstate
      · exact hst
      · rw [hstate]
        decide
    rw [(ht.metric u hu).1 (hfit u hu), (ht.chain u q hpu).unique hch', hsum]
    omega

end Table

/-- The metric of every route is the bounded sum along its path exactly if no such sum passes the largest
    `short`. The condition is on the graph and the tree that `get_next_hops` is given. -/
theorem metric_saturates_iff (b : Build) (hg : PathInput graph) (hts : TsMetrics graph)
    (hsrc : (graph src).state = .nodeSeen) :
    ∃ (nodes : DijkstraNodes M) (hops : HopTable) (path : Fin maxNodeNum → List (Fin maxNodeNum)),
      dijkstra b graph ((src : ℕ) + 1) = .ok nodes ∧
      pathfind b graph ((src : ℕ) + 1) = .ok hops ∧
      (∀ d, (hops d).nextHop ≠ -1 → FollowedPath nodes src d (path d)) ∧
      ((∀ d, (hops d).nextHop ≠ -1 → MetricSaturates graph hops d (path d)) ↔
        ∀ d, (hops d).nextHop ≠ -1 → 1 + pathCost graph (path d) ≤ int16Max) := by
  obtain ⟨nodes, hops, done, hrun, htable, h, -, htraced, hnone⟩ := pathfind_tree b hg hsrc
  obtain ⟨path, ht⟩ := h.exists_paths hg hts htraced hnone
  exact ⟨nodes, hops, path, hrun, htable, fun d hd => ht.followed h hd,
    fun hsat d hd => ht.fits h hg hts hsat hd, fun hfit d hd => ht.saturates h hg hts hfit hd⟩

end Paths

end Saturation

/-- Nodes 1 to 5 in a line, with links of metric 10000. -/
def longLine : Graph ℤ := fun k =>
  { graphOf [(1, [(2, 0, 1)]), (2, [(1, 0, 2), (3, 1, 1)]), (3, [(2, 1, 2), (4, 2, 1)]),
      (4, [(3, 2, 2), (5, 3, 1)]), (5, [(4, 3, 2)])] k with linkMetrics := fun _ => 10000 }

theorem longLine_input : PathInput longLine := ⟨by decide, by decide, by decide⟩

theorem longLine_metrics : TsMetrics longLine := by unfold TsMetrics; decide

/-- On the pentagon every sum is small. -/
theorem metric_saturates_pentagon : ∃ (nodes : DijkstraNodes ℤ) (hops : HopTable)
    (path : Fin maxNodeNum → List (Fin maxNodeNum)), dijkstra .dtlsr pentagon 1 = .ok nodes ∧
    pathfind .dtlsr pentagon 1 = .ok hops ∧
    (hops 2).nextHop ≠ -1 ∧
    ∀ d, (hops d).nextHop ≠ -1 → MetricSaturates pentagon hops d (path d) := by
  obtain ⟨nodes, hops, path, hrun, htable, hfollowed, hiff⟩ :=
    metric_saturates_iff .dtlsr pentagon_input (by unfold TsMetrics; decide)
      (show (pentagon 0).state = .nodeSeen by decide)
  have hprev : (nodes 0).prevId = -1 ∧ (nodes 1).prevId = 1 ∧ (nodes 2).prevId = 2 ∧
      (nodes 3).prevId = 5 ∧ (nodes 4).prevId = 1 := by
    have hrun' : (dijkstra .dtlsr pentagon 1).toOption.map (fun ns =>
        [(ns 0).prevId, (ns 1).prevId, (ns 2).prevId, (ns 3).prevId, (ns 4).prevId]) =
          some [-1, 1, 2, 5, 1] := by
      decide +kernel
    rw [show dijkstra .dtlsr pentagon 1 = .ok nodes from hrun] at hrun'
    simpa using Option.some.inj hrun'
  obtain ⟨hsome, honly⟩ : (hops 2).nextHop ≠ -1 ∧
      ∀ d, (hops d).nextHop ≠ -1 → d = 1 ∨ d = 2 ∨ d = 3 ∨ d = 4 := by
    have htable' : (pathfind .dtlsr pentagon 1).toOption.any (fun hops => (hops 2).nextHop ≠ -1 ∧
        ∀ d, (hops d).nextHop ≠ -1 → d = 1 ∨ d = 2 ∨ d = 3 ∨ d = 4) = true := by
      decide +kernel
    rw [show pathfind .dtlsr pentagon 1 = .ok hops from htable] at htable'
    exact of_decide_eq_true htable'
  have hroot : predOf nodes 0 = none := by
    rw [predOf, hprev.1]
    rfl
  refine ⟨nodes, hops, path, hrun, htable, hsome, hiff.mpr fun d hd => ?_⟩
  have hpath : ∀ l, FollowedPath nodes 0 d l → path d = l := fun l => (hfollowed d hd).unique hroot
  rcases honly d hd with rfl | rfl | rfl | rfl
  · rw [hpath [0, 1] ⟨rfl, rfl, by simp [hprev]⟩]
    decide +kernel
  · rw [hpath [0, 1, 2] ⟨rfl, rfl, by simp [hprev]⟩]
    decide +kernel
  · rw [hpath [0, 4, 3] ⟨rfl, rfl, by simp [hprev]⟩]
    decide +kernel
  · rw [hpath [0, 4] ⟨rfl, rfl, by simp [hprev]⟩]
    decide +kernel

/-- Node 5 is four links of 10000 away from node 1. The sum passes the largest `short` at the last
    addition, and the route has metric -1. -/
theorem metric_wraps : PathInput longLine ∧ TsMetrics longLine ∧ (longLine 0).state = .nodeSeen ∧
    (∀ k i j, (longLine k).neighbourIds i = (longLine k).neighbourIds j →
      ((i : ℕ) : ℤ) < (longLine k).nNeighbours → ((j : ℕ) : ℤ) < (longLine k).nNeighbours → i = j) ∧
    ∃ nodes hops, dijkstra .dtlsr longLine 1 = .ok nodes ∧ pathfind .dtlsr longLine 1 = .ok hops ∧
      FollowedPath nodes 0 4 [0, 1, 2, 3, 4] ∧
      hops 4 = { nextHop := 2, destIp := inetAddr 10 0 3 2, metric := -1, nextHopState := .linkUp } ∧
      ¬MetricSaturates longLine hops 4 [0, 1, 2, 3, 4] := by
  obtain ⟨nodes, hops, -, hrun, htable, -⟩ :=
    pathfind_tree .dtlsr longLine_input (show (longLine 0).state = .nodeSeen by decide)
  have hprev : (nodes 1).prevId = 1 ∧ (nodes 2).prevId = 2 ∧ (nodes 3).prevId = 3 ∧
      (nodes 4).prevId = 4 := by
    have hrun' : (dijkstra .dtlsr longLine 1).toOption.map (fun ns =>
        [(ns 1).prevId, (ns 2).prevId, (ns 3).prevId, (ns 4).prevId]) = some [1, 2, 3, 4] := by
      decide +kernel
    rw [show dijkstra .dtlsr longLine 1 = .ok nodes from hrun] at hrun'
    simpa using Option.some.inj hrun'
  have hhop : hops 4 =
      { nextHop := 2, destIp := inetAddr 10 0 3 2, metric := -1, nextHopState := .linkUp } := by
    have htable' : (pathfind .dtlsr longLine 1).toOption.map (fun hops => hops 4) =
        some { nextHop := 2, destIp := inetAddr 10 0 3 2, metric := -1, nextHopState := .linkUp } := by
      decide +kernel
    rw [show pathfind .dtlsr longLine 1 = .ok hops from htable] at htable'
    exact Option.some.inj htable'
  refine ⟨longLine_input, longLine_metrics, by decide, by decide, nodes, hops, hrun, htable,
    ⟨rfl, rfl, by simp [hprev]⟩, hhop, fun hsat => ?_⟩
  have hneg := hsat.nonneg
  rw [hhop] at hneg
  exact absurd hneg (by decide)

end Dtlsr
