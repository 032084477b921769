import Dtlsr.Convergence
import Dtlsr.LinkAgree
import Dtlsr.Routes

/-!
    What the parts of DTLSR come to when they work together. In a network whose links are all up, and in
    which some time ago no LSA was on its way that matters, every router that has recomputed its next hops
    since then has the configured network in its graph: so the next hops of all routers, each computed
    by its own router, lead from any router along a path of the fewest links to the destination. -/

namespace Dtlsr
open Checked Walks

/-! ### Records of routers whose links are up -/

section Records
variable {M : Type} [Field M]

/-- All links of the router are up. -/
def AllUp (t : LocalNode M) : Prop :=
  ∀ i : Fin maxNodeFan, ((i : ℕ) : ℤ) < t.node.nNeighbours → t.node.linkStatuses i = .linkUp

/-- A record that has the links of the configuration, all up. -/
structure UpRecord (S : Setup M) (n : Node M) : Prop where
  count : n.nNeighbours = S.links.length
  links : ∀ (i : Fin maxNodeFan) (h : (i : ℕ) < S.links.length),
    n.neighbourIds i = S.links[(i : ℕ)].dstId ∧ n.linkStatuses i = .linkUp ∧ n.linkMetrics i = 1

variable {S : Setup M} {n n' : Node M}

theorem UpRecord.of_sameContent (h : UpRecord S n') (hsame : SameContent n n') : UpRecord S n where
  count := hsame.count.trans h.count
  links i hi := by
    obtain ⟨h1, h2, h3⟩ := hsame.links i (by rw [hsame.count, h.count]; exact_mod_cast hi)
    rw [h1, h2, h3]
    exact h.links i hi

theorem UpRecord.sameContent (h : UpRecord S n) (h' : UpRecord S n') : SameContent n n' where
  count := h.count.trans h'.count.symm
  links i hi := by
    rw [h.count] at hi
    obtain ⟨h1, h2, h3⟩ := h.links i (by exact_mod_cast hi)
    obtain ⟨h1', h2', h3'⟩ := h'.links i (by exact_mod_cast hi)
    exact ⟨h1.trans h1'.symm, h2.trans h2'.symm, h3.trans h3'.symm⟩

variable [Libm M]

/-- A link that is up costs 1, if its history agrees. -/
theorem updateMetrics_up {p : HistParams M} {t : LocalNode M} {now : ℕ} {i : Fin maxNodeFan}
    (hi : ((i : ℕ) : ℤ) < t.node.nNeighbours)
    (hagrees : (t.lsTimeSeries i).currLinkState = t.node.linkStatuses i)
    (hup : t.node.linkStatuses i = .linkUp) :
    (localNodeUpdateMetrics .dtlsr p t now).node.linkMetrics i = 1 := by
  simp only [localNodeUpdateMetrics, if_pos hi, linkMetric, tsComputeMetric, hagrees, hup, if_pos]

end Records

/-! ### One router -/

section Runs
variable {M : Type} [Field M] [LinearOrder M] [FloorRing M] [Libm M] {S : Setup M}
  {tr : List (Trace.Step (Daemon M) (Event M))} {s s' d0 : Daemon M}

/-- The stamp after an event renews the metrics, and leaves the links and their histories. -/
theorem afterEvent_metrics {f : Flags} (h : afterEvent S f s = .ok s')
    (hrouting : f.updateRouting = false) (hf : f.Stamps) : ∃ t now, SameLinks s.this t ∧
      t.lsTimeSeries = s.this.lsTimeSeries ∧
        s'.this = localNodeUpdateMetrics S.build S.hist t now := by
  unfold afterEvent at h
  obtain ⟨s1, h1, h⟩ := bind_ok_iff.mp h
  rw [hrouting] at h
  cases h
  split at h1
  · obtain ⟨⟨g, t⟩, hg, h1⟩ := bind_ok_iff.mp h1
    obtain ⟨hops, -, h1⟩ := bind_ok_iff.mp h1
    cases h1
    refine ⟨_, _, ?_, ?_, updateGlobalThis_this hg⟩
    · split <;> rfl
    · split <;> rfl
  · rename_i hn
    cases h1
    have hsend : f.lsaSendStatus = true := by
      rcases hf with hf | hf | hf
      · exact hf
      · exact absurd (by rw [hf]; rfl) hn
      · exact absurd (by rw [hf, Bool.or_true]) hn
    rw [if_pos hsend]
    exact ⟨s.this, _, .refl _, rfl, rfl⟩

theorem Run.agrees (hb : S.build = .dtlsr) (hrun : Run S tr s) (i : Fin maxNodeFan)
    (hi : (i : ℕ) < S.links.length) :
    (s.this.lsTimeSeries i).currLinkState = s.this.node.linkStatuses i :=
  LinkAgrees.state (hrun.invariant (I := fun tr s => LinkAgrees S tr s i)
    (fun _ h0 => startUp_linkAgrees hb hi h0) fun _ _ _ _ _ hinv hstep => hinv.step hb hstep)

/-- In all records that a router has made, a link that is up costs 1. -/
theorem Run.upMetrics (hb : S.build = .dtlsr) (hrun : Run S tr s) : ∀ r,
    r ∈ s.originated ∨ r = s.this.node → ∀ i : Fin maxNodeFan, (i : ℕ) < S.links.length →
      r.linkStatuses i = .linkUp → r.linkMetrics i = 1 := by
  refine hrun.invariant (I := fun _ s => ∀ r, r ∈ s.originated ∨ r = s.this.node →
    ∀ i : Fin maxNodeFan, (i : ℕ) < S.links.length → r.linkStatuses i = .linkUp →
      r.linkMetrics i = 1) ?_ ?_
  · intro s h0 r hr i hi hup
    rw [(startUp_started h0).originated] at hr
    rcases hr with hr | rfl
    · cases hr
    · rw [(startUp_linked h0).2 i hi] at hup
      cases hup
  · intro tr s ev s' hrun ih h r hr i hi hup
    have hrun' := hrun.step h
    have hcount := (Run.linked hrun').count
    have hagrees := Run.agrees hb hrun' i hi
    obtain ⟨c, -, ⟨-, rfl⟩ | ⟨_, _, s3, f, s4, h3, h4, h5⟩⟩ := h.calls
    · exact ih r hr i hi hup
    · have hH := handleEvent_ok h3
      have hrouting := hH.updateRouting
      have hlinks := (afterEvent_ok h4 hrouting).1.links
      have hseries := afterEvent_history h4 hrouting
      rw [(captureAfter_ok h5).1] at hr hcount hagrees
      dsimp only at hr hcount hagrees
      rw [hseries, hlinks.linkStatuses] at hagrees
      rw [hlinks.nNeighbours] at hcount
      have hi3 : ((i : ℕ) : ℤ) < s3.this.node.nNeighbours := by omega
      have hmetric : ∀ {t : LocalNode M} {now : ℕ}, SameLinks s3.this t →
          t.lsTimeSeries = s3.this.lsTimeSeries →
          r = (localNodeUpdateMetrics S.build S.hist t now).node → r.linkMetrics i = 1 := by
        rintro t now hsame hts rfl
        rw [hb]
        refine updateMetrics_up (by rw [hsame.nNeighbours]; exact hi3) ?_ hup
        rw [hts, hsame.linkStatuses]
        exact hagrees
      have hafter := afterEvent_sends h4 hrouting
      have horig : s3.originated = s.originated := hH.originated
      by_cases hf : f.Stamps
      · rcases hr with hr | rfl
        · cases hsend : f.lsaSendStatus with
          | false =>
            rw [hsend, if_neg (by decide)] at hafter
            rw [hafter.2, horig] at hr
            exact ih r (Or.inl hr) i hi hup
          | true =>
            rw [hsend, if_pos rfl] at hafter
            rw [hafter.2, horig] at hr
            rcases List.mem_append.mp hr with hr | hr
            · exact ih r (Or.inl hr) i hi hup
            · exact hmetric (.refl _) rfl (List.mem_singleton.mp hr)
        · obtain ⟨t, now, hsame, hts, hthis⟩ := afterEvent_metrics h4 hrouting hf
          exact hmetric hsame hts (by rw [hthis])
      · -- without a stamp nothing has been sent, and the record is as it was
        have hsend : f.lsaSendStatus = false := Bool.eq_false_iff.mpr fun h => hf (Or.inl h)
        rw [hsend, if_neg (by decide)] at hafter
        obtain ⟨hthis, -⟩ := (afterEvent_stamps h4 hrouting).1 hf
        obtain ⟨hnode, -⟩ := (handleEvent_handles h3).sends.1 hf
        rw [hafter.2, horig, hthis, hnode] at hr
        exact ih r hr i hi hup

theorem Run.neighbourIds (hrun : Run S tr s) (i : Fin maxNodeFan) (hi : (i : ℕ) < S.links.length) :
    s.this.node.neighbourIds i = S.links[(i : ℕ)].dstId := by
  refine hrun.invariant (I := fun _ s => s.this.node.neighbourIds i = S.links[(i : ℕ)].dstId) ?_ ?_
  · intro s h0
    obtain ⟨t, ht, h⟩ := bind_ok_iff.mp h0
    obtain ⟨⟨g, t'⟩, hg, h⟩ := bind_ok_iff.mp h
    cases h
    rw [← localNodeInit_neighbourIds ht i hi]
    dsimp only
    rw [updateGlobalThis_this hg]
    rfl
  · intro tr s ev s' _ ih hstep
    rw [hstep.sameRouter.neighbourIds, ih]

/-- While a router has sent no LSA of its own, its links are down as at start-up. -/
theorem Run.silent (hrun : Run S tr s) : s.originated = [] → ∀ i : Fin maxNodeFan,
    (i : ℕ) < S.links.length → s.this.node.linkStatuses i = .linkDown := by
  refine hrun.invariant (I := fun _ s => s.originated = [] → ∀ i : Fin maxNodeFan,
    (i : ℕ) < S.links.length → s.this.node.linkStatuses i = .linkDown) ?_ ?_
  · intro s h0 _ i hi
    exact (startUp_linked h0).2 i hi
  · intro tr s ev s' _ ih h hnone i hi
    obtain ⟨-, horig | ⟨t, now, -, -, -, horig⟩⟩ := h.originated
    · rw [h.still horig]
      exact ih (horig.symm.trans hnone) i hi
    · rw [horig] at hnone
      simp at hnone

/-- A router whose links are all up shows it in its record, and in the last LSA that it has sent. -/
theorem Run.upRecord (hb : S.build = .dtlsr) (hrun : Run S tr s) (hup : AllUp s.this) :
    UpRecord S s.this.node ∧ ∀ last ∈ s.originated.getLast?, UpRecord S last := by
  have hcount := (Run.linked hrun).count
  have hmetrics := Run.upMetrics hb hrun
  have hstatus : ∀ i : Fin maxNodeFan, (i : ℕ) < S.links.length →
      s.this.node.linkStatuses i = .linkUp := fun i hi => hup i (by omega)
  refine ⟨⟨hcount, fun i hi => ⟨Run.neighbourIds hrun i hi, hstatus i hi, ?_⟩⟩, fun last hlast => ?_⟩
  · exact hmetrics _ (Or.inr rfl) i hi (hstatus i hi)
  · have hsame := Run.announced hrun last hlast
    refine ⟨hsame.nNeighbours.trans hcount, fun i hi => ⟨?_, ?_, ?_⟩⟩
    · rw [hsame.neighbourIds]
      exact Run.neighbourIds hrun i hi
    · rw [hsame.linkStatuses]
      exact hstatus i hi
    · refine hmetrics last (Or.inl (List.mem_of_getLast? hlast)) i hi ?_
      rw [hsame.linkStatuses]
      exact hstatus i hi

/-- Such a router has sent an LSA, unless it has no links; and what it started with has changed. -/
theorem Run.changed (hb : S.build = .dtlsr) (h0 : startUp S = .ok d0) (hrun : Run S tr s)
    (hup : AllUp s.this) (hlinks : S.links ≠ []) :
    ∃ last, s.originated.getLast? = some last ∧ UpRecord S last ∧
      ¬SameContent d0.this.node last := by
  have hl := Run.linked hrun
  have hpos : 0 < S.links.length := List.length_pos_of_ne_nil hlinks
  let first : Fin maxNodeFan := ⟨0, by decide⟩
  have hfirst : s.this.node.linkStatuses first = .linkUp := hup first (by
    rw [hl.count]
    exact_mod_cast hpos)
  cases hlast : s.originated.getLast? with
  | none =>
    have hdown := Run.silent hrun (List.getLast?_eq_none_iff.mp hlast) first hpos
    rw [hfirst] at hdown
    cases hdown
  | some last =>
    have hlastUp := (Run.upRecord hb hrun hup).2 last hlast
    refine ⟨last, rfl, hlastUp, fun hsame => ?_⟩
    obtain ⟨hlinked, hdown⟩ := startUp_linked h0
    have h := (hsame.links first (by rw [hlinked.count]; exact_mod_cast hpos)).2.1
    rw [hdown first hpos, (hlastUp.links first hpos).2.1] at h
    cases h

/-- An iteration leaves the next hops as they are, or computes them from the graph that it leaves, in
    which its own record is up to date; the recomputation timer always computes them. -/
theorem Steps.recomputes {ev : Event M} {k : Fin maxNodeNum} (hb : S.build = .dtlsr)
    (h : Steps S s ev s') (hl : Linked S s.this) (hk : S.id = (k : ℕ) + 1) :
    (ev.active ≠ .recomputationTimer ∧ s'.nextHops = s.nextHops) ∨
      (pathfind .dtlsr s'.graph S.id = .ok s'.nextHops ∧ s'.graph k = s'.this.node) := by
  have hroutes := h.routes
  have hid : s'.this.node.id = S.id := by rw [h.links.id, linkEffect_id, hl.id]
  rw [hid, hb] at hroutes
  have hown : ¬ev.active.IsLsa → ev.active = .recomputationTimer ∨
      s'.this.node.linkStatuses ≠ s.this.node.linkStatuses → s'.graph k = s'.this.node := by
    intro hlsa hchange
    rcases h.own (hl.id.trans hk) hl.seen hlsa with ⟨-, hst, hne⟩ | ⟨-, hown, -⟩
    · rcases hchange with hchange | hchange
      · exact absurd hchange hne
      · exact absurd hst hchange
    · exact hown
  cases ha : ev.active with
  | routerLsa lsa source =>
    rw [ha] at hroutes
    exact Or.inl ⟨nofun, hroutes.2⟩
  | networkLsa others =>
    rw [ha] at hroutes
    exact Or.inl ⟨nofun, hroutes.2⟩
  | recomputationTimer =>
    rw [ha] at hroutes
    exact Or.inr ⟨hroutes, hown (by rw [ha]; exact id) (Or.inl ha)⟩
  | _ =>
    rw [ha] at hroutes
    rcases hroutes with ⟨hpath, hchange⟩ | ⟨-, hhops, -⟩
    · exact Or.inr ⟨hpath, hown (by rw [ha]; exact id) (Or.inr hchange)⟩
    · exact Or.inl ⟨nofun, hhops⟩

end Runs

/-! ### The configured network -/

section Network
variable {ι M : Type} [Field M] [LinearOrder M] [IsStrictOrderedRing M] {S : ι → Setup M}

/-- The router that is node `u` has a link to node `v` in its configuration. -/
def Adjacent (S : ι → Setup M) (u v : Fin maxNodeNum) : Prop :=
  ∃ i, (S i).id = (u : ℕ) + 1 ∧ ∃ row ∈ (S i).links, row.dstId = (v : ℕ) + 1

/-- The router that is node `u` sends what is for node `d` to node `v`. -/
def NextHop (S : ι → Setup M) (hops : ι → HopTable) (d u v : Fin maxNodeNum) : Prop :=
  ∃ i, (S i).id = (u : ℕ) + 1 ∧ (hops i d).nextHop = (v : ℕ) + 1

/-- The graph shows the configured network, with all links up. -/
structure Complete (S : ι → Setup M) (g : Graph M) : Prop where
  closed : Closed g
  seen : ∀ i, ∀ k : Fin maxNodeNum, (S i).id = (k : ℕ) + 1 →
    (g k).state = .nodeSeen ∧ UpRecord (S i) (g k)
  only : ∀ k : Fin maxNodeNum, (g k).state = .nodeSeen → ∃ i, (S i).id = (k : ℕ) + 1

variable {g : Graph M} {u v d : Fin maxNodeNum}

omit [LinearOrder M] [IsStrictOrderedRing M] in
theorem Complete.metric (hg : Complete S g) (hs : (g u).state = .nodeSeen) {i : Fin maxNodeFan}
    (hi : ((i : ℕ) : ℤ) < (g u).nNeighbours) : (g u).linkMetrics i = 1 := by
  obtain ⟨r, hr⟩ := hg.only u hs
  obtain ⟨-, hrecord⟩ := hg.seen r u hr
  rw [hrecord.count] at hi
  exact (hrecord.links i (by exact_mod_cast hi)).2.2

theorem Complete.input (hg : Complete S g) : PathInput g where
  ids := hg.closed.id
  bounds := hg.closed.bounds
  nonneg k hk i hi := by
    rw [hg.metric hk hi]
    exact zero_le_one

theorem Complete.max (hg : Complete S g) : MaxMetric g := by
  intro k hk i hi
  rw [hg.metric hk hi]
  norm_num

omit [LinearOrder M] [IsStrictOrderedRing M] in
theorem Complete.link (hg : Complete S g) : Link .dtlsr g = unitEdges (Adjacent S) := by
  funext u w v
  refine propext ⟨?_, ?_⟩
  · rintro ⟨hs, i, hslot, rfl⟩
    obtain ⟨r, hr⟩ := hg.only u hs
    obtain ⟨-, hrecord⟩ := hg.seen r u hr
    have hi : (i : ℕ) < (S r).links.length := by
      have := hslot.used
      rw [hrecord.count] at this
      exact_mod_cast this
    refine ⟨hg.metric hs hslot.used, r, hr, _, List.getElem_mem hi, ?_⟩
    rw [← (hrecord.links i hi).1, hslot.id]
  · rintro ⟨rfl, r, hr, row, hrow, hdst⟩
    obtain ⟨hs, hrecord⟩ := hg.seen r u hr
    obtain ⟨j, hj, rfl⟩ := List.getElem_of_mem hrow
    have hfan : (g u).nNeighbours ≤ maxNodeFan := (hg.closed.bounds u hs).fan
    rw [hrecord.count] at hfan
    have hused : ((j : ℕ) : ℤ) < (g u).nNeighbours := by
      rw [hrecord.count]
      exact_mod_cast hj
    let i : Fin maxNodeFan := ⟨j, by omega⟩
    refine ⟨hs, i, ⟨hused, ?_, nofun⟩, (hg.metric hs hused).symm⟩
    rw [(hrecord.links i hj).1, hdst]

omit [LinearOrder M] [IsStrictOrderedRing M] in
theorem Complete.known (hg : Complete S g) (h : Adjacent S u v) : (g v).state ≠ .nodeUnseen := by
  obtain ⟨hs, i, hslot, -⟩ : Link .dtlsr g u 1 v := by
    rw [hg.link]
    exact ⟨rfl, h⟩
  exact hg.closed.neighbours u hs v ⟨i, hslot.used, hslot.id⟩

variable [FloorRing M]

/-- On such a graph `pathfind` gives the second node of a path of the fewest links. -/
theorem Complete.nextHop (hg : Complete S g) {hops : HopTable} {r : ι} (hr : (S r).id = (u : ℕ) + 1)
    (hpath : pathfind .dtlsr g (S r).id = .ok hops) (hne : u ≠ d)
    (hreach : Relation.ReflTransGen (Adjacent S) u d) : ∃ (x : Fin maxNodeNum) (l : List (Fin maxNodeNum))
      (c : M), (hops d).nextHop = (x : ℕ) + 1 ∧ Relation.ReflTransGen (Adjacent S) x d ∧
        Shortest (unitEdges (Adjacent S)) u (u :: x :: l) d c := by
  obtain ⟨hseen, -⟩ := hg.seen r u hr
  obtain ⟨ns, hops', -, hpath', -, hnext⟩ := pathfind_ensures .dtlsr hg.input hseen
  rw [hr, hpath'] at hpath
  cases hpath
  have hknown : (g d).state ≠ .nodeUnseen := by
    rcases hreach.cases_tail with rfl | ⟨p, -, hp⟩
    · exact absurd rfl hne
    · exact hg.known hp
  have hin : InReach .dtlsr g u d := by
    obtain ⟨l, c, hw⟩ := exists_walk_of_reach (α := M) hreach
    exact (inReach_iff hg.input hg.max hseen d).mpr ⟨l, c, by rw [hg.link]; exact hw⟩
  obtain ⟨l, x, p, -, hroute⟩ := hnext.route d hknown hne.symm hin
  obtain ⟨rest, rfl⟩ := hroute.head
  have hshort := hroute.shortest
  rw [hg.link] at hshort
  obtain ⟨w, c', -, htail, -⟩ := hshort.tail
  exact ⟨x, rest, _, hroute.nextHop, htail.walk.reach_of_unit, hshort⟩

/-- The next hops of routers that each know the whole network lead along paths of the fewest links. -/
theorem Complete.followed {hops : ι → HopTable}
    (hknow : ∀ r, ∃ g, Complete S g ∧ pathfind .dtlsr g (S r).id = .ok (hops r))
    (hreach : Relation.ReflTransGen (Adjacent S) u d) : ∃ path : List (Fin maxNodeNum),
      path.head? = some u ∧ path.getLast? = some d ∧ path.Nodup ∧ path.IsChain (Adjacent S) ∧
      path.IsChain (NextHop S hops d) ∧
      ∀ l : List (Fin maxNodeNum), l.head? = some u → l.getLast? = some d → l.IsChain (Adjacent S) →
        path.length ≤ l.length := by
  obtain ⟨path, c, hshort, hhops⟩ := exists_followed (α := M) (E := unitEdges (Adjacent S)) (d := d)
    (NextHop S hops d) (fun v => Relation.ReflTransGen (Adjacent S) v d)
    (fun _ w _ e => by rw [e.1]; exact zero_lt_one) (fun v hv hvd => by
      rcases hv.cases_head with rfl | ⟨y, ⟨r, hr, -⟩, -⟩
      · exact absurd rfl hvd
      · obtain ⟨g, hg, hpath⟩ := hknow r
        obtain ⟨x, l, c, hhop, hx, hs⟩ := hg.nextHop hr hpath hvd hv
        exact ⟨x, l, c, ⟨r, hr, hhop⟩, hx, hs⟩) hreach
  obtain ⟨hhead, hlast, hch, hlen⟩ := hshort.walk.chain_of_unit
  refine ⟨path, hhead, hlast, hshort.nodup, hch, hhops, fun l hl1 hl2 hl3 => ?_⟩
  obtain ⟨c', hw⟩ := exists_walk_of_chain (α := M) hl1 hl2 hl3
  obtain ⟨-, -, -, hlen'⟩ := hw.chain_of_unit
  have hle : (path.length : M) ≤ l.length := by
    rw [← hlen, ← hlen']
    exact add_le_add_left (hshort.least l c' hw) 1
  exact_mod_cast hle

end Network

/-! ### The routers together -/

section Fleet
variable {ι M : Type} [DecidableEq ι] [Field M] [LinearOrder M] [FloorRing M] [Libm M]
  (S : ι → Setup M) (W : Wiring ι)

/-- DTLSR routers with ids of their own, started as `d0`. -/
structure Deployed (d0 : ι → Daemon M) : Prop where
  build : ∀ i, (S i).build = .dtlsr
  ids : Function.Injective fun i => (S i).id
  wiring : W.Sound S
  start : ∀ i, startUp (S i) = .ok (d0 i)

/-- The runs of the routers from a state on. -/
abbrev WiredFrom (s0 : Wired ι M) : List (Trace.Step (Wired ι M) (Arrival ι M)) → Wired ι M → Prop :=
  Trace.Run (fun s => s = s0) fun s e s' => WiredAllowed S W s e ∧ wiredStep S e s = .ok s'

/-- Network LSAs bring no news of any router, but for the records with which they have started. -/
def NoNewsOfAny (d0 : ι → Daemon M) (st : Trace.Step (Wired ι M) (Arrival ι M)) : Prop :=
  ∀ o (k : Fin maxNodeNum), (S o).id = (k : ℕ) + 1 → NoNews o k (d0 o).this.node st

/-- All links are up, and links on which no LSA of a router is on its way lead from it to all others. -/
structure Quiet (s : Wired ι M) : Prop where
  up : ∀ i, AllUp (s.net i).this
  delivered : ∀ o (k : Fin maxNodeNum), (S o).id = (k : ℕ) + 1 →
    ∀ z, Relation.ReflTransGen (Delivered S W k s) o z

/-- Every router but `o` has what `o` last announced, whichever router `o` is. -/
def Settled (d0 : ι → Daemon M) (s : Wired ι M) : Prop :=
  ∀ o (k : Fin maxNodeNum), (S o).id = (k : ℕ) + 1 → ∀ z ≠ o,
    Flood.Settled SameContent Node.timestamp (s.flood S o k (d0 o).this.node) z

variable {S W} {d0 : ι → Daemon M} {tr tr' : List (Trace.Step (Wired ι M) (Arrival ι M))}
  {s s' : Wired ι M} {e : Arrival ι M} {o z : ι} {k : Fin maxNodeNum}

omit [LinearOrder M] [FloorRing M] [Libm M] in
theorem published_getLast {r0 last : Node M}
    (h : (s.net o).originated.getLast? = some last) :
    (s.flood S o k r0).published.getLast? = some last := by
  rw [← h]
  exact List.getLast?_cons_of_ne_nil fun hnil => by rw [hnil] at h; cases h

theorem Deployed.led (hS : Deployed S W d0) (ho : (S o).id = (k : ℕ) + 1) (hrun : WiredRun S W tr s)
    (hclock : ClocksMove S (tr.map Trace.Step.routers)) (hnews : ∀ st ∈ tr, NoNewsOfAny S d0 st) :
    ∃ φ, Flood.Led Channel.src W.dst o SameContent Node.timestamp (s.flood S o k (d0 o).this.node) φ :=
  WiredRun.led ho (fun _ hz => hS.ids (hz.trans ho.symm)) hS.wiring (hS.start o) hrun (hclock o)
    fun st hst => hnews st hst o k ho

theorem Deployed.changed (hS : Deployed S W d0) (hrun : WiredRun S W tr s)
    (hup : ∀ i, AllUp (s.net i).this) (hlinks : (S o).links ≠ []) :
    ∃ last, (s.net o).originated.getLast? = some last ∧ UpRecord (S o) last ∧
      ¬SameContent (d0 o).this.node last :=
  Run.changed (hS.build o) (hS.start o) ((WiredRun.fleet hrun).alone o) (hup o) hlinks

omit [DecidableEq ι] [LinearOrder M] [FloorRing M] [Libm M] in
theorem Quiet.links (hids : ∀ i, ∃ k : Fin maxNodeNum, (S i).id = (k : ℕ) + 1) (hquiet : Quiet S W s)
    (hz : z ≠ o) : (S o).links ≠ [] := by
  obtain ⟨k, hk⟩ := hids o
  rcases (hquiet.delivered o k hk z).cases_head with rfl | ⟨y, ⟨ip, hip, -⟩, -⟩
  · exact absurd rfl hz
  · intro hnil
    simp [Setup.dstAddrs, hnil] at hip

/-- In a quiet network every router has what the others last announced. -/
theorem Quiet.settled (hS : Deployed S W d0) (hrun : WiredRun S W tr s)
    (hclock : ClocksMove S (tr.map Trace.Step.routers)) (hnews : ∀ st ∈ tr, NoNewsOfAny S d0 st)
    (hlinks : ∀ o z, z ≠ o → (S o).links ≠ [])
    (hquiet : Quiet S W s) : Settled S d0 s := by
  intro o k ho z hz
  obtain ⟨φ, hled⟩ := hS.led ho hrun hclock hnews
  obtain ⟨last, hlast, -, hne⟩ := hS.changed hrun hquiet.up (hlinks o z hz)
  have hpath := hquiet.delivered o k ho z
  refine hled.settled hz (Relation.ReflTransGen.mono (fun v w hvw => ?_) _ _ hpath) rfl
    ⟨last, List.mem_cons_of_mem _ (List.mem_of_getLast? hlast), hne⟩
  obtain ⟨ip, hip, howner, hnone⟩ := hvw
  exact ⟨⟨(v, ip), hip⟩, rfl, howner, ofNode_nil hnone⟩

/-- It stays so while the links stay up, although LSAs are on their way again. -/
theorem Settled.step (hS : Deployed S W d0) (hlinks : ∀ o z, z ≠ o → (S o).links ≠ [])
    (hrun : WiredRun S W tr s) (h : WiredAllowed S W s e ∧ wiredStep S e s = .ok s')
    (hclock : ClocksMove S ((tr ++ [Trace.Step.mk s e s']).map Trace.Step.routers))
    (hnews : ∀ st ∈ tr ++ [{ before := s, event := e, after := s' }], NoNewsOfAny S d0 st)
    (hup : ∀ i, AllUp (s.net i).this) (hup' : ∀ i, AllUp (s'.net i).this) (hset : Settled S d0 s) :
    Settled S d0 s' := by
  intro o k ho z hz
  have hbefore : ClocksMove S (tr.map Trace.Step.routers) := by
    rw [List.map_append] at hclock
    exact hclock.before
  have hnews' : NoNews o k (d0 o).this.node { before := s, event := e, after := s' } :=
    hnews _ (List.mem_append_right _ (List.mem_singleton_self _)) o k ho
  obtain ⟨φ, hled⟩ := hS.led ho hrun hbefore fun st hst => hnews st (List.mem_append_left _ hst)
  rcases Wired.flood_step ho (fun _ hy => hS.ids (hy.trans ho.symm)) hS.wiring (hS.start o) (hclock o)
    hrun h hnews' with hsame | hstep
  · rw [hsame]
    exact hset o k ho z hz
  · refine hstep.settled sameContent_equivalence hled hz (hset o k ho z hz) fun y hy => ?_
    obtain ⟨last, hlast, hlastUp, -⟩ := hS.changed hrun hup (hlinks o z hz)
    obtain ⟨hsteps, hother, -⟩ := WiredRun.stepped h
    have horig : (s'.net o).originated = (s.net o).originated ∨
        ∃ r, (s'.net o).originated = (s.net o).originated ++ [r] := by
      by_cases ho' : o = e.router
      · subst ho'
        obtain ⟨-, horig | ⟨t, now, -, -, -, horig⟩⟩ := hsteps.originated
        · exact Or.inl horig
        · exact Or.inr ⟨_, horig⟩
      · rw [hother o ho']
        exact Or.inl rfl
    rcases List.mem_cons.mp hy with rfl | hy
    · exact Or.inl List.mem_cons_self
    · rcases horig with horig | ⟨r, horig⟩
      · rw [horig] at hy
        exact Or.inl (List.mem_cons_of_mem _ hy)
      · rw [horig] at hy
        rcases List.mem_append.mp hy with hy | hy
        · exact Or.inl (List.mem_cons_of_mem _ hy)
        · -- what is announced now shows links that are up, as what was announced last
          obtain rfl := List.mem_singleton.mp hy
          refine Or.inr fun last' hlast' => ?_
          rw [published_getLast hlast, Option.mem_some_iff] at hlast'
          subst hlast'
          have hyUp := (Run.upRecord (hS.build o) ((WiredRun.fleet (hrun.step h)).alone o)
            (hup' o)).2 y (by rw [horig, List.getLast?_concat]; rfl)
          exact hlastUp.sameContent hyUp

/-- A router that has just stamped its own record then has the whole network in its graph. -/
theorem Settled.complete (hS : Deployed S W d0) (hlinks : ∀ o z, z ≠ o → (S o).links ≠ [])
    (hrun : WiredRun S W tr s) (hclock : ClocksMove S (tr.map Trace.Step.routers))
    (hnews : ∀ st ∈ tr, NoNewsOfAny S d0 st) (hup : ∀ i, AllUp (s.net i).this)
    (hset : Settled S d0 s) (hk : (S z).id = (k : ℕ) + 1)
    (hown : (s.net z).graph k = (s.net z).this.node) : Complete S (s.net z).graph where
  closed := (FleetRun.sound (WiredRun.fleet hrun) z).closed
  only j hj := by
    obtain ⟨o, ho, -⟩ := FleetRun.genuine (WiredRun.fleet hrun) j _ (.stored z hj rfl)
    exact ⟨o, ho⟩
  seen o j ho := by
    by_cases hoz : o = z
    · subst hoz
      obtain rfl : j = k := Fin.ext (by omega)
      have halone := (WiredRun.fleet hrun).alone o
      rw [hown]
      exact ⟨(Run.linked halone).seen, (Run.upRecord (hS.build o) halone (hup o)).1⟩
    · have hzo : z ≠ o := fun h => hoz h.symm
      obtain ⟨last, hlast, hlastUp, -⟩ := hS.changed hrun hup (hlinks o z hzo)
      obtain ⟨φ, hled⟩ := hS.led ho hrun hclock hnews
      obtain ⟨x, hx, hcontent⟩ := hled.last_of_settled sameContent_equivalence hzo (hset o j ho z hzo)
        (published_getLast hlast)
      have hheld : seenRecord ((s.net z).graph j) = some x := by
        rw [← hx]
        exact (if_neg hzo).symm
      unfold seenRecord at hheld
      split at hheld
      · refine ⟨‹_›, hlastUp.of_sameContent ?_⟩
        rw [Option.some.inj hheld]
        exact hcontent
      · cases hheld

variable [IsStrictOrderedRing M]

/-- The invariant from a quiet state on: a router that has recomputed its next hops since then has them
    from a graph that shows the whole network. -/
structure Steady (S : ι → Setup M) (d0 : ι → Daemon M)
    (tr : List (Trace.Step (Wired ι M) (Arrival ι M))) (s : Wired ι M) : Prop where
  up : ∀ i, AllUp (s.net i).this
  settled : Settled S d0 s
  routes : ∀ i, (∃ st ∈ tr, st.event.router = i ∧ st.event.event.active = .recomputationTimer) →
    ∃ g, Complete S g ∧ pathfind .dtlsr g (S i).id = .ok (s.net i).nextHops

omit [IsStrictOrderedRing M] in
theorem Steady.step (hS : Deployed S W d0) (hlinks : ∀ o z, z ≠ o → (S o).links ≠ [])
    (hrun : WiredRun S W tr s) (h : WiredAllowed S W s e ∧ wiredStep S e s = .ok s')
    (hclock : ClocksMove S ((tr ++ [Trace.Step.mk s e s']).map Trace.Step.routers))
    (hnews : ∀ st ∈ tr ++ [{ before := s, event := e, after := s' }], NoNewsOfAny S d0 st)
    (hup' : ∀ i, AllUp (s'.net i).this) (hs : Steady S d0 tr' s) :
    Steady S d0 (tr' ++ [{ before := s, event := e, after := s' }]) s' := by
  have hset' := hs.settled.step hS hlinks hrun h hclock hnews hs.up hup'
  refine ⟨hup', hset', fun i hi => ?_⟩
  have hl := Run.linked ((WiredRun.fleet hrun).alone i)
  obtain ⟨hsteps, hother, -⟩ := WiredRun.stepped h
  have hbefore : (¬∃ st ∈ tr', st.event.router = i ∧ st.event.event.active = .recomputationTimer) →
      e.router = i ∧ e.event.active = .recomputationTimer := by
    obtain ⟨st, hst, hevent⟩ := hi
    intro hnone
    rcases List.mem_append.mp hst with hst | hst
    · exact absurd ⟨st, hst, hevent⟩ hnone
    · rw [List.mem_singleton.mp hst] at hevent
      exact hevent
  by_cases hie : i = e.router
  · subst hie
    obtain ⟨k, hk⟩ := hl.self
    rcases hsteps.recomputes (hS.build _) hl hk with ⟨hne, hhops⟩ | ⟨hpath, hown⟩
    · rw [hhops]
      by_contra hn
      exact hne (hbefore fun hold => hn (hs.routes _ hold)).2
    · exact ⟨_, hset'.complete hS hlinks (hrun.step h) hclock hnews hup' hk hown, hpath⟩
  · rw [hother i hie]
    by_contra hn
    exact hie (hbefore fun hold => hn (hs.routes _ hold)).1.symm

/-- A settled network delivers. From a quiet state on, whatever the interleaving, as long as no link goes
    down: when every router has recomputed its next hops, they lead from any router to any node that
    the configured links lead to, along a path of the fewest links. -/
theorem settled_network_delivers (hS : Deployed S W d0) (hrun : WiredRun S W tr s)
    (hquiet : Quiet S W s) (hrun' : WiredFrom S W s tr' s')
    (hclock : ClocksMove S ((tr ++ tr').map Trace.Step.routers))
    (hnews : ∀ st ∈ tr ++ tr', NoNewsOfAny S d0 st)
    (hstay : ∀ st ∈ tr', ∀ i, AllUp (st.after.net i).this)
    (hrecompute : ∀ i, ∃ st ∈ tr', st.event.router = i ∧
      st.event.event.active = .recomputationTimer) {u d : Fin maxNodeNum}
    (hreach : Relation.ReflTransGen (Adjacent S) u d) : ∃ path : List (Fin maxNodeNum),
      path.head? = some u ∧ path.getLast? = some d ∧ path.Nodup ∧ path.IsChain (Adjacent S) ∧
      path.IsChain (NextHop S (fun i => (s'.net i).nextHops) d) ∧
      ∀ l : List (Fin maxNodeNum), l.head? = some u → l.getLast? = some d → l.IsChain (Adjacent S) →
        path.length ≤ l.length := by
  have hself : ∀ i, ∃ k : Fin maxNodeNum, (S i).id = (k : ℕ) + 1 := fun i =>
    (startUp_linked (hS.start i)).1.self
  have hlinks : ∀ o z, z ≠ o → (S o).links ≠ [] := fun o z hz => hquiet.links hself hz
  have hsteady : Steady S d0 tr' s' := by
    refine (hrun'.invariant (I := fun tr' s' => ClocksMove S ((tr ++ tr').map Trace.Step.routers) →
      (∀ st ∈ tr ++ tr', NoNewsOfAny S d0 st) → (∀ st ∈ tr', ∀ i, AllUp (st.after.net i).this) →
        WiredRun S W (tr ++ tr') s' ∧ Steady S d0 tr' s') ?_ ?_ hclock hnews hstay).2
    · rintro _ rfl hclock hnews -
      rw [List.append_nil] at hclock hnews ⊢
      refine ⟨hrun, hquiet.up, hquiet.settled hS hrun hclock hnews hlinks, fun i hi => ?_⟩
      obtain ⟨st, hst, -⟩ := hi
      cases hst
    · intro tr' s1 e s2 _ ih h hclock hnews hstay
      rw [← List.append_assoc] at hclock hnews ⊢
      have hbefore : ClocksMove S ((tr ++ tr').map Trace.Step.routers) := by
        rw [List.map_append] at hclock
        exact hclock.before
      obtain ⟨hrun1, hs1⟩ := ih hbefore (fun st hst => hnews st (List.mem_append_left _ hst))
        fun st hst => hstay st (List.mem_append_left _ hst)
      exact ⟨hrun1.step h, hs1.step hS hlinks hrun1 h hclock hnews
        (hstay _ (List.mem_append_right _ (List.mem_singleton_self _)))⟩
  exact Complete.followed (fun i => hsteady.routes i (hrecompute i)) hreach

end Fleet

/-! ### Two routers and a host -/

instance {M : Type} (t : LocalNode M) : Decidable (AllUp t) := by
  unfold AllUp; infer_instance

/-- Router 1 is linked to router 2, and router 2 to host 3. -/
def withHost (second : Bool) : Setup ℚ :=
  let row (src dst : Ip) (dstId : ℤ) : LinkRow :=
    { interface := "eth0", srcAddr := src, dstAddr := dst, dstId }
  { twoLinks .dtlsr (coarse 4) (pure false) with
    id := if second then 2 else 1
    links := if second then [row (inetAddr 10 0 0 2) (inetAddr 10 0 0 1) 1,
        row (inetAddr 10 0 1 2) (inetAddr 10 0 1 3) 3]
      else [row (inetAddr 10 0 0 1) (inetAddr 10 0 0 2) 2] }

/-- No router has the address of the host. -/
def hostWiring : Wiring Bool where
  owner ip := ip != inetAddr 10 0 0 1
  via i ip := ((withHost i).links.find? fun row => row.dstAddr = ip).elim 0 LinkRow.srcAddr

theorem withHost_starts (i : Bool) : (startUp (withHost i)).toOption.isSome = true := by
  revert i
  decide +kernel

def hostStart (i : Bool) : Daemon ℚ := (startUp (withHost i)).toOption.get (withHost_starts i)

def hostAtStart : Wired Bool ℚ where
  net := hostStart
  wire _ := []

/-- The heartbeats that a router gets, one over each link. -/
def hostBeats (i : Bool) : List (Event ℚ) :=
  (withHost i).dstAddrs.map fun ip => quietly (.heartbeat ip)

/-- The LSAs that a router sends while its links come up. -/
def hostLsas (i : Bool) : List (Node ℚ) :=
  ((runEvents (withHost i) (hostBeats i)).bind List.getLast?).elim [] fun st => st.after.originated

/-- Router `i` gets the LSAs of the other router over `link`. -/
def hostReceives (i : Bool) (link : Bool × Ip) : List (Arrival Bool ℚ) :=
  (hostLsas !i).map fun lsa =>
    { router := i
      event := quietly (.routerLsa lsa (hostWiring.via link.1 link.2))
      link }

/-- All links come up, and the LSAs of each router reach the other. -/
def hostSettles : List (Arrival Bool ℚ) :=
  ([false, true].flatMap fun i => (hostBeats i).map fun event =>
    { router := i, event, link := (false, 0) }) ++
  hostReceives true (false, inetAddr 10 0 0 2) ++ hostReceives false (true, inetAddr 10 0 0 1)

/-- The recomputation timers expire. -/
def hostRecomputes : List (Arrival Bool ℚ) :=
  [false, true].map fun i => { router := i, event := quietly .recomputationTimer, link := (false, 0) }

instance (s : Wired Bool ℚ) (e : Arrival Bool ℚ) :
    Decidable (WiredAllowed withHost hostWiring s e) := by
  unfold WiredAllowed
  split <;> infer_instance

theorem hostWiring_sound : hostWiring.Sound withHost := by
  have hall : ∀ i, ((withHost i).dstAddrs.all fun ip =>
      ip ≠ 0 ∧ hostWiring.owner (hostWiring.via i ip) = i) = true := by decide
  have hlink : ∀ i, ∀ ip ∈ (withHost i).dstAddrs, ip ≠ 0 ∧ hostWiring.owner (hostWiring.via i ip) = i :=
    fun i ip hip => of_decide_eq_true (List.all_eq_true.mp (hall i) ip hip)
  exact ⟨fun i ip hip => (hlink i ip hip).1, fun i ip hip => (hlink i ip hip).2⟩

theorem withHost_deployed : Deployed withHost hostWiring hostStart where
  build _ := rfl
  ids i j h := by cases i <;> cases j <;> first | rfl | simp [withHost] at h
  wiring := hostWiring_sound
  start _ := ok_of_toOption (Option.some_get _).symm

theorem withHost_events : hostSettles.length = 6 ∧ ∀ e ∈ hostSettles ++ hostRecomputes, ∀ others,
    e.event.active ≠ .networkLsa others := by
  refine ⟨by decide +kernel, fun e he others => ?_⟩
  simp only [hostSettles, hostBeats, hostReceives, hostRecomputes, quietly, List.mem_append, List.mem_map,
    List.mem_flatMap] at he
  rcases he with ((⟨i, -, event, ⟨ip, -, rfl⟩, rfl⟩ | ⟨lsa, -, rfl⟩) | ⟨lsa, -, rfl⟩) | ⟨i, -, rfl⟩ <;>
    nofun

/-- The host is two links from router 1. -/
theorem settled_network_delivers_withHost : ∃ tr s tr' s', WiredRun withHost hostWiring tr s ∧
    WiredFrom withHost hostWiring s tr' s' ∧ ∃ path : List (Fin maxNodeNum), path.head? = some 0 ∧
      path.getLast? = some 2 ∧ path.IsChain (NextHop withHost (fun i => (s'.net i).nextHops) 2) := by
  obtain ⟨hsix, hevent⟩ := withHost_events
  have hstart : WiredStart withHost hostAtStart := ⟨withHost_deployed.start, rfl⟩
  obtain ⟨all, s', hrun, hevents, ⟨st, hst, hup, hone, htwo⟩, hstay, hmoves⟩ := Trace.exists_follow
    (A := WiredAllowed withHost hostWiring) (f := wiredStep withHost) hstart
    (hostSettles ++ hostRecomputes)
    (P := fun tr => (∃ st ∈ tr[5]?, (∀ i, AllUp (st.after.net i).this) ∧
        st.after.wire (false, inetAddr 10 0 0 2) = [] ∧
        st.after.wire (true, inetAddr 10 0 0 1) = []) ∧
      (∀ st ∈ tr.drop 6, ∀ i, AllUp (st.after.net i).this) ∧
      ∀ i, ∀ st ∈ stepsOf i (tr.map Trace.Step.routers), LinksChanged st →
        coarse 4 (st.before.ticks - 1) < coarse 4 st.before.ticks) (by decide +kernel)
  have hcut : all.take 6 ++ all.drop 6 = all := List.take_append_drop 6 all
  obtain ⟨s, hrun, hrun'⟩ := (hcut ▸ hrun : WiredRun withHost hostWiring _ s').split
  have hs : s = st.after := by
    obtain ⟨h5, hget⟩ := List.getElem?_eq_some_iff.mp hst
    rw [List.take_succ_eq_append_getElem h5, hget] at hrun
    exact hrun.last
  have hquiet : Quiet withHost hostWiring s := by
    rw [hs]
    refine ⟨hup, fun o k _ z => ?_⟩
    have hto : ∀ i, Delivered withHost hostWiring k st.after i (!i) := by
      intro i
      cases i
      · exact ⟨inetAddr 10 0 0 2, by decide, by decide, by simp [hone]⟩
      · exact ⟨inetAddr 10 0 0 1, by decide, by decide, by simp [htwo]⟩
    by_cases hzo : z = o
    · rw [hzo]
    · exact .single (Bool.eq_not_of_ne hzo ▸ hto o)
  have hnews : ∀ st ∈ all.take 6 ++ all.drop 6, NoNewsOfAny withHost hostStart st := by
    intro st hst o k _ _ others hn
    rw [hcut] at hst
    exact absurd hn (hevent _ (hevents ▸ List.mem_map_of_mem hst) others)
  have hclock : ClocksMove withHost ((all.take 6 ++ all.drop 6).map Trace.Step.routers) := by
    rw [hcut]
    exact fun i => ⟨coarse_mono 4, hmoves i⟩
  have hlast : (all.drop 6).map Trace.Step.event = hostRecomputes := by
    rw [List.map_drop, hevents, ← hsix, List.drop_left]
  have hrecompute : ∀ i, ∃ st ∈ all.drop 6, st.event.router = i ∧
      st.event.event.active = .recomputationTimer := by
    intro i
    have hmem : { router := i, event := quietly .recomputationTimer, link := (false, 0) } ∈
        (all.drop 6).map Trace.Step.event := by
      rw [hlast, hostRecomputes, List.mem_map]
      exact ⟨i, by cases i <;> simp, rfl⟩
    obtain ⟨st, hst, heq⟩ := List.mem_map.mp hmem
    exact ⟨st, hst, by rw [heq], by rw [heq]; rfl⟩
  have hreach : Relation.ReflTransGen (Adjacent withHost) 0 2 :=
    .tail (.single (b := 1) ⟨false, rfl, _, List.mem_singleton_self _, rfl⟩)
      ⟨true, rfl, _, List.mem_cons_of_mem _ (List.mem_singleton_self _), rfl⟩
  obtain ⟨path, hhead, hend, -, -, hhops, -⟩ := settled_network_delivers withHost_deployed hrun hquiet
    hrun' hclock hnews hstay hrecompute hreach
  exact ⟨_, s, _, s', hrun, hrun', path, hhead, hend, hhops⟩

end Dtlsr
