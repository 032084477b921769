import Mathlib.Tactic.Positivity
import Dtlsr.Drains
import Dtlsr.Exchange
import Dtlsr.KernelRoutes
import Dtlsr.LinkAgree
import Dtlsr.NullSlots
import Dtlsr.Provenance
import Dtlsr.Replays
import Dtlsr.Routes
import Dtlsr.Stranded

/-!
    No router of a network stops. What the functions index, dereference and assert is in order in every
    state that the routers reach together, since each message was sent by one of them; the one fault that
    is left is the comparison with an empty slot of `down_ifaces`. The lengths of the command texts are
    not part of this. -/

namespace Dtlsr
open Checked

/-! ### Metrics that are not negative -/

section Metrics
variable {M : Type} [Zero M] [LE M]

/-- No link in use has a negative metric. -/
def Node.NonnegMetrics (r : Node M) : Prop :=
  ∀ i : Fin maxNodeFan, ((i : ℕ) : ℤ) < r.nNeighbours → 0 ≤ r.linkMetrics i

/-- The seen records have no negative metric. -/
def NonnegSeen (g : Graph M) : Prop := ∀ k, (g k).state = .nodeSeen → (g k).NonnegMetrics

theorem Untouched.nonneg {old new : Node M} (h : Untouched old new)
    (hold : old.state = .nodeSeen → old.NonnegMetrics) (hs : new.state = .nodeSeen) :
    new.NonnegMetrics := by
  by_cases hseen : old.state = .nodeSeen
  · rw [h.seen hseen]
    exact hold hseen
  · exact absurd hs (h.unseen hseen)

end Metrics

section Power
variable {M : Type} [Field M] [LinearOrder M] [Libm M] {S : Setup M} {t : LocalNode M} {now : ℕ}

/-- `pow` with the exponent of the metrics, an even number by default, is not negative. -/
def NonnegPow (S : Setup M) : Prop := S.build = .dtlsr → ∀ x, 0 ≤ Libm.pow x S.hist.power

variable [IsStrictOrderedRing M]

theorem linkMetric_nonneg (hpow : NonnegPow S) (i : Fin maxNodeFan) :
    0 ≤ linkMetric S.build S.hist t now i := by
  unfold linkMetric
  cases hb : S.build with
  | lsr => exact zero_le_one
  | dtlsr =>
    have hbool : ∀ ls, (0 : M) ≤ linkStateToBool ls := by
      intro ls
      cases ls <;> simp [linkStateToBool]
    have hup : 0 ≤ tsWeightedAverageUptime S.hist (t.lsTimeSeries i) now := by
      unfold tsWeightedAverageUptime
      split
      · exact hbool _
      · exact hpow hb _
    dsimp only
    unfold tsComputeMetric
    split
    · exact zero_le_one
    · positivity

theorem updateMetrics_nonneg (hpow : NonnegPow S) :
    (localNodeUpdateMetrics S.build S.hist t now).node.NonnegMetrics := by
  intro i hi
  have heq : (localNodeUpdateMetrics S.build S.hist t now).node.linkMetrics i =
      linkMetric S.build S.hist t now i := if_pos hi
  rw [heq]
  exact linkMetric_nonneg hpow i

/-- What a router may be sent: a router LSA that `merge_in_node` can index, and metrics that are not
    negative. -/
def Message.Fit {M : Type} [Zero M] [LE M] : Message M → Prop
  | .routerLsa lsa => lsa.InBounds ∧ (∃ k : Fin maxNodeNum, lsa.id = (k : ℕ) + 1) ∧ lsa.NonnegMetrics
  | .networkLsa graph => NonnegSeen graph
  | .networkLsaRequest => True

/-- A write keeps the metrics of the seen records from being negative. -/
theorem GraphWrite.nonneg {a : Active M} {g g' : Graph M} (h : GraphWrite S a t g g')
    (hl : Linked S t) (hpow : NonnegPow S) (hg : NonnegSeen g)
    (hnode : ∀ lsa source, a = .routerLsa lsa source → lsa.state = .nodeSeen ∧ lsa.NonnegMetrics)
    (hgraph : ∀ others, a = .networkLsa others → NonnegSeen others) : NonnegSeen g' := by
  cases h with
  | same => exact hg
  | own t1 t2 now _ links call =>
    have hl1 := hl.of_sameLinks links
    intro k hk
    by_cases hid : t1.node.id = (k : ℕ) + 1
    · obtain ⟨hown, ht2⟩ := updateGlobalThis_own hl1.seen hid call
      rw [hown, ht2]
      exact updateMetrics_nonneg hpow
    · exact (updateGlobalThis_untouched hid call).nonneg (hg k) hk
  | node lsa source u _ event call =>
    obtain ⟨hseen, hmetrics⟩ := hnode lsa source event
    intro k hk
    by_cases hid : lsa.id = (k : ℕ) + 1
    · obtain ⟨j, hj, -, hentry, -, -⟩ := mergeInNode_entries hseen call
      obtain rfl : k = j := Fin.ext (by omega)
      rcases mergedEntry_cases (g k) lsa with hkeep | ⟨htake, -⟩
      · rw [hentry, hkeep] at hk ⊢
        exact hg k hk
      · rw [hentry, htake]
        exact hmetrics
    · exact (mergeInNode_untouched hid call).nonneg (hg k) hk
  | graph others u _ event call =>
    intro k hk
    rcases mergeInGraph_cases call k with ⟨hkeep, -⟩ | ⟨htake, -⟩
    · rw [hkeep] at hk ⊢
      exact hg k hk
    · rw [htake] at hk ⊢
      exact hgraph others event k hk

/-- What an iteration sends is fit to be received. -/
theorem CanSend.fit {a : Active M} {g : Graph M} {m : Message M} (h : CanSend S a t g m)
    (hl : Linked S t) (hpow : NonnegPow S) (hg : NonnegSeen g)
    (hnode : ∀ lsa source, a = .routerLsa lsa source → (Message.routerLsa lsa).Fit) : m.Fit := by
  cases h with
  | own t1 now links =>
    have hl1 := hl.of_sameLinks (links.trans (localNodeUpdateMetrics_sameLinks (b := S.build)
      (p := S.hist) t1 now))
    obtain ⟨k, hk⟩ := hl1.self
    exact ⟨hl1.bounds, ⟨k, hl1.id.trans hk⟩, updateMetrics_nonneg hpow⟩
  | passedOn lsa source event => exact hnode lsa source event
  | snapshot => exact hg
  | request => trivial

end Power

/-! ### The parts of an iteration return -/

section Capture
variable {M : Type} {this : LocalNode M} {iface : String} {c : Capture}

theorem capturePackets_returns (hfan : this.node.FanOk)
    (hlen : this.node.nNeighbours = c.capInfos.length) : ∃ c', capturePackets this c = .ok c' := by
  obtain ⟨c', hc', -⟩ := forUpto_ensures (n := this.node.nNeighbours) (s := c) (f := fun i c => do
      let info ← cell c.capInfos i
      let status ← read this.node.linkStatuses i
      let c := info.queue.foldl (dumpPacket status) c
      pure { c with capInfos := c.capInfos.set i { info with queue := [] } })
    (fun _ t => t.capInfos.length = c.capInfos.length) rfl fun i t hi ht => by
      have hlt : i < t.capInfos.length := by omega
      rw [cell_of_lt hlt, ok_bind, read_of_lt _ (hfan.lt hi), ok_bind]
      exact Ensures.ok (by simp [(dispatch_spec _ _ _).1, ht])
  exact ⟨c', hc'⟩

/-- A search over slots returns if every comparison that it makes does. -/
theorem firstCell_returns {α : Type} {p : α → Exec Bool} : ∀ {l : List α},
    (∀ x ∈ l, ∃ b, p x = .ok b) → ∃ r, firstCell p l = .ok r
  | [], _ => ⟨none, rfl⟩
  | x :: l, h => by
    obtain ⟨b, hb⟩ := h x List.mem_cons_self
    cases b with
    | true => exact ⟨_, firstCell_hit hb l⟩
    | false =>
      obtain ⟨r, hr⟩ := firstCell_returns fun y hy => h y (List.mem_cons_of_mem x hy)
      exact ⟨r.map (· + 1), by rw [firstCell_miss hb, hr]; rfl⟩

/-- `capture_end_iface` returns, if its search ends before an empty slot or may compare with one. -/
theorem captureEndIface_returns {strcmpNull : Exec Bool} (hfan : this.node.FanOk)
    (hlen : this.node.nNeighbours = c.capInfos.length)
    (hslots : this.node.nNeighbours = c.downIfaces.length)
    (hsearch : c.nDownIfaces ≠ 0 → none ∈ c.downIfaces → ¬Slots.Ahead iface c.downIfaces →
      ∃ b, strcmpNull = .ok b) : ∃ c', captureEndIface strcmpNull this iface c = .ok c' := by
  unfold captureEndIface
  split
  · exact ⟨c, rfl⟩
  · rename_i hn
    have hfound : ∃ r, downIfaceIdx strcmpNull this iface c.downIfaces = .ok r := by
      rw [downIfaceIdx_eq hslots]
      by_cases hahead : Slots.Ahead iface c.downIfaces
      · obtain ⟨r, hr⟩ := firstCell_ahead hahead
        exact ⟨r, hr _⟩
      · refine firstCell_returns fun slot hslot => ?_
        cases slot with
        | none => exact hsearch hn hslot hahead
        | some name => exact ⟨_, ifaceMatches_some⟩
    obtain ⟨r, hr⟩ := hfound
    rw [hr, ok_bind]
    refine capturePackets_returns hfan ?_
    rw [hlen]
    cases r <;> dsimp only <;> split <;> rfl

theorem setFilter_returns (hops : HopTable) (h : FilterText.DownSlots this c.downIfaces)
    (hlen : this.node.nNeighbours = c.capInfos.length) {i : ℕ} (hi : (i : ℤ) < this.node.nNeighbours) :
    ∃ c', setFilter this hops i c = .ok c' ∧ c'.capInfos.length = c.capInfos.length ∧
      c'.downIfaces = c.downIfaces := by
  have hlt : i < c.capInfos.length := by omega
  unfold setFilter
  rw [cell_of_lt hlt, ok_bind, FilterText.generateIncomingFilterExp_eq h, ok_bind]
  exact ⟨_, rfl, by simp, rfl⟩

theorem downSlots_of_same {t t' : LocalNode M} {downIfaces : List (Option String)}
    (h : FilterText.DownSlots t downIfaces) (hcount : t'.node.nNeighbours = t.node.nNeighbours)
    (hifaces : t'.interfaces = t.interfaces) : FilterText.DownSlots t' downIfaces where
  fan := by
    unfold Node.FanOk
    rw [hcount]
    exact h.fan
  length := by rw [hcount, h.length]
  ifaces name hname := by
    rw [hcount, hifaces]
    exact h.ifaces name hname

/-- The interface of a link may take a slot. -/
theorem downSlots_set (h : FilterText.DownSlots this c.downIfaces) (i : ℕ) (hiface : ∃ j : Fin maxNodeFan,
    ((j : ℕ) : ℤ) < this.node.nNeighbours ∧ this.interfaces j = iface) :
    FilterText.DownSlots this (c.downIfaces.set i (some iface)) where
  fan := h.fan
  length := by rw [List.length_set, h.length]
  ifaces name hname := by
    rcases List.mem_or_eq_of_mem_set hname with hold | hnew
    · exact h.ifaces name hold
    · obtain rfl := Option.some.inj hnew
      exact hiface

theorem captureStartIface_returns (hops : HopTable) (h : FilterText.DownSlots this c.downIfaces)
    (hlen : this.node.nNeighbours = c.capInfos.length) (hiface : ∃ j : Fin maxNodeFan,
      ((j : ℕ) : ℤ) < this.node.nNeighbours ∧ this.interfaces j = iface) :
    ∃ c', captureStartIface this iface hops c = .ok c' := by
  have hslots := h.length
  obtain ⟨free, hfree⟩ := firstIdx_ensures (n := this.node.nNeighbours)
    (p := fun i => do pure (← cell c.downIfaces i).isNone) fun i hi =>
      ⟨_, by rw [cell_of_lt (by omega), ok_bind]; rfl⟩
  unfold captureStartIface
  dsimp only
  rw [hfree, ok_bind]
  have hloop : ∀ c1 : Capture, FilterText.DownSlots this c1.downIfaces →
      this.node.nNeighbours = c1.capInfos.length →
      ∃ c2, forUpto this.node.nNeighbours c1 (setFilter this hops) = .ok c2 := by
    intro c1 hslots1 hlen1
    obtain ⟨c2, hc2, -⟩ := forUpto_ensures (n := this.node.nNeighbours) (s := c1)
      (f := setFilter this hops) (fun _ t => t.capInfos.length = c1.capInfos.length ∧
        t.downIfaces = c1.downIfaces) ⟨rfl, rfl⟩ fun i t hi ⟨ht, hd⟩ => by
        obtain ⟨t', ht', hlen', hdown'⟩ := setFilter_returns hops (by rw [hd]; exact hslots1)
          (by rw [ht, hlen1]) hi
        exact ⟨t', ht', hlen'.trans ht, hdown'.trans hd⟩
    exact ⟨c2, hc2⟩
  cases free with
  | none =>
    obtain ⟨c2, hc2⟩ := hloop { c with isCapturing := true } h hlen
    dsimp only
    rw [hc2]
    exact ⟨_, rfl⟩
  | some i =>
    obtain ⟨c2, hc2⟩ := hloop
      { c with isCapturing := true, downIfaces := c.downIfaces.set i (some iface) }
      (downSlots_set h i hiface) hlen
    dsimp only
    rw [hc2]
    exact ⟨_, rfl⟩

end Capture

section History
variable {M : Type} {t : LocalNode M} {ts ts' : LSTimeSeries} {i : Fin maxNodeFan} {now : ℕ}

theorem toggleHistory_returns (now : ℕ) (h : (t.lsTimeSeries i).front < tsSize) :
    ∃ t', toggleHistory t i now = .ok t' := by
  unfold toggleHistory tsToggleState
  rw [write_of_eq _ ⟨_, h⟩ rfl]
  exact ⟨_, rfl⟩

/-- The front of the ring stays in the ring. -/
theorem tsToggleState_front (h : tsToggleState ts now = .ok ts') : ts'.front < tsSize := by
  obtain ⟨timestamps, hwrite, h⟩ := bind_ok_iff.mp h
  obtain ⟨k, hk, -⟩ := write_ok_iff.mp hwrite
  cases h
  have hlt := k.isLt
  dsimp only
  split <;> omega

end History

section Parts
variable {M : Type} [Field M] {S : Setup M} {s : Daemon M}

/-- What an iteration relies on, next to the links and the graph. -/
structure Fit [LE M] (S : Setup M) (s : Daemon M) : Prop where
  metrics : NonnegSeen s.graph
  sent : ∀ m ∈ s.sent, m.2.Fit
  histories : S.build = .dtlsr → ∀ i : Fin maxNodeFan, (i : ℕ) < S.links.length →
    (s.this.lsTimeSeries i).front < tsSize
  handles : S.build = .dtlsr → s.capture.capInfos.length = S.links.length
  slots : S.build = .dtlsr → FilterText.DownSlots s.this s.capture.downIfaces
  upIface : s.replayTimer.armed = true → ∃ j : Fin maxNodeFan,
    ((j : ℕ) : ℤ) < s.this.node.nNeighbours ∧ s.upIface = some (s.this.interfaces j)

/-- `capture_end_iface` is called for the link that comes up, and its search meets an empty slot. -/
def ComparesNull (S : Setup M) (s : Daemon M) (a : Active M) : Prop :=
  S.build = .dtlsr ∧ ∃ source i, a = .heartbeat source ∧ risingLink s.this source = some i ∧
    s.capture.nDownIfaces ≠ 0 ∧ none ∈ s.capture.downIfaces ∧
      ¬Slots.Ahead (s.this.interfaces i) s.capture.downIfaces

omit [Field M] in
theorem runUpdateRoutingTable_returns (hfan : s.this.node.FanOk) :
    ∃ s', runUpdateRoutingTable s = .ok s' := by
  obtain ⟨s', hs'⟩ := tablesStep_returns (e := (s.this, s.nextHops)) hfan
    { currRoutes := s.currRoutes, kernel := ∅, calls := [] }
  obtain ⟨⟨routes, calls⟩, hcalls, -⟩ := bind_ok_iff.mp hs'
  unfold runUpdateRoutingTable
  rw [hcalls]
  exact ⟨_, rfl⟩

theorem waitEvent_returns [LE M] (hl : Linked S s.this) (hf : Fit S s) (arrived : List (ℕ × Packet)) :
    ∃ s', waitEvent S arrived s = .ok s' := by
  unfold waitEvent
  cases hb : S.build with
  | lsr => exact ⟨s, rfl⟩
  | dtlsr =>
    obtain ⟨c, hc⟩ := capturePackets_returns hl.bounds.fan (by rw [hl.count, hf.handles hb])
    dsimp only
    rw [hc]
    exact ⟨_, rfl⟩

theorem waitEvent_sameBooks {arrived : List (ℕ × Packet)} {s' : Daemon M} (hb : S.build = .dtlsr)
    (h : waitEvent S arrived s = .ok s') : SameBooks s.capture s'.capture := by
  obtain ⟨c, hc, hs'⟩ := (waitEvent_ok h).2 hb
  rw [hs']
  exact (capturePackets_sameBooks hc).trans (foldl_sameBooks arrive_sameBooks _ _)

/-- What arrives and is captured while the router waits changes nothing that an iteration relies on. -/
theorem Fit.wait [LE M] {arrived : List (ℕ × Packet)} {s' : Daemon M} (hl : Linked S s.this)
    (hf : Fit S s) (h : waitEvent S arrived s = .ok s') : Fit S s' := by
  obtain ⟨hs', hcapture⟩ := waitEvent_ok h
  rw [hs']
  refine ⟨hf.metrics, hf.sent, hf.histories, fun hb => ?_, fun hb => ?_, hf.upIface⟩
  · obtain ⟨c, hc, hs'⟩ := hcapture hb
    have hlen := hf.handles hb
    have hdrain := capturePackets_drains (by rw [hl.count, hlen]) (by
      have := hl.bounds.fan
      unfold Node.FanOk at this
      rw [hl.count] at this
      omega) hc
    rw [hs', (foldl_arrive_spec arrived c).2.1, hdrain.2, List.length_map, hlen]
  · dsimp only
    rw [(waitEvent_sameBooks hb h).downIfaces]
    exact hf.slots hb

variable [LinearOrder M]

theorem linkComesUp_returns {i : Fin maxNodeFan} (source : Ip) (hl : Linked S s.this)
    (hf : Fit S s) (hi : (i : ℕ) < S.links.length) (hnull : S.build = .dtlsr → s.capture.nDownIfaces ≠ 0 →
      none ∈ s.capture.downIfaces → ¬Slots.Ahead (s.this.interfaces i) s.capture.downIfaces →
        ∃ b, S.strcmpNull = .ok b) :
    ∃ s', linkComesUp S i { s with this := resetTimers s.this source } = .ok s' := by
  unfold linkComesUp
  cases hb : S.build with
  | lsr => exact ⟨_, rfl⟩
  | dtlsr =>
    obtain ⟨t, ht⟩ := toggleHistory_returns (t := setLinkStatus (resetTimers s.this source) i .linkUp)
      (S.clock s.ticks) (hf.histories hb i hi)
    have hsame := toggleHistory_sameLinks ht
    have hcount : t.node.nNeighbours = s.this.node.nNeighbours := hsame.nNeighbours
    have hname : t.interfaces i = s.this.interfaces i := by rw [hsame.interfaces]; rfl
    obtain ⟨c, hc⟩ : ∃ c, captureEndIface S.strcmpNull t (t.interfaces i) s.capture = .ok c :=
      captureEndIface_returns (by unfold Node.FanOk; rw [hcount]; exact hl.bounds.fan)
      (by rw [hcount, hl.count, hf.handles hb]) (by rw [hcount, (hf.slots hb).length])
      (by rw [hname]; exact hnull hb)
    dsimp only
    rw [ht, ok_bind, hc]
    exact ⟨_, rfl⟩

variable [Libm M]

theorem timeoutHeartbeat_returns (hl : Linked S s.this) (hf : Fit S s) (fd : Fd) :
    ∃ out, timeoutHeartbeat S fd s = .ok out := by
  unfold timeoutHeartbeat
  cases hlink : linkOfTimer s.this fd .linkUp with
  | none => exact ⟨_, rfl⟩
  | some i =>
    have hi : (i : ℕ) < S.links.length := by
      have := (linkOfTimer_some hlink).1
      rw [hl.count] at this
      omega
    have hdown : ∃ t, recordDown S i (setLinkStatus s.this i .linkDown) s.ticks = .ok t := by
      unfold recordDown
      cases hb : S.build with
      | lsr => exact ⟨_, rfl⟩
      | dtlsr => exact toggleHistory_returns _ (hf.histories hb i hi)
    obtain ⟨t, ht⟩ := hdown
    have hsame := recordDown_sameLinks ht
    obtain ⟨k, hk⟩ := hl.self
    dsimp only
    rw [ht, ok_bind, updateGlobalThis_eq (k := k)]
    · exact ⟨_, rfl⟩
    · rw [← hk, ← hl.id]
      exact hsame.id
    · refine ⟨?_, ?_⟩
      · unfold Node.FanOk
        dsimp only
        rw [hsame.nNeighbours]
        exact hl.bounds.fan
      · dsimp only
        rw [hsame.nNeighbours, hsame.neighbourIds]
        exact hl.bounds.ids

/-- What an event brings can be merged. -/
structure Receivable (a : Active M) : Prop where
  routerLsa : ∀ lsa source, a = .routerLsa lsa source →
    lsa.state = .nodeSeen ∧ (Message.routerLsa lsa).Fit
  networkLsa : ∀ others, a = .networkLsa others → Closed others ∧ NonnegSeen others

theorem handleEvent_returns {a : Active M} (hl : Linked S s.this) (hg : Closed s.graph) (hf : Fit S s)
    (hen : Enabled S a s) (ha : Receivable a)
    (hnull : ComparesNull S s a → ∃ b, S.strcmpNull = .ok b) :
    ∃ s' f, handleEvent S a s = .ok (s', f) := by
  cases a with
  | heartbeat source =>
    cases hr : risingLink s.this source with
    | none =>
      simp only [handleEvent, registerHeartbeat, hr]
      exact ⟨_, _, rfl⟩
    | some i =>
      have hi : (i : ℕ) < S.links.length := by
        have := (risingLink_some hr).1.1
        rw [hl.count] at this
        omega
      obtain ⟨s', hs'⟩ := linkComesUp_returns source hl hf hi
        fun hb h1 h2 h3 => hnull ⟨hb, source, i, rfl, hr, h1, h2, h3⟩
      simp only [handleEvent, registerHeartbeat, hr, hs', ok_bind]
      exact ⟨_, _, rfl⟩
  | routerLsa lsa source =>
    obtain ⟨hseen, hbounds, ⟨k, hk⟩, -⟩ := ha.routerLsa lsa source rfl
    simp only [handleEvent, receiveRouterLsa, mergeInNode_eq hseen hk hbounds, ok_bind]
    exact ⟨_, _, rfl⟩
  | networkLsa others =>
    obtain ⟨hothers, -⟩ := ha.networkLsa others rfl
    obtain ⟨out, hout⟩ : ∃ out, mergeInGraph s.graph others = .ok out := mergeInGraph_returns
      fun k hk _ => Or.inl (hg.bounds k hk).fan
    simp only [handleEvent, receiveNetworkLsa, hout, ok_bind]
    exact ⟨_, _, rfl⟩
  | replayTimer =>
    obtain ⟨hb, harmed⟩ := hen
    obtain ⟨j, hj, hup⟩ := hf.upIface harmed
    obtain ⟨j', hlink⟩ := FilterText.exists_linkOfIface ⟨j, hj, rfl⟩
    obtain ⟨c1, c2, h1, h2, -⟩ := replay_eq s.nextHops hlink s.capture
    simp only [handleEvent, hup, h1, h2, ok_bind]
    exact ⟨_, _, rfl⟩
  | timer i =>
    obtain ⟨out, hout⟩ := timeoutHeartbeat_returns hl hf (s.this.timers i).fd
    simp only [handleEvent, hout, ok_bind]
    exact ⟨_, _, rfl⟩
  | _ => exact ⟨_, _, rfl⟩

variable [FloorRing M] [IsStrictOrderedRing M]

theorem recomputeRoutes_returns (hpow : NonnegPow S) (hl : Linked S s.this) (hg : Closed s.graph)
    (hm : NonnegSeen s.graph) : ∃ s', recomputeRoutes S s = .ok s' := by
  have hl1 := hl.of_sameLinks (localNodeUpdateMetrics_sameLinks (b := S.build) (p := S.hist) s.this
    (S.clock s.ticks))
  obtain ⟨k, hk⟩ := hl1.self
  have hid := hl1.id.trans hk
  obtain ⟨⟨g, t⟩, hcall⟩ : ∃ out, updateGlobalThis S.build S.hist s.graph
      (localNodeUpdateMetrics S.build S.hist s.this (S.clock s.ticks)) (S.clock (s.ticks + 1)) =
        .ok out := ⟨_, updateGlobalThis_eq hid hl1.bounds⟩
  obtain ⟨hown, ht⟩ := updateGlobalThis_own hl1.seen hid hcall
  have hclosed := hg.updateGlobalThis hl1.seen hcall
  have hnonneg : NonnegSeen g := GraphWrite.nonneg (a := .idle)
    (.own _ _ _ _ (.refl _) hcall) hl1 hpow hm nofun nofun
  have hseen : (g k).state = .nodeSeen := by
    rw [hown, ht]
    exact hl1.seen
  obtain ⟨nodes, hops, -, hops_eq, -⟩ :=
    pathfind_ensures S.build ⟨hclosed.id, hclosed.bounds, hnonneg⟩ hseen
  have htid : t.node.id = (k : ℕ) + 1 := by
    rw [ht]
    exact hid
  unfold recomputeRoutes
  dsimp only
  rw [hcall, ok_bind]
  dsimp only
  rw [htid, hops_eq]
  exact ⟨_, rfl⟩

theorem afterEvent_returns {f : Flags} (hpow : NonnegPow S) (hl : Linked S s.this)
    (hg : Closed s.graph) (hm : NonnegSeen s.graph) (hrouting : f.updateRouting = false) :
    ∃ s', afterEvent S f s = .ok s' := by
  obtain ⟨s0, hs0, hl0, hg0, hm0⟩ : ∃ s0, (if f.lsaSendStatus then sendOwnLsa S s else s) = s0 ∧
      Linked S s0.this ∧ Closed s0.graph ∧ NonnegSeen s0.graph := by
    refine ⟨_, rfl, ?_⟩
    split
    · exact ⟨hl.of_sameLinks (localNodeUpdateMetrics_sameLinks _ _), hg, hm⟩
    · exact ⟨hl, hg, hm⟩
  unfold afterEvent
  dsimp only
  rw [hs0, hrouting]
  split
  · obtain ⟨s', hs'⟩ := recomputeRoutes_returns hpow hl0 hg0 hm0
    rw [hs']
    exact ⟨s', rfl⟩
  · exact ⟨s0, rfl⟩

omit [LinearOrder M] [Libm M] [FloorRing M] [IsStrictOrderedRing M] in
theorem captureAfter_returns {a : Active M} (hl : Linked S s.this)
    (hcapture : ∀ i, a = .timer i → S.build = .dtlsr → s.capture.capInfos.length = S.links.length ∧
      FilterText.DownSlots s.this s.capture.downIfaces) : ∃ s', captureAfter S a s = .ok s' := by
  unfold captureAfter
  cases hb : S.build with
  | lsr => exact ⟨s, rfl⟩
  | dtlsr =>
    cases a with
    | timer i =>
      obtain ⟨hlen, hslots⟩ := hcapture i rfl hb
      dsimp only
      unfold startCapturing
      cases hlink : linkOfTimer s.this (s.this.timers i).fd .linkDown with
      | none => exact ⟨s, rfl⟩
      | some j =>
        obtain ⟨c, hc⟩ := captureStartIface_returns s.nextHops hslots
          (by rw [hl.count, hlen]) ⟨j, (linkOfTimer_some hlink).1, rfl⟩
        dsimp only
        rw [hc]
        exact ⟨_, rfl⟩
    | _ => exact ⟨s, rfl⟩

omit [IsStrictOrderedRing M] in
/-- An iteration for which a descriptor is ready. -/
theorem iter_eq {ev : Event M} (hidle : ev.active ≠ .idle) : iter S ev s = (do
    let s ← waitEvent S ev.arrived s
    let s ← runUpdateRoutingTable s
    let (s, f) ← handleEvent S ev.active s
    let s ← afterEvent S f s
    captureAfter S ev.active s) := by
  unfold iter
  cases ha : ev.active with
  | idle => exact absurd ha hidle
  | _ => rfl

/-- An iteration returns, unless it makes a comparison with `NULL` that does not. -/
theorem iter_returns {ev : Event M} (hpow : NonnegPow S) (hl : Linked S s.this) (hg : Closed s.graph)
    (hf : Fit S s) (hen : Enabled S ev.active s) (ha : Receivable ev.active)
    (hnull : ComparesNull S s ev.active → ∃ b, S.strcmpNull = .ok b) :
    ∃ s', iter S ev s = .ok s' := by
  obtain ⟨s1, h1⟩ := waitEvent_returns hl hf ev.arrived
  have hf1 := hf.wait hl h1
  obtain ⟨hs1, -⟩ := waitEvent_ok h1
  by_cases hidle : ev.active = .idle
  · unfold iter
    rw [h1, ok_bind, hidle]
    exact ⟨s1, rfl⟩
  rw [iter_eq hidle, h1, ok_bind]
  have hthis1 : s1.this = s.this := by rw [hs1]
  have hl1 : Linked S s1.this := hthis1 ▸ hl
  obtain ⟨s2, h2⟩ := runUpdateRoutingTable_returns hl1.bounds.fan
  rw [h2, ok_bind]
  have hs2 := runUpdateRoutingTable_ok h2
  have hthis2 : s2.this = s.this := by rw [hs2, hthis1]
  have hgraph2 : s2.graph = s.graph := by rw [hs2, hs1]
  have hcapture2 : s2.capture = s1.capture := by rw [hs2]
  have hl2 : Linked S s2.this := hthis2 ▸ hl
  have hf2 : Fit S s2 := by
    rw [hs2]
    exact ⟨hf1.metrics, hf1.sent, hf1.histories, hf1.handles, hf1.slots, hf1.upIface⟩
  have hg2 : Closed s2.graph := hgraph2 ▸ hg
  have hen2 : Enabled S ev.active s2 := by
    rw [hs2, hs1]
    exact hen
  have hnull2 : ComparesNull S s2 ev.active → ∃ b, S.strcmpNull = .ok b := by
    rintro ⟨hb, source, i, hev, hrise, hcount, hnone, hahead⟩
    have hbooks : SameBooks s.capture s2.capture := hcapture2 ▸ waitEvent_sameBooks hb h1
    rw [hthis2] at hrise hahead
    rw [hbooks.nDownIfaces] at hcount
    rw [hbooks.downIfaces] at hnone hahead
    exact hnull ⟨hb, source, i, hev, hrise, hcount, hnone, hahead⟩
  obtain ⟨s3, f, h3⟩ := handleEvent_returns hl2 hg2 hf2 hen2 ha hnull2
  rw [h3, ok_bind]
  have hH := handleEvent_ok h3
  have hwrite := (handleEvent_writes h3).1
  have hle := hl2.linkEffect ev.active
  have hl3 := hle.of_sameLinks hH.links
  have hg3 := hwrite.closed hle hg2 (fun lsa source h => (ha.routerLsa lsa source h).1)
    fun others h => (ha.networkLsa others h).1
  have hm3 := hwrite.nonneg hle hpow hf2.metrics
    (fun lsa source h => ⟨(ha.routerLsa lsa source h).1, (ha.routerLsa lsa source h).2.2.2⟩)
    fun others h => (ha.networkLsa others h).2
  obtain ⟨s4, h4⟩ := afterEvent_returns hpow hl3 hg3 hm3 hH.updateRouting
  dsimp only
  rw [h4, ok_bind]
  have hkept := (afterEvent_ok h4 hH.updateRouting).1
  refine captureAfter_returns (hl3.of_sameLinks hkept.links) fun i hi hb => ?_
  have hcapture := hH.capture hb
  rw [hi] at hcapture
  have hcapture4 : s4.capture = s2.capture := hkept.capture.trans hcapture
  have hlinks := hH.links.trans hkept.links
  rw [hcapture4]
  refine ⟨hf2.handles hb, downSlots_of_same (hf2.slots hb) ?_ ?_⟩
  · rw [hlinks.nNeighbours, linkEffect_nNeighbours]
  · rw [hlinks.interfaces, linkEffect_interfaces]

omit [IsStrictOrderedRing M] in
/-- A comparison with `NULL` that does not return stops the iteration. -/
theorem iter_null {ev : Event M} {e : Fault} (hl : Linked S s.this) (hf : Fit S s)
    (hnull : ComparesNull S s ev.active) (he : S.strcmpNull = .error e) : iter S ev s = .error e := by
  obtain ⟨hb, source, i, hev, hrise, hcount, hnone, hahead⟩ := hnull
  obtain ⟨s1, h1⟩ := waitEvent_returns hl hf ev.arrived
  obtain ⟨hs1, -⟩ := waitEvent_ok h1
  have hbooks := waitEvent_sameBooks hb h1
  have hthis1 : s1.this = s.this := by rw [hs1]
  obtain ⟨s2, h2⟩ := runUpdateRoutingTable_returns (s := s1) (hthis1 ▸ hl.bounds.fan)
  have hs2 := runUpdateRoutingTable_ok h2
  have hthis2 : s2.this = s.this := by rw [hs2, hthis1]
  have hcapture2 : s2.capture = s1.capture := by rw [hs2]
  have hi : (i : ℕ) < S.links.length := by
    have := (risingLink_some hrise).1.1
    rw [hl.count] at this
    omega
  obtain ⟨t, ht⟩ := toggleHistory_returns
    (t := setLinkStatus (resetTimers s.this source) i .linkUp) (S.clock s2.ticks)
    (hf.histories hb i hi)
  have hsame := toggleHistory_sameLinks ht
  have hend : captureEndIface S.strcmpNull t (t.interfaces i) s2.capture = .error e := by
    have hname : t.interfaces i = s.this.interfaces i := by rw [hsame.interfaces]; rfl
    have hlen : t.node.nNeighbours = s2.capture.downIfaces.length := by
      rw [hcapture2, hbooks.downIfaces, hsame.nNeighbours, (hf.slots hb).length]
      rfl
    rw [he, hname]
    refine captureEndIface_null hlen ?_ ?_ ?_ e
    · rw [hcapture2, hbooks.nDownIfaces]
      exact hcount
    · rw [hcapture2, hbooks.downIfaces]
      exact hahead
    · rw [hcapture2, hbooks.downIfaces]
      exact hnone
  rw [iter_eq (by rw [hev]; nofun), h1, ok_bind, h2, ok_bind, hev]
  simp only [handleEvent, registerHeartbeat, hthis2, hrise, linkComesUp, hb, ht, hend, ok_bind,
    error_bind]

end Parts

/-! ### Start-up -/

section StartUp
variable {M : Type} [Field M]

/-- What a router can be configured as: its id and those of its neighbours are entries of the tables, it
    has no more neighbours than there are slots, and the names of its interfaces fit theirs. -/
structure Configured (S : Setup M) : Prop where
  self : ∃ k : Fin maxNodeNum, S.id = (k : ℕ) + 1
  fan : S.links.length ≤ maxNodeFan
  names : ∀ row ∈ S.links, row.interface.toList.length < ifaceStrMaxLen
  neighbours : ∀ row ∈ S.links, 1 ≤ row.dstId ∧ row.dstId ≤ maxNodeNum

variable {S : Setup M}

theorem localNodeInit_returns (hfan : S.links.length ≤ maxNodeFan)
    (hnames : ∀ row ∈ S.links, row.interface.toList.length < ifaceStrMaxLen) (now : ℕ) :
    ∃ t, localNodeInit S now = .ok t := by
  have hseries : ∀ i : Fin maxNodeFan, ∃ ts, (if S.build = .dtlsr ∧ (i : ℕ) < S.links.length then
      tsInit (S.this.lsTimeSeries i) .linkDown now else pure (S.this.lsTimeSeries i)) = .ok ts := by
    intro i
    split
    · obtain ⟨ts, hts, -⟩ := tsInit_recorded (S.this.lsTimeSeries i) .linkDown now
      exact ⟨ts, hts⟩
    · exact ⟨_, rfl⟩
  choose series hseries using hseries
  unfold localNodeInit nodeInit copyNames
  rw [if_neg (by omega), ok_bind, if_pos hnames, ok_bind, fill_ok_iff.mpr hseries]
  exact ⟨_, rfl⟩

variable [Libm M]

/-- `driver` comes to its loop exactly if the configuration is within these bounds. -/
theorem startUp_returns_iff : (∃ s, startUp S = .ok s) ↔ Configured S := by
  constructor
  · rintro ⟨s, h⟩
    have hl := (startUp_linked h).1
    obtain ⟨t, ht, h⟩ := bind_ok_iff.mp h
    obtain ⟨⟨g, t'⟩, hg, h⟩ := bind_ok_iff.mp h
    have hfan := (localNodeInit_ok ht).1
    have hbounds := (updateGlobalThis_bounds hg).2
    refine ⟨hl.self, hfan, localNodeInit_names ht, fun row hrow => ?_⟩
    obtain ⟨i, hi, rfl⟩ := List.getElem_of_mem hrow
    have hids := hbounds.ids ⟨i, by omega⟩ (by
      rw [(localNodeInit_ok ht).2.2.2.1]
      exact_mod_cast hi)
    rwa [localNodeInit_neighbourIds ht _ hi] at hids
  · rintro ⟨⟨k, hk⟩, hfan, hnames, hneighbours⟩
    obtain ⟨t, ht⟩ := localNodeInit_returns hfan hnames (S.clock 0)
    obtain ⟨-, hid, -, hcount, -⟩ := localNodeInit_ok ht
    have hbounds : t.node.InBounds := by
      refine ⟨by unfold Node.FanOk; rw [hcount]; exact_mod_cast hfan, fun i hi => ?_⟩
      rw [hcount] at hi
      rw [localNodeInit_neighbourIds ht i (by exact_mod_cast hi)]
      exact hneighbours _ (List.getElem_mem _)
    unfold startUp
    dsimp only
    rw [ht, ok_bind, updateGlobalThis_eq (hid.trans hk) hbounds]
    exact ⟨_, rfl⟩

end StartUp

/-! ### What the routers keep together -/

section Kept
variable {M : Type} [Field M] [LinearOrder M] [Libm M] {S : Setup M}

omit [LinearOrder M] [Libm M] in
theorem localNodeInit_front {t : LocalNode M} {now : ℕ} (hb : S.build = .dtlsr)
    (h : localNodeInit S now = .ok t) {i : Fin maxNodeFan} (hi : (i : ℕ) < S.links.length) :
    (t.lsTimeSeries i).front < tsSize :=
  tsToggleState_front (localNodeInit_series hb h hi)

variable [IsStrictOrderedRing M]

theorem startUp_fit {s : Daemon M} (hpow : NonnegPow S) (h : startUp S = .ok s) : Fit S s := by
  have hstart := startUp_started h
  have hl := (startUp_linked h).1
  obtain ⟨t, ht, h⟩ := bind_ok_iff.mp h
  obtain ⟨⟨g, t'⟩, hg, h⟩ := bind_ok_iff.mp h
  have ht' := updateGlobalThis_this hg
  have hsame : SameLinks t' t := by
    rw [ht']
    exact (localNodeUpdateMetrics_sameLinks t _).symm
  cases h
  have hcount : t'.node.nNeighbours = S.links.length := hl.count
  refine ⟨?_, ?_, fun hb i hi => ?_, fun _ => ?_, fun _ => ?_, nofun⟩
  · exact GraphWrite.nonneg (a := .idle) (.own _ _ _ _ (.refl t) hg) (hl.of_sameLinks hsame) hpow
      (fun k hk => by cases hk) nofun nofun
  · intro m hm
    obtain ⟨ip, -, rfl⟩ := List.mem_map.mp hm
    trivial
  · have hseries : t'.lsTimeSeries = t.lsTimeSeries := by rw [ht']; rfl
    dsimp only
    rw [hseries]
    exact localNodeInit_front hb ht hi
  · simp [captureInit, openDump, hcount]
  · refine ⟨hl.bounds.fan, ?_, fun iface hiface => ?_⟩
    · simp [captureInit, openDump, hcount]
    · simp [captureInit, openDump] at hiface

variable [FloorRing M] {s s' : Daemon M} {ev : Event M}

omit [IsStrictOrderedRing M] in
/-- Only interfaces of links get into slots. -/
theorem Steps.downSlots (hb : S.build = .dtlsr) (hl : Linked S s.this)
    (hs : FilterText.DownSlots s.this s.capture.downIfaces) (h : Steps S s ev s') :
    FilterText.DownSlots s'.this s'.capture.downIfaces := by
  have hcount : s'.this.node.nNeighbours = s.this.node.nNeighbours := by
    rw [h.links.nNeighbours, linkEffect_nNeighbours]
  have hifaces : s'.this.interfaces = s.this.interfaces := by
    rw [h.links.interfaces, linkEffect_interfaces]
  obtain ⟨c, hbooks, hmove⟩ := h.moves hb hl
  have hc : FilterText.DownSlots s'.this c.downIfaces := by
    rw [hbooks.downIfaces]
    exact downSlots_of_same hs hcount hifaces
  rcases hmove with ⟨-, hsame⟩ | ⟨i, -, -, -, t, -, hend⟩ | ⟨i, hi, -, -, t, hops, ht, hstart⟩
  · rw [hsame.downIfaces]
    exact hc
  · by_cases hn : c.nDownIfaces = 0
    · rw [captureEndIface_zero hn hend]
      exact hc
    · obtain ⟨hit, -, hslots, -⟩ := captureEndIface_books hn hend
      rw [hslots]
      cases hit with
      | none => exact hc
      | some k =>
        refine ⟨hc.fan, by rw [Option.elim_some, List.length_set, hc.length], fun name hname => ?_⟩
        rcases List.mem_or_eq_of_mem_set hname with hold | hnew
        · exact hc.ifaces name hold
        · cases hnew
  · have hlen := hc.length
    have hbooks' := captureStartIface_books (by rw [ht.count, hlen, hcount, hl.count]) hstart
    rw [hbooks'.1]
    refine ⟨hc.fan, by rw [Slots.length_put, hlen], fun name hname => ?_⟩
    rcases Slots.mem_put hname with hold | rfl
    · exact hc.ifaces name hold
    · refine ⟨i, ?_, ?_⟩
      · rw [hcount, hl.count]
        exact_mod_cast hi
      · rw [hifaces, hl.ifaceName hi]

omit [IsStrictOrderedRing M] in
/-- While the replay timer is armed there is an interface to be replayed. -/
theorem Steps.toReplay (h : Steps S s ev s') (hs : s.replayTimer.armed = true →
      ∃ j : Fin maxNodeFan, ((j : ℕ) : ℤ) < s.this.node.nNeighbours ∧
        s.upIface = some (s.this.interfaces j)) (harmed : s'.replayTimer.armed = true) :
    ∃ j : Fin maxNodeFan, ((j : ℕ) : ℤ) < s'.this.node.nNeighbours ∧
      s'.upIface = some (s'.this.interfaces j) := by
  rw [h.links.nNeighbours, linkEffect_nNeighbours, h.links.interfaces, linkEffect_interfaces]
  have hreplay := h.replayHandled
  have hsame : s'.replayTimer = s.replayTimer ∧ s'.upIface = s.upIface →
      ∃ j : Fin maxNodeFan, ((j : ℕ) : ℤ) < s.this.node.nNeighbours ∧
        s'.upIface = some (s.this.interfaces j) := by
    rintro ⟨htimer, hup⟩
    rw [hup]
    exact hs (htimer ▸ harmed)
  cases ha : ev.active with
  | heartbeat source =>
    rw [ha] at hreplay
    simp only [ReplayHandled] at hreplay
    split at hreplay
    · rename_i i _ hrise
      exact ⟨i, (risingLink_some hrise).1.1, hreplay.2⟩
    · exact hsame hreplay
  | replayTimer =>
    rw [ha] at hreplay
    rw [hreplay.1, eventTimerDisarm_armed] at harmed
    cases harmed
  | _ =>
    rw [ha] at hreplay
    exact hsame hreplay

theorem Fit.step (hpow : NonnegPow S) (hl : Linked S s.this) (hf : Fit S s)
    (ha : Receivable ev.active) (h : Steps S s ev s') : Fit S s' := by
  have hnode : ∀ lsa source, ev.active = .routerLsa lsa source →
      lsa.state = .nodeSeen ∧ lsa.NonnegMetrics := fun lsa source hev =>
    ⟨(ha.routerLsa lsa source hev).1, (ha.routerLsa lsa source hev).2.2.2⟩
  have hgraph : ∀ others, ev.active = .networkLsa others → NonnegSeen others := fun others hev =>
    (ha.networkLsa others hev).2
  have hfit : ∀ lsa source, ev.active = .routerLsa lsa source → (Message.routerLsa lsa).Fit :=
    fun lsa source hev => (ha.routerLsa lsa source hev).2
  obtain ⟨t, g, hlinks, hw1, hw2, hnew⟩ := h.writes
  have hle := hl.linkEffect ev.active
  have hlt := hle.of_sameLinks hlinks
  have hm := hw1.nonneg hle hpow hf.metrics hnode hgraph
  refine ⟨hw2.nonneg hlt hpow hm hnode hgraph, fun m hmem => ?_, fun hb i hi => ?_, fun hb => ?_,
    fun hb => h.downSlots hb hl (hf.slots hb), h.toReplay hf.upIface⟩
  · rcases hnew m hmem with hold | hsend | hsend
    · exact hf.sent m hold
    · exact hsend.fit hle hpow hf.metrics hfit
    · exact hsend.fit hlt hpow hm hfit
  · have hhistory := h.history hb i
    split at hhistory
    · rw [hhistory]
      exact hf.histories hb i hi
    · exact tsToggleState_front hhistory
  · have hdrain : DrainedBy S { before := s, event := ev, after := s' } :=
      step_drains hb hl (hf.handles hb) h
    exact hdrain.length

end Kept

section Fleet
variable {ι M : Type} [DecidableEq ι] [Field M] [LinearOrder M] [IsStrictOrderedRing M] [FloorRing M]
  [Libm M] {S : ι → Setup M}

omit [DecidableEq ι] [IsStrictOrderedRing M] [FloorRing M] [Libm M] in
/-- What was sent by one of the routers can be merged by each. -/
theorem WasSent.receivable {net : ι → Daemon M} {a : Active M} (h : WasSent net a)
    (hs : ∀ j, Sound (S j) (net j)) (hf : ∀ j, Fit (S j) (net j)) : Receivable a where
  routerLsa := by
    rintro lsa source rfl
    obtain ⟨j, m, hm, hlsa⟩ := h
    have hsound := (hs j).sent m hm
    have hfit := (hf j).sent m hm
    rw [hlsa] at hsound hfit
    exact ⟨hsound, hfit⟩
  networkLsa := by
    rintro others rfl
    obtain ⟨j, m, hm, hothers⟩ := h
    have hsound := (hs j).sent m hm
    have hfit := (hf j).sent m hm
    rw [hothers] at hsound hfit
    exact ⟨hsound, hfit⟩

variable {tr : List (Trace.Step (ι → Daemon M) (ι × Event M))} {net : ι → Daemon M}

theorem FleetRun.fit (hpow : ∀ i, NonnegPow (S i)) (hrun : FleetRun S tr net) :
    ∀ j, Fit (S j) (net j) := by
  refine hrun.invariant (I := fun _ net => ∀ j, Fit (S j) (net j))
    (fun net h0 j => startUp_fit (hpow j) (h0 j)) ?_
  rintro tr net ⟨v, ev⟩ net' hrun hnet h j
  obtain ⟨hstep, hsent, hother⟩ := FleetRun.stepped h
  by_cases hj : j = v
  · subst hj
    exact (hnet j).step (hpow j) (FleetRun.sound hrun j).linked
      (hsent.receivable (FleetRun.sound hrun) hnet) hstep
  · rw [hother j hj]
    exact hnet j

omit [IsStrictOrderedRing M] in
theorem fleetStep_error_iff {v : ι} {ev : Event M} {e : Fault} :
    fleetStep S (v, ev) net = .error e ↔ iter (S v) ev (net v) = .error e := by
  unfold fleetStep
  rw [bind_error_iff]
  refine ⟨fun h => h.resolve_right ?_, Or.inl⟩
  rintro ⟨s, -, h⟩
  cases h

/-- Every router that is configured within bounds starts, and no router of the network ever stops in a
    fault, but for one: an iteration faults exactly if the link that it raises is searched for past an
    empty slot, and the comparison with `NULL` faults. -/
theorem fleet_faults_iff (hpow : ∀ i, NonnegPow (S i)) :
    (∀ i, (∃ s, startUp (S i) = .ok s) ↔ Configured (S i)) ∧
    ∀ {tr : List (Trace.Step (ι → Daemon M) (ι × Event M))} {net : ι → Daemon M},
      FleetRun S tr net → ∀ {v : ι} {ev : Event M}, FleetAllowed S net (v, ev) → ∀ e,
        (fleetStep S (v, ev) net = .error e ↔
          ComparesNull (S v) (net v) ev.active ∧ (S v).strcmpNull = .error e) := by
  refine ⟨fun i => startUp_returns_iff, fun {tr net} hrun {v ev} hallowed e => ?_⟩
  have hsound := FleetRun.sound hrun
  have hfit := FleetRun.fit hpow hrun
  have hl := (hsound v).linked
  rw [fleetStep_error_iff]
  constructor
  · intro h
    by_contra hn
    obtain ⟨s', hs'⟩ := iter_returns (hpow v) hl (hsound v).closed (hfit v) hallowed.1
      (hallowed.2.receivable hsound hfit) fun hnull => by
        cases hcmp : (S v).strcmpNull with
        | ok b => exact ⟨b, rfl⟩
        | error e' =>
          have h' := iter_null hl (hfit v) hnull hcmp
          rw [h] at h'
          cases h'
          exact absurd ⟨hnull, hcmp⟩ hn
    rw [hs'] at h
    cases h
  · rintro ⟨hnull, he⟩
    exact iter_null hl (hfit v) hnull he

end Fleet

/-! ### Two routers that start -/

/-- Routers 1 and 2 with a link between them, whose metrics are real numbers. -/
noncomputable def realPair (second : Bool) : Setup ℝ where
  build := .dtlsr
  id := if second then 2 else 1
  links :=
    [{ interface := "eth0"
       srcAddr := inetAddr 10 0 0 (if second then 2 else 1)
       dstAddr := inetAddr 10 0 0 (if second then 1 else 2)
       dstId := if second then 1 else 2 }]
  hist := default
  clock := id
  strcmpNull := .error .nullDeref
  graph := fun _ => { zeroNode with linkMetrics := fun _ => 0 }
  this := { zeroLocalNode with node := { zeroNode with linkMetrics := fun _ => 0 } }
  files := fun _ => none

theorem realPair_configured (i : Bool) : Configured (realPair i) := by
  cases i
  · exact ⟨⟨0, rfl⟩, by decide, by simp [realPair, ifaceStrMaxLen], by simp [realPair]⟩
  · exact ⟨⟨1, rfl⟩, by decide, by simp [realPair, ifaceStrMaxLen], by simp [realPair]⟩

theorem realPair_nonnegPow (i : Bool) : NonnegPow (realPair i) := by
  intro _ x
  have hpow : (realPair i).hist.power = ((4 : ℕ) : ℝ) := by simp [realPair, default]
  rw [hpow]
  change 0 ≤ x ^ ((4 : ℕ) : ℝ)
  rw [Real.rpow_natCast]
  positivity

/-- The first heartbeat makes no comparison with `NULL`. -/
theorem fleet_faults_iff_realPair : ∃ net, FleetRun realPair [] net ∧ ∀ source e,
    fleetStep realPair (false, { arrived := [], active := .heartbeat source }) net ≠ .error e := by
  obtain ⟨hstart, hfault⟩ := fleet_faults_iff realPair_nonnegPow
  choose net hnet using fun i => (hstart i).mpr (realPair_configured i)
  refine ⟨net, .start hnet, fun source e h => ?_⟩
  have hallowed : FleetAllowed realPair net (false, { arrived := [], active := .heartbeat source }) :=
    ⟨trivial, trivial⟩
  obtain ⟨⟨-, _, i, -, -, hcount, -⟩, -⟩ := (hfault (.start hnet) hallowed e).mp h
  rw [(startUp_started (hnet false)).capture] at hcount
  exact hcount rfl

end Dtlsr
