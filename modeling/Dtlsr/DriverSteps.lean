import Dtlsr.Database
import Dtlsr.Driver

/-!
    What one iteration of the driver can do, said once: to the router's links (`Steps.links`), to the
    capture state (`Steps.capture`), to the graph and the next hops (`Steps.routes`), and to the LSAs
    sent (`Steps.originated`). The invariants of the later modules are proved from these lemmas and do
    not unfold the loop. -/

namespace Dtlsr
open Checked

section Links
variable {M : Type}

/-- `t'` differs from `t` in what `local_node_update_metrics` and `ts_toggle_state` write: the time
    stamp and the metrics of the record, and the link histories. -/
def SameLinks (t t' : LocalNode M) : Prop :=
  t' =
    { t with
      node := { t.node with
        timestamp := t'.node.timestamp
        linkMetrics := t'.node.linkMetrics }
      lsTimeSeries := t'.lsTimeSeries }

theorem SameLinks.refl (t : LocalNode M) : SameLinks t t := rfl

theorem SameLinks.trans {t t' t'' : LocalNode M} (h : SameLinks t t') (h' : SameLinks t' t'') :
    SameLinks t t'' := by
  unfold SameLinks at *
  rw [h', h]

theorem SameLinks.symm {t t' : LocalNode M} (h : SameLinks t t') : SameLinks t' t := by
  unfold SameLinks at *
  rw [h]

variable {t t' : LocalNode M}

theorem SameLinks.id (h : SameLinks t t') : t'.node.id = t.node.id := by rw [h]
theorem SameLinks.state (h : SameLinks t t') : t'.node.state = t.node.state := by rw [h]
theorem SameLinks.nNeighbours (h : SameLinks t t') : t'.node.nNeighbours = t.node.nNeighbours := by
  rw [h]
theorem SameLinks.neighbourIps (h : SameLinks t t') :
    t'.node.neighbourIps = t.node.neighbourIps := by rw [h]
theorem SameLinks.neighbourIds (h : SameLinks t t') :
    t'.node.neighbourIds = t.node.neighbourIds := by rw [h]
theorem SameLinks.linkStatuses (h : SameLinks t t') :
    t'.node.linkStatuses = t.node.linkStatuses := by rw [h]
theorem SameLinks.timers (h : SameLinks t t') : t'.timers = t.timers := by rw [h]
theorem SameLinks.interfaces (h : SameLinks t t') : t'.interfaces = t.interfaces := by rw [h]

theorem SameLinks.sameRouter (h : SameLinks t t') : SameRouter t t' :=
  ⟨h.id, h.state, h.nNeighbours, h.neighbourIps, h.neighbourIds⟩

theorem SameLinks.linkOfTimer (h : SameLinks t t') (fd : Fd) (st : LinkState) :
    linkOfTimer t' fd st = Dtlsr.linkOfTimer t fd st := by
  unfold Dtlsr.linkOfTimer
  rw [h.nNeighbours, h.timers, h.linkStatuses]

/-- The link that a heartbeat raises is down, and those from the same address before it are up. -/
theorem risingLink_some {t : LocalNode M} {source : Ip} {i : Fin maxNodeFan}
    (h : risingLink t source = some i) : fromSource t source i ∧ t.node.linkStatuses i = .linkDown ∧
      ∀ j < i, fromSource t source j → t.node.linkStatuses j = .linkUp := by
  obtain ⟨hi, hfirst⟩ := find_finRange_eq_some.mp h
  rw [decide_eq_true_eq] at hi
  refine ⟨hi.1, hi.2, fun j hj hfrom => ?_⟩
  cases hst : t.node.linkStatuses j with
  | linkUp => rfl
  | linkDown => simpa [hfrom, hst] using hfirst j hj

theorem risingLink_none {t : LocalNode M} {source : Ip} (h : risingLink t source = none)
    (j : Fin maxNodeFan) (hfrom : fromSource t source j) : t.node.linkStatuses j = .linkUp := by
  have hnone := List.find?_eq_none.mp h j (List.mem_finRange j)
  cases hst : t.node.linkStatuses j with
  | linkUp => rfl
  | linkDown => simp [hfrom, hst] at hnone

theorem linkOfTimer_some {t : LocalNode M} {fd : Fd} {st : LinkState} {i : Fin maxNodeFan}
    (h : linkOfTimer t fd st = some i) :
    ((i : ℕ) : ℤ) < t.node.nNeighbours ∧ (t.timers i).fd = fd ∧ t.node.linkStatuses i = st := by
  simpa using (find_finRange_eq_some.mp h).1

/-- The two events that bring an LSA. -/
def Active.IsLsa : Active M → Prop
  | .routerLsa _ _ | .networkLsa _ => True
  | _ => False

/-- What an event does to the statuses and the timers of the links. -/
def linkEffect (a : Active M) (t : LocalNode M) : LocalNode M :=
  match a with
  | .heartbeat source =>
    match risingLink t source with
    | some i => setLinkStatus (resetTimers t source) i .linkUp
    | none => resetTimers t source
  | .timer i =>
    match linkOfTimer t (t.timers i).fd .linkUp with
    | some j =>
      { setLinkStatus t j .linkDown with
        timers := Function.update t.timers j (eventTimerDisarm (t.timers j)) }
    | none => t
  | _ => t

theorem toggleHistory_sameLinks {t t' : LocalNode M} {i : Fin maxNodeFan} {now : ℕ}
    (h : toggleHistory t i now = .ok t') : SameLinks t t' := by
  obtain ⟨ts, -, h⟩ := bind_ok_iff.mp h
  cases h
  rfl

/-- The entries of other routers are untouched. -/
def OthersUntouched (s s' : Daemon M) : Prop :=
  ∀ k : Fin maxNodeNum, s.this.node.id ≠ (k : ℕ) + 1 → Untouched (s.graph k) (s'.graph k)

theorem OthersUntouched.trans {s s' s'' : Daemon M} (h : OthersUntouched s s')
    (h' : OthersUntouched s' s'') (hid : s'.this.node.id = s.this.node.id) : OthersUntouched s s'' :=
  fun k hk => (h k hk).trans (h' k (hid ▸ hk))

theorem OthersUntouched.of_eq {s s' : Daemon M} (h : s'.graph = s.graph) : OthersUntouched s s' :=
  fun k _ => by rw [h]; exact .refl _

/-- What the send and the recomputation after an event keep. -/
structure Kept (s s' : Daemon M) : Prop where
  links : SameLinks s.this s'.this
  capture : s'.capture = s.capture
  upIface : s'.upIface = s.upIface
  replayTimer : s'.replayTimer = s.replayTimer
  others : OthersUntouched s s'

theorem Kept.refl (s : Daemon M) : Kept s s := ⟨.refl _, rfl, rfl, rfl, fun _ _ => .refl _⟩

theorem Kept.trans {s s' s'' : Daemon M} (h : Kept s s') (h' : Kept s' s'') : Kept s s'' :=
  ⟨h.links.trans h'.links, h'.capture.trans h.capture, h'.upIface.trans h.upIface,
    h'.replayTimer.trans h.replayTimer, h.others.trans h'.others h.links.id⟩

theorem runUpdateRoutingTable_ok {s s' : Daemon M} (h : runUpdateRoutingTable s = .ok s') :
    s' = { s with currRoutes := s'.currRoutes, ioctls := s'.ioctls } := by
  obtain ⟨⟨r, c⟩, -, h⟩ := bind_ok_iff.mp h
  cases h
  rfl

theorem startCapturing_ok {fd : Fd} {s s' : Daemon M} (h : startCapturing fd s = .ok s') :
    s' = { s with capture := s'.capture } ∧ match linkOfTimer s.this fd .linkDown with
      | none => s'.capture = s.capture
      | some i => captureStartIface s.this (s.this.interfaces i) s.nextHops s.capture =
          .ok s'.capture := by
  unfold startCapturing at h
  cases hl : linkOfTimer s.this fd .linkDown with
  | none => rw [hl] at h; cases h; exact ⟨rfl, rfl⟩
  | some i =>
    rw [hl] at h
    obtain ⟨c, hc, h⟩ := bind_ok_iff.mp h
    cases h
    exact ⟨rfl, hc⟩

@[simp] theorem resetTimers_node (t : LocalNode M) (source : Ip) :
    (resetTimers t source).node = t.node := rfl

@[simp] theorem setLinkStatus_timers (t : LocalNode M) (i : Fin maxNodeFan) (st : LinkState) :
    (setLinkStatus t i st).timers = t.timers := rfl

theorem linkEffect_quiet {t : LocalNode M} {source : Ip} (h : risingLink t source = none) :
    linkEffect (.heartbeat source) t = resetTimers t source := by simp only [linkEffect, h]

theorem linkEffect_rise {t : LocalNode M} {source : Ip} {i : Fin maxNodeFan}
    (h : risingLink t source = some i) :
    linkEffect (.heartbeat source) t = setLinkStatus (resetTimers t source) i .linkUp := by
  simp only [linkEffect, h]

theorem linkEffect_idle {t : LocalNode M} {i : Fin maxNodeFan}
    (h : linkOfTimer t (t.timers i).fd .linkUp = none) : linkEffect (.timer i) t = t := by
  simp only [linkEffect, h]

theorem linkEffect_fall {t : LocalNode M} {i j : Fin maxNodeFan}
    (h : linkOfTimer t (t.timers i).fd .linkUp = some j) :
    linkEffect (.timer i) t = { setLinkStatus t j .linkDown with
      timers := Function.update t.timers j (eventTimerDisarm (t.timers j)) } := by
  simp only [linkEffect, h]

/-- An event changes statuses and timer values only. -/
theorem linkEffect_eq (a : Active M) (t : LocalNode M) :
    linkEffect a t =
      { t with
        node := { t.node with linkStatuses := (linkEffect a t).node.linkStatuses }
        timers := (linkEffect a t).timers } ∧
      ∀ i, ((linkEffect a t).timers i).fd = (t.timers i).fd := by
  have hreset : ∀ source i, ((resetTimers t source).timers i).fd = (t.timers i).fd := by
    intro source i
    unfold resetTimers
    dsimp only
    split <;> simp
  cases a with
  | heartbeat source =>
    cases h : risingLink t source with
    | none => rw [linkEffect_quiet h]; exact ⟨rfl, hreset source⟩
    | some i => rw [linkEffect_rise h]; exact ⟨rfl, hreset source⟩
  | timer i =>
    cases h : linkOfTimer t (t.timers i).fd .linkUp with
    | none => rw [linkEffect_idle h]; exact ⟨rfl, fun _ => rfl⟩
    | some j =>
      rw [linkEffect_fall h]
      refine ⟨rfl, fun k => ?_⟩
      by_cases hk : k = j
      · subst hk; simp
      · simp [hk]
  | _ => exact ⟨rfl, fun _ => rfl⟩

@[simp] theorem linkEffect_id (a : Active M) (t : LocalNode M) :
    (linkEffect a t).node.id = t.node.id := by rw [(linkEffect_eq a t).1]
@[simp] theorem linkEffect_state (a : Active M) (t : LocalNode M) :
    (linkEffect a t).node.state = t.node.state := by rw [(linkEffect_eq a t).1]
@[simp] theorem linkEffect_nNeighbours (a : Active M) (t : LocalNode M) :
    (linkEffect a t).node.nNeighbours = t.node.nNeighbours := by rw [(linkEffect_eq a t).1]
@[simp] theorem linkEffect_neighbourIds (a : Active M) (t : LocalNode M) :
    (linkEffect a t).node.neighbourIds = t.node.neighbourIds := by rw [(linkEffect_eq a t).1]
@[simp] theorem linkEffect_interfaces (a : Active M) (t : LocalNode M) :
    (linkEffect a t).interfaces = t.interfaces := by rw [(linkEffect_eq a t).1]

theorem linkEffect_sameRouter (a : Active M) (t : LocalNode M) : SameRouter t (linkEffect a t) := by
  rw [(linkEffect_eq a t).1]
  exact ⟨rfl, rfl, rfl, rfl, rfl⟩

/-- A heartbeat arms the timers of the links that are up because of it, or were before; a timeout
    disarms the timer of the link that goes down. -/
theorem linkEffect_armed {a : Active M} {t : LocalNode M} {i : Fin maxNodeFan}
    (h : (t.timers i).armed = true ↔ t.node.linkStatuses i = .linkUp) :
    ((linkEffect a t).timers i).armed = true ↔ (linkEffect a t).node.linkStatuses i = .linkUp := by
  cases a with
  | heartbeat source =>
    cases hr : risingLink t source with
    | none =>
      rw [linkEffect_quiet hr, resetTimers_node]
      simp only [resetTimers, hr]
      by_cases hfrom : fromSource t source i
      · simp [hfrom, risingLink_none hr i hfrom]
      · simpa [hfrom] using h
    | some r =>
      obtain ⟨-, -, hup⟩ := risingLink_some hr
      rw [linkEffect_rise hr, setLinkStatus_timers]
      simp only [setLinkStatus, resetTimers, hr, Option.mem_some_iff, forall_eq']
      by_cases hir : i = r
      · subst hir
        have hfrom := (risingLink_some hr).1
        simp [hfrom]
      · rw [Function.update_of_ne hir]
        by_cases hc : fromSource t source i ∧ i ≤ r
        · simp [hc, hup i (lt_of_le_of_ne hc.2 hir) hc.1]
        · simpa [hc] using h
  | timer k =>
    cases hr : linkOfTimer t (t.timers k).fd .linkUp with
    | none => rw [linkEffect_idle hr]; exact h
    | some j =>
      rw [linkEffect_fall hr]
      by_cases hij : i = j
      · subst hij; simp [setLinkStatus]
      · simpa [setLinkStatus, hij] using h
  | _ => exact h

end Links

/-! ### The parts of an iteration -/

section Parts
variable {M : Type} [Field M] {S : Setup M}

theorem waitEvent_ok {arrived : List (ℕ × Packet)} {s s' : Daemon M}
    (h : waitEvent S arrived s = .ok s') : s' = { s with capture := s'.capture } ∧
      (S.build = .dtlsr → ∃ c, capturePackets s.this s.capture = .ok c ∧
        s'.capture = arrived.foldl arrive c) := by
  unfold waitEvent at h
  cases hb : S.build with
  | lsr =>
    rw [hb] at h
    cases h
    exact ⟨rfl, fun h => by cases h⟩
  | dtlsr =>
    rw [hb] at h
    obtain ⟨c, hc, h⟩ := bind_ok_iff.mp h
    cases h
    exact ⟨rfl, fun _ => ⟨c, hc, rfl⟩⟩

theorem captureAfter_ok {a : Active M} {s s' : Daemon M} (h : captureAfter S a s = .ok s') :
    s' = { s with capture := s'.capture } ∧ ((∀ i, a ≠ .timer i) → s'.capture = s.capture) ∧
      (∀ i, a = .timer i → S.build = .dtlsr → startCapturing (s.this.timers i).fd s = .ok s') := by
  cases hb : S.build with
  | lsr =>
    have hs : captureAfter S a s = .ok s := by unfold captureAfter; rw [hb]; rfl
    rw [hs] at h
    cases h
    exact ⟨rfl, fun _ => rfl, fun _ _ h => by cases h⟩
  | dtlsr =>
    unfold captureAfter at h
    rw [hb] at h
    cases a with
    | timer i =>
      refine ⟨(startCapturing_ok h).1, fun hn => absurd rfl (hn i), fun j hj _ => ?_⟩
      cases hj
      exact h
    | _ =>
      cases h
      exact ⟨rfl, fun _ => rfl, fun i hi => by cases hi⟩

theorem recordDown_sameLinks {i : Fin maxNodeFan} {t t' : LocalNode M} {ticks : ℕ}
    (h : recordDown S i t ticks = .ok t') : SameLinks t t' := by
  unfold recordDown at h
  cases hb : S.build with
  | lsr => rw [hb] at h; cases h; exact .refl _
  | dtlsr => rw [hb] at h; exact toggleHistory_sameLinks h

end Parts

section Metrics
variable {M : Type} [Field M] [Libm M] {S : Setup M}

theorem localNodeUpdateMetrics_sameLinks {b : Build} {p : HistParams M} (t : LocalNode M) (now : ℕ) :
    SameLinks t (localNodeUpdateMetrics b p t now) := rfl

theorem updateGlobalThis_this {b : Build} {p : HistParams M} {g g' : Graph M} {t t' : LocalNode M}
    {now : ℕ} (h : updateGlobalThis b p g t now = .ok (g', t')) :
    t' = localNodeUpdateMetrics b p t now := by
  obtain ⟨g1, -, h⟩ := bind_ok_iff.mp h
  obtain ⟨g2, -, h⟩ := bind_ok_iff.mp h
  cases h
  rfl

end Metrics

section Handlers
variable {M : Type} [Field M] [LinearOrder M] [Libm M] {S : Setup M}

/-! ### The handlers -/

/-- What an event does to the graph and the next hops, with the flags that it raises. -/
def RoutesHandled (a : Active M) (s s' : Daemon M) (f : Flags) : Prop :=
  s'.nextHops = s.nextHops ∧ match a with
  | .heartbeat source => s'.graph = s.graph ∧ f.recompute = false ∧
      f.graphUpdated = (risingLink s.this source).isSome
  | .routerLsa lsa _ => f.graphUpdated = false ∧ f.recompute = false ∧
      ∃ u, mergeInNode s.graph lsa = .ok (s'.graph, u)
  | .networkLsa others => f.graphUpdated = false ∧ f.recompute = false ∧
      ∃ u, mergeInGraph s.graph others = .ok (s'.graph, u)
  | .timer i => f.recompute = false ∧
      f.graphUpdated = (linkOfTimer s.this (s.this.timers i).fd .linkUp).isSome ∧
      (f.graphUpdated = false → s'.graph = s.graph)
  | .recomputationTimer => s'.graph = s.graph ∧ f.recompute = true
  | _ => s'.graph = s.graph ∧ f.graphUpdated = false ∧ f.recompute = false

/-- What an event does to the capture state while it is handled (DTLSR). -/
def CaptureHandled (S : Setup M) (a : Active M) (s : Daemon M) (c' : Capture) : Prop :=
  match a with
  | .heartbeat source => match risingLink s.this source with
    | none => c' = s.capture
    | some i => ∃ t, SameLinks (linkEffect a s.this) t ∧
        captureEndIface S.strcmpNull t (s.this.interfaces i) s.capture = .ok c'
  | .replayTimer => ∃ upIface c, s.upIface = some upIface ∧
      captureReplayIface s.this upIface s.nextHops s.capture = .ok c ∧
      captureRemoveReplayedPackets s.this upIface s.nextHops c = .ok c'
  | _ => c' = s.capture

/-- What the handler of an event does. -/
structure Handled (S : Setup M) (a : Active M) (s s' : Daemon M) (f : Flags) : Prop where
  links : SameLinks (linkEffect a s.this) s'.this
  ticks : s.ticks ≤ s'.ticks
  originated : s'.originated = s.originated
  updateRouting : f.updateRouting = false
  routes : RoutesHandled a s s' f
  capture : S.build = .dtlsr → CaptureHandled S a s s'.capture
  others : ¬a.IsLsa → OthersUntouched s s'
  upIface : s'.upIface = s.upIface ∨
    ∃ i : Fin maxNodeFan, ((i : ℕ) : ℤ) < s.this.node.nNeighbours ∧
      s'.upIface = some (s.this.interfaces i)

/-- The local node when link `i` has come up, with the history `ts`. -/
def risenNode (t : LocalNode M) (source : Ip) (i : Fin maxNodeFan) (ts : LSTimeSeries) : LocalNode M :=
  { setLinkStatus (resetTimers t source) i .linkUp with
    lsTimeSeries := Function.update t.lsTimeSeries i ts }

/-- All the ways in which an event is handled. -/
inductive Handles (S : Setup M) (s : Daemon M) : Active M → Daemon M → Flags → Prop where
  | idle : Handles S s .idle s {}
  | beat (source : Ip) (quiet : risingLink s.this source = none) :
      Handles S s (.heartbeat source) { s with this := resetTimers s.this source } {}
  | riseLsr (source : Ip) (i : Fin maxNodeFan) (build : S.build = .lsr)
      (rise : risingLink s.this source = some i) :
      Handles S s (.heartbeat source)
        { s with this := setLinkStatus (resetTimers s.this source) i .linkUp }
        { graphUpdated := true, lsaSendStatus := true }
  | riseDtlsr (source : Ip) (i : Fin maxNodeFan) (ts : LSTimeSeries) (c : Capture)
      (build : S.build = .dtlsr) (rise : risingLink s.this source = some i)
      (history : tsToggleState (s.this.lsTimeSeries i) (S.clock s.ticks) = .ok ts)
      (call : captureEndIface S.strcmpNull (risenNode s.this source i ts) (s.this.interfaces i)
        s.capture = .ok c) :
      Handles S s (.heartbeat source)
        { s with
          this := risenNode s.this source i ts
          capture := c
          ticks := s.ticks + 1
          replayTimer := eventTimerArm s.replayTimer 0 replayDelayT
          upIface := some (s.this.interfaces i) }
        { graphUpdated := true, lsaSendStatus := true }
  | routerLsa (lsa : Node M) (source : Ip) (g : Graph M) (u : Bool)
      (call : mergeInNode s.graph lsa = .ok (g, u)) :
      Handles S s (.routerLsa lsa source)
        { s with
          graph := g
          sent := s.sent ++ if u then sendRouterLsaExcept s.this.node lsa source else [] } {}
  | routerLsaSndTimer : Handles S s .routerLsaSndTimer s { lsaSendStatus := true }
  | networkLsa (others g : Graph M) (u : Bool) (call : mergeInGraph s.graph others = .ok (g, u)) :
      Handles S s (.networkLsa others) { s with graph := g } {}
  | networkLsaRequest (source : Ip) :
      Handles S s (.networkLsaRequest source)
        { s with sent := s.sent ++ sendNetworkLsa s.graph s.this source } {}
  | replayTimer (upIface : String) (c c' : Capture) (iface : s.upIface = some upIface)
      (replay : captureReplayIface s.this upIface s.nextHops s.capture = .ok c)
      (remove : captureRemoveReplayedPackets s.this upIface s.nextHops c = .ok c') :
      Handles S s .replayTimer
        { s with replayTimer := eventTimerDisarm s.replayTimer, capture := c' } {}
  | recomputationTimer : Handles S s .recomputationTimer s { recompute := true }
  | stale (i : Fin maxNodeFan) (none : linkOfTimer s.this (s.this.timers i).fd .linkUp = none) :
      Handles S s (.timer i) s {}
  | timeout (i j : Fin maxNodeFan) (t t' : LocalNode M) (g : Graph M)
      (link : linkOfTimer s.this (s.this.timers i).fd .linkUp = some j)
      (history : recordDown S j (setLinkStatus s.this j .linkDown) s.ticks = .ok t)
      (call : updateGlobalThis S.build S.hist s.graph
        { t with timers := Function.update t.timers j (eventTimerDisarm (t.timers j)) }
        (S.clock (s.ticks + downReadings S.build)) = .ok (g, t')) :
      Handles S s (.timer i)
        { s with graph := g, this := t', ticks := s.ticks + downReadings S.build + 1 }
        { graphUpdated := true, lsaSendStatus := true }

theorem handleEvent_handles {a : Active M} {s s' : Daemon M} {f : Flags}
    (h : handleEvent S a s = .ok (s', f)) : Handles S s a s' f := by
  cases a with
  | heartbeat source =>
    obtain ⟨⟨s1, u⟩, h1, h⟩ := bind_ok_iff.mp h
    cases h
    unfold registerHeartbeat at h1
    cases hrise : risingLink s.this source with
    | none =>
      rw [hrise] at h1
      cases h1
      exact .beat source hrise
    | some i =>
      rw [hrise] at h1
      obtain ⟨s2, h2, h1⟩ := bind_ok_iff.mp h1
      cases h1
      unfold linkComesUp at h2
      cases hb : S.build with
      | lsr =>
        rw [hb] at h2
        cases h2
        exact .riseLsr source i hb hrise
      | dtlsr =>
        rw [hb] at h2
        obtain ⟨t, ht, h2⟩ := bind_ok_iff.mp h2
        obtain ⟨c, hc, h2⟩ := bind_ok_iff.mp h2
        cases h2
        obtain ⟨ts, hts, ht⟩ := bind_ok_iff.mp ht
        cases ht
        exact .riseDtlsr source i ts c hb hrise hts hc
  | routerLsa lsa source =>
    obtain ⟨⟨g, u, out⟩, h1, h⟩ := bind_ok_iff.mp h
    cases h
    obtain ⟨⟨g', u'⟩, hm, h1⟩ := bind_ok_iff.mp h1
    cases h1
    exact .routerLsa lsa source g u hm
  | networkLsa others =>
    obtain ⟨⟨g, u⟩, h1, h⟩ := bind_ok_iff.mp h
    cases h
    exact .networkLsa others g u h1
  | replayTimer =>
    simp only [handleEvent] at h
    split at h
    · cases h
    · rename_i upIface hup
      obtain ⟨c, hc, h⟩ := bind_ok_iff.mp h
      obtain ⟨c', hc', h⟩ := bind_ok_iff.mp h
      cases h
      exact .replayTimer upIface c c' hup hc hc'
  | timer i =>
    obtain ⟨⟨s1, u⟩, h1, h⟩ := bind_ok_iff.mp h
    cases h
    unfold timeoutHeartbeat at h1
    cases hlink : linkOfTimer s.this (s.this.timers i).fd .linkUp with
    | none =>
      rw [hlink] at h1
      cases h1
      exact .stale i hlink
    | some j =>
      rw [hlink] at h1
      obtain ⟨t, ht, h1⟩ := bind_ok_iff.mp h1
      obtain ⟨⟨g, t'⟩, hg, h1⟩ := bind_ok_iff.mp h1
      cases h1
      exact .timeout i j t t' g hlink ht hg
  | idle => cases h; exact .idle
  | routerLsaSndTimer => cases h; exact .routerLsaSndTimer
  | networkLsaRequest source => cases h; exact .networkLsaRequest source
  | recomputationTimer => cases h; exact .recomputationTimer

theorem handleEvent_installed {a : Active M} {s s' : Daemon M} {f : Flags}
    (h : handleEvent S a s = .ok (s', f)) : s'.currRoutes = s.currRoutes ∧ s'.ioctls = s.ioctls := by
  cases handleEvent_handles h <;> exact ⟨rfl, rfl⟩

omit [Field M] [LinearOrder M] [Libm M] in
theorem risenNode_sameLinks {t : LocalNode M} {source : Ip} {i : Fin maxNodeFan} (ts : LSTimeSeries)
    (h : risingLink t source = some i) :
    SameLinks (linkEffect (.heartbeat source) t) (risenNode t source i ts) := by
  rw [linkEffect_rise h]
  rfl

omit [LinearOrder M] in
theorem timeout_sameLinks {s : Daemon M} {i j : Fin maxNodeFan} {t t' : LocalNode M} {g : Graph M}
    {now : ℕ} (hlink : linkOfTimer s.this (s.this.timers i).fd .linkUp = some j)
    (history : recordDown S j (setLinkStatus s.this j .linkDown) s.ticks = .ok t)
    (call : updateGlobalThis S.build S.hist s.graph
      { t with timers := Function.update t.timers j (eventTimerDisarm (t.timers j)) } now =
        .ok (g, t')) :
    SameLinks (linkEffect (.timer i) s.this) t' := by
  have hsame := recordDown_sameLinks history
  rw [linkEffect_fall hlink, updateGlobalThis_this call, hsame.timers]
  unfold SameLinks at hsame ⊢
  rw [hsame]
  rfl

theorem handleEvent_ok {a : Active M} {s s' : Daemon M} {f : Flags}
    (h : handleEvent S a s = .ok (s', f)) : Handled S a s s' f := by
  cases handleEvent_handles h with
  | recomputationTimer =>
    exact ⟨.refl _, le_rfl, rfl, rfl, ⟨rfl, rfl, rfl⟩, fun _ => rfl, fun _ => .of_eq rfl, Or.inl rfl⟩
  | idle | routerLsaSndTimer | networkLsaRequest source =>
    exact ⟨.refl _, le_rfl, rfl, rfl, ⟨rfl, rfl, rfl, rfl⟩, fun _ => rfl, fun _ => .of_eq rfl,
      Or.inl rfl⟩
  | beat source quiet =>
    refine ⟨?_, le_rfl, rfl, rfl, ⟨rfl, rfl, rfl, by rw [quiet]; rfl⟩, fun _ => ?_,
      fun _ => .of_eq rfl, Or.inl rfl⟩
    · rw [linkEffect_quiet quiet]; exact .refl _
    · simp only [CaptureHandled, quiet]
  | riseLsr source i build rise =>
    refine ⟨?_, le_rfl, rfl, rfl, ⟨rfl, rfl, rfl, by rw [rise]; rfl⟩, fun hb => ?_,
      fun _ => .of_eq rfl, Or.inl rfl⟩
    · rw [linkEffect_rise rise]; exact .refl _
    · rw [build] at hb; cases hb
  | riseDtlsr source i ts c build rise history call =>
    refine ⟨risenNode_sameLinks ts rise, Nat.le_succ _, rfl, rfl,
      ⟨rfl, rfl, rfl, by rw [rise]; rfl⟩, fun _ => ?_, fun _ => .of_eq rfl,
      Or.inr ⟨i, (risingLink_some rise).1.1, rfl⟩⟩
    simp only [CaptureHandled, rise]
    exact ⟨_, risenNode_sameLinks ts rise, call⟩
  | routerLsa lsa source g u call =>
    exact ⟨.refl _, le_rfl, rfl, rfl, ⟨rfl, rfl, rfl, _, call⟩, fun _ => rfl,
      fun hn => absurd trivial hn, Or.inl rfl⟩
  | networkLsa others g u call =>
    exact ⟨.refl _, le_rfl, rfl, rfl, ⟨rfl, rfl, rfl, u, call⟩, fun _ => rfl,
      fun hn => absurd trivial hn, Or.inl rfl⟩
  | replayTimer upIface c c' iface replay remove =>
    exact ⟨.refl _, le_rfl, rfl, rfl, ⟨rfl, rfl, rfl, rfl⟩,
      fun _ => ⟨upIface, c, iface, replay, remove⟩, fun _ => .of_eq rfl, Or.inl rfl⟩
  | stale i hnone =>
    refine ⟨?_, le_rfl, rfl, rfl, ⟨rfl, rfl, by rw [hnone]; rfl, fun _ => rfl⟩, fun _ => rfl,
      fun _ => .of_eq rfl, Or.inl rfl⟩
    rw [linkEffect_idle hnone]
    exact .refl _
  | timeout i j t t' g link history call =>
    refine ⟨timeout_sameLinks link history call, by simp only; omega, rfl, rfl,
      ⟨rfl, rfl, by rw [link]; rfl, fun hn => by cases hn⟩, fun _ => rfl, fun _ k hk => ?_, Or.inl rfl⟩
    exact updateGlobalThis_untouched (by rw [(recordDown_sameLinks history).id]; exact hk) call

omit [Libm M] in
/-- An event that is not an LSA either changes neither the graph nor a link, and raises no flag, or it
    raises one, and changes a link unless it is the recomputation timer. -/
theorem Handled.quiet_or_raised {a : Active M} {s s' : Daemon M} {f : Flags} (h : Handled S a s s' f)
    (hlsa : ¬a.IsLsa) :
    (f.graphUpdated = false ∧ f.recompute = false ∧ s'.graph = s.graph ∧
      (linkEffect a s.this).node.linkStatuses = s.this.node.linkStatuses ∧
      a ≠ .recomputationTimer) ∨
    ((f.graphUpdated = true ∨ f.recompute = true) ∧ (a = .recomputationTimer ∨
      (linkEffect a s.this).node.linkStatuses ≠ s.this.node.linkStatuses)) := by
  obtain ⟨-, hroutes⟩ := h.routes
  cases a with
  | routerLsa lsa source => exact absurd trivial hlsa
  | networkLsa others => exact absurd trivial hlsa
  | heartbeat source =>
    obtain ⟨hg, hrec, hupd⟩ := hroutes
    cases hr : risingLink s.this source with
    | none =>
      rw [hr] at hupd
      refine Or.inl ⟨hupd, hrec, hg, ?_, by simp⟩
      rw [linkEffect_quiet hr, resetTimers_node]
    | some i =>
      rw [hr] at hupd
      refine Or.inr ⟨Or.inl hupd, Or.inr fun hsame => ?_⟩
      have hup := congrFun hsame i
      rw [linkEffect_rise hr, (risingLink_some hr).2.1] at hup
      simp [setLinkStatus] at hup
  | timer i =>
    obtain ⟨hrec, hupd, hg⟩ := hroutes
    cases hr : linkOfTimer s.this (s.this.timers i).fd .linkUp with
    | none =>
      rw [hr] at hupd
      refine Or.inl ⟨hupd, hrec, hg hupd, ?_, by simp⟩
      rw [linkEffect_idle hr]
    | some j =>
      rw [hr] at hupd
      refine Or.inr ⟨Or.inl hupd, Or.inr fun hsame => ?_⟩
      have hdown := congrFun hsame j
      rw [linkEffect_fall hr, (linkOfTimer_some hr).2.2] at hdown
      simp [setLinkStatus] at hdown
  | recomputationTimer => exact Or.inr ⟨Or.inr hroutes.2, Or.inl rfl⟩
  | _ => exact Or.inl ⟨hroutes.2.1, hroutes.2.2, hroutes.1, rfl, by simp⟩

end Handlers

section Iteration
variable {M : Type} [Field M] [LinearOrder M] [FloorRing M] [Libm M] {S : Setup M}

theorem recomputeRoutes_ok {s s' : Daemon M} (h : recomputeRoutes S s = .ok s') :
    Kept s s' ∧ pathfind S.build s'.graph s'.this.node.id = .ok s'.nextHops ∧
      s'.originated = s.originated ∧ s'.ticks = s.ticks + 2 := by
  obtain ⟨⟨g, t⟩, hg, h⟩ := bind_ok_iff.mp h
  obtain ⟨hops, hhops, h⟩ := bind_ok_iff.mp h
  cases h
  refine ⟨⟨?_, rfl, rfl, rfl, fun k hk => ?_⟩, hhops, rfl, rfl⟩
  on_goal 2 => exact updateGlobalThis_untouched (by rw [localNodeUpdateMetrics_id]; exact hk) hg
  rw [updateGlobalThis_this hg]
  rfl

/-- A recomputation leaves the router's record as its own entry, with its last reading of the clock. -/
theorem recomputeRoutes_own {s s' : Daemon M} {k : Fin maxNodeNum} (hk : s.this.node.id = (k : ℕ) + 1)
    (hs : s.this.node.state = .nodeSeen) (h : recomputeRoutes S s = .ok s') :
    s.ticks < s'.ticks ∧ s'.graph k = s'.this.node ∧
      s'.this.node.timestamp = S.clock (s'.ticks - 1) := by
  obtain ⟨⟨g, t⟩, hg, h⟩ := bind_ok_iff.mp h
  obtain ⟨hops, -, h⟩ := bind_ok_iff.mp h
  cases h
  obtain ⟨hown, ht⟩ := updateGlobalThis_own
    (t := localNodeUpdateMetrics S.build S.hist s.this (S.clock s.ticks)) hs hk hg
  exact ⟨by simp, hown, by rw [ht]; rfl⟩

/-- The send and the recomputation, by the flags. -/
theorem afterEvent_ok {f : Flags} {s s' : Daemon M} (h : afterEvent S f s = .ok s')
    (hrouting : f.updateRouting = false) :
    Kept s s' ∧ s.ticks ≤ s'.ticks ∧
      ((f.graphUpdated = true ∨ f.recompute = true) →
        pathfind S.build s'.graph s'.this.node.id = .ok s'.nextHops) ∧
      (f.graphUpdated = false → f.recompute = false →
        s'.graph = s.graph ∧ s'.nextHops = s.nextHops) ∧
      (s'.originated = s.originated ∨ s.ticks < s'.ticks ∧ s'.originated = s.originated ++
        [(localNodeUpdateMetrics S.build S.hist s.this (S.clock s.ticks)).node]) := by
  unfold afterEvent at h
  obtain ⟨s1, h1, h⟩ := bind_ok_iff.mp h
  rw [hrouting] at h
  cases h
  have hsend : Kept s (if f.lsaSendStatus then sendOwnLsa S s else s) := by
    split
    · exact ⟨rfl, rfl, rfl, rfl, .of_eq rfl⟩
    · exact .refl s
  by_cases hf : (f.graphUpdated || f.recompute) = true
  · rw [if_pos hf] at h1
    obtain ⟨hkept, hpath, hsent, hticks⟩ := recomputeRoutes_ok h1
    refine ⟨hsend.trans hkept, ?_, fun _ => hpath, fun h2 h3 => ?_, ?_⟩
    · rw [hticks]; split
      · simp only [sendOwnLsa]; omega
      · omega
    · rw [h2, h3] at hf; cases hf
    · rw [hsent, hticks]
      split
      · right; simp only [sendOwnLsa, and_true]; omega
      · left; rfl
  · rw [if_neg hf] at h1
    cases h1
    refine ⟨hsend, ?_, fun h => ?_, fun _ _ => ?_, ?_⟩
    · split
      · simp only [sendOwnLsa]; omega
      · exact le_rfl
    · exact absurd (by rcases h with h | h <;> simp [h]) hf
    · split <;> exact ⟨rfl, rfl⟩
    · split
      · right; simp only [sendOwnLsa, and_true]; omega
      · left; rfl

theorem afterEvent_own {f : Flags} {s s' : Daemon M} {k : Fin maxNodeNum}
    (hk : s.this.node.id = (k : ℕ) + 1) (hs : s.this.node.state = .nodeSeen)
    (h : afterEvent S f s = .ok s') (hrouting : f.updateRouting = false)
    (hf : f.graphUpdated = true ∨ f.recompute = true) :
    s.ticks < s'.ticks ∧ s'.graph k = s'.this.node ∧
      s'.this.node.timestamp = S.clock (s'.ticks - 1) := by
  unfold afterEvent at h
  obtain ⟨s1, h1, h⟩ := bind_ok_iff.mp h
  rw [hrouting] at h
  cases h
  rw [if_pos (by rcases hf with hf | hf <;> simp [hf])] at h1
  cases hsend : f.lsaSendStatus with
  | false =>
    rw [hsend] at h1
    exact recomputeRoutes_own hk hs h1
  | true =>
    rw [hsend] at h1
    obtain ⟨hlt, hown⟩ := recomputeRoutes_own (s := sendOwnLsa S s) hk hs h1
    exact ⟨(Nat.lt_succ_self _).trans hlt, hown⟩

/-- The send and the recomputation install no routes. -/
theorem afterEvent_installed {f : Flags} {s s' : Daemon M} (h : afterEvent S f s = .ok s')
    (hrouting : f.updateRouting = false) :
    s'.currRoutes = s.currRoutes ∧ s'.ioctls = s.ioctls := by
  unfold afterEvent at h
  obtain ⟨s1, h1, h⟩ := bind_ok_iff.mp h
  rw [hrouting] at h
  cases h
  have hsend : (if f.lsaSendStatus then sendOwnLsa S s else s).currRoutes = s.currRoutes ∧
      (if f.lsaSendStatus then sendOwnLsa S s else s).ioctls = s.ioctls := by
    split <;> exact ⟨rfl, rfl⟩
  split at h1
  · obtain ⟨⟨g, t⟩, -, h1⟩ := bind_ok_iff.mp h1
    obtain ⟨hops, -, h1⟩ := bind_ok_iff.mp h1
    cases h1
    exact hsend
  · cases h1
    exact hsend

/-! ### One iteration -/

/-- The calls of an iteration: the packets are captured and the routes of the last iteration set, then
    the event is handled and the loop follows it up. -/
theorem Steps.calls {ev : Event M} {s s' : Daemon M} (h : Steps S s ev s') : ∃ c,
    (S.build = .dtlsr → ∃ c0, capturePackets s.this s.capture = .ok c0 ∧
      c = ev.arrived.foldl arrive c0) ∧
    ((ev.active = .idle ∧ s' = { s with capture := c }) ∨
      ∃ currRoutes ioctls s3 f s4,
        handleEvent S ev.active { s with capture := c, currRoutes, ioctls } = .ok (s3, f) ∧
        afterEvent S f s3 = .ok s4 ∧ captureAfter S ev.active s4 = .ok s') := by
  obtain ⟨-, h⟩ := h
  obtain ⟨s1, h1, h⟩ := bind_ok_iff.mp h
  obtain ⟨hs1, hcap⟩ := waitEvent_ok h1
  refine ⟨s1.capture, hcap, ?_⟩
  rw [hs1] at h
  cases ha : ev.active with
  | idle => rw [ha] at h; cases h; exact Or.inl ⟨rfl, rfl⟩
  | _ =>
    rw [ha] at h
    obtain ⟨s2, h2, h⟩ := bind_ok_iff.mp h
    obtain ⟨⟨s3, f⟩, h3, h⟩ := bind_ok_iff.mp h
    obtain ⟨s4, h4, h⟩ := bind_ok_iff.mp h
    rw [runUpdateRoutingTable_ok h2] at h3
    exact Or.inr ⟨_, _, s3, f, s4, h3, h4, h⟩

/-- What an iteration does to the routes that are installed: one call of `update_routing_table`, with the
    next hops from before the event. -/
theorem Steps.routing {ev : Event M} {s s' : Daemon M} (h : Steps S s ev s') :
    (ev.active = .idle ∧ s'.currRoutes = s.currRoutes ∧ s'.ioctls = s.ioctls) ∨
      (ev.active ≠ .idle ∧ ∃ calls,
        updateRoutingTable s.this s.nextHops s.currRoutes = .ok (s'.currRoutes, calls) ∧
        s'.ioctls = s.ioctls ++ calls) := by
  obtain ⟨-, h⟩ := h
  obtain ⟨s1, h1, h⟩ := bind_ok_iff.mp h
  rw [(waitEvent_ok h1).1] at h
  cases ha : ev.active with
  | idle => rw [ha] at h; cases h; exact Or.inl ⟨rfl, rfl, rfl⟩
  | _ =>
    rw [ha] at h
    obtain ⟨s2, h2, h⟩ := bind_ok_iff.mp h
    obtain ⟨⟨routes, calls⟩, hcalls, h2⟩ := bind_ok_iff.mp h2
    obtain rfl := Except.ok.inj h2
    obtain ⟨⟨s3, f⟩, h3, h⟩ := bind_ok_iff.mp h
    obtain ⟨s4, h4, h⟩ := bind_ok_iff.mp h
    obtain ⟨hroutes3, hioctls3⟩ := handleEvent_installed h3
    obtain ⟨hroutes4, hioctls4⟩ := afterEvent_installed h4 (handleEvent_ok h3).updateRouting
    rw [(captureAfter_ok h).1]
    refine Or.inr ⟨by simp, calls, ?_, hioctls4.trans hioctls3⟩
    rw [hroutes4, hroutes3]
    exact hcalls

/-- What the parts of an iteration do. -/
theorem Steps.parts {ev : Event M} {s s' : Daemon M} (h : Steps S s ev s') : ∃ c,
    (S.build = .dtlsr → ∃ c0, capturePackets s.this s.capture = .ok c0 ∧
      c = ev.arrived.foldl arrive c0) ∧
    ((ev.active = .idle ∧ s' = { s with capture := c }) ∨
      ∃ s3 f s4, Handled S ev.active { s with capture := c } s3 f ∧ afterEvent S f s3 = .ok s4 ∧
        captureAfter S ev.active s4 = .ok s') := by
  obtain ⟨c, hcap, hidle | ⟨_, _, s3, f, s4, h3, h4, h5⟩⟩ := h.calls
  · exact ⟨c, hcap, Or.inl hidle⟩
  · have hH := handleEvent_ok h3
    exact ⟨c, hcap, Or.inr ⟨s3, f, s4,
      ⟨hH.links, hH.ticks, hH.originated, hH.updateRouting, hH.routes, hH.capture, hH.others,
        hH.upIface⟩, h4, h5⟩⟩

/-- What an iteration does to the links. -/
theorem Steps.links {ev : Event M} {s s' : Daemon M} (h : Steps S s ev s') :
    SameLinks (linkEffect ev.active s.this) s'.this := by
  obtain ⟨c, -, ⟨ha, rfl⟩ | ⟨s3, f, s4, hH, h4, h5⟩⟩ := h.parts
  · rw [ha]
    exact .refl _
  · rw [(captureAfter_ok h5).1]
    exact hH.links.trans (afterEvent_ok h4 hH.updateRouting).1.links

/-- No iteration changes the configuration. -/
theorem Steps.sameRouter {ev : Event M} {s s' : Daemon M} (h : Steps S s ev s') :
    SameRouter s.this s'.this :=
  (linkEffect_sameRouter ev.active s.this).trans h.links.sameRouter

/-- What an iteration does to the capture state after `capture_packets` (DTLSR). -/
def CaptureEffect (S : Setup M) (a : Active M) (s : Daemon M) (c c' : Capture) : Prop :=
  match a with
  | .timer i => match linkOfTimer (linkEffect a s.this) (s.this.timers i).fd .linkDown with
    | none => c' = c
    | some j => ∃ t hops, SameLinks (linkEffect a s.this) t ∧
        captureStartIface t (s.this.interfaces j) hops c = .ok c'
  | _ => CaptureHandled S a { s with capture := c } c'

theorem Steps.capture {ev : Event M} {s s' : Daemon M} (hb : S.build = .dtlsr)
    (h : Steps S s ev s') : ∃ c0, capturePackets s.this s.capture = .ok c0 ∧
      CaptureEffect S ev.active s (ev.arrived.foldl arrive c0) s'.capture := by
  obtain ⟨c, hc, hrest⟩ := h.parts
  obtain ⟨c0, hc0, rfl⟩ := hc hb
  refine ⟨c0, hc0, ?_⟩
  rcases hrest with ⟨ha, rfl⟩ | ⟨s3, f, s4, hH, h4, h5⟩
  · rw [ha]; rfl
  · have hkept := (afterEvent_ok h4 hH.updateRouting).1
    obtain ⟨-, hother, htimer⟩ := captureAfter_ok h5
    have hhandled := hH.capture hb
    cases ha : ev.active with
    | timer i =>
      rw [ha] at hhandled hH
      have hstart := (startCapturing_ok (htimer i ha hb)).2
      have hsame : SameLinks (linkEffect (.timer i) s.this) s4.this := hH.links.trans hkept.links
      have hcap : s4.capture = ev.arrived.foldl arrive c0 := hkept.capture.trans hhandled
      rw [hsame.timers, (linkEffect_eq _ _).2 i, hsame.linkOfTimer, hcap, hsame.interfaces,
        linkEffect_interfaces] at hstart
      cases hl : linkOfTimer (linkEffect (.timer i) s.this) (s.this.timers i).fd .linkDown with
      | none =>
        rw [hl] at hstart
        simp only [CaptureEffect, hl]
        exact hstart
      | some j =>
        rw [hl] at hstart
        simp only [CaptureEffect, hl]
        exact ⟨s4.this, s4.nextHops, hsame, hstart⟩
    | _ =>
      rw [ha] at hhandled hother
      rw [hother (by simp), hkept.capture]
      exact hhandled

/-- What an iteration does to the graph and the next hops: a received LSA changes the graph only, and
    a change of a link brings the next hops up to date with the graph. -/
theorem Steps.routes {ev : Event M} {s s' : Daemon M} (h : Steps S s ev s') :
    match ev.active with
    | .routerLsa lsa _ =>
      (∃ u, mergeInNode s.graph lsa = .ok (s'.graph, u)) ∧ s'.nextHops = s.nextHops
    | .networkLsa others =>
      (∃ u, mergeInGraph s.graph others = .ok (s'.graph, u)) ∧ s'.nextHops = s.nextHops
    | .recomputationTimer => pathfind S.build s'.graph s'.this.node.id = .ok s'.nextHops
    | _ => (pathfind S.build s'.graph s'.this.node.id = .ok s'.nextHops ∧
        s'.this.node.linkStatuses ≠ s.this.node.linkStatuses) ∨
      (s'.graph = s.graph ∧ s'.nextHops = s.nextHops ∧
        s'.this.node.linkStatuses = s.this.node.linkStatuses) := by
  obtain ⟨c, -, ⟨ha, rfl⟩ | ⟨s3, f, s4, hH, h4, h5⟩⟩ := h.parts
  · rw [ha]
    exact Or.inr ⟨rfl, rfl, rfl⟩
  · obtain ⟨hkept, -, hpath, hsame, -⟩ := afterEvent_ok h4 hH.updateRouting
    have h' : s' = { s4 with capture := s'.capture } := (captureAfter_ok h5).1
    have hgraph : s'.graph = s4.graph := by rw [h']
    have hhops : s'.nextHops = s4.nextHops := by rw [h']
    have hthis : s'.this = s4.this := by rw [h']
    have hlinks := hH.links.trans hkept.links
    obtain ⟨hnext, hroutes⟩ := hH.routes
    rw [hgraph, hhops, hthis]
    have hmerge : f.graphUpdated = false → f.recompute = false →
        s4.graph = s3.graph ∧ s4.nextHops = s.nextHops := fun h1 h2 =>
      (hsame h1 h2).imp_right fun hn => hn.trans hnext
    -- without a flag nothing moves, and with one the table is computed from the graph
    have hother : ¬ev.active.IsLsa →
        (ev.active ≠ .recomputationTimer ∧ s4.graph = s.graph ∧ s4.nextHops = s.nextHops ∧
          s4.this.node.linkStatuses = s.this.node.linkStatuses) ∨
        (pathfind S.build s4.graph s4.this.node.id = .ok s4.nextHops ∧
          (ev.active = .recomputationTimer ∨
            s4.this.node.linkStatuses ≠ s.this.node.linkStatuses)) := by
      intro hlsa
      rw [hlinks.linkStatuses]
      rcases hH.quiet_or_raised hlsa with ⟨h1, h2, h3, h4, hne⟩ | ⟨hf, hchange⟩
      · obtain ⟨hg, hn⟩ := hmerge h1 h2
        exact Or.inl ⟨hne, hg.trans h3, hn, h4⟩
      · exact Or.inr ⟨hpath hf, hchange⟩
    cases ha : ev.active with
    | routerLsa lsa source =>
      rw [ha] at hroutes
      obtain ⟨h1, h2, u, hm⟩ := hroutes
      obtain ⟨hg, hn⟩ := hmerge h1 h2
      exact ⟨⟨u, hg ▸ hm⟩, hn⟩
    | networkLsa others =>
      rw [ha] at hroutes
      obtain ⟨h1, h2, u, hm⟩ := hroutes
      obtain ⟨hg, hn⟩ := hmerge h1 h2
      exact ⟨⟨u, hg ▸ hm⟩, hn⟩
    | recomputationTimer =>
      rw [ha] at hother
      rcases hother id with ⟨hne, -⟩ | ⟨hpath, -⟩
      · exact absurd rfl hne
      · exact hpath
    | _ =>
      rw [ha] at hother
      rcases hother id with ⟨-, hquiet⟩ | ⟨hpath, hn | hchange⟩
      · exact Or.inr hquiet
      · cases hn
      · exact Or.inl ⟨hpath, hchange⟩

/-- What an iteration without an LSA does to the router's own entry: nothing, and no link changes, or
    the entry becomes the router's record, with the last reading of the clock. -/
theorem Steps.own {ev : Event M} {s s' : Daemon M} {k : Fin maxNodeNum} (h : Steps S s ev s')
    (hk : s.this.node.id = (k : ℕ) + 1) (hs : s.this.node.state = .nodeSeen)
    (hlsa : ¬ev.active.IsLsa) :
    (s'.graph k = s.graph k ∧ s'.this.node.linkStatuses = s.this.node.linkStatuses ∧
        ev.active ≠ .recomputationTimer) ∨
      (s.ticks < s'.ticks ∧ s'.graph k = s'.this.node ∧
        s'.this.node.timestamp = S.clock (s'.ticks - 1)) := by
  obtain ⟨c, -, ⟨ha, rfl⟩ | ⟨s3, f, s4, hH, h4, h5⟩⟩ := h.parts
  · exact Or.inl ⟨rfl, rfl, by rw [ha]; simp⟩
  · have h' : s' = { s4 with capture := s'.capture } := (captureAfter_ok h5).1
    have hgraph : s'.graph = s4.graph := by rw [h']
    have hthis : s'.this = s4.this := by rw [h']
    have hticks : s'.ticks = s4.ticks := by rw [h']
    rw [hgraph, hthis, hticks]
    obtain ⟨hkept, -, -, hsame, -⟩ := afterEvent_ok h4 hH.updateRouting
    have hlinks := hH.links.trans hkept.links
    have hk3 : s3.this.node.id = (k : ℕ) + 1 := by rw [hH.links.id, linkEffect_id, hk]
    have hs3 : s3.this.node.state = .nodeSeen := by rw [hH.links.state, linkEffect_state, hs]
    have hown := fun hf => (afterEvent_own hk3 hs3 h4 hH.updateRouting hf).imp_left
      hH.ticks.trans_lt
    rcases hH.quiet_or_raised hlsa with ⟨h1, h2, h3, h4, hne⟩ | ⟨hf, -⟩
    · exact Or.inl ⟨by rw [(hsame h1 h2).1, h3], hlinks.linkStatuses.trans h4, hne⟩
    · exact Or.inr (hown hf)

/-- What an iteration sends as the router's own LSA: its record, with the metrics and the time of one
    reading of the clock. -/
theorem Steps.originated {ev : Event M} {s s' : Daemon M} (h : Steps S s ev s') :
    s.ticks ≤ s'.ticks ∧ (s'.originated = s.originated ∨
      ∃ t now, SameLinks (linkEffect ev.active s.this) t ∧ s.ticks ≤ now ∧ now < s'.ticks ∧
        s'.originated = s.originated ++
          [(localNodeUpdateMetrics S.build S.hist t (S.clock now)).node]) := by
  obtain ⟨c, -, ⟨ha, rfl⟩ | ⟨s3, f, s4, hH, h4, h5⟩⟩ := h.parts
  · exact ⟨le_rfl, Or.inl rfl⟩
  · obtain ⟨-, hticks, -, -, horig⟩ := afterEvent_ok h4 hH.updateRouting
    have h' : s' = { s4 with capture := s'.capture } := (captureAfter_ok h5).1
    have hs' : s'.originated = s4.originated := by rw [h']
    have ht' : s'.ticks = s4.ticks := by rw [h']
    rw [hs', ht']
    refine ⟨hH.ticks.trans hticks, ?_⟩
    rcases horig with horig | ⟨hlt, horig⟩
    · exact Or.inl (horig.trans hH.originated)
    · exact Or.inr ⟨s3.this, s3.ticks, hH.links, hH.ticks, hlt, by rw [horig, hH.originated]⟩

/-- An iteration without an LSA leaves the entries of other routers untouched. -/
theorem Steps.others {ev : Event M} {s s' : Daemon M} (h : Steps S s ev s')
    (hlsa : ¬ev.active.IsLsa) : OthersUntouched s s' := by
  obtain ⟨c, -, ⟨-, rfl⟩ | ⟨s3, f, s4, hH, h4, h5⟩⟩ := h.parts
  · exact .of_eq rfl
  · have h' : s'.graph = s4.graph := by rw [(captureAfter_ok h5).1]
    refine OthersUntouched.trans (?_ : OthersUntouched s s4) (.of_eq h') ?_
    · have hid : s3.this.node.id = s.this.node.id := by rw [hH.links.id, linkEffect_id]
      exact (hH.others hlsa).trans (afterEvent_ok h4 hH.updateRouting).1.others hid
    · rw [(afterEvent_ok h4 hH.updateRouting).1.links.id, hH.links.id, linkEffect_id]

/-- The interface that is replayed next is that of a link. -/
theorem Steps.upIface {ev : Event M} {s s' : Daemon M} (h : Steps S s ev s') :
    s'.upIface = s.upIface ∨ ∃ i : Fin maxNodeFan, ((i : ℕ) : ℤ) < s.this.node.nNeighbours ∧
      s'.upIface = some (s.this.interfaces i) := by
  obtain ⟨c, -, ⟨-, rfl⟩ | ⟨s3, f, s4, hH, h4, h5⟩⟩ := h.parts
  · exact Or.inl rfl
  · have h' : s'.upIface = s3.upIface := by
      rw [(captureAfter_ok h5).1]
      exact (afterEvent_ok h4 hH.updateRouting).1.upIface
    rw [h']
    exact hH.upIface

end Iteration

end Dtlsr
