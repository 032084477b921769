import Dtlsr.Convergence
import Dtlsr.EventLoop

/-!
    What the timers are for. In any run of the event loop a link is up exactly while its neighbour has
    been heard of within `HEARTBEAT_TIMEOUT`; the router's own LSA has been sent within `LSA_SEND_T`; and
    in the DTLSR build the routes have been computed within `METRIC_RECOMPUTATION_T`. All of this is
    about the moments at which the loop waits with nothing to do. -/

namespace Dtlsr
open Checked

section Times
variable {M : Type}

/-- The time of a step in which an event with `p` is handled. -/
def handledAt (p : Active M → Bool) (st : Trace.Step (Host M) (HostEvent M)) : Option ℕ :=
  match st.event, eventWait st.before with
  | .iteration _, some (a, _) => if p a then some st.before.now else none
  | _, _ => none

/-- The last time at which an event with `p` has been handled. -/
def lastHandled (p : Active M → Bool) (tr : List (Trace.Step (Host M) (HostEvent M))) : Option ℕ :=
  (tr.filterMap (handledAt p)).getLast?

/-- A heartbeat from the address. -/
def Active.isBeat (addr : Ip) : Active M → Bool
  | .heartbeat source => source = addr
  | _ => false

/-- The last time at which a heartbeat from the address has been handled. -/
def lastHeartbeat (addr : Ip) : List (Trace.Step (Host M) (HostEvent M)) → Option ℕ :=
  lastHandled (Active.isBeat addr)

/-- The time at which the run `tr` begins that ends in `h`. -/
def startTime (tr : List (Trace.Step (Host M) (HostEvent M))) (h : Host M) : ℕ :=
  (tr.head?.elim h fun st => st.before).now

variable {p : Active M → Bool} {tr : List (Trace.Step (Host M) (HostEvent M))}
  {st : Trace.Step (Host M) (HostEvent M)}

theorem lastHandled_snoc :
    lastHandled p (tr ++ [st]) = (handledAt p st).or (lastHandled p tr) := by
  unfold lastHandled
  rw [List.filterMap_append, List.getLast?_append]
  cases h : handledAt p st <;> simp [h]

theorem startTime_snoc (h' : Host M) : startTime (tr ++ [st]) h' = startTime tr st.before := by
  cases tr <;> rfl

theorem handledAt_iteration [Field M] [LinearOrder M] [FloorRing M] [Libm M] {S : Setup M}
    {h h' : Host M} {ev : Event M} {arrived : List (ℕ × Packet)} (hit : Iterates S h ev h') :
    handledAt p { before := h, event := .iteration arrived, after := h' } =
      if p ev.active then some h.now else none := by
  obtain ⟨h1, hwait⟩ := hit.wait
  simp only [handledAt, hwait]

end Times

/-! ### The failure detector -/

section Failure
variable {M : Type} [Field M] [LinearOrder M] [FloorRing M] [Libm M] {S : Setup M}

/-- The links lead to the configured addresses. -/
theorem Run.neighbourIps {tr : List (Trace.Step (Daemon M) (Event M))} {s : Daemon M}
    (hrun : Run S tr s) (i : Fin maxNodeFan) (hi : (i : ℕ) < S.links.length) :
    s.this.node.neighbourIps i = S.links[(i : ℕ)].dstAddr := by
  refine hrun.invariant (I := fun _ s => s.this.node.neighbourIps i = S.links[(i : ℕ)].dstAddr) ?_ ?_
  · intro s h0
    obtain ⟨t, ht, h⟩ := bind_ok_iff.mp h0
    obtain ⟨⟨g, t'⟩, hg, h⟩ := bind_ok_iff.mp h
    cases h
    rw [← localNodeInit_neighbourIps ht i hi]
    dsimp only
    rw [updateGlobalThis_this hg]
    rfl
  · intro tr s ev s' _ ih hstep
    rw [hstep.sameRouter.neighbourIps]
    exact ih

/-- The addresses of the neighbours differ from link to link. -/
def Setup.DistinctAddrs (S : Setup M) : Prop := (S.links.map LinkRow.dstAddr).Nodup

variable {h h' : Host M} {tr : List (Trace.Step (Host M) (HostEvent M))} {i : Fin maxNodeFan}

omit [LinearOrder M] [FloorRing M] [Libm M] in
theorem Setup.DistinctAddrs.eq (hd : S.DistinctAddrs) {i j : Fin maxNodeFan}
    (hi : (i : ℕ) < S.links.length) (hj : (j : ℕ) < S.links.length)
    (heq : S.links[(i : ℕ)].dstAddr = S.links[(j : ℕ)].dstAddr) : i = j := by
  have hi' : (i : ℕ) < (S.links.map LinkRow.dstAddr).length := by simpa using hi
  have hj' : (j : ℕ) < (S.links.map LinkRow.dstAddr).length := by simpa using hj
  have heq' : (S.links.map LinkRow.dstAddr)[(i : ℕ)] = (S.links.map LinkRow.dstAddr)[(j : ℕ)] := by
    simpa using heq
  exact Fin.ext (hd.getElem_inj_iff.mp heq')

theorem HostRun.fromSource (hrun : HostRun S tr h) {source : Ip} {j : Fin maxNodeFan} :
    fromSource h.daemon.this source j ↔
      ∃ hj : (j : ℕ) < S.links.length, S.links[(j : ℕ)].dstAddr = source := by
  unfold Dtlsr.fromSource
  rw [(HostRun.inKernel hrun).linked.count]
  constructor
  · rintro ⟨hj, hip⟩
    have hj' : (j : ℕ) < S.links.length := by omega
    exact ⟨hj', by rw [← Run.neighbourIps (HostRun.refines hrun) j hj', hip]⟩
  · rintro ⟨hj, hip⟩
    exact ⟨by omega, by rw [Run.neighbourIps (HostRun.refines hrun) j hj, hip]⟩

/-- The heartbeats of link `i` as a watch over its neighbour. -/
def watchOf (addr : Ip) (i : Fin maxNodeFan) (tr : List (Trace.Step (Host M) (HostEvent M)))
    (h : Host M) : Timed.Watch where
  up := h.daemon.this.node.linkStatuses i = .linkUp
  expiry := h.expiry (.timer i)
  now := h.now
  last := lastHeartbeat addr tr

section Iterations
variable {addr : Ip} {ev : Event M} (arrived : List (ℕ × Packet))

/-- The watch after an iteration. -/
theorem Iterates.watch_eq (hrun : HostRun S tr h) (hit : Iterates S h ev h') :
    watchOf addr i (tr ++ [{ before := h, event := .iteration arrived, after := h' }]) h' =
      { up := (linkEffect ev.active h.daemon.this).node.linkStatuses i = .linkUp
        expiry := h'.expiry (.timer i)
        now := h.now
        last := (if ev.active.isBeat addr then some h.now else none).or (lastHeartbeat addr tr) } := by
  have hlinks := (hit.steps (HostRun.inKernel hrun)).links
  rw [watchOf, lastHeartbeat, lastHandled_snoc, handledAt_iteration hit, hlinks.linkStatuses, hit.now]

theorem Iterates.watch_kept (hrun : HostRun S tr h) (hit : Iterates S h ev h')
    (hbeat : ev.active.isBeat addr = false) (htimer : h'.expiry (.timer i) = h.expiry (.timer i))
    (hstatus : (linkEffect ev.active h.daemon.this).node.linkStatuses i =
      h.daemon.this.node.linkStatuses i) :
    watchOf addr i (tr ++ [{ before := h, event := .iteration arrived, after := h' }]) h' =
      watchOf addr i tr h := by
  rw [hit.watch_eq arrived hrun, hbeat, htimer, hstatus]
  rfl

/-- When the timer of link `i` expires, after an iteration. -/
theorem Iterates.timerExpiry (hrun : HostRun S tr h) (hi : (i : ℕ) < S.links.length)
    (hit : Iterates S h ev h') : h'.expiry (.timer i) = match ev.active with
      | .heartbeat source =>
        if fromSource h.daemon.this source i ∧ ∀ r ∈ risingLink h.daemon.this source, i ≤ r then
          some (h.now + heartbeatTimeout)
        else h.expiry (.timer i)
      | .timer k =>
        if linkOfTimer h.daemon.this (h.daemon.this.timers k).fd .linkUp = some i then none
        else h.expiry (.timer i)
      | _ => h.expiry (.timer i) := by
  have hk := HostRun.inKernel hrun
  rw [hit.expiry]
  exact expiry_timer h.expiry hk.linked hk.kept ev.active h.now hi

/-- A heartbeat of the neighbour. -/
theorem Iterates.watch_beat (hd : S.DistinctAddrs) (hrun : HostRun S tr h)
    (hi : (i : ℕ) < S.links.length) (hit : Iterates S h ev h')
    (ha : ev.active = .heartbeat S.links[(i : ℕ)].dstAddr) :
    Timed.Step heartbeatTimeout (watchOf S.links[(i : ℕ)].dstAddr i tr h)
      (watchOf S.links[(i : ℕ)].dstAddr i
        (tr ++ [{ before := h, event := .iteration arrived, after := h' }]) h') := by
  have hfrom : fromSource h.daemon.this S.links[(i : ℕ)].dstAddr i :=
    (HostRun.fromSource hrun).mpr ⟨hi, rfl⟩
  -- the link is the only one from there
  have honly : ∀ r ∈ risingLink h.daemon.this S.links[(i : ℕ)].dstAddr, r = i := by
    intro r hr
    obtain ⟨hlt, hr⟩ := (HostRun.fromSource hrun).mp (risingLink_some hr).1
    exact hd.eq hlt hi hr
  have hup : (linkEffect (.heartbeat S.links[(i : ℕ)].dstAddr) h.daemon.this).node.linkStatuses i =
      .linkUp := by
    cases hrise : risingLink h.daemon.this S.links[(i : ℕ)].dstAddr with
    | none =>
      rw [linkEffect_quiet hrise]
      exact risingLink_none hrise i hfrom
    | some r =>
      obtain rfl := honly r hrise
      rw [linkEffect_rise hrise]
      exact Function.update_self _ _ _
  have hexpiry := hit.timerExpiry hrun hi
  rw [ha] at hexpiry
  dsimp only at hexpiry
  rw [if_pos ⟨hfrom, fun r hr => (honly r hr).ge⟩] at hexpiry
  have hbeat : ev.active.isBeat S.links[(i : ℕ)].dstAddr = true := by rw [ha]; simp [Active.isBeat]
  rw [hit.watch_eq arrived hrun, hbeat, hexpiry, ha, hup]
  exact .beat

/-- A heartbeat from elsewhere. -/
theorem Iterates.watch_elsewhere (hrun : HostRun S tr h) (hi : (i : ℕ) < S.links.length)
    (hit : Iterates S h ev h') {source : Ip} (ha : ev.active = .heartbeat source)
    (hs : S.links[(i : ℕ)].dstAddr ≠ source) :
    watchOf S.links[(i : ℕ)].dstAddr i
        (tr ++ [{ before := h, event := .iteration arrived, after := h' }]) h' =
      watchOf S.links[(i : ℕ)].dstAddr i tr h := by
  have hfrom : ¬fromSource h.daemon.this source i := fun hfrom =>
    hs ((HostRun.fromSource hrun).mp hfrom).2
  have hexpiry := hit.timerExpiry hrun hi
  rw [ha] at hexpiry
  dsimp only at hexpiry
  rw [if_neg fun hset => hfrom hset.1] at hexpiry
  refine hit.watch_kept arrived hrun ?_ hexpiry ?_
  · rw [ha]
    simp [Active.isBeat, Ne.symm hs]
  · rw [ha]
    cases hrise : risingLink h.daemon.this source with
    | none =>
      rw [linkEffect_quiet hrise]
      rfl
    | some r =>
      rw [linkEffect_rise hrise]
      refine Function.update_of_ne ?_ _ _
      rintro rfl
      exact hfrom (risingLink_some hrise).1

/-- A timer that has expired was that of a link that is up. -/
theorem Iterates.expired (hrun : HostRun S tr h) (hit : Iterates S h ev h') {k : Fin maxNodeFan}
    (ha : ev.active = .timer k) :
    linkOfTimer h.daemon.this (h.daemon.this.timers k).fd .linkUp = some k ∧
      ∃ e, h.expiry (.timer k) = some e ∧ e ≤ h.now := by
  have hk := HostRun.inKernel hrun
  obtain ⟨h1, hwait⟩ := hit.wait
  obtain ⟨fd, hfd, hrec⟩ := eventWait_received hwait
  rw [ha] at hrec
  obtain rfl := Option.some.inj hrec.origin
  have hk' : (k : ℕ) < S.links.length := (hk.eventFds _).mp hfd
  obtain ⟨e, hset, hdue⟩ := hrec.expired rfl
  have harmed : (h.daemon.this.timers k).armed = true := by
    rw [← hk.timers k hk', hset]
    rfl
  refine ⟨?_, e, hset, hdue⟩
  rw [hk.linked.linkOfTimer hk' .linkUp, if_pos ((hk.linked.armed k hk').mp harmed)]

/-- A heartbeat timer expires. -/
theorem Iterates.watch_timer (hrun : HostRun S tr h) (hi : (i : ℕ) < S.links.length)
    (hit : Iterates S h ev h') {k : Fin maxNodeFan} (ha : ev.active = .timer k) :
    let w := watchOf addr i tr h
    let w' := watchOf addr i (tr ++ [{ before := h, event := .iteration arrived, after := h' }]) h'
    w' = w ∨ Timed.Step heartbeatTimeout w w' := by
  intro w w'
  obtain ⟨hlink, e, hset, hdue⟩ := hit.expired hrun ha
  have hexpiry := hit.timerExpiry hrun hi
  rw [ha] at hexpiry
  dsimp only at hexpiry
  have hbeat : ev.active.isBeat addr = false := by rw [ha]; rfl
  rcases eq_or_ne i k with rfl | hik
  · rw [if_pos hlink] at hexpiry
    have hdown : (linkEffect (.timer i) h.daemon.this).node.linkStatuses i = .linkDown := by
      rw [linkEffect_fall hlink]
      exact Function.update_self _ _ _
    refine Or.inr ?_
    rw [show w' = _ from hit.watch_eq arrived hrun, hbeat, hexpiry, ha, hdown]
    exact .expire e hset hdue
  · rw [if_neg (by rw [hlink]; simpa using hik.symm)] at hexpiry
    refine Or.inl (hit.watch_kept arrived hrun hbeat hexpiry ?_)
    rw [ha, linkEffect_fall hlink]
    exact Function.update_of_ne hik _ _

/-- An iteration is a step of the watch over each link, or leaves it as it is. -/
theorem Iterates.watch (hd : S.DistinctAddrs) (hrun : HostRun S tr h) (hi : (i : ℕ) < S.links.length)
    (hit : Iterates S h ev h') :
    let w := watchOf S.links[(i : ℕ)].dstAddr i tr h
    let w' := watchOf S.links[(i : ℕ)].dstAddr i
      (tr ++ [{ before := h, event := .iteration arrived, after := h' }]) h'
    w' = w ∨ Timed.Step heartbeatTimeout w w' := by
  have hexpiry := hit.timerExpiry hrun hi
  cases ha : ev.active with
  | heartbeat source =>
    by_cases hs : S.links[(i : ℕ)].dstAddr = source
    · exact Or.inr (hit.watch_beat arrived hd hrun hi (by rw [ha, hs]))
    · exact Or.inl (hit.watch_elsewhere arrived hrun hi ha hs)
  | timer k => exact hit.watch_timer arrived hrun hi ha
  | _ =>
    rw [ha] at hexpiry
    exact Or.inl (hit.watch_kept arrived hrun (by rw [ha]; rfl) hexpiry (by rw [ha]; rfl))

end Iterations

/-- In every run the watch over a link is exact. -/
theorem HostRun.exact (hd : S.DistinctAddrs) (hrun : HostRun S tr h) (hi : (i : ℕ) < S.links.length) :
    Timed.Exact heartbeatTimeout (watchOf S.links[(i : ℕ)].dstAddr i tr h) := by
  refine hrun.invariant
    (I := fun tr h => Timed.Exact heartbeatTimeout (watchOf S.links[(i : ℕ)].dstAddr i tr h)) ?_ ?_
  · intro h h0
    refine ⟨fun hup => ?_, fun _ => ⟨h0.expiries.1 i hi, fun t ht => by cases ht⟩⟩
    have hdown := (startUp_linked h0.startUp).2 i hi
    simp [watchOf, hdown] at hup
  · intro tr h e h' hrun ih hstep
    obtain ⟨hallowed, hstep⟩ := hstep
    cases e with
    | pass d =>
      cases hstep
      have hw := Timed.Step.exact ih (.pass d)
      unfold watchOf at hw ⊢
      rw [lastHeartbeat, lastHandled_snoc]
      exact hw
    | datagram a =>
      cases hstep
      obtain ⟨hdaemon, -, hnow, hexpiry⟩ := enqueue_frame a h
      unfold watchOf at ih ⊢
      rw [lastHeartbeat, lastHandled_snoc, hdaemon, hnow, hexpiry]
      exact ih
    | iteration arrived =>
      obtain ⟨a, hit⟩ := hostStep_iterates hallowed hstep
      rcases hit.watch arrived hd hrun hi with heq | hw
      · rw [heq]
        exact ih
      · exact hw.exact ih

/-- Whenever the loop waits, a link is up if and only if its neighbour has been heard of within
    `HEARTBEAT_TIMEOUT`. -/
theorem HostRun.up_iff (hd : S.DistinctAddrs) (hrun : HostRun S tr h) (hi : (i : ℕ) < S.links.length)
    (hwait : eventWait h = none) : h.daemon.this.node.linkStatuses i = .linkUp ↔
      ∃ t ∈ lastHeartbeat S.links[(i : ℕ)].dstAddr tr, h.now < t + heartbeatTimeout := by
  have hfd := ((HostRun.inKernel hrun).eventFds (.timer i)).mpr hi
  have hup := (HostRun.exact hd hrun hi).up_iff (eventWait_none hwait hfd rfl)
  simpa [watchOf] using hup

/-- The failure detector is exact: a link that is down has not been heard of for `HEARTBEAT_TIMEOUT`, and
    whenever the loop waits, a link is up if and only if its neighbour has been heard of within
    `HEARTBEAT_TIMEOUT`. -/
theorem failure_detector (hd : S.DistinctAddrs) (hrun : HostRun S tr h)
    (hi : (i : ℕ) < S.links.length) :
    (h.daemon.this.node.linkStatuses i = .linkDown →
      ∀ t ∈ lastHeartbeat S.links[(i : ℕ)].dstAddr tr, t + heartbeatTimeout ≤ h.now) ∧
    (eventWait h = none → (h.daemon.this.node.linkStatuses i = .linkUp ↔
      ∃ t ∈ lastHeartbeat S.links[(i : ℕ)].dstAddr tr, h.now < t + heartbeatTimeout)) := by
  refine ⟨fun hdown => ((HostRun.exact hd hrun hi).down ?_).2, HostRun.up_iff hd hrun hi⟩
  simp [watchOf, hdown]

end Failure

/-- When its neighbour has fallen silent, the link is down, and there was no heartbeat for 500 ms. -/
theorem failure_detector_fallsSilent : ∃ tr h, HostRun (twoLinks .dtlsr id (pure false)) tr h ∧
    tr.map Trace.Step.event = fallsSilent ∧ h.daemon.this.node.linkStatuses 0 = .linkDown ∧
      ¬∃ t ∈ lastHeartbeat (inetAddr 10 0 0 2) tr, h.now < t + heartbeatTimeout := by
  obtain ⟨tr, h, hrun, hevents, hwait, hdown⟩ := fallsSilent_run
  have hdistinct : (twoLinks .dtlsr id (pure false)).DistinctAddrs := by
    unfold Setup.DistinctAddrs
    decide
  refine ⟨tr, h, hrun, hevents, hdown, fun hheard => ?_⟩
  have hup := ((failure_detector (i := 0) hdistinct hrun (by decide)).2 hwait).mpr hheard
  rw [hdown] at hup
  cases hup

/-! ### The periodic timers -/

section Periodic
variable {M : Type} [Field M] [LinearOrder M] [FloorRing M] [Libm M] {S : Setup M} {h h' : Host M}
  {tr : List (Trace.Step (Host M) (HostEvent M))} {fd : Fd}

/-- The last time at which the timer `fd` has been handled. -/
def lastFired (fd : Fd) : List (Trace.Step (Host M) (HostEvent M)) → Option ℕ :=
  lastHandled fun a => a.fd = some fd

/-- A periodic timer as a bell that has first been set at the start. -/
def bellOf (fd : Fd) (tr : List (Trace.Step (Host M) (HostEvent M))) (h : Host M) : Timed.Bell where
  expiry := h.expiry fd
  now := h.now
  last := (lastFired fd tr).getD (startTime tr h)

/-- A timer that is set to its period at the start and whenever it is handled is always set to its period
    after it was last handled. -/
theorem HostRun.bell {period : ℕ}
    (hstart : ∀ h : Host M, HostStart S h → h.expiry fd = some (h.now + period))
    (hset : ∀ (tr : List (Trace.Step (Host M) (HostEvent M))) (h h' : Host M) (ev : Event M),
      HostRun S tr h → Iterates S h ev h' →
        h'.expiry fd = if ev.active.fd = some fd then some (h.now + period) else h.expiry fd)
    (hrun : HostRun S tr h) : (bellOf fd tr h).Set period := by
  refine hrun.invariant (I := fun tr h => (bellOf fd tr h).Set period) ?_ ?_
  · intro h h0
    exact hstart h h0
  · intro tr h e h' hrun ih hstep
    obtain ⟨hallowed, hstep⟩ := hstep
    cases e with
    | pass d =>
      cases hstep
      have hb := Timed.Rings.set ih (.pass d)
      unfold bellOf lastFired at hb ⊢
      rw [lastHandled_snoc, startTime_snoc]
      exact hb
    | datagram a =>
      cases hstep
      obtain ⟨hdaemon, -, hnow, hexpiry⟩ := enqueue_frame a h
      unfold bellOf lastFired at ih ⊢
      rw [lastHandled_snoc, startTime_snoc, hnow, hexpiry]
      exact ih
    | iteration arrived =>
      obtain ⟨a, hit⟩ := hostStep_iterates hallowed hstep
      have hexpiry := hset tr h h' _ hrun hit
      unfold bellOf lastFired at ih ⊢
      rw [lastHandled_snoc, startTime_snoc, handledAt_iteration hit, hit.now, hexpiry]
      by_cases hfd : a.fd = some fd
      · simp only [hfd, if_pos, decide_true]
        exact Timed.Rings.set ih .ring
      · simp only [hfd, if_neg, decide_false, Bool.false_eq_true, not_false_eq_true, Option.none_or]
        exact ih

theorem HostRun.sndBell (hrun : HostRun S tr h) : (bellOf .routerLsaSndTimer tr h).Set lsaSendT := by
  refine hrun.bell (fun _ h0 => h0.expiries.2.1) fun tr h h' ev hrun hit => ?_
  have hk := HostRun.inKernel hrun
  rw [hit.expiry, (expiry_periodic _ hk.linked hk.kept ev.active h.now).1]
  cases ev.active <;> rfl

theorem HostRun.recomputationBell (hb : S.build = .dtlsr) (hrun : HostRun S tr h) :
    (bellOf .recomputationTimer tr h).Set metricRecomputationT := by
  refine hrun.bell (fun _ h0 => h0.expiries.2.2.2 hb) fun tr h h' ev hrun hit => ?_
  have hk := HostRun.inKernel hrun
  rw [hit.expiry, (expiry_periodic _ hk.linked hk.kept ev.active h.now).2]
  cases ev.active <;> rfl

/-- The step sends the router's own record to each of its neighbours. -/
def SendsOwn (st : Trace.Step (Host M) (HostEvent M)) : Prop :=
  ∃ lsa, st.after.daemon.originated = st.before.daemon.originated ++ [lsa] ∧
    st.after.daemon.sent = st.before.daemon.sent ++ sendRouterLsa st.before.daemon.this.node lsa

/-- The LSA timer makes an iteration send. -/
theorem Steps.sendsOwn {ev : Event M} {s s' : Daemon M} (hstep : Steps S s ev s')
    (ha : ev.active = .routerLsaSndTimer) : ∃ lsa, s'.originated = s.originated ++ [lsa] ∧
      s'.sent = s.sent ++ sendRouterLsa s.this.node lsa := by
  obtain ⟨c, -, ⟨hidle, -⟩ | ⟨_, _, s3, f, s4, h3, h4, h5⟩⟩ := hstep.calls
  · rw [ha] at hidle
    cases hidle
  · rw [ha] at h3
    cases handleEvent_handles h3 with
    | routerLsaSndTimer =>
      obtain ⟨hsent, horig⟩ := afterEvent_sends h4 rfl
      rw [(captureAfter_ok h5).1]
      exact ⟨_, horig, hsent⟩

/-- The last time at which the LSA timer was handled is the time of a step that sends. -/
theorem HostRun.lastFired_sends (hrun : HostRun S tr h) :
    ∀ t ∈ lastFired .routerLsaSndTimer tr, ∃ st ∈ tr, st.before.now = t ∧ SendsOwn st := by
  intro t ht
  obtain ⟨st, hst, htime⟩ := List.mem_filterMap.mp (List.mem_of_getLast? ht)
  obtain ⟨pre, post, rfl⟩ := List.append_of_mem hst
  obtain ⟨hpre, hallowed, hstep⟩ := hrun.until
  refine ⟨st, hst, ?_⟩
  obtain ⟨before, event, after⟩ := st
  cases event with
  | pass d => cases htime
  | datagram a => cases htime
  | iteration arrived =>
    obtain ⟨a, hit⟩ := hostStep_iterates hallowed hstep
    rw [handledAt_iteration hit] at htime
    split at htime
    · rename_i hfd
      have ha : a = .routerLsaSndTimer := by
        have hfd := of_decide_eq_true hfd
        cases a <;> first | rfl | cases hfd
      exact ⟨Option.some.inj htime, (hit.steps (HostRun.inKernel hpre)).sendsOwn ha⟩
    · cases htime

theorem HostRun.lastHandled_le {p : Active M → Bool} (hrun : HostRun S tr h) :
    ∀ t ∈ lastHandled p tr, t ≤ h.now := by
  refine hrun.invariant (I := fun tr h => ∀ t ∈ lastHandled p tr, t ≤ h.now) ?_ ?_
  · intro h _ t ht
    cases ht
  · intro tr h e h' hrun ih hstep t ht
    obtain ⟨hallowed, hstep⟩ := hstep
    rw [lastHandled_snoc] at ht
    cases e with
    | pass d =>
      cases hstep
      exact (ih t ht).trans (Nat.le_add_right _ _)
    | datagram a =>
      cases hstep
      rw [(enqueue_frame a h).2.2.1]
      exact ih t ht
    | iteration arrived =>
      obtain ⟨a, hit⟩ := hostStep_iterates hallowed hstep
      rw [handledAt_iteration hit] at ht
      rw [hit.now]
      split at ht
      · exact (Option.some.inj ht).ge
      · exact ih t ht

/-- The next hops have been computed by a step that is not older than the last handling of the
    recomputation timer. -/
theorem HostRun.computed (hrun : HostRun S tr h) : ∀ t ∈ lastFired .recomputationTimer tr,
    ∃ st ∈ tr, t ≤ st.before.now ∧
      pathfind S.build st.after.daemon.graph S.id = .ok h.daemon.nextHops := by
  refine hrun.invariant (I := fun tr h => ∀ t ∈ lastFired .recomputationTimer tr,
    ∃ st ∈ tr, t ≤ st.before.now ∧
      pathfind S.build st.after.daemon.graph S.id = .ok h.daemon.nextHops) ?_ ?_
  · intro h _ t ht
    cases ht
  · intro tr h e h' hrun ih hstep t ht
    obtain ⟨hallowed, hstep⟩ := hstep
    rw [lastFired, lastHandled_snoc] at ht
    cases e with
    | pass d =>
      cases hstep
      obtain ⟨st, hst, hle, hpath⟩ := ih t ht
      exact ⟨st, List.mem_append_left _ hst, hle, hpath⟩
    | datagram a =>
      cases hstep
      obtain ⟨st, hst, hle, hpath⟩ := ih t ht
      exact ⟨st, List.mem_append_left _ hst, hle, by rw [(enqueue_frame a h).1]; exact hpath⟩
    | iteration arrived =>
      obtain ⟨a, hit⟩ := hostStep_iterates hallowed hstep
      rw [handledAt_iteration hit] at ht
      have hk := HostRun.inKernel hrun
      have hsteps := hit.steps hk
      have hid : h'.daemon.this.node.id = S.id := (hk.iterate hit).linked.id
      have hroutes := hsteps.routes
      rw [hid] at hroutes
      have hnew : pathfind S.build h'.daemon.graph S.id = .ok h'.daemon.nextHops → t ≤ h.now →
          ∃ st ∈ tr ++ [({ before := h, event := .iteration arrived, after := h' } :
              Trace.Step (Host M) (HostEvent M))], t ≤ st.before.now ∧
            pathfind S.build st.after.daemon.graph S.id = .ok h'.daemon.nextHops := fun hpath hle =>
        ⟨_, List.mem_append_right _ (List.mem_singleton.mpr rfl), hle, hpath⟩
      have hold : t ∈ lastFired .recomputationTimer tr → h'.daemon.nextHops = h.daemon.nextHops →
          ∃ st ∈ tr ++ [({ before := h, event := .iteration arrived, after := h' } :
              Trace.Step (Host M) (HostEvent M))], t ≤ st.before.now ∧
            pathfind S.build st.after.daemon.graph S.id = .ok h'.daemon.nextHops := by
        intro ht hsame
        obtain ⟨st, hst, hle, hpath⟩ := ih t ht
        exact ⟨st, List.mem_append_left _ hst, hle, by rw [hsame]; exact hpath⟩
      cases a with
      | recomputationTimer => exact hnew hroutes (Option.some.inj ht).ge
      | routerLsa lsa source => exact hold ht hroutes.2
      | networkLsa others => exact hold ht hroutes.2
      | _ =>
        rcases hroutes with ⟨hpath, -⟩ | ⟨-, hsame, -⟩
        · exact hnew hpath (HostRun.lastHandled_le hrun t ht)
        · exact hold ht hsame

/-- Nothing grows stale: whenever the loop waits, the router has sent its own LSA to its neighbours
    within `LSA_SEND_T`, the last one that it has sent shows the present statuses of its links, and in
    the DTLSR build its next hops have been computed from its graph within `METRIC_RECOMPUTATION_T`;
    unless it started less than that ago. -/
theorem never_stale (hrun : HostRun S tr h) (hwait : eventWait h = none) :
    (h.now < startTime tr h + lsaSendT ∨
      ∃ st ∈ tr, h.now < st.before.now + lsaSendT ∧ SendsOwn st) ∧
    (∀ lsa ∈ h.daemon.originated.getLast?, SameStatuses lsa h.daemon.this.node) ∧
    (S.build = .dtlsr → h.now < startTime tr h + metricRecomputationT ∨
      ∃ st ∈ tr, h.now < st.before.now + metricRecomputationT ∧
        pathfind S.build st.after.daemon.graph S.id = .ok h.daemon.nextHops) := by
  have hk := HostRun.inKernel hrun
  have hrecent : ∀ (fd : Fd) {period : ℕ}, fd.Watched S → fd.isTimer = true →
      (bellOf fd tr h).Set period → h.now < (lastFired fd tr).getD (startTime tr h) + period :=
    fun _ _ hfd htimer hbell => eventWait_none hwait ((hk.eventFds _).mpr hfd) htimer _ hbell
  refine ⟨?_, Run.announced (HostRun.refines hrun), fun hb => ?_⟩
  · have hlt := hrecent .routerLsaSndTimer trivial rfl (HostRun.sndBell hrun)
    cases hlast : lastFired .routerLsaSndTimer tr with
    | none =>
      rw [hlast] at hlt
      exact Or.inl hlt
    | some t =>
      rw [hlast] at hlt
      obtain ⟨st, hst, rfl, hsends⟩ := HostRun.lastFired_sends hrun t hlast
      exact Or.inr ⟨st, hst, hlt, hsends⟩
  · have hlt := hrecent .recomputationTimer hb rfl (HostRun.recomputationBell hb hrun)
    cases hlast : lastFired .recomputationTimer tr with
    | none =>
      rw [hlast] at hlt
      exact Or.inl hlt
    | some t =>
      rw [hlast, Option.getD_some] at hlt
      obtain ⟨st, hst, hle, hpath⟩ := HostRun.computed hrun t hlast
      exact Or.inr ⟨st, hst, by omega, hpath⟩

end Periodic

theorem never_stale_fallsSilent : ∃ tr h, HostRun (twoLinks .dtlsr id (pure false)) tr h ∧
    tr.map Trace.Step.event = fallsSilent ∧
      (h.now < startTime tr h + lsaSendT ∨ ∃ st ∈ tr, h.now < st.before.now + lsaSendT ∧ SendsOwn st) ∧
      (∀ lsa ∈ h.daemon.originated.getLast?, SameStatuses lsa h.daemon.this.node) ∧
      (h.now < startTime tr h + metricRecomputationT ∨
        ∃ st ∈ tr, h.now < st.before.now + metricRecomputationT ∧
          pathfind .dtlsr st.after.daemon.graph 1 = .ok h.daemon.nextHops) := by
  obtain ⟨tr, h, hrun, hevents, hwait, -⟩ := fallsSilent_run
  obtain ⟨hsent, hlast, hcomputed⟩ := never_stale hrun hwait
  exact ⟨tr, h, hrun, hevents, hsent, hlast, hcomputed rfl⟩

end Dtlsr
