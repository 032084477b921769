import Dtlsr.Timely

/-!
    `heartbeat_main.c`: the daemon that sends a heartbeat to every neighbour in each `HEARTBEAT_T`, and a
    router at the other end of one of its links. If the daemon is not late, and the link neither too slow
    nor loses too many heartbeats in a row, the router never waits with the link down. Once no heartbeat
    has come for `HEARTBEAT_TIMEOUT`, it never waits with the link up. -/

namespace Dtlsr
open Checked

def heartbeatT : ℕ := 100000000

section Code
variable {M : Type}

/-- The heartbeat daemon, with the time at which the kernel lets its timer expire. -/
structure Beater (M : Type) where
  this : LocalNode M
  expiry : ℕ

variable [Field M]

/-- `driver` up to its loop: `event_timer_append` sets the timer. -/
def beaterStart (N : Setup M) (now : ℕ) : Exec (Beater M) := do
  pure { this := ← localNodeInit N (N.clock 0), expiry := now + heartbeatT }

/-- `event_wait` returns the timer. -/
def Beater.ready (b : Beater M) (now : ℕ) : Prop := b.expiry ≤ now

instance (b : Beater M) (now : ℕ) : Decidable (b.ready now) := by unfold Beater.ready; infer_instance

/-- An iteration of the loop: the timer is set again, and a heartbeat goes to every neighbour. -/
def beaterIter (b : Beater M) (now : ℕ) : Beater M × List Ip :=
  ({ b with expiry := now + heartbeatT }, neighbourAddrs b.this.node)

/-- A router, the heartbeat daemon at the other end of one of its links, and the link between them. -/
structure Watched (M : Type) where
  host : Host M
  beater : Beater M
  /-- the heartbeats on their way to the router, with the times at which they were sent -/
  air : List ℕ
  /-- not in the program: when the last one was sent that has left the link, when the last one that has
      arrived, and how many have been lost since then -/
  off : ℕ
  heard : Option ℕ
  lost : ℕ

/-- The link between the daemon and the router. -/
def Watched.wire (w : Watched M) : Timed.Wire where
  now := w.host.now
  expiry := w.beater.expiry
  air := w.air
  off := w.off
  heard := w.heard
  lost := w.lost

inductive WatchedEvent (M : Type) where
  /-- time passes, a datagram arrives from anywhere, or the router makes an iteration -/
  | host (e : HostEvent M)
  /-- the heartbeat daemon makes an iteration -/
  | beat
  /-- the next heartbeat arrives, or is lost -/
  | arrive
  | lose

variable [LinearOrder M] [FloorRing M] [Libm M] (S : Setup M) (src dst : Ip)

/-- The heartbeats come from the address `src`, and are sent to `dst`. -/
def watchedStep (e : WatchedEvent M) (w : Watched M) : Exec (Watched M) :=
  match e with
  | .host e => do pure { w with host := ← hostStep S e w.host }
  | .beat =>
    let (beater, sent) := beaterIter w.beater w.host.now
    pure { w with beater, air := w.air ++ (sent.filter fun ip => ip = dst).map fun _ => w.host.now }
  | .arrive =>
    match w.air with
    | [] => pure w
    | t :: rest =>
      pure
        { w with
          host := enqueue (.heartbeat src) w.host
          air := rest
          off := t
          heard := some t
          lost := 0 }
  | .lose =>
    match w.air with
    | [] => pure w
    | t :: rest => pure { w with air := rest, off := t, lost := w.lost + 1 }

def WatchedAllowed (w : Watched M) (e : WatchedEvent M) : Prop :=
  match e with
  | .host e => HostAllowed w.host e
  | .beat => w.beater.ready w.host.now
  | .arrive | .lose => w.air ≠ []

/-- The router has started, and the daemon starts at the time `start`. -/
structure WatchedStart (N : Setup M) (start : ℕ) (w : Watched M) : Prop where
  host : HostStart S w.host
  beater : beaterStart N start = .ok w.beater
  air : w.air = []
  off : w.off = start
  heard : w.heard = none
  lost : w.lost = 0

/-- The runs of the router, the daemon and the link. -/
abbrev WatchedRun (N : Setup M) (start : ℕ) :
    List (Trace.Step (Watched M) (WatchedEvent M)) → Watched M → Prop :=
  Trace.Run (WatchedStart S N start)
    fun w e w' => WatchedAllowed w e ∧ watchedStep S src dst e w = .ok w'

end Code

/-! ### The router's side -/

section Host
variable {M : Type} [Field M] [LinearOrder M] [FloorRing M] [Libm M] {S : Setup M} {h h' h1 : Host M}
  {tr : List (Trace.Step (Host M) (HostEvent M))} {addr : Ip} {t : ℕ}

omit [Field M] [LinearOrder M] [FloorRing M] [Libm M] in
/-- What is received is the first heartbeat of the socket, or no heartbeat. -/
theorem receive_hbSock {fd : Fd} {a : Active M} (hrec : receive h fd = some (a, h1)) :
    (∃ source, a = .heartbeat source ∧ h.hbSock = source :: h1.hbSock) ∨
      (∀ source, a ≠ .heartbeat source) ∧ h1.hbSock = h.hbSock := by
  cases fd with
  | hbSock =>
    unfold receive at hrec
    dsimp only at hrec
    split at hrec
    · cases hrec
    · rename_i source rest heq
      cases hrec
      exact Or.inl ⟨source, rfl, heq⟩
  | routerLsaRecSock | networkLsaRecSock | networkLsaRecRequestSock =>
    unfold receive at hrec
    dsimp only at hrec
    split at hrec
    · cases hrec
    · cases hrec
      exact Or.inr ⟨nofun, rfl⟩
  | _ =>
    unfold receive at hrec
    dsimp only at hrec
    split at hrec
    · cases hrec
      exact Or.inr ⟨nofun, rfl⟩
    · cases hrec

/-- A heartbeat joins those in the socket, the first of them is handled, or they stay as they are. -/
theorem hostStep_hbSock {e : HostEvent M} (hallowed : HostAllowed h e) (hstep : hostStep S e h = .ok h')
    {st : Trace.Step (Host M) (HostEvent M)} (hst : st = { before := h, event := e, after := h' }) :
    (∃ source, e = .datagram (.heartbeat source) ∧ h'.hbSock = h.hbSock ++ [source] ∧
        handledAt (Active.isBeat addr) st = none) ∨
      (∃ source, h.hbSock = source :: h'.hbSock ∧
        handledAt (Active.isBeat addr) st = if source = addr then some h.now else none) ∨
      h'.hbSock = h.hbSock ∧ handledAt (Active.isBeat addr) st = none := by
  subst hst
  cases e with
  | pass d =>
    cases hstep
    exact Or.inr (Or.inr ⟨rfl, rfl⟩)
  | datagram a =>
    cases hstep
    cases a with
    | heartbeat source => exact Or.inl ⟨source, rfl, rfl, rfl⟩
    | _ => exact Or.inr (Or.inr ⟨rfl, rfl⟩)
  | iteration arrived =>
    obtain ⟨⟨a, h1⟩, hwait⟩ := Option.isSome_iff_exists.mp hallowed
    obtain ⟨fd, -, hrec⟩ := List.exists_of_findSome?_eq_some hwait
    unfold hostStep at hstep
    dsimp only at hstep
    rw [hwait] at hstep
    obtain ⟨d, -, hstep⟩ := bind_ok_iff.mp hstep
    cases hstep
    obtain ⟨source, rfl, hfirst⟩ | ⟨hother, hsame⟩ := receive_hbSock hrec
    · refine Or.inr (Or.inl ⟨source, hfirst, ?_⟩)
      simp [handledAt, hwait, Active.isBeat]
    · refine Or.inr (Or.inr ⟨hsame, ?_⟩)
      cases a with
      | heartbeat source => exact absurd rfl (hother source)
      | _ => simp [handledAt, hwait, Active.isBeat]

/-- A heartbeat that was sent at `t` or later waits in the socket, or has been handled since `t`. -/
def Heard (addr : Ip) (t : ℕ) (tr : List (Trace.Step (Host M) (HostEvent M))) (h : Host M) : Prop :=
  t ≤ h.now ∧ (addr ∈ h.hbSock ∨ ∃ u ∈ lastHeartbeat addr tr, t ≤ u)

theorem hostStep_now {e : HostEvent M} (hallowed : HostAllowed h e) (hstep : hostStep S e h = .ok h') :
    h.now ≤ h'.now := by
  cases e with
  | pass d =>
    cases hstep
    exact Nat.le_add_right _ _
  | datagram a =>
    cases hstep
    exact (enqueue_frame a h).2.2.1.ge
  | iteration arrived =>
    obtain ⟨a, hit⟩ := hostStep_iterates hallowed hstep
    exact hit.now.ge

theorem Heard.step {e : HostEvent M} (hheard : Heard addr t tr h) (hallowed : HostAllowed h e)
    (hstep : hostStep S e h = .ok h') :
    Heard addr t (tr ++ [{ before := h, event := e, after := h' }]) h' := by
  obtain ⟨hnow, hwhere⟩ := hheard
  refine ⟨hnow.trans (hostStep_now hallowed hstep), ?_⟩
  rw [lastHeartbeat, lastHandled_snoc]
  obtain ⟨source, -, hsock, hhandled⟩ | ⟨source, hsock, hhandled⟩ | ⟨hsock, hhandled⟩ :=
    hostStep_hbSock hallowed hstep rfl
  · rw [hsock, hhandled, Option.none_or]
    exact hwhere.imp_left (List.mem_append_left _)
  · rw [hhandled]
    split
    · exact Or.inr ⟨h.now, rfl, hnow⟩
    · rename_i hne
      rw [hsock, List.mem_cons, or_iff_right (Ne.symm hne)] at hwhere
      exact hwhere
  · rw [hsock, hhandled, Option.none_or]
    exact hwhere

/-- While the loop waits, no heartbeat does. -/
theorem HostRun.hbSock_nil (hrun : HostRun S tr h) (hwait : eventWait h = none) : h.hbSock = [] := by
  have hfd := ((HostRun.inKernel hrun).eventFds .hbSock).mpr trivial
  have hnone := List.findSome?_eq_none_iff.mp hwait _ hfd
  unfold receive at hnone
  dsimp only at hnone
  split at hnone
  · assumption
  · cases hnone

/-- No heartbeat from the address reaches the router. -/
def Silent (addr : Ip) (st : Trace.Step (Host M) (HostEvent M)) : Prop :=
  st.event ≠ .datagram (.heartbeat addr)

theorem hostStep_silent {e : HostEvent M} (hallowed : HostAllowed h e) (hstep : hostStep S e h = .ok h')
    (hsilent : Silent addr { before := h, event := e, after := h' }) (hnone : addr ∉ h.hbSock) :
    addr ∉ h'.hbSock ∧ handledAt (Active.isBeat addr)
      ({ before := h, event := e, after := h' } : Trace.Step (Host M) (HostEvent M)) = none := by
  obtain ⟨source, rfl, hsock, hhandled⟩ | ⟨source, hsock, hhandled⟩ | ⟨hsock, hhandled⟩ :=
    hostStep_hbSock hallowed hstep rfl
  · have hne : addr ≠ source := by
      rintro rfl
      exact hsilent rfl
    rw [hsock, List.mem_append, List.mem_singleton]
    exact ⟨not_or.mpr ⟨hnone, hne⟩, hhandled⟩
  · rw [hsock, List.mem_cons, not_or] at hnone
    rw [hhandled, if_neg (Ne.symm hnone.1)]
    exact ⟨hnone.2, rfl⟩
  · rw [hsock]
    exact ⟨hnone, hhandled⟩

/-- A neighbour that is silent is found dead. Where no heartbeat has come from the neighbour for
    `HEARTBEAT_TIMEOUT` since the loop last waited, it does not wait again with the link up. -/
theorem silent_neighbour_down (hd : S.DistinctAddrs) {i : Fin maxNodeFan}
    (hi : (i : ℕ) < S.links.length) {h0 : Host M} (hrun : HostRun S tr h0) (hwait0 : eventWait h0 = none)
    {tr' : List (Trace.Step (Host M) (HostEvent M))}
    (hrun' : Trace.Run (fun h => h = h0) (fun h e h' => HostAllowed h e ∧ hostStep S e h = .ok h') tr' h)
    (hsilent : ∀ st ∈ tr', Silent S.links[(i : ℕ)].dstAddr st)
    (hlong : h0.now + heartbeatTimeout ≤ h.now) (hwait : eventWait h = none) :
    h.daemon.this.node.linkStatuses i = .linkDown := by
  have hsame : HostRun S (tr ++ tr') h ∧ S.links[(i : ℕ)].dstAddr ∉ h.hbSock ∧
      lastHeartbeat S.links[(i : ℕ)].dstAddr (tr ++ tr') =
        lastHeartbeat S.links[(i : ℕ)].dstAddr tr := by
    refine hrun'.invariant (I := fun tr' h => (∀ st ∈ tr', Silent S.links[(i : ℕ)].dstAddr st) →
      HostRun S (tr ++ tr') h ∧ S.links[(i : ℕ)].dstAddr ∉ h.hbSock ∧
        lastHeartbeat S.links[(i : ℕ)].dstAddr (tr ++ tr') =
          lastHeartbeat S.links[(i : ℕ)].dstAddr tr) ?_ ?_ hsilent
    · rintro _ rfl -
      rw [List.append_nil, HostRun.hbSock_nil hrun hwait0]
      exact ⟨hrun, List.not_mem_nil, rfl⟩
    · rintro tr' h e h' - ih ⟨hallowed, hstep⟩ hsilent
      obtain ⟨hall, hnone, hlast⟩ := ih fun st hst => hsilent st (List.mem_append_left _ hst)
      obtain ⟨hnone', hhandled⟩ := hostStep_silent hallowed hstep
        (hsilent _ (List.mem_append_right _ (List.mem_singleton_self _))) hnone
      rw [← List.append_assoc]
      refine ⟨hall.step ⟨hallowed, hstep⟩, hnone', ?_⟩
      rw [← hlast]
      unfold lastHeartbeat
      rw [lastHandled_snoc, hhandled, Option.none_or]
  obtain ⟨hall, -, hlast⟩ := hsame
  cases hstatus : h.daemon.this.node.linkStatuses i with
  | linkDown => rfl
  | linkUp =>
    obtain ⟨u, hu, hlt⟩ := (HostRun.up_iff hd hall hi hwait).mp hstatus
    have hbefore := HostRun.lastHandled_le hrun u (hlast ▸ hu)
    omega

end Host

/-- When its neighbour falls silent, the first link goes down. -/
theorem silent_neighbour_down_fallsSilent : ∃ tr h, HostRun (twoLinks .dtlsr id (pure false)) tr h ∧
    tr.map Trace.Step.event = fallsSilent ∧ h.daemon.this.node.linkStatuses 0 = .linkDown := by
  have hstart : startUp (twoLinks .dtlsr id (pure false)) = .ok twoLinksStart :=
    ok_of_toOption (Option.some_get _).symm
  have hrun : ∃ tr h, HostRun (twoLinks .dtlsr id (pure false)) tr h ∧
      tr.map Trace.Step.event = fallsSilent ∧
      (tr.take 2).getLast?.any (fun st => (eventWait st.after).isNone = true ∧ st.after.now = 0) = true ∧
      tr.getLast?.any (fun st => (eventWait st.after).isNone = true ∧
        heartbeatTimeout ≤ st.after.now) = true :=
    Trace.exists_follow (hostAt_start hstart 0) fallsSilent (by decide +kernel)
  obtain ⟨tr, h, hrun, hevents, hfirst, hlast⟩ := hrun
  obtain ⟨last, -, rfl, hend⟩ := hrun.at_end hlast
  obtain ⟨hwait, hlong⟩ := of_decide_eq_true hend
  obtain ⟨h0, hrun0, hrun'⟩ :=
    Trace.Run.split (show HostRun _ (tr.take 2 ++ tr.drop 2) _ by rwa [List.take_append_drop])
  obtain ⟨st, -, rfl, hst⟩ := hrun0.at_end hfirst
  obtain ⟨hwait0, hnow⟩ := of_decide_eq_true hst
  have hsilent : ∀ later ∈ tr.drop 2, Silent (inetAddr 10 0 0 2) later := by
    intro later hlater hbeat
    have hmem : later.event ∈ fallsSilent.drop 2 := by
      rw [← hevents, ← List.map_drop]
      exact List.mem_map_of_mem hlater
    rw [hbeat] at hmem
    simp [fallsSilent] at hmem
  have hdistinct : (twoLinks .dtlsr id (pure false)).DistinctAddrs := by
    unfold Setup.DistinctAddrs
    decide
  exact ⟨tr, _, hrun, hevents, silent_neighbour_down (i := 0) hdistinct (by decide) hrun0
    (Option.isNone_iff_eq_none.mp hwait0) hrun' hsilent (by rwa [hnow, Nat.zero_add])
    (Option.isNone_iff_eq_none.mp hwait)⟩

/-! ### Both sides -/

section Watched
variable {M : Type} [Field M] [LinearOrder M] [FloorRing M] [Libm M] {S N : Setup M} {src dst : Ip}
  {start lag delay k : ℕ} {w w' : Watched M} {e : WatchedEvent M}
  {tr : List (Trace.Step (Watched M) (WatchedEvent M))}

/-- What holds in every run of the three, where `htr` is that of the router. -/
structure Beaten (S N : Setup M) (src : Ip) (start lag : ℕ)
    (htr : List (Trace.Step (Host M) (HostEvent M))) (w : Watched M) : Prop where
  host : HostRun S htr w.host
  addrs : ∀ ip, ip ∈ neighbourAddrs w.beater.this.node ↔ ip ∈ N.dstAddrs
  spaced : w.wire.Spaced heartbeatT (heartbeatT + lag) start
  sent : ∀ t ∈ w.air, t ≤ w.host.now
  heard : ∀ t ∈ w.heard, Heard src t htr w.host

theorem WatchedStart.beaten (h0 : WatchedStart S N start w) : Beaten S N src start lag [] w := by
  obtain ⟨t, ht, hb⟩ := bind_ok_iff.mp h0.beater
  have hb : w.beater = { this := t, expiry := start + heartbeatT } := (Except.ok.inj hb).symm
  refine ⟨.start h0.host, ?_, ⟨?_, ?_, ?_⟩, ?_, ?_⟩
  · rw [hb]
    exact localNodeInit_addrs ht
  · simp [Watched.wire, h0.air]
  · simp [Watched.wire, h0.air, h0.off, hb]
  · simp [Watched.wire, h0.heard, h0.lost, h0.off]
  · simp [h0.air]
  · simp [h0.heard]

/-- A step of the three is one of the link, or leaves it as it is. -/
theorem Beaten.wire {htr : List (Trace.Step (Host M) (HostEvent M))}
    (h : Beaten S N src start lag htr w) (hdst : dst ∈ N.dstAddrs) (hallowed : WatchedAllowed w e)
    (hstep : watchedStep S src dst e w = .ok w') :
    w'.wire = w.wire ∨ w.wire.Step heartbeatT w'.wire := by
  cases e with
  | host e =>
    obtain ⟨h', hhost, hstep⟩ := bind_ok_iff.mp hstep
    cases hstep
    cases e with
    | pass d =>
      cases hhost
      exact Or.inr (.pass d)
    | datagram a =>
      cases hhost
      refine Or.inl ?_
      simp only [Watched.wire, (enqueue_frame a w.host).2.2.1]
    | iteration arrived =>
      obtain ⟨a, hit⟩ := hostStep_iterates hallowed hhost
      refine Or.inl ?_
      simp only [Watched.wire, hit.now]
  | beat =>
    cases hstep
    have hto : dst ∈ (neighbourAddrs w.beater.this.node).filter fun ip => ip = dst :=
      List.mem_filter.mpr ⟨(h.addrs dst).mpr hdst, by simp⟩
    obtain ⟨n, hn⟩ := Nat.exists_eq_succ_of_ne_zero (List.length_pos_of_mem hto).ne'
    have hring := @Timed.Wire.Step.ring heartbeatT w.wire n hallowed
    refine Or.inr ?_
    simp only [Watched.wire, List.map_const', hn]
    exact hring
  | arrive =>
    unfold watchedStep at hstep
    dsimp only at hstep
    split at hstep
    · cases hstep
      exact Or.inl rfl
    · rename_i t rest hair
      cases hstep
      exact Or.inr (.arrive t rest hair)
  | lose =>
    unfold watchedStep at hstep
    dsimp only at hstep
    split at hstep
    · cases hstep
      exact Or.inl rfl
    · rename_i t rest hair
      cases hstep
      exact Or.inr (.lose t rest hair)

theorem Beaten.step {htr : List (Trace.Step (Host M) (HostEvent M))}
    (h : Beaten S N src start lag htr w) (hdst : dst ∈ N.dstAddrs)
    (hring : w.wire.now ≤ w.wire.expiry + lag) (hallowed : WatchedAllowed w e)
    (hstep : watchedStep S src dst e w = .ok w') : ∃ htr', Beaten S N src start lag htr' w' := by
  have hspaced : w'.wire.Spaced heartbeatT (heartbeatT + lag) start := by
    rcases h.wire hdst hallowed hstep with heq | hwire
    · rw [heq]
      exact h.spaced
    · exact hwire.spaced le_rfl h.spaced hring
  cases e with
  | host e =>
    obtain ⟨h', hhost, hstep⟩ := bind_ok_iff.mp hstep
    cases hstep
    exact ⟨_, h.host.step ⟨hallowed, hhost⟩, h.addrs, hspaced,
      fun t ht => (h.sent t ht).trans (hostStep_now hallowed hhost),
      fun t ht => (h.heard t ht).step hallowed hhost⟩
  | beat =>
    cases hstep
    refine ⟨htr, h.host, h.addrs, hspaced, fun t ht => ?_, h.heard⟩
    rcases List.mem_append.mp ht with ht | ht
    · exact h.sent t ht
    · obtain ⟨ip, -, rfl⟩ := List.mem_map.mp ht
      exact le_rfl
  | arrive =>
    unfold watchedStep at hstep
    dsimp only at hstep
    split at hstep
    · cases hstep
      exact ⟨htr, h⟩
    · rename_i t rest hair
      cases hstep
      have hhost : HostAllowed w.host (.datagram (.heartbeat src)) ∧
          hostStep S (.datagram (.heartbeat src)) w.host = .ok (enqueue (.heartbeat src) w.host) :=
        ⟨trivial, rfl⟩
      refine ⟨_, h.host.step hhost, h.addrs, hspaced,
        fun t' ht' => h.sent t' (hair ▸ List.mem_cons_of_mem _ ht'), fun t' ht' => ?_⟩
      obtain rfl : t = t' := Option.mem_some_iff.mp ht'
      exact ⟨h.sent t (hair ▸ List.mem_cons_self), Or.inl (by simp [enqueue])⟩
  | lose =>
    unfold watchedStep at hstep
    dsimp only at hstep
    split at hstep
    · cases hstep
      exact ⟨htr, h⟩
    · rename_i t rest hair
      cases hstep
      exact ⟨htr, h.host, h.addrs, hspaced, fun t' ht' => h.sent t' (hair ▸ List.mem_cons_of_mem _ ht'),
        h.heard⟩

theorem WatchedRun.beaten (hdst : dst ∈ N.dstAddrs) (hrun : WatchedRun S src dst N start tr w)
    (hring : ∀ st ∈ tr, st.before.wire.now ≤ st.before.wire.expiry + lag) :
    ∃ htr, Beaten S N src start lag htr w := by
  refine hrun.invariant (I := fun tr w =>
    (∀ st ∈ tr, st.before.wire.now ≤ st.before.wire.expiry + lag) →
      ∃ htr, Beaten S N src start lag htr w) ?_ ?_ hring
  · exact fun w h0 _ => ⟨[], h0.beaten⟩
  · rintro tr w e w' - ih ⟨hallowed, hstep⟩ hring
    obtain ⟨htr, hb⟩ := ih fun st hst => hring st (List.mem_append_left _ hst)
    exact hb.step hdst (hring _ (List.mem_append_right _ (List.mem_singleton_self _))) hallowed hstep

/-- A neighbour that is alive is never taken for dead. The heartbeat daemon at the other end of link `i`
    is at most `lag` late, the link takes at most `delay`, and of the heartbeats no more than `k` are lost
    one after another; then, from some time after the daemon has started, the router never waits with
    the link down. -/
theorem live_neighbour_up (hd : S.DistinctAddrs) {i : Fin maxNodeFan} (hi : (i : ℕ) < S.links.length)
    (hdst : dst ∈ N.dstAddrs) (hfast : (k + 1) * (heartbeatT + lag) + delay < heartbeatTimeout)
    (hrun : WatchedRun S S.links[(i : ℕ)].dstAddr dst N start tr w)
    (hprompt : ∀ st ∈ tr, st.before.wire.Prompt lag delay k) (hlast : w.wire.Prompt lag delay k)
    (hlong : start + (k + 1) * (heartbeatT + lag) + delay < w.host.now)
    (hwait : eventWait w.host = none) : w.host.daemon.this.node.linkStatuses i = .linkUp := by
  obtain ⟨htr, hb⟩ := WatchedRun.beaten hdst hrun fun st hst => (hprompt st hst).ring
  have hfresh : w.host.now ≤ w.heard.getD start + (k + 1) * (heartbeatT + lag) + delay :=
    hb.spaced.fresh le_rfl hlast
  cases hheard : w.heard with
  | none =>
    rw [hheard, Option.getD_none] at hfresh
    omega
  | some t =>
    rw [hheard, Option.getD_some] at hfresh
    obtain ⟨-, hmem | ⟨u, hu, htu⟩⟩ := hb.heard t hheard
    · rw [HostRun.hbSock_nil hb.host hwait] at hmem
      cases hmem
    · exact (HostRun.up_iff hd hb.host hi hwait).mpr ⟨u, hu, by omega⟩

end Watched

/-! ### One heartbeat is lost -/

instance (w : Watched ℚ) : (e : WatchedEvent ℚ) → Decidable (WatchedAllowed w e)
  | .host e => inferInstanceAs (Decidable (HostAllowed w.host e))
  | .beat => inferInstanceAs (Decidable (w.beater.ready w.host.now))
  | .arrive | .lose => inferInstanceAs (Decidable (w.air ≠ []))

/-- The first heartbeat is lost, the second arrives, and the router handles what is ready. -/
def oneLost : List (WatchedEvent ℚ) :=
  [.host (.pass 100000000), .beat, .lose, .host (.pass 100000000), .beat, .arrive,
    .host (.pass 10000000), .host (.iteration []), .host (.iteration []), .host (.iteration [])]

theorem routerTwo_starts : (beaterStart routerTwo 0).toOption.isSome = true := by
  decide +kernel

def watchedAtStart : Watched ℚ where
  host := hostAt (twoLinks .dtlsr id (pure false)) twoLinksStart 0
  beater := (beaterStart routerTwo 0).toOption.get routerTwo_starts
  air := []
  off := 0
  heard := none
  lost := 0

theorem live_neighbour_up_oneLost : ∃ tr w, WatchedRun (twoLinks .dtlsr id (pure false))
    (inetAddr 10 0 0 2) (inetAddr 10 0 0 1) routerTwo 0 tr w ∧ tr.map Trace.Step.event = oneLost ∧
      eventWait w.host = none ∧ w.host.daemon.this.node.linkStatuses 0 = .linkUp := by
  have hhost : startUp (twoLinks .dtlsr id (pure false)) = .ok twoLinksStart :=
    ok_of_toOption (Option.some_get _).symm
  have hbeater : beaterStart routerTwo 0 = .ok watchedAtStart.beater :=
    ok_of_toOption (Option.some_get routerTwo_starts).symm
  have h0 : WatchedStart (twoLinks .dtlsr id (pure false)) routerTwo 0 watchedAtStart :=
    ⟨hostAt_start hhost 0, hbeater, rfl, rfl, rfl, rfl⟩
  have hrun : ∃ tr w, WatchedRun (twoLinks .dtlsr id (pure false)) (inetAddr 10 0 0 2)
      (inetAddr 10 0 0 1) routerTwo 0 tr w ∧ tr.map Trace.Step.event = oneLost ∧
      (∀ st ∈ tr, st.before.wire.Prompt 1000000 1000000 1) ∧ tr.getLast?.any (fun st =>
        (eventWait st.after.host).isNone = true ∧ st.after.wire.Prompt 1000000 1000000 1 ∧
          203000000 < st.after.host.now) = true :=
    Trace.exists_follow h0 oneLost (by decide +kernel)
  obtain ⟨tr, w, hrun, hevents, hprompt, hlast⟩ := hrun
  obtain ⟨st, -, rfl, hst⟩ := hrun.at_end hlast
  obtain ⟨hwait, hend, hlong⟩ := of_decide_eq_true hst
  have hwait := Option.isNone_iff_eq_none.mp hwait
  have hdistinct : (twoLinks .dtlsr id (pure false)).DistinctAddrs := by
    unfold Setup.DistinctAddrs
    decide
  exact ⟨tr, _, hrun, hevents, hwait, live_neighbour_up (i := 0) hdistinct (by decide) (by decide)
    (by decide) hrun hprompt hend hlong hwait⟩

end Dtlsr
