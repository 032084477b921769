import Dtlsr.Replays
import Dtlsr.Lib.Timed

/-!
    `process/fd_event.c`, and the descriptors of `dtlsr_main.c`: a router with its sockets and timers as
    the kernel has them. `select` waits until a descriptor is ready, and `event_wait` takes the first of
    the ready ones in the order of `aggregate_fds`. Datagrams reach the sockets and time passes whenever
    they like; an iteration of the loop takes no time. -/

namespace Dtlsr
open Checked

/-- A router, with what the kernel has for it. -/
structure Host (M : Type) where
  daemon : Daemon M
  eventFds : List Fd
  /-- in nanoseconds -/
  now : ℕ
  /-- when each timer expires, if it is set and not disarmed -/
  expiry : Fd → Option ℕ
  /-- the datagrams that the sockets have ready, with their sources where these are looked at -/
  hbSock : List Ip
  routerLsaRecSock : List (Node M × Ip)
  networkLsaRecSock : List (Graph M)
  networkLsaRecRequestSock : List Ip

section Code
variable {M : Type}

/-- The timers of the links. -/
def linkTimers (this : LocalNode M) : List Timer :=
  ((List.finRange maxNodeFan).filter fun i : Fin maxNodeFan =>
    ((i : ℕ) : ℤ) < this.node.nNeighbours).map this.timers

def aggregateFds (b : Build) (s : Daemon M) : List Fd :=
  (linkTimers s.this).map Timer.fd ++
    [.hbSock, .routerLsaRecSock, s.routerLsaSndTimer.fd, .networkLsaRecSock, .networkLsaRecRequestSock] ++
    match b with
    | .lsr => []
    | .dtlsr => [s.replayTimer.fd, s.recomputationTimer.fd]

/-- `timerfd_settime`: what is set to `DISARM_T` does not expire. -/
def timerfdSettime (now : ℕ) (t : Timer) : Fd × Option ℕ :=
  (t.fd, if t.armed then some (now + t.sec * 1000000000 + t.nsec) else none)

/-- The timer `fd` has expired, and has not been set again since. -/
def Host.expired (h : Host M) (fd : Fd) : Bool := (h.expiry fd).any fun t => t ≤ h.now

/-- What is received where the descriptor is ready. -/
def receive (h : Host M) (fd : Fd) : Option (Active M × Host M) :=
  match fd with
  | .hbSock => match h.hbSock with
    | [] => none
    | source :: rest => some (.heartbeat source, { h with hbSock := rest })
  | .routerLsaRecSock => match h.routerLsaRecSock with
    | [] => none
    | (lsa, source) :: rest => some (.routerLsa lsa source, { h with routerLsaRecSock := rest })
  | .networkLsaRecSock => match h.networkLsaRecSock with
    | [] => none
    | others :: rest => some (.networkLsa others, { h with networkLsaRecSock := rest })
  | .networkLsaRecRequestSock => match h.networkLsaRecRequestSock with
    | [] => none
    | source :: rest => some (.networkLsaRequest source, { h with networkLsaRecRequestSock := rest })
  | .routerLsaSndTimer => if h.expired fd then some (.routerLsaSndTimer, h) else none
  | .replayTimer => if h.expired fd then some (.replayTimer, h) else none
  | .recomputationTimer => if h.expired fd then some (.recomputationTimer, h) else none
  | .timer i => if h.expired fd then some (.timer i, h) else none

/-- `event_wait`, with what is then received; `none` while `select` blocks. -/
def eventWait (h : Host M) : Option (Active M × Host M) := h.eventFds.findSome? (receive h)

/-- A datagram reaches its socket. -/
def enqueue (a : Active M) (h : Host M) : Host M :=
  match a with
  | .heartbeat source => { h with hbSock := h.hbSock ++ [source] }
  | .routerLsa lsa source => { h with routerLsaRecSock := h.routerLsaRecSock ++ [(lsa, source)] }
  | .networkLsa others => { h with networkLsaRecSock := h.networkLsaRecSock ++ [others] }
  | .networkLsaRequest source =>
    { h with networkLsaRecRequestSock := h.networkLsaRecRequestSock ++ [source] }
  | _ => h

variable [Field M] (S : Setup M)

/-- The timers that are set while an event is handled, with what they are set to: `event_timer_arm`,
    `event_timer_disarm` and `event_timer_reset`. -/
def timersSet (a : Active M) (s : Daemon M) : List Timer :=
  match a with
  | .heartbeat source =>
    let rising := risingLink s.this source
    ((List.finRange maxNodeFan).filter fun i => fromSource s.this source i ∧ ∀ r ∈ rising, i ≤ r).map
        (fun i => eventTimerArm (s.this.timers i) 0 heartbeatTimeout) ++
      if S.build = .dtlsr ∧ rising.isSome then [eventTimerArm s.replayTimer 0 replayDelayT] else []
  | .routerLsaSndTimer => [s.routerLsaSndTimer]
  | .replayTimer => [eventTimerDisarm s.replayTimer]
  | .recomputationTimer => [s.recomputationTimer]
  | .timer i =>
    ((linkOfTimer s.this (s.this.timers i).fd .linkUp).map fun j =>
      eventTimerDisarm (s.this.timers j)).toList
  | _ => []

/-- The timers that the start-up leaves set: those of the links in `local_node_init`, the others in
    `init_descriptors`. -/
def timersAtStart (s : Daemon M) : List Timer :=
  linkTimers s.this ++ s.routerLsaSndTimer ::
    match S.build with
    | .lsr => []
    | .dtlsr => [s.replayTimer, s.recomputationTimer]

variable [LinearOrder M] [FloorRing M] [Libm M]

/-- What can happen to a router and its kernel. -/
inductive HostEvent (M : Type) where
  | pass (d : ℕ)
  | datagram (a : Active M)
  /-- an iteration of the loop, with the packets that reach the interfaces during its `event_wait` -/
  | iteration (arrived : List (ℕ × Packet))

def hostStep (e : HostEvent M) (h : Host M) : Exec (Host M) :=
  match e with
  | .pass d => pure { h with now := h.now + d }
  | .datagram a => pure (enqueue a h)
  | .iteration arrived =>
    match eventWait h with
    | none => pure h
    | some (active, h') => do
      let daemon ← iter S { arrived, active } h.daemon
      pure
        { h' with
          daemon
          expiry := Timed.setAll h.expiry
            ((timersSet S active h.daemon).map (timerfdSettime h.now)) }

/-- The loop makes an iteration only when `select` returns. -/
def HostAllowed (h : Host M) (e : HostEvent M) : Prop :=
  match e with
  | .iteration _ => (eventWait h).isSome = true
  | _ => True

/-- The driver has reached its loop, and no datagram has arrived yet. -/
structure HostStart (h : Host M) : Prop where
  startUp : startUp S = .ok h.daemon
  eventFds : h.eventFds = aggregateFds S.build h.daemon
  expiry : h.expiry = Timed.setAll (fun _ => none)
    ((timersAtStart S h.daemon).map (timerfdSettime h.now))
  empty : h.hbSock = [] ∧ h.routerLsaRecSock = [] ∧ h.networkLsaRecSock = [] ∧
    h.networkLsaRecRequestSock = []

/-- The runs of a router in its kernel. -/
abbrev HostRun : List (Trace.Step (Host M) (HostEvent M)) → Host M → Prop :=
  Trace.Run (HostStart S) fun h e h' => HostAllowed h e ∧ hostStep S e h = .ok h'

end Code

/-! ### What `event_wait` returns -/

section Receive
variable {M : Type}

/-- The descriptor that an event comes from. -/
def Active.fd : Active M → Option Fd
  | .idle => none
  | .heartbeat _ => some .hbSock
  | .routerLsa _ _ => some .routerLsaRecSock
  | .routerLsaSndTimer => some .routerLsaSndTimer
  | .networkLsa _ => some .networkLsaRecSock
  | .networkLsaRequest _ => some .networkLsaRecRequestSock
  | .replayTimer => some .replayTimer
  | .recomputationTimer => some .recomputationTimer
  | .timer i => some (.timer i)

def Fd.isTimer : Fd → Bool
  | .routerLsaSndTimer | .replayTimer | .recomputationTimer | .timer _ => true
  | _ => false

variable {h h' : Host M} {fd : Fd} {a : Active M}

/-- What is received comes from the descriptor, a timer has expired, and only a socket is touched. -/
structure Received (h : Host M) (fd : Fd) (a : Active M) (h' : Host M) : Prop where
  origin : a.fd = some fd
  expired : fd.isTimer = true → ∃ t, h.expiry fd = some t ∧ t ≤ h.now
  now : h'.now = h.now
  eventFds : h'.eventFds = h.eventFds

theorem Host.expired_iff : h.expired fd = true ↔ ∃ t, h.expiry fd = some t ∧ t ≤ h.now := by
  simp [Host.expired, Option.any_eq_true]

theorem receive_received (hrec : receive h fd = some (a, h')) : Received h fd a h' := by
  cases fd with
  | hbSock | routerLsaRecSock | networkLsaRecSock | networkLsaRecRequestSock =>
    unfold receive at hrec
    dsimp only at hrec
    split at hrec
    · cases hrec
    · cases hrec
      exact ⟨rfl, fun h => (by cases h), rfl, rfl⟩
  | routerLsaSndTimer | replayTimer | recomputationTimer | timer i =>
    unfold receive at hrec
    dsimp only at hrec
    split at hrec
    · rename_i hexpired
      cases hrec
      exact ⟨rfl, fun _ => Host.expired_iff.mp hexpired, rfl, rfl⟩
    · cases hrec

/-- A timer that has expired is ready. -/
theorem receive_timer (htimer : fd.isTimer = true) (hnone : receive h fd = none) :
    ∀ t ∈ h.expiry fd, h.now < t := by
  intro t ht
  by_contra hle
  have hexpired : h.expired fd = true := Host.expired_iff.mpr ⟨t, ht, not_lt.mp hle⟩
  cases fd with
  | hbSock | routerLsaRecSock | networkLsaRecSock | networkLsaRecRequestSock => cases htimer
  | routerLsaSndTimer | replayTimer | recomputationTimer | timer i =>
    exact absurd hnone (by simp [receive, hexpired])

theorem eventWait_received (hwait : eventWait h = some (a, h')) :
    ∃ fd ∈ h.eventFds, Received h fd a h' := by
  obtain ⟨fd, hfd, hrec⟩ := List.exists_of_findSome?_eq_some hwait
  exact ⟨fd, hfd, receive_received hrec⟩

/-- While `select` blocks, no timer that it watches has expired. -/
theorem eventWait_none (hwait : eventWait h = none) (hfd : fd ∈ h.eventFds)
    (htimer : fd.isTimer = true) : ∀ t ∈ h.expiry fd, h.now < t :=
  receive_timer htimer (List.findSome?_eq_none_iff.mp hwait fd hfd)

end Receive

/-! ### What is set -/

section Set
variable {M : Type} [Field M] {S : Setup M} {s : Daemon M}

/-- The timers of the daemon have the descriptors that they were given, and two of them their values. -/
structure TimersKept (s : Daemon M) : Prop where
  routerLsaSndTimer : s.routerLsaSndTimer = eventTimerAppend .routerLsaSndTimer 0 lsaSendT
  recomputationTimer :
    s.recomputationTimer = eventTimerAppend .recomputationTimer 0 metricRecomputationT
  replayTimer : s.replayTimer.fd = .replayTimer

/-- The descriptors of the timers that are set while an event is handled. -/
theorem timersSet_fds (hl : Linked S s.this) (ht : TimersKept s) (a : Active M) (now : ℕ) :
    ((timersSet S a s).map (timerfdSettime now)).map Prod.fst = match a with
      | .heartbeat source =>
        ((List.finRange maxNodeFan).filter fun i =>
            fromSource s.this source i ∧ ∀ r ∈ risingLink s.this source, i ≤ r).map Fd.timer ++
          if S.build = .dtlsr ∧ (risingLink s.this source).isSome then [.replayTimer] else []
      | .routerLsaSndTimer => [.routerLsaSndTimer]
      | .replayTimer => [.replayTimer]
      | .recomputationTimer => [.recomputationTimer]
      | .timer i => ((linkOfTimer s.this (s.this.timers i).fd .linkUp).map Fd.timer).toList
      | _ => [] := by
  have hfd : ∀ i : Fin maxNodeFan, ((i : ℕ) : ℤ) < s.this.node.nNeighbours →
      (s.this.timers i).fd = .timer i := by
    intro i hi
    rw [hl.count] at hi
    exact hl.fd i (by omega)
  cases a with
  | heartbeat source =>
    simp only [timersSet, List.map_append, List.map_map]
    congr 1
    · refine List.map_congr_left fun i hi => ?_
      have hfrom := (of_decide_eq_true (List.mem_filter.mp hi).2).1
      exact hfd i hfrom.1
    · split
      · exact congrArg (fun fd => [fd]) ht.replayTimer
      · rfl
  | routerLsaSndTimer => exact congrArg (fun t => [t.fd]) ht.routerLsaSndTimer
  | recomputationTimer => exact congrArg (fun t => [t.fd]) ht.recomputationTimer
  | replayTimer => exact congrArg (fun fd => [fd]) ht.replayTimer
  | timer i =>
    simp only [timersSet]
    cases hlink : linkOfTimer s.this (s.this.timers i).fd .linkUp with
    | none => rfl
    | some j => exact congrArg (fun fd => [fd]) (hfd j (linkOfTimer_some hlink).1)
  | _ => rfl

theorem timersSet_nodup (hl : Linked S s.this) (ht : TimersKept s) (a : Active M) (now : ℕ) :
    (((timersSet S a s).map (timerfdSettime now)).map Prod.fst).Nodup := by
  rw [timersSet_fds hl ht]
  cases a with
  | heartbeat source =>
    refine List.Nodup.append ?_ (by split <;> simp) ?_
    · exact ((List.nodup_finRange _).filter _).map fun i j hij => Fd.timer.inj hij
    · intro fd h1 h2
      obtain ⟨i, -, rfl⟩ := List.mem_map.mp h1
      split at h2 <;> simp at h2
  | timer i => cases h : linkOfTimer s.this (s.this.timers i).fd .linkUp <;> simp [h]
  | _ => simp

variable (expiry : Fd → Option ℕ)

/-- When the timer of a link expires, after an event has been handled. -/
theorem expiry_timer (hl : Linked S s.this) (ht : TimersKept s) (a : Active M) (now : ℕ)
    {i : Fin maxNodeFan} (hi : (i : ℕ) < S.links.length) :
    Timed.setAll expiry ((timersSet S a s).map (timerfdSettime now)) (.timer i) = match a with
      | .heartbeat source =>
        if fromSource s.this source i ∧ ∀ r ∈ risingLink s.this source, i ≤ r then
          some (now + heartbeatTimeout)
        else expiry (.timer i)
      | .timer k =>
        if linkOfTimer s.this (s.this.timers k).fd .linkUp = some i then none else expiry (.timer i)
      | _ => expiry (.timer i) := by
  have hfds := timersSet_fds hl ht a now
  have hnodup := timersSet_nodup hl ht a now
  cases a with
  | heartbeat source =>
    dsimp only at hfds ⊢
    split
    · rename_i hset
      refine Timed.setAll_of_mem hnodup (List.mem_map.mpr
        ⟨eventTimerArm (s.this.timers i) 0 heartbeatTimeout, ?_, ?_⟩)
      · refine List.mem_append_left _ (List.mem_map.mpr ⟨i, List.mem_filter.mpr ⟨?_, ?_⟩, rfl⟩)
        · exact List.mem_finRange i
        · exact decide_eq_true hset
      · rw [timerfdSettime, eventTimerArm_fd, hl.fd i hi, if_pos (eventTimerArm_armed _ _)]
        simp [eventTimerArm]
    · rename_i hset
      refine Timed.setAll_of_not_mem ?_
      rw [hfds]
      intro hmem
      rcases List.mem_append.mp hmem with hmem | hmem
      · obtain ⟨j, hj, heq⟩ := List.mem_map.mp hmem
        obtain rfl := Fd.timer.inj heq
        exact hset (of_decide_eq_true (List.mem_filter.mp hj).2)
      · split at hmem <;> simp at hmem
  | timer k =>
    dsimp only at hfds ⊢
    split
    · rename_i hlink
      refine Timed.setAll_of_mem hnodup (List.mem_map.mpr
        ⟨eventTimerDisarm (s.this.timers i), ?_, ?_⟩)
      · simp [timersSet, hlink]
      · simp [timerfdSettime, hl.fd i hi]
    · rename_i hlink
      refine Timed.setAll_of_not_mem ?_
      rw [hfds]
      intro hmem
      obtain ⟨j, hj, heq⟩ := Option.map_eq_some_iff.mp (Option.mem_toList.mp hmem)
      obtain rfl := Fd.timer.inj heq
      exact hlink hj
  | _ =>
    refine Timed.setAll_of_not_mem ?_
    rw [hfds]
    simp

/-- When the replay timer expires. -/
theorem expiry_replayTimer (hl : Linked S s.this) (ht : TimersKept s) (a : Active M) (now : ℕ) :
    Timed.setAll expiry ((timersSet S a s).map (timerfdSettime now)) .replayTimer = match a with
      | .heartbeat source =>
        if S.build = .dtlsr ∧ (risingLink s.this source).isSome then some (now + replayDelayT)
        else expiry .replayTimer
      | .replayTimer => none
      | _ => expiry .replayTimer := by
  have hfds := timersSet_fds hl ht a now
  have hnodup := timersSet_nodup hl ht a now
  cases a with
  | heartbeat source =>
    dsimp only at hfds ⊢
    split
    · rename_i hset
      refine Timed.setAll_of_mem hnodup (List.mem_map.mpr
        ⟨eventTimerArm s.replayTimer 0 replayDelayT, ?_, ?_⟩)
      · refine List.mem_append_right _ ?_
        rw [if_pos hset]
        exact List.mem_singleton.mpr rfl
      · rw [timerfdSettime, eventTimerArm_fd, ht.replayTimer, if_pos (eventTimerArm_armed _ _)]
        simp [eventTimerArm]
    · rename_i hset
      refine Timed.setAll_of_not_mem ?_
      rw [hfds, if_neg hset]
      simp
  | replayTimer =>
    refine Timed.setAll_of_mem hnodup (List.mem_map.mpr ⟨eventTimerDisarm s.replayTimer, ?_, ?_⟩)
    · exact List.mem_singleton.mpr rfl
    · simp [timerfdSettime, ht.replayTimer]
  | timer k =>
    refine Timed.setAll_of_not_mem ?_
    rw [hfds]
    simp
  | _ =>
    refine Timed.setAll_of_not_mem ?_
    rw [hfds]
    simp

/-- When the two periodic timers expire. -/
theorem expiry_periodic (hl : Linked S s.this) (ht : TimersKept s) (a : Active M) (now : ℕ) :
    (Timed.setAll expiry ((timersSet S a s).map (timerfdSettime now)) .routerLsaSndTimer = match a with
      | .routerLsaSndTimer => some (now + lsaSendT)
      | _ => expiry .routerLsaSndTimer) ∧
    (Timed.setAll expiry ((timersSet S a s).map (timerfdSettime now)) .recomputationTimer = match a with
      | .recomputationTimer => some (now + metricRecomputationT)
      | _ => expiry .recomputationTimer) := by
  have hfds := timersSet_fds hl ht a now
  have hnodup := timersSet_nodup hl ht a now
  have hkept : ∀ {fd : Fd}, fd ∉ ((timersSet S a s).map (timerfdSettime now)).map Prod.fst →
      Timed.setAll expiry ((timersSet S a s).map (timerfdSettime now)) fd = expiry fd :=
    fun h => Timed.setAll_of_not_mem h
  rw [hfds] at hkept
  cases a with
  | heartbeat source =>
    refine ⟨hkept ?_, hkept ?_⟩ <;> dsimp only <;> split <;> simp
  | routerLsaSndTimer =>
    refine ⟨Timed.setAll_of_mem hnodup (List.mem_map.mpr
      ⟨s.routerLsaSndTimer, List.mem_singleton.mpr rfl, ?_⟩), hkept (by simp)⟩
    rw [ht.routerLsaSndTimer]
    rfl
  | recomputationTimer =>
    refine ⟨hkept (by simp), Timed.setAll_of_mem hnodup (List.mem_map.mpr
      ⟨s.recomputationTimer, List.mem_singleton.mpr rfl, ?_⟩)⟩
    rw [ht.recomputationTimer]
    rfl
  | _ => exact ⟨hkept (by simp), hkept (by simp)⟩

end Set

/-! ### The daemon and its kernel -/

section Kernel
variable {M : Type} [Field M] [LinearOrder M] [FloorRing M] [Libm M] {S : Setup M}

omit [FloorRing M] in
theorem handleEvent_timers {a : Active M} {s s' : Daemon M} {f : Flags}
    (h : handleEvent S a s = .ok (s', f)) : s'.routerLsaSndTimer = s.routerLsaSndTimer ∧
      s'.recomputationTimer = s.recomputationTimer := by
  cases handleEvent_handles h <;> exact ⟨rfl, rfl⟩

theorem afterEvent_timers {f : Flags} {s s' : Daemon M} (h : afterEvent S f s = .ok s')
    (hrouting : f.updateRouting = false) : s'.routerLsaSndTimer = s.routerLsaSndTimer ∧
      s'.recomputationTimer = s.recomputationTimer := by
  unfold afterEvent at h
  obtain ⟨s1, h1, h⟩ := bind_ok_iff.mp h
  rw [hrouting] at h
  cases h
  have hsend : (if f.lsaSendStatus then sendOwnLsa S s else s).routerLsaSndTimer = s.routerLsaSndTimer ∧
      (if f.lsaSendStatus then sendOwnLsa S s else s).recomputationTimer = s.recomputationTimer := by
    split <;> exact ⟨rfl, rfl⟩
  split at h1
  · obtain ⟨⟨g, t⟩, -, h1⟩ := bind_ok_iff.mp h1
    obtain ⟨hops, -, h1⟩ := bind_ok_iff.mp h1
    cases h1
    exact hsend
  · cases h1
    exact hsend

/-- An iteration leaves the timers of the daemon their descriptors. -/
theorem Steps.timersKept {ev : Event M} {s s' : Daemon M} (ht : TimersKept s) (h : Steps S s ev s') :
    TimersKept s' := by
  have hreplay : s'.replayTimer.fd = .replayTimer := by
    have hreplay := h.replayHandled
    unfold ReplayHandled at hreplay
    split at hreplay
    · split at hreplay <;> rw [hreplay.1]
      · exact ht.replayTimer
      · exact ht.replayTimer
    · rw [hreplay.1]
      exact ht.replayTimer
    · rw [hreplay.1]
      exact ht.replayTimer
  obtain ⟨c, -, ⟨-, rfl⟩ | ⟨_, _, s3, f, s4, h3, h4, h5⟩⟩ := h.calls
  · exact ⟨ht.routerLsaSndTimer, ht.recomputationTimer, hreplay⟩
  · obtain ⟨hsnd3, hrec3⟩ := handleEvent_timers h3
    obtain ⟨hsnd4, hrec4⟩ := afterEvent_timers h4 (handleEvent_ok h3).updateRouting
    have hs' : s' = { s4 with capture := s'.capture } := (captureAfter_ok h5).1
    refine ⟨?_, ?_, hreplay⟩
    · rw [hs']
      exact hsnd4.trans (hsnd3.trans ht.routerLsaSndTimer)
    · rw [hs']
      exact hrec4.trans (hrec3.trans ht.recomputationTimer)

/-- The descriptors that are in `event_fds`. -/
def Fd.Watched (S : Setup M) : Fd → Prop
  | .timer i => (i : ℕ) < S.links.length
  | .replayTimer | .recomputationTimer => S.build = .dtlsr
  | _ => True

/-- The timers that the daemon takes for armed are those that the kernel lets expire. -/
structure InKernel (S : Setup M) (h : Host M) : Prop where
  linked : Linked S h.daemon.this
  kept : TimersKept h.daemon
  eventFds : ∀ fd, fd ∈ h.eventFds ↔ fd.Watched S
  timers : ∀ i : Fin maxNodeFan, (i : ℕ) < S.links.length →
    (h.expiry (.timer i)).isSome = (h.daemon.this.timers i).armed
  replayTimer : (h.expiry .replayTimer).isSome = h.daemon.replayTimer.armed

variable {h h' : Host M}

omit [LinearOrder M] [FloorRing M] [Libm M] in
/-- What `event_wait` returns can happen in the state that the daemon is in. -/
theorem InKernel.enabled {h1 : Host M} {a : Active M} (hk : InKernel S h)
    (hwait : eventWait h = some (a, h1)) : Enabled S a h.daemon := by
  obtain ⟨fd, hfd, hrec⟩ := eventWait_received hwait
  have hwatched := (hk.eventFds fd).mp hfd
  have hsome : fd.isTimer = true → (h.expiry fd).isSome = true := by
    intro htimer
    obtain ⟨t, ht, -⟩ := hrec.expired htimer
    rw [ht]
    rfl
  cases a with
  | replayTimer =>
    obtain rfl := Option.some.inj hrec.origin
    exact ⟨hwatched, hk.replayTimer.symm.trans (hsome rfl)⟩
  | recomputationTimer =>
    obtain rfl := Option.some.inj hrec.origin
    exact hwatched
  | timer i =>
    obtain rfl := Option.some.inj hrec.origin
    exact ⟨by rw [hk.linked.count]; exact Int.ofNat_lt.mpr hwatched,
      (hk.timers i hwatched).symm.trans (hsome rfl)⟩
  | _ => trivial

/-- What an iteration does to a router and its kernel. -/
structure Iterates (S : Setup M) (h : Host M) (ev : Event M) (h' : Host M) : Prop where
  wait : ∃ h1, eventWait h = some (ev.active, h1)
  call : iter S ev h.daemon = .ok h'.daemon
  now : h'.now = h.now
  eventFds : h'.eventFds = h.eventFds
  expiry : h'.expiry =
    Timed.setAll h.expiry ((timersSet S ev.active h.daemon).map (timerfdSettime h.now))

theorem hostStep_iterates {arrived : List (ℕ × Packet)} (hallowed : HostAllowed h (.iteration arrived))
    (hstep : hostStep S (.iteration arrived) h = .ok h') :
    ∃ a, Iterates S h { arrived, active := a } h' := by
  obtain ⟨⟨a, h1⟩, hwait⟩ := Option.isSome_iff_exists.mp hallowed
  unfold hostStep at hstep
  dsimp only at hstep
  rw [hwait] at hstep
  obtain ⟨d, hcall, hstep⟩ := bind_ok_iff.mp hstep
  cases hstep
  obtain ⟨fd, -, hrec⟩ := eventWait_received hwait
  exact ⟨a, ⟨h1, hwait⟩, hcall, hrec.now, hrec.eventFds, rfl⟩

theorem Iterates.steps {ev : Event M} (hk : InKernel S h) (hit : Iterates S h ev h') :
    Steps S h.daemon ev h'.daemon := by
  obtain ⟨h1, hwait⟩ := hit.wait
  exact ⟨hk.enabled hwait, hit.call⟩

/-! ### From the start -/

omit [LinearOrder M] [FloorRing M] in
theorem startUp_timersKept {s : Daemon M} (h0 : startUp S = .ok s) : TimersKept s := by
  obtain ⟨t, -, h⟩ := bind_ok_iff.mp h0
  obtain ⟨⟨g, t'⟩, -, h⟩ := bind_ok_iff.mp h
  cases h
  exact ⟨rfl, rfl, rfl⟩

omit [LinearOrder M] [FloorRing M] in
theorem startUp_replayTimer {s : Daemon M} (h0 : startUp S = .ok s) : s.replayTimer.armed = false := by
  obtain ⟨t, -, h⟩ := bind_ok_iff.mp h0
  obtain ⟨⟨g, t'⟩, -, h⟩ := bind_ok_iff.mp h
  cases h
  exact eventTimerDisarm_armed _

omit [LinearOrder M] [FloorRing M] [Libm M] in
theorem map_linkTimers {t : LocalNode M} (hl : Linked S t) : (linkTimers t).map Timer.fd =
    ((List.finRange maxNodeFan).filter fun i : Fin maxNodeFan => (i : ℕ) < S.links.length).map
      Fd.timer := by
  unfold linkTimers
  rw [List.map_map, hl.count]
  have hfilter : ((List.finRange maxNodeFan).filter fun i : Fin maxNodeFan =>
      ((i : ℕ) : ℤ) < S.links.length) =
        (List.finRange maxNodeFan).filter fun i : Fin maxNodeFan => (i : ℕ) < S.links.length :=
    List.filter_congr fun i _ => decide_eq_decide.mpr Int.ofNat_lt
  rw [hfilter]
  exact List.map_congr_left fun i hi => hl.fd i (of_decide_eq_true (List.mem_filter.mp hi).2)

omit [LinearOrder M] [FloorRing M] [Libm M] in
theorem timersAtStart_fds {s : Daemon M} (hl : Linked S s.this) (ht : TimersKept s) (now : ℕ) :
    ((timersAtStart S s).map (timerfdSettime now)).map Prod.fst =
      ((List.finRange maxNodeFan).filter fun i : Fin maxNodeFan => (i : ℕ) < S.links.length).map
        Fd.timer ++ .routerLsaSndTimer ::
          match S.build with
          | .lsr => []
          | .dtlsr => [.replayTimer, .recomputationTimer] := by
  rw [List.map_map]
  change (timersAtStart S s).map Timer.fd = _
  unfold timersAtStart
  rw [List.map_append, map_linkTimers hl, List.map_cons, ht.routerLsaSndTimer]
  cases S.build with
  | lsr => rfl
  | dtlsr => rw [List.map_cons, List.map_cons, ht.replayTimer, ht.recomputationTimer]; rfl

omit [LinearOrder M] [FloorRing M] [Libm M] in
theorem timersAtStart_nodup {s : Daemon M} (hl : Linked S s.this) (ht : TimersKept s) (now : ℕ) :
    (((timersAtStart S s).map (timerfdSettime now)).map Prod.fst).Nodup := by
  rw [timersAtStart_fds hl ht]
  refine List.Nodup.append ?_ (by cases S.build <;> simp) ?_
  · exact ((List.nodup_finRange _).filter _).map fun i j hij => Fd.timer.inj hij
  · intro fd h1 h2
    obtain ⟨i, -, rfl⟩ := List.mem_map.mp h1
    cases hb : S.build <;> simp [hb] at h2

omit [LinearOrder M] [FloorRing M] in
/-- At the start the timers of the links and the replay timer are disarmed, and the others run. -/
theorem HostStart.expiries (h0 : HostStart S h) :
    (∀ i : Fin maxNodeFan, (i : ℕ) < S.links.length → h.expiry (.timer i) = none) ∧
      h.expiry .routerLsaSndTimer = some (h.now + lsaSendT) ∧ h.expiry .replayTimer = none ∧
      (S.build = .dtlsr → h.expiry .recomputationTimer = some (h.now + metricRecomputationT)) := by
  obtain ⟨hl, hdown⟩ := startUp_linked h0.startUp
  have ht := startUp_timersKept h0.startUp
  have hnodup := timersAtStart_nodup hl ht h.now
  rw [h0.expiry]
  refine ⟨fun i hi => ?_, ?_, ?_, fun hb => ?_⟩
  · refine Timed.setAll_of_mem hnodup (List.mem_map.mpr ⟨h.daemon.this.timers i, ?_, ?_⟩)
    · refine List.mem_append_left _ (List.mem_map.mpr ⟨i, List.mem_filter.mpr ⟨?_, ?_⟩, rfl⟩)
      · exact List.mem_finRange i
      · rw [hl.count]
        exact decide_eq_true (Int.ofNat_lt.mpr hi)
    · have harmed : (h.daemon.this.timers i).armed = false := by
        rw [← Bool.not_eq_true, hl.armed i hi, hdown i hi]
        decide
      rw [timerfdSettime, hl.fd i hi, harmed]
      rfl
  · refine Timed.setAll_of_mem hnodup (List.mem_map.mpr ⟨h.daemon.routerLsaSndTimer, ?_, ?_⟩)
    · exact List.mem_append_right _ List.mem_cons_self
    · rw [ht.routerLsaSndTimer]
      rfl
  · cases hb : S.build with
    | lsr =>
      refine Timed.setAll_of_not_mem ?_
      rw [timersAtStart_fds hl ht, hb]
      simp
    | dtlsr =>
      refine Timed.setAll_of_mem hnodup (List.mem_map.mpr ⟨h.daemon.replayTimer, ?_, ?_⟩)
      · unfold timersAtStart
        rw [hb]
        simp
      · rw [timerfdSettime, ht.replayTimer, startUp_replayTimer h0.startUp]
        rfl
  · refine Timed.setAll_of_mem hnodup (List.mem_map.mpr ⟨h.daemon.recomputationTimer, ?_, ?_⟩)
    · unfold timersAtStart
      rw [hb]
      simp
    · rw [ht.recomputationTimer]
      rfl

omit [LinearOrder M] [FloorRing M] in
theorem HostStart.inKernel (h0 : HostStart S h) : InKernel S h := by
  obtain ⟨hl, hdown⟩ := startUp_linked h0.startUp
  have ht := startUp_timersKept h0.startUp
  obtain ⟨htimers, -, hreplay, -⟩ := h0.expiries
  refine ⟨hl, ht, fun fd => ?_, fun i hi => ?_, ?_⟩
  · rw [h0.eventFds]
    unfold aggregateFds
    rw [map_linkTimers hl, ht.routerLsaSndTimer, ht.replayTimer, ht.recomputationTimer]
    cases fd <;> cases hb : S.build <;> simp [Fd.Watched, hb, eventTimerAppend]
  · have harmed : (h.daemon.this.timers i).armed = false := by
      rw [← Bool.not_eq_true, hl.armed i hi, hdown i hi]
      decide
    rw [htimers i hi, harmed]
    rfl
  · rw [hreplay, startUp_replayTimer h0.startUp]
    rfl

/-! ### The runs of the loop are runs of the driver -/

/-- The iteration of the loop in a step, with what `event_wait` has returned. -/
def iterationOf (st : Trace.Step (Host M) (HostEvent M)) : Option (Trace.Step (Daemon M) (Event M)) :=
  match st.event, eventWait st.before with
  | .iteration arrived, some (active, _) =>
    some { before := st.before.daemon, event := { arrived, active }, after := st.after.daemon }
  | _, _ => none

theorem InKernel.iterate {ev : Event M} (hk : InKernel S h) (hit : Iterates S h ev h') :
    InKernel S h' := by
  have hsteps := hit.steps hk
  have hlinks := hsteps.links
  refine ⟨(hk.linked.linkEffect ev.active).of_sameLinks hlinks, hsteps.timersKept hk.kept,
    fun fd => by rw [hit.eventFds]; exact hk.eventFds fd, fun i hi => ?_, ?_⟩
  · have hold := hk.timers i hi
    rw [hit.expiry, expiry_timer _ hk.linked hk.kept ev.active h.now hi, hlinks.timers]
    cases ha : ev.active with
    | heartbeat source =>
      have htimer : (linkEffect (.heartbeat source) h.daemon.this).timers i =
          (resetTimers h.daemon.this source).timers i := by
        cases hrise : risingLink h.daemon.this source with
        | none => rw [linkEffect_quiet hrise]
        | some j => rw [linkEffect_rise hrise]; rfl
      rw [htimer]
      unfold resetTimers
      dsimp only
      split
      · rw [eventTimerArm_armed]
        rfl
      · exact hold
    | timer k =>
      dsimp only
      cases hlink : linkOfTimer h.daemon.this (h.daemon.this.timers k).fd .linkUp with
      | none =>
        rw [linkEffect_idle hlink, if_neg (by simp)]
        exact hold
      | some j =>
        rw [linkEffect_fall hlink]
        rcases eq_or_ne i j with rfl | hij
        · rw [if_pos rfl]
          simp
        · rw [if_neg (by simpa using hij.symm)]
          simpa [hij] using hold
    | _ => exact hold
  · have hold := hk.replayTimer
    have hreplay := hsteps.replayHandled
    rw [hit.expiry, expiry_replayTimer _ hk.linked hk.kept ev.active h.now]
    unfold ReplayHandled at hreplay
    cases ha : ev.active with
    | heartbeat source =>
      rw [ha] at hreplay
      dsimp only at hreplay ⊢
      split at hreplay
      · rename_i hb hrise
        rw [if_pos ⟨hb, by rw [hrise]; rfl⟩, hreplay.1, eventTimerArm_armed]
        rfl
      · rename_i hnone
        rw [if_neg, hreplay.1]
        · exact hold
        · rintro ⟨hb, hrise⟩
          obtain ⟨i, hi⟩ := Option.isSome_iff_exists.mp hrise
          exact hnone i hb hi
    | replayTimer =>
      rw [ha] at hreplay
      rw [hreplay.1, eventTimerDisarm_armed]
      rfl
    | _ =>
      rw [ha] at hreplay
      rw [hreplay.1]
      exact hold

omit [Field M] [LinearOrder M] [FloorRing M] [Libm M] in
theorem enqueue_frame (a : Active M) (h : Host M) : (enqueue a h).daemon = h.daemon ∧
    (enqueue a h).eventFds = h.eventFds ∧ (enqueue a h).now = h.now ∧
    (enqueue a h).expiry = h.expiry := by
  cases a <;> exact ⟨rfl, rfl, rfl, rfl⟩

theorem InKernel.step {e : HostEvent M} (hk : InKernel S h) (hallowed : HostAllowed h e)
    (hstep : hostStep S e h = .ok h') : InKernel S h' := by
  cases e with
  | pass d =>
    cases hstep
    exact ⟨hk.linked, hk.kept, hk.eventFds, hk.timers, hk.replayTimer⟩
  | datagram a =>
    cases hstep
    obtain ⟨hd, hfds, -, hexpiry⟩ := enqueue_frame a h
    refine ⟨hd ▸ hk.linked, hd ▸ hk.kept, hfds ▸ hk.eventFds, ?_, ?_⟩
    · rw [hd, hexpiry]
      exact hk.timers
    · rw [hd, hexpiry]
      exact hk.replayTimer
  | iteration arrived =>
    obtain ⟨a, hit⟩ := hostStep_iterates hallowed hstep
    exact hk.iterate hit

theorem HostRun.inKernel {tr : List (Trace.Step (Host M) (HostEvent M))} (hrun : HostRun S tr h) :
    InKernel S h :=
  hrun.invariant (I := fun _ h => InKernel S h) (fun _ h0 => h0.inKernel)
    fun _ _ _ _ _ hk hstep => hk.step hstep.1 hstep.2

theorem HostRun.refines {tr : List (Trace.Step (Host M) (HostEvent M))} (hrun : HostRun S tr h) :
    Run S (tr.filterMap iterationOf) h.daemon := by
  refine hrun.invariant (I := fun tr h => Run S (tr.filterMap iterationOf) h.daemon) ?_ ?_
  · intro h h0
    exact .start h0.startUp
  · intro tr h e h' hrun ih hstep
    obtain ⟨hallowed, hstep⟩ := hstep
    rw [List.filterMap_append]
    cases e with
    | pass d =>
      cases hstep
      exact (List.append_nil (tr.filterMap iterationOf)).symm ▸ ih
    | datagram a =>
      cases hstep
      rw [(enqueue_frame a h).1]
      exact (List.append_nil (tr.filterMap iterationOf)).symm ▸ ih
    | iteration arrived =>
      obtain ⟨a, hit⟩ := hostStep_iterates hallowed hstep
      obtain ⟨h1, hwait⟩ := hit.wait
      have hone : [({ before := h, event := .iteration arrived, after := h' } :
          Trace.Step (Host M) (HostEvent M))].filterMap iterationOf =
            [{ before := h.daemon, event := { arrived, active := a }, after := h'.daemon }] := by
        simp only [List.filterMap_cons, iterationOf, hwait, List.filterMap_nil]
      rw [hone]
      exact ih.step (hit.steps (HostRun.inKernel hrun))

/-- The event loop refines the driver: whatever the order in which datagrams arrive, time passes and
    `select` returns, the iterations are a run of the driver. -/
theorem event_loop_refines {tr : List (Trace.Step (Host M) (HostEvent M))} (hrun : HostRun S tr h) :
    Run S (tr.filterMap iterationOf) h.daemon := HostRun.refines hrun

end Kernel

/-! ### A neighbour that falls silent -/

/-- A router as its start-up leaves it to the kernel at the time `now`. -/
def hostAt {M : Type} [Field M] (S : Setup M) (d : Daemon M) (now : ℕ) : Host M where
  daemon := d
  eventFds := aggregateFds S.build d
  now := now
  expiry := Timed.setAll (fun _ => none) ((timersAtStart S d).map (timerfdSettime now))
  hbSock := []
  routerLsaRecSock := []
  networkLsaRecSock := []
  networkLsaRecRequestSock := []

theorem hostAt_start {M : Type} [Field M] [Libm M] {S : Setup M} {d : Daemon M}
    (h0 : startUp S = .ok d) (now : ℕ) : HostStart S (hostAt S d now) where
  startUp := h0
  eventFds := rfl
  expiry := rfl
  empty := ⟨rfl, rfl, rfl, rfl⟩

instance {M : Type} (h : Host M) : (e : HostEvent M) → Decidable (HostAllowed h e)
  | .pass _ | .datagram _ => .isTrue trivial
  | .iteration _ => inferInstanceAs (Decidable ((eventWait h).isSome = true))

/-- A heartbeat raises the first link. No other comes, and 600 ms later four timers are over. -/
def fallsSilent : List (HostEvent ℚ) :=
  [.datagram (.heartbeat (inetAddr 10 0 0 2)), .iteration [], .pass 600000000, .iteration [],
    .iteration [], .iteration [], .iteration []]

theorem twoLinks_starts : (startUp (twoLinks .dtlsr id (pure false))).toOption.isSome = true := by
  decide +kernel

def twoLinksStart : Daemon ℚ :=
  (startUp (twoLinks .dtlsr id (pure false))).toOption.get twoLinks_starts

/-- After that the first link is down, and the loop waits. -/
theorem fallsSilent_run : ∃ tr h, HostRun (twoLinks .dtlsr id (pure false)) tr h ∧
    tr.map Trace.Step.event = fallsSilent ∧ eventWait h = none ∧
      h.daemon.this.node.linkStatuses 0 = .linkDown := by
  have h0 : startUp (twoLinks .dtlsr id (pure false)) = .ok twoLinksStart :=
    ok_of_toOption (Option.some_get _).symm
  have hrun : ∃ tr h, HostRun (twoLinks .dtlsr id (pure false)) tr h ∧
      tr.map Trace.Step.event = fallsSilent ∧ tr.getLast?.any (fun st =>
        (eventWait st.after).isNone = true ∧
          st.after.daemon.this.node.linkStatuses 0 = .linkDown) = true :=
    Trace.exists_follow (hostAt_start h0 0) fallsSilent (by decide +kernel)
  obtain ⟨tr, h, hrun, hevents, hlast⟩ := hrun
  obtain ⟨st, -, rfl, hst⟩ := hrun.at_end hlast
  obtain ⟨hwait, hdown⟩ := of_decide_eq_true hst
  exact ⟨tr, _, hrun, hevents, Option.isNone_iff_eq_none.mp hwait, hdown⟩

theorem event_loop_refines_fallsSilent : ∃ tr h, HostRun (twoLinks .dtlsr id (pure false)) tr h ∧
    tr.map Trace.Step.event = fallsSilent ∧
      Run (twoLinks .dtlsr id (pure false)) (tr.filterMap iterationOf) h.daemon := by
  obtain ⟨tr, h, hrun, hevents, -, -⟩ := fallsSilent_run
  exact ⟨tr, h, hrun, hevents, event_loop_refines hrun⟩

end Dtlsr
