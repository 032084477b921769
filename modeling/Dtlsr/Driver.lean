import Dtlsr.LocalGraph
import Dtlsr.Lib.Trace

/-!
    `dtlsr_main.c`: the loop that waits for one event after another, with the functions of
    `local_graph.c` and `core_node.c` that touch the whole state of a router. What the environment
    decides is in `Setup` (the configuration, the clock, and what uninitialised memory and the disk
    hold) and in the events; a run of the driver is a run of the transition system `Steps`. -/

namespace Dtlsr
open Checked

/-- A row `iface - src_addr - dst_addr - dst_id` of the configuration. -/
structure LinkRow where
  interface : String
  srcAddr : Ip
  dstAddr : Ip
  dstId : ℤ

/-- What one router starts from. -/
structure Setup (M : Type) [Field M] where
  build : Build
  id : ℤ
  links : List LinkRow
  hist : HistParams M
  /-- the readings of `get_now`, one after another -/
  clock : ℕ → ℕ
  /-- what becomes of `strcmp(x, NULL)` -/
  strcmpNull : Exec Bool
  /-- uninitialised memory -/
  graph : Graph M
  this : LocalNode M
  /-- dump files of an earlier run -/
  files : ℕ → Option (List Packet)

/-- The variables of `driver`, and the globals of the files that it calls. -/
structure Daemon (M : Type) where
  graph : Graph M
  this : LocalNode M
  nextHops : HopTable
  upIface : Option String
  routerLsaSndTimer : Timer
  replayTimer : Timer
  recomputationTimer : Timer
  capture : Capture
  currRoutes : CurrRoutes
  /-- how often `get_now` has been called -/
  ticks : ℕ
  /-- not in the program: the calls to the kernel, the messages sent, and the LSAs among them that the
      loop itself sent as the router's own -/
  ioctls : List Ioctl
  sent : Sent M
  originated : List (Node M)

/-- What `event_wait` can return, with what is then received. -/
inductive Active (M : Type) where
  /-- no descriptor is ready -/
  | idle
  | heartbeat (source : Ip)
  | routerLsa (lsa : Node M) (source : Ip)
  | routerLsaSndTimer
  | networkLsa (others : Graph M)
  | networkLsaRequest (source : Ip)
  | replayTimer
  | recomputationTimer
  | timer (i : Fin maxNodeFan)

/-- The packets that reach the interfaces during one `event_wait`, and what it returns. -/
structure Event (M : Type) where
  arrived : List (ℕ × Packet)
  active : Active M

/-- What `handle_event_fd` reports to the loop. `update_routing` is never set, and `start_capture` is
    set for a heartbeat timer only, where `captureAfter` looks for it. -/
structure Flags where
  lsaSendStatus : Bool := false
  graphUpdated : Bool := false
  recompute : Bool := false
  updateRouting : Bool := false
  deriving DecidableEq

section Code
variable {M : Type} [Field M] [LinearOrder M] [FloorRing M] [Libm M] (S : Setup M)

/-! ### Start-up -/

/-- `IFACE_STR_MAX_LEN`, with the terminator -/
def ifaceStrMaxLen : ℕ := 6

/-- The names of the links are copied into slots of `IFACE_STR_MAX_LEN` bytes. A name that runs into the
    slot after its own counts as out of bounds. -/
def copyNames (links : List LinkRow) : Exec Unit :=
  if ∀ row ∈ links, row.interface.toList.length < ifaceStrMaxLen then .ok () else .error .outOfBounds

/-- `node_local_alloc` and the loop over the rows of the configuration. -/
def localNodeInit (now : ℕ) : Exec (LocalNode M) := do
  let node ← nodeInit S.this.node S.links.length
  copyNames S.links
  let lsTimeSeries ← fill maxNodeFan fun i =>
    if S.build = .dtlsr ∧ (i : ℕ) < S.links.length then
      tsInit (S.this.lsTimeSeries i) .linkDown now
    else pure (S.this.lsTimeSeries i)
  pure
    { node :=
        { node with
          id := S.id
          sourceIps := fun i => S.links[(i : ℕ)]?.elim (node.sourceIps i) LinkRow.srcAddr
          neighbourIps := fun i => S.links[(i : ℕ)]?.elim (node.neighbourIps i) LinkRow.dstAddr
          neighbourIds := fun i => S.links[(i : ℕ)]?.elim (node.neighbourIds i) LinkRow.dstId
          linkStatuses := fun i =>
            if (i : ℕ) < S.links.length then .linkDown else node.linkStatuses i }
      timers := fun i =>
        if (i : ℕ) < S.links.length then
          eventTimerDisarm (eventTimerAppend (.timer i) 0 heartbeatTimeout)
        else S.this.timers i
      lsTimeSeries
      interfaces := fun i => S.links[(i : ℕ)]?.elim (S.this.interfaces i) LinkRow.interface }

/-- The entry of `next_hops` that `memset` leaves. -/
def hopZero : HopDest := { nextHop := 0, destIp := 0, metric := 0, nextHopState := .linkDown }

/-- `driver` up to its loop. The LSR build has no capture, which its model never looks at. -/
def startUp : Exec (Daemon M) := do
  let graph := graphInit S.graph
  let this ← localNodeInit S (S.clock 0)
  let (graph, this) ← updateGlobalThis S.build S.hist graph this (S.clock 1)
  pure
    { graph
      this
      nextHops := fun _ => hopZero
      upIface := none
      routerLsaSndTimer := eventTimerAppend .routerLsaSndTimer 0 lsaSendT
      replayTimer := eventTimerDisarm (eventTimerAppend .replayTimer 0 replayDelayT)
      recomputationTimer := eventTimerAppend .recomputationTimer 0 metricRecomputationT
      capture := captureInit this S.files
      currRoutes := fun _ => SimpleRt.zero
      ticks := 2
      ioctls := []
      sent := requestNetworkLsa this
      originated := [] }

/-! ### Heartbeats -/

/-- The links from `source`, which are searched for one that is down. -/
def fromSource (this : LocalNode M) (source : Ip) (i : Fin maxNodeFan) : Prop :=
  ((i : ℕ) : ℤ) < this.node.nNeighbours ∧ this.node.neighbourIps i = source

instance (this : LocalNode M) (source : Ip) (i : Fin maxNodeFan) :
    Decidable (fromSource this source i) := by
  unfold fromSource; infer_instance

/-- The first link from `source` that is down: the loop of `register_heartbeat` breaks there. -/
def risingLink (this : LocalNode M) (source : Ip) : Option (Fin maxNodeFan) :=
  (List.finRange maxNodeFan).find? fun i =>
    fromSource this source i ∧ this.node.linkStatuses i = .linkDown

/-- The loop has reset the timers of the links from `source` up to that one. -/
def resetTimers (this : LocalNode M) (source : Ip) : LocalNode M :=
  { this with
    timers := fun i =>
      if fromSource this source i ∧ ∀ r ∈ risingLink this source, i ≤ r then
        eventTimerArm (this.timers i) 0 heartbeatTimeout
      else this.timers i }

def setLinkStatus (this : LocalNode M) (i : Fin maxNodeFan) (status : LinkState) : LocalNode M :=
  { this with
    node := { this.node with linkStatuses := Function.update this.node.linkStatuses i status } }

/-- `ts_toggle_state` on the history of link `i`. -/
def toggleHistory (this : LocalNode M) (i : Fin maxNodeFan) (now : ℕ) : Exec (LocalNode M) := do
  let ts ← tsToggleState (this.lsTimeSeries i) now
  pure { this with lsTimeSeries := Function.update this.lsTimeSeries i ts }

/-- What `register_heartbeat` does for a link that was down. -/
def linkComesUp (i : Fin maxNodeFan) (s : Daemon M) : Exec (Daemon M) :=
  let this := setLinkStatus s.this i .linkUp
  match S.build with
  | .lsr => pure { s with this }
  | .dtlsr => do
    let this ← toggleHistory this i (S.clock s.ticks)
    let capture ← captureEndIface S.strcmpNull this (this.interfaces i) s.capture
    pure
      { s with
        this
        capture
        ticks := s.ticks + 1
        replayTimer := eventTimerArm s.replayTimer 0 replayDelayT
        upIface := some (this.interfaces i) }

/-- `receive_heartbeat`; the flag says whether a link has come up. -/
def registerHeartbeat (source : Ip) (s : Daemon M) : Exec (Daemon M × Bool) :=
  let rising := risingLink s.this source
  let s := { s with this := resetTimers s.this source }
  match rising with
  | none => pure (s, false)
  | some i => do pure (← linkComesUp S i s, true)

/-- The first link whose timer has the descriptor `fd`, and whose status is `status`. -/
def linkOfTimer (this : LocalNode M) (fd : Fd) (status : LinkState) : Option (Fin maxNodeFan) :=
  (List.finRange maxNodeFan).find? fun i =>
    ((i : ℕ) : ℤ) < this.node.nNeighbours ∧ (this.timers i).fd = fd ∧
      this.node.linkStatuses i = status

/-- Only DTLSR records in the history that link `i` goes down, for which it reads the clock. -/
def recordDown (i : Fin maxNodeFan) (this : LocalNode M) (ticks : ℕ) : Exec (LocalNode M) :=
  match S.build with
  | .lsr => pure this
  | .dtlsr => toggleHistory this i (S.clock ticks)

def downReadings : Build → ℕ
  | .lsr => 0
  | .dtlsr => 1

/-- `timeout_heartbeat`; the flag says whether a link has gone down. -/
def timeoutHeartbeat (fd : Fd) (s : Daemon M) : Exec (Daemon M × Bool) :=
  match linkOfTimer s.this fd .linkUp with
  | none => pure (s, false)
  | some i => do
    let this := setLinkStatus s.this i .linkDown
    let this ← recordDown S i this s.ticks
    let this :=
      { this with timers := Function.update this.timers i (eventTimerDisarm (this.timers i)) }
    let ticks := s.ticks + downReadings S.build
    let (graph, this) ← updateGlobalThis S.build S.hist s.graph this (S.clock ticks)
    pure ({ s with graph, this, ticks := ticks + 1 }, true)

/-! ### The loop -/

/-- `handle_event_fd`: what one descriptor stands for, with the flags that it sets. -/
def handleEvent (a : Active M) (s : Daemon M) : Exec (Daemon M × Flags) :=
  match a with
  | .idle => pure (s, {})
  | .heartbeat source => do
    let (s, updated) ← registerHeartbeat S source s
    pure (s, { graphUpdated := updated, lsaSendStatus := updated })
  | .routerLsa lsa source => do
    -- the flag that `receive_router_lsa` returns is dropped
    let (graph, _, out) ← receiveRouterLsa s.graph s.this lsa source
    pure ({ s with graph, sent := s.sent ++ out }, {})
  | .routerLsaSndTimer => pure (s, { lsaSendStatus := true })
  | .networkLsa others => do
    -- and so is the one of `receive_network_lsa`
    let (graph, _) ← receiveNetworkLsa s.graph others
    pure ({ s with graph }, {})
  | .networkLsaRequest source =>
    pure ({ s with sent := s.sent ++ sendNetworkLsa s.graph s.this source }, {})
  | .replayTimer => do
    let s := { s with replayTimer := eventTimerDisarm s.replayTimer }
    match s.upIface with
    | none => .error .nullDeref
    | some upIface => do
      let capture ← captureReplayIface s.this upIface s.nextHops s.capture
      let capture ← captureRemoveReplayedPackets s.this upIface s.nextHops capture
      pure ({ s with capture }, {})
  | .recomputationTimer => pure (s, { recompute := true })
  | .timer i => do
    let (s, updated) ← timeoutHeartbeat S (s.this.timers i).fd s
    pure (s, { graphUpdated := updated, lsaSendStatus := updated })

def startCapturing (fd : Fd) (s : Daemon M) : Exec (Daemon M) :=
  match linkOfTimer s.this fd .linkDown with
  | none => pure s
  | some i => do
    let capture ← captureStartIface s.this (s.this.interfaces i) s.nextHops s.capture
    pure { s with capture }

/-- A packet reaches an interface, and the handle's queue if it passes the filter that is set. -/
def arrive (c : Capture) (a : ℕ × Packet) : Capture :=
  match c.capInfos[a.1]? with
  | some info =>
    if info.fp.elim true fun f => f.holds a.2 then
      { c with capInfos := c.capInfos.set a.1 { info with queue := info.queue ++ [a.2] } }
    else c
  | none => c

/-- The top of the loop: `capture_packets`, then `event_wait`. -/
def waitEvent (arrived : List (ℕ × Packet)) (s : Daemon M) : Exec (Daemon M) :=
  match S.build with
  | .lsr => pure s
  | .dtlsr => do
    let capture ← capturePackets s.this s.capture
    pure { s with capture := arrived.foldl arrive capture }

def runUpdateRoutingTable (s : Daemon M) : Exec (Daemon M) := do
  let (currRoutes, calls) ← updateRoutingTable s.this s.nextHops s.currRoutes
  pure { s with currRoutes, ioctls := s.ioctls ++ calls }

/-- `if (do_send_lsa)` -/
def sendOwnLsa (s : Daemon M) : Daemon M :=
  let this := localNodeUpdateMetrics S.build S.hist s.this (S.clock s.ticks)
  { s with
    this
    ticks := s.ticks + 1
    sent := s.sent ++ sendRouterLsa this.node this.node
    originated := s.originated ++ [this.node] }

/-- `if (graph_updated || recompute)` -/
def recomputeRoutes (s : Daemon M) : Exec (Daemon M) := do
  let this := localNodeUpdateMetrics S.build S.hist s.this (S.clock s.ticks)
  let (graph, this) ← updateGlobalThis S.build S.hist s.graph this (S.clock (s.ticks + 1))
  let nextHops ← pathfind S.build graph this.node.id
  pure { s with graph, this, nextHops, ticks := s.ticks + 2 }

/-- What the loop does after `handle_event_fd`, by the flags. -/
def afterEvent (f : Flags) (s : Daemon M) : Exec (Daemon M) := do
  let s := if f.lsaSendStatus then sendOwnLsa S s else s
  let s ← (if f.graphUpdated || f.recompute then recomputeRoutes S s else pure s)
  if f.updateRouting then runUpdateRoutingTable s else pure s

/-- `if (start_capture)`, which only a heartbeat timer sets. -/
def captureAfter (a : Active M) (s : Daemon M) : Exec (Daemon M) :=
  match S.build, a with
  | .dtlsr, .timer i => startCapturing (s.this.timers i).fd s
  | _, _ => pure s

/-- One iteration of the loop. -/
def iter (ev : Event M) (s : Daemon M) : Exec (Daemon M) := do
  let s ← waitEvent S ev.arrived s
  match ev.active with
  | .idle => pure s
  | a => do
    let s ← runUpdateRoutingTable s
    let (s, f) ← handleEvent S a s
    let s ← afterEvent S f s
    captureAfter S a s

/-- Which descriptors can be ready: a timer that is disarmed does not expire, and two of the timers
    exist in the DTLSR build only. -/
def Enabled (a : Active M) (s : Daemon M) : Prop :=
  match a with
  | .replayTimer => S.build = .dtlsr ∧ s.replayTimer.armed
  | .recomputationTimer => S.build = .dtlsr
  | .timer i => ((i : ℕ) : ℤ) < s.this.node.nNeighbours ∧ (s.this.timers i).armed
  | _ => True

/-- The iterations of the loop, as steps from state to state. -/
def Steps (s : Daemon M) (ev : Event M) (s' : Daemon M) : Prop :=
  Enabled S ev.active s ∧ iter S ev s = .ok s'

/-- The runs of the driver. -/
abbrev Run : List (Trace.Step (Daemon M) (Event M)) → Daemon M → Prop :=
  Trace.Run (fun s => startUp S = .ok s) (Steps S)

/-! ### Given events -/

instance (a : Active M) (s : Daemon M) : Decidable (Enabled S a s) := by
  unfold Enabled; split <;> infer_instance

/-- The steps that `evs` take from `s`, added to `tr`; none if an event cannot happen or the program
    stops in a fault. -/
def runFrom : List (Event M) → List (Trace.Step (Daemon M) (Event M)) → Daemon M →
    Option (List (Trace.Step (Daemon M) (Event M)))
  | [], tr, _ => some tr
  | ev :: evs, tr, s =>
    if Enabled S ev.active s then
      match iter S ev s with
      | .ok s' => runFrom evs (tr ++ [{ before := s, event := ev, after := s' }]) s'
      | .error _ => none
    else none

def runEvents (evs : List (Event M)) : Option (List (Trace.Step (Daemon M) (Event M))) :=
  match startUp S with
  | .ok s => runFrom S evs [] s
  | .error _ => none

variable {S}

theorem runFrom_eq_follow : ∀ {evs : List (Event M)} {tr : List (Trace.Step (Daemon M) (Event M))}
    {s : Daemon M}, runFrom S evs tr s =
      Trace.follow (fun s ev => Enabled S ev.active s) (iter S) evs tr s
  | [], _, _ => rfl
  | ev :: evs, tr, s => by
    rw [runFrom, Trace.follow]
    split
    · cases iter S ev s with
      | ok s' => exact runFrom_eq_follow
      | error e => rfl
    · rfl

theorem runFrom_run {evs : List (Event M)} {tr tr' : List (Trace.Step (Daemon M) (Event M))}
    {s : Daemon M} (hrun : Run S tr s) (h : runFrom S evs tr s = some tr') :
    (∃ s', Run S tr' s') ∧ tr'.map Trace.Step.event = tr.map Trace.Step.event ++ evs := by
  rw [runFrom_eq_follow] at h
  exact Trace.follow_run hrun h

/-- What `runEvents` computes is a run on these events. -/
theorem runEvents_run {evs : List (Event M)} {tr : List (Trace.Step (Daemon M) (Event M))}
    (h : runEvents S evs = some tr) : (∃ s, Run S tr s) ∧ tr.map Trace.Step.event = evs := by
  unfold runEvents at h
  split at h
  · rename_i s hs
    exact runFrom_run (.start hs) h
  · cases h

/-- A run on given events, of which a property has been checked. -/
theorem exists_run (evs : List (Event M)) {P : List (Trace.Step (Daemon M) (Event M)) → Prop}
    [DecidablePred P] (h : (runEvents S evs).any (fun tr => P tr) = true) :
    ∃ tr s, Run S tr s ∧ tr.map Trace.Step.event = evs ∧ P tr := by
  cases hevs : runEvents S evs with
  | none => rw [hevs] at h; cases h
  | some tr =>
    rw [hevs] at h
    obtain ⟨⟨s, hrun⟩, hevents⟩ := runEvents_run hevs
    exact ⟨tr, s, hrun, hevents, by simpa using h⟩

end Code

end Dtlsr
