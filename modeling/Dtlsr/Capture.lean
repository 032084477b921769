import Dtlsr.Pathfind

/-!
    `network/capture.c`: packets for interfaces that are down are captured into a dump file, and
    replayed once an interface is up again. Outside the sources are libpcap, tcpdump and tcpreplay: a
    capture handle is a queue of the packets that passed its filter, a file is a list of packets, and a
    filter expression selects packets. `pcap_breakloop` is left out: it is only called where
    `is_capturing` has been cleared. -/

namespace Dtlsr
open Checked

/-- What the filters and `dump_packet` look at in an IP packet. -/
structure Packet where
  /-- `IP_HL(ip) * 4` -/
  headerLen : ℕ
  src : Ip
  dst : Ip
  srcPort : ℕ
  dstPort : ℕ
  deriving DecidableEq

/-! ### Filter expressions -/

/-- `a.b.c.d` or `a.b.c.d/24` -/
structure Net where
  addr : Ip
  slash24 : Bool
  deriving DecidableEq

inductive Filter where
  /-- `( dst net x or y or .. )` -/
  | dstNet (nets : List Net)
  /-- `( port x or y or .. )` -/
  | port (ports : List ℕ)
  /-- `( not f )` -/
  | not (f : Filter)
  /-- `f and g` -/
  | and (f g : Filter)
  deriving DecidableEq

def Net.holds (net : Net) (ip : Ip) : Bool :=
  if net.slash24 then ip &&& netmask = net.addr &&& netmask else ip = net.addr

def Filter.holds : Filter → Packet → Bool
  | .dstNet nets, p => nets.any fun net => net.holds p.dst
  | .port ports, p => ports.any fun port => p.srcPort = port || p.dstPort = port
  | .not f, p => !f.holds p
  | .and f g, p => f.holds p && g.holds p

structure CapInfo where
  /-- the filter that is set, if `has_fp` -/
  fp : Option Filter
  /-- packets that the handle has ready -/
  queue : List Packet

/-- The file-level variables of `capture.c`, and the dump files by the number in their name. -/
structure Capture where
  isCapturing : Bool
  dumperCurrN : ℕ
  downIfaces : List (Option String)
  nDownIfaces : ℤ
  capInfos : List CapInfo
  files : ℕ → Option (List Packet)
  /-- not in the program: every packet dumped so far, and every packet replayed -/
  dumped : List Packet
  replayed : List Packet

/-- The dump file in use. -/
def Capture.dump (c : Capture) : List Packet := (c.files c.dumperCurrN).getD []

section Code
variable {M : Type}

/-- The index of an interface, or `n_neighbours`. -/
def ifaceIdx (this : LocalNode M) (iface : String) : Exec ℤ := do
  let idx ← firstIdx this.node.nNeighbours fun i => do
    pure (decide ((← read this.interfaces i) = iface))
  pure (idx.elim this.node.nNeighbours fun i => i)

/-- The networks whose next hop is the node `id`. -/
def netsVia (nextHops : HopTable) (id : ℤ) : List Net :=
  ((List.finRange maxNodeNum).filter fun k => (nextHops k).nextHop = id).map fun k =>
    { addr := (nextHops k).destIp &&& netmask, slash24 := true }

/-- `NULL` when there are no addresses. -/
def dstNets (nets : List Net) : Option Filter := if nets = [] then none else some (.dstNet nets)

def generateExcludeIncoming (this : LocalNode M) : Exec Filter := do
  let nets ← forUpto this.node.nNeighbours [] fun i nets => do
    pure (nets ++ [{ addr := (← read this.node.sourceIps i), slash24 := false }])
  pure (.not (.dstNet nets))

def generateAddressesOnInterface (this : LocalNode M) (iface : String) (nextHops : HopTable) :
    Exec (Option Filter) := do
  let upIdx ← ifaceIdx this iface
  let id ← read this.node.neighbourIds upIdx
  pure (dstNets (netsVia nextHops id))

def generateAddressesOnDownInterfaces (this : LocalNode M) (downIfaces : List (Option String))
    (nextHops : HopTable) : Exec (Option Filter) := do
  let nets ← forUpto this.node.nNeighbours [] fun i nets => do
    match ← cell downIfaces i with
    | none => pure nets
    | some iface => do
      let j ← ifaceIdx this iface
      let id ← read this.node.neighbourIds j
      pure (nets ++ netsVia nextHops id)
  pure (dstNets nets)

def generateIncomingFilterExp (this : LocalNode M) (downIfaces : List (Option String))
    (nextHops : HopTable) : Exec Filter := do
  let incoming ← generateExcludeIncoming this
  let outgoing ← generateAddressesOnDownInterfaces this downIfaces nextHops
  -- filter out DTLSR traffic (heartbeats and LSAs)
  pure (.and (outgoing.elim incoming fun f => .and incoming f) (.not (.port [45000, 45001, 45002])))

/-- `set_filter` on `cap_infos[i]` -/
def setFilter (this : LocalNode M) (nextHops : HopTable) (i : ℕ) (c : Capture) : Exec Capture := do
  let info ← cell c.capInfos i
  let filterExp ← generateIncomingFilterExp this c.downIfaces nextHops
  pure { c with capInfos := c.capInfos.set i { info with fp := some filterExp } }

/-- `pcap_dump_open` truncates the file that it opens. -/
def openDump (c : Capture) : Capture :=
  { c with files := Function.update c.files c.dumperCurrN (some []) }

/-- `files` are those of an earlier run of the program. -/
def captureInit (this : LocalNode M) (files : ℕ → Option (List Packet)) : Capture :=
  openDump
    { isCapturing := false
      dumperCurrN := 0
      downIfaces := List.replicate this.node.nNeighbours.toNat none
      nDownIfaces := 0
      capInfos := List.replicate this.node.nNeighbours.toNat { fp := none, queue := [] }
      files
      dumped := []
      replayed := [] }

/-- `dump_packet`; `status` is what its first argument points at. -/
def dumpPacket (status : LinkState) (c : Capture) (p : Packet) : Capture :=
  if c.isCapturing = false then c
  else if status = .linkUp then c
  else if p.headerLen < 20 then c
  else
    { c with
      files := Function.update c.files c.dumperCurrN (some (c.dump ++ [p]))
      dumped := c.dumped ++ [p] }

/-- `pcap_dispatch` with count -1 hands on every packet that the handle has ready. -/
def capturePackets (this : LocalNode M) (c : Capture) : Exec Capture :=
  forUpto this.node.nNeighbours c fun i c => do
    let info ← cell c.capInfos i
    let status ← read this.node.linkStatuses i
    let c := info.queue.foldl (dumpPacket status) c
    pure { c with capInfos := c.capInfos.set i { info with queue := [] } }

def captureStartIface (this : LocalNode M) (downIface : String) (nextHops : HopTable)
    (c : Capture) : Exec Capture := do
  let c := { c with isCapturing := true }
  -- add iface to down_ifaces array
  let free ← firstIdx this.node.nNeighbours fun i => do
    pure (← cell c.downIfaces i).isNone
  let c := match free with
    | some i => { c with downIfaces := c.downIfaces.set i (some downIface) }
    | none => c
  let c ← forUpto this.node.nNeighbours c (setFilter this nextHops)
  pure { c with nDownIfaces := c.nDownIfaces + 1 }

/-- `strcmp(up_iface, down_ifaces[i]) == 0`; `strcmpNull` is what becomes of a comparison with an
    empty slot. -/
def ifaceMatches (strcmpNull : Exec Bool) (upIface : String) : Option String → Exec Bool
  | some iface => pure (upIface = iface)
  | none => strcmpNull

/-- The search of `capture_end_iface`. -/
def downIfaceIdx (strcmpNull : Exec Bool) (this : LocalNode M) (upIface : String)
    (downIfaces : List (Option String)) : Exec (Option ℕ) :=
  firstIdx this.node.nNeighbours fun i => do ifaceMatches strcmpNull upIface (← cell downIfaces i)

def captureEndIface (strcmpNull : Exec Bool) (this : LocalNode M) (upIface : String)
    (c : Capture) : Exec Capture :=
  -- ignore if this is the first time the links have come up
  if c.nDownIfaces = 0 then pure c
  else do
    let hit ← downIfaceIdx strcmpNull this upIface c.downIfaces
    let c := match hit with
      | some i => { c with downIfaces := c.downIfaces.set i none }
      | none => c
    let c := { c with nDownIfaces := c.nDownIfaces - 1 }
    -- if all links are now up, stop pcap listeners
    let c := if c.nDownIfaces = 0 then { c with isCapturing := false } else c
    capturePackets this c

/-- `capture_replay_iface`: the command is `tcpdump -r dump -w- 'fexp' | tcpreplay`. The `(null)`
    printed for a missing expression is no filter that tcpdump accepts. -/
def captureReplayIface (this : LocalNode M) (upIface : String) (nextHops : HopTable)
    (c : Capture) : Exec Capture := do
  match ← generateAddressesOnInterface this upIface nextHops with
  | some fexp => pure { c with replayed := c.replayed ++ c.dump.filter fexp.holds }
  | none => pure c

/-- `capture_remove_replayed_packets`: `tcpdump -r old -w new '( not fexp )'`, then `rm old`, and the
    dumper is opened on `new`. -/
def captureRemoveReplayedPackets (this : LocalNode M) (upIface : String) (nextHops : HopTable)
    (c : Capture) : Exec Capture := do
  let fexp ← generateAddressesOnInterface this upIface nextHops
  let files := match fexp with
    | some f => Function.update c.files (c.dumperCurrN + 1) (some (c.dump.filter f.not.holds))
    | none => c.files
  let files := Function.update files c.dumperCurrN none
  pure (openDump { c with files, dumperCurrN := c.dumperCurrN + 1 })

end Code

end Dtlsr
