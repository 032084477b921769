import Dtlsr.FilterText

/-!
    Which packets the capture filter accepts. The filter of `generate_incoming_filter_exp` is for
    stranded transit traffic: packets that are not for this node, whose destination is routed over a down
    interface, and that are not the daemon's own. It leaves out one of the daemon's ports, and without an
    entry over a down interface it leaves out the networks. -/

namespace Dtlsr
open Checked

namespace FilterText

/-- `HB_PORT` -/
def hbPort : ℕ := 45000

/-- `ROUTER_LSA_PORT` -/
def routerLsaPort : ℕ := 45001

/-- `NETWORK_LSA_PORT` -/
def networkLsaPort : ℕ := 45002

/-- `NETWORK_LSA_REQUEST_PORT` -/
def networkLsaRequestPort : ℕ := 45003

section Stranded
variable {M : Type} {this : LocalNode M} {downIfaces : List (Option String)} {hops : HopTable}
  {p : Packet}

/-- The node has distinct interface names, and `down_ifaces` has a slot for each link, which is empty or
    names one of the interfaces. -/
structure DownTable (this : LocalNode M) (downIfaces : List (Option String)) : Prop where
  fan : this.node.FanOk
  distinct : ∀ i j : Fin maxNodeFan, ((i : ℕ) : ℤ) < this.node.nNeighbours →
    ((j : ℕ) : ℤ) < this.node.nNeighbours → this.interfaces i = this.interfaces j → i = j
  length : (downIfaces.length : ℤ) = this.node.nNeighbours
  ifaces : ∀ iface, some iface ∈ downIfaces →
    ∃ j : Fin maxNodeFan, ((j : ℕ) : ℤ) < this.node.nNeighbours ∧ this.interfaces j = iface

/-- The destination is none of the node's addresses. -/
def NotOwn (this : LocalNode M) (p : Packet) : Prop :=
  ∀ i : Fin maxNodeFan, ((i : ℕ) : ℤ) < this.node.nNeighbours → p.dst ≠ this.node.sourceIps i

/-- The next hop of entry `k` is the neighbour on a down interface. -/
def DownEntry (this : LocalNode M) (downIfaces : List (Option String)) (hops : HopTable)
    (k : Fin maxNodeNum) : Prop :=
  ∃ j : Fin maxNodeFan, ((j : ℕ) : ℤ) < this.node.nNeighbours ∧
    some (this.interfaces j) ∈ downIfaces ∧ (hops k).nextHop = this.node.neighbourIds j

/-- The destination lies in the /24 of such an entry. -/
def InDownNet (this : LocalNode M) (downIfaces : List (Option String)) (hops : HopTable)
    (p : Packet) : Prop :=
  ∃ k, DownEntry this downIfaces hops k ∧ p.dst &&& netmask = (hops k).destIp &&& netmask

/-- One of the packet's ports is `port`. -/
def UsesPort (p : Packet) (port : ℕ) : Prop := p.srcPort = port ∨ p.dstPort = port

/-- Stranded transit traffic that is not the daemon's own. -/
structure IsStranded (this : LocalNode M) (downIfaces : List (Option String)) (hops : HopTable)
    (p : Packet) : Prop where
  notOwn : NotOwn this p
  inNet : InDownNet this downIfaces hops p
  notHb : ¬UsesPort p hbPort
  notRouterLsa : ¬UsesPort p routerLsaPort
  notNetworkLsa : ¬UsesPort p networkLsaPort
  notNetworkLsaRequest : ¬UsesPort p networkLsaRequestPort

/-- libpcap compiles the filter that the code writes, and the filter accepts the packet exactly if it is
    stranded. -/
def SelectsStranded (this : LocalNode M) (downIfaces : List (Option String)) (hops : HopTable)
    (p : Packet) : Prop :=
  ∃ fexp e, generateIncomingFilterExp this downIfaces hops = .ok fexp ∧ Pcap.compile fexp = some e ∧
    (e.holds (headers p) = true ↔ IsStranded this downIfaces hops p)

/-! ### The networks in the filter -/

/-- Each link has a slot of `down_ifaces`, which is empty or names one of the node's interfaces. -/
structure DownSlots (this : LocalNode M) (downIfaces : List (Option String)) : Prop where
  fan : this.node.FanOk
  length : (downIfaces.length : ℤ) = this.node.nNeighbours
  ifaces : ∀ iface, some iface ∈ downIfaces →
    ∃ j : Fin maxNodeFan, ((j : ℕ) : ℤ) < this.node.nNeighbours ∧ this.interfaces j = iface

theorem DownTable.slots (h : DownTable this downIfaces) : DownSlots this downIfaces :=
  ⟨h.fan, h.length, h.ifaces⟩

/-- The links of the node. -/
def links (this : LocalNode M) : List (Fin maxNodeFan) :=
  (List.finRange maxNodeFan).take this.node.nNeighbours.toNat

/-- The entries whose next hop is the node `id`. -/
def entriesVia (hops : HopTable) (id : ℤ) : List (Fin maxNodeNum) :=
  (List.finRange maxNodeNum).filter fun k => (hops k).nextHop = id

/-- The entries that are routed over the interface of a slot. -/
def slotEntries (this : LocalNode M) (hops : HopTable) (slot : Option String) : List (Fin maxNodeNum) :=
  (slot.bind (linkOfIface this)).elim [] fun j => entriesVia hops (this.node.neighbourIds j)

/-- The entries that are routed over down interfaces, in the order in which they are written. -/
def downEntries (this : LocalNode M) (downIfaces : List (Option String)) (hops : HopTable) :
    List (Fin maxNodeNum) :=
  downIfaces.flatMap (slotEntries this hops)

/-- The network of an entry. -/
def entryNet (hops : HopTable) (k : Fin maxNodeNum) : Net :=
  { addr := (hops k).destIp &&& netmask, slash24 := true }

theorem mem_links (hfan : this.node.FanOk) {j : Fin maxNodeFan} :
    j ∈ links this ↔ ((j : ℕ) : ℤ) < this.node.nNeighbours := by
  rw [links, List.mem_take_iff_getElem]
  simp only [List.getElem_finRange, List.length_finRange]
  constructor
  · rintro ⟨i, hi, rfl⟩
    simp only [Fin.val_cast]
    omega
  · intro hlt
    have := hfan.lt hlt
    exact ⟨j, by omega, rfl⟩

/-- The node's own addresses. -/
def ownNets (this : LocalNode M) : List Net :=
  (links this).map fun j => { addr := this.node.sourceIps j, slash24 := false }

theorem generateExcludeIncoming_eq (hfan : this.node.FanOk) :
    Dtlsr.generateExcludeIncoming this = .ok (.not (.dstNet (ownNets this))) := by
  have hloop := forUpto_ensures (n := this.node.nNeighbours) (s := ([] : List Net))
    (f := fun i nets => do
      pure (nets ++ [{ addr := (← read this.node.sourceIps i), slash24 := false }]))
    (fun i nets => nets = ((List.finRange maxNodeFan).take i).map fun j =>
      { addr := this.node.sourceIps j, slash24 := false }) rfl ?_
  · obtain ⟨nets, hnets, rfl⟩ := hloop
    rw [Dtlsr.generateExcludeIncoming, hnets]
    rfl
  · rintro i _ hi rfl
    have hi6 := hfan.lt (show (i : ℤ) < this.node.nNeighbours by omega)
    rw [read_of_lt _ hi6, ok_bind, List.take_succ_eq_append_getElem (by rwa [List.length_finRange]),
      List.getElem_finRange, List.map_append]
    exact Ensures.ok rfl

theorem linkOfIface_some {iface : String} {j : Fin maxNodeFan} (h : linkOfIface this iface = some j) :
    ((j : ℕ) : ℤ) < this.node.nNeighbours ∧ this.interfaces j = iface := by
  have := List.find?_some h
  rwa [decide_eq_true_eq] at this

/-- An interface of the node is found, with its link. -/
theorem exists_linkOfIface {iface : String} (h : ∃ j : Fin maxNodeFan,
    ((j : ℕ) : ℤ) < this.node.nNeighbours ∧ this.interfaces j = iface) :
    ∃ j, linkOfIface this iface = some j := by
  obtain ⟨j, hj⟩ := h
  cases hfind : linkOfIface this iface with
  | none =>
    have := List.find?_eq_none.mp hfind j (List.mem_finRange j)
    simp [hj] at this
  | some j => exact ⟨j, rfl⟩

theorem mem_slotEntries {k : Fin maxNodeNum} {slot : Option String} :
    k ∈ slotEntries this hops slot ↔
      ∃ j ∈ slot.bind (linkOfIface this), (hops k).nextHop = this.node.neighbourIds j := by
  rw [slotEntries]
  cases slot.bind (linkOfIface this) with
  | none => simp
  | some j => simp [entriesVia]

/-- The filter of the networks that are routed over down interfaces. -/
theorem generateAddressesOnDownInterfaces_eq (h : DownSlots this downIfaces) (hops : HopTable) :
    Dtlsr.generateAddressesOnDownInterfaces this downIfaces hops =
      .ok (dstNets ((downEntries this downIfaces hops).map (entryNet hops))) := by
  have hlen := h.length
  rw [Dtlsr.generateAddressesOnDownInterfaces]
  have hloop : ∀ (f : ℕ → List Net → Exec (List Net)), (∀ (i : ℕ) (hi : i < downIfaces.length) nets,
      f i nets = .ok (nets ++ (slotEntries this hops downIfaces[i]).map (entryNet hops))) →
      forUpto this.node.nNeighbours [] f =
        .ok ((downEntries this downIfaces hops).map (entryNet hops)) := by
    intro f hf
    have hnets := forUpto_ensures (n := this.node.nNeighbours) (s := ([] : List Net)) (f := f)
      (fun i nets => nets =
        ((downIfaces.take i).flatMap (slotEntries this hops)).map (entryNet hops)) rfl ?_
    · obtain ⟨nets, hok, rfl⟩ := hnets
      rw [hok, List.take_of_length_le (by omega), downEntries]
    · rintro i _ hi rfl
      have hlt : i < downIfaces.length := by omega
      rw [hf i hlt, List.take_succ_eq_append_getElem hlt, List.flatMap_append, List.flatMap_singleton,
        List.map_append]
      exact Ensures.ok rfl
  rw [hloop]
  · rfl
  intro i hi nets
  rw [cell_of_lt hi, ok_bind]
  cases hslot : downIfaces[i] with
  | none => exact congrArg _ (List.append_nil nets).symm
  | some iface =>
    obtain ⟨j, hlink⟩ := exists_linkOfIface (h.ifaces iface (hslot ▸ List.getElem_mem hi))
    have hentries : slotEntries this hops (some iface) = entriesVia hops (this.node.neighbourIds j) := by
      rw [slotEntries, Option.bind_some, hlink]
      rfl
    dsimp only
    rw [ifaceIdx_eq hlink, ok_bind, read_of_lt _ j.isLt, ok_bind, hentries]
    rfl

/-- With distinct interface names these are the entries whose next hop is a neighbour on a down
    interface. -/
theorem mem_downEntries (h : DownTable this downIfaces) {k : Fin maxNodeNum} :
    k ∈ downEntries this downIfaces hops ↔ DownEntry this downIfaces hops k := by
  rw [downEntries, List.mem_flatMap]
  constructor
  · rintro ⟨slot, hslot, hk⟩
    obtain ⟨j, hj, hhop⟩ := mem_slotEntries.mp hk
    obtain ⟨iface, rfl, hlink⟩ := Option.bind_eq_some_iff.mp hj
    obtain ⟨hlt, rfl⟩ := linkOfIface_some hlink
    exact ⟨j, hlt, hslot, hhop⟩
  · rintro ⟨j, hj, hslot, hhop⟩
    obtain ⟨j', hlink⟩ := exists_linkOfIface ⟨j, hj, rfl⟩
    obtain ⟨hj', hname⟩ := linkOfIface_some hlink
    obtain rfl := h.distinct j' j hj' hj hname
    exact ⟨_, hslot, mem_slotEntries.mpr ⟨j', hlink, hhop⟩⟩

/-! ### What the filter accepts -/

/-- The packets that the code's filter accepts: the entries over down interfaces matter only if there is
    one, and of the ports three are left out. -/
structure Accepted (this : LocalNode M) (downIfaces : List (Option String)) (hops : HopTable)
    (p : Packet) : Prop where
  notOwn : NotOwn this p
  inNet : (∃ k, DownEntry this downIfaces hops k) → InDownNet this downIfaces hops p
  notHb : ¬UsesPort p hbPort
  notRouterLsa : ¬UsesPort p routerLsaPort
  notNetworkLsa : ¬UsesPort p networkLsaPort

theorem ports_holds (p : Packet) : (Filter.not (.port [45000, 45001, 45002])).holds p = true ↔
    ¬UsesPort p hbPort ∧ ¬UsesPort p routerLsaPort ∧ ¬UsesPort p networkLsaPort := by
  simp [Filter.holds, UsesPort, hbPort, routerLsaPort, networkLsaPort]

theorem and_holds (f g : Filter) (p : Packet) :
    (Filter.and f g).holds p = true ↔ f.holds p = true ∧ g.holds p = true := by
  rw [Filter.holds, Bool.and_eq_true]

/-- The filter that the model of the capture sets. -/
def incomingFilter (this : LocalNode M) (downIfaces : List (Option String)) (hops : HopTable) : Filter :=
  .and ((dstNets ((downEntries this downIfaces hops).map (entryNet hops))).elim
    (.not (.dstNet (ownNets this))) fun f => .and (.not (.dstNet (ownNets this))) f)
      (.not (.port [45000, 45001, 45002]))

theorem generateIncomingFilterExp_eq (h : DownSlots this downIfaces) (hops : HopTable) :
    Dtlsr.generateIncomingFilterExp this downIfaces hops = .ok (incomingFilter this downIfaces hops) := by
  rw [Dtlsr.generateIncomingFilterExp, generateExcludeIncoming_eq h.fan, ok_bind,
    generateAddressesOnDownInterfaces_eq h, ok_bind]
  rfl

theorem ownNets_holds (hfan : this.node.FanOk) (p : Packet) :
    (Filter.not (.dstNet (ownNets this))).holds p = true ↔ NotOwn this p := by
  have hown : ∀ net, net ∈ ownNets this ↔ ∃ j : Fin maxNodeFan,
      ((j : ℕ) : ℤ) < this.node.nNeighbours ∧
        net = { addr := this.node.sourceIps j, slash24 := false } := by
    intro net
    simp [ownNets, mem_links hfan, eq_comm]
  simp only [Filter.holds, Bool.not_eq_true', List.any_eq_false, hown, NotOwn]
  constructor
  · intro hall j hj heq
    exact hall _ ⟨j, hj, rfl⟩ (by simp [Net.holds, heq])
  · rintro hall _ ⟨j, hj, rfl⟩
    simpa [Net.holds] using hall j hj

theorem entryNets_holds (h : DownTable this downIfaces) (p : Packet) :
    (Filter.dstNet ((downEntries this downIfaces hops).map (entryNet hops))).holds p = true ↔
      InDownNet this downIfaces hops p := by
  simp only [Filter.holds, List.any_map, List.any_eq_true, Function.comp_apply, mem_downEntries h,
    InDownNet]
  refine exists_congr fun k => and_congr_right fun _ => ?_
  simp [entryNet, Net.holds, UInt32.and_assoc]

/-- The filter is printable. -/
theorem incomingFilter_printable (hn : 0 < this.node.nNeighbours) :
    Printable (incomingFilter this downIfaces hops) := by
  have hown : Printable (.not (.dstNet (ownNets this))) := by
    refine ⟨⟨?_, fun net hnet hs => ?_⟩, trivial⟩
    · have hpos : 0 < this.node.nNeighbours.toNat := by omega
      simp [ownNets, links, maxNodeFan, hpos.ne']
    · obtain ⟨j, -, rfl⟩ := List.mem_map.mp hnet
      cases hs
  have hports : Printable (.not (.port [45000, 45001, 45002])) := ⟨⟨by simp, by simp⟩, trivial⟩
  rw [incomingFilter, dstNets]
  split
  · exact ⟨hown, hports, trivial⟩
  · rename_i hne
    refine ⟨⟨hown, ⟨hne, fun net hnet _ => ?_⟩, trivial⟩, hports, trivial⟩
    obtain ⟨k, -, rfl⟩ := List.mem_map.mp hnet
    exact netmask_idem _

/-- The filter accepts what `Accepted` says. -/
theorem incomingFilter_holds (h : DownTable this downIfaces) (p : Packet) :
    (incomingFilter this downIfaces hops).holds p = true ↔ Accepted this downIfaces hops p := by
  have hnone : (downEntries this downIfaces hops).map (entryNet hops) = [] ↔
      ¬∃ k, DownEntry this downIfaces hops k := by
    rw [List.map_eq_nil_iff, List.eq_nil_iff_forall_not_mem, not_exists]
    exact forall_congr' fun k => not_congr (mem_downEntries h)
  rw [incomingFilter, dstNets, and_holds, ports_holds]
  by_cases hnil : (downEntries this downIfaces hops).map (entryNet hops) = []
  · rw [if_pos hnil, Option.elim_none, ownNets_holds h.fan]
    constructor
    · rintro ⟨h1, h2, h3, h4⟩
      exact ⟨h1, fun hsome => absurd hsome (hnone.mp hnil), h2, h3, h4⟩
    · rintro ⟨h1, -, h2, h3, h4⟩
      exact ⟨h1, h2, h3, h4⟩
  · have hsome : ∃ k, DownEntry this downIfaces hops k := not_not.mp fun hno => hnil (hnone.mpr hno)
    rw [if_neg hnil, Option.elim_some, and_holds, ownNets_holds h.fan, entryNets_holds h]
    constructor
    · rintro ⟨⟨h1, hin⟩, h2, h3, h4⟩
      exact ⟨h1, fun _ => hin, h2, h3, h4⟩
    · rintro ⟨h1, hin, h2, h3, h4⟩
      exact ⟨⟨h1, hin hsome⟩, h2, h3, h4⟩

/-- The text that the code writes. -/
theorem generateIncomingFilterExp_ok (h : DownSlots this downIfaces) (hn : 0 < this.node.nNeighbours)
    (hops : HopTable) : generateIncomingFilterExp this downIfaces hops =
      .ok (text (incomingFilter this downIfaces hops)) := by
  have htext := generateIncomingFilterExp_text hn downIfaces hops
  rw [generateIncomingFilterExp_eq h] at htext
  obtain ⟨fexp, hfexp, rfl⟩ := htext.ok_right
  exact hfexp

/-- What libpcap makes of the text that the code writes. -/
theorem compile_incoming (h : DownTable this downIfaces) (hn : 0 < this.node.nNeighbours)
    (hops : HopTable) : ∃ fexp e, generateIncomingFilterExp this downIfaces hops = .ok fexp ∧
      Pcap.compile fexp = some e ∧
      ∀ p, e.holds (headers p) = true ↔ Accepted this downIfaces hops p := by
  obtain ⟨e, he, hmeans⟩ := compile_text (incomingFilter_printable hn)
  refine ⟨_, e, generateIncomingFilterExp_ok h.slots hn hops, he, fun p => ?_⟩
  rw [hmeans, incomingFilter_holds h]

/-- The capture filter selects exactly the stranded transit traffic but for two kinds of packets: those
    to or from the request port, and, when no entry is routed over a down interface, all transit
    packets. A node without neighbours has no filter. -/
theorem selectsStranded_iff (h : DownTable this downIfaces) (hops : HopTable) (p : Packet) :
    SelectsStranded this downIfaces hops p ↔ 0 < this.node.nNeighbours ∧
      (NotOwn this p → ¬UsesPort p hbPort → ¬UsesPort p routerLsaPort → ¬UsesPort p networkLsaPort →
        (∃ k, DownEntry this downIfaces hops k) ∧
          (InDownNet this downIfaces hops p → ¬UsesPort p networkLsaRequestPort)) := by
  rcases lt_or_ge 0 this.node.nNeighbours with hn | hn
  · obtain ⟨fexp, e, hgen, hcompile, hholds⟩ := compile_incoming h hn hops
    have hiff : SelectsStranded this downIfaces hops p ↔
        (Accepted this downIfaces hops p ↔ IsStranded this downIfaces hops p) := by
      constructor
      · rintro ⟨fexp', e', hgen', hcompile', hiff⟩
        rw [hgen] at hgen'
        cases hgen'
        rw [hcompile] at hcompile'
        cases hcompile'
        rw [← hholds, hiff]
      · intro hiff
        exact ⟨fexp, e, hgen, hcompile, (hholds p).trans hiff⟩
    rw [hiff]
    constructor
    · intro hsame
      refine ⟨hn, fun h1 h2 h3 h4 => ?_⟩
      have hsome : ∃ k, DownEntry this downIfaces hops k := by
        by_contra hno
        obtain ⟨k, hk, -⟩ := (hsame.mp ⟨h1, fun hsome => absurd hsome hno, h2, h3, h4⟩).inNet
        exact hno ⟨k, hk⟩
      exact ⟨hsome, fun hin => (hsame.mp ⟨h1, fun _ => hin, h2, h3, h4⟩).notNetworkLsaRequest⟩
    · rintro ⟨-, hcond⟩
      constructor
      · rintro ⟨h1, hin, h2, h3, h4⟩
        obtain ⟨hsome, hreq⟩ := hcond h1 h2 h3 h4
        exact ⟨h1, hin hsome, h2, h3, h4, hreq (hin hsome)⟩
      · rintro ⟨h1, hin, h2, h3, h4, -⟩
        exact ⟨h1, fun _ => hin, h2, h3, h4⟩
  · constructor
    · rintro ⟨fexp, e, hgen, -⟩
      rw [generateIncomingFilterExp, generateExcludeIncoming, if_pos hn] at hgen
      cases hgen
    · rintro ⟨hpos, -⟩
      omega

end Stranded

/-! ### One link down -/

theorem oneLink_downTable : DownTable oneLink [some "eth0"] where
  fan := by decide
  distinct i j hi hj _ := Fin.ext (by simp only [oneLink] at hi hj; omega)
  length := rfl
  ifaces := by
    intro iface h
    obtain rfl : iface = "eth0" := by simpa using h
    exact ⟨0, by decide, rfl⟩

/-- Every node is behind the neighbour on the link. -/
def allVia : HopTable := fun _ => { hopZero with nextHop := 2, destIp := inetAddr 10 0 1 2 }

/-- A packet through the node to `port` of a host behind the link. -/
def transit (port : ℕ) : Packet :=
  { headerLen := 20, src := inetAddr 192 168 0 1, dst := inetAddr 10 0 1 9, srcPort := 5000,
    dstPort := port }

theorem transit_inNet (port : ℕ) : InDownNet oneLink [some "eth0"] allVia (transit port) :=
  ⟨0, ⟨0, by decide, by simp [oneLink], rfl⟩,
    show inetAddr 10 0 1 9 &&& netmask = inetAddr 10 0 1 2 &&& netmask by decide⟩

theorem transit_notOwn (port : ℕ) : NotOwn oneLink (transit port) := by
  intro i _
  exact show inetAddr 10 0 1 9 ≠ 0 by decide

theorem selectsStranded_web : SelectsStranded oneLink [some "eth0"] allVia (transit 80) := by
  refine (selectsStranded_iff oneLink_downTable allVia (transit 80)).mpr ⟨by decide, fun _ _ _ _ => ?_⟩
  obtain ⟨k, hk, _⟩ := transit_inNet 80
  exact ⟨⟨k, hk⟩, fun _ => by simp [UsesPort, transit, networkLsaRequestPort]⟩

/-- A request for the network's LSAs is captured as if it were the traffic of a host. -/
theorem request_is_captured : ¬∀ (this : LocalNode ℚ) (downIfaces : List (Option String))
    (hops : HopTable) (p : Packet), DownTable this downIfaces →
      SelectsStranded this downIfaces hops p := by
  intro h
  obtain ⟨fexp, e, hgen, hcompile, hiff⟩ := h oneLink _ allVia (transit 45003) oneLink_downTable
  obtain ⟨fexp', e', hgen', hcompile', hholds⟩ := compile_incoming oneLink_downTable (by decide) allVia
  rw [hgen] at hgen'
  cases hgen'
  rw [hcompile] at hcompile'
  cases hcompile'
  have haccepted : Accepted oneLink [some "eth0"] allVia (transit 45003) :=
    { notOwn := transit_notOwn 45003
      inNet := fun _ => transit_inNet 45003
      notHb := by simp [UsesPort, transit, hbPort]
      notRouterLsa := by simp [UsesPort, transit, routerLsaPort]
      notNetworkLsa := by simp [UsesPort, transit, networkLsaPort] }
  exact (hiff.mp ((hholds _).mpr haccepted)).notNetworkLsaRequest (Or.inr rfl)

end FilterText

end Dtlsr
