import Mathlib.Algebra.Order.BigOperators.Group.List
import Dtlsr.Stranded

/-!
    The sizes of the strings that `network/capture.c` generates. The commands are allocated for the
    number of neighbours, while their text grows with the number of entries that are routed over the
    interface; the filter of the capture is allocated for both. -/

namespace Dtlsr
open Checked

namespace FilterText

/-! ### The commands -/

/-- `dump_%d.pcap` -/
def getDumperFilename (n : ℕ) : List Char :=
  "dump_".toList ++ Nat.toDigits 10 n ++ ".pcap".toList

/-- What `%s` prints, also for `NULL`. -/
def printed (fexp : Option (List Char)) : List Char := fexp.getD "(null)".toList

section Code
variable {M : Type}

def generateReplayCommand (this : LocalNode M) (dumperCurrN : ℕ) (upIface : String)
    (nextHops : HopTable) : Exec (List Char) := do
  let filename := getDumperFilename dumperCurrN
  let fexp ← generateAddressesOnInterface this upIface nextHops
  pure ("tcpdump -U -r '".toList ++ filename ++ "' -w- '".toList ++ printed fexp ++
    "' | tcpreplay --topspeed -i".toList ++ upIface.toList ++ " -".toList)

def generateFilterCommand (this : LocalNode M) (upIface : String) (oldFilename newFilename : List Char)
    (nextHops : HopTable) : Exec (List Char) := do
  let fexp ← generateAddressesOnInterface this upIface nextHops
  pure ("tcpdump -r '".toList ++ oldFilename ++ "' -w '".toList ++ newFilename ++
    "' '( not ".toList ++ printed fexp ++ " )'".toList)

/-! ### The buffers -/

/-- A string fits into `size` bytes, with its terminator. -/
def FitsIn (s : List Char) (size : ℤ) : Prop := (s.length : ℤ) + 1 ≤ size

/-- Every generated string is generated, and fits into what is allocated for it. -/
structure CommandsFit (this : LocalNode M) (downIfaces : List (Option String)) (upIface : String)
    (dumperCurrN : ℕ) (oldFilename newFilename : List Char) (hops : HopTable) : Prop where
  replay : Ensures (generateReplayCommand this dumperCurrN upIface hops) fun s =>
    FitsIn s (80 + 32 * this.node.nNeighbours)
  filter : Ensures (generateFilterCommand this upIface oldFilename newFilename hops) fun s =>
    FitsIn s (80 + 32 * this.node.nNeighbours)
  incoming : Ensures (generateIncomingFilterExp this downIfaces hops) fun s =>
    FitsIn s (32 * (this.node.nNeighbours + maxNodeNum))
  onInterface : Ensures (generateAddressesOnInterface this upIface hops) fun l =>
    ∀ s ∈ l, FitsIn s 1024
  onDownInterfaces : Ensures (generateAddressesOnDownInterfaces this downIfaces hops) fun l =>
    ∀ s ∈ l, FitsIn s 1024

end Code

/-! ### Lengths -/

/-- The digits of a byte. -/
def byteLen (b : ℕ) : ℕ := if b < 10 then 1 else if b < 100 then 2 else 3

/-- The length of an address and of ` or `. -/
def addrLen (a : Ip) : ℕ :=
  byteLen (quadOf a).a + byteLen (quadOf a).b + byteLen (quadOf a).c + byteLen (quadOf a).d + 7

/-- The length of the /24 of an address and of ` or `. -/
def netLen (a : Ip) : ℕ := byteLen (quadOf a).a + byteLen (quadOf a).b + byteLen (quadOf a).c + 11

theorem length_toDigits {b : ℕ} (h : b < 256) : (Nat.toDigits 10 b).length = byteLen b := by
  have hpos : 0 < (Nat.toDigits 10 b).length := Nat.length_toDigits_pos
  have h1 := Nat.length_toDigits_le_iff (b := 10) (n := b) (k := 1) (by decide) (by decide)
  have h2 := Nat.length_toDigits_le_iff (b := 10) (n := b) (k := 2) (by decide) (by decide)
  have h3 := Nat.length_toDigits_le_iff (b := 10) (n := b) (k := 3) (by decide) (by decide)
  unfold byteLen
  split
  · omega
  · split <;> omega

theorem byteLen_le (b : ℕ) : byteLen b ≤ 3 := by
  unfold byteLen
  split
  · omega
  · split <;> omega

theorem length_inetNtoa (a : Ip) : (inetNtoa a).length + 4 = addrLen a := by
  obtain ⟨ha, hb, hc, hd⟩ := quadOf_ok a
  simp only [inetNtoa, Pcap.Quad.text, List.intercalate_cons_cons, List.intercalate_singleton,
    List.length_append, List.length_singleton, length_toDigits ha, length_toDigits hb,
    length_toDigits hc, length_toDigits hd, addrLen]
  omega

theorem quadOf_and_netmask (a : Ip) : quadOf (a &&& netmask) =
    { a := (quadOf a).a, b := (quadOf a).b, c := (quadOf a).c, d := 0 } := by
  obtain ⟨ha, hb, hc, -⟩ := quadOf_ok a
  have hmask := and_netmask_toNat a
  generalize quadOf a = q at *
  simp only [quadOf, hmask, Pcap.Quad.mk.injEq]
  omega

theorem length_joinOr {ws : List (List Char)} (h : ws ≠ []) :
    (joinOr ws).length + 4 = (ws.map fun w => w.length + 4).sum := by
  induction ws with
  | nil => exact absurd rfl h
  | cons w ws ih =>
    rcases ws with - | ⟨w', ws⟩
    · simp [joinOr]
    · have hws := ih (by simp)
      rw [joinOr, List.intercalate_cons_cons, ← joinOr, List.map_cons, List.sum_cons, ← hws]
      simp only [List.length_append]
      have hor : " or ".toList.length = 4 := by decide
      omega

section Lengths
variable {M : Type} {this : LocalNode M} {downIfaces : List (Option String)} {upIface : String}
  {hops : HopTable}

/-- The length of a list of entries. -/
def listLen (hops : HopTable) (ks : List (Fin maxNodeNum)) : ℕ :=
  (ks.map fun k => netLen (hops k).destIp).sum + 8

/-- The length of what a command prints of a list. -/
def printedLen (hops : HopTable) (ks : List (Fin maxNodeNum)) : ℕ :=
  if ks = [] then 6 else listLen hops ks

/-- The length of the node's own addresses. -/
def ownLen (this : LocalNode M) : ℕ := ((links this).map fun j => addrLen (this.node.sourceIps j)).sum

theorem length_netText_entry (k : Fin maxNodeNum) :
    (netText (entryNet hops k)).length + 4 = netLen (hops k).destIp := by
  have haddr := length_inetNtoa ((hops k).destIp &&& netmask)
  have hzero : byteLen 0 = 1 := by decide
  have hslash : "/24".toList.length = 3 := by decide
  rw [addrLen, quadOf_and_netmask] at haddr
  dsimp only at haddr
  have htext : netText (entryNet hops k) = inetNtoa ((hops k).destIp &&& netmask) ++ "/24".toList := rfl
  rw [htext, List.length_append, hslash, netLen]
  omega

theorem length_entries {ks : List (Fin maxNodeNum)} (h : ks ≠ []) :
    (text (.dstNet (ks.map (entryNet hops)))).length = listLen hops ks := by
  have hjoin := length_joinOr (show (ks.map (entryNet hops)).map netText ≠ [] by simpa using h)
  have hopen : "( dst net ".toList.length = 10 := by decide
  have hclose : " )".toList.length = 2 := by decide
  simp only [List.map_map, Function.comp_def, length_netText_entry] at hjoin
  rw [text_dstNet, listLen, List.length_append, List.length_append, hopen, hclose, ← hjoin]
  simp only [List.map_map, Function.comp_def]
  omega

theorem length_own (hn : 0 < this.node.nNeighbours) :
    (text (.not (.dstNet (ownNets this)))).length = ownLen this + 16 := by
  have hne : ownNets this ≠ [] := by
    have hpos : 0 < this.node.nNeighbours.toNat := by omega
    simp [ownNets, links, maxNodeFan, hpos.ne']
  have hown : ∀ a : Ip, (netText { addr := a, slash24 := false }).length + 4 = addrLen a := by
    intro a
    rw [netText, if_neg Bool.false_ne_true, List.append_nil, length_inetNtoa]
  have hjoin := length_joinOr (show (ownNets this).map netText ≠ [] by simpa using hne)
  have hopen : "( dst net ".toList.length = 10 := by decide
  have hnot : "( not ".toList.length = 6 := by decide
  have hclose : " )".toList.length = 2 := by decide
  simp only [ownNets, List.map_map, Function.comp_def, hown] at hjoin
  rw [text_not, text_dstNet, ownLen, List.length_append, List.length_append, List.length_append,
    List.length_append, hopen, hnot, hclose, ← hjoin]
  simp only [ownNets, List.map_map, Function.comp_def]
  omega

/-! ### What is generated -/

/-- The interface names a link of the node, which has one at least. -/
structure Generates (this : LocalNode M) (downIfaces : List (Option String)) (upIface : String) :
    Prop where
  pos : 0 < this.node.nNeighbours
  slots : DownSlots this downIfaces
  up : ∃ j : Fin maxNodeFan, ((j : ℕ) : ℤ) < this.node.nNeighbours ∧ this.interfaces j = upIface

/-- The list of some entries, `NULL` for none. -/
def entriesText (hops : HopTable) (ks : List (Fin maxNodeNum)) : Option (List Char) :=
  (dstNets (ks.map (entryNet hops))).map text

theorem length_printed (ks : List (Fin maxNodeNum)) :
    (printed (entriesText hops ks)).length = printedLen hops ks := by
  by_cases hnil : ks = []
  · subst hnil
    exact show "(null)".toList.length = 6 by decide
  · rw [printedLen, if_neg hnil, ← length_entries hnil, entriesText, dstNets,
      if_neg (by simpa using hnil)]
    rfl

theorem entriesText_fits (ks : List (Fin maxNodeNum)) (size : ℤ) (hsize : 8 < size) :
    (∀ s ∈ entriesText hops ks, FitsIn s size) ↔ (listLen hops ks : ℤ) + 1 ≤ size := by
  by_cases hnil : ks = []
  · subst hnil
    simp [entriesText, dstNets, listLen]
    omega
  · rw [entriesText, dstNets, if_neg (by simpa using hnil), ← length_entries hnil]
    simp [FitsIn]

theorem generateAddressesOnInterface_ok (h : Generates this downIfaces upIface) (hops : HopTable) :
    generateAddressesOnInterface this upIface hops =
      .ok (entriesText hops (slotEntries this hops (some upIface))) := by
  obtain ⟨j, hlink⟩ := exists_linkOfIface h.up
  have htext := generateAddressesOnInterface_text this upIface hops
  rw [generateAddressesOnInterface_eq hlink] at htext
  obtain ⟨l, hl, rfl⟩ := htext.ok_right
  rw [hl, slotEntries, Option.bind_some, hlink]
  rfl

theorem generateAddressesOnDownInterfaces_ok (h : DownSlots this downIfaces) (hops : HopTable) :
    generateAddressesOnDownInterfaces this downIfaces hops =
      .ok (entriesText hops (downEntries this downIfaces hops)) := by
  have htext := generateAddressesOnDownInterfaces_text this downIfaces hops
  rw [generateAddressesOnDownInterfaces_eq h] at htext
  obtain ⟨l, hl, rfl⟩ := htext.ok_right
  exact hl

theorem length_incoming (hn : 0 < this.node.nNeighbours) :
    (text (incomingFilter this downIfaces hops)).length = ownLen this + 61 +
      if downEntries this downIfaces hops = [] then 0
      else listLen hops (downEntries this downIfaces hops) + 5 := by
  have hand : " and ".toList.length = 5 := by decide
  have hports : (text (.not (.port [45000, 45001, 45002]))).length = 40 := by decide
  by_cases hnil : downEntries this downIfaces hops = []
  · rw [incomingFilter, hnil, if_pos rfl, List.map_nil, dstNets, if_pos rfl, Option.elim_none, text_and,
      List.length_append, List.length_append, length_own hn, hand, hports]
  · rw [incomingFilter, if_neg hnil, dstNets, if_neg (by simpa using hnil), Option.elim_some, text_and,
      text_and, List.length_append, List.length_append, List.length_append, List.length_append,
      length_own hn, length_entries hnil, hand, hports]
    omega

/-- With every entry in it at most once, a list fits into its buffer. -/
theorem listLen_le (hops : HopTable) {ks : List (Fin maxNodeNum)} (h : ks.Nodup) :
    listLen hops ks ≤ 248 := by
  have hlen : ks.length ≤ maxNodeNum := by simpa using h.length_le_card
  have hsum := List.sum_le_card_nsmul (ks.map fun k => netLen (hops k).destIp) 20 ?_
  · rw [List.length_map, Nat.nsmul_eq_mul] at hsum
    unfold maxNodeNum at hlen
    rw [listLen]
    omega
  · intro len hlen
    obtain ⟨k, -, rfl⟩ := List.mem_map.mp hlen
    have ha := byteLen_le (quadOf (hops k).destIp).a
    have hb := byteLen_le (quadOf (hops k).destIp).b
    have hc := byteLen_le (quadOf (hops k).destIp).c
    rw [netLen]
    omega

theorem slotEntries_nodup (this : LocalNode M) (hops : HopTable) (slot : Option String) :
    (slotEntries this hops slot).Nodup := by
  rw [slotEntries]
  cases slot.bind (linkOfIface this) with
  | none => exact List.nodup_nil
  | some j =>
    rw [Option.elim_some, entriesVia]
    exact (List.nodup_finRange maxNodeNum).filter _

/-! ### What fits -/

/-- The addresses routed over the interface are short enough for the commands, and those routed over
    down interfaces for the filter. -/
structure ShortEnough (this : LocalNode M) (downIfaces : List (Option String)) (upIface : String)
    (dumperCurrN : ℕ) (oldFilename newFilename : List Char) (hops : HopTable) : Prop where
  replay : ((getDumperFilename dumperCurrN).length + upIface.length +
    printedLen hops (slotEntries this hops (some upIface)) : ℤ) ≤ 28 + 32 * this.node.nNeighbours
  filter : (oldFilename.length + newFilename.length +
    printedLen hops (slotEntries this hops (some upIface)) : ℤ) ≤ 49 + 32 * this.node.nNeighbours
  onDownInterfaces : listLen hops (downEntries this downIfaces hops) < 1024
  incoming : ((ownLen this + if downEntries this downIfaces hops = [] then 0
    else listLen hops (downEntries this downIfaces hops) + 5 : ℕ) : ℤ) ≤
      322 + 32 * this.node.nNeighbours

theorem generateReplayCommand_fits (h : Generates this downIfaces upIface) (dumperCurrN : ℕ)
    (hops : HopTable) (size : ℤ) :
    (Ensures (generateReplayCommand this dumperCurrN upIface hops) fun s => FitsIn s size) ↔
      ((getDumperFilename dumperCurrN).length + upIface.length +
        printedLen hops (slotEntries this hops (some upIface)) : ℤ) + 52 ≤ size := by
  have h1 : "tcpdump -U -r '".toList.length = 15 := by decide
  have h2 : "' -w- '".toList.length = 7 := by decide
  have h3 : "' | tcpreplay --topspeed -i".toList.length = 27 := by decide
  have h4 : " -".toList.length = 2 := by decide
  rw [generateReplayCommand, generateAddressesOnInterface_ok h, ok_bind]
  refine Ensures.ok_iff.trans ?_
  simp only [FitsIn, List.length_append, h1, h2, h3, h4, length_printed, String.length_toList]
  omega

theorem generateFilterCommand_fits (h : Generates this downIfaces upIface)
    (oldFilename newFilename : List Char) (hops : HopTable) (size : ℤ) :
    (Ensures (generateFilterCommand this upIface oldFilename newFilename hops) fun s =>
      FitsIn s size) ↔
        (oldFilename.length + newFilename.length +
          printedLen hops (slotEntries this hops (some upIface)) : ℤ) + 31 ≤ size := by
  have h1 : "tcpdump -r '".toList.length = 12 := by decide
  have h2 : "' -w '".toList.length = 6 := by decide
  have h3 : "' '( not ".toList.length = 9 := by decide
  have h4 : " )'".toList.length = 3 := by decide
  rw [generateFilterCommand, generateAddressesOnInterface_ok h, ok_bind]
  refine Ensures.ok_iff.trans ?_
  simp only [FitsIn, List.length_append, h1, h2, h3, h4, length_printed]
  omega

/-- The generated strings fit into their buffers exactly if the addresses in them are short enough. -/
theorem commandsFit_iff (h : Generates this downIfaces upIface) (dumperCurrN : ℕ)
    (oldFilename newFilename : List Char) (hops : HopTable) :
    CommandsFit this downIfaces upIface dumperCurrN oldFilename newFilename hops ↔
      ShortEnough this downIfaces upIface dumperCurrN oldFilename newFilename hops := by
  have hnum : ((maxNodeNum : ℕ) : ℤ) = 12 := rfl
  have hreplay := generateReplayCommand_fits h dumperCurrN hops
  have hfilter := generateFilterCommand_fits h oldFilename newFilename hops
  have hincoming : ∀ size : ℤ, (Ensures (generateIncomingFilterExp this downIfaces hops) fun s =>
      FitsIn s size) ↔ FitsIn (text (incomingFilter this downIfaces hops)) size := by
    intro size
    rw [generateIncomingFilterExp_ok h.slots h.pos, Ensures.ok_iff]
  have hdown : (Ensures (generateAddressesOnDownInterfaces this downIfaces hops) fun l =>
      ∀ s ∈ l, FitsIn s 1024) ↔ (listLen hops (downEntries this downIfaces hops) : ℤ) + 1 ≤ 1024 := by
    rw [generateAddressesOnDownInterfaces_ok h.slots, Ensures.ok_iff, entriesText_fits _ _ (by decide)]
  have hup : Ensures (generateAddressesOnInterface this upIface hops) fun l =>
      ∀ s ∈ l, FitsIn s 1024 := by
    have hle := listLen_le hops (slotEntries_nodup this hops (some upIface))
    rw [generateAddressesOnInterface_ok h, Ensures.ok_iff, entriesText_fits _ _ (by decide)]
    omega
  constructor
  · rintro ⟨h1, h2, h3, -, h5⟩
    rw [hreplay] at h1
    rw [hfilter] at h2
    rw [hincoming, FitsIn, length_incoming h.pos] at h3
    rw [hdown] at h5
    exact ⟨by omega, by omega, by omega, by omega⟩
  · rintro ⟨h1, h2, h3, h4⟩
    refine ⟨(hreplay _).mpr ?_, (hfilter _).mpr ?_, (hincoming _).mpr ?_, hup, hdown.mpr ?_⟩
    · omega
    · omega
    · rw [FitsIn, length_incoming h.pos]
      omega
    · omega

/-! ### The filter -/

/-- The neighbours are distinct, and no interface is down twice. -/
structure Distinct (this : LocalNode M) (downIfaces : List (Option String)) : Prop where
  ids : ∀ i j : Fin maxNodeFan, ((i : ℕ) : ℤ) < this.node.nNeighbours →
    ((j : ℕ) : ℤ) < this.node.nNeighbours → this.node.neighbourIds i = this.node.neighbourIds j → i = j
  slots : downIfaces.reduceOption.Nodup

/-- Empty slots have no entries. -/
theorem downEntries_eq (downIfaces : List (Option String)) : downEntries this downIfaces hops =
    downIfaces.reduceOption.flatMap fun iface => slotEntries this hops (some iface) := by
  rw [downEntries]
  induction downIfaces with
  | nil => rfl
  | cons slot downIfaces ih =>
    rw [List.flatMap_cons, ih]
    cases slot with
    | none => rw [List.reduceOption_cons_of_none]; rfl
    | some iface => rw [List.reduceOption_cons_of_some, List.flatMap_cons]

/-- No entry is routed over two down interfaces. -/
theorem downEntries_nodup (h : Distinct this downIfaces) (hops : HopTable) :
    (downEntries this downIfaces hops).Nodup := by
  rw [downEntries_eq, List.nodup_flatMap]
  refine ⟨fun iface _ => slotEntries_nodup this hops (some iface), h.slots.imp fun {a b} hab => ?_⟩
  -- an entry over both leads to one neighbour, which is on one link
  intro k hka hkb
  obtain ⟨i, hi, hhop⟩ := mem_slotEntries.mp hka
  obtain ⟨j, hj, hhop'⟩ := mem_slotEntries.mp hkb
  obtain ⟨hin, hia⟩ := linkOfIface_some hi
  obtain ⟨hjn, hjb⟩ := linkOfIface_some hj
  obtain rfl := h.ids i j hin hjn (hhop.symm.trans hhop')
  exact hab (hia.symm.trans hjb)

theorem ownLen_le (this : LocalNode M) : ownLen this ≤ 19 * this.node.nNeighbours.toNat := by
  have hsum := List.sum_le_card_nsmul ((links this).map fun j => addrLen (this.node.sourceIps j)) 19 ?_
  · have hlen : (links this).length ≤ this.node.nNeighbours.toNat := List.length_take_le _ _
    rw [List.length_map, Nat.nsmul_eq_mul] at hsum
    rw [ownLen]
    omega
  · intro len hlen
    obtain ⟨j, -, rfl⟩ := List.mem_map.mp hlen
    have ha := byteLen_le (quadOf (this.node.sourceIps j)).a
    have hb := byteLen_le (quadOf (this.node.sourceIps j)).b
    have hc := byteLen_le (quadOf (this.node.sourceIps j)).c
    have hd := byteLen_le (quadOf (this.node.sourceIps j)).d
    rw [addrLen]
    omega

/-- The filter always fits: only the commands can be too long. -/
theorem shortEnough_iff (h : Generates this downIfaces upIface) (hd : Distinct this downIfaces)
    {dumperCurrN : ℕ} {oldFilename newFilename : List Char} :
    ShortEnough this downIfaces upIface dumperCurrN oldFilename newFilename hops ↔
      ((getDumperFilename dumperCurrN).length + upIface.length +
        printedLen hops (slotEntries this hops (some upIface)) : ℤ) ≤ 28 + 32 * this.node.nNeighbours ∧
      (oldFilename.length + newFilename.length +
        printedLen hops (slotEntries this hops (some upIface)) : ℤ) ≤
          49 + 32 * this.node.nNeighbours := by
  have hlist := listLen_le hops (downEntries_nodup hd hops)
  have hown := ownLen_le this
  have hpos := h.pos
  constructor
  · rintro ⟨h1, h2, -, -⟩
    exact ⟨h1, h2⟩
  · rintro ⟨h1, h2⟩
    refine ⟨h1, h2, by omega, ?_⟩
    split
    · omega
    · omega

end Lengths

/-! ### One link up -/

/-- The first `n` entries are for routers behind the neighbour on the link. -/
def viaFirst (n : ℕ) : HopTable := fun k =>
  if (k : ℕ) < n then { hopZero with nextHop := 2, destIp := inetAddr 10 0 k 2 } else hopZero

example : generateReplayCommand oneLink 0 "eth0" (viaFirst 2) =
    .ok ("tcpdump -U -r 'dump_0.pcap' -w- '( dst net 10.0.0.0/24 or 10.0.1.0/24 )' " ++
      "| tcpreplay --topspeed -ieth0 -").toList := by
  rfl

theorem oneLink_generates : Generates oneLink [none] "eth0" where
  pos := by decide
  slots := ⟨by decide, rfl, by simp⟩
  up := ⟨0, by decide, rfl⟩

theorem oneLink_distinct : Distinct oneLink [none] where
  ids i j hi hj _ := Fin.ext (by simp only [oneLink] at hi hj; omega)
  slots := List.nodup_nil

/-- The replay for one router fits. -/
theorem commandsFit_one : CommandsFit oneLink [none] "eth0" 0 (getDumperFilename 0)
    (getDumperFilename 1) (viaFirst 1) := by
  refine (commandsFit_iff oneLink_generates 0 _ _ _).mpr ⟨?_, ?_, ?_, ?_⟩
  · decide
  · decide
  · decide
  · decide

/-- With three routers behind one link the command to replay their packets is too long. -/
theorem replay_overflows : ¬∀ (this : LocalNode ℚ) (downIfaces : List (Option String)) (upIface : String)
    (dumperCurrN : ℕ) (oldFilename newFilename : List Char) (hops : HopTable),
      Generates this downIfaces upIface → Distinct this downIfaces →
        (∀ j : Fin maxNodeFan, (this.interfaces j).length ≤ 5) →
          (getDumperFilename dumperCurrN).length ≤ 15 → oldFilename.length ≤ 15 →
            newFilename.length ≤ 15 →
              CommandsFit this downIfaces upIface dumperCurrN oldFilename newFilename hops := by
  intro h
  have hfit := h oneLink [none] "eth0" 0 (getDumperFilename 0) (getDumperFilename 1) (viaFirst 3)
    oneLink_generates oneLink_distinct (fun _ => show "eth0".length ≤ 5 by decide) (by decide)
    (by decide) (by decide)
  have hlong := (generateReplayCommand_fits oneLink_generates 0 (viaFirst 3) _).mp hfit.replay
  exact absurd hlong (by decide)

end FilterText

end Dtlsr
