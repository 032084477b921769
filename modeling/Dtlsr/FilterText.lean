import Dtlsr.Buffer
import Dtlsr.Lib.PcapFilter
import Dtlsr.Lib.Relate

/-!
    The texts of the filter expressions, as `network/capture.c` puts them together with `strcat`, and
    what libpcap reads in them. The texts are those that the filters of `Capture` print
    (`generateIncomingFilterExp_text`), and what is printed is read back with the same meaning
    (`compile_text`). A text is the characters before the terminator of a C string; whether it fits into
    its buffer is left to `Commands`. -/

namespace Dtlsr
open Checked

namespace FilterText

/-! ### Addresses -/

/-- The bytes of an address, in the order in which they are written. -/
def quadOf (a : Ip) : Pcap.Quad :=
  { a := a.toNat % 256, b := a.toNat / 2 ^ 8 % 256, c := a.toNat / 2 ^ 16 % 256,
    d := a.toNat / 2 ^ 24 % 256 }

def inetNtoa (a : Ip) : List Char := (quadOf a).text

/-- What a filter looks at in the packet. -/
def headers (p : Packet) : Pcap.Headers :=
  { dst := (quadOf p.dst).value, srcPort := p.srcPort, dstPort := p.dstPort }

/-! ### The code -/

section Code
variable {M : Type}

def generateExcludeIncoming (this : LocalNode M) : Exec (List Char) :=
  -- the memset clears 32 bytes for each neighbour, and strcat starts from what the buffer holds
  if this.node.nNeighbours ≤ 0 then .error .uninit
  else do
    let fexp ← forUpto this.node.nNeighbours "( not ( dst net ".toList fun i fexp => do
      let fexp := fexp ++ inetNtoa (← read this.node.sourceIps i)
      pure (if (i : ℤ) ≠ this.node.nNeighbours - 1 then fexp ++ " or ".toList else fexp)
    pure (fexp ++ " ) )".toList)

/-- A list of addresses on its way. -/
structure AddrList where
  fexp : List Char
  first : Bool
  noAddresses : Bool

def AddrList.start : AddrList := { fexp := "( dst net ".toList, first := true, noAddresses := true }

/-- Hacky way to insert 'or' between IP addresses. -/
def AddrList.add (s : AddrList) (destIp : Ip) : AddrList :=
  let fexp := if s.first then s.fexp else s.fexp ++ " or ".toList
  { fexp := fexp ++ inetNtoa (destIp &&& netmask) ++ "/24".toList, first := false, noAddresses := false }

/-- The loop over `next_hops`: add if the next hop is along the correct interface. -/
def AddrList.addVia (s : AddrList) (nextHops : HopTable) (id : ℤ) : AddrList :=
  (List.finRange maxNodeNum).foldl
    (fun s k => if (nextHops k).nextHop = id then s.add (nextHops k).destIp else s) s

/-- `NULL` when there are no addresses. -/
def AddrList.finish (s : AddrList) : Option (List Char) :=
  let fexp := s.fexp ++ " )".toList
  if s.noAddresses then none else some fexp

def generateAddressesOnInterface (this : LocalNode M) (iface : String) (nextHops : HopTable) :
    Exec (Option (List Char)) := do
  let upIdx ← ifaceIdx this iface
  let id ← read this.node.neighbourIds upIdx
  pure (AddrList.start.addVia nextHops id).finish

def generateAddressesOnDownInterfaces (this : LocalNode M) (downIfaces : List (Option String))
    (nextHops : HopTable) : Exec (Option (List Char)) := do
  let s ← forUpto this.node.nNeighbours AddrList.start fun i s => do
    match ← cell downIfaces i with
    | none => pure s
    | some iface => do
      let j ← ifaceIdx this iface
      let id ← read this.node.neighbourIds j
      pure (s.addVia nextHops id)
  pure s.finish

def generateIncomingFilterExp (this : LocalNode M) (downIfaces : List (Option String))
    (nextHops : HopTable) : Exec (List Char) := do
  let incoming ← generateExcludeIncoming this
  let outgoing ← generateAddressesOnDownInterfaces this downIfaces nextHops
  let incoming := match outgoing with
    | some outgoing => incoming ++ " and ".toList ++ outgoing
    | none => incoming
  -- filter out DTLSR traffic (heartbeats and LSAs)
  pure (incoming ++ " and ( not ( port 45000 or 45001 or 45002 ) )".toList)

end Code

/-! ### Printing -/

/-- Texts with ` or ` between them. -/
def joinOr (ws : List (List Char)) : List Char := " or ".toList.intercalate ws

def netText (net : Net) : List Char := inetNtoa net.addr ++ if net.slash24 then "/24".toList else []

/-- A filter as it is written. -/
def text : Filter → List Char
  | .dstNet nets => "( dst net ".toList ++ joinOr (nets.map netText) ++ " )".toList
  | .port ports => "( port ".toList ++ joinOr (ports.map (Nat.toDigits 10)) ++ " )".toList
  | .not f => "( not ".toList ++ text f ++ " )".toList
  | .and f g => text f ++ " and ".toList ++ text g

theorem text_dstNet (nets : List Net) :
    text (.dstNet nets) = "( dst net ".toList ++ joinOr (nets.map netText) ++ " )".toList := rfl

theorem text_port (ports : List ℕ) :
    text (.port ports) = "( port ".toList ++ joinOr (ports.map (Nat.toDigits 10)) ++ " )".toList := rfl

theorem text_not (f : Filter) : text (.not f) = "( not ".toList ++ text f ++ " )".toList := rfl

theorem text_and (f g : Filter) : text (.and f g) = text f ++ " and ".toList ++ text g := rfl

theorem joinOr_snoc {ws : List (List Char)} (h : ws ≠ []) (w : List Char) :
    joinOr (ws ++ [w]) = joinOr ws ++ " or ".toList ++ w := by
  induction ws with
  | nil => exact absurd rfl h
  | cons u ws ih =>
    rcases List.eq_nil_or_concat ws with rfl | ⟨ws', v, rfl⟩
    · simp [joinOr, List.intercalate_cons_cons]
    · have hne : (ws'.concat v) ≠ [] := by simp
      have hne' : ws'.concat v ++ [w] ≠ [] := by simp
      rw [List.cons_append, joinOr, List.intercalate_cons_of_ne_nil hne', ← joinOr, ih hne, joinOr,
        joinOr, List.intercalate_cons_of_ne_nil hne]
      simp

section Printing
variable {M : Type} {this : LocalNode M} {hops : HopTable}

/-- The list holds the networks `nets` so far. -/
structure AddrList.Has (s : AddrList) (nets : List Net) : Prop where
  fexp : s.fexp = "( dst net ".toList ++ joinOr (nets.map netText)
  first : s.first = decide (nets = [])
  noAddresses : s.noAddresses = decide (nets = [])

theorem AddrList.has_start : AddrList.start.Has [] := ⟨rfl, rfl, rfl⟩

theorem AddrList.Has.add {s : AddrList} {nets : List Net} (h : s.Has nets) (a : Ip) :
    (s.add a).Has (nets ++ [{ addr := a &&& netmask, slash24 := true }]) := by
  refine ⟨?_, by simp [AddrList.add], by simp [AddrList.add]⟩
  rw [List.map_append, List.map_singleton]
  by_cases hnil : nets = []
  · subst hnil
    simp [AddrList.add, h.first, h.fexp, netText, joinOr]
  · rw [joinOr_snoc (by simpa using hnil)]
    simp [AddrList.add, h.first, h.fexp, hnil, netText]

theorem AddrList.Has.addVia {s : AddrList} {nets : List Net} (h : s.Has nets) (hops : HopTable)
    (id : ℤ) : (s.addVia hops id).Has (nets ++ netsVia hops id) := by
  unfold AddrList.addVia netsVia
  generalize List.finRange maxNodeNum = ks
  induction ks generalizing s nets with
  | nil => simpa using h
  | cons k ks ih =>
    rw [List.foldl_cons]
    by_cases hk : (hops k).nextHop = id
    · have := ih (h.add (hops k).destIp)
      simpa [hk] using this
    · simpa [hk] using ih h

theorem AddrList.Has.finish {s : AddrList} {nets : List Net} (h : s.Has nets) :
    s.finish = (dstNets nets).map text := by
  cases nets with
  | nil => rw [AddrList.finish, if_pos (by simp [h.noAddresses])]; rfl
  | cons net nets =>
    rw [AddrList.finish, if_neg (by simp [h.noAddresses]), h.fexp]
    rfl

theorem generateAddressesOnInterface_text (this : LocalNode M) (iface : String) (hops : HopTable) :
    Relates (fun s f => s = Option.map text f) (generateAddressesOnInterface this iface hops)
      (Dtlsr.generateAddressesOnInterface this iface hops) := by
  refine Relates.bind_same fun upIdx => Relates.bind_same fun id => ?_
  exact (AddrList.has_start.addVia hops id).finish

theorem generateAddressesOnDownInterfaces_text (this : LocalNode M)
    (downIfaces : List (Option String)) (hops : HopTable) :
    Relates (fun s f => s = Option.map text f) (generateAddressesOnDownInterfaces this downIfaces hops)
      (Dtlsr.generateAddressesOnDownInterfaces this downIfaces hops) := by
  refine (forUpto_relates AddrList.has_start fun i _ s nets h => ?_).bind fun s nets h => h.finish
  refine Relates.bind_same fun slot => ?_
  cases slot with
  | none => exact h
  | some iface => exact Relates.bind_same fun j => Relates.bind_same fun id => h.addVia hops id

/-- All but the last text, each with ` or ` after it, and the last one. -/
theorem joinOr_snoc_flatMap (ws : List (List Char)) (w : List Char) :
    joinOr (ws ++ [w]) = (ws.flatMap fun w => w ++ " or ".toList) ++ w := by
  induction ws using List.reverseRecOn generalizing w with
  | nil => simp [joinOr]
  | append_singleton ws v ih => rw [joinOr_snoc (by simp), ih, List.flatMap_append]; simp

theorem generateExcludeIncoming_text (hn : 0 < this.node.nNeighbours) :
    Relates (fun s f => s = text f) (generateExcludeIncoming this)
      (Dtlsr.generateExcludeIncoming this) := by
  rw [generateExcludeIncoming, if_neg (by omega)]
  -- the addresses so far, the last of all without an ` or ` after it
  refine (forUpto_relates_at (I := fun i s nets => s = "( not ( dst net ".toList ++
    if (i : ℤ) = this.node.nNeighbours then joinOr (nets.map netText)
    else (nets.map netText).flatMap fun w => w ++ " or ".toList) ?_ ?_).bind ?_
  · rw [if_neg (by omega)]
    rfl
  · rintro i hi s nets rfl
    refine Relates.bind_same fun ip => Relates.of_pure ?_
    rw [if_neg hi.ne, List.map_append, List.map_singleton]
    by_cases hlast : (i : ℤ) = this.node.nNeighbours - 1
    · rw [if_neg (not_not.mpr hlast), if_pos (by omega), joinOr_snoc_flatMap]
      simp [netText]
    · rw [if_pos hlast, if_neg (by omega), List.flatMap_append]
      simp [netText]
  · intro s nets hs
    rw [if_pos (by omega)] at hs
    refine Relates.of_pure ?_
    have hopen : "( not ( dst net ".toList = "( not ".toList ++ "( dst net ".toList := by decide
    have hclose : " ) )".toList = " )".toList ++ " )".toList := by decide
    rw [hs, text_not, text_dstNet, hopen, hclose]
    simp only [List.append_assoc]

/-- The code writes the filter that the model of the capture sets. -/
theorem generateIncomingFilterExp_text (hn : 0 < this.node.nNeighbours)
    (downIfaces : List (Option String)) (hops : HopTable) :
    Relates (fun s f => s = text f) (generateIncomingFilterExp this downIfaces hops)
      (Dtlsr.generateIncomingFilterExp this downIfaces hops) := by
  refine (generateExcludeIncoming_text hn).bind fun s incoming hs => ?_
  refine (generateAddressesOnDownInterfaces_text this downIfaces hops).bind fun s' outgoing hs' => ?_
  subst hs hs'
  refine Relates.of_pure ?_
  have hports : " and ( not ( port 45000 or 45001 or 45002 ) )".toList =
      " and ".toList ++ text (.not (.port [45000, 45001, 45002])) := by decide
  cases outgoing with
  | none => rw [hports, ← List.append_assoc]; rfl
  | some f => rw [hports, ← List.append_assoc]; rfl

end Printing

/-! ### Reading -/

/-- The words of an address or a network. -/
def netTok (net : Net) : Pcap.Tok :=
  if net.slash24 then .cidr (quadOf net.addr) 24 else .addr (quadOf net.addr)

/-- What they are read as. -/
def netExpr (net : Net) : Pcap.Expr :=
  .dstNet (quadOf net.addr).value (if net.slash24 then 24 else 32)

/-- A network has no bits set outside of its /24. -/
def NetOk (net : Net) : Prop := net.slash24 = true → net.addr &&& netmask = net.addr

/-- The words of a list of ids. -/
def idToks {α : Type} (k : Pcap.Qual) (tok : α → Pcap.Tok) : List α → List Pcap.Tok
  | [] => k.toks
  | a :: l => k.list (tok a) (l.map tok)

/-- The words of a filter. -/
def toks : Filter → List Pcap.Tok
  | .dstNet nets => .lpar :: (idToks .dstNet netTok nets ++ [.rpar])
  | .port ports => .lpar :: (idToks .port .num ports ++ [.rpar])
  | .not f => .lpar :: .not :: (toks f ++ [.rpar])
  | .and f g => toks f ++ .and :: toks g

/-- The filter is printed in parentheses. -/
def Closed : Filter → Prop
  | .and _ _ => False
  | _ => True

/-- The filters that are read as they are printed: no list is empty, what is listed is a network or a
    port, and what stands after `not` or `and` is in parentheses. -/
def Printable : Filter → Prop
  | .dstNet nets => nets ≠ [] ∧ ∀ net ∈ nets, NetOk net
  | .port ports => ports ≠ [] ∧ ∀ port ∈ ports, port < 2 ^ 16
  | .not f => Printable f ∧ Closed f
  | .and f g => Printable f ∧ Printable g ∧ Closed g

theorem quadOf_ok (a : Ip) : (quadOf a).Ok := by
  refine ⟨?_, ?_, ?_, ?_⟩ <;> exact Nat.mod_lt _ (by decide)

/-- An address is the number of its bytes, the first of them the least significant. -/
theorem toNat_eq_bytes (a : Ip) : a.toNat = (quadOf a).a + (quadOf a).b * 2 ^ 8 +
    (quadOf a).c * 2 ^ 16 + (quadOf a).d * 2 ^ 24 := by
  have hlt := a.toNat_lt
  have h16 : a.toNat / 2 ^ 16 = a.toNat / 2 ^ 8 / 2 ^ 8 := by
    norm_num [Nat.div_div_eq_div_mul]
  have h24 : a.toNat / 2 ^ 24 = a.toNat / 2 ^ 8 / 2 ^ 8 / 2 ^ 8 := by
    norm_num [Nat.div_div_eq_div_mul]
  simp only [quadOf, h16, h24]
  omega

/-- Two addresses are the same if all of their bytes are. -/
theorem quadOf_value_inj {a b : Ip} : (quadOf a).value = (quadOf b).value ↔ a = b := by
  rw [← UInt32.toNat_inj, toNat_eq_bytes a, toNat_eq_bytes b]
  obtain ⟨ha1, ha2, ha3, ha4⟩ := quadOf_ok a
  obtain ⟨hb1, hb2, hb3, hb4⟩ := quadOf_ok b
  unfold Pcap.Quad.value
  omega

theorem and_netmask_toNat (a : Ip) : (a &&& netmask).toNat =
    (quadOf a).a + (quadOf a).b * 2 ^ 8 + (quadOf a).c * 2 ^ 16 := by
  have hmask : netmask.toNat = 2 ^ 24 - 1 := by decide
  obtain ⟨ha1, ha2, ha3, ha4⟩ := quadOf_ok a
  rw [UInt32.toNat_and, hmask, Nat.and_two_pow_sub_one_eq_mod, toNat_eq_bytes a]
  omega

/-- Two addresses are in one /24 if their first three bytes are the same. -/
theorem quadOf_value_div {a b : Ip} :
    (quadOf a).value / 2 ^ 8 = (quadOf b).value / 2 ^ 8 ↔ a &&& netmask = b &&& netmask := by
  have hdiv : ∀ q : Pcap.Quad, q.Ok → q.value / 2 ^ 8 = q.a * 2 ^ 16 + q.b * 2 ^ 8 + q.c := by
    rintro q ⟨h1, h2, h3, h4⟩
    unfold Pcap.Quad.value
    omega
  obtain ⟨ha1, ha2, ha3, ha4⟩ := quadOf_ok a
  obtain ⟨hb1, hb2, hb3, hb4⟩ := quadOf_ok b
  rw [← UInt32.toNat_inj, and_netmask_toNat, and_netmask_toNat, hdiv _ (quadOf_ok a),
    hdiv _ (quadOf_ok b)]
  omega

theorem quadOf_masked {a : Ip} (h : a &&& netmask = a) : (quadOf a).value % 2 ^ 8 = 0 := by
  have heq := congrArg UInt32.toNat h
  rw [and_netmask_toNat, toNat_eq_bytes a] at heq
  unfold Pcap.Quad.value
  omega

theorem netExpr_holds (net : Net) (p : Packet) : (netExpr net).holds (headers p) = net.holds p.dst := by
  unfold netExpr Net.holds headers
  cases net.slash24 with
  | true =>
    have := quadOf_value_div (a := p.dst) (b := net.addr)
    simpa [Pcap.Expr.holds] using this
  | false => simp [Pcap.Expr.holds, quadOf_value_inj]

theorem idExpr_net {net : Net} (h : NetOk net) :
    Pcap.idExpr .dstNet (netTok net) = some (netExpr net) := by
  unfold netTok netExpr
  cases hs : net.slash24 with
  | true =>
    have := quadOf_masked (h hs)
    simpa [Pcap.idExpr] using this
  | false => simp [Pcap.idExpr]

theorem netTok_ok (net : Net) : (netTok net).Ok := by
  unfold netTok
  split <;> exact quadOf_ok _

theorem netTok_text (net : Net) : (netTok net).text = netText net := by
  unfold netTok netText inetNtoa
  split
  · have hlen : Nat.toDigits 10 24 = "24".toList := by decide
    simp [Pcap.Tok.text, List.intercalate_cons_cons, hlen]
  · simp [Pcap.Tok.text]

theorem toks_ne_nil (f : Filter) : toks f ≠ [] := by
  cases f <;> simp [toks]

theorem idToks_ne_nil {α : Type} (k : Pcap.Qual) (tok : α → Pcap.Tok) (l : List α) :
    idToks k tok l ≠ [] := by
  cases k <;> cases l <;> simp [idToks, Pcap.Qual.list, Pcap.Qual.toks]

theorem idToks_ok {α : Type} (k : Pcap.Qual) {tok : α → Pcap.Tok} (htok : ∀ a, (tok a).Ok)
    (l : List α) : ∀ t ∈ idToks k tok l, t.Ok := by
  have hqual : ∀ t ∈ k.toks, t.Ok := by
    cases k <;> simp [Pcap.Qual.toks, Pcap.Tok.Ok]
  intro t ht
  cases l with
  | nil => exact hqual t ht
  | cons a l =>
    simp only [idToks, Pcap.Qual.list, Pcap.orIds, List.mem_append, List.mem_cons, List.mem_flatMap,
      List.mem_map, List.not_mem_nil, or_false] at ht
    rcases ht with ht | rfl | ⟨_, ⟨b, -, rfl⟩, rfl | rfl⟩
    · exact hqual t ht
    · exact htok a
    · trivial
    · exact htok b

theorem parens_ok {ts : List Pcap.Tok} (h : ∀ t ∈ ts, t.Ok) :
    ∀ t ∈ Pcap.Tok.lpar :: (ts ++ [.rpar]), t.Ok := by
  intro t ht
  simp only [List.mem_cons, List.mem_append, List.not_mem_nil, or_false] at ht
  rcases ht with rfl | ht | rfl
  · trivial
  · exact h t ht
  · trivial

theorem toks_ok (f : Filter) : ∀ t ∈ toks f, t.Ok := by
  induction f with
  | dstNet nets => exact parens_ok (idToks_ok .dstNet netTok_ok nets)
  | port ports => exact parens_ok (idToks_ok .port (fun n => show (Pcap.Tok.num n).Ok from trivial) ports)
  | not f ih =>
    have hnot : ∀ t ∈ Pcap.Tok.not :: toks f, t.Ok := by
      rintro t (_ | ⟨_, ht⟩)
      · trivial
      · exact ih t ht
    exact parens_ok hnot
  | and f g ihf ihg =>
    intro t ht
    simp only [toks, List.mem_cons, List.mem_append] at ht
    rcases ht with ht | rfl | ht
    · exact ihf t ht
    · trivial
    · exact ihg t ht

/-- A list of ids is printed as its words. -/
theorem render_idToks {α : Type} {k : Pcap.Qual} {tok : α → Pcap.Tok} {l : List α} (hl : l ≠ []) :
    Pcap.render (.lpar :: (idToks k tok l ++ [.rpar])) =
      "( ".toList ++ Pcap.render k.toks ++ " ".toList ++
        joinOr (l.map fun a => (tok a).text) ++ " )".toList := by
  obtain ⟨a, l, rfl⟩ := List.exists_cons_of_ne_nil hl
  have hq : k.toks ≠ [] := by cases k <;> simp [Pcap.Qual.toks]
  rw [Pcap.render_cons (by simp), Pcap.render_append (idToks_ne_nil _ _ _) (by simp), idToks,
    Pcap.Qual.list, Pcap.render_append hq (by simp), Pcap.render_orIds]
  have hopen : "( ".toList = Pcap.Tok.lpar.text ++ [' '] := by decide
  have hclose : " )".toList = ' ' :: Pcap.render [.rpar] := by decide
  have hblank : " ".toList = [' '] := by decide
  simp only [hopen, hclose, hblank, joinOr, List.map_cons, List.map_map, Function.comp_def,
    List.append_assoc, List.cons_append, List.nil_append]

/-- A printable filter is printed as its words. -/
theorem text_eq_render (f : Filter) (hf : Printable f) : text f = Pcap.render (toks f) := by
  induction f with
  | dstNet nets =>
    rw [text_dstNet, toks, render_idToks hf.1]
    have hopen : "( dst net ".toList =
        "( ".toList ++ Pcap.render Pcap.Qual.dstNet.toks ++ " ".toList := by decide
    simp only [hopen, netTok_text]
  | port ports =>
    rw [text_port, toks, render_idToks hf.1]
    have hopen : "( port ".toList = "( ".toList ++ Pcap.render Pcap.Qual.port.toks ++ " ".toList := by
      decide
    simp only [hopen, Pcap.Tok.text]
  | not f ih =>
    rw [text_not, ih hf.1, toks, Pcap.render_cons (by simp), Pcap.render_cons (by simp),
      Pcap.render_append (toks_ne_nil f) (by simp)]
    have hopen : "( not ".toList = Pcap.Tok.lpar.text ++ ' ' :: (Pcap.Tok.not.text ++ " ".toList) := by
      decide
    simp [hopen, Pcap.render, Pcap.Tok.text]
  | and f g ihf ihg =>
    rw [text_and, ihf hf.1, ihg hf.2.1, toks, Pcap.render_append (toks_ne_nil f) (by simp),
      Pcap.render_cons (toks_ne_nil g)]
    have hand : " and ".toList = ' ' :: (Pcap.Tok.and.text ++ " ".toList) := by decide
    simp [hand, Pcap.Tok.text]

theorem length_le_idToks {α : Type} (k : Pcap.Qual) (tok : α → Pcap.Tok) (l : List α) :
    l.length ≤ (idToks k tok l).length := by
  have hor : ∀ ids : List Pcap.Tok, ids.length ≤ (Pcap.orIds ids).length := by
    intro ids
    induction ids with
    | nil => simp
    | cons id ids ih => simpa [Pcap.orIds] using Nat.le_succ_of_le ih
  cases l with
  | nil => simp
  | cons a l =>
    have := hor (l.map tok)
    simp only [idToks, Pcap.Qual.list, List.length_append, List.length_cons]
    rw [List.length_map] at this
    omega

/-- What is read has the meaning of the filter. -/
def Means (e : Pcap.Expr) (f : Filter) : Prop := ∀ p, e.holds (headers p) = f.holds p

/-- A list of ids in parentheses is read as the alternative of what they are read as. -/
theorem operand_idToks {α : Type} {k : Pcap.Qual} {tok : α → Pcap.Tok} {ex : α → Pcap.Expr}
    {l : List α} (hl : l ≠ []) (hex : ∀ a ∈ l, Pcap.idExpr k (tok a) = some (ex a)) {fuel : ℕ}
    (hfuel : l.length < fuel) (q : Option Pcap.Qual) (rest : List Pcap.Tok) :
    ∃ e, Pcap.operand (Pcap.expr fuel) q (.lpar :: (idToks k tok l ++ .rpar :: rest)) =
      some (e, some k, rest) ∧ ∀ h, e.holds h = l.any fun a => (ex a).holds h := by
  obtain ⟨a, l, rfl⟩ := List.exists_cons_of_ne_nil hl
  obtain ⟨fuel, rfl⟩ := Nat.exists_eq_succ_of_ne_zero (show fuel ≠ 0 by omega)
  have hids : List.Forall₂ (fun id f => Pcap.idExpr k id = some f) (l.map tok) (l.map ex) := by
    rw [List.forall₂_map_left_iff, List.forall₂_map_right_iff, List.forall₂_same]
    exact fun b hb => hex b (List.mem_cons_of_mem a hb)
  refine ⟨Pcap.anyOf (ex a) (l.map ex), Pcap.operand_group (Pcap.expr_ids Pcap.stops_rpar
    (hex a List.mem_cons_self) hids ?_), fun h => ?_⟩
  · rw [List.length_map]
    rw [List.length_cons] at hfuel
    omega
  · rw [Pcap.anyOf_holds, ← List.map_cons, List.any_map]
    rfl

/-- A filter in parentheses is read as one operand. -/
theorem operand_toks (f : Filter) (hf : Printable f) (hc : Closed f) : ∀ fuel,
    (toks f).length ≤ fuel → ∀ q rest, ∃ e q',
      Pcap.operand (Pcap.expr fuel) q (toks f ++ rest) = some (e, q', rest) ∧ Means e f := by
  induction f with
  | dstNet nets =>
    intro fuel hfuel q rest
    have hlen := length_le_idToks .dstNet netTok nets
    simp only [toks, List.length_cons, List.length_append] at hfuel
    obtain ⟨e, he, hmeans⟩ := operand_idToks hf.1 (fun net hnet => idExpr_net (hf.2 net hnet))
      (show nets.length < fuel by omega) q rest
    refine ⟨e, _, by rw [toks, List.cons_append, List.append_assoc]; exact he, fun p => ?_⟩
    rw [hmeans]
    simp only [netExpr_holds]
    rfl
  | port ports =>
    intro fuel hfuel q rest
    have hlen := length_le_idToks .port Pcap.Tok.num ports
    simp only [toks, List.length_cons, List.length_append] at hfuel
    have hids : ∀ port ∈ ports, Pcap.idExpr .port (.num port) = some (.port port) :=
      fun port hport => if_pos (hf.2 port hport)
    obtain ⟨e, he, hmeans⟩ := operand_idToks hf.1 hids (show ports.length < fuel by omega) q rest
    exact ⟨e, _, by rw [toks, List.cons_append, List.append_assoc]; exact he, fun p => hmeans _⟩
  | not f ih =>
    intro fuel hfuel q rest
    simp only [toks, List.length_cons, List.length_append, List.length_nil] at hfuel
    obtain ⟨fuel, rfl⟩ := Nat.exists_eq_succ_of_ne_zero (show fuel ≠ 0 by omega)
    obtain ⟨e, q', he, hmeans⟩ := ih hf.1 hf.2 fuel (by omega) q (.rpar :: rest)
    refine ⟨.not e, q', ?_, fun p => ?_⟩
    · rw [toks, List.cons_append, List.cons_append, List.append_assoc]
      exact Pcap.operand_group (Pcap.expr_operand (Pcap.operand_not he) Pcap.stops_rpar)
    · rw [Pcap.Expr.holds, hmeans, Filter.holds]
  | and f g => exact hc.elim

/-- A filter is read up to what follows it. -/
theorem expr_toks (f : Filter) (hf : Printable f) : ∀ fuel, (toks f).length ≤ fuel → ∀ q rest,
    ∃ e q' left, Pcap.expr (fuel + 1) q (toks f ++ rest) = Pcap.more (Pcap.expr fuel) left e q' rest ∧
      fuel + 1 ≤ left + (toks f).length ∧ Means e f := by
  have hclosed : ∀ f, Printable f → Closed f → ∀ fuel, (toks f).length ≤ fuel → ∀ q rest,
      ∃ e q' left, Pcap.expr (fuel + 1) q (toks f ++ rest) =
        Pcap.more (Pcap.expr fuel) left e q' rest ∧ fuel + 1 ≤ left + (toks f).length ∧ Means e f := by
    intro f hf hc fuel hfuel q rest
    obtain ⟨e, q', he, hmeans⟩ := operand_toks f hf hc fuel hfuel q rest
    refine ⟨e, q', fuel + 1, ?_, by omega, hmeans⟩
    rw [Pcap.expr, he]
  induction f with
  | dstNet nets => exact hclosed _ hf trivial
  | port ports => exact hclosed _ hf trivial
  | not f => exact hclosed _ hf trivial
  | and f g ihf _ =>
    intro fuel hfuel q rest
    rw [toks, List.length_append, List.length_cons] at hfuel
    obtain ⟨e, q', left, he, hleft, hmeans⟩ :=
      ihf hf.1 fuel (by omega) q (.and :: (toks g ++ rest))
    obtain ⟨e', q'', he', hmeans'⟩ := operand_toks g hf.2.1 hf.2.2 fuel (by omega) q' rest
    obtain ⟨left, rfl⟩ := Nat.exists_eq_succ_of_ne_zero (show left ≠ 0 by omega)
    refine ⟨.and e e', q'', left, ?_, ?_, fun p => ?_⟩
    · rw [toks, List.append_assoc, List.cons_append, he]
      exact Pcap.more_and he'
    · rw [toks, List.length_append, List.length_cons]
      omega
    · rw [Pcap.Expr.holds, hmeans, hmeans', Filter.holds]

/-- libpcap reads a printable filter as what it means. -/
theorem compile_text {f : Filter} (hf : Printable f) :
    ∃ e, Pcap.compile (text f) = some e ∧ Means e f := by
  obtain ⟨e, q, left, he, hleft, hmeans⟩ := expr_toks f hf _ le_rfl none []
  obtain ⟨left, rfl⟩ := Nat.exists_eq_succ_of_ne_zero (show left ≠ 0 by omega)
  rw [List.append_nil, Pcap.more_stop Pcap.stops_nil] at he
  refine ⟨e, ?_, hmeans⟩
  rw [text_eq_render f hf, Pcap.compile, Pcap.lex_render (toks_ok f)]
  simp only [he]

end FilterText

end Dtlsr
