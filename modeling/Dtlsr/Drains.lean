import Dtlsr.Buffer
import Dtlsr.DownLinks

/-!
    The packets that wait in the queues of the capture handles, and what `dump_packet` makes of them. A
    queue is emptied at the top of the loop, and once more when a link comes up; but by then
    `register_heartbeat` has set the link to up, and `capture_end_iface` may have stopped the capturing,
    so what has arrived since the top of the loop is dropped. -/

namespace Dtlsr
open Checked

/-! ### Queues -/

section Queues
variable {M : Type}

/-- The IP packets with a header of at least 20 bytes that wait in the queue of handle `i`. -/
def waiting (c : Capture) (i : ℕ) : List Packet :=
  (c.capInfos[i]?).elim [] fun info => info.queue.filter fun p => 20 ≤ p.headerLen

/-- The packet passes the filter that is set on handle `i`. -/
def passesFilter (c : Capture) (i : ℕ) (p : Packet) : Bool :=
  (c.capInfos[i]?).elim false fun info => info.fp.elim true fun f => f.holds p

/-- What a handle hands to `dump_packet`, each packet with whether it is written. -/
def handed (capturing : Bool) (status : LinkState) (ps : List Packet) : List (Packet × Bool) :=
  ps.map fun p => (p, capturing && status = .linkDown)

def written (l : List (Packet × Bool)) : List Packet := (l.filter Prod.snd).map Prod.fst

theorem written_append (l l' : List (Packet × Bool)) : written (l ++ l') = written l ++ written l' := by
  simp [written]

theorem written_handed (capturing : Bool) (status : LinkState) (ps : List Packet) :
    written (handed capturing status ps) =
      if (capturing && status = .linkDown) = true then ps else [] := by
  unfold written handed
  cases (capturing && status = .linkDown : Bool) <;> simp [List.filter_map, Function.comp_def]

/-! ### One packet -/

theorem dumpPacket_dumped (status : LinkState) (c : Capture) (p : Packet) :
    (dumpPacket status c p).dumped = c.dumped ++
      if (c.isCapturing && status = .linkDown) = true ∧ 20 ≤ p.headerLen then [p] else [] := by
  unfold dumpPacket
  cases hcap : c.isCapturing with
  | false => simp
  | true =>
    cases status with
    | linkUp => simp
    | linkDown =>
      rcases Nat.lt_or_ge p.headerLen 20 with hlen | hlen
      · simp [hlen]
      · simp [hlen, Nat.not_lt.mpr hlen]

theorem dumpPacket_capInfos (status : LinkState) (c : Capture) (p : Packet) :
    (dumpPacket status c p).capInfos = c.capInfos := by
  unfold dumpPacket
  split_ifs <;> rfl

/-- What `pcap_dispatch` does with a queue. -/
theorem dispatch_spec (status : LinkState) : ∀ (ps : List Packet) (c : Capture),
    (ps.foldl (dumpPacket status) c).capInfos = c.capInfos ∧
    (ps.foldl (dumpPacket status) c).dumped = c.dumped ++
      written (handed c.isCapturing status (ps.filter fun p => 20 ≤ p.headerLen)) := by
  intro ps
  induction ps with
  | nil =>
    intro c
    simp [handed, written]
  | cons p ps ih =>
    intro c
    obtain ⟨hinfos, hdumped⟩ := ih (dumpPacket status c p)
    rw [List.foldl_cons]
    refine ⟨hinfos.trans (dumpPacket_capInfos status c p), ?_⟩
    rw [hdumped, dumpPacket_dumped, (dumpPacket_sameBooks status c p).isCapturing, written_handed,
      written_handed, List.append_assoc]
    by_cases hc : (c.isCapturing && status = .linkDown) = true <;>
      by_cases hp : 20 ≤ p.headerLen <;> simp [hc, hp]

/-! ### All queues -/

/-- What `capture_packets` hands on of the queue of handle `i`. -/
def drained (this : LocalNode M) (c : Capture) (i : Fin maxNodeFan) : List (Packet × Bool) :=
  handed c.isCapturing (this.node.linkStatuses i) (waiting c i)

/-- What it writes. -/
def writes (this : LocalNode M) (c : Capture) : List Packet :=
  (List.finRange maxNodeFan).flatMap fun i => written (drained this c i)

/-- What `capture_packets` writes in its round `j`. -/
def writesAt (this : LocalNode M) (c : Capture) (j : ℕ) : List Packet :=
  if h : j < maxNodeFan then written (drained this c ⟨j, h⟩) else []

theorem writes_eq_range (this : LocalNode M) (c : Capture) {k : ℕ} (hk : k ≤ maxNodeFan)
    (hlen : c.capInfos.length ≤ k) : writes this c = (List.range k).flatMap (writesAt this c) := by
  obtain ⟨m, hm⟩ := Nat.exists_eq_add_of_le hk
  have hrest : ((List.range m).map (k + ·)).flatMap (writesAt this c) = [] := by
    refine List.flatMap_eq_nil_iff.mpr fun j hj => ?_
    obtain ⟨j', -, rfl⟩ := List.mem_map.mp hj
    unfold writesAt
    split
    · rw [drained, waiting, List.getElem?_eq_none (by simp only; omega)]
      simp [handed, written]
    · rfl
  calc writes this c = (List.range maxNodeFan).flatMap (writesAt this c) := by
        rw [← List.map_coe_finRange_eq_range, List.flatMap_map]
        simp [writes, writesAt]
    _ = (List.range k).flatMap (writesAt this c) := by
        rw [hm, List.range_add, List.flatMap_append, hrest, List.append_nil]

theorem capturePackets_drains {this : LocalNode M} {c c' : Capture}
    (hlen : this.node.nNeighbours = c.capInfos.length) (hfan : c.capInfos.length ≤ maxNodeFan)
    (h : capturePackets this c = .ok c') :
    c'.dumped = c.dumped ++ writes this c ∧
      c'.capInfos = c.capInfos.map fun info => { info with queue := [] } := by
  have hall := forUpto_ok (fun k t => SameBooks c t ∧
    t.dumped = c.dumped ++ (List.range k).flatMap (writesAt this c) ∧
    ∀ j, t.capInfos[j]? = (c.capInfos[j]?).map fun info =>
      if j < k then { info with queue := [] } else info) ⟨.refl c, by simp, by simp⟩ h ?_
  · obtain ⟨-, hdumped, hinfos⟩ := hall
    have hn : this.node.nNeighbours.toNat = c.capInfos.length := by omega
    rw [hn] at hdumped hinfos
    refine ⟨by rw [hdumped, writes_eq_range this c hfan le_rfl], List.ext_getElem? fun j => ?_⟩
    rw [hinfos, List.getElem?_map]
    cases hj : c.capInfos[j]? with
    | none => rfl
    | some info => simp [(List.getElem?_eq_some_iff.mp hj).1]
  · rintro i t t' hi ⟨hbooks, hdumped, hinfos⟩ hround
    obtain ⟨info, hinfo, hround⟩ := bind_ok_iff.mp hround
    obtain ⟨status, hstatus, hround⟩ := bind_ok_iff.mp hround
    cases hround
    obtain ⟨k, hk, rfl⟩ := read_ok_iff.mp hstatus
    obtain rfl : i = k := by omega
    obtain ⟨hsame, hnew⟩ := dispatch_spec (this.node.linkStatuses k) info.queue t
    have hcell : t.capInfos[(k : ℕ)]? = some info := cell_ok_iff.mp hinfo
    have hkept : c.capInfos[(k : ℕ)]? = some info := by
      simpa using (hinfos k).symm.trans hcell
    refine ⟨(hbooks.trans (foldl_sameBooks (dumpPacket_sameBooks _) info.queue t)).trans
      ⟨rfl, rfl, rfl⟩, ?_, fun j => ?_⟩
    · simp only [hnew, hdumped, List.range_succ, List.flatMap_append, List.append_assoc,
        List.flatMap_singleton, writesAt, dif_pos k.isLt, hbooks.isCapturing]
      simp [drained, waiting, hkept]
    · simp only [hsame, List.getElem?_set, hinfos]
      by_cases hj : (k : ℕ) = j
      · subst hj
        have hlt := (List.getElem?_eq_some_iff.mp hcell).1
        simp [hlt, hkept]
      · have hlt : j < (k : ℕ) + 1 ↔ j < k := by omega
        simp [hj, hlt]

theorem waiting_cleared {c c' : Capture}
    (h : c'.capInfos = c.capInfos.map fun info => { info with queue := [] }) (i : ℕ) :
    waiting c' i = [] ∧ passesFilter c' i = passesFilter c i := by
  unfold waiting passesFilter
  rw [h, List.getElem?_map]
  cases c.capInfos[i]? <;> exact ⟨rfl, rfl⟩

/-! ### Arrivals -/

/-- The packets of `arrived` that join the queue of handle `i`. -/
def joining (c : Capture) (arrived : List (ℕ × Packet)) (i : ℕ) : List Packet :=
  (arrived.filter fun a => a.1 = i ∧ passesFilter c i a.2 ∧ 20 ≤ a.2.headerLen).map Prod.snd

theorem arrive_spec (c : Capture) (a : ℕ × Packet) :
    (arrive c a).dumped = c.dumped ∧ (arrive c a).capInfos.length = c.capInfos.length ∧
      ∀ i, passesFilter (arrive c a) i = passesFilter c i ∧
        waiting (arrive c a) i = waiting c i ++ joining c [a] i := by
  unfold arrive
  split
  · rename_i info hinfo
    obtain ⟨hlt, hget⟩ := List.getElem?_eq_some_iff.mp hinfo
    split
    · rename_i hpass
      refine ⟨rfl, by simp, fun i => ?_⟩
      by_cases hi : a.1 = i
      · subst hi
        by_cases hlen : 20 ≤ a.2.headerLen <;>
          simp [passesFilter, waiting, joining, hget, hlt, hpass, hlen, funext_iff]
      · simp [passesFilter, waiting, joining, hi, funext_iff]
    · rename_i hpass
      refine ⟨rfl, rfl, fun i => ⟨rfl, ?_⟩⟩
      have hno : ¬(a.1 = i ∧ passesFilter c i a.2 ∧ 20 ≤ a.2.headerLen) := by
        rintro ⟨rfl, hp, -⟩
        rw [passesFilter, hinfo] at hp
        exact hpass hp
      simp [joining, hno]
  · rename_i hnone
    refine ⟨rfl, rfl, fun i => ⟨rfl, ?_⟩⟩
    have hno : ¬(a.1 = i ∧ passesFilter c i a.2 ∧ 20 ≤ a.2.headerLen) := by
      rintro ⟨rfl, hp, -⟩
      rw [passesFilter, hnone] at hp
      cases hp
    simp [joining, hno]

theorem foldl_arrive_spec : ∀ (arrived : List (ℕ × Packet)) (c : Capture),
    (arrived.foldl arrive c).dumped = c.dumped ∧
      (arrived.foldl arrive c).capInfos.length = c.capInfos.length ∧
      ∀ i, waiting (arrived.foldl arrive c) i = waiting c i ++ joining c arrived i := by
  intro arrived
  induction arrived with
  | nil =>
    intro c
    exact ⟨rfl, rfl, fun i => by simp [joining]⟩
  | cons a arrived ih =>
    intro c
    obtain ⟨hdumped, hlen, hrest⟩ := ih (arrive c a)
    obtain ⟨hdumped', hlen', hfirst⟩ := arrive_spec c a
    refine ⟨hdumped.trans hdumped', hlen.trans hlen', fun i => ?_⟩
    have hjoin : joining (arrive c a) arrived i = joining c arrived i := by
      unfold joining
      rw [(hfirst i).1]
    rw [List.foldl_cons, hrest i, (hfirst i).2, hjoin, List.append_assoc, joining, joining, joining,
      ← List.map_append, ← List.filter_append, List.singleton_append]

/-! ### Functions that leave the queues alone -/

/-- The queues and the dumped packets stay the same. -/
structure SameQueues (c c' : Capture) : Prop where
  dumped : c'.dumped = c.dumped
  length : c'.capInfos.length = c.capInfos.length
  waiting : ∀ i, Dtlsr.waiting c' i = Dtlsr.waiting c i

theorem SameQueues.refl (c : Capture) : SameQueues c c := ⟨rfl, rfl, fun _ => rfl⟩

theorem SameQueues.trans {c c' c'' : Capture} (h : SameQueues c c') (h' : SameQueues c' c'') :
    SameQueues c c'' :=
  ⟨h'.dumped.trans h.dumped, h'.length.trans h.length,
    fun i => (h'.waiting i).trans (h.waiting i)⟩

theorem SameQueues.of_capInfos {c c' : Capture} (hdumped : c'.dumped = c.dumped)
    (hinfos : c'.capInfos = c.capInfos) : SameQueues c c' :=
  ⟨hdumped, by rw [hinfos], fun i => by rw [Dtlsr.waiting, hinfos]; rfl⟩

section Functions
variable {this : LocalNode M} {c c' : Capture} {iface : String} {hops : HopTable}

theorem captureReplayIface_sameQueues (h : captureReplayIface this iface hops c = .ok c') :
    SameQueues c c' := by
  obtain ⟨fexp, -, h⟩ := bind_ok_iff.mp h
  cases fexp <;> cases h <;> exact .of_capInfos rfl rfl

theorem captureRemoveReplayedPackets_sameQueues
    (h : captureRemoveReplayedPackets this iface hops c = .ok c') : SameQueues c c' := by
  obtain ⟨fexp, -, h⟩ := bind_ok_iff.mp h
  cases h
  exact .of_capInfos rfl rfl

theorem setFilter_sameQueues {i : ℕ} (h : setFilter this hops i c = .ok c') : SameQueues c c' := by
  obtain ⟨info, hinfo, h⟩ := bind_ok_iff.mp h
  obtain ⟨filterExp, -, h⟩ := bind_ok_iff.mp h
  cases h
  refine ⟨rfl, by simp, fun j => ?_⟩
  obtain ⟨hlt, hget⟩ := List.getElem?_eq_some_iff.mp (cell_ok_iff.mp hinfo)
  by_cases hj : i = j
  · subst hj
    simp [waiting, hget, hlt]
  · simp [waiting, hj]

theorem captureStartIface_sameQueues (h : captureStartIface this iface hops c = .ok c') :
    SameQueues c c' := by
  obtain ⟨free, -, h⟩ := bind_ok_iff.mp h
  obtain ⟨c1, hc1, h⟩ := bind_ok_iff.mp h
  cases h
  suffices h : SameQueues c c1 from h.trans (.of_capInfos rfl rfl)
  refine forUpto_ok (fun _ t => SameQueues c t) ?_ hc1 fun i t t' _ ht hround =>
    ht.trans (setFilter_sameQueues hround)
  cases free <;> exact .of_capInfos rfl rfl

theorem captureEndIface_drains {strcmpNull : Exec Bool}
    (hlen : this.node.nNeighbours = c.capInfos.length)
    (hfan : c.capInfos.length ≤ maxNodeFan) (hn : c.nDownIfaces ≠ 0)
    (h : captureEndIface strcmpNull this iface c = .ok c') :
    c'.capInfos.length = c.capInfos.length ∧
      (c'.dumped = c.dumped ++ (List.finRange maxNodeFan).flatMap fun i =>
        written (handed c'.isCapturing (this.node.linkStatuses i) (waiting c i))) ∧
      ∀ i, waiting c' i = [] := by
  obtain ⟨c1, hinfos, hdumped, h⟩ : ∃ c1, c1.capInfos = c.capInfos ∧ c1.dumped = c.dumped ∧
      capturePackets this c1 = .ok c' := by
    unfold captureEndIface at h
    rw [if_neg hn] at h
    obtain ⟨hit, -, h⟩ := bind_ok_iff.mp h
    refine ⟨_, ?_, ?_, h⟩ <;> cases hit <;> dsimp only <;> split <;> rfl
  obtain ⟨hwritten, hcleared⟩ := capturePackets_drains (by rw [hinfos]; exact hlen)
    (by rw [hinfos]; exact hfan) h
  refine ⟨by rw [hcleared, hinfos, List.length_map], ?_, fun i => (waiting_cleared hcleared i).1⟩
  rw [hwritten, hdumped, (capturePackets_sameBooks h).isCapturing]
  simp only [writes, drained, waiting, hinfos]

end Functions

end Queues

/-! ### One iteration -/

section Steps
variable {M : Type}

/-- The packets queued on link `i` during an iteration. -/
def queued (st : Trace.Step (Daemon M) (Event M)) (i : Fin maxNodeFan) : List Packet :=
  joining st.before.capture st.event.arrived i

/-- A link comes up that `capture_end_iface` does not ignore. -/
def DrainsTwice (st : Trace.Step (Daemon M) (Event M)) : Prop :=
  (risen st).isSome ∧ st.before.capture.nDownIfaces ≠ 0

instance (st : Trace.Step (Daemon M) (Event M)) : Decidable (DrainsTwice st) := by
  unfold DrainsTwice; infer_instance

/-- What `capture_end_iface` hands on of the queue of handle `i`. -/
def drainedAgain (st : Trace.Step (Daemon M) (Event M)) (i : Fin maxNodeFan) : List (Packet × Bool) :=
  if DrainsTwice st then
    handed st.after.capture.isCapturing (st.after.this.node.linkStatuses i) (queued st i)
  else []

/-- What handle `i` hands to `dump_packet` in an iteration. -/
def handedOn (st : Trace.Step (Daemon M) (Event M)) (i : Fin maxNodeFan) : List (Packet × Bool) :=
  drained st.before.this st.before.capture i ++ drainedAgain st i

variable [Field M] {S : Setup M} {st : Trace.Step (Daemon M) (Event M)}

/-- What an iteration does to the queues and to the dump. -/
structure DrainedBy (S : Setup M) (st : Trace.Step (Daemon M) (Event M)) : Prop where
  length : st.after.capture.capInfos.length = S.links.length
  dumped : st.after.capture.dumped =
    st.before.capture.dumped ++ writes st.before.this st.before.capture ++
      (List.finRange maxNodeFan).flatMap fun i => written (drainedAgain st i)
  waiting : ∀ i : Fin maxNodeFan,
    Dtlsr.waiting st.after.capture i = if DrainsTwice st then [] else queued st i

/-- The queues when the event comes, in the capture state `c`. -/
structure Arrived (S : Setup M) (st : Trace.Step (Daemon M) (Event M)) (c : Capture) : Prop where
  nDownIfaces : c.nDownIfaces = st.before.capture.nDownIfaces
  length : c.capInfos.length = S.links.length
  dumped : c.dumped = st.before.capture.dumped ++ writes st.before.this st.before.capture
  waiting : ∀ i : Fin maxNodeFan, Dtlsr.waiting c i = queued st i

variable {c c0 : Capture}

theorem arrived_of_drain (hn : st.before.this.node.nNeighbours = S.links.length)
    (hfan : S.links.length ≤ maxNodeFan)
    (hlen : st.before.capture.capInfos.length = S.links.length)
    (h : capturePackets st.before.this st.before.capture = .ok c0) :
    Arrived S st (st.event.arrived.foldl arrive c0) := by
  obtain ⟨hwritten, hcleared⟩ := capturePackets_drains (by rw [hn, hlen]) (hlen.trans_le hfan) h
  obtain ⟨hdumped, hcount, hwait⟩ := foldl_arrive_spec st.event.arrived c0
  refine ⟨?_, ?_, hdumped.trans hwritten, fun i => ?_⟩
  · rw [(foldl_sameBooks arrive_sameBooks _ _).nDownIfaces, (capturePackets_sameBooks h).nDownIfaces]
  · rw [hcount, hcleared, List.length_map, hlen]
  · rw [hwait, (waiting_cleared hcleared i).1, List.nil_append, queued, joining, joining,
      (waiting_cleared hcleared i).2]

theorem Arrived.once (h : Arrived S st c) (hno : ¬DrainsTwice st)
    (hsame : SameQueues c st.after.capture) : DrainedBy S st := by
  refine ⟨hsame.length.trans h.length, ?_, fun i => ?_⟩
  · simp [hsame.dumped, h.dumped, drainedAgain, hno, written]
  · rw [if_neg hno, hsame.waiting, h.waiting]

variable [LinearOrder M] [FloorRing M] [Libm M]

/-- A queue is emptied at the top of the loop, and by `capture_end_iface`. -/
theorem step_drains (hb : S.build = .dtlsr) (hl : Linked S st.before.this)
    (hlen : st.before.capture.capInfos.length = S.links.length)
    (h : Steps S st.before st.event st.after) : DrainedBy S st := by
  obtain ⟨c0, c, hc0, rfl, hmove⟩ := h.captureMoves hb hl
  have hfan : S.links.length ≤ maxNodeFan := by
    have : st.before.this.node.nNeighbours ≤ maxNodeFan := hl.bounds.fan
    rw [hl.count] at this
    omega
  have harr : Arrived S st (st.event.arrived.foldl arrive c0) :=
    arrived_of_drain hl.count hfan hlen hc0
  rcases hmove with ⟨hsame, hkept⟩ | ⟨i, -, hdown, hup, t, ht, hstatus, hend⟩ |
    ⟨i, -, hup, hdown, t, hops, ht, hstart⟩
  · refine harr.once (fun h => by simp [DrainsTwice, (still hsame).1] at h) ?_
    rcases hkept with heq | ⟨upIface, c1, h1, h2⟩
    · rw [heq]
      exact .refl _
    · exact (captureReplayIface_sameQueues h1).trans (captureRemoveReplayedPackets_sameQueues h2)
  · by_cases hzero : st.before.capture.nDownIfaces = 0
    · refine harr.once (fun h => h.2 hzero) ?_
      rw [captureEndIface_zero (harr.nDownIfaces.trans hzero) hend]
      exact .refl _
    · have htwice : DrainsTwice st := ⟨by rw [(risen_of_update hdown hup).1]; rfl, hzero⟩
      obtain ⟨hcount, hdumped, hwait⟩ := captureEndIface_drains (by rw [ht.count, harr.length])
        (harr.length.trans_le hfan) (harr.nDownIfaces ▸ hzero) hend
      refine ⟨hcount.trans harr.length, ?_, fun i => by rw [if_pos htwice, hwait]⟩
      rw [hdumped, harr.dumped]
      simp only [drainedAgain, if_pos htwice, hstatus, harr.waiting]
  · refine harr.once (fun h => ?_) (captureStartIface_sameQueues hstart)
    simp [DrainsTwice, (fallen_of_update hup hdown).1] at h

/-- A link that is down stays so in a step that does not raise it. -/
theorem step_down {i : Fin maxNodeFan} (hb : S.build = .dtlsr) (hl : Linked S st.before.this)
    (h : Steps S st.before st.event st.after) (hdown : st.before.this.node.linkStatuses i = .linkDown)
    (hrise : risen st ≠ some i) : st.after.this.node.linkStatuses i = .linkDown := by
  obtain ⟨c, -, hmove⟩ := h.moves hb hl
  rcases hmove with ⟨hsame, -⟩ | ⟨j, -, hj, hup, -⟩ | ⟨j, -, -, hfall, -⟩
  · rw [hsame, hdown]
  · have hne : i ≠ j := by
      rintro rfl
      exact hrise (risen_of_update hj hup).1
    rw [hup, Function.update_of_ne hne, hdown]
  · rw [hfall, Function.update_apply, hdown, ite_self]

end Steps

/-! ### Runs -/

section Runs
variable {M : Type}

/-- One more when a link goes down, and one less, but not below 0, when one comes up. -/
def openAfter (st : Trace.Step (Daemon M) (Event M)) (n : ℕ) : ℕ :=
  if (fallen st).isSome then n + 1 else if (risen st).isSome then n - 1 else n

/-- How many links have gone down, less those that have come up, counted from step to step. -/
def openCaptures (tr : List (Trace.Step (Daemon M) (Event M))) : ℕ :=
  tr.foldl (fun n st => openAfter st n) 0

/-- The packets queued on link `i` in an iteration, with what becomes of them. -/
def fates (st : Trace.Step (Daemon M) (Event M)) (i : Fin maxNodeFan) : List (Packet × Bool) :=
  handed st.after.capture.isCapturing (st.after.this.node.linkStatuses i) (queued st i)

variable [Field M] [LinearOrder M] [FloorRing M] [Libm M] {S : Setup M}
  {tr : List (Trace.Step (Daemon M) (Event M))} {s : Daemon M}

/-- Packets are captured while `n` is not 0. -/
structure Counts (c : Capture) (n : ℕ) : Prop where
  nDownIfaces : c.nDownIfaces = n
  isCapturing : c.isCapturing = decide (0 < n)

theorem Counts.sameBooks {c c' : Capture} {n : ℕ} (h : Counts c n) (hsame : SameBooks c c') :
    Counts c' n :=
  ⟨hsame.nDownIfaces.trans h.nDownIfaces, hsame.isCapturing.trans h.isCapturing⟩

theorem Counts.step (st : Trace.Step (Daemon M) (Event M)) {n : ℕ} (hn : Counts st.before.capture n)
    (hb : S.build = .dtlsr) (hl : Linked S st.before.this)
    (hslots : st.before.capture.downIfaces.length = S.links.length)
    (h : Steps S st.before st.event st.after) : Counts st.after.capture (openAfter st n) := by
  obtain ⟨c, hbooks, hmove⟩ := h.moves hb hl
  have hc : Counts c n := hn.sameBooks hbooks
  rw [openAfter]
  rcases hmove with ⟨hsame, hkept⟩ | ⟨i, -, hdown, hup, t, -, hend⟩ |
    ⟨i, -, hup, hdown, t, hops, ht, hstart⟩
  · obtain ⟨hrise, hfall⟩ := still hsame
    rw [hrise, hfall]
    exact hc.sameBooks hkept
  · obtain ⟨hrise, hfall⟩ := risen_of_update hdown hup
    rw [hrise, hfall]
    rcases Nat.eq_zero_or_pos n with rfl | hpos
    · rw [captureEndIface_zero hc.nDownIfaces hend]
      exact hc
    · have hne : c.nDownIfaces ≠ 0 := by
        rw [hc.nDownIfaces]
        omega
      obtain ⟨-, -, -, hcount, hcap⟩ := captureEndIface_books hne hend
      have hleft : c.nDownIfaces - 1 = ((n - 1 : ℕ) : ℤ) := by
        rw [hc.nDownIfaces]
        omega
      refine ⟨hcount.trans hleft, ?_⟩
      rw [hcap, hleft, hc.isCapturing, Bool.eq_iff_iff]
      simp [hpos]
      omega
  · obtain ⟨hrise, hfall⟩ := fallen_of_update hup hdown
    have hlen : (t.node.nNeighbours : ℤ) = c.downIfaces.length := by
      rw [ht.count, hbooks.downIfaces, hslots]
    obtain ⟨-, hcount, hcap⟩ := captureStartIface_books hlen hstart
    rw [hfall]
    exact ⟨by simp [hcount, hc.nDownIfaces], by simp [hcap]⟩

theorem Run.counts (hb : S.build = .dtlsr) (hrun : Run S tr s) :
    Counts s.capture (openCaptures tr) := by
  refine hrun.invariant (I := fun tr s => Counts s.capture (openCaptures tr)) ?_ ?_
  · intro s h0
    rw [(startUp_started h0).capture]
    exact ⟨rfl, rfl⟩
  · intro tr s ev s' hr hn hstep
    rw [openCaptures, List.foldl_concat]
    exact hn.step { before := s, event := ev, after := s' } hb (Run.linked hr) (Run.slots hb hr) hstep

theorem Run.capInfos (hb : S.build = .dtlsr) (hrun : Run S tr s) :
    s.capture.capInfos.length = S.links.length := by
  refine hrun.invariant (I := fun _ s => s.capture.capInfos.length = S.links.length) ?_ ?_
  · intro s h0
    rw [(startUp_started h0).capture]
    simp [captureInit, openDump, (startUp_linked h0).1.count]
  · intro tr s ev s' hr hlen hstep
    have hdrain : DrainedBy S { before := s, event := ev, after := s' } :=
      step_drains hb (Run.linked hr) hlen hstep
    exact hdrain.length

/-- What has been dumped is what the handles have handed on while their links were down. -/
theorem Run.dumped (hb : S.build = .dtlsr) (hrun : Run S tr s) :
    s.capture.dumped.Perm ((List.finRange maxNodeFan).flatMap fun i =>
      written (tr.flatMap fun st => handedOn st i)) := by
  refine hrun.invariant (I := fun tr s => s.capture.dumped.Perm
    ((List.finRange maxNodeFan).flatMap fun i => written (tr.flatMap fun st => handedOn st i))) ?_ ?_
  · intro s h0
    rw [(startUp_started h0).capture]
    simp [captureInit, openDump, written]
  · intro tr s ev s' hr hperm hstep
    have hdrain : DrainedBy S { before := s, event := ev, after := s' } :=
      step_drains hb (Run.linked hr) (Run.capInfos hb hr) hstep
    rw [show s'.capture.dumped = _ from hdrain.dumped]
    simp only [writes, List.flatMap_append, List.flatMap_singleton, handedOn, written_append]
    refine ((hperm.append_right _).append_right _).trans ?_
    rw [List.append_assoc]
    exact ((List.flatMap_append_perm _ _ _).append_left _).trans (List.flatMap_append_perm _ _ _)

/-- A handle hands its packets on in the order in which they were queued, and those that it still has
    would be handed on next. -/
theorem Run.handedOn (hb : S.build = .dtlsr) (hrun : Run S tr s) (i : Fin maxNodeFan) :
    (tr.flatMap fun st => Dtlsr.handedOn st i) ++ drained s.this s.capture i =
      tr.flatMap fun st => fates st i := by
  refine hrun.invariant (I := fun tr s => (tr.flatMap fun st => Dtlsr.handedOn st i) ++
    drained s.this s.capture i = tr.flatMap fun st => fates st i) ?_ ?_
  · intro s h0
    have hempty : waiting (captureInit s.this S.files) i = [] := by
      unfold waiting
      rw [show (captureInit s.this S.files).capInfos = List.replicate _ _ from rfl,
        List.getElem?_replicate]
      split <;> rfl
    rw [(startUp_started h0).capture]
    simp [drained, handed, hempty]
  · intro tr s ev s' hr ih hstep
    have hdrain : DrainedBy S { before := s, event := ev, after := s' } :=
      step_drains hb (Run.linked hr) (Run.capInfos hb hr) hstep
    have hlast : drainedAgain { before := s, event := ev, after := s' } i ++
        drained s'.this s'.capture i = fates { before := s, event := ev, after := s' } i := by
      rw [drained, hdrain.waiting i, drainedAgain, fates]
      split <;> simp [handed]
    simp only [List.flatMap_append, List.flatMap_singleton]
    rw [← ih, ← hlast]
    simp [Dtlsr.handedOn]

/-- A link stays down until a step raises it. -/
theorem Run.stays_down (hb : S.build = .dtlsr) {i : Fin maxNodeFan}
    {mid : List (Trace.Step (Daemon M) (Event M))} (hrun : Run S (tr ++ mid) s)
    (h0 : ∀ s0, Run S tr s0 → s0.this.node.linkStatuses i = .linkDown)
    (hrise : ∀ st ∈ mid, risen st ≠ some i) : s.this.node.linkStatuses i = .linkDown := by
  induction mid using List.reverseRecOn generalizing s with
  | nil => exact h0 s (by simpa using hrun)
  | append_singleton mid st ih =>
    rw [← List.append_assoc] at hrun
    obtain ⟨hr, hstep, rfl⟩ := hrun.of_snoc
    exact step_down hb (Run.linked hr) hstep
      (ih hr fun st' hst' => hrise st' (List.mem_append_left _ hst')) (hrise st (by simp))

end Runs

/-! ### While a link is down -/

section Outage
variable {M : Type}

/-- By the end of the iterations `during`, all packets queued on link `i` in them have been written: the
    handle has already handed on what was queued before. -/
def Buffered (i : Fin maxNodeFan) (before during : List (Trace.Step (Daemon M) (Event M))) : Prop :=
  ((before ++ during).flatMap fun st => handedOn st i).drop
      (before.flatMap fun st => queued st i).length =
    (during.flatMap fun st => queued st i).map fun p => (p, true)

instance (i : Fin maxNodeFan) (before during : List (Trace.Step (Daemon M) (Event M))) :
    Decidable (Buffered i before during) := by
  unfold Buffered; infer_instance

variable {i : Fin maxNodeFan}

theorem handed_eq_iff {capturing : Bool} {status : LinkState} {ps : List Packet} :
    handed capturing status ps = ps.map (fun p => (p, true)) ↔
      (ps ≠ [] → capturing = true ∧ status = .linkDown) := by
  cases ps with
  | nil => simp [handed]
  | cons p ps =>
    simp only [handed, List.map_cons, List.cons.injEq, Prod.mk.injEq, true_and, Bool.and_eq_true,
      decide_eq_true_eq, ne_eq, reduceCtorEq, not_false_eq_true, forall_const]
    refine and_iff_left_of_imp fun ⟨hcap, hdown⟩ => ?_
    simp [hcap, hdown]

theorem length_fates (l : List (Trace.Step (Daemon M) (Event M))) :
    (l.flatMap fun st => fates st i).length = (l.flatMap fun st => queued st i).length := by
  simp [List.length_flatMap, fates, handed]

theorem append_eq_iff {α : Type} {a a' b b' : List α} (hlen : a.length = a'.length) :
    a ++ b = a' ++ b' ↔ a = a' ∧ b = b' :=
  ⟨fun h => List.append_inj h hlen, fun ⟨h1, h2⟩ => by rw [h1, h2]⟩

theorem flatMap_fates_eq_iff {l : List (Trace.Step (Daemon M) (Event M))} :
    (l.flatMap fun st => fates st i) =
        (l.flatMap fun st => queued st i).map (fun p => (p, true)) ↔
      ∀ st ∈ l, queued st i ≠ [] →
        st.after.capture.isCapturing = true ∧ st.after.this.node.linkStatuses i = .linkDown := by
  induction l with
  | nil => simp
  | cons st l ih =>
    rw [List.flatMap_cons, List.flatMap_cons, List.map_append,
      append_eq_iff (by simp [fates, handed]), ih, fates, handed_eq_iff, List.forall_mem_cons]

/-- What is drained while the link is already up is not written. -/
theorem drainedAgain_eq_iff {st : Trace.Step (Daemon M) (Event M)}
    (hup : st.after.this.node.linkStatuses i = .linkUp) :
    drainedAgain st i = (queued st i).map (fun p => (p, true)) ↔ queued st i = [] := by
  unfold drainedAgain
  split
  · rw [handed_eq_iff, hup]
    simp
  · exact eq_comm.trans List.map_eq_nil_iff

variable [Field M] [LinearOrder M] [FloorRing M] [Libm M] {S : Setup M}
  {tr : List (Trace.Step (Daemon M) (Event M))} {s : Daemon M}

/-- What the handle of a link has handed on since the link went down, at the end of the iteration that
    raises it. -/
theorem drop_handedOn (hb : S.build = .dtlsr)
    {before mid : List (Trace.Step (Daemon M) (Event M))} {up : Trace.Step (Daemon M) (Event M)}
    (hrun : Run S (before ++ (mid ++ [up])) s) :
    ((before ++ (mid ++ [up])).flatMap fun st => handedOn st i).drop
        (before.flatMap fun st => queued st i).length =
      (mid.flatMap fun st => fates st i) ++ drainedAgain up i := by
  rw [← List.append_assoc] at hrun ⊢
  have hlog := Run.handedOn hb hrun.of_snoc.1 i
  rw [List.flatMap_append, List.flatMap_singleton, handedOn, ← List.append_assoc, hlog,
    List.flatMap_append, List.append_assoc, List.drop_left' (length_fates before)]

/-- Link `i` is down after the steps `mid`, and packets are captured after each of them while the count
    is not 0. -/
theorem captured_iff (hb : S.build = .dtlsr) {before mid : List (Trace.Step (Daemon M) (Event M))}
    (hrun : Run S (before ++ mid) s)
    (h0 : ∀ s0, Run S before s0 → s0.this.node.linkStatuses i = .linkDown)
    (hrise : ∀ st ∈ mid, risen st ≠ some i) :
    (∀ st ∈ mid, queued st i ≠ [] →
        st.after.capture.isCapturing = true ∧ st.after.this.node.linkStatuses i = .linkDown) ↔
      Trace.Along (fun m st => queued st i ≠ [] → 0 < openCaptures (before ++ m ++ [st])) mid := by
  have hafter : ∀ m st post, mid = m ++ st :: post → Run S (before ++ m ++ [st]) st.after := by
    rintro m st post rfl
    rw [← List.append_assoc] at hrun
    exact hrun.until.1.step hrun.until.2
  constructor
  · intro hall m st post heq hne
    have hcap := (Run.counts hb (hafter m st post heq)).isCapturing
    rw [(hall st (by simp [heq]) hne).1] at hcap
    simpa using hcap
  · intro halong st hst hne
    obtain ⟨m, post, heq⟩ := List.append_of_mem hst
    have hr := hafter m st post heq
    refine ⟨by rw [(Run.counts hb hr).isCapturing]; simpa using halong m st post heq hne, ?_⟩
    rw [List.append_assoc] at hr
    refine Run.stays_down hb hr h0 fun st' hst' => hrise st' ?_
    rw [heq, List.append_cons]
    exact List.mem_append_left _ hst'

/-- Which packets are lost while a link is down. What is dumped is what the handles hand on, each in the
    order in which it was queued, while they capture and their link is down. Of the packets queued on
    link `i` from the iteration after it has gone down to the one that raises it, all have been written
    by the end of that iteration exactly when none is queued in that iteration itself, and at the end of
    each other in which one is, the links that have gone down are not made up for by those that have come
    up. -/
theorem buffered_iff (hb : S.build = .dtlsr) (hrun : Run S tr s) :
    (s.capture.dumped.Perm ((List.finRange maxNodeFan).flatMap fun i =>
      written (tr.flatMap fun st => handedOn st i))) ∧
    (∀ i : Fin maxNodeFan, (tr.flatMap fun st => handedOn st i).map Prod.fst ++ waiting s.capture i =
      tr.flatMap fun st => queued st i) ∧
    ∀ (i : Fin maxNodeFan) (pre : List (Trace.Step (Daemon M) (Event M)))
      (down : Trace.Step (Daemon M) (Event M)) (mid : List (Trace.Step (Daemon M) (Event M)))
      (up : Trace.Step (Daemon M) (Event M)) (post : List (Trace.Step (Daemon M) (Event M))),
      tr = pre ++ down :: (mid ++ up :: post) → fallen down = some i →
      (∀ st ∈ mid, risen st ≠ some i) → risen up = some i →
        (Buffered i (pre ++ [down]) (mid ++ [up]) ↔ queued up i = [] ∧
          Trace.Along (fun m st =>
            queued st i ≠ [] → 0 < openCaptures (pre ++ [down] ++ m ++ [st])) mid) := by
  refine ⟨Run.dumped hb hrun, fun i => ?_, ?_⟩
  · have hlog := congrArg (List.map Prod.fst) (Run.handedOn hb hrun i)
    simpa [drained, fates, handed, List.map_flatMap, Function.comp_def] using hlog
  · rintro i pre down mid up post rfl hfall hno hup
    rw [show pre ++ down :: (mid ++ up :: post) = (pre ++ [down]) ++ mid ++ up :: post by simp] at hrun
    obtain ⟨hmid, hstep⟩ := hrun.until
    have hlast : Run S (pre ++ [down] ++ (mid ++ [up])) up.after := by
      rw [← List.append_assoc]
      exact hmid.step hstep
    rw [Buffered, drop_handedOn hb hlast, List.flatMap_append, List.flatMap_singleton,
      List.map_append, append_eq_iff (by rw [List.length_map, length_fates]), flatMap_fates_eq_iff,
      drainedAgain_eq_iff (risen_up hup), and_comm]
    refine and_congr_right fun _ => captured_iff hb hmid (fun s0 h0 => ?_) hno
    rw [h0.last, fallen_down hfall]

end Outage

/-- The first link comes up and goes down, a packet for it arrives, and it comes up again. -/
def packetThenHeartbeat : List (Event ℚ) :=
  [quietly (.heartbeat (inetAddr 10 0 0 2)), quietly (.timer 0),
    { arrived := [(0, packetFor 0)], active := .idle }, quietly (.heartbeat (inetAddr 10 0 0 2))]

theorem buffered_packetThenHeartbeat : ∃ tr s, Run (twoLinks .dtlsr id (pure false)) tr s ∧
    tr.map Trace.Step.event = packetThenHeartbeat ∧
    (∃ st ∈ tr, queued st 0 = [packetFor 0]) ∧ Buffered 0 (tr.take 2) (tr.drop 2) := by
  obtain ⟨tr, s, hrun, hevents, hqueued, hfall, hno, hup, hnone, hcount⟩ := exists_run
    (S := twoLinks .dtlsr id (pure false)) packetThenHeartbeat
    (P := fun tr => (∃ st ∈ tr, queued st 0 = [packetFor 0]) ∧
      (∀ st ∈ tr[1]?, fallen st = some 0) ∧ (∀ st ∈ tr[2]?, risen st ≠ some 0) ∧
      (∀ st ∈ tr[3]?, risen st = some 0) ∧ (∀ st ∈ tr[3]?, queued st 0 = []) ∧
      0 < openCaptures (tr.take 3)) (by decide +kernel)
  refine ⟨tr, s, hrun, hevents, hqueued, ?_⟩
  obtain ⟨first, tr, rfl, -, hevents⟩ := List.map_eq_cons_iff.mp hevents
  obtain ⟨down, tr, rfl, -, hevents⟩ := List.map_eq_cons_iff.mp hevents
  obtain ⟨arrival, tr, rfl, -, hevents⟩ := List.map_eq_cons_iff.mp hevents
  obtain ⟨up, tr, rfl, -, hevents⟩ := List.map_eq_cons_iff.mp hevents
  obtain rfl := List.map_eq_nil_iff.mp hevents
  refine ((buffered_iff rfl hrun).2.2 0 [first] down [arrival] up [] rfl (hfall down rfl) ?_
    (hup up rfl)).mpr ⟨hnone up rfl, fun m st post heq _ => ?_⟩
  · simpa using hno arrival rfl
  · obtain ⟨rfl, rfl, rfl⟩ : m = [] ∧ st = arrival ∧ post = [] := by
      simpa [List.append_eq_singleton_iff] using heq.symm
    exact hcount

/-- The packet arrives while the router waits for the heartbeat. -/
def packetWithHeartbeat : List (Event ℚ) :=
  [quietly (.heartbeat (inetAddr 10 0 0 2)), quietly (.timer 0),
    { arrived := [(0, packetFor 0)], active := .heartbeat (inetAddr 10 0 0 2) }]

/-- Then it is drained after `register_heartbeat` has set the link to up, and not written. -/
theorem buffered_loses_last : ¬∀ (S : Setup ℚ) (tr : List (Trace.Step (Daemon ℚ) (Event ℚ)))
    (s : Daemon ℚ), S.build = .dtlsr → Run S tr s → ∀ (i : Fin maxNodeFan)
      (pre : List (Trace.Step (Daemon ℚ) (Event ℚ))) (down : Trace.Step (Daemon ℚ) (Event ℚ))
      (mid : List (Trace.Step (Daemon ℚ) (Event ℚ))) (up : Trace.Step (Daemon ℚ) (Event ℚ))
      (post : List (Trace.Step (Daemon ℚ) (Event ℚ))),
      tr = pre ++ down :: (mid ++ up :: post) → fallen down = some i →
      (∀ st ∈ mid, risen st ≠ some i) → risen up = some i →
        Buffered i (pre ++ [down]) (mid ++ [up]) := by
  intro h
  obtain ⟨tr, s, hrun, hevents, hfall, hup, hlost⟩ := exists_run
    (S := twoLinks .dtlsr id (pure false)) packetWithHeartbeat
    (P := fun tr => (∀ st ∈ tr[1]?, fallen st = some 0) ∧ (∀ st ∈ tr[2]?, risen st = some 0) ∧
      ¬Buffered 0 (tr.take 2) (tr.drop 2)) (by decide +kernel)
  obtain ⟨first, tr, rfl, -, hevents⟩ := List.map_eq_cons_iff.mp hevents
  obtain ⟨down, tr, rfl, -, hevents⟩ := List.map_eq_cons_iff.mp hevents
  obtain ⟨up, tr, rfl, -, hevents⟩ := List.map_eq_cons_iff.mp hevents
  obtain rfl := List.map_eq_nil_iff.mp hevents
  exact hlost (h _ _ s rfl hrun 0 [first] down [] up [] rfl (hfall down rfl) (by simp) (hup up rfl))

end Dtlsr
