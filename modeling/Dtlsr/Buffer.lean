import Mathlib.Data.List.Perm.Lattice
import Dtlsr.DownIfaces
import Dtlsr.Reached

/-!
    The packets buffered for links that are down. `capture_remove_replayed_packets` writes the packets
    that are still waiting into a new dump file, and then opens that file for dumping, which truncates
    it: what is not replayed at once is lost. -/

namespace Dtlsr
open Checked

/-! ### One replay -/

section Replay
variable {M : Type} {this : LocalNode M} {iface : String} {hops : HopTable} {j : Fin maxNodeFan}

/-- The first link with this interface. -/
def linkOfIface (this : LocalNode M) (iface : String) : Option (Fin maxNodeFan) :=
  (List.finRange maxNodeFan).find? fun j =>
    ((j : ℕ) : ℤ) < this.node.nNeighbours ∧ this.interfaces j = iface

/-- The destination of `p` is in a /24 whose next hop is the neighbour on `iface`. -/
def RoutedThrough (this : LocalNode M) (iface : String) (hops : HopTable) (p : Packet) : Prop :=
  ∃ j ∈ linkOfIface this iface, ∃ k, (hops k).nextHop = this.node.neighbourIds j ∧
    p.dst &&& netmask = (hops k).destIp &&& netmask

instance (p : Packet) : Decidable (RoutedThrough this iface hops p) := by
  unfold RoutedThrough; infer_instance

theorem linkOfIface_congr {t t' : LocalNode M} (h1 : t'.node.nNeighbours = t.node.nNeighbours)
    (h2 : t'.interfaces = t.interfaces) (iface : String) :
    linkOfIface t' iface = linkOfIface t iface := by
  unfold linkOfIface
  rw [h1, h2]

theorem ifaceIdx_eq (h : linkOfIface this iface = some j) :
    ifaceIdx this iface = .ok ((j : ℕ) : ℤ) := by
  obtain ⟨hj, hbefore⟩ := find_finRange_eq_some.mp h
  rw [decide_eq_true_eq] at hj
  have hread : ∀ i : Fin maxNodeFan,
      (do pure (decide ((← read this.interfaces ((i : ℕ) : ℤ)) = iface)) : Exec Bool) =
        .ok (decide (this.interfaces i = iface)) := by
    intro i
    rw [read_of_lt _ i.isLt]
    rfl
  have hidx := firstIdx_eq_some (n := this.node.nNeighbours)
    (p := fun i => do pure (decide ((← read this.interfaces i) = iface))) hj.1
    (by rw [hread j, decide_eq_true hj.2]) fun m hm => by
      have hlt : m < maxNodeFan := hm.trans j.isLt
      have hne : this.interfaces ⟨m, hlt⟩ ≠ iface := by
        have := hbefore ⟨m, hlt⟩ (Fin.mk_lt_of_lt_val hm)
        rw [decide_eq_false_iff_not, not_and] at this
        exact this (by have := hj.1; simp only; omega)
      rw [show ((m : ℕ) : ℤ) = ((⟨m, hlt⟩ : Fin maxNodeFan) : ℕ) from rfl, hread ⟨m, hlt⟩,
        decide_eq_false hne]
  rw [ifaceIdx, hidx]
  rfl

theorem generateAddressesOnInterface_eq (h : linkOfIface this iface = some j) :
    generateAddressesOnInterface this iface hops =
      .ok (dstNets (netsVia hops (this.node.neighbourIds j))) := by
  rw [generateAddressesOnInterface, ifaceIdx_eq h, ok_bind, read_of_lt _ j.isLt, ok_bind]
  rfl

/-- The filter selects the packets that are routed through the interface. -/
theorem netsVia_holds (h : linkOfIface this iface = some j) (p : Packet) :
    (Filter.dstNet (netsVia hops (this.node.neighbourIds j))).holds p = true ↔
      RoutedThrough this iface hops p := by
  simp only [Filter.holds, netsVia, List.any_map, List.any_eq_true, List.mem_filter,
    List.mem_finRange, true_and, decide_eq_true_eq, Function.comp_apply, Net.holds, if_true,
    RoutedThrough, h, Option.mem_some_iff, exists_eq_left', UInt32.and_assoc, UInt32.and_self]

/-- What a replay through an interface does to the buffer. -/
theorem replay_eq (hops : HopTable) (h : linkOfIface this iface = some j) (c : Capture) : ∃ c1 c2,
    captureReplayIface this iface hops c = .ok c1 ∧
      captureRemoveReplayedPackets this iface hops c1 = .ok c2 ∧ c2.dump = [] ∧
      c2.dumped = c.dumped ∧ c2.replayed = c.replayed ++
        c.dump.filter fun p => RoutedThrough this iface hops p := by
  have hfilter : (c.dump.filter fun p => RoutedThrough this iface hops p) =
      c.dump.filter (Filter.dstNet (netsVia hops (this.node.neighbourIds j))).holds := by
    refine List.filter_congr fun p _ => ?_
    rw [Bool.eq_iff_iff, decide_eq_true_eq, netsVia_holds h]
  unfold captureReplayIface captureRemoveReplayedPackets
  rw [generateAddressesOnInterface_eq h, ok_bind, hfilter]
  by_cases hnil : netsVia hops (this.node.neighbourIds j) = []
  · rw [show dstNets (netsVia hops (this.node.neighbourIds j)) = none from if_pos hnil]
    refine ⟨c, _, rfl, rfl, by simp [Capture.dump, openDump], rfl, ?_⟩
    rw [hnil]
    simp [openDump, Filter.holds]
  · rw [show dstNets (netsVia hops (this.node.neighbourIds j)) = some _ from if_neg hnil]
    exact ⟨_, _, rfl, rfl, by simp [Capture.dump, openDump], rfl, rfl⟩

end Replay

/-! ### Conservation -/

/-- Every packet dumped so far has been replayed or is in the dump, each as often as it was dumped. -/
def Conserved (c : Capture) : Prop := c.dumped.Perm (c.replayed ++ c.dump)

instance (c : Capture) : Decidable (Conserved c) := by unfold Conserved; infer_instance

theorem dumpPacket_conserved {status : LinkState} {c : Capture} {p : Packet} (h : Conserved c) :
    Conserved (dumpPacket status c p) := by
  unfold dumpPacket
  split_ifs
  · exact h
  · exact h
  · exact h
  · unfold Conserved at h ⊢
    simp only [Capture.dump, Function.update_self, Option.getD_some]
    rw [← List.append_assoc]
    exact h.append_right [p]

theorem foldl_conserved {ι : Type} {f : Capture → ι → Capture}
    (hf : ∀ c a, Conserved c → Conserved (f c a)) :
    ∀ (l : List ι) {c : Capture}, Conserved c → Conserved (l.foldl f c) := by
  intro l
  induction l with
  | nil =>
    intro _ h
    exact h
  | cons a l ih =>
    intro c h
    exact ih (hf c a h)

/-- A packet that arrives waits in the queue of a handle, not in the dump. -/
theorem arrive_dump (c : Capture) (a : ℕ × Packet) : (arrive c a).dump = c.dump := by
  unfold arrive
  split
  · split <;> rfl
  · rfl

theorem foldl_arrive_dump : ∀ (l : List (ℕ × Packet)) (c : Capture),
    (l.foldl arrive c).dump = c.dump := by
  intro l
  induction l with
  | nil =>
    intro _
    rfl
  | cons a l ih =>
    intro c
    rw [List.foldl_cons, ih, arrive_dump]

theorem arrive_conserved {c : Capture} {a : ℕ × Packet} (h : Conserved c) :
    Conserved (arrive c a) := by
  unfold arrive
  split
  · split <;> exact h
  · exact h

section Functions
variable {M : Type} {this : LocalNode M} {iface : String} {hops : HopTable} {c c' : Capture}

theorem capturePackets_conserved (hc : Conserved c) (h : capturePackets this c = .ok c') :
    Conserved c' := by
  refine forUpto_ok (fun _ c => Conserved c) hc h fun i c c' _ hc hround => ?_
  obtain ⟨info, -, hround⟩ := bind_ok_iff.mp hround
  obtain ⟨status, -, hround⟩ := bind_ok_iff.mp hround
  cases hround
  exact foldl_conserved (f := dumpPacket status) (fun c p => dumpPacket_conserved) info.queue hc

theorem captureStartIface_conserved (hc : Conserved c)
    (h : captureStartIface this iface hops c = .ok c') : Conserved c' := by
  obtain ⟨free, -, h⟩ := bind_ok_iff.mp h
  obtain ⟨c1, hc1, h⟩ := bind_ok_iff.mp h
  cases h
  suffices h : Conserved c1 from h
  refine forUpto_ok (fun _ c => Conserved c) ?_ hc1 fun i c c' _ hc hround => ?_
  · cases free <;> exact hc
  · obtain ⟨info, -, hround⟩ := bind_ok_iff.mp hround
    obtain ⟨filterExp, -, hround⟩ := bind_ok_iff.mp hround
    cases hround
    exact hc

theorem captureEndIface_conserved {strcmpNull : Exec Bool} (hc : Conserved c)
    (h : captureEndIface strcmpNull this iface c = .ok c') : Conserved c' := by
  unfold captureEndIface at h
  split at h
  · cases h; exact hc
  · obtain ⟨hit, -, h⟩ := bind_ok_iff.mp h
    refine capturePackets_conserved ?_ h
    cases hit <;> dsimp only <;> split <;> exact hc

/-- A replay conserves the packets exactly when all of them are replayed. -/
theorem replay_conserved_iff {j : Fin maxNodeFan} (hj : linkOfIface this iface = some j)
    (hc : Conserved c) {c1 : Capture} (h1 : captureReplayIface this iface hops c = .ok c1)
    (h2 : captureRemoveReplayedPackets this iface hops c1 = .ok c') :
    Conserved c' ↔ ∀ p ∈ c.dump, RoutedThrough this iface hops p := by
  obtain ⟨c1', c2', h1', h2', hdump, hdumped, hreplayed⟩ := replay_eq hops hj c
  cases h1.symm.trans h1'
  cases h2.symm.trans h2'
  unfold Conserved at hc ⊢
  rw [hdump, hdumped, hreplayed, List.append_nil]
  constructor
  · intro h p hp
    have hlen := (h.symm.trans hc).length_eq
    rw [List.length_append, List.length_append, Nat.add_left_cancel_iff,
      List.length_filter_eq_length_iff] at hlen
    simpa using hlen p hp
  · intro h
    rwa [List.filter_eq_self.mpr (by simpa using h)]

end Functions

/-! ### Runs -/

section Runs
variable {M : Type} [Field M] [Libm M] {S : Setup M}

theorem startUp_conserved {s : Daemon M} (h : startUp S = .ok s) : Conserved s.capture := by
  rw [(startUp_started h).capture]
  simp [Conserved, captureInit, openDump, Capture.dump]

variable [LinearOrder M] [FloorRing M]

/-- The interface that is replayed next is that of a link. -/
theorem Run.upIface {tr : List (Trace.Step (Daemon M) (Event M))} {s : Daemon M}
    (hrun : Run S tr s) : ∀ u ∈ s.upIface, ∃ j, linkOfIface s.this u = some j := by
  refine hrun.invariant (I := fun _ s => ∀ u ∈ s.upIface, ∃ j, linkOfIface s.this u = some j) ?_ ?_
  · intro s h0
    rw [(startUp_started h0).upIface]
    exact fun u hu => by cases hu
  · intro tr s ev s' hr hinv hstep u hu
    have hsame : linkOfIface s'.this u = linkOfIface s.this u :=
      linkOfIface_congr (by rw [hstep.links.nNeighbours, linkEffect_nNeighbours])
        (by rw [hstep.links.interfaces, linkEffect_interfaces]) u
    rw [hsame]
    rcases hstep.upIface with hup | ⟨i, hi, hup⟩
    · exact hinv u (hup ▸ hu)
    · rw [hup] at hu
      obtain rfl : s.this.interfaces i = u := by simpa using hu
      refine Option.isSome_iff_exists.mp (List.find?_isSome.mpr ⟨i, List.mem_finRange i, ?_⟩)
      simpa using hi

/-- When the replay timer fires, every packet in the dump is routed through the interface that has come
    up. -/
def ReplaysAll (st : Trace.Step (Daemon M) (Event M)) : Prop :=
  st.event.active = .replayTimer → ∀ u ∈ st.before.upIface,
    ∀ c ∈ (capturePackets st.before.this st.before.capture).toOption,
      ∀ p ∈ c.dump, RoutedThrough st.before.this u st.before.nextHops p

instance (st : Trace.Step (Daemon M) (Event M)) : Decidable (st.event.active = .replayTimer) :=
  match h : st.event.active with
  | .replayTimer => .isTrue rfl
  | .idle | .heartbeat _ | .routerLsa _ _ | .routerLsaSndTimer | .networkLsa _ | .networkLsaRequest _
  | .recomputationTimer | .timer _ => .isFalse (by simp)

instance (st : Trace.Step (Daemon M) (Event M)) : Decidable (ReplaysAll st) := by
  unfold ReplaysAll; infer_instance

/-- An iteration conserves the packets exactly when it does not drop any from a replay. -/
theorem Steps.conserved_iff {tr : List (Trace.Step (Daemon M) (Event M))} {s s' : Daemon M}
    {ev : Event M} (hb : S.build = .dtlsr) (hr : Run S tr s) (h : Steps S s ev s')
    (hc : Conserved s.capture) :
    Conserved s'.capture ↔ ReplaysAll { before := s, event := ev, after := s' } := by
  obtain ⟨c0, hc0, heffect⟩ := h.capture hb
  have hcons : Conserved (ev.arrived.foldl arrive c0) :=
    foldl_conserved (fun _ _ => arrive_conserved) _ (capturePackets_conserved hc hc0)
  have hdump := foldl_arrive_dump ev.arrived c0
  unfold ReplaysAll
  cases ha : ev.active with
  | replayTimer =>
    rw [ha] at heffect
    obtain ⟨u, c1, hu, h1, h2⟩ := heffect
    obtain ⟨j, hj⟩ := Run.upIface hr u hu
    rw [replay_conserved_iff hj hcons h1 h2, hdump]
    simp [show s.upIface = some u from hu, hc0, Except.toOption]
  | heartbeat source =>
    rw [ha] at heffect
    refine iff_of_true ?_ fun h => by cases h
    cases hrise : risingLink s.this source with
    | none =>
      simp only [CaptureEffect, CaptureHandled, hrise] at heffect
      rw [heffect]
      exact hcons
    | some i =>
      simp only [CaptureEffect, CaptureHandled, hrise] at heffect
      obtain ⟨t, -, hend⟩ := heffect
      exact captureEndIface_conserved hcons hend
  | timer i =>
    rw [ha] at heffect
    refine iff_of_true ?_ fun h => by cases h
    cases hl : linkOfTimer (linkEffect (.timer i) s.this) (s.this.timers i).fd .linkDown with
    | none =>
      simp only [CaptureEffect, hl] at heffect
      rw [heffect]
      exact hcons
    | some j =>
      simp only [CaptureEffect, hl] at heffect
      obtain ⟨t, hops, -, hstart⟩ := heffect
      exact captureStartIface_conserved hcons hstart
  | _ =>
    rw [ha] at heffect
    refine iff_of_true ?_ fun h => by cases h
    rw [show s'.capture = _ from heffect]
    exact hcons

/-- What a replay leaves in the dump, and what a run loses. The dump after a replay holds the packets
    that still wait exactly when none does; and a run conserves its packets exactly when at each replay
    none is left to wait. -/
theorem replay_keeps_iff (hb : S.build = .dtlsr) :
    (∀ (this : LocalNode M) (iface : String) (hops : HopTable) (c : Capture),
      (∃ j ∈ linkOfIface this iface, ∃ k, (hops k).nextHop = this.node.neighbourIds j) →
        ∃ c1 c2, captureReplayIface this iface hops c = .ok c1 ∧
          captureRemoveReplayedPackets this iface hops c1 = .ok c2 ∧
          (c2.dump = c.dump.filter (fun p => ¬RoutedThrough this iface hops p) ↔
            ∀ p ∈ c.dump, RoutedThrough this iface hops p)) ∧
      ∀ (tr : List (Trace.Step (Daemon M) (Event M))) (s : Daemon M), Run S tr s →
        (Trace.Along (fun _ st => Conserved st.after.capture) tr ↔
          Trace.Along (fun _ st => ReplaysAll st) tr) := by
  constructor
  · rintro this iface hops c ⟨j, hj, -⟩
    obtain ⟨c1, c2, h1, h2, hdump, -, -⟩ := replay_eq hops hj c
    refine ⟨c1, c2, h1, h2, ?_⟩
    rw [hdump, eq_comm, List.filter_eq_nil_iff]
    simp
  · intro tr s hrun
    refine hrun.along_iff (I := fun tr s => Run S tr s ∧ Conserved s.capture)
      (fun s h0 => ⟨.start h0, startUp_conserved h0⟩) ?_
    rintro tr st ⟨hr, hinv⟩ hstep
    have hiff := hstep.conserved_iff hb hr hinv
    exact ⟨hiff, fun hall => ⟨hr.step hstep, hiff.mpr hall⟩⟩

end Runs

/-! ### Two links down -/

/-- A packet for the network `10.0.n.0/24`. -/
def packetFor (n : ℕ) : Packet :=
  { headerLen := 20, src := inetAddr 192 168 0 1, dst := inetAddr 10 0 n 9, srcPort := 1000,
    dstPort := 2000 }

/-- Both links come up and go down, packets for the networks in `nets` arrive, and the first link comes
    up again. -/
def buffered (nets : List ℕ) : List (Event ℚ) :=
  [quietly (.heartbeat (inetAddr 10 0 0 2)), quietly (.heartbeat (inetAddr 10 0 1 3)),
    quietly (.timer 0), quietly (.timer 1),
    { arrived := nets.map fun n => (0, packetFor n), active := .idle },
    quietly (.heartbeat (inetAddr 10 0 0 2)), quietly .replayTimer]

theorem replay_keeps_firstOnly : ∃ tr s, Run (twoLinks .dtlsr id (pure false)) tr s ∧
    tr.map Trace.Step.event = buffered [0] ∧
    (∃ st ∈ tr, st.after.capture.replayed = [packetFor 0]) ∧
    Trace.Along (fun _ st => Conserved st.after.capture) tr := by
  obtain ⟨tr, s, hrun, hevents, hall, hreplayed⟩ := exists_run
    (S := twoLinks .dtlsr id (pure false)) (buffered [0])
    (P := fun tr => Trace.Along (fun _ st => ReplaysAll st) tr ∧
      ∃ st ∈ tr, st.after.capture.replayed = [packetFor 0])
    (by decide +kernel)
  exact ⟨tr, s, hrun, hevents, hreplayed, ((replay_keeps_iff rfl).2 tr s hrun).mpr hall⟩

/-- A router with one link. -/
def oneLink : LocalNode ℚ :=
  { zeroLocalNode with
    node := { zeroNode with nNeighbours := 1, neighbourIds := fun _ => 2 }
    interfaces := fun _ => "eth0" }

/-- With packets for two links in the dump, the replay for one drops those for the other, in one replay
    and in a run. -/
theorem replay_drops_second :
    (¬∀ (this : LocalNode ℚ) (iface : String) (hops : HopTable) (c c1 c2 : Capture),
      (∃ j ∈ linkOfIface this iface, ∃ k, (hops k).nextHop = this.node.neighbourIds j) →
        captureReplayIface this iface hops c = .ok c1 →
        captureRemoveReplayedPackets this iface hops c1 = .ok c2 →
        c2.dump = c.dump.filter (fun p => ¬RoutedThrough this iface hops p)) ∧
      ¬∀ (S : Setup ℚ) (tr : List (Trace.Step (Daemon ℚ) (Event ℚ))) (s : Daemon ℚ),
        S.build = .dtlsr → Run S tr s →
          Trace.Along (fun _ st => Conserved st.after.capture) tr := by
  constructor
  · intro h
    let c : Capture := { captureInit oneLink fun _ => none with files := fun _ => some [packetFor 1] }
    let hops : HopTable := fun _ => { hopZero with nextHop := 2, destIp := inetAddr 10 0 0 2 }
    have hj : linkOfIface oneLink "eth0" = some 0 := by decide +kernel
    obtain ⟨c1, c2, h1, h2, hdump, -, -⟩ := replay_eq hops hj c
    have hkept := h oneLink "eth0" hops c c1 c2 ⟨0, hj, 0, rfl⟩ h1 h2
    rw [hdump] at hkept
    revert hkept
    decide +kernel
  · intro h
    obtain ⟨tr, s, hrun, -, hlost⟩ := exists_run (S := twoLinks .dtlsr id (pure false))
      (buffered [0, 1]) (P := fun tr => ¬Trace.Along (fun _ st => Conserved st.after.capture) tr)
      (by decide +kernel)
    exact hlost (h _ tr s rfl hrun)

end Dtlsr
