import Mathlib.Algebra.Order.Group.Multiset
import Mathlib.Tactic.Abel
import Dtlsr.Drains
import Dtlsr.Replays

/-!
    What becomes of the packets that the handles accept and whose IP header is of at least 20 bytes, over
    whole runs. Each is entered once: it still waits in its handle, was passed over because the router was
    not capturing or its own link was up, is in the dump, has been replayed, or was lost when the dump file
    was opened anew. So no packet is replayed that has not arrived, or more often than it has. -/

namespace Dtlsr
open Checked

/-! ### What a function adds to the dump -/

/-- What is dumped is added to the dump file, and nothing is replayed. -/
def Dumps (c c' : Capture) : Prop :=
  ∃ l, c'.dumped = c.dumped ++ l ∧ c'.dump = c.dump ++ l ∧ c'.replayed = c.replayed

theorem Dumps.refl (c : Capture) : Dumps c c :=
  ⟨[], (List.append_nil _).symm, (List.append_nil _).symm, rfl⟩

theorem Dumps.trans {c c' c'' : Capture} (h : Dumps c c') (h' : Dumps c' c'') : Dumps c c'' := by
  obtain ⟨l, hdumped, hdump, hreplayed⟩ := h
  obtain ⟨l', hdumped', hdump', hreplayed'⟩ := h'
  exact ⟨l ++ l', by rw [hdumped', hdumped, List.append_assoc], by rw [hdump', hdump, List.append_assoc],
    hreplayed'.trans hreplayed⟩

theorem dumpPacket_dumps (status : LinkState) (c : Capture) (p : Packet) :
    Dumps c (dumpPacket status c p) := by
  unfold dumpPacket
  split_ifs
  · exact .refl c
  · exact .refl c
  · exact .refl c
  · exact ⟨[p], rfl, by simp [Capture.dump], rfl⟩

theorem foldl_dumps {α : Type} {f : Capture → α → Capture} (hf : ∀ c a, Dumps c (f c a)) :
    ∀ (l : List α) (c : Capture), Dumps c (l.foldl f c) := by
  intro l
  induction l with
  | nil => exact .refl
  | cons a l ih => exact fun c => (hf c a).trans (ih (f c a))

theorem arrive_dumps (c : Capture) (a : ℕ × Packet) : Dumps c (arrive c a) := by
  unfold arrive
  split
  · split <;> exact .refl c
  · exact .refl c

section Functions
variable {M : Type} {this : LocalNode M} {iface : String} {hops : HopTable} {c c' : Capture}

theorem capturePackets_dumps (h : capturePackets this c = .ok c') : Dumps c c' := by
  refine forUpto_ok (fun _ t => Dumps c t) (.refl c) h fun i t t' _ ht hround => ?_
  obtain ⟨info, -, hround⟩ := bind_ok_iff.mp hround
  obtain ⟨status, -, hround⟩ := bind_ok_iff.mp hround
  cases hround
  exact ht.trans (foldl_dumps (dumpPacket_dumps status) info.queue t)

theorem captureStartIface_dumps (h : captureStartIface this iface hops c = .ok c') : Dumps c c' := by
  obtain ⟨free, -, h⟩ := bind_ok_iff.mp h
  obtain ⟨c1, hc1, h⟩ := bind_ok_iff.mp h
  cases h
  suffices h : Dumps c c1 from h
  refine forUpto_ok (fun _ t => Dumps c t) ?_ hc1 fun i t t' _ ht hround => ?_
  · cases free <;> exact .refl c
  · obtain ⟨info, -, hround⟩ := bind_ok_iff.mp hround
    obtain ⟨filterExp, -, hround⟩ := bind_ok_iff.mp hround
    cases hround
    exact ht

theorem captureEndIface_dumps {strcmpNull : Exec Bool}
    (h : captureEndIface strcmpNull this iface c = .ok c') : Dumps c c' := by
  unfold captureEndIface at h
  split at h
  · cases h
    exact .refl c
  · obtain ⟨hit, -, h⟩ := bind_ok_iff.mp h
    refine Dumps.trans ?_ (capturePackets_dumps h)
    cases hit <;> dsimp only <;> split <;> exact .refl c

end Functions

/-! ### The entries of an iteration -/

section Entries
variable {M : Type}

/-- What is in the dump when an iteration begins its replay. -/
def dumpToReplay (st : Trace.Step (Daemon M) (Event M)) : List Packet :=
  if st.event.active = .replayTimer then
    (capturePackets st.before.this st.before.capture).toOption.elim [] Capture.dump
  else []

/-- The packet is routed through the interface that has come up. -/
def RoutedUp (s : Daemon M) (p : Packet) : Prop :=
  ∃ u ∈ s.upIface, RoutedThrough s.this u s.nextHops p

instance (s : Daemon M) (p : Packet) : Decidable (RoutedUp s p) := by
  unfold RoutedUp; infer_instance

/-- What an iteration replays. -/
def sent (st : Trace.Step (Daemon M) (Event M)) : List Packet :=
  (dumpToReplay st).filter fun p => RoutedUp st.before p

/-- What is in the dump and not replayed when the dump file is opened anew. -/
def lost (st : Trace.Step (Daemon M) (Event M)) : List Packet :=
  (dumpToReplay st).filter fun p => ¬RoutedUp st.before p

/-- The packets that the handles have accepted. One with a header of less than 20 bytes, which
    `dump_packet` drops, is not counted. -/
def accepted (tr : List (Trace.Step (Daemon M) (Event M))) : List Packet :=
  (List.finRange maxNodeFan).flatMap fun i => tr.flatMap fun st => queued st i

/-- Those that the handles have handed on while `is_capturing` was not set, or their own link was up. A
    link can be down while it is not set. -/
def passedOver (tr : List (Trace.Step (Daemon M) (Event M))) : List Packet :=
  (List.finRange maxNodeFan).flatMap fun i =>
    ((tr.flatMap fun st => handedOn st i).filter fun h => !h.2).map Prod.fst

/-- Those that the handles still have ready. -/
def ready (c : Capture) : List Packet := (List.finRange maxNodeFan).flatMap fun i => waiting c i

variable [Field M] [LinearOrder M] [FloorRing M] [Libm M] {S : Setup M} {s s' : Daemon M}
  {tr : List (Trace.Step (Daemon M) (Event M))} {ev : Event M}

theorem Steps.dumps (hb : S.build = .dtlsr) (h : Steps S s ev s') (ha : ev.active ≠ .replayTimer) :
    Dumps s.capture s'.capture := by
  obtain ⟨c0, hc0, heffect⟩ := h.capture hb
  refine ((capturePackets_dumps hc0).trans (foldl_dumps arrive_dumps ev.arrived c0)).trans ?_
  cases hactive : ev.active with
  | replayTimer => exact absurd hactive ha
  | heartbeat source =>
    rw [hactive] at heffect
    cases hrise : risingLink s.this source with
    | none =>
      simp only [CaptureEffect, CaptureHandled, hrise] at heffect
      rw [heffect]
      exact .refl _
    | some i =>
      simp only [CaptureEffect, CaptureHandled, hrise] at heffect
      obtain ⟨t, -, hend⟩ := heffect
      exact captureEndIface_dumps hend
  | timer i =>
    rw [hactive] at heffect
    cases hl : linkOfTimer (linkEffect (.timer i) s.this) (s.this.timers i).fd .linkDown with
    | none =>
      simp only [CaptureEffect, hl] at heffect
      rw [heffect]
      exact .refl _
    | some j =>
      simp only [CaptureEffect, hl] at heffect
      obtain ⟨t, hops, -, hstart⟩ := heffect
      exact captureStartIface_dumps hstart
  | _ =>
    rw [hactive] at heffect
    rw [show s'.capture = _ from heffect]
    exact .refl _

/-- A replay sends what is routed through the interface, and empties the dump. -/
theorem Steps.replays (hb : S.build = .dtlsr) (hr : Run S tr s) (h : Steps S s ev s')
    (ha : ev.active = .replayTimer) : s.upIface.isSome ∧ ∃ c, Dumps s.capture c ∧
      dumpToReplay { before := s, event := ev, after := s' } = c.dump ∧ s'.capture.dump = [] ∧
      s'.capture.dumped = c.dumped ∧ s'.capture.replayed = c.replayed ++
        sent { before := s, event := ev, after := s' } := by
  obtain ⟨c0, hc0, heffect⟩ := h.capture hb
  rw [ha] at heffect
  obtain ⟨u, c1, hu, h1, h2⟩ := heffect
  replace hu : s.upIface = some u := hu
  obtain ⟨j, hj⟩ := Run.upIface hr u hu
  obtain ⟨c1', c2, h1', h2', hdump, hdumped, hreplayed⟩ :=
    replay_eq s.nextHops hj (ev.arrived.foldl arrive c0)
  cases h1.symm.trans h1'
  cases h2.symm.trans h2'
  have hbegin : dumpToReplay { before := s, event := ev, after := s' } =
      (ev.arrived.foldl arrive c0).dump := by
    rw [dumpToReplay, if_pos ha, hc0, foldl_arrive_dump]
    rfl
  refine ⟨by rw [hu]; rfl, _, (capturePackets_dumps hc0).trans (foldl_dumps arrive_dumps ev.arrived c0),
    hbegin, hdump, hdumped, ?_⟩
  rw [hreplayed, sent, hbegin]
  simp [RoutedUp, hu]

/-- What is dumped in an iteration, and what was in the dump before it, is in the dump after it, or has
    been sent or lost. -/
theorem Steps.entries (hb : S.build = .dtlsr) (hr : Run S tr s) (h : Steps S s ev s') :
    s'.capture.replayed = s.capture.replayed ++ sent { before := s, event := ev, after := s' } ∧
      (s'.capture.dumped + s.capture.dump : Multiset Packet) = s.capture.dumped + s'.capture.dump +
        sent { before := s, event := ev, after := s' } +
        lost { before := s, event := ev, after := s' } := by
  by_cases ha : ev.active = .replayTimer
  · obtain ⟨-, c, ⟨l, hdumped, hdump, hreplayed⟩, hbegin, hempty, hdumped', hreplayed'⟩ :=
      h.replays hb hr ha
    refine ⟨by rw [hreplayed', hreplayed], ?_⟩
    have hparts := Multiset.filter_add_not (fun p => RoutedUp s p) (c.dump : Multiset Packet)
    rw [hdumped', hempty, hdumped, sent, lost, hbegin, ← Multiset.filter_coe, ← Multiset.filter_coe,
      Multiset.coe_nil, add_zero, add_assoc (s.capture.dumped : Multiset Packet), hparts, hdump,
      ← Multiset.coe_add, ← Multiset.coe_add]
    abel
  · obtain ⟨l, hdumped, hdump, hreplayed⟩ := h.dumps hb ha
    rw [sent, lost, dumpToReplay, if_neg ha, hdumped, hdump, hreplayed, ← Multiset.coe_add,
      ← Multiset.coe_add]
    refine ⟨(List.append_nil _).symm, ?_⟩
    simp only [List.filter_nil, Multiset.coe_nil]
    abel

end Entries

/-! ### Runs -/

section Runs
variable {M : Type} [Field M] [LinearOrder M] [FloorRing M] [Libm M] {S : Setup M} {s : Daemon M}
  {tr : List (Trace.Step (Daemon M) (Event M))}

theorem Run.entries (hb : S.build = .dtlsr) (hrun : Run S tr s) :
    s.capture.replayed = tr.flatMap sent ∧ (s.capture.dumped : Multiset Packet) =
      s.capture.replayed + s.capture.dump + (tr.flatMap lost : List Packet) := by
  refine hrun.invariant (I := fun tr s => s.capture.replayed = tr.flatMap sent ∧
    (s.capture.dumped : Multiset Packet) =
      s.capture.replayed + s.capture.dump + (tr.flatMap lost : List Packet)) ?_ ?_
  · intro s h0
    rw [(startUp_started h0).capture]
    exact ⟨rfl, by simp [captureInit, openDump, Capture.dump]⟩
  · rintro tr s ev s' hr ⟨hsent, hbooked⟩ hstep
    obtain ⟨hreplayed, hmoved⟩ := hstep.entries hb hr
    simp only [List.flatMap_append, List.flatMap_singleton, ← Multiset.coe_add]
    refine ⟨by rw [hreplayed, hsent], add_right_cancel (b := (s.capture.dump : Multiset Packet)) ?_⟩
    rw [hmoved, hbooked, hreplayed, ← Multiset.coe_add]
    abel

/-- What a handle has accepted, it has handed on or still has ready. -/
theorem Run.accepted (hb : S.build = .dtlsr) (hrun : Run S tr s) :
    (Dtlsr.accepted tr : Multiset Packet) = ready s.capture + passedOver tr + s.capture.dumped := by
  rw [Multiset.coe_eq_coe.mpr (Run.dumped hb hrun)]
  have hlink : ∀ i : Fin maxNodeFan, (tr.flatMap fun st => queued st i).Perm
      (waiting s.capture i ++ (((tr.flatMap fun st => Dtlsr.handedOn st i).filter fun h => !h.2).map
        Prod.fst ++ written (tr.flatMap fun st => Dtlsr.handedOn st i))) := by
    intro i
    have hfates := congrArg (List.map Prod.fst) (Run.handedOn hb hrun i)
    have hqueued : (tr.flatMap fun st => queued st i) =
        (tr.flatMap fun st => Dtlsr.handedOn st i).map Prod.fst ++ waiting s.capture i := by
      simpa [List.map_flatMap, drained, fates, handed, Function.comp_def] using hfates.symm
    rw [hqueued]
    refine List.perm_append_comm.trans (List.Perm.append_left _ ?_)
    rw [written, ← List.map_append]
    refine List.Perm.map _ (List.perm_append_comm.trans ?_).symm
    exact List.filter_append_perm Prod.snd _
  have hall := (List.Perm.flatMap_left (List.finRange maxNodeFan) fun i _ => hlink i).trans
    ((List.flatMap_append_perm _ _ _).symm.trans ((List.flatMap_append_perm _ _ _).symm.append_left _))
  rw [add_assoc, Multiset.coe_add, Multiset.coe_add]
  exact Multiset.coe_eq_coe.mpr hall

theorem Run.lastRisen (hb : S.build = .dtlsr) (hrun : Run S tr s) :
    s.upIface = (Dtlsr.lastRisen tr).map (ifaceName S) := by
  refine hrun.invariant (I := fun tr s => s.upIface = (Dtlsr.lastRisen tr).map (ifaceName S)) ?_ ?_
  · exact fun s h0 => (startUp_started h0).upIface
  · intro tr s ev s' hr hup hstep
    have hreplay : ReplayStep S { before := s, event := ev, after := s' } :=
      hstep.replay hb (Run.linked hr)
    rw [lastRisen_snoc]
    cases hreplay with
    | expires _ hrise _ hsame => rw [hrise, Option.none_or, hsame, hup]
    | rises _ i hrise _ hnew => rw [hrise, Option.some_or, hnew, Option.map_some]
    | other _ hrise _ hsame => rw [hrise, Option.none_or, hsame, hup]

/-- The ledger of the packets. What the handles have accepted is still ready in them, was passed over, has
    been replayed, is in the dump or was lost from it, each packet as often as it was accepted; and what
    has been replayed was routed through the interface of the link that had come up last. -/
theorem packet_ledger (hb : S.build = .dtlsr) (hrun : Run S tr s) :
    (Dtlsr.accepted tr : Multiset Packet) = ready s.capture + passedOver tr +
        s.capture.replayed + s.capture.dump + (tr.flatMap lost : List Packet) ∧
      s.capture.replayed = tr.flatMap sent ∧
      Trace.Along (fun pre st => ∀ p ∈ sent st, ∃ i, Dtlsr.lastRisen pre = some i ∧
        RoutedThrough st.before.this (ifaceName S i) st.before.nextHops p) tr := by
  obtain ⟨hsent, hbooked⟩ := hrun.entries hb
  refine ⟨?_, hsent, ?_⟩
  · rw [hrun.accepted hb, hbooked]
    abel
  · rintro pre st post rfl p hp
    obtain ⟨u, hu, hrouted⟩ := of_decide_eq_true (List.mem_filter.mp hp).2
    rw [Run.lastRisen hb hrun.until.1] at hu
    obtain ⟨i, hi, rfl⟩ := Option.mem_map.mp hu
    exact ⟨i, hi, hrouted⟩

end Runs

/-- Of the packets for two links that are down, one is replayed and the other lost. -/
theorem packet_ledger_secondLost : ∃ tr s, Run (twoLinks .dtlsr id (pure false)) tr s ∧
    tr.map Trace.Step.event = buffered [0, 1] ∧ s.capture.replayed = [packetFor 0] ∧
    (accepted tr : Multiset Packet) = ready s.capture + passedOver tr + [packetFor 0] +
      s.capture.dump + [packetFor 1] := by
  obtain ⟨tr, s, hrun, hevents, hsent, hlost⟩ := exists_run
    (S := twoLinks .dtlsr id (pure false)) (buffered [0, 1])
    (P := fun tr => tr.flatMap sent = [packetFor 0] ∧ tr.flatMap lost = [packetFor 1])
    (by decide +kernel)
  obtain ⟨hledger, hreplayed, -⟩ := packet_ledger rfl hrun
  rw [hreplayed, hsent, hlost] at hledger
  exact ⟨tr, s, hrun, hevents, hreplayed.trans hsent, hledger⟩

end Dtlsr
