import Dtlsr.DownLinks

/-!
    Whether `capture_end_iface` compares with an empty slot, along the runs of the driver. The slots
    are followed from the links alone (`slotsOf`): an interface goes into the first empty slot when its
    link goes down, and is taken out when the link comes up. -/

namespace Dtlsr
open Checked

section Fatal
variable {M : Type} [Field M] {S : Setup M}

/-- The same router, with `b` for what becomes of a comparison with `NULL`. -/
def withStrcmp (S : Setup M) (b : Exec Bool) : Setup M := { S with strcmpNull := b }

/-- `register_heartbeat` calls `capture_end_iface`, and does nothing else with `strcmp`. -/
theorem linkComesUp_call {i : Fin maxNodeFan} {s s' : Daemon M} (hb : S.build = .dtlsr)
    (h : linkComesUp S i s = .ok s') : ∃ t, SameLinks (setLinkStatus s.this i .linkUp) t ∧
      ∀ b, linkComesUp (withStrcmp S b) i s =
        captureEndIface b t (t.interfaces i) s.capture >>= fun capture => pure
          { s with
            this := t
            capture
            ticks := s.ticks + 1
            replayTimer := eventTimerArm s.replayTimer 0 replayDelayT
            upIface := some (t.interfaces i) } := by
  unfold linkComesUp at h
  rw [hb] at h
  obtain ⟨t, ht, -⟩ := bind_ok_iff.mp h
  refine ⟨t, toggleHistory_sameLinks ht, fun b => ?_⟩
  unfold linkComesUp
  rw [show (withStrcmp S b).build = .dtlsr from hb, show (withStrcmp S b).clock = S.clock from rfl]
  dsimp only
  rw [ht, ok_bind]
  rfl

variable [LinearOrder M] [FloorRing M] [Libm M]

/-- Apart from that call, an iteration with a heartbeat that raises a link does not depend on what a
    comparison with `NULL` does. -/
theorem iter_rise {ev : Event M} {s s' : Daemon M} {source : Ip} {i : Fin maxNodeFan}
    (hb : S.build = .dtlsr) (h : iter S ev s = .ok s') (ha : ev.active = .heartbeat source)
    (hr : risingLink s.this source = some i) :
    ∃ (t : LocalNode M) (c : Capture) (k : Capture → Exec (Daemon M)),
      SameLinks (linkEffect ev.active s.this) t ∧ SameBooks s.capture c ∧
      ∀ b, iter (withStrcmp S b) ev s = captureEndIface b t (t.interfaces i) c >>= k := by
  obtain ⟨s1, h1, h⟩ := bind_ok_iff.mp h
  obtain ⟨hs1, hcap⟩ := waitEvent_ok h1
  obtain ⟨c0, hc0, hc⟩ := hcap hb
  rw [ha] at h
  obtain ⟨s2, h2, h⟩ := bind_ok_iff.mp h
  have hs2 := runUpdateRoutingTable_ok h2
  have hthis : s2.this = s.this := by rw [hs2, hs1]
  have hcapture : s2.capture = s1.capture := by rw [hs2]
  obtain ⟨⟨s3, f⟩, h3, -⟩ := bind_ok_iff.mp h
  obtain ⟨⟨s3', u⟩, h3, -⟩ := bind_ok_iff.mp h3
  unfold registerHeartbeat at h3
  rw [hthis, hr] at h3
  obtain ⟨s4, h4, -⟩ := bind_ok_iff.mp h3
  obtain ⟨t, ht, hcall⟩ := linkComesUp_call hb h4
  refine ⟨t, s1.capture, fun capture =>
    afterEvent S { graphUpdated := true, lsaSendStatus := true }
      { s2 with
        this := t
        capture
        ticks := s2.ticks + 1
        replayTimer := eventTimerArm s2.replayTimer 0 replayDelayT
        upIface := some (t.interfaces i) } >>= captureAfter S (.heartbeat source), ?_, ?_, fun b => ?_⟩
  · rw [ha, linkEffect_rise hr]
    exact ht
  · rw [hc]
    exact (capturePackets_sameBooks hc0).trans (foldl_sameBooks arrive_sameBooks _ _)
  · unfold iter
    rw [show waitEvent (withStrcmp S b) ev.arrived s = waitEvent S ev.arrived s from rfl, h1, ok_bind,
      ha]
    dsimp only
    rw [h2, ok_bind]
    unfold handleEvent registerHeartbeat
    dsimp only
    rw [hthis, hr]
    dsimp only
    rw [hcall b, hcapture]
    simp only [bind_assoc, pure_bind]
    rfl

theorem iter_noRise {ev : Event M} {s s' : Daemon M} (h : iter S ev s = .ok s')
    (hnone : ∀ source, ev.active = .heartbeat source → risingLink s.this source = none)
    (b : Exec Bool) : iter (withStrcmp S b) ev s = .ok s' := by
  rw [← h]
  obtain ⟨s1, h1, h⟩ := bind_ok_iff.mp h
  obtain ⟨hs1, -⟩ := waitEvent_ok h1
  unfold iter
  rw [show waitEvent (withStrcmp S b) ev.arrived s = waitEvent S ev.arrived s from rfl, h1, ok_bind,
    ok_bind]
  cases ha : ev.active with
  | heartbeat source =>
    rw [ha] at h
    obtain ⟨s2, h2, -⟩ := bind_ok_iff.mp h
    have hthis : s2.this = s.this := by rw [runUpdateRoutingTable_ok h2, hs1]
    dsimp only
    rw [h2, ok_bind, ok_bind]
    unfold handleEvent registerHeartbeat
    dsimp only
    rw [hthis, hnone source ha]
    rfl
  | _ => rfl

end Fatal

/-! ### The slots, followed from the links -/

section Slots
variable {M : Type} [Field M] {S : Setup M}

def slotsStep (S : Setup M) (l : List (Option String)) (st : Trace.Step (Daemon M) (Event M)) :
    List (Option String) :=
  match risen st, fallen st with
  | some i, _ => Slots.remove l (ifaceName S i)
  | none, some i => Slots.put l (ifaceName S i)
  | none, none => l

/-- The slots after a run: an interface goes into the first empty slot when its link goes down, and is
    removed when the link comes up. -/
def slotsOf (S : Setup M) (tr : List (Trace.Step (Daemon M) (Event M))) : List (Option String) :=
  tr.foldl (slotsStep S) (List.replicate S.links.length none)

theorem slotsOf_snoc (tr : List (Trace.Step (Daemon M) (Event M)))
    (st : Trace.Step (Daemon M) (Event M)) :
    slotsOf S (tr ++ [st]) = slotsStep S (slotsOf S tr) st := by
  rw [slotsOf, List.foldl_append]
  rfl

/-- The link that comes up, if slots are occupied at all, has one before every empty slot. -/
def RisesAhead (S : Setup M) (tr : List (Trace.Step (Daemon M) (Event M)))
    (st : Trace.Step (Daemon M) (Event M)) : Prop :=
  ∀ i ∈ risen st, (slotsOf S tr).reduceOption ≠ [] → Slots.Ahead (ifaceName S i) (slotsOf S tr)

instance (tr : List (Trace.Step (Daemon M) (Event M))) (st : Trace.Step (Daemon M) (Event M)) :
    Decidable (RisesAhead S tr st) := by
  unfold RisesAhead; infer_instance

/-- The links that are down, whether or not they have been up. -/
def linksDown (S : Setup M) (s : Daemon M) : List (Fin maxNodeFan) :=
  (List.finRange maxNodeFan).filter fun i =>
    (i : ℕ) < S.links.length ∧ s.this.node.linkStatuses i = .linkDown

theorem mem_linksDown {s : Daemon M} {j : Fin maxNodeFan} : j ∈ linksDown S s ↔
    (j : ℕ) < S.links.length ∧ s.this.node.linkStatuses j = .linkDown := by
  simp [linksDown]

/-- The table and its count are what the links say, and every slot is the one of a link that is down. -/
structure SlotsKept (S : Setup M) (tr : List (Trace.Step (Daemon M) (Event M))) (s : Daemon M) :
    Prop where
  slots : s.capture.downIfaces = slotsOf S tr
  count : s.capture.nDownIfaces = (slotsOf S tr).reduceOption.length
  sub : (slotsOf S tr).reduceOption.Subperm ((linksDown S s).map (ifaceName S))

theorem SlotsKept.length_le {tr : List (Trace.Step (Daemon M) (Event M))} {s : Daemon M}
    (h : SlotsKept S tr s) : (slotsOf S tr).reduceOption.length ≤ (linksDown S s).length := by
  simpa using h.sub.length_le

theorem startUp_slotsKept [Libm M] {s : Daemon M} (h : startUp S = .ok s) : SlotsKept S [] s := by
  have hnil : (slotsOf S ([] : List (Trace.Step (Daemon M) (Event M)))).reduceOption = [] := by
    simp [slotsOf]
  have hcapture := (startUp_started h).capture
  refine ⟨?_, by rw [hnil, hcapture]; rfl, by rw [hnil]; exact List.nil_subperm⟩
  rw [hcapture]
  simp [captureInit, openDump, slotsOf, (startUp_linked h).1.count]

variable {tr : List (Trace.Step (Daemon M) (Event M))} {st : Trace.Step (Daemon M) (Event M)}
  {c : Capture} {i : Fin maxNodeFan}

theorem SlotsKept.still (h : SlotsKept S tr st.before) (hbooks : SameBooks st.before.capture c)
    (hsame : st.after.this.node.linkStatuses = st.before.this.node.linkStatuses)
    (hkept : SameBooks c st.after.capture) : SlotsKept S (tr ++ [st]) st.after := by
  have hall : slotsOf S (tr ++ [st]) = slotsOf S tr := by
    rw [slotsOf_snoc, slotsStep, (Dtlsr.still hsame).1, (Dtlsr.still hsame).2]
  have hlinks : linksDown S st.after = linksDown S st.before := by unfold linksDown; rw [hsame]
  have hc := hbooks.trans hkept
  refine ⟨?_, ?_, ?_⟩ <;> rw [hall]
  · rw [hc.downIfaces, h.slots]
  · rw [hc.nDownIfaces, h.count]
  · rw [hlinks]; exact h.sub

/-- A link that comes up is taken out, if the search for it ends ahead of the empty slots. -/
theorem SlotsKept.rise {strcmpNull : Exec Bool} {t : LocalNode M} (h : SlotsKept S tr st.before)
    (hbooks : SameBooks st.before.capture c) (hlen : t.node.nNeighbours = c.downIfaces.length)
    (hi : (i : ℕ) < S.links.length) (hdown : st.before.this.node.linkStatuses i = .linkDown)
    (hup : st.after.this.node.linkStatuses =
      Function.update st.before.this.node.linkStatuses i .linkUp)
    (hend : captureEndIface strcmpNull t (ifaceName S i) c = .ok st.after.capture)
    (hahead : RisesAhead S tr st) : SlotsKept S (tr ++ [st]) st.after := by
  have hall : slotsOf S (tr ++ [st]) = Slots.remove (slotsOf S tr) (ifaceName S i) := by
    rw [slotsOf_snoc, slotsStep, (risen_of_update hdown hup).1]
  have hlinks : (linksDown S st.before).Perm (i :: linksDown S st.after) := by
    refine Slots.filter_perm_cons (mem_linksDown.mpr ⟨hi, hdown⟩) fun j => ?_
    change j ∈ linksDown S st.after ↔ j ∈ linksDown S st.before ∧ j ≠ i
    rw [mem_linksDown, mem_linksDown, hup]
    by_cases hj : j = i
    · subst hj; simp
    · simp [hj]
  have hsub := (h.sub.trans (hlinks.map (ifaceName S)).subperm).erase (ifaceName S i)
  rw [List.map_cons, List.erase_cons_head, ← Slots.reduceOption_remove, ← hall] at hsub
  have hslots : c.downIfaces = slotsOf S tr := hbooks.downIfaces.trans h.slots
  have hcount := hbooks.nDownIfaces.trans h.count
  by_cases hnil : (slotsOf S tr).reduceOption = []
  · have hc := captureEndIface_zero (by rw [hcount, hnil]; rfl) hend
    have hkeep : slotsOf S (tr ++ [st]) = slotsOf S tr := by
      rw [hall, Slots.remove_of_not_mem (by rw [hnil]; exact List.not_mem_nil)]
    exact ⟨by rw [hc, hslots, hkeep], by rw [hc, hcount, hkeep], hsub⟩
  · have ha := hahead i (risen_of_update hdown hup).1 hnil
    have hn : c.nDownIfaces ≠ 0 := by rw [hcount]; simpa using hnil
    obtain ⟨h1, h2, -⟩ := captureEndIface_remove hlen hn (Or.inr (by rw [hslots]; exact ha)) hend
    refine ⟨by rw [h1, hslots, hall], ?_, hsub⟩
    have hpos := List.length_pos_of_mem ha.mem
    rw [h2, hcount, hall, Slots.reduceOption_remove, List.length_erase_of_mem ha.mem]
    omega

/-- A link that goes down finds an empty slot: fewer links are down than there are slots. -/
theorem SlotsKept.fall {hops : HopTable} {t : LocalNode M} (h : SlotsKept S tr st.before)
    (hbooks : SameBooks st.before.capture c) (hcount : c.downIfaces.length = S.links.length)
    (hlen : t.node.nNeighbours = c.downIfaces.length) (hi : (i : ℕ) < S.links.length)
    (hup : st.before.this.node.linkStatuses i = .linkUp)
    (hdown : st.after.this.node.linkStatuses =
      Function.update st.before.this.node.linkStatuses i .linkDown)
    (hstart : captureStartIface t (ifaceName S i) hops c = .ok st.after.capture) :
    SlotsKept S (tr ++ [st]) st.after := by
  have hall : slotsOf S (tr ++ [st]) = Slots.put (slotsOf S tr) (ifaceName S i) := by
    rw [slotsOf_snoc, slotsStep, (fallen_of_update hup hdown).1, (fallen_of_update hup hdown).2]
  have hlinks : (linksDown S st.after).Perm (i :: linksDown S st.before) := by
    refine Slots.filter_perm_cons (mem_linksDown.mpr ⟨hi, by rw [hdown]; simp⟩) fun j => ?_
    change j ∈ linksDown S st.before ↔ j ∈ linksDown S st.after ∧ j ≠ i
    rw [mem_linksDown, mem_linksDown, hdown]
    by_cases hj : j = i
    · subst hj; simp [hup]
    · simp [hj]
  have hslots : c.downIfaces = slotsOf S tr := hbooks.downIfaces.trans h.slots
  have hroom : none ∈ slotsOf S tr := by
    refine Slots.none_mem_of_length_lt ?_
    have hle : (linksDown S st.after).length ≤ S.links.length :=
      Slots.length_filter_le fun j hj => (mem_linksDown.mp hj).1
    rw [hlinks.length_eq, List.length_cons] at hle
    have hused := h.length_le
    rw [← hslots, hcount, hslots]
    omega
  have hput := Slots.reduceOption_put (ifaceName S i) hroom
  obtain ⟨h1, h2, -⟩ := captureStartIface_books hlen hstart
  refine ⟨by rw [h1, hslots, hall], ?_, ?_⟩
  · rw [h2, hbooks.nDownIfaces, h.count, hall, hput.length_eq]; simp
  · rw [hall]
    refine hput.subperm.trans ?_
    exact ((List.subperm_cons (ifaceName S i)).mpr h.sub).trans
      (hlinks.map (ifaceName S)).symm.subperm

/-- In a full table the link that comes up has its slot: every link that is down has one. -/
theorem SlotsKept.none_mem (h : SlotsKept S tr st.before)
    (hlen : (slotsOf S tr).length = S.links.length) (hi : (i : ℕ) < S.links.length)
    (hdown : st.before.this.node.linkStatuses i = .linkDown)
    (hahead : ¬Slots.Ahead (ifaceName S i) (slotsOf S tr)) : none ∈ slotsOf S tr := by
  by_contra hfull
  have hle : (linksDown S st.before).length ≤ S.links.length :=
    Slots.length_filter_le fun j hj => (mem_linksDown.mp hj).1
  have hperm := h.sub.perm_of_length_le (by
    rw [List.length_map, Slots.length_reduceOption_of_full hfull, hlen]; exact hle)
  have hmem : ifaceName S i ∈ (linksDown S st.before).map (ifaceName S) :=
    List.mem_map_of_mem (mem_linksDown.mpr ⟨hi, hdown⟩)
  exact hahead (Slots.ahead_of_full hfull (List.reduceOption_mem_iff.mp (hperm.mem_iff.mpr hmem)))

end Slots

/-! ### Runs -/

section Runs
variable {M : Type} [Field M] [LinearOrder M] [FloorRing M] [Libm M] {S : Setup M}

/-- The link that a heartbeat raises is the one that comes up. -/
theorem Steps.risen_eq {ev : Event M} {s s' : Daemon M} {source : Ip} {i : Fin maxNodeFan}
    (h : Steps S s ev s') (ha : ev.active = .heartbeat source)
    (hr : risingLink s.this source = some i) :
    s.this.node.linkStatuses i = .linkDown ∧ s'.this.node.linkStatuses =
      Function.update s.this.node.linkStatuses i .linkUp := by
  refine ⟨(risingLink_some hr).2.1, h.links.linkStatuses.trans ?_⟩
  rw [ha, linkEffect_rise hr]
  rfl

/-- No link comes up otherwise. -/
theorem Steps.risen_none {ev : Event M} {s s' : Daemon M} (h : Steps S s ev s')
    (hn : ∀ source, ev.active = .heartbeat source → risingLink s.this source = none) :
    risen { before := s, event := ev, after := s' } = none := by
  have hlinks := h.links.linkStatuses
  cases ha : ev.active with
  | heartbeat source =>
    rw [ha, linkEffect_quiet (hn source ha)] at hlinks
    exact (still hlinks).1
  | timer i =>
    rw [ha] at hlinks
    cases hr : linkOfTimer s.this (s.this.timers i).fd .linkUp with
    | none => rw [linkEffect_idle hr] at hlinks; exact (still hlinks).1
    | some j =>
      rw [linkEffect_fall hr] at hlinks
      exact (fallen_of_update (linkOfTimer_some hr).2.2 hlinks).1
  | _ =>
    rw [ha] at hlinks
    exact (still hlinks).1

/-- `capture_end_iface` compares with no empty slot exactly when every link that comes up while slots
    are occupied has one before every empty slot. -/
theorem noNullCompare_iff (hb : S.build = .dtlsr)
    {tr : List (Trace.Step (Daemon M) (Event M))} {s : Daemon M} (hrun : Run S tr s) :
    Trace.Along (fun _ st => iter (withStrcmp S (.error .nullDeref)) st.event st.before ≠
        .error .nullDeref) tr ↔ Trace.Along (RisesAhead S) tr := by
  refine hrun.along_iff (I := fun tr s => Run S tr s ∧ SlotsKept S tr s)
    (fun s h0 => ⟨.start h0, startUp_slotsKept h0⟩) ?_
  rintro tr st ⟨hr, hinv⟩ hstep
  obtain ⟨c, hbooks, hmove⟩ := hstep.moves hb (Run.linked hr)
  have hlen : c.downIfaces.length = S.links.length := by rw [hbooks.downIfaces, Run.slots hb hr]
  refine ⟨?_, fun hahead => ⟨hr.step hstep, ?_⟩⟩
  · by_cases hrise : ∃ source i, st.event.active = .heartbeat source ∧
        risingLink st.before.this source = some i
    · obtain ⟨source, i, ha, hri⟩ := hrise
      obtain ⟨hdown, hup⟩ := hstep.risen_eq ha hri
      obtain ⟨t, c', k, ht, hbooks', hiter⟩ := iter_rise hb hstep.2 ha hri
      have hl := Run.linked hr
      have hi : (i : ℕ) < S.links.length := by
        have := (risingLink_some hri).1.1
        rw [hl.count] at this
        omega
      have hlt : Linked S t := (hl.linkEffect st.event.active).of_sameLinks ht
      rw [hlt.ifaceName hi] at hiter
      have hslots : c'.downIfaces = slotsOf S tr := hbooks'.downIfaces.trans hinv.slots
      have hlen' : t.node.nNeighbours = c'.downIfaces.length := by
        rw [hlt.count, hbooks'.downIfaces, Run.slots hb hr]
      have hoccupied : c'.nDownIfaces ≠ 0 ↔ (slotsOf S tr).reduceOption ≠ [] := by
        rw [hbooks'.nDownIfaces, hinv.count]; simp
      have hrises : RisesAhead S tr st ↔
          (c'.nDownIfaces ≠ 0 → Slots.Ahead (ifaceName S i) c'.downIfaces) := by
        unfold RisesAhead
        rw [(risen_of_update hdown hup).1, hoccupied, hslots]
        simp
      rw [hrises]
      by_cases hq : c'.nDownIfaces ≠ 0 → Slots.Ahead (ifaceName S i) c'.downIfaces
      · refine iff_of_true ?_ hq
        rw [hiter, captureEndIface_ahead hlen' hq _ S.strcmpNull, ← hiter]
        change iter S st.event st.before ≠ _
        rw [hstep.2]
        simp
      · refine iff_of_false ?_ hq
        obtain ⟨hn, hq⟩ := Classical.not_imp.mp hq
        have hnone : none ∈ c'.downIfaces := by
          rw [hslots] at hq ⊢
          exact hinv.none_mem (by rw [← hinv.slots, Run.slots hb hr]) hi hdown hq
        rw [hiter, captureEndIface_null hlen' hn hq hnone]
        simp
    · have hnone : ∀ source, st.event.active = .heartbeat source →
          risingLink st.before.this source = none := fun source ha =>
        Option.eq_none_iff_forall_ne_some.mpr fun i hi => hrise ⟨source, i, ha, hi⟩
      have hrisen : risen st = none := hstep.risen_none hnone
      refine iff_of_true ?_ fun i hi => by rw [hrisen] at hi; cases hi
      rw [iter_noRise hstep.2 hnone]
      simp
  · rcases hmove with ⟨hsame, hkept⟩ | ⟨i, hi, hdown, hup, t, ht, hend⟩ |
      ⟨i, hi, hup, hdown, t, hops, ht, hstart⟩
    · exact hinv.still hbooks hsame hkept
    · exact hinv.rise hbooks (by rw [ht.count, hlen]) hi hdown hup hend hahead
    · exact hinv.fall hbooks hlen (by rw [ht.count, hlen]) hi hup hdown hstart

end Runs

/-- Both links go down, and come up in the order in which they went down. -/
def inTurn : List (Event ℚ) :=
  [quietly (.heartbeat (inetAddr 10 0 0 2)), quietly (.heartbeat (inetAddr 10 0 1 3)),
    quietly (.timer 0), quietly (.timer 1), quietly (.heartbeat (inetAddr 10 0 0 2)),
    quietly (.heartbeat (inetAddr 10 0 1 3))]

/-- The link that went down last comes up first, and then the other. -/
def inReverse : List (Event ℚ) :=
  [quietly (.heartbeat (inetAddr 10 0 0 2)), quietly (.heartbeat (inetAddr 10 0 1 3)),
    quietly (.timer 0), quietly (.timer 1), quietly (.heartbeat (inetAddr 10 0 1 3)),
    quietly (.heartbeat (inetAddr 10 0 0 2))]

theorem noNullCompare_inReverse : ∃ tr s, Run (twoLinks .dtlsr id (pure false)) tr s ∧
    tr.map Trace.Step.event = inReverse ∧ Trace.Along (fun _ st =>
      iter (withStrcmp (twoLinks .dtlsr id (pure false)) (.error .nullDeref)) st.event st.before ≠
        .error .nullDeref) tr := by
  obtain ⟨tr, s, hrun, hevents, hahead⟩ := exists_run (S := twoLinks .dtlsr id (pure false)) inReverse
    (P := fun tr => Trace.Along (RisesAhead (twoLinks .dtlsr id (pure false))) tr)
    (by decide +kernel)
  exact ⟨tr, s, hrun, hevents, (noNullCompare_iff rfl hrun).mpr hahead⟩

/-- In turn, the second search finds the first slot empty. -/
theorem compares_null_inTurn : ¬∀ (S : Setup ℚ) (tr : List (Trace.Step (Daemon ℚ) (Event ℚ)))
    (s : Daemon ℚ), S.build = .dtlsr → Run S tr s → Trace.Along (fun _ st =>
      iter (withStrcmp S (.error .nullDeref)) st.event st.before ≠ .error .nullDeref) tr := by
  intro h
  obtain ⟨tr, s, hrun, -, hnull⟩ := exists_run (S := twoLinks .dtlsr id (pure false)) inTurn
    (P := fun tr => ¬Trace.Along (fun _ st => iter (withStrcmp (twoLinks .dtlsr id (pure false))
      (.error .nullDeref)) st.event st.before ≠ .error .nullDeref) tr) (by decide +kernel)
  exact hnull (h _ tr s rfl hrun)

end Dtlsr
