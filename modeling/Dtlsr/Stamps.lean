import Dtlsr.Provenance

/-!
    The time of a record as its version. The clock of a router counts milliseconds, and one iteration reads
    it several times, so that records of a router may have the same time. But if the clock does not go
    back, and has moved since it was last read whenever a link changes, records of one time are one
    record: so a node and a time determine the record, wherever it is held. -/

namespace Dtlsr
open Checked

/-! ### One router -/

section Router
variable {M : Type} [Field M] {S : Setup M} {s s' d0 : Daemon M} {ev : Event M} {r : Node M}
  {tr : List (Trace.Step (Daemon M) (Event M))} {issued issued' : Node M → Prop}

/-- The clock does not go back, and whenever a link changes it has moved since it was last read. -/
structure ClockMoves (S : Setup M) (tr : List (Trace.Step (Daemon M) (Event M))) : Prop where
  mono : Monotone S.clock
  moves : ∀ st ∈ tr, LinksChanged st → S.clock (st.before.ticks - 1) < S.clock st.before.ticks

theorem ClockMoves.before {tr' : List (Trace.Step (Daemon M) (Event M))} (h : ClockMoves S (tr ++ tr')) :
    ClockMoves S tr := ⟨h.mono, fun st hst => h.moves st (List.mem_append_left _ hst)⟩

variable [LinearOrder M] [FloorRing M] [Libm M]

omit [FloorRing M] in
/-- The handler of an event that changes a link has the router's LSA sent. -/
theorem Handles.announces {a : Active M} {f : Flags} (h : Handles S s a s' f)
    (hf : f.lsaSendStatus = false) :
    (linkEffect a s.this).node.linkStatuses = s.this.node.linkStatuses := by
  cases h with
  | riseLsr | riseDtlsr | timeout | routerLsaSndTimer => cases hf
  | beat source quiet => rw [linkEffect_quiet quiet, resetTimers_node]
  | stale i none => rw [linkEffect_idle none]
  | _ => rfl

/-- An iteration that sends no LSA of the router's own changes none of its links. -/
theorem Steps.still (h : Steps S s ev s') (horig : s'.originated = s.originated) :
    s'.this.node.linkStatuses = s.this.node.linkStatuses := by
  obtain ⟨c, -, ⟨-, rfl⟩ | ⟨_, _, s3, f, s4, h3, h4, h5⟩⟩ := h.calls
  · rfl
  · have hH := handleEvent_ok h3
    rw [h.links.linkStatuses]
    refine (handleEvent_handles h3).announces ?_
    cases hf : f.lsaSendStatus with
    | false => rfl
    | true =>
      have hafter := afterEvent_sends h4 hH.updateRouting
      rw [hf, if_pos rfl, hH.originated] at hafter
      rw [(captureAfter_ok h5).1] at horig
      dsimp only at horig
      rw [hafter.2] at horig
      simp at horig

/-- An iteration that changes a link reads the clock. -/
theorem Steps.reads (h : Steps S s ev s')
    (hlinks : s'.this.node.linkStatuses ≠ s.this.node.linkStatuses) : s.ticks < s'.ticks := by
  obtain ⟨-, horig | ⟨t, now, -, hge, hlt, -⟩⟩ := h.originated
  · exact absurd (h.still horig) hlinks
  · omega

omit [FloorRing M] in
/-- A handler that changes no link changes nothing that a record shows. -/
theorem Handles.sameRecord {a : Active M} {f : Flags} (h : Handles S s a s' f)
    (hlinks : (linkEffect a s.this).node.linkStatuses = s.this.node.linkStatuses) (now : ℕ) :
    recordAt S s'.this now = recordAt S s.this now := by
  have hchanged : ∀ {i : Fin maxNodeFan} {st : LinkState} {t : LocalNode M}, s.this.node.linkStatuses i ≠ st →
      linkEffect a s.this = t → t.node.linkStatuses i = st → False := by
    rintro i st t hst rfl hnew
    rw [hlinks] at hnew
    exact hst hnew
  cases h with
  | riseLsr source i build rise =>
    refine (hchanged (i := i) ?_ (linkEffect_rise rise) (Function.update_self ..)).elim
    rw [(risingLink_some rise).2.1]
    decide
  | riseDtlsr source i ts c build rise history call =>
    refine (hchanged (i := i) ?_ (linkEffect_rise rise) (Function.update_self ..)).elim
    rw [(risingLink_some rise).2.1]
    decide
  | timeout i j t t' g link history call =>
    refine (hchanged (i := j) ?_ (linkEffect_fall link) (Function.update_self ..)).elim
    rw [(linkOfTimer_some link).2.2]
    decide
  | _ => rfl

/-- As long as no link changes, a router makes the same record at the same time. -/
theorem Steps.sameRecord (h : Steps S s ev s')
    (hlinks : s'.this.node.linkStatuses = s.this.node.linkStatuses) (now : ℕ) :
    recordAt S s'.this now = recordAt S s.this now := by
  have heffect := h.links.linkStatuses
  obtain ⟨c, -, ⟨-, rfl⟩ | ⟨_, _, s3, f, s4, h3, h4, h5⟩⟩ := h.calls
  · rfl
  · have hhandled := (handleEvent_handles h3).sameRecord (heffect.symm.trans hlinks) now
    obtain ⟨hquiet, hstamps⟩ := afterEvent_stamps h4 (handleEvent_ok h3).updateRouting
    rw [(captureAfter_ok h5).1]
    refine Eq.trans ?_ hhandled
    by_cases hf : f.Stamps
    · obtain ⟨-, -, -, -, hsame⟩ := hstamps hf
      exact hsame now
    · dsimp only
      rw [(hquiet hf).1]

/-- What a router has issued, where a time determines the record: those with the time of the last reading
    show its links as they are. -/
structure ByStamp (S : Setup M) (s : Daemon M) (issued : Node M → Prop) : Prop where
  read : ∀ r, issued r → ∃ n < s.ticks, r.timestamp = S.clock n
  same : ∀ r r', issued r → issued r' → r.timestamp = r'.timestamp → r = r'
  last : ∀ r, issued r → r.timestamp = S.clock (s.ticks - 1) →
    r = recordAt S s.this (S.clock (s.ticks - 1))

omit [LinearOrder M] [FloorRing M] in
theorem ByStamp.mono (h : ByStamp S s issued) (hold : ∀ r, issued' r → issued r) : ByStamp S s issued' where
  read r hr := h.read r (hold r hr)
  same r r' hr hr' := h.same r r' (hold r hr) (hold r' hr')
  last r hr := h.last r (hold r hr)

omit [LinearOrder M] [FloorRing M] in
theorem ByStamp.start (h0 : startUp S = .ok s) (hissued : ∀ r, issued r → r = s.this.node) :
    ByStamp S s issued := by
  obtain ⟨hrecord, hticks⟩ := startUp_record h0
  refine ⟨fun r hr => ⟨1, by omega, ?_⟩, fun r r' hr hr' _ => ?_, fun r hr _ => ?_⟩
  · rw [hissued r hr, hrecord, recordAt_timestamp]
  · rw [hissued r hr, hissued r' hr']
  · rw [hissued r hr, hticks]
    exact hrecord

/-- A record from before an iteration that has the time of one of its readings shows the links that the
    iteration leaves. -/
theorem ByStamp.meets (h : ByStamp S s issued) {n : ℕ} (hstep : Steps S s ev s')
    (hclock : ClockMoves S (tr ++ [{ before := s, event := ev, after := s' }]))
    (hn : s.ticks ≤ n ∨ n = s'.ticks - 1) (hr : issued r) (ht : r.timestamp = S.clock n) :
    r = recordAt S s'.this (S.clock n) := by
  obtain ⟨m, hm, htime⟩ := h.read r hr
  have hticks := hstep.originated.1
  have hbefore : r.timestamp ≤ S.clock (s.ticks - 1) := by
    rw [htime]
    exact hclock.mono (by omega)
  have hafter : S.clock (s.ticks - 1) ≤ S.clock n := hclock.mono (by omega)
  have hsame : S.clock n = S.clock (s.ticks - 1) := by omega
  by_cases hlinks : s'.this.node.linkStatuses = s.this.node.linkStatuses
  · rw [hstep.sameRecord hlinks, hsame]
    exact h.last r hr (ht.trans hsame)
  · -- the clock has moved since the record was made
    have hmoved : S.clock (s.ticks - 1) < S.clock s.ticks :=
      hclock.moves _ (List.mem_append_right _ (List.mem_singleton_self _)) hlinks
    have hle : S.clock s.ticks ≤ S.clock n := hclock.mono (by have := hstep.reads hlinks; omega)
    omega

theorem ByStamp.step (h : ByStamp S s issued) (hstep : Steps S s ev s')
    (hclock : ClockMoves S (tr ++ [{ before := s, event := ev, after := s' }]))
    (hnew : ∀ r, issued' r → issued r ∨
      ∃ n, s.ticks ≤ n ∧ n < s'.ticks ∧ r = recordAt S s'.this (S.clock n)) : ByStamp S s' issued' := by
  refine ⟨fun r hr => ?_, fun r r' hr hr' ht => ?_, fun r hr ht => ?_⟩
  · rcases hnew r hr with hold | ⟨n, -, hlt, rfl⟩
    · obtain ⟨n, hlt, htime⟩ := h.read r hold
      exact ⟨n, hlt.trans_le hstep.originated.1, htime⟩
    · exact ⟨n, hlt, rfl⟩
  · rcases hnew r hr with hold | ⟨n, hn, -, rfl⟩ <;> rcases hnew r' hr' with hold' | ⟨n', hn', -, rfl⟩
    · exact h.same r r' hold hold' ht
    · exact h.meets hstep hclock (Or.inl hn') hold ht
    · exact (h.meets hstep hclock (Or.inl hn) hold' ht.symm).symm
    · rw [recordAt_timestamp, recordAt_timestamp] at ht
      rw [ht]
  · rcases hnew r hr with hold | ⟨n, -, -, rfl⟩
    · exact h.meets hstep hclock (Or.inr rfl) hold ht
    · rw [recordAt_timestamp] at ht
      rw [ht]

/-- In a run a time determines the record, of those that the router has sent and the one with which it
    has started. -/
theorem Run.byStamp (h0 : startUp S = .ok d0) (hrun : Run S tr s) :
    ClockMoves S tr → ByStamp S s fun r => r ∈ d0.this.node :: s.originated ∨ r = s.this.node := by
  refine hrun.invariant (I := fun tr s => ClockMoves S tr →
    ByStamp S s fun r => r ∈ d0.this.node :: s.originated ∨ r = s.this.node) ?_ ?_
  · intro s hs _
    obtain rfl : d0 = s := Except.ok.inj (h0.symm.trans hs)
    refine .start hs fun r hr => ?_
    rw [(startUp_started hs).originated, List.mem_singleton, or_self] at hr
    exact hr
  · intro tr s ev s' _ ih hstep hclock
    refine (ih hclock.before).step hstep hclock fun r hr => ?_
    rcases hr with hr | hr
    · rcases List.mem_cons.mp hr with rfl | hr
      · exact Or.inl (Or.inl List.mem_cons_self)
      · exact (hstep.issues (Or.inl hr)).imp_left fun h => h.imp_left (List.mem_cons_of_mem _)
    · exact (hstep.issues (Or.inr hr)).imp_left fun h => h.imp_left (List.mem_cons_of_mem _)

end Router

/-- A clock that does not move during an iteration of `width` readings, nor between the two at the start. -/
def coarse (width n : ℕ) : ℕ := (n + (width - 2)) / width

theorem coarse_mono (width : ℕ) : Monotone (coarse width) :=
  fun _ _ h => Nat.div_le_div_right (Nat.add_le_add_right h _)

/-! ### All routers -/

section Fleet
variable {ι M : Type} [DecidableEq ι] [Field M] [LinearOrder M] [FloorRing M] [Libm M]
  {S : ι → Setup M}

omit [Field M] [LinearOrder M] [FloorRing M] [Libm M] in
theorem stepsOf_snoc {tr : List (Trace.Step (ι → Daemon M) (ι × Event M))} {net net' : ι → Daemon M}
    {v : ι} {ev : Event M} (j : ι) :
    stepsOf j (tr ++ [{ before := net, event := (v, ev), after := net' }]) = stepsOf j tr ++
      if v = j then [{ before := net j, event := ev, after := net' j }] else [] := by
  unfold stepsOf
  rw [List.filterMap_append]
  by_cases hj : v = j <;> simp [hj]

theorem FleetRun.byStamp {tr : List (Trace.Step (ι → Daemon M) (ι × Event M))} {net : ι → Daemon M}
    (hrun : FleetRun S tr net) (j : ι) :
    ClockMoves (S j) (stepsOf j tr) → ByStamp (S j) (net j) (Issued tr net j) := by
  refine hrun.invariant (I := fun tr net => ClockMoves (S j) (stepsOf j tr) →
    ByStamp (S j) (net j) (Issued tr net j)) (fun net h0 _ => .start (h0 j) fun r => startUp_issued (h0 j)) ?_
  rintro tr net ⟨v, ev⟩ net' - ih h hclock
  obtain ⟨hstep, -, hother⟩ := FleetRun.stepped h
  rw [stepsOf_snoc] at hclock
  have hbefore := ih hclock.before
  by_cases hj : v = j
  · subst hj
    rw [if_pos rfl] at hclock
    exact hbefore.step hstep hclock fun r hr => (FleetRun.issues h hr).imp_right And.right
  · rw [hother j (Ne.symm hj)]
    exact hbefore.mono fun r hr => (FleetRun.issues h hr).resolve_right fun hnew => hj hnew.1

/-- The clocks of all routers move when a link changes. -/
def ClocksMove (S : ι → Setup M) (tr : List (Trace.Step (ι → Daemon M) (ι × Event M))) : Prop :=
  ∀ i, ClockMoves (S i) (stepsOf i tr)

omit [LinearOrder M] [FloorRing M] [Libm M] in
theorem ClocksMove.before {tr tr' : List (Trace.Step (ι → Daemon M) (ι × Event M))}
    (h : ClocksMove S (tr ++ tr')) : ClocksMove S tr := by
  intro i
  have hi := h i
  unfold stepsOf at hi ⊢
  rw [List.filterMap_append] at hi
  exact hi.before

/-- Where the ids of the routers are distinct, and their clocks do not go back and move on before a link
    changes, a node and a time determine the record, wherever it is held; so the databases of two routers
    differ only where one is later. -/
theorem same_stamp_same_record {tr : List (Trace.Step (ι → Daemon M) (ι × Event M))}
    {net : ι → Daemon M} (hid : ∀ i j, (S i).id = (S j).id → i = j)
    (hclock : ClocksMove S tr) (hrun : FleetRun S tr net) {k : Fin maxNodeNum} {r r' : Node M}
    (hr : Held net k r) (hr' : Held net k r') (ht : r.timestamp = r'.timestamp) :
    r = r' := by
  obtain ⟨j, hj, hiss⟩ := FleetRun.genuine hrun k r hr
  obtain ⟨j', hj', hiss'⟩ := FleetRun.genuine hrun k r' hr'
  obtain rfl := hid j j' (hj.trans hj'.symm)
  exact (FleetRun.byStamp hrun j (hclock j)).same r r' hiss hiss' ht

end Fleet

/-! ### Routers 1 and 2 -/

/-- Routers 1 and 2, on whose clocks an iteration takes no time. -/
def coarseTwo (second : Bool) : Setup ℚ := { oneAndTwo second with clock := coarse 3 }

/-- Both links of router 1 come up, and router 2 receives the LSAs. -/
def coarseLearns : List (Bool × Event ℚ) :=
  bothRise.map (fun ev => (false, ev)) ++ (receivedByTwo (coarse 3)).map fun ev => (true, ev)

theorem coarseTwo_starts (i : Bool) : (startUp (coarseTwo i)).toOption.isSome = true := by
  revert i
  decide +kernel

def coarseStart (i : Bool) : Daemon ℚ := (startUp (coarseTwo i)).toOption.get (coarseTwo_starts i)

/-- Router 2 holds the record of router 1 that is in the message of the same time. -/
theorem same_stamp_same_record_coarseTwo : ∃ tr net, FleetRun coarseTwo tr net ∧
    tr.map Trace.Step.event = coarseLearns ∧ ((net true).graph 0).state = .nodeSeen ∧
      ∃ m ∈ (net false).sent, (net true).graph 0 ∈ m.2.carries 0 := by
  have h0 : ∀ i, startUp (coarseTwo i) = .ok (coarseStart i) := fun i =>
    ok_of_toOption (Option.some_get _).symm
  have hrun : ∃ tr net, FleetRun coarseTwo tr net ∧ tr.map Trace.Step.event = coarseLearns ∧
      tr.getLast?.any (fun st => ((st.after true).graph 0).state = .nodeSeen ∧
        (st.after false).sent.any fun m => (m.2.carries 0).any fun r =>
          r.timestamp = ((st.after true).graph 0).timestamp) = true ∧
      ∀ i, ∀ st ∈ stepsOf i tr, LinksChanged st →
        coarse 3 (st.before.ticks - 1) < coarse 3 st.before.ticks :=
    Trace.exists_follow h0 coarseLearns (by decide +kernel)
  obtain ⟨tr, net, hrun, hevents, hlast, hmoves⟩ := hrun
  obtain ⟨st, -, rfl, hst⟩ := hrun.at_end hlast
  obtain ⟨hseen, hsent⟩ := of_decide_eq_true hst
  obtain ⟨m, hm, hr⟩ := List.any_eq_true.mp hsent
  obtain ⟨r, hr, ht⟩ := (Option.any_eq_true _ _).mp hr
  have hids : ∀ i j, (coarseTwo i).id = (coarseTwo j).id → i = j := by decide
  have hsame := same_stamp_same_record (S := coarseTwo) (k := 0) hids (fun i => ⟨coarse_mono 3, hmoves i⟩)
    hrun (.sent false m hm hr) (.stored true hseen rfl) (of_decide_eq_true ht)
  exact ⟨tr, _, hrun, hevents, hseen, m, hm, hsame ▸ hr⟩

end Dtlsr
