import Dtlsr.History
import Dtlsr.Reached

/-!
    Status, timer and history of each link along the runs of the driver (DTLSR). Two handlers keep the
    three in step: a heartbeat for a link that is down changes all of them, one for a link that is up
    only its timer, and a timeout again all of them. -/

namespace Dtlsr
open Checked

section Steps
variable {M : Type} [Field M] {S : Setup M}

/-- A change of a link's status is recorded in its history, with the reading of the clock; other
    histories stay as they are. -/
def HistoryHandled (S : Setup M) (a : Active M) (s s' : Daemon M) : Prop :=
  ∀ i, if (linkEffect a s.this).node.linkStatuses i = s.this.node.linkStatuses i then
      s'.this.lsTimeSeries i = s.this.lsTimeSeries i
    else tsToggleState (s.this.lsTimeSeries i) (S.clock s.ticks) = .ok (s'.this.lsTimeSeries i)

theorem historyHandled_still {a : Active M} {s s' : Daemon M}
    (hstatus : (linkEffect a s.this).node.linkStatuses = s.this.node.linkStatuses)
    (h : s'.this.lsTimeSeries = s.this.lsTimeSeries) : HistoryHandled S a s s' := by
  intro i
  rw [if_pos (by rw [hstatus]), h]

theorem historyHandled_toggle {a : Active M} {s s' : Daemon M} (j : Fin maxNodeFan) (st : LinkState)
    {ts : LSTimeSeries}
    (hstatus : (linkEffect a s.this).node.linkStatuses =
      Function.update s.this.node.linkStatuses j st) (hst : s.this.node.linkStatuses j ≠ st)
    (hts : tsToggleState (s.this.lsTimeSeries j) (S.clock s.ticks) = .ok ts)
    (h : s'.this.lsTimeSeries = Function.update s.this.lsTimeSeries j ts) :
    HistoryHandled S a s s' := by
  intro i
  rcases eq_or_ne i j with rfl | hij
  · rw [hstatus, h, Function.update_self, Function.update_self, if_neg hst.symm]
    exact hts
  · rw [hstatus, h, Function.update_of_ne hij, Function.update_of_ne hij, if_pos rfl]

variable [LinearOrder M] [Libm M]

theorem handleEvent_history {a : Active M} {s s' : Daemon M} {f : Flags} (hb : S.build = .dtlsr)
    (h : handleEvent S a s = .ok (s', f)) : HistoryHandled S a s s' := by
  cases handleEvent_handles h with
  | beat source quiet => exact historyHandled_still (by rw [linkEffect_quiet quiet]; rfl) rfl
  | riseLsr source i build rise =>
    rw [build] at hb
    cases hb
  | riseDtlsr source i ts c build rise history call =>
    refine historyHandled_toggle i .linkUp (by rw [linkEffect_rise rise]; rfl) ?_ history rfl
    rw [(risingLink_some rise).2.1]
    decide
  | stale i hnone => exact historyHandled_still (by rw [linkEffect_idle hnone]) rfl
  | timeout i j t t' g link history call =>
    unfold recordDown at history
    rw [hb] at history
    obtain ⟨ts, hts, ht⟩ := bind_ok_iff.mp history
    cases ht
    refine historyHandled_toggle j .linkDown (by rw [linkEffect_fall link]; rfl) ?_ hts ?_
    · rw [(linkOfTimer_some link).2.2]
      decide
    · rw [updateGlobalThis_this call]
      rfl
  | _ => exact historyHandled_still rfl rfl

variable [FloorRing M]

/-- What follows an event leaves the histories alone. -/
theorem afterEvent_history {f : Flags} {s s' : Daemon M} (h : afterEvent S f s = .ok s')
    (hrouting : f.updateRouting = false) : s'.this.lsTimeSeries = s.this.lsTimeSeries := by
  unfold afterEvent at h
  obtain ⟨s1, h1, h⟩ := bind_ok_iff.mp h
  rw [hrouting] at h
  cases h
  have hsend : (if f.lsaSendStatus then sendOwnLsa S s else s).this.lsTimeSeries =
      s.this.lsTimeSeries := by
    split <;> rfl
  split at h1
  · obtain ⟨⟨g, t⟩, hg, h1⟩ := bind_ok_iff.mp h1
    obtain ⟨hops, -, h1⟩ := bind_ok_iff.mp h1
    cases h1
    rw [← hsend, updateGlobalThis_this hg]
    rfl
  · cases h1
    exact hsend

theorem Steps.history {ev : Event M} {s s' : Daemon M} (hb : S.build = .dtlsr)
    (h : Steps S s ev s') : HistoryHandled S ev.active s s' := by
  obtain ⟨c, -, ⟨ha, rfl⟩ | ⟨_, _, s3, f, s4, h3, h4, h5⟩⟩ := h.calls
  · exact historyHandled_still (by rw [ha]; rfl) rfl
  · have hafter := afterEvent_history h4 (handleEvent_ok h3).updateRouting
    have hsame : s'.this.lsTimeSeries = s3.this.lsTimeSeries := by
      rw [(captureAfter_ok h5).1]
      exact hafter
    intro i
    rw [hsame]
    exact handleEvent_history hb h3 i

end Steps

/-! ### Along a run -/

section Runs
variable {M : Type} [Field M] {S : Setup M}

/-- The times at which link `i` has changed its status: the clock as each such iteration first reads
    it. -/
def changeTimes (S : Setup M) (tr : List (Trace.Step (Daemon M) (Event M))) (i : Fin maxNodeFan) :
    List ℕ :=
  (tr.filter fun st => st.after.this.node.linkStatuses i ≠ st.before.this.node.linkStatuses i).map
    fun st => S.clock st.before.ticks

variable {tr : List (Trace.Step (Daemon M) (Event M))} {st : Trace.Step (Daemon M) (Event M)}
  {s : Daemon M} {i : Fin maxNodeFan}

theorem changeTimes_same
    (h : st.after.this.node.linkStatuses i = st.before.this.node.linkStatuses i) :
    changeTimes S (tr ++ [st]) i = changeTimes S tr i := by
  simp [changeTimes, h]

theorem changeTimes_changed
    (h : st.after.this.node.linkStatuses i ≠ st.before.this.node.linkStatuses i) :
    changeTimes S (tr ++ [st]) i = changeTimes S tr i ++ [S.clock st.before.ticks] := by
  simp [changeTimes, h]

/-- The three records of a link agree: its timer, if armed, is set to the timeout, and its history has
    its state and the times of its changes. -/
structure LinkAgrees (S : Setup M) (tr : List (Trace.Step (Daemon M) (Event M))) (s : Daemon M)
    (i : Fin maxNodeFan) : Prop where
  timer : (s.this.timers i).armed = true →
    (s.this.timers i).sec = 0 ∧ (s.this.timers i).nsec = heartbeatTimeout
  state : (s.this.lsTimeSeries i).currLinkState = s.this.node.linkStatuses i
  history : Recorded (s.this.lsTimeSeries i) (S.clock 0 :: changeTimes S tr i)

theorem startUp_linkAgrees [Libm M] (hb : S.build = .dtlsr) (hi : (i : ℕ) < S.links.length)
    (h : startUp S = .ok s) : LinkAgrees S [] s i := by
  have hlinked := startUp_linked h
  have hdown := hlinked.2 i hi
  obtain ⟨t, ht, h⟩ := bind_ok_iff.mp h
  obtain ⟨⟨g, t'⟩, hg, h⟩ := bind_ok_iff.mp h
  cases h
  obtain ⟨ts, hinit, hrecorded, hstate⟩ := tsInit_recorded (S.this.lsTimeSeries i) .linkDown (S.clock 0)
  obtain rfl : ts = t.lsTimeSeries i := Except.ok.inj (hinit.symm.trans (localNodeInit_series hb ht hi))
  rw [updateGlobalThis_this hg] at hdown hlinked ⊢
  refine ⟨fun harmed => ?_, ?_, hrecorded⟩
  · rw [(hlinked.1.armed i hi)] at harmed
    exact absurd (hdown.symm.trans harmed) (by decide)
  · rw [hdown]
    exact hstate

theorem linkState_of_ne {st1 st2 : LinkState} (h : st1 ≠ st2) : st1 = linkStateToggle st2 := by
  cases st1 <;> cases st2 <;> first | rfl | exact absurd rfl h

omit [Field M] in
/-- An event leaves a timer as it is, arms it for the timeout, or disarms it. -/
theorem linkEffect_timer (a : Active M) (t : LocalNode M) (i : Fin maxNodeFan) :
    (linkEffect a t).timers i = t.timers i ∨
      (linkEffect a t).timers i = eventTimerArm (t.timers i) 0 heartbeatTimeout ∨
      (linkEffect a t).timers i = eventTimerDisarm (t.timers i) := by
  have hreset : ∀ source, (resetTimers t source).timers i = t.timers i ∨
      (resetTimers t source).timers i = eventTimerArm (t.timers i) 0 heartbeatTimeout := by
    intro source
    unfold resetTimers
    dsimp only
    split
    · exact Or.inr rfl
    · exact Or.inl rfl
  cases a with
  | heartbeat source =>
    cases hrise : risingLink t source with
    | none =>
      rw [linkEffect_quiet hrise]
      exact (hreset source).imp_right Or.inl
    | some j =>
      rw [linkEffect_rise hrise]
      exact (hreset source).imp_right Or.inl
  | timer k =>
    cases hlink : linkOfTimer t (t.timers k).fd .linkUp with
    | none =>
      rw [linkEffect_idle hlink]
      exact Or.inl rfl
    | some j =>
      rw [linkEffect_fall hlink]
      rcases eq_or_ne i j with rfl | hij
      · exact Or.inr (Or.inr (by simp))
      · exact Or.inl (by simp [hij])
  | _ => exact Or.inl rfl

variable [LinearOrder M] [FloorRing M] [Libm M]

theorem LinkAgrees.step {ev : Event M} {s' : Daemon M} (hb : S.build = .dtlsr)
    (h : LinkAgrees S tr s i) (hstep : Steps S s ev s') :
    LinkAgrees S (tr ++ [{ before := s, event := ev, after := s' }]) s' i := by
  have hhistory := hstep.history hb i
  rw [← hstep.links.linkStatuses] at hhistory
  have htimer : (s'.this.timers i).armed = true →
      (s'.this.timers i).sec = 0 ∧ (s'.this.timers i).nsec = heartbeatTimeout := by
    rw [hstep.links.timers]
    rcases linkEffect_timer ev.active s.this i with htimer | htimer | htimer <;> rw [htimer]
    · exact h.timer
    · exact fun _ => ⟨rfl, rfl⟩
    · simp
  by_cases hsame : s'.this.node.linkStatuses i = s.this.node.linkStatuses i
  · rw [if_pos hsame] at hhistory
    refine ⟨htimer, ?_, ?_⟩
    · rw [hhistory, hsame, h.state]
    · rw [hhistory, changeTimes_same hsame]
      exact h.history
  · rw [if_neg hsame] at hhistory
    obtain ⟨ts, hts, hrecorded, hstate⟩ := tsToggleState_recorded h.history (S.clock s.ticks)
    cases hts.symm.trans hhistory
    refine ⟨htimer, ?_, ?_⟩
    · rw [hstate, h.state, linkState_of_ne hsame]
    · rw [changeTimes_changed hsame]
      exact hrecorded

/-- The times of the changes are in order, and not after the next reading of the clock. -/
theorem changeTimes_sorted (hclock : Monotone S.clock) (hrun : Run S tr s) (i : Fin maxNodeFan) :
    (S.clock 0 :: changeTimes S tr i).Pairwise (· ≤ ·) ∧
      ∀ t ∈ S.clock 0 :: changeTimes S tr i, t ≤ S.clock s.ticks := by
  refine hrun.invariant (I := fun tr s => (S.clock 0 :: changeTimes S tr i).Pairwise (· ≤ ·) ∧
    ∀ t ∈ S.clock 0 :: changeTimes S tr i, t ≤ S.clock s.ticks) ?_ ?_
  · intro s _
    exact ⟨by simp [changeTimes], by simp [changeTimes, hclock (Nat.zero_le s.ticks)]⟩
  · intro tr s ev s' _ ⟨hsorted, hle⟩ hstep
    have hticks := hclock hstep.originated.1
    by_cases hsame : s'.this.node.linkStatuses i = s.this.node.linkStatuses i
    · rw [changeTimes_same hsame]
      exact ⟨hsorted, fun t ht => (hle t ht).trans hticks⟩
    · rw [changeTimes_changed hsame, ← List.cons_append]
      refine ⟨List.pairwise_append.mpr ⟨hsorted, by simp, fun t ht u hu => ?_⟩, fun t ht => ?_⟩
      · obtain rfl := List.mem_singleton.mp hu
        exact hle t ht
      · rcases List.mem_append.mp ht with ht | ht
        · exact (hle t ht).trans hticks
        · obtain rfl := List.mem_singleton.mp ht
          exact hticks

/-- Status, timer and history of a link agree in every state that is reached, and the history has the
    last times of the sequence of the start and the changes, in order. -/
theorem link_agrees (hb : S.build = .dtlsr) (hclock : Monotone S.clock) (hrun : Run S tr s)
    (hi : (i : ℕ) < S.links.length) :
    (s.this.node.linkStatuses i = .linkUp ↔
      (s.this.timers i).sec = 0 ∧ (s.this.timers i).nsec = heartbeatTimeout) ∧
    (s.this.node.linkStatuses i = .linkUp ↔ (s.this.lsTimeSeries i).currLinkState = .linkUp) ∧
    recorded (s.this.lsTimeSeries i) = (S.clock 0 :: changeTimes S tr i).rtake tsSize ∧
    (recorded (s.this.lsTimeSeries i)).length = min tsSize (1 + (changeTimes S tr i).length) ∧
    (recorded (s.this.lsTimeSeries i)).Pairwise (· ≤ ·) := by
  have hagrees : LinkAgrees S tr s i := hrun.invariant (I := fun tr s => LinkAgrees S tr s i)
    (fun s h0 => startUp_linkAgrees hb hi h0) fun tr s ev s' _ hinv hstep => hinv.step hb hstep
  have harmed := (Run.linked hrun).armed i hi
  have hrecorded := hagrees.history.recorded_eq
  refine ⟨⟨fun hup => hagrees.timer (harmed.mpr hup), fun h => harmed.mp ?_⟩, ?_, hrecorded, ?_, ?_⟩
  · rw [Timer.armed, h.1]
    decide
  · rw [hagrees.state]
  · rw [hrecorded, List.rtake.eq_1, List.length_drop, List.length_cons]
    omega
  · rw [hrecorded]
    exact (changeTimes_sorted hclock hrun i).1.sublist (List.drop_sublist _ _)

end Runs

/-! ### A link that flaps -/

/-- The first link comes up, goes down and comes up again, and a heartbeat arrives while it is up. -/
def flaps : List (Event ℚ) :=
  [quietly (.heartbeat (inetAddr 10 0 0 2)), quietly (.timer 0),
    quietly (.heartbeat (inetAddr 10 0 0 2)), quietly (.heartbeat (inetAddr 10 0 0 2))]

theorem link_agrees_flaps : ∃ tr s, Run (twoLinks .dtlsr id (pure false)) tr s ∧
    tr.map Trace.Step.event = flaps ∧ recorded (s.this.lsTimeSeries 0) =
      (0 :: changeTimes (twoLinks .dtlsr id (pure false)) tr 0).rtake tsSize ∧
    (changeTimes (twoLinks .dtlsr id (pure false)) tr 0).length = 3 := by
  obtain ⟨tr, s, hrun, hevents, hthree⟩ := exists_run (S := twoLinks .dtlsr id (pure false)) flaps
    (P := fun tr => (changeTimes (twoLinks .dtlsr id (pure false)) tr 0).length = 3)
    (by decide +kernel)
  exact ⟨tr, s, hrun, hevents, (link_agrees rfl monotone_id hrun (by decide)).2.2.1, hthree⟩

end Dtlsr
