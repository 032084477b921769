import Dtlsr.Buffer
import Dtlsr.DownLinks

/-!
    The one timer and the one interface name with which the driver remembers what to replay. Each link
    that comes up sets both, so that a link which comes up before the timer has expired takes the place
    of another that waits for its replay. -/

namespace Dtlsr
open Checked

section Code
variable {M : Type} [Field M] {S : Setup M}

/-- What an event does to the replay timer and to `up_iface`. -/
def ReplayHandled (S : Setup M) (a : Active M) (s s' : Daemon M) : Prop :=
  match a with
  | .heartbeat source =>
    match S.build, risingLink s.this source with
    | .dtlsr, some i =>
      s'.replayTimer = eventTimerArm s.replayTimer 0 replayDelayT ∧
        s'.upIface = some (s.this.interfaces i)
    | _, _ => s'.replayTimer = s.replayTimer ∧ s'.upIface = s.upIface
  | .replayTimer =>
    s'.replayTimer = eventTimerDisarm s.replayTimer ∧ s'.upIface = s.upIface ∧ s.upIface.isSome
  | _ => s'.replayTimer = s.replayTimer ∧ s'.upIface = s.upIface

variable [LinearOrder M] [Libm M]

theorem handleEvent_replay {a : Active M} {s s' : Daemon M} {f : Flags}
    (h : handleEvent S a s = .ok (s', f)) : ReplayHandled S a s s' := by
  cases handleEvent_handles h with
  | beat source quiet =>
    simp [ReplayHandled, quiet]
  | riseLsr source i build rise =>
    simp [ReplayHandled, build]
  | riseDtlsr source i ts c build rise history call =>
    simp [ReplayHandled, build, rise]
  | replayTimer upIface c c' iface replay remove =>
    exact ⟨rfl, rfl, by rw [iface]; rfl⟩
  | _ => exact ⟨rfl, rfl⟩

variable [FloorRing M]

theorem Steps.replayHandled {ev : Event M} {s s' : Daemon M} (h : Steps S s ev s') :
    ReplayHandled S ev.active s s' := by
  obtain ⟨c, -, ⟨ha, rfl⟩ | ⟨_, _, s3, f, s4, h3, h4, h5⟩⟩ := h.calls
  · rw [ha]
    exact ⟨rfl, rfl⟩
  · have hkept := (afterEvent_ok h4 (handleEvent_ok h3).updateRouting).1
    have htimer : s'.replayTimer = s3.replayTimer := by
      rw [(captureAfter_ok h5).1]
      exact hkept.replayTimer
    have hup : s'.upIface = s3.upIface := by
      rw [(captureAfter_ok h5).1]
      exact hkept.upIface
    have hH := handleEvent_replay h3
    unfold ReplayHandled at hH ⊢
    rw [htimer, hup]
    exact hH

/-- What a step does to the replay timer and to `up_iface`, by the link that comes up in it. -/
inductive ReplayStep (S : Setup M) (st : Trace.Step (Daemon M) (Event M)) : Prop where
  | expires (event : st.event.active = .replayTimer) (still : risen st = none)
      (disarmed : st.after.replayTimer.armed = false) (same : st.after.upIface = st.before.upIface)
  | rises (event : st.event.active ≠ .replayTimer) (i : Fin maxNodeFan) (rise : risen st = some i)
      (armed : st.after.replayTimer.armed = true) (upIface : st.after.upIface = some (ifaceName S i))
  | other (event : st.event.active ≠ .replayTimer) (still : risen st = none)
      (timer : st.after.replayTimer = st.before.replayTimer)
      (same : st.after.upIface = st.before.upIface)

theorem Steps.replay {ev : Event M} {s s' : Daemon M} (hb : S.build = .dtlsr) (hl : Linked S s.this)
    (h : Steps S s ev s') : ReplayStep S { before := s, event := ev, after := s' } := by
  have hreplay := h.replayHandled
  have hlinks := h.links.linkStatuses
  cases ha : ev.active with
  | heartbeat source =>
    have hev : ev.active ≠ .replayTimer := by rw [ha]; simp
    rw [ha] at hreplay hlinks
    simp only [ReplayHandled, hb] at hreplay
    cases hrise : risingLink s.this source with
    | none =>
      rw [hrise] at hreplay
      rw [linkEffect_quiet hrise] at hlinks
      exact .other hev (still hlinks).1 hreplay.1 hreplay.2
    | some i =>
      rw [hrise] at hreplay
      rw [linkEffect_rise hrise] at hlinks
      obtain ⟨hfrom, hdown, -⟩ := risingLink_some hrise
      have hi : (i : ℕ) < S.links.length := by
        have := hfrom.1
        rw [hl.count] at this
        omega
      refine .rises hev i (risen_of_update hdown hlinks).1 (by rw [hreplay.1]; rfl) ?_
      rw [hreplay.2, hl.ifaceName hi]
  | timer i =>
    have hev : ev.active ≠ .replayTimer := by rw [ha]; simp
    rw [ha] at hreplay hlinks
    cases hlink : linkOfTimer s.this (s.this.timers i).fd .linkUp with
    | none =>
      rw [linkEffect_idle hlink] at hlinks
      exact .other hev (still hlinks).1 hreplay.1 hreplay.2
    | some j =>
      rw [linkEffect_fall hlink] at hlinks
      exact .other hev (fallen_of_update (linkOfTimer_some hlink).2.2 hlinks).1 hreplay.1 hreplay.2
  | replayTimer =>
    rw [ha] at hreplay hlinks
    exact .expires ha (still hlinks).1 (by rw [hreplay.1]; rfl) hreplay.2.1
  | _ =>
    have hev : ev.active ≠ .replayTimer := by rw [ha]; simp
    rw [ha] at hreplay hlinks
    exact .other hev (still hlinks).1 hreplay.1 hreplay.2

end Code

/-! ### The links that return -/

section Returns
variable {M : Type} [Field M]

/-- Link `i` comes up, and has been up before. -/
def Returns (i : Fin maxNodeFan) (pre : List (Trace.Step (Daemon M) (Event M)))
    (st : Trace.Step (Daemon M) (Event M)) : Prop :=
  risen st = some i ∧ EverUp pre i

instance (i : Fin maxNodeFan) (pre : List (Trace.Step (Daemon M) (Event M)))
    (st : Trace.Step (Daemon M) (Event M)) : Decidable (Returns i pre st) := by
  unfold Returns; infer_instance

/-- `capture_replay_iface` is called for the interface of link `i`. -/
def Replays (S : Setup M) (i : Fin maxNodeFan) (st : Trace.Step (Daemon M) (Event M)) : Prop :=
  st.event.active = .replayTimer ∧ st.before.upIface = some (ifaceName S i)

instance (S : Setup M) (i : Fin maxNodeFan) (st : Trace.Step (Daemon M) (Event M)) :
    Decidable (Replays S i st) := by
  unfold Replays; infer_instance

/-- If the replay timer is not pending, no link has returned whose interface has not been replayed
    since. -/
def AllReplayed (S : Setup M) (tr : List (Trace.Step (Daemon M) (Event M))) (s : Daemon M) : Prop :=
  s.replayTimer.armed = false → ∀ i, ¬Trace.Since (Returns i) (Replays S i) tr

instance (S : Setup M) (tr : List (Trace.Step (Daemon M) (Event M))) (s : Daemon M) :
    Decidable (AllReplayed S tr s) := by
  unfold AllReplayed; infer_instance

/-- The link that came up last. -/
def lastRisen (tr : List (Trace.Step (Daemon M) (Event M))) : Option (Fin maxNodeFan) :=
  tr.foldl (fun last st => (risen st).or last) none

omit [Field M] in
theorem lastRisen_snoc (tr : List (Trace.Step (Daemon M) (Event M)))
    (st : Trace.Step (Daemon M) (Event M)) :
    lastRisen (tr ++ [st]) = (risen st).or (lastRisen tr) := by
  rw [lastRisen, List.foldl_append]
  rfl

/-- When the replay timer expires, the links that have returned since it last did are all on the
    interface of the link that came up last. -/
def LastReturns (S : Setup M) (pre : List (Trace.Step (Daemon M) (Event M)))
    (st : Trace.Step (Daemon M) (Event M)) : Prop :=
  st.event.active = .replayTimer →
    ∀ i, Trace.Since (Returns i) (fun later => later.event.active = .replayTimer) pre →
      (lastRisen pre).map (ifaceName S) = some (ifaceName S i)

instance (S : Setup M) (pre : List (Trace.Step (Daemon M) (Event M)))
    (st : Trace.Step (Daemon M) (Event M)) : Decidable (LastReturns S pre st) := by
  unfold LastReturns; infer_instance

variable {S : Setup M}

/-- What is remembered: the interface of the link that came up last; the timer is pending while a link
    waits for its replay, and only links that have returned since it last expired do. -/
structure Remembered (S : Setup M) (tr : List (Trace.Step (Daemon M) (Event M))) (s : Daemon M) :
    Prop where
  upIface : s.upIface = (lastRisen tr).map (ifaceName S)
  pending : ∀ i, Trace.Since (Returns i) (Replays S i) tr → s.replayTimer.armed = true
  waits : ∀ i, Trace.Since (Returns i) (Replays S i) tr →
    Trace.Since (Returns i) (fun later => later.event.active = .replayTimer) tr

omit [Field M] in
theorem since_other {i : Fin maxNodeFan} {tr : List (Trace.Step (Daemon M) (Event M))}
    {st : Trace.Step (Daemon M) (Event M)} {R : Trace.Step (Daemon M) (Event M) → Prop}
    (hr : ¬R st) (hrise : risen st = none) :
    Trace.Since (Returns i) R (tr ++ [st]) ↔ Trace.Since (Returns i) R tr := by
  rw [Trace.since_snoc]
  simp [Returns, hrise, hr]

end Returns

section Runs
variable {M : Type} [Field M] [LinearOrder M] [FloorRing M] [Libm M] {S : Setup M}

/-- After every iteration with no replay pending each link that has returned has been replayed since,
    exactly when at each expiry of the timer the links that have returned since the last one are on the
    interface of the link that came up last. -/
theorem allReplayed_iff (hb : S.build = .dtlsr) {tr : List (Trace.Step (Daemon M) (Event M))}
    {s : Daemon M} (hrun : Run S tr s) :
    Trace.Along (fun pre st => AllReplayed S (pre ++ [st]) st.after) tr ↔
      Trace.Along (LastReturns S) tr := by
  refine hrun.along_iff (I := fun tr s => Run S tr s ∧ Remembered S tr s) (fun s h0 => ?_) ?_
  · exact ⟨.start h0, (startUp_started h0).upIface, fun i h => absurd h Trace.not_since_nil,
      fun i h => absurd h Trace.not_since_nil⟩
  · rintro tr st ⟨hr, hinv⟩ hstep
    have hreplay : ReplayStep S st := hstep.replay hb (Run.linked hr)
    suffices h : (AllReplayed S (tr ++ [st]) st.after ↔ LastReturns S tr st) ∧
        (LastReturns S tr st → Remembered S (tr ++ [st]) st.after) from
      ⟨h.1, fun hq => ⟨hr.step hstep, h.2 hq⟩⟩
    cases hreplay with
    | expires event hrise hdisarmed hsame =>
      have hwaits : ∀ i, Trace.Since (Returns i) (Replays S i) (tr ++ [st]) ↔
          Trace.Since (Returns i) (fun later => later.event.active = .replayTimer) tr ∧
            (lastRisen tr).map (ifaceName S) ≠ some (ifaceName S i) := by
        intro i
        have hsince : Trace.Since (Returns i) (Replays S i) tr ↔
            Trace.Since (Returns i) (fun later => later.event.active = .replayTimer) tr :=
          ⟨hinv.waits i, fun h => h.mono fun _ hlater => hlater.1⟩
        rw [Trace.since_snoc, hsince, ← hinv.upIface]
        simp [Returns, hrise, Replays, event]
      have hiff : AllReplayed S (tr ++ [st]) st.after ↔ LastReturns S tr st := by
        constructor
        · intro h _ i hi
          by_contra hother
          exact h hdisarmed i ((hwaits i).mpr ⟨hi, hother⟩)
        · intro h _ i hi
          obtain ⟨hi, hother⟩ := (hwaits i).mp hi
          exact hother (h event i hi)
      refine ⟨hiff, fun hq => ⟨?_, fun i h => ?_, fun i h => ?_⟩⟩
      · rw [lastRisen_snoc, hrise, Option.none_or, hsame]
        exact hinv.upIface
      · exact absurd h (hiff.mpr hq hdisarmed i)
      · exact absurd h (hiff.mpr hq hdisarmed i)
    | rises event i hrise harmed hup =>
      refine ⟨iff_of_true (fun h => ?_) (fun h => absurd h event), fun _ => ⟨?_, fun _ _ => harmed, ?_⟩⟩
      · rw [harmed] at h
        cases h
      · rw [lastRisen_snoc, hrise, Option.some_or, hup, Option.map_some]
      · intro j h
        rw [Trace.since_snoc] at h ⊢
        exact h.imp_right fun h => ⟨hinv.waits j h.1, event⟩
    | other event hrise htimer hsame =>
      have hnone : ∀ i, ¬Replays S i st := fun i h => event h.1
      refine ⟨iff_of_true (fun h i hi => ?_) (fun h => absurd h event), fun _ => ⟨?_, ?_, ?_⟩⟩
      · have hpending := hinv.pending i ((since_other (hnone i) hrise).mp hi)
        rw [← htimer, h] at hpending
        cases hpending
      · rw [lastRisen_snoc, hrise, Option.none_or, hsame]
        exact hinv.upIface
      · intro i h
        rw [htimer]
        exact hinv.pending i ((since_other (hnone i) hrise).mp h)
      · intro i h
        exact (since_other event hrise).mpr (hinv.waits i ((since_other (hnone i) hrise).mp h))

end Runs

/-! ### Two links that return together -/

/-- Both links come up, and go down. -/
def bothFall : List (Event ℚ) :=
  [quietly (.heartbeat (inetAddr 10 0 0 2)), quietly (.heartbeat (inetAddr 10 0 1 3)),
    quietly .replayTimer, quietly (.timer 0), quietly (.timer 1)]

/-- They return one after another: the second when the first has been replayed. -/
def returnInTurn : List (Event ℚ) :=
  bothFall ++
    [quietly (.heartbeat (inetAddr 10 0 1 3)), quietly .replayTimer,
      quietly (.heartbeat (inetAddr 10 0 0 2)), quietly .replayTimer]

theorem allReplayed_returnInTurn : ∃ tr s, Run (twoLinks .dtlsr id (.error .nullDeref)) tr s ∧
    tr.map Trace.Step.event = returnInTurn ∧ Trace.Along (fun pre st =>
      AllReplayed (twoLinks .dtlsr id (.error .nullDeref)) (pre ++ [st]) st.after) tr := by
  obtain ⟨tr, s, hrun, hevents, hlast⟩ := exists_run
    (S := twoLinks .dtlsr id (.error .nullDeref)) returnInTurn
    (P := Trace.Along (LastReturns (twoLinks .dtlsr id (.error .nullDeref)))) (by decide +kernel)
  exact ⟨tr, s, hrun, hevents, (allReplayed_iff rfl hrun).mpr hlast⟩

/-- They return together: the second before the replay of the first. -/
def returnTogether : List (Event ℚ) :=
  bothFall ++
    [quietly (.heartbeat (inetAddr 10 0 1 3)), quietly (.heartbeat (inetAddr 10 0 0 2)),
      quietly .replayTimer]

/-- Then the first is never replayed. -/
theorem return_unreplayed : ¬∀ (S : Setup ℚ) (tr : List (Trace.Step (Daemon ℚ) (Event ℚ)))
    (s : Daemon ℚ), S.build = .dtlsr → Run S tr s →
      Trace.Along (fun pre st => AllReplayed S (pre ++ [st]) st.after) tr := by
  intro h
  obtain ⟨tr, s, hrun, -, hbad⟩ := exists_run
    (S := twoLinks .dtlsr id (.error .nullDeref)) returnTogether
    (P := fun tr => ¬Trace.Along (fun pre st =>
      AllReplayed (twoLinks .dtlsr id (.error .nullDeref)) (pre ++ [st]) st.after) tr)
    (by decide +kernel)
  exact hbad (h _ tr s rfl hrun)

end Dtlsr
