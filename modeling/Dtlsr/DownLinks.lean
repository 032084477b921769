import Dtlsr.DownIfaces
import Dtlsr.Reached

/-!
    The bookkeeping of `capture.c` along the runs of the driver. `capture_end_iface` takes every link
    that comes up while `n_down_ifaces` is not 0 for one that went down before: a link that comes up
    for the first time spoils the count, and the search for it, like that for a link behind an empty
    slot, compares its name with `NULL`. -/

namespace Dtlsr
open Checked

/-! ### The link that a step moves -/

section Moves
variable {M : Type}

/-- The link that comes up in a step. -/
def risen (st : Trace.Step (Daemon M) (Event M)) : Option (Fin maxNodeFan) :=
  (List.finRange maxNodeFan).find? fun i =>
    st.before.this.node.linkStatuses i = .linkDown ∧ st.after.this.node.linkStatuses i = .linkUp

/-- The link that goes down. -/
def fallen (st : Trace.Step (Daemon M) (Event M)) : Option (Fin maxNodeFan) :=
  (List.finRange maxNodeFan).find? fun i =>
    st.before.this.node.linkStatuses i = .linkUp ∧ st.after.this.node.linkStatuses i = .linkDown

variable {st : Trace.Step (Daemon M) (Event M)} {i : Fin maxNodeFan}

theorem risen_up (h : risen st = some i) : st.after.this.node.linkStatuses i = .linkUp := by
  have hmoved := List.find?_some h
  rw [decide_eq_true_eq] at hmoved
  exact hmoved.2

theorem fallen_down (h : fallen st = some i) : st.after.this.node.linkStatuses i = .linkDown := by
  have hmoved := List.find?_some h
  rw [decide_eq_true_eq] at hmoved
  exact hmoved.2

theorem still (h : st.after.this.node.linkStatuses = st.before.this.node.linkStatuses) :
    risen st = none ∧ fallen st = none := by
  constructor <;> refine List.find?_eq_none.mpr fun j _ => ?_ <;> rw [h] <;>
    cases st.before.this.node.linkStatuses j <;> simp

theorem risen_of_update (hi : st.before.this.node.linkStatuses i = .linkDown)
    (h : st.after.this.node.linkStatuses =
      Function.update st.before.this.node.linkStatuses i .linkUp) :
    risen st = some i ∧ fallen st = none := by
  constructor
  · refine find_finRange_eq_some.mpr ⟨by rw [h]; simp [hi], fun j hj => ?_⟩
    rw [h, Function.update_of_ne hj.ne]
    cases st.before.this.node.linkStatuses j <;> simp
  · refine List.find?_eq_none.mpr fun j _ => ?_
    rw [h]
    by_cases hj : j = i
    · subst hj; simp
    · rw [Function.update_of_ne hj]
      cases st.before.this.node.linkStatuses j <;> simp

theorem fallen_of_update (hi : st.before.this.node.linkStatuses i = .linkUp)
    (h : st.after.this.node.linkStatuses =
      Function.update st.before.this.node.linkStatuses i .linkDown) :
    risen st = none ∧ fallen st = some i := by
  constructor
  · refine List.find?_eq_none.mpr fun j _ => ?_
    rw [h]
    by_cases hj : j = i
    · subst hj; simp
    · rw [Function.update_of_ne hj]
      cases st.before.this.node.linkStatuses j <;> simp
  · refine find_finRange_eq_some.mpr ⟨by rw [h]; simp [hi], fun j hj => ?_⟩
    rw [h, Function.update_of_ne hj.ne]
    cases st.before.this.node.linkStatuses j <;> simp

end Moves

section Runs
variable {M : Type} [Field M] {S : Setup M}

/-- The name of a link's interface. -/
def ifaceName (S : Setup M) (i : Fin maxNodeFan) : String := S.links[(i : ℕ)]?.elim "" LinkRow.interface

theorem Linked.ifaceName {t : LocalNode M} (h : Linked S t) {i : Fin maxNodeFan}
    (hi : (i : ℕ) < S.links.length) : t.interfaces i = ifaceName S i := by
  rw [h.interfaces i hi, Dtlsr.ifaceName, List.getElem?_eq_getElem hi, Option.elim_some]

variable [LinearOrder M] [FloorRing M] [Libm M]

/-- What a step does to the links and to the capture state, where `c` is that state when the event comes:
    no link moves, or one link comes up and `capture_end_iface` is called for it, or one goes down and
    `capture_start_iface` is. -/
theorem Steps.captureMoves {ev : Event M} {s s' : Daemon M} (hb : S.build = .dtlsr)
    (hl : Linked S s.this) (h : Steps S s ev s') : ∃ c0 c,
      capturePackets s.this s.capture = .ok c0 ∧ c = ev.arrived.foldl arrive c0 ∧
      ((s'.this.node.linkStatuses = s.this.node.linkStatuses ∧ (s'.capture = c ∨
        ∃ upIface c1, captureReplayIface s.this upIface s.nextHops c = .ok c1 ∧
          captureRemoveReplayedPackets s.this upIface s.nextHops c1 = .ok s'.capture)) ∨
      (∃ i : Fin maxNodeFan, (i : ℕ) < S.links.length ∧ s.this.node.linkStatuses i = .linkDown ∧
        s'.this.node.linkStatuses = Function.update s.this.node.linkStatuses i .linkUp ∧
        ∃ t, Linked S t ∧ t.node.linkStatuses = s'.this.node.linkStatuses ∧
          captureEndIface S.strcmpNull t (ifaceName S i) c = .ok s'.capture) ∨
      (∃ i : Fin maxNodeFan, (i : ℕ) < S.links.length ∧ s.this.node.linkStatuses i = .linkUp ∧
        s'.this.node.linkStatuses = Function.update s.this.node.linkStatuses i .linkDown ∧
        ∃ t hops, Linked S t ∧
          captureStartIface t (ifaceName S i) hops c = .ok s'.capture)) := by
  have hlinks := h.links.linkStatuses
  have hle : Linked S (linkEffect ev.active s.this) := hl.linkEffect ev.active
  obtain ⟨c0, hc0, heffect⟩ := h.capture hb
  refine ⟨c0, ev.arrived.foldl arrive c0, hc0, rfl, ?_⟩
  cases ha : ev.active with
  | heartbeat source =>
    rw [ha] at heffect hlinks hle
    cases hr : risingLink s.this source with
    | none =>
      rw [linkEffect_quiet hr] at hlinks
      simp only [CaptureEffect, CaptureHandled, hr] at heffect
      exact Or.inl ⟨hlinks, Or.inl heffect⟩
    | some i =>
      simp only [CaptureEffect, CaptureHandled, hr] at heffect
      obtain ⟨t, ht, hend⟩ := heffect
      obtain ⟨hfrom, hdown, -⟩ := risingLink_some hr
      have hi : (i : ℕ) < S.links.length := by
        have := hfrom.1
        rw [hl.count] at this
        omega
      rw [hl.ifaceName hi] at hend
      refine Or.inr (Or.inl ⟨i, hi, hdown, ?_, t, hle.of_sameLinks ht,
        ht.linkStatuses.trans hlinks.symm, hend⟩)
      rw [hlinks, linkEffect_rise hr]
      rfl
  | timer i =>
    have hen := h.1
    rw [ha] at heffect hlinks hle hen
    have hi : (i : ℕ) < S.links.length := by
      have := hen.1
      rw [hl.count] at this
      omega
    have hup : s.this.node.linkStatuses i = .linkUp := (hl.armed i hi).mp hen.2
    have hfall := linkEffect_fall (t := s.this) (i := i) (j := i)
      (by rw [hl.linkOfTimer hi, if_pos hup])
    have hstatus : (linkEffect (.timer i) s.this).node.linkStatuses =
        Function.update s.this.node.linkStatuses i .linkDown := by rw [hfall]; rfl
    have hlink : linkOfTimer (linkEffect (.timer i) s.this) (s.this.timers i).fd .linkDown =
        some i := by
      rw [← (linkEffect_eq (.timer i) s.this).2 i, hle.linkOfTimer hi, hstatus, if_pos (by simp)]
    simp only [CaptureEffect, hlink] at heffect
    obtain ⟨t, hops, ht, hstart⟩ := heffect
    rw [hl.ifaceName hi] at hstart
    exact Or.inr (Or.inr ⟨i, hi, hup, hlinks.trans hstatus, t, hops, hle.of_sameLinks ht, hstart⟩)
  | replayTimer =>
    rw [ha] at heffect hlinks
    obtain ⟨upIface, c1, -, h1, h2⟩ := heffect
    exact Or.inl ⟨hlinks, Or.inr ⟨upIface, c1, h1, h2⟩⟩
  | _ =>
    rw [ha] at heffect hlinks
    exact Or.inl ⟨hlinks, Or.inl heffect⟩

/-- What a step does to the links and to the bookkeeping. -/
theorem Steps.moves {ev : Event M} {s s' : Daemon M} (hb : S.build = .dtlsr) (hl : Linked S s.this)
    (h : Steps S s ev s') : ∃ c, SameBooks s.capture c ∧
      ((s'.this.node.linkStatuses = s.this.node.linkStatuses ∧ SameBooks c s'.capture) ∨
      (∃ i : Fin maxNodeFan, (i : ℕ) < S.links.length ∧ s.this.node.linkStatuses i = .linkDown ∧
        s'.this.node.linkStatuses = Function.update s.this.node.linkStatuses i .linkUp ∧
        ∃ t, Linked S t ∧ captureEndIface S.strcmpNull t (ifaceName S i) c = .ok s'.capture) ∨
      (∃ i : Fin maxNodeFan, (i : ℕ) < S.links.length ∧ s.this.node.linkStatuses i = .linkUp ∧
        s'.this.node.linkStatuses = Function.update s.this.node.linkStatuses i .linkDown ∧
        ∃ t hops, Linked S t ∧
          captureStartIface t (ifaceName S i) hops c = .ok s'.capture)) := by
  obtain ⟨c0, c, hc0, rfl, hmove⟩ := h.captureMoves hb hl
  refine ⟨ev.arrived.foldl arrive c0, (capturePackets_sameBooks hc0).trans
    (foldl_sameBooks arrive_sameBooks _ _), ?_⟩
  rcases hmove with ⟨hsame, hkept⟩ | ⟨i, hi, hdown, hup, t, ht, -, hend⟩ | hfall
  · refine Or.inl ⟨hsame, ?_⟩
    rcases hkept with heq | ⟨upIface, c1, h1, h2⟩
    · rw [heq]
      exact .refl _
    · exact (captureReplayIface_sameBooks h1).trans (captureRemoveReplayedPackets_sameBooks h2)
  · exact Or.inr (Or.inl ⟨i, hi, hdown, hup, t, ht, hend⟩)
  · exact Or.inr (Or.inr hfall)

/-- The table keeps a slot for each link. -/
theorem Run.slots {tr : List (Trace.Step (Daemon M) (Event M))} {s : Daemon M}
    (hb : S.build = .dtlsr) (hrun : Run S tr s) :
    s.capture.downIfaces.length = S.links.length := by
  refine hrun.invariant (I := fun _ s => s.capture.downIfaces.length = S.links.length) ?_ ?_
  · intro s h0
    rw [(startUp_started h0).capture]
    simp [captureInit, openDump, (startUp_linked h0).1.count]
  · intro tr s ev s' hr hlen hstep
    obtain ⟨c, hbooks, hmove⟩ := hstep.moves hb (Run.linked hr)
    have hc : c.downIfaces.length = S.links.length := by rw [hbooks.downIfaces, hlen]
    rcases hmove with ⟨-, hsame⟩ | ⟨i, -, -, -, t, ht, hend⟩ | ⟨i, -, -, -, t, hops, ht, hstart⟩
    · rw [hsame.downIfaces, hc]
    · by_cases hn : c.nDownIfaces = 0
      · rw [captureEndIface_zero hn hend, hc]
      · obtain ⟨hit, -, hslots, -⟩ := captureEndIface_books hn hend
        rw [hslots, ← hc]
        cases hit <;> simp
    · rw [(captureStartIface_books (by rw [ht.count, hc]) hstart).1, Slots.length_put, hc]

end Runs

section Links
variable {M : Type} [Field M] {S : Setup M}

/-! ### The links that are down -/

/-- Link `i` has been up at some time. -/
def EverUp (tr : List (Trace.Step (Daemon M) (Event M))) (i : Fin maxNodeFan) : Prop :=
  ∃ st ∈ tr, st.after.this.node.linkStatuses i = .linkUp

instance (tr : List (Trace.Step (Daemon M) (Event M))) (i : Fin maxNodeFan) :
    Decidable (EverUp tr i) := by
  unfold EverUp; infer_instance

/-- The links that have been up at some time and are now down. -/
def downLinks (S : Setup M) (tr : List (Trace.Step (Daemon M) (Event M))) (s : Daemon M) :
    List (Fin maxNodeFan) :=
  (List.finRange maxNodeFan).filter fun i =>
    (i : ℕ) < S.links.length ∧ EverUp tr i ∧ s.this.node.linkStatuses i = .linkDown

/-- The bookkeeping records the interfaces of these links, and no others. -/
def Bookkeeping (S : Setup M) (tr : List (Trace.Step (Daemon M) (Event M))) (s : Daemon M) : Prop :=
  Records s.capture ((downLinks S tr s).map (ifaceName S))

instance (S : Setup M) (tr : List (Trace.Step (Daemon M) (Event M))) (s : Daemon M) :
    Decidable (Bookkeeping S tr s) := by
  unfold Bookkeeping; infer_instance

variable {tr : List (Trace.Step (Daemon M) (Event M))} {st : Trace.Step (Daemon M) (Event M)}
  {s : Daemon M} {i j : Fin maxNodeFan}

theorem mem_downLinks : j ∈ downLinks S tr s ↔
    (j : ℕ) < S.links.length ∧ EverUp tr j ∧ s.this.node.linkStatuses j = .linkDown := by
  simp [downLinks]

/-- A step counts as a time at which a link was up only if the link is up after it. -/
theorem mem_downLinks_snoc : j ∈ downLinks S (tr ++ [st]) st.after ↔
    (j : ℕ) < S.links.length ∧ EverUp tr j ∧ st.after.this.node.linkStatuses j = .linkDown := by
  have hever : EverUp (tr ++ [st]) j ↔ EverUp tr j ∨ st.after.this.node.linkStatuses j = .linkUp := by
    simp [EverUp, or_and_right, exists_or]
  rw [mem_downLinks, hever]
  refine and_congr_right fun _ => and_congr_left fun hdown => ?_
  simp [hdown]

theorem downLinks_still
    (h : st.after.this.node.linkStatuses = st.before.this.node.linkStatuses) :
    downLinks S (tr ++ [st]) st.after = downLinks S tr st.before := by
  refine Slots.filter_eq_of_mem fun j => ?_
  change j ∈ downLinks S (tr ++ [st]) st.after ↔ j ∈ downLinks S tr st.before
  rw [mem_downLinks_snoc, mem_downLinks, h]

theorem mem_downLinks_rise (h : st.after.this.node.linkStatuses =
      Function.update st.before.this.node.linkStatuses i .linkUp) :
    j ∈ downLinks S (tr ++ [st]) st.after ↔ j ∈ downLinks S tr st.before ∧ j ≠ i := by
  rw [mem_downLinks_snoc, mem_downLinks, h]
  by_cases hj : j = i
  · subst hj; simp
  · simp [hj]

/-- A link that comes up for the first time was not counted among those down. -/
theorem downLinks_firstUp (hever : ¬EverUp tr i) (h : st.after.this.node.linkStatuses =
      Function.update st.before.this.node.linkStatuses i .linkUp) :
    downLinks S (tr ++ [st]) st.after = downLinks S tr st.before := by
  refine Slots.filter_eq_of_mem fun j => (mem_downLinks_rise h).trans ?_
  exact and_iff_left_of_imp fun hj hji => hever (hji ▸ (mem_downLinks.mp hj).2.1)

theorem downLinks_fall (hi : (i : ℕ) < S.links.length) (hever : EverUp tr i)
    (hup : st.before.this.node.linkStatuses i = .linkUp) (h : st.after.this.node.linkStatuses =
      Function.update st.before.this.node.linkStatuses i .linkDown) :
    (downLinks S (tr ++ [st]) st.after).Perm (i :: downLinks S tr st.before) := by
  refine Slots.filter_perm_cons (mem_downLinks_snoc.mpr ⟨hi, hever, by rw [h]; simp⟩) fun j => ?_
  change j ∈ downLinks S tr st.before ↔ j ∈ downLinks S (tr ++ [st]) st.after ∧ j ≠ i
  rw [mem_downLinks_snoc, mem_downLinks, h]
  by_cases hj : j = i
  · subst hj; simp [hup]
  · simp [hj]

theorem startUp_bookkeeping [Libm M] (h : startUp S = .ok s) : Bookkeeping S [] s := by
  have hnone : downLinks S [] s = [] := by
    refine List.filter_eq_nil_iff.mpr fun j _ => ?_
    simp [EverUp]
  rw [Bookkeeping, hnone, (startUp_started h).capture]
  exact ⟨by simp [captureInit, openDump], rfl, by simp [captureInit, openDump]⟩

end Links

section Runs
variable {M : Type} [Field M] [LinearOrder M] [FloorRing M] [Libm M] {S : Setup M}

/-- A link that is up has been up. -/
theorem Run.everUp {tr : List (Trace.Step (Daemon M) (Event M))} {s : Daemon M} (hrun : Run S tr s)
    {i : Fin maxNodeFan} (hi : (i : ℕ) < S.links.length)
    (hup : s.this.node.linkStatuses i = .linkUp) : EverUp tr i := by
  cases hrun with
  | start h0 =>
    rw [(startUp_linked h0).2 i hi] at hup
    cases hup
  | step _ _ => exact ⟨_, List.mem_append_right _ List.mem_cons_self, hup⟩

/-- The bookkeeping agrees with the links after every iteration exactly when no link comes up for the
    first time while a link that has been up is down. -/
theorem bookkeeping_iff (hb : S.build = .dtlsr) (hstrcmp : S.strcmpNull = .ok false)
    {tr : List (Trace.Step (Daemon M) (Event M))} {s : Daemon M} (hrun : Run S tr s) :
    Trace.Along (fun pre st => Bookkeeping S (pre ++ [st]) st.after) tr ↔
      Trace.Along (fun pre st => ∀ i ∈ risen st, ¬EverUp pre i → downLinks S pre st.before = [])
        tr := by
  refine hrun.along_iff (I := fun tr s => Run S tr s ∧ Bookkeeping S tr s)
    (fun s h0 => ⟨.start h0, startUp_bookkeeping h0⟩) ?_
  rintro tr st ⟨hr, hinv⟩ hstep
  suffices h : Bookkeeping S (tr ++ [st]) st.after ↔
      ∀ i ∈ risen st, ¬EverUp tr i → downLinks S tr st.before = [] from
    ⟨h, fun hq => ⟨hr.step hstep, h.mpr hq⟩⟩
  obtain ⟨c, hbooks, hmove⟩ := hstep.moves hb (Run.linked hr)
  have hc : Records c ((downLinks S tr st.before).map (ifaceName S)) := hinv.sameBooks hbooks
  have hlen : c.downIfaces.length = S.links.length := by rw [hbooks.downIfaces, Run.slots hb hr]
  unfold Bookkeeping
  rcases hmove with ⟨hsame, hkept⟩ | ⟨i, hi, hdown, hup, t, ht, hend⟩ |
    ⟨i, hi, hup, hdown, t, hops, ht, hstart⟩
  · rw [(still hsame).1, downLinks_still hsame]
    exact iff_of_true (hc.sameBooks hkept) fun i hi => by cases hi
  · rw [(risen_of_update hdown hup).1]
    have hc' : (t.node.nNeighbours : ℤ) = c.downIfaces.length := by rw [ht.count, hlen]
    by_cases hever : EverUp tr i
    · have hrise : (downLinks S tr st.before).Perm (i :: downLinks S (tr ++ [st]) st.after) :=
        Slots.filter_perm_cons (mem_downLinks.mpr ⟨hi, hever, hdown⟩) fun j => mem_downLinks_rise hup
      rw [hstrcmp] at hend
      refine iff_of_true ((hc.perm (hrise.map (ifaceName S))).remove hc' hend) fun j hj hfirst => ?_
      cases hj
      exact absurd hever hfirst
    · rw [downLinks_firstUp hever hup]
      by_cases hnil : downLinks S tr st.before = []
      · rw [hnil] at hc ⊢
        exact iff_of_true (hc.ignore hend) fun _ _ _ => rfl
      · exact iff_of_false (hc.spoilt (by simpa using hnil) hend) fun h => hnil (h i rfl hever)
  · rw [(fallen_of_update hup hdown).1]
    have hfall := downLinks_fall hi (Run.everUp hr hi hup) hup hdown
    refine iff_of_true ?_ fun i hi => by cases hi
    refine (hc.start (by rw [ht.count, hlen]) ?_ hstart).perm (hfall.map (ifaceName S)).symm
    have hle : (downLinks S (tr ++ [st]) st.after).length ≤ S.links.length :=
      Slots.length_filter_le fun j hj => (mem_downLinks.mp hj).1
    rw [hfall.length_eq, List.length_cons] at hle
    rw [List.length_map, hlen]
    omega

end Runs

/-- One link comes up, goes down and comes up again before the other first does. -/
def oneThenOther : List (Event ℚ) :=
  [quietly (.heartbeat (inetAddr 10 0 0 2)), quietly (.timer 0),
    quietly (.heartbeat (inetAddr 10 0 0 2)), quietly (.heartbeat (inetAddr 10 0 1 3)),
    quietly (.timer 1)]

theorem bookkeeping_oneThenOther : ∃ tr s, Run (twoLinks .dtlsr id (pure false)) tr s ∧
    tr.map Trace.Step.event = oneThenOther ∧
    Trace.Along (fun pre st =>
      Bookkeeping (twoLinks .dtlsr id (pure false)) (pre ++ [st]) st.after) tr := by
  obtain ⟨tr, s, hrun, hevents, hfirst⟩ := exists_run (S := twoLinks .dtlsr id (pure false))
    oneThenOther (P := fun tr => Trace.Along (fun pre st => ∀ i ∈ risen st, ¬EverUp pre i →
      downLinks (twoLinks .dtlsr id (pure false)) pre st.before = []) tr) (by decide +kernel)
  exact ⟨tr, s, hrun, hevents, (bookkeeping_iff rfl rfl hrun).mpr hfirst⟩

/-- The other link first comes up while the one is down. -/
def otherWhileDown : List (Event ℚ) :=
  [quietly (.heartbeat (inetAddr 10 0 0 2)), quietly (.timer 0),
    quietly (.heartbeat (inetAddr 10 0 1 3))]

/-- Then nothing is captured any more, though a link is down. -/
theorem bookkeeping_spoilt : ¬∀ (S : Setup ℚ) (tr : List (Trace.Step (Daemon ℚ) (Event ℚ)))
    (s : Daemon ℚ), S.build = .dtlsr → S.strcmpNull = .ok false →
      (S.links.map LinkRow.interface).Nodup → Run S tr s →
      Trace.Along (fun pre st => Bookkeeping S (pre ++ [st]) st.after) tr := by
  intro h
  obtain ⟨tr, s, hrun, -, hbad⟩ := exists_run (S := twoLinks .dtlsr id (pure false)) otherWhileDown
    (P := fun tr => ¬Trace.Along (fun pre st =>
      Bookkeeping (twoLinks .dtlsr id (pure false)) (pre ++ [st]) st.after) tr) (by decide +kernel)
  exact hbad (h _ tr s rfl rfl (by decide) hrun)

end Dtlsr
