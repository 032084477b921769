import Mathlib.Analysis.SpecialFunctions.Pow.Real
import Mathlib.Data.List.GetD
import Dtlsr.Lib.Ring
import Dtlsr.LinkHist

/-!
    What the ring of a link's history contains, and the averages computed from it. The reference is the
    list of the phases that the link has gone through: each time recorded starts a phase, and the state
    of the link changes from one phase to the next. -/

namespace Dtlsr
open Checked

instance : NeZero tsSize := ⟨by decide⟩

/-! ### The ring -/

/-- The times in the ring, oldest first. -/
def recorded (ts : LSTimeSeries) : List ℕ := Ring.contents ts.timestamps ts.front ts.nStates ts.full

/-- The ring into which the times have been pushed, one after another. -/
def Recorded (ts : LSTimeSeries) (times : List ℕ) : Prop :=
  Ring.Holds ts.timestamps ts.front ts.nStates ts.full times

variable {ts : LSTimeSeries} {times : List ℕ}

/-- The ring contains the last `TS_SIZE` times. -/
theorem Recorded.recorded_eq (h : Recorded ts times) : recorded ts = times.rtake tsSize :=
  Ring.Holds.contents_eq h

theorem tsToggleState_recorded (h : Recorded ts times) (ms : ℕ) :
    ∃ ts', tsToggleState ts ms = .ok ts' ∧ Recorded ts' (times ++ [ms]) ∧
      ts'.currLinkState = linkStateToggle ts.currLinkState := by
  have hfront : ts.front < tsSize := by
    rw [h.front]
    exact Nat.mod_lt _ (by decide)
  have hwrite := write_of_eq ts.timestamps (i := ts.front) ⟨ts.front, hfront⟩ rfl ms
  unfold tsToggleState
  rw [hwrite]
  exact ⟨_, rfl, h.push (i := ⟨ts.front, hfront⟩) rfl ms, rfl⟩

theorem tsInit_recorded (ts : LSTimeSeries) (ls : LinkState) (ms : ℕ) :
    ∃ ts', tsInit ts ls ms = .ok ts' ∧ Recorded ts' [ms] ∧ ts'.currLinkState = ls := by
  have hempty : Recorded
      { ts with currLinkState := linkStateToggle ls, front := 0, nStates := 0, full := false } [] :=
    Ring.Holds.nil (by decide)
  obtain ⟨ts', hts', hrecorded, hstate⟩ := tsToggleState_recorded hempty ms
  exact ⟨ts', hts', hrecorded, by rw [hstate, linkStateToggle_toggle]⟩

/-- `ts_init`, and then the status changes at the given times. -/
def tsRecord (ts : LSTimeSeries) (ls : LinkState) (start : ℕ) (toggles : List ℕ) :
    Exec LSTimeSeries := do
  let ts ← tsInit ts ls start
  toggles.foldlM tsToggleState ts

theorem toggles_recorded : ∀ (toggles : List ℕ) {ts : LSTimeSeries} {times : List ℕ},
    Recorded ts times → ∃ ts', toggles.foldlM tsToggleState ts = .ok ts' ∧
      Recorded ts' (times ++ toggles) ∧
      ts'.currLinkState = linkStateToggle^[toggles.length] ts.currLinkState := by
  intro toggles
  induction toggles with
  | nil =>
    intro ts times h
    exact ⟨ts, rfl, by rw [List.append_nil]; exact h, rfl⟩
  | cons ms toggles ih =>
    intro ts times h
    obtain ⟨ts1, hts1, h1, hstate1⟩ := tsToggleState_recorded h ms
    obtain ⟨ts2, hts2, h2, hstate2⟩ := ih h1
    refine ⟨ts2, by rw [List.foldlM_cons, hts1, ok_bind, hts2], ?_, ?_⟩
    · rw [List.append_assoc] at h2
      exact h2
    · rw [hstate2, hstate1, List.length_cons, Function.iterate_succ_apply]

theorem tsRecord_recorded (ts : LSTimeSeries) (ls : LinkState) (start : ℕ) (toggles : List ℕ) :
    ∃ ts', tsRecord ts ls start toggles = .ok ts' ∧ Recorded ts' (start :: toggles) ∧
      ts'.currLinkState = linkStateToggle^[toggles.length] ls := by
  obtain ⟨ts1, hts1, h1, hstate1⟩ := tsInit_recorded ts ls start
  obtain ⟨ts2, hts2, h2, hstate2⟩ := toggles_recorded toggles h1
  exact ⟨ts2, by rw [tsRecord, hts1, ok_bind, hts2], h2, by rw [hstate2, hstate1]⟩

theorem tsRecord_state {memory ts : LSTimeSeries} {ls : LinkState} {start : ℕ} {toggles : List ℕ}
    (h : tsRecord memory ls start toggles = .ok ts) :
    ts.currLinkState = linkStateToggle^[toggles.length] ls := by
  obtain ⟨ts', hts, -, hstate⟩ := tsRecord_recorded memory ls start toggles
  rw [h] at hts
  cases hts
  exact hstate

/-- The cell that an index expression selects, counted from the newest time. -/
theorem Recorded.cell_back (h : Recorded ts times) {x : ℤ} {k : ℕ}
    (hk : k < (times.rtake tsSize).length) (hx : (x + k + 1 - times.length) % tsSize = 0) :
    ts.timestamps (wrapIdx x) = (times.rtake tsSize).reverse.getD k 0 := by
  rw [List.getD_eq_getElem _ _ (by rw [List.length_reverse]; exact hk), List.getElem_reverse]
  simp only [List.rtake.eq_1, List.length_drop, List.getElem_drop] at hk ⊢
  have hcell := h.cell (times.length - 1 - k) (by omega) (by omega) (wrapIdx x) (by
    unfold wrapIdx tsSize at *
    simp only
    omega)
  rw [hcell]
  congr 1
  omega

theorem Recorded.length_kept (h : Recorded ts times) : (times.rtake tsSize).length = ts.nStates := by
  rw [h.count, List.rtake.eq_1, List.length_drop]
  omega

/-- The index of the newest time. -/
theorem Recorded.newest_idx (h : Recorded ts times) (hne : times ≠ []) :
    ((wrapIdx (ts.front - 1) : ℕ) : ℤ) = (times.length - 1) % tsSize := by
  have hfront := h.front
  have hpos := List.length_pos_of_ne_nil hne
  unfold wrapIdx tsSize at *
  simp only
  omega

/-- `last_idx` finds the oldest time that the ring still has. -/
theorem Recorded.oldest (h : Recorded ts times) (hne : times ≠ []) (now : ℕ) :
    ts.timestamps (lastIdx ts) = (times.rtake tsSize).headD now := by
  have hpos := List.length_pos_of_ne_nil hne
  have hlen := h.length_kept
  have hcount : ts.nStates = min tsSize times.length := h.count
  have hcountpos : 0 < ts.nStates := by rw [hcount]; unfold tsSize; omega
  have hcell : ts.timestamps (lastIdx ts) =
      (times.rtake tsSize).reverse.getD (ts.nStates - 1) 0 := by
    have hfront := h.front
    unfold lastIdx
    split
    · rename_i hfull
      have hfull := h.full.mp hfull
      refine h.cell_back (by rw [hlen]; omega) ?_
      unfold tsSize at *
      omega
    · rename_i hfull
      have hfull := mt h.full.mpr hfull
      refine h.cell_back (by rw [hlen]; omega) ?_
      unfold tsSize at *
      omega
  obtain ⟨t, w, hw⟩ := List.exists_cons_of_ne_nil
    (List.ne_nil_of_length_pos (by rw [hlen]; exact hcountpos))
  have hzero : w.length - (ts.nStates - 1) = 0 := by
    rw [hw, List.length_cons] at hlen
    omega
  rw [hcell, List.getD_eq_getElem _ _ (by rw [List.length_reverse, hlen]; omega),
    List.getElem_reverse]
  simp [hw, hzero]

/-! ### The loop of the averages -/

section Loop
variable {M : Type} [Field M] (weight : ℕ → ℕ → M)

/-- The weight of every other interval, back from `stop` over the times before it, newest first. -/
def everyOther : ℕ → List ℕ → M
  | _, [] => 0
  | stop, [t] => weight t stop
  | stop, t :: t' :: rest => weight t stop + everyOther t' rest

theorem foldl_add (f : ℕ → M) : ∀ (l : List ℕ) (a : M),
    l.foldl (fun sum k => sum + f k) a = a + (l.map f).sum := by
  intro l
  induction l with
  | nil =>
    intro a
    simp
  | cons k l ih =>
    intro a
    rw [List.foldl_cons, ih, List.map_cons, List.sum_cons, add_assoc]

theorem everyOther_eq : ∀ (r : List ℕ) (stop : ℕ), r ≠ [] →
    weight (r.getD 0 0) stop + ((List.range ((r.length - 1) / 2)).map fun k =>
      weight (r.getD (2 * k + 2) 0) (r.getD (2 * k + 1) 0)).sum = everyOther weight stop r
  | [], _, h => absurd rfl h
  | [t], stop, _ => by simp [everyOther]
  | [t, t'], stop, _ => by simp [everyOther]
  | t :: t' :: u :: rest, stop, _ => by
    have hlen : ((t :: t' :: u :: rest).length - 1) / 2 = ((u :: rest).length - 1) / 2 + 1 := by
      simp only [List.length_cons]
      omega
    have hnext := everyOther_eq (u :: rest) t' (List.cons_ne_nil _ _)
    rw [everyOther, ← hnext, hlen, List.range_succ_eq_map, List.map_cons, List.sum_cons, List.map_map]
    rfl

/-- The loop goes back over the recorded times; the state decides whether it has summed up the time that
    the link was up, or that it was down. -/
theorem uptimeRatio_eq (h : Recorded ts times) (hne : times ≠ []) (now : ℕ) :
    uptimeRatio weight ts now =
      (if ts.currLinkState = .linkDown then
        weight ((times.rtake tsSize).headD now) now -
          everyOther weight now (times.rtake tsSize).reverse
        else everyOther weight now (times.rtake tsSize).reverse) /
      weight ((times.rtake tsSize).headD now) now := by
  have hpos := List.length_pos_of_ne_nil hne
  have hlen := h.length_kept
  have hcount : ts.nStates = min tsSize times.length := h.count
  have hcountpos : 0 < ts.nStates := by rw [hcount]; unfold tsSize; omega
  have hfirst := h.newest_idx hne
  have hnewest : ts.timestamps (wrapIdx (wrapIdx (ts.front - 1) : ℕ)) =
      (times.rtake tsSize).reverse.getD 0 0 := by
    refine h.cell_back (by rw [hlen]; exact hcountpos) ?_
    rw [hfirst]
    unfold tsSize
    omega
  have hterm : ∀ k ∈ List.range ((ts.nStates - 1) / 2),
      weight (ts.timestamps (wrapIdx (-2 * k + (wrapIdx (ts.front - 1) : ℕ) - 2)))
        (ts.timestamps (wrapIdx (-2 * k + (wrapIdx (ts.front - 1) : ℕ) - 1))) =
      weight ((times.rtake tsSize).reverse.getD (2 * k + 2) 0)
        ((times.rtake tsSize).reverse.getD (2 * k + 1) 0) := by
    intro k hk
    rw [List.mem_range] at hk
    rw [h.cell_back (k := 2 * k + 2) (by rw [hlen]; omega), h.cell_back (k := 2 * k + 1)
      (by rw [hlen]; omega)] <;> rw [hfirst] <;> unfold tsSize <;> push_cast <;> omega
  have hsum := everyOther_eq weight (times.rtake tsSize).reverse now
    (List.reverse_ne_nil_iff.mpr (List.ne_nil_of_length_pos (by rw [hlen]; exact hcountpos)))
  rw [List.length_reverse, hlen] at hsum
  have hcast : (do let k ← List.range ((ts.nStates - 1) / 2); pure (k : ℤ)) =
      (List.range ((ts.nStates - 1) / 2)).map fun k : ℕ => (k : ℤ) := by
    rw [List.map_eq_flatMap]
    rfl
  unfold uptimeRatio
  dsimp only
  rw [hcast, List.foldl_map, foldl_add, h.oldest hne now, hnewest, List.map_congr_left hterm, hsum]

end Loop

/-! ### The phases of a link -/

/-- A time during which the link keeps its state. -/
structure Phase where
  state : LinkState
  start : ℕ
  stop : ℕ
  deriving DecidableEq

/-- The phases up to `now` of a link that starts in the state `ls`, and changes it at each time after
    the first. -/
def phases : LinkState → List ℕ → ℕ → List Phase
  | _, [], _ => []
  | ls, t :: times, now =>
    { state := ls, start := t, stop := times.headD now } :: phases (linkStateToggle ls) times now

/-- The state at time `u` of a link that starts in the state `ls`. -/
def stateAt (ls : LinkState) (toggles : List ℕ) (u : ℕ) : LinkState :=
  linkStateToggle^[toggles.countP fun t => t ≤ u] ls

theorem length_phases : ∀ (ls : LinkState) (times : List ℕ) (now : ℕ),
    (phases ls times now).length = times.length := by
  intro ls times
  induction times generalizing ls with
  | nil =>
    intro _
    rfl
  | cons t times ih =>
    intro now
    rw [phases, List.length_cons, ih (linkStateToggle ls) now, List.length_cons]

theorem phases_concat : ∀ (ls : LinkState) (times : List ℕ) (t now : ℕ),
    phases ls (times ++ [t]) now =
      phases ls times t ++ [{ state := linkStateToggle^[times.length] ls, start := t, stop := now }]
  | _, [], _, _ => rfl
  | ls, x :: times, t, now => by
    have hstop : (times ++ [t]).headD now = times.headD t := by cases times <;> rfl
    rw [List.cons_append, phases, phases_concat (linkStateToggle ls) times t now, hstop, phases,
      List.cons_append, List.length_cons, Function.iterate_succ_apply]

theorem phases_drop : ∀ (k : ℕ) (ls : LinkState) (times : List ℕ) (now : ℕ),
    (phases ls times now).drop k = phases (linkStateToggle^[k] ls) (times.drop k) now
  | 0, _, _, _ => rfl
  | _ + 1, _, [], _ => rfl
  | k + 1, ls, t :: times, now => by
    rw [phases, List.drop_succ_cons, phases_drop k, List.drop_succ_cons, Function.iterate_succ_apply]

theorem start_mem : ∀ {ls : LinkState} {times : List ℕ} {now : ℕ} {q : Phase},
    q ∈ phases ls times now → q.start ∈ times
  | _, [], _, _, h => by cases h
  | ls, t :: times, now, q, h => by
    rw [phases] at h
    rcases List.mem_cons.mp h with rfl | h
    · exact List.mem_cons_self
    · exact List.mem_cons_of_mem t (start_mem h)

/-- Throughout a phase the link is in its state. -/
theorem stateAt_of_phase : ∀ {ls : LinkState} {t : ℕ} {toggles : List ℕ} {now u : ℕ} {q : Phase},
    (t :: toggles).Pairwise (· ≤ ·) → q ∈ phases ls (t :: toggles) now → q.start ≤ u → u < q.stop →
      stateAt ls toggles u = q.state
  | ls, t, toggles, now, u, q, hsorted, hq, hstart, hstop => by
    rw [phases] at hq
    rcases List.mem_cons.mp hq with rfl | hq
    · -- no change has come before the first one
      have hnone : toggles.countP (fun t => t ≤ u) = 0 := by
        cases toggles with
        | nil => rfl
        | cons t' toggles =>
          refine List.countP_eq_zero.mpr fun x hx => ?_
          have hle : t' ≤ x := by
            rcases List.mem_cons.mp hx with rfl | hx
            · exact le_rfl
            · exact List.rel_of_pairwise_cons hsorted.of_cons hx
          simp only [List.headD_cons] at hstop
          simp only [decide_eq_true_eq]
          omega
      rw [stateAt, hnone]
      rfl
    · cases toggles with
      | nil => cases hq
      | cons t' toggles =>
        have hle : t' ≤ q.start := by
          rcases List.mem_cons.mp (start_mem hq) with h | h
          · exact h.ge
          · exact List.rel_of_pairwise_cons hsorted.of_cons h
        rw [← stateAt_of_phase hsorted.of_cons hq hstart hstop, stateAt, stateAt,
          List.countP_cons_of_pos (by simp only [decide_eq_true_eq]; omega),
          Function.iterate_succ_apply]

section Weights
variable {M : Type} [Field M] (weight : ℕ → ℕ → M)

/-- The weight of the phases in which the link is in a state. -/
def stateWeight (ls : LinkState) (qs : List Phase) : M :=
  ((qs.filter fun q => q.state = ls).map fun q => weight q.start q.stop).sum

theorem stateWeight_append (ls : LinkState) (qs qs' : List Phase) :
    stateWeight weight ls (qs ++ qs') = stateWeight weight ls qs + stateWeight weight ls qs' := by
  rw [stateWeight, List.filter_append, List.map_append, List.sum_append]
  rfl

theorem stateWeight_single (ls : LinkState) (q : Phase) :
    stateWeight weight ls [q] = if q.state = ls then weight q.start q.stop else 0 := by
  unfold stateWeight
  split
  · rename_i h
    simp [h]
  · rename_i h
    simp [h]

theorem stateWeight_both : ∀ qs : List Phase,
    stateWeight weight .linkUp qs + stateWeight weight .linkDown qs =
      (qs.map fun q => weight q.start q.stop).sum := by
  intro qs
  induction qs with
  | nil =>
    simp [stateWeight]
  | cons q qs ih =>
    have hcons : ∀ ls, stateWeight weight ls (q :: qs) =
        (if q.state = ls then weight q.start q.stop else 0) + stateWeight weight ls qs := by
      intro ls
      rw [← stateWeight_single, ← stateWeight_append]
      rfl
    rw [hcons, hcons, List.map_cons, List.sum_cons, ← ih]
    cases q.state <;> simp <;> ring

/-- Going back over every other interval sums up the phases in the last state. -/
theorem everyOther_phases : ∀ (r : List ℕ) (ls : LinkState) (stop : ℕ), r ≠ [] →
    everyOther weight stop r =
      stateWeight weight (linkStateToggle^[r.length - 1] ls) (phases ls r.reverse stop)
  | [], _, _, h => absurd rfl h
  | [t], ls, stop, _ => by
    simp [everyOther, phases, stateWeight]
  | t :: t' :: rest, ls, stop, _ => by
    have hlast : linkStateToggle^[rest.length + 1] ls ≠ linkStateToggle^[rest.length] ls := by
      rw [Function.iterate_succ_apply']
      cases linkStateToggle^[rest.length] ls <;> simp [linkStateToggle]
    rw [everyOther, List.reverse_cons, List.reverse_cons, phases_concat, phases_concat,
      stateWeight_append, stateWeight_append, stateWeight_single, stateWeight_single]
    simp only [List.length_append, List.length_reverse, List.length_cons, List.length_nil, zero_add,
      Nat.add_sub_cancel, if_true, if_neg hlast.symm, add_zero]
    rcases List.eq_nil_or_concat rest with rfl | ⟨_, _, hne⟩
    · simp [everyOther, phases, stateWeight]
    · have hne : rest ≠ [] := by rw [hne]; simp
      have hpos := List.length_pos_of_ne_nil hne
      have htwice : linkStateToggle^[rest.length + 1] ls = linkStateToggle^[rest.length - 1] ls := by
        obtain ⟨m, hm⟩ : ∃ m, rest.length = m + 1 := ⟨rest.length - 1, by omega⟩
        rw [hm, Function.iterate_succ_apply', Function.iterate_succ_apply', linkStateToggle_toggle]
        rfl
      rw [htwice, ← everyOther_phases rest ls t' hne, add_comm]

variable {weight}

/-- The phases together weigh as much as the whole time. -/
theorem weight_phases {now : ℕ} (hadd : ∀ a b c, a ≤ b → b ≤ c → c ≤ now →
      weight a b + weight b c = weight a c) : ∀ {toggles : List ℕ} {ls : LinkState} {t : ℕ},
    (t :: toggles).Pairwise (· ≤ ·) → (∀ x ∈ t :: toggles, x ≤ now) →
      ((phases ls (t :: toggles) now).map fun q => weight q.start q.stop).sum = weight t now := by
  intro toggles
  induction toggles with
  | nil =>
    intro ls t _ _
    simp [phases]
  | cons t' toggles ih =>
    intro ls t hsorted hnow
    have hrest : ((phases (linkStateToggle ls) (t' :: toggles) now).map fun q =>
        weight q.start q.stop).sum = weight t' now :=
      ih hsorted.of_cons fun x hx => hnow x (List.mem_cons_of_mem t hx)
    rw [phases, List.map_cons, List.sum_cons, hrest]
    exact hadd t t' now (List.rel_of_pairwise_cons hsorted List.mem_cons_self)
      (hnow t' (by simp)) le_rfl

/-- The phases that the ring remembers are those of its times. -/
theorem phases_window (ls : LinkState) (times : List ℕ) (now : ℕ) :
    (phases ls times now).rtake tsSize =
      phases (linkStateToggle^[times.length - tsSize] ls) (times.rtake tsSize) now := by
  rw [List.rtake.eq_1, length_phases, phases_drop, List.rtake.eq_1]

/-- The two states share the whole time since the oldest time that the ring remembers. -/
theorem stateWeight_window {start now : ℕ} {toggles : List ℕ} (ls : LinkState)
    (hsorted : (start :: toggles).Pairwise (· ≤ ·)) (hnow : ∀ x ∈ start :: toggles, x ≤ now)
    (hadd : ∀ a b c, a ≤ b → b ≤ c → c ≤ now → weight a b + weight b c = weight a c) :
    stateWeight weight .linkUp ((phases ls (start :: toggles) now).rtake tsSize) +
      stateWeight weight .linkDown ((phases ls (start :: toggles) now).rtake tsSize) =
        weight (((start :: toggles).rtake tsSize).headD now) now := by
  have hpos : 0 < ((start :: toggles).rtake tsSize).length := by
    rw [List.rtake.eq_1, List.length_drop, List.length_cons]
    unfold tsSize
    omega
  rw [stateWeight_both, phases_window]
  obtain ⟨t, w, htw⟩ := List.exists_cons_of_length_pos hpos
  have hsub : (t :: w).Sublist (start :: toggles) := by
    rw [← htw]
    exact List.drop_sublist _ _
  rw [htw]
  exact weight_phases hadd (hsorted.sublist hsub) fun x hx => hnow x (hsub.subset hx)

/-- The ratio is that of the time that the link was up, in the phases that the ring remembers. -/
theorem uptimeRatio_phases {start now : ℕ} {toggles : List ℕ} {ls : LinkState}
    (h : Recorded ts (start :: toggles))
    (hstate : ts.currLinkState = linkStateToggle^[toggles.length] ls)
    (hsorted : (start :: toggles).Pairwise (· ≤ ·)) (hnow : ∀ x ∈ start :: toggles, x ≤ now)
    (hadd : ∀ a b c, a ≤ b → b ≤ c → c ≤ now → weight a b + weight b c = weight a c) :
    uptimeRatio weight ts now =
      stateWeight weight .linkUp ((phases ls (start :: toggles) now).rtake tsSize) /
        weight (((start :: toggles).rtake tsSize).headD now) now := by
  have htotal := stateWeight_window ls hsorted hnow hadd
  generalize htimes : start :: toggles = times at *
  have hlength : toggles.length + 1 = times.length := by rw [← htimes, List.length_cons]
  have hne : times ≠ [] := by rw [← htimes]; exact List.cons_ne_nil _ _
  have hwlen : (times.rtake tsSize).length = times.length - (times.length - tsSize) := by
    rw [List.rtake.eq_1, List.length_drop]
  have hwpos : 0 < (times.rtake tsSize).length := by
    rw [hwlen]
    unfold tsSize
    omega
  have hlast : ts.currLinkState = linkStateToggle^[(times.rtake tsSize).length - 1]
      (linkStateToggle^[times.length - tsSize] ls) := by
    rw [hstate, ← Function.iterate_add_apply]
    congr 2
    rw [hwlen]
    unfold tsSize
    omega
  have hback := everyOther_phases weight (times.rtake tsSize).reverse
    (linkStateToggle^[times.length - tsSize] ls) now
    (List.reverse_ne_nil_iff.mpr (List.ne_nil_of_length_pos hwpos))
  rw [List.length_reverse, List.reverse_reverse, ← hlast] at hback
  rw [uptimeRatio_eq weight h hne, hback, ← phases_window, ← htotal]
  cases hcurr : ts.currLinkState with
  | linkDown => simp
  | linkUp => simp

end Weights

/-! ### The averages over exact reals -/

noncomputable instance : Libm ℝ where
  exp := Real.exp
  pow x y := x ^ y

/-- A phase does not end before it starts, nor after `now`. -/
theorem phase_le : ∀ {ls : LinkState} {times : List ℕ} {now : ℕ} {q : Phase},
    times.Pairwise (· ≤ ·) → (∀ x ∈ times, x ≤ now) → q ∈ phases ls times now →
      q.start ≤ q.stop ∧ q.stop ≤ now
  | _, [], _, _, _, _, h => by cases h
  | ls, t :: times, now, q, hsorted, hnow, h => by
    rw [phases] at h
    rcases List.mem_cons.mp h with rfl | h
    · cases times with
      | nil => exact ⟨hnow t (by simp), le_rfl⟩
      | cons t' times =>
        exact ⟨List.rel_of_pairwise_cons hsorted List.mem_cons_self, hnow t' (by simp)⟩
    · exact phase_le hsorted.of_cons (fun x hx => hnow x (List.mem_cons_of_mem t hx)) h

theorem duration_eq {M : Type} [Field M] {l r : ℕ} (hl : l ≤ r) (hr : r < 2 ^ 64) :
    duration l r = (r : M) - l := by
  have hmod : (((r : ℤ) - l) % 2 ^ 64).toNat = r - l := by omega
  rw [duration, hmod, Nat.cast_sub hl]

/-- The integral, up to a constant factor, of `exp((t - now) / falloff)` from `l` to `r`. -/
noncomputable def expWeight (falloff : ℝ) (now l r : ℕ) : ℝ :=
  Real.exp ((r - now) / falloff) - Real.exp ((l - now) / falloff)

theorem stateWeight_congr {M : Type} [Field M] {weight weight' : ℕ → ℕ → M} {ls : LinkState}
    {qs : List Phase} (h : ∀ q ∈ qs, weight q.start q.stop = weight' q.start q.stop) :
    stateWeight weight ls qs = stateWeight weight' ls qs := by
  unfold stateWeight
  rw [List.map_congr_left fun q hq => h q (List.mem_of_mem_filter hq)]

theorem expWeight_add (falloff : ℝ) (now a b c : ℕ) :
    expWeight falloff now a b + expWeight falloff now b c = expWeight falloff now a c := by
  unfold expWeight
  ring

theorem Recorded.nStates_eq_one (h : Recorded ts times) : ts.nStates = 1 ↔ times.length = 1 := by
  have hcount : ts.nStates = min tsSize times.length := h.count
  rw [hcount]
  unfold tsSize
  omega

theorem tsWeightedAverageUptime_phases (p : HistParams ℝ) {start now : ℕ} {toggles : List ℕ}
    {ls : LinkState} (h : Recorded ts (start :: toggles))
    (hstate : ts.currLinkState = linkStateToggle^[toggles.length] ls)
    (hsorted : (start :: toggles).Pairwise (· ≤ ·)) (hnow : ∀ x ∈ start :: toggles, x ≤ now)
    (htwo : toggles ≠ []) :
    tsWeightedAverageUptime p ts now =
      (stateWeight (expWeight p.falloff now) .linkUp
          ((phases ls (start :: toggles) now).rtake tsSize) /
        expWeight p.falloff now (((start :: toggles).rtake tsSize).headD now) now) ^ p.power := by
  have hmany : ts.nStates ≠ 1 := by
    rw [Ne, h.nStates_eq_one, List.length_cons]
    have := List.length_pos_of_ne_nil htwo
    omega
  rw [tsWeightedAverageUptime, if_neg hmany]
  have hratio := uptimeRatio_phases h hstate hsorted hnow
    fun a b c _ _ _ => expWeight_add p.falloff now a b c
  rw [← hratio]
  rfl

/-- The averages are the weight of the phases in which the link was up, of those that the ring
    remembers, against the weight of the whole time since the first of them began. -/
theorem uptime_averages (p : HistParams ℝ) (memory : LSTimeSeries) (ls : LinkState) (start : ℕ)
    (toggles : List ℕ) (now : ℕ) (hsorted : (start :: toggles).Pairwise (· ≤ ·))
    (hnow : ∀ x ∈ start :: toggles, x ≤ now) (hlong : now < 2 ^ 64) (htwo : toggles ≠ []) :
    ∃ ts, tsRecord memory ls start toggles = .ok ts ∧
      (∀ q ∈ phases ls (start :: toggles) now, ∀ u, q.start ≤ u → u < q.stop →
        stateAt ls toggles u = q.state) ∧
      tsAverageUptime ts now =
        stateWeight (fun l r => (r : ℝ) - l) .linkUp
            ((phases ls (start :: toggles) now).rtake tsSize) /
          ((now : ℝ) - ((start :: toggles).rtake tsSize).headD now) ∧
      tsWeightedAverageUptime p ts now =
        (stateWeight (expWeight p.falloff now) .linkUp
            ((phases ls (start :: toggles) now).rtake tsSize) /
          expWeight p.falloff now (((start :: toggles).rtake tsSize).headD now) now) ^ p.power := by
  obtain ⟨ts, hts, hrecorded, hstate⟩ := tsRecord_recorded memory ls start toggles
  have hmany : ts.nStates ≠ 1 := by
    rw [Ne, hrecorded.nStates_eq_one, List.length_cons]
    have := List.length_pos_of_ne_nil htwo
    omega
  refine ⟨ts, hts, fun q hq u => stateAt_of_phase hsorted hq, ?_, ?_⟩
  · have hadd : ∀ a b c, a ≤ b → b ≤ c → c ≤ now →
        duration a b + duration b c = (duration a c : ℝ) := by
      intro a b c hab hbc hc
      rw [duration_eq hab (by omega), duration_eq hbc (by omega),
        duration_eq (hab.trans hbc) (by omega)]
      ring
    have hweights : ∀ q ∈ (phases ls (start :: toggles) now).rtake tsSize,
        duration q.start q.stop = (q.stop : ℝ) - q.start := by
      intro q hq
      obtain ⟨hle, hstop⟩ := phase_le hsorted hnow (List.mem_of_mem_drop hq)
      exact duration_eq hle (by omega)
    have holdest : ((start :: toggles).rtake tsSize).headD now ≤ now := by
      cases hw : (start :: toggles).rtake tsSize with
      | nil => exact le_rfl
      | cons t w => exact hnow t (List.mem_of_mem_drop (hw ▸ List.mem_cons_self))
    have hsame : stateWeight duration .linkUp ((phases ls (start :: toggles) now).rtake tsSize) =
        stateWeight (fun l r => (r : ℝ) - l) .linkUp
          ((phases ls (start :: toggles) now).rtake tsSize) := stateWeight_congr hweights
    rw [tsAverageUptime, if_neg hmany, uptimeRatio_phases hrecorded hstate hsorted hnow hadd, hsame,
      duration_eq holdest hlong]
  · exact tsWeightedAverageUptime_phases p hrecorded hstate hsorted hnow htwo

/-- Up from 1 to 4 and from 5 to 8, and `falloff` and `power` at their defaults. -/
theorem uptime_averages_flaps : ∃ ts, tsRecord
      { timestamps := fun _ => 0, front := 0, nStates := 0, full := false, currLinkState := .linkUp }
      .linkDown 0 [1, 4, 5] = .ok ts ∧ tsAverageUptime ts 8 = (6 / 8 : ℝ) ∧
      tsWeightedAverageUptime ({} : HistParams ℝ) ts 8 =
        ((expWeight 320 8 1 4 + expWeight 320 8 5 8) / expWeight 320 8 0 8) ^ (4 : ℝ) := by
  obtain ⟨ts, hts, -, haverage, hweighted⟩ := uptime_averages {}
    { timestamps := fun _ => 0, front := 0, nStates := 0, full := false, currLinkState := .linkUp }
    .linkDown 0 [1, 4, 5] 8 (by decide) (by decide) (by decide) (by decide)
  have hup : ((phases .linkDown [0, 1, 4, 5] 8).rtake tsSize).filter (fun q => q.state = .linkUp) =
      [{ state := .linkUp, start := 1, stop := 4 }, { state := .linkUp, start := 5, stop := 8 }] := by
    decide
  have holdest : ([0, 1, 4, 5].rtake tsSize).headD 8 = 0 := by decide
  refine ⟨ts, hts, ?_, ?_⟩
  · rw [haverage, stateWeight, hup, holdest]
    norm_num
  · rw [hweighted, stateWeight, hup, holdest]
    norm_num

end Dtlsr
