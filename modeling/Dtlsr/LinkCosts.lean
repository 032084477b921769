import Dtlsr.Backtrace
import Dtlsr.History

/-!
    The link metric over exact reals. The weights of the times up and down make up the whole window that
    the ring remembers, so the average is a share of it; while a link stays down its time up loses
    weight against the window. -/

namespace Dtlsr
open Checked

/-- The history with these times is read at `now`: not before its last time, and after the oldest one
    that the ring remembers, once there are two. -/
structure ReadAt (start : ℕ) (toggles : List ℕ) (now : ℕ) : Prop where
  sorted : (start :: toggles).Pairwise (· ≤ ·)
  reached : ∀ x ∈ start :: toggles, x ≤ now
  after : toggles ≠ [] → ((start :: toggles).rtake tsSize).headD now < now

/-- The phases that the ring remembers. -/
def window (ls : LinkState) (start : ℕ) (toggles : List ℕ) (now : ℕ) : List Phase :=
  (phases ls (start :: toggles) now).rtake tsSize

/-- The weight of the whole window. -/
noncomputable def windowWeight (falloff : ℝ) (start : ℕ) (toggles : List ℕ) (now : ℕ) : ℝ :=
  expWeight falloff now (((start :: toggles).rtake tsSize).headD now) now

variable {start now now1 now2 : ℕ} {toggles : List ℕ} {ls : LinkState} {falloff : ℝ}
  {ts : LSTimeSeries}

theorem rtake_headD (start : ℕ) (toggles : List ℕ) (now now' : ℕ) :
    ((start :: toggles).rtake tsSize).headD now = ((start :: toggles).rtake tsSize).headD now' := by
  have hpos : 0 < ((start :: toggles).rtake tsSize).length := by
    rw [List.rtake.eq_1, List.length_drop, List.length_cons]
    unfold tsSize
    omega
  obtain ⟨t, w, htw⟩ := List.exists_cons_of_length_pos hpos
  rw [htw]
  rfl

theorem ReadAt.oldest_le (h : ReadAt start toggles now) :
    ((start :: toggles).rtake tsSize).headD now ≤ now := by
  cases hw : (start :: toggles).rtake tsSize with
  | nil => exact le_rfl
  | cons t w => exact h.reached t (List.mem_of_mem_drop (hw ▸ List.mem_cons_self))

theorem ReadAt.later (h : ReadAt start toggles now1) (hle : now1 ≤ now2) :
    ReadAt start toggles now2 where
  sorted := h.sorted
  reached x hx := (h.reached x hx).trans hle
  after htwo := by
    rw [rtake_headD start toggles now2 now1]
    exact (h.after htwo).trans_le hle

/-! ### The share of the time up -/

theorem expWeight_nonneg (hf : 0 < falloff) {l r : ℕ} (hlr : l ≤ r) :
    0 ≤ expWeight falloff now l r := by
  have hcast : (l : ℝ) ≤ r := Nat.cast_le.mpr hlr
  rw [expWeight, sub_nonneg, Real.exp_le_exp]
  gcongr

theorem expWeight_pos (hf : 0 < falloff) {l r : ℕ} (hlr : l < r) :
    0 < expWeight falloff now l r := by
  have hcast : (l : ℝ) < r := Nat.cast_lt.mpr hlr
  rw [expWeight, sub_pos, Real.exp_lt_exp]
  gcongr

theorem stateWeight_nonneg (hf : 0 < falloff) (h : ReadAt start toggles now) (ls ls' : LinkState) :
    0 ≤ stateWeight (expWeight falloff now) ls' (window ls start toggles now) := by
  refine List.sum_nonneg fun w hw => ?_
  obtain ⟨q, hq, rfl⟩ := List.mem_map.mp hw
  have hmem := List.mem_of_mem_drop (List.mem_of_mem_filter hq)
  exact expWeight_nonneg hf (phase_le h.sorted h.reached hmem).1

theorem stateWeight_total (h : ReadAt start toggles now) (ls : LinkState) (falloff : ℝ) :
    stateWeight (expWeight falloff now) .linkUp (window ls start toggles now) +
      stateWeight (expWeight falloff now) .linkDown (window ls start toggles now) =
        windowWeight falloff start toggles now :=
  stateWeight_window ls h.sorted h.reached fun a b c _ _ _ => expWeight_add falloff now a b c

theorem ReadAt.windowWeight_nonneg (h : ReadAt start toggles now) (hf : 0 < falloff) :
    0 ≤ windowWeight falloff start toggles now := expWeight_nonneg hf h.oldest_le

theorem ReadAt.windowWeight_pos (h : ReadAt start toggles now) (hf : 0 < falloff)
    (htwo : toggles ≠ []) : 0 < windowWeight falloff start toggles now :=
  expWeight_pos hf (h.after htwo)

/-- The share of the window in which the link was up. -/
theorem upShare_mem (h : ReadAt start toggles now) (hf : 0 < falloff) (htwo : toggles ≠ [])
    (ls : LinkState) :
    0 ≤ stateWeight (expWeight falloff now) .linkUp (window ls start toggles now) /
        windowWeight falloff start toggles now ∧
      stateWeight (expWeight falloff now) .linkUp (window ls start toggles now) /
        windowWeight falloff start toggles now ≤ 1 := by
  have hpos := h.windowWeight_pos hf htwo
  have htotal := stateWeight_total h ls falloff
  have hdown := stateWeight_nonneg hf h ls .linkDown
  exact ⟨div_nonneg (stateWeight_nonneg hf h ls .linkUp) hpos.le, (div_le_one hpos).mpr (by linarith)⟩

/-- A history of one time has the average of its state. -/
theorem tsWeightedAverageUptime_single (p : HistParams ℝ) (h : Recorded ts [start]) (now : ℕ) :
    tsWeightedAverageUptime p ts now = linkStateToBool ts.currLinkState := by
  rw [tsWeightedAverageUptime, if_pos (h.nStates_eq_one.mpr rfl)]

theorem tsWeightedAverageUptime_mem (p : HistParams ℝ) (hf : 0 < p.falloff) (hp : 0 < p.power)
    (hrec : Recorded ts (start :: toggles))
    (hstate : ts.currLinkState = linkStateToggle^[toggles.length] ls)
    (h : ReadAt start toggles now) :
    0 ≤ tsWeightedAverageUptime p ts now ∧ tsWeightedAverageUptime p ts now ≤ 1 := by
  rcases eq_or_ne toggles [] with rfl | htwo
  · rw [tsWeightedAverageUptime_single p hrec]
    cases ts.currLinkState <;> simp [linkStateToBool]
  · rw [tsWeightedAverageUptime_phases p hrec hstate h.sorted h.reached htwo]
    obtain ⟨hlow, hhigh⟩ := upShare_mem h hf htwo ls
    exact ⟨Real.rpow_nonneg hlow _, Real.rpow_le_one hlow hhigh hp.le⟩

/-! ### Bounds -/

/-- A number that `ts_compute_metric` can return. -/
def IsLinkMetric (m : ℝ) : Prop :=
  ∃ (p : HistParams ℝ) (memory : LSTimeSeries) (ls : LinkState) (start : ℕ) (toggles : List ℕ)
    (now : ℕ) (ts : LSTimeSeries), 0 < p.falloff ∧ 0 < p.power ∧ ReadAt start toggles now ∧
      tsRecord memory ls start toggles = .ok ts ∧ m = tsComputeMetric p ts now

theorem tsComputeMetric_mem {p : HistParams ℝ} (hlow : 0 ≤ tsWeightedAverageUptime p ts now)
    (hhigh : tsWeightedAverageUptime p ts now ≤ 1) :
    1 / 1.0001 ≤ tsComputeMetric p ts now ∧ tsComputeMetric p ts now ≤ 10000 := by
  unfold tsComputeMetric
  split
  · norm_num
  · constructor
    · exact one_div_le_one_div_of_le (by linarith) (by linarith)
    · rw [div_le_iff₀ (by linarith)]
      linarith

theorem IsLinkMetric.le {m : ℝ} (h : IsLinkMetric m) : m ≤ 10000 := by
  obtain ⟨p, memory, ls, start, toggles, now, ts, hf, hp, hread, hts, rfl⟩ := h
  obtain ⟨ts', hts', hrec, hstate⟩ := tsRecord_recorded memory ls start toggles
  obtain rfl : ts = ts' := Except.ok.inj (hts.symm.trans hts')
  obtain ⟨hlow, hhigh⟩ := tsWeightedAverageUptime_mem p hf hp hrec hstate hread
  exact (tsComputeMetric_mem hlow hhigh).2

/-- Bounds: once two times are recorded the divisor of the average is positive, the average is a share,
    and the metric is within bounds that leave the sum over a path below the initial distance. -/
theorem link_metric_bounds (p : HistParams ℝ) (hf : 0 < p.falloff) (hp : 0 < p.power)
    (memory : LSTimeSeries) (ls : LinkState) (start : ℕ) (toggles : List ℕ) (now : ℕ)
    (h : ReadAt start toggles now) :
    (∃ ts, tsRecord memory ls start toggles = .ok ts ∧
      (ts.nStates ≠ 1 → 0 < integralBetween p (ts.timestamps (lastIdx ts)) now now) ∧
      0 ≤ tsWeightedAverageUptime p ts now ∧ tsWeightedAverageUptime p ts now ≤ 1 ∧
      1 / 1.0001 ≤ tsComputeMetric p ts now ∧ tsComputeMetric p ts now ≤ 10000) ∧
    ∀ (graph : Graph ℝ) (path : List (Fin maxNodeNum)), path.length - 1 ≤ maxNodeNum - 1 →
      (∀ m ∈ pathMetrics graph path, IsLinkMetric m) → (pathMetrics graph path).sum < infiniteDist := by
  refine ⟨?_, fun graph path hlen hm => ?_⟩
  · obtain ⟨ts, hts, hrec, hstate⟩ := tsRecord_recorded memory ls start toggles
    obtain ⟨hlow, hhigh⟩ := tsWeightedAverageUptime_mem p hf hp hrec hstate h
    refine ⟨ts, hts, fun htwo => ?_, hlow, hhigh, tsComputeMetric_mem hlow hhigh⟩
    rw [hrec.oldest (List.cons_ne_nil _ _) now]
    refine h.windowWeight_pos hf ?_
    rintro rfl
    exact htwo (hrec.nStates_eq_one.mpr rfl)
  · have hsum := List.sum_le_card_nsmul (pathMetrics graph path) 10000 fun m hmem => (hm m hmem).le
    rw [length_pathMetrics, nsmul_eq_mul] at hsum
    have hcast : ((path.length - 1 : ℕ) : ℝ) ≤ 11 := by exact_mod_cast hlen
    unfold infiniteDist
    linarith

/-- A link that was up from 0 to 3, read at 5. -/
theorem link_metric_bounds_down : ∃ ts, tsRecord
      { timestamps := fun _ => 0, front := 0, nStates := 0, full := false, currLinkState := .linkUp }
      .linkUp 0 [3] = .ok ts ∧
    1 / 1.0001 ≤ tsComputeMetric ({} : HistParams ℝ) ts 5 ∧
    tsComputeMetric ({} : HistParams ℝ) ts 5 ≤ 10000 := by
  obtain ⟨⟨ts, hts, -, -, -, hlow, hhigh⟩, -⟩ := link_metric_bounds {} (by norm_num) (by norm_num)
    { timestamps := fun _ => 0, front := 0, nStates := 0, full := false, currLinkState := .linkUp }
    .linkUp 0 [3] 5 ⟨by decide, by decide, by decide⟩
  exact ⟨ts, hts, hlow, hhigh⟩

/-! ### A link that is down -/

/-- The last phase, up to `now`, is not one of the phases up if the link is down. -/
theorem upWeight_of_down (hdown : linkStateToggle^[toggles.length] ls = .linkDown)
    (weight : ℕ → ℕ → ℝ) (start now1 now2 : ℕ) :
    stateWeight weight .linkUp (window ls start toggles now1) =
      stateWeight weight .linkUp (window ls start toggles now2) := by
  obtain ⟨times, t, htimes⟩ := List.eq_nil_or_concat (start :: toggles) |>.resolve_left
    (List.cons_ne_nil _ _)
  rw [List.concat_eq_append] at htimes
  have hlen : times.length = toggles.length := by
    have := congrArg List.length htimes
    simpa using this.symm
  have hwindow : ∀ now, stateWeight weight .linkUp (window ls start toggles now) =
      stateWeight weight .linkUp ((phases ls times t).drop (times.length + 1 - tsSize)) := by
    intro now
    rw [window, htimes, phases_concat, List.rtake.eq_1, List.length_append, length_phases,
      List.length_singleton, List.drop_append_of_le_length (by rw [length_phases]; unfold tsSize; omega),
      stateWeight_append, stateWeight_single, hlen, hdown, if_neg (by simp), add_zero]
  rw [hwindow, hwindow]

theorem expWeight_later (falloff : ℝ) (now1 now2 l r : ℕ) :
    expWeight falloff now2 l r =
      Real.exp (((now1 : ℝ) - now2) / falloff) * expWeight falloff now1 l r := by
  rw [expWeight, expWeight, mul_sub, ← Real.exp_add, ← Real.exp_add, ← add_div, ← add_div]
  congr 3 <;> ring

theorem stateWeight_mul {weight weight' : ℕ → ℕ → ℝ} {c : ℝ} (h : ∀ l r, weight' l r = c * weight l r)
    (ls : LinkState) (qs : List Phase) :
    stateWeight weight' ls qs = c * stateWeight weight ls qs := by
  unfold stateWeight
  rw [← List.sum_map_mul_left]
  congr 1
  exact List.map_congr_left fun q _ => h q.start q.stop

/-- With the time the window gains weight, compared to what it holds already. -/
theorem windowWeight_later (hf : 0 < falloff) (hle : now1 ≤ now2) (start : ℕ) (toggles : List ℕ) :
    Real.exp (((now1 : ℝ) - now2) / falloff) * windowWeight falloff start toggles now1 ≤
      windowWeight falloff start toggles now2 := by
  unfold windowWeight
  rw [← expWeight_later, rtake_headD start toggles now2 now1]
  rw [← expWeight_add falloff now2 _ now1 now2]
  exact le_add_of_nonneg_right (expWeight_nonneg hf hle)

/-- The share of the time up falls. -/
theorem upShare_later (h : ReadAt start toggles now1) (hf : 0 < falloff) (hle : now1 ≤ now2)
    (htwo : toggles ≠ []) (hdown : linkStateToggle^[toggles.length] ls = .linkDown) :
    stateWeight (expWeight falloff now2) .linkUp (window ls start toggles now2) /
        windowWeight falloff start toggles now2 ≤
      stateWeight (expWeight falloff now1) .linkUp (window ls start toggles now1) /
        windowWeight falloff start toggles now1 := by
  have hc : 0 < Real.exp (((now1 : ℝ) - now2) / falloff) := Real.exp_pos _
  have hpos := h.windowWeight_pos hf htwo
  have hup := stateWeight_nonneg hf h ls .linkUp
  rw [upWeight_of_down hdown _ start now2 now1,
    stateWeight_mul (expWeight_later falloff now1 now2) .linkUp,
    ← mul_div_mul_left _ (windowWeight falloff start toggles now1) hc.ne']
  exact div_le_div_of_nonneg_left (mul_nonneg hc.le hup) (mul_pos hc hpos)
    (windowWeight_later hf hle start toggles)

/-- While a link stays down, its metric does not fall. -/
theorem down_metric_mono (p : HistParams ℝ) (hf : 0 < p.falloff) (hp : 0 < p.power)
    (memory : LSTimeSeries) (ls : LinkState) (start : ℕ) (toggles : List ℕ) (now1 now2 : ℕ)
    (h : ReadAt start toggles now1) (hle : now1 ≤ now2) :
    ∃ ts, tsRecord memory ls start toggles = .ok ts ∧ (ts.currLinkState = .linkDown →
      tsComputeMetric p ts now1 ≤ tsComputeMetric p ts now2) := by
  obtain ⟨ts, hts, hrec, hstate⟩ := tsRecord_recorded memory ls start toggles
  refine ⟨ts, hts, fun hdown => ?_⟩
  have h2 := h.later hle
  have hlow := (tsWeightedAverageUptime_mem p hf hp hrec hstate h2).1
  have hfall : tsWeightedAverageUptime p ts now2 ≤ tsWeightedAverageUptime p ts now1 := by
    rcases eq_or_ne toggles [] with rfl | htwo
    · rw [tsWeightedAverageUptime_single p hrec, tsWeightedAverageUptime_single p hrec]
    · rw [tsWeightedAverageUptime_phases p hrec hstate h.sorted h.reached htwo,
        tsWeightedAverageUptime_phases p hrec hstate h2.sorted h2.reached htwo]
      exact Real.rpow_le_rpow (upShare_mem h2 hf htwo ls).1
        (upShare_later h hf hle htwo (hstate.symm.trans hdown)) hp.le
  have hne : ts.currLinkState ≠ .linkUp := by rw [hdown]; decide
  rw [tsComputeMetric, tsComputeMetric, if_neg hne, if_neg hne]
  exact one_div_le_one_div_of_le (by linarith) (by linarith)

/-- The link that failed at 3, at 5 and at 9. -/
theorem down_metric_mono_failed : ∃ ts, tsRecord
      { timestamps := fun _ => 0, front := 0, nStates := 0, full := false, currLinkState := .linkUp }
      .linkUp 0 [3] = .ok ts ∧ ts.currLinkState = .linkDown ∧
    tsComputeMetric ({} : HistParams ℝ) ts 5 ≤ tsComputeMetric ({} : HistParams ℝ) ts 9 := by
  obtain ⟨ts, hts, hmono⟩ := down_metric_mono {} (by norm_num) (by norm_num)
    { timestamps := fun _ => 0, front := 0, nStates := 0, full := false, currLinkState := .linkUp }
    .linkUp 0 [3] 5 9 ⟨by decide, by decide, by decide⟩ (by decide)
  have hdown : ts.currLinkState = .linkDown := tsRecord_state hts
  exact ⟨ts, hts, hdown, hmono hdown⟩

/-- A link that is down costs at least as much as one that is up exactly if it has been down for a
    sufficient share of the window. -/
theorem down_metric_ge_one_iff (memory : LSTimeSeries) (ls : LinkState) (start : ℕ)
    (toggles : List ℕ) (now : ℕ) (h : ReadAt start toggles now) :
    ∃ ts, tsRecord memory ls start toggles = .ok ts ∧ (ts.currLinkState = .linkDown →
      (1 ≤ tsComputeMetric ({} : HistParams ℝ) ts now ↔
        (1 - (9999 / 10000 : ℝ) ^ (1 / 4 : ℝ)) * windowWeight 320 start toggles now ≤
          stateWeight (expWeight 320 now) .linkDown (window ls start toggles now))) := by
  obtain ⟨ts, hts, hrec, hstate⟩ := tsRecord_recorded memory ls start toggles
  refine ⟨ts, hts, fun hdown => ?_⟩
  have hlow := (tsWeightedAverageUptime_mem {} (by norm_num) (by norm_num) hrec hstate h).1
  have hne : ts.currLinkState ≠ .linkUp := by rw [hdown]; decide
  have hmetric : 1 ≤ tsComputeMetric ({} : HistParams ℝ) ts now ↔
      tsWeightedAverageUptime ({} : HistParams ℝ) ts now ≤ 9999 / 10000 := by
    rw [tsComputeMetric, if_neg hne, le_div_iff₀ (by linarith)]
    constructor <;> intro <;> linarith
  have htotal := stateWeight_total h ls 320
  rw [hmetric]
  rcases eq_or_ne toggles [] with rfl | htwo
  · -- it has been down all the time
    have hup : stateWeight (expWeight 320 now) .linkUp (window ls start [] now) = 0 := by
      obtain rfl : LinkState.linkDown = ls := hdown.symm.trans hstate
      have hsingle : window .linkDown start [] now =
          [{ state := .linkDown, start := start, stop := now }] := rfl
      rw [hsingle, stateWeight_single, if_neg (by simp)]
    have hwindow := h.windowWeight_nonneg (show (0 : ℝ) < 320 by norm_num)
    have hroot : (0 : ℝ) ≤ (9999 / 10000 : ℝ) ^ (1 / 4 : ℝ) := Real.rpow_nonneg (by norm_num) _
    rw [tsWeightedAverageUptime_single _ hrec, hdown]
    refine ⟨fun _ => ?_, fun _ => by norm_num [linkStateToBool]⟩
    nlinarith
  · have hpos := h.windowWeight_pos (show (0 : ℝ) < 320 by norm_num) htwo
    have hshare := (upShare_mem h (show (0 : ℝ) < 320 by norm_num) htwo ls).1
    have hroot := Real.le_rpow_inv_iff_of_pos hshare (show (0 : ℝ) ≤ 9999 / 10000 by norm_num)
      (show (0 : ℝ) < 4 by norm_num)
    rw [tsWeightedAverageUptime_phases _ hrec hstate h.sorted h.reached htwo, one_div]
    refine hroot.symm.trans ?_
    rw [div_le_iff₀ hpos]
    constructor <;> intro <;> linarith

/-- A link that was up from 0 to 320, and is down for as long, has the share. -/
theorem late_share : (1 - (9999 / 10000 : ℝ) ^ (1 / 4 : ℝ)) * windowWeight 320 0 [320] 640 ≤
    stateWeight (expWeight 320 640) .linkDown (window .linkUp 0 [320] 640) := by
  have hroot : (9999 / 10000 : ℝ) ≤ (9999 / 10000 : ℝ) ^ (1 / 4 : ℝ) :=
    Real.self_le_rpow_of_le_one (by norm_num) (by norm_num) (by norm_num)
  have htotal : windowWeight 320 0 [320] 640 = 1 - Real.exp (-2) := by
    change expWeight 320 640 0 640 = _
    norm_num [expWeight]
  have hlast : (window .linkUp 0 [320] 640).filter (fun q => q.state = .linkDown) =
      [{ state := .linkDown, start := 320, stop := 640 }] := by decide
  have hshare : stateWeight (expWeight 320 640) .linkDown (window .linkUp 0 [320] 640) =
      1 - Real.exp (-1) := by
    rw [stateWeight, hlast]
    norm_num [expWeight]
  have hexp : Real.exp (-1) < 1 / 2 := by
    rw [Real.exp_neg, one_div]
    exact inv_strictAnti₀ (by norm_num) (by have := Real.add_one_lt_exp one_ne_zero; linarith)
  have hwindow : 1 - Real.exp (-2) ∈ Set.Icc (0 : ℝ) 1 :=
    ⟨by linarith [Real.exp_le_one_iff.mpr (show (-2 : ℝ) ≤ 0 by norm_num)],
      by linarith [Real.exp_pos (-2)]⟩
  rw [htotal, hshare]
  calc (1 - (9999 / 10000 : ℝ) ^ (1 / 4 : ℝ)) * (1 - Real.exp (-2))
      ≤ 1 / 10000 * 1 := mul_le_mul (by linarith) hwindow.2 hwindow.1 (by norm_num)
    _ ≤ 1 - Real.exp (-1) := by linarith

theorem down_metric_ge_one_late : ∃ ts, tsRecord
      { timestamps := fun _ => 0, front := 0, nStates := 0, full := false, currLinkState := .linkUp }
      .linkUp 0 [320] = .ok ts ∧ ts.currLinkState = .linkDown ∧
      1 ≤ tsComputeMetric ({} : HistParams ℝ) ts 640 := by
  obtain ⟨ts, hts, hiff⟩ := down_metric_ge_one_iff
    { timestamps := fun _ => 0, front := 0, nStates := 0, full := false, currLinkState := .linkUp }
    .linkUp 0 [320] 640 ⟨by decide, by decide, by decide⟩
  have hdown : ts.currLinkState = .linkDown := tsRecord_state hts
  exact ⟨ts, hts, hdown, (hiff hdown).mpr late_share⟩

/-- At the time of its failure this link is cheaper than while it was up. -/
theorem down_metric_at_failure : ReadAt 0 [320] 320 ∧ ∃ ts, tsRecord
      { timestamps := fun _ => 0, front := 0, nStates := 0, full := false, currLinkState := .linkUp }
      .linkUp 0 [320] = .ok ts ∧ ts.currLinkState = .linkDown ∧
    tsComputeMetric ({} : HistParams ℝ) ts 320 = 1 / 1.0001 ∧
    tsComputeMetric ({} : HistParams ℝ) ts 320 < 1 := by
  have h : ReadAt 0 [320] 320 := ⟨by decide, by decide, by decide⟩
  obtain ⟨ts, hts, hrec, hstate⟩ := tsRecord_recorded
    { timestamps := fun _ => 0, front := 0, nStates := 0, full := false, currLinkState := .linkUp }
    .linkUp 0 [320]
  have hdown : ts.currLinkState = .linkDown := hstate
  have hnone : stateWeight (expWeight 320 320) .linkDown (window .linkUp 0 [320] 320) = 0 := by
    have hlast : (window .linkUp 0 [320] 320).filter (fun q => q.state = .linkDown) =
        [{ state := .linkDown, start := 320, stop := 320 }] := by decide
    rw [stateWeight, hlast]
    simp [expWeight]
  have hpos := h.windowWeight_pos (show (0 : ℝ) < 320 by norm_num) (by decide)
  have hmetric : tsComputeMetric ({} : HistParams ℝ) ts 320 = 1 / 1.0001 := by
    have htotal := stateWeight_total h .linkUp 320
    rw [hnone, add_zero] at htotal
    have huptime : tsWeightedAverageUptime ({} : HistParams ℝ) ts 320 = 1 := by
      have hphases := tsWeightedAverageUptime_phases {} hrec hstate h.sorted h.reached (by decide)
      rw [hphases]
      change (stateWeight (expWeight 320 320) .linkUp (window .linkUp 0 [320] 320) /
        windowWeight 320 0 [320] 320) ^ (4 : ℝ) = 1
      rw [htotal, div_self hpos.ne', Real.one_rpow]
    rw [tsComputeMetric, if_neg (by rw [hdown]; decide), huptime]
    norm_num
  refine ⟨h, ts, hts, hdown, hmetric, ?_⟩
  rw [hmetric]
  norm_num

end Dtlsr
