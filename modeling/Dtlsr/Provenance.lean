import Dtlsr.Closure
import Dtlsr.OwnRecord

/-!
    Where the records come from. Every seen record in a database or in a message, of any router and at
    any time, is one that the router of that id has made at a reading of its clock: an LSA that it sent,
    or its own record as an iteration left it. So records are neither mixed nor made up on their way. -/

namespace Dtlsr
open Checked

/-! ### What an iteration sends, and which records it makes -/

section Iteration
variable {M : Type} [Field M] [LinearOrder M] [FloorRing M] [Libm M] {S : Setup M}

/-- The event brings no router LSA. -/
def Active.NoRouterLsa {M : Type} (a : Active M) : Prop := ∀ lsa source, a ≠ .routerLsa lsa source

/-- What an iteration for the event `a` adds to the messages sent. -/
inductive Sending (a : Active M) (s s' : Daemon M) : Sent M → Prop where
  | nothing (event : a.NoRouterLsa) (originated : s'.originated = s.originated) : Sending a s s' []
  | own (r : Node M) (event : a.NoRouterLsa) (originated : s'.originated = s.originated ++ [r]) :
      Sending a s s' (sendRouterLsa s.this.node r)
  | passedOn (lsa : Node M) (source : Ip) (u : Bool) (event : a = .routerLsa lsa source)
      (call : mergeInNode s.graph lsa = .ok (s'.graph, u)) (originated : s'.originated = s.originated) :
      Sending a s s' (if u then sendRouterLsaExcept s.this.node lsa source else [])
  | snapshot (source : Ip) (event : a = .networkLsaRequest source)
      (originated : s'.originated = s.originated) :
      Sending a s s' (sendNetworkLsa s.graph s.this source)

omit [Field M] [LinearOrder M] [FloorRing M] [Libm M] in
theorem SameRouter.sendRouterLsaExcept {t t' : LocalNode M} (h : SameRouter t t') (r : Node M)
    (source : Ip) :
    sendRouterLsaExcept t'.node r source = Dtlsr.sendRouterLsaExcept t.node r source := by
  unfold Dtlsr.sendRouterLsaExcept neighbourAddrs
  rw [h.nNeighbours, h.neighbourIps]

/-- The record that a router makes of its links at the time `now`. -/
def recordAt {M : Type} [Field M] [Libm M] (S : Setup M) (t : LocalNode M) (now : ℕ) : Node M :=
  (localNodeUpdateMetrics S.build S.hist t now).node

omit [LinearOrder M] [FloorRing M] in
@[simp] theorem recordAt_timestamp (t : LocalNode M) (now : ℕ) : (recordAt S t now).timestamp = now := rfl

omit [LinearOrder M] [FloorRing M] in
/-- What an earlier record has left in the node is overwritten. -/
theorem recordAt_updated (t : LocalNode M) (now now' : ℕ) :
    recordAt S (localNodeUpdateMetrics S.build S.hist t now) now' = recordAt S t now' := by
  have hmetrics : ∀ i, (recordAt S (localNodeUpdateMetrics S.build S.hist t now) now').linkMetrics i =
      (recordAt S t now').linkMetrics i := by
    intro i
    simp only [recordAt, localNodeUpdateMetrics]
    split <;> rfl
  rw [recordAt, recordAt, localNodeUpdateMetrics, localNodeUpdateMetrics]
  exact congrArg (fun linkMetrics => { t.node with timestamp := now', linkMetrics }) (funext hmetrics)

omit [LinearOrder M] [FloorRing M] in
/-- Start-up makes one record, at the second reading of the clock. -/
theorem startUp_record {s : Daemon M} (h : startUp S = .ok s) :
    s.this.node = recordAt S s.this (S.clock 1) ∧ s.ticks = 2 := by
  obtain ⟨t, -, h⟩ := bind_ok_iff.mp h
  obtain ⟨⟨g, t'⟩, hg, h⟩ := bind_ok_iff.mp h
  cases h
  dsimp only
  rw [updateGlobalThis_this hg, recordAt_updated]
  exact ⟨rfl, rfl⟩

/-- The record that an iteration sends as the router's own, if it sends one. -/
def ownLsa (S : Setup M) (s : Daemon M) : Node M := recordAt S s.this (S.clock s.ticks)

theorem afterEvent_sends {f : Flags} {s s' : Daemon M} (h : afterEvent S f s = .ok s')
    (hrouting : f.updateRouting = false) :
    if f.lsaSendStatus then s'.sent = s.sent ++ sendRouterLsa s.this.node (ownLsa S s) ∧
      s'.originated = s.originated ++ [ownLsa S s]
    else s'.sent = s.sent ∧ s'.originated = s.originated := by
  unfold afterEvent at h
  obtain ⟨s1, h1, h⟩ := bind_ok_iff.mp h
  rw [hrouting] at h
  cases h
  have hkeeps : s'.sent = (if f.lsaSendStatus then sendOwnLsa S s else s).sent ∧
      s'.originated = (if f.lsaSendStatus then sendOwnLsa S s else s).originated := by
    split at h1
    · obtain ⟨⟨g, t⟩, -, h1⟩ := bind_ok_iff.mp h1
      obtain ⟨hops, -, h1⟩ := bind_ok_iff.mp h1
      cases h1
      exact ⟨rfl, rfl⟩
    · cases h1
      exact ⟨rfl, rfl⟩
  rw [hkeeps.1, hkeeps.2]
  cases f.lsaSendStatus <;> exact ⟨rfl, rfl⟩

/-- The flags of the events after which the router's record is stamped again. -/
def Flags.Stamps (f : Flags) : Prop :=
  f.lsaSendStatus = true ∨ f.graphUpdated = true ∨ f.recompute = true

theorem afterEvent_stamps {f : Flags} {s s' : Daemon M} (h : afterEvent S f s = .ok s')
    (hrouting : f.updateRouting = false) :
    (¬f.Stamps → s'.this = s.this ∧ s'.ticks = s.ticks) ∧
      (f.Stamps → ∃ n, s.ticks ≤ n ∧ n < s'.ticks ∧ s'.this.node = recordAt S s.this (S.clock n) ∧
        ∀ now, recordAt S s'.this now = recordAt S s.this now) := by
  unfold afterEvent at h
  obtain ⟨s1, h1, h⟩ := bind_ok_iff.mp h
  rw [hrouting] at h
  cases h
  by_cases hf : (f.graphUpdated || f.recompute) = true
  · -- the recomputation reads the clock after the send
    rw [if_pos hf] at h1
    refine ⟨fun hn => absurd ?_ hn, fun _ => ?_⟩
    · rcases Bool.or_eq_true_iff.mp hf with hf | hf
      · exact Or.inr (Or.inl hf)
      · exact Or.inr (Or.inr hf)
    · obtain ⟨⟨g, t⟩, hg, h1⟩ := bind_ok_iff.mp h1
      obtain ⟨hops, -, h1⟩ := bind_ok_iff.mp h1
      cases h1
      have hticks : s.ticks ≤ (if f.lsaSendStatus then sendOwnLsa S s else s).ticks := by
        split
        · exact Nat.le_succ _
        · exact le_rfl
      have hsent : ∀ now, recordAt S (if f.lsaSendStatus then sendOwnLsa S s else s).this now =
          recordAt S s.this now := by
        intro now
        split
        · exact recordAt_updated ..
        · rfl
      refine ⟨(if f.lsaSendStatus then sendOwnLsa S s else s).ticks + 1, by omega, by simp, ?_,
        fun now => ?_⟩
      · rw [← hsent, ← recordAt_updated _ (S.clock (if f.lsaSendStatus then sendOwnLsa S s else s).ticks)]
        exact congrArg LocalNode.node (updateGlobalThis_this hg)
      · dsimp only
        rw [updateGlobalThis_this hg, recordAt_updated, recordAt_updated, hsent]
  · rw [if_neg hf] at h1
    cases h1
    cases hsend : f.lsaSendStatus with
    | true =>
      refine ⟨fun hn => absurd (Or.inl hsend) hn, fun _ => ⟨s.ticks, le_rfl, ?_, rfl, fun _ => ?_⟩⟩
      · exact Nat.lt_succ_self _
      · exact recordAt_updated ..
    | false =>
      refine ⟨fun _ => ⟨rfl, rfl⟩, fun hs => ?_⟩
      rcases hs with hs | hs | hs
      · exact absurd (hsend.symm.trans hs) (by decide)
      · exact absurd (by rw [hs]; rfl) hf
      · exact absurd (by rw [hs, Bool.or_true]) hf

omit [FloorRing M] in
/-- What the handler of an event itself sends, and that it leaves the record as it is unless it asks for
    a new stamp. -/
theorem Handles.sends {a : Active M} {s s' : Daemon M} {f : Flags} (h : Handles S s a s' f) :
    (¬f.Stamps → s'.this.node = s.this.node ∧ s'.ticks = s.ticks) ∧
      ∃ out, s'.sent = s.sent ++ out ∧
        ((a.NoRouterLsa ∧ out = []) ∨ ¬f.Stamps ∧ Sending a s s' out) := by
  have hquiet : ¬Flags.Stamps {} := by
    rintro (h | h | h) <;> cases h
  cases h with
  | routerLsa lsa source g u call =>
    exact ⟨fun _ => ⟨rfl, rfl⟩, _, rfl, Or.inr ⟨hquiet, .passedOn lsa source u rfl call rfl⟩⟩
  | networkLsaRequest source =>
    exact ⟨fun _ => ⟨rfl, rfl⟩, _, rfl, Or.inr ⟨hquiet, .snapshot source rfl rfl⟩⟩
  | recomputationTimer =>
    exact ⟨fun h => absurd (Or.inr (Or.inr rfl)) h, [], by simp, Or.inl ⟨nofun, rfl⟩⟩
  | riseLsr | riseDtlsr | timeout | routerLsaSndTimer =>
    exact ⟨fun h => absurd (Or.inl rfl) h, [], by simp, Or.inl ⟨nofun, rfl⟩⟩
  | _ => exact ⟨fun _ => ⟨rfl, rfl⟩, [], by simp, Or.inl ⟨nofun, rfl⟩⟩

/-- What an iteration sends: nothing, an LSA of its own, the one that it passes on, or its graph. -/
theorem Steps.sends {ev : Event M} {s s' : Daemon M} (h : Steps S s ev s') :
    ∃ out, s'.sent = s.sent ++ out ∧ Sending ev.active s s' out := by
  obtain ⟨c, -, ⟨ha, rfl⟩ | ⟨_, _, s3, f, s4, h3, h4, h5⟩⟩ := h.calls
  · exact ⟨[], (List.append_nil _).symm, .nothing (by rw [ha]; nofun) rfl⟩
  · have hH := handleEvent_ok h3
    obtain ⟨-, out, hout, hkind⟩ := (handleEvent_handles h3).sends
    have hafter := afterEvent_sends h4 hH.updateRouting
    have hgraph := (afterEvent_ok h4 hH.updateRouting).2.2.2.1
    have horig : s3.originated = s.originated := hH.originated
    rw [(captureAfter_ok h5).1]
    cases hsend : f.lsaSendStatus with
    | true =>
      rw [hsend, if_pos rfl] at hafter
      -- the LSA is the router's own, so the handler itself has sent nothing
      rcases hkind with ⟨hevent, rfl⟩ | ⟨hn, -⟩
      · rw [List.append_nil] at hout
        refine ⟨sendRouterLsa s.this.node (ownLsa S s3), ?_, .own _ hevent ?_⟩
        · dsimp only
          have hrouter := (linkEffect_sameRouter ev.active s.this).trans hH.links.sameRouter
          rw [hafter.1, hout, sendRouterLsa, hrouter.sendRouterLsaExcept, sendRouterLsa]
        · dsimp only
          rw [hafter.2, horig]
      · exact absurd (Or.inl hsend) hn
    | false =>
      rw [hsend, if_neg (by decide)] at hafter
      obtain ⟨hsent4, horig4⟩ := hafter
      refine ⟨out, by dsimp only; rw [hsent4, hout], ?_⟩
      rcases hkind with ⟨hevent, rfl⟩ | ⟨hn, hkind⟩
      · exact .nothing hevent (horig4.trans horig)
      · have hg : s4.graph = s3.graph := by
          refine (hgraph ?_ ?_).1
          · exact Bool.eq_false_iff.mpr fun h => hn (Or.inr (Or.inl h))
          · exact Bool.eq_false_iff.mpr fun h => hn (Or.inr (Or.inr h))
        cases hkind with
        | nothing event => exact .nothing event (horig4.trans horig)
        | own r _ h => rw [horig] at h; simp at h
        | passedOn lsa source u event call =>
          exact .passedOn lsa source u event (by dsimp only; rw [hg]; exact call)
            (horig4.trans horig)
        | snapshot source event => exact .snapshot source event (horig4.trans horig)

/-- The records that an iteration makes: those of the links that it leaves, at readings of its own. -/
theorem Steps.issues {ev : Event M} {s s' : Daemon M} (h : Steps S s ev s') {r : Node M}
    (hr : r ∈ s'.originated ∨ r = s'.this.node) : (r ∈ s.originated ∨ r = s.this.node) ∨
      ∃ n, s.ticks ≤ n ∧ n < s'.ticks ∧ r = recordAt S s'.this (S.clock n) := by
  obtain ⟨c, -, ⟨-, rfl⟩ | ⟨_, _, s3, f, s4, h3, h4, h5⟩⟩ := h.calls
  · exact Or.inl hr
  · have hH := handleEvent_ok h3
    have hticks := hH.ticks
    obtain ⟨hkeep, -⟩ := (handleEvent_handles h3).sends
    have hafter := afterEvent_sends h4 hH.updateRouting
    obtain ⟨hquiet, hstamps⟩ := afterEvent_stamps h4 hH.updateRouting
    have horig : s3.originated = s.originated := hH.originated
    rw [(captureAfter_ok h5).1] at hr ⊢
    dsimp only at hr hticks ⊢
    by_cases hf : f.Stamps
    · obtain ⟨n, hn, hlt, hnode, hsame⟩ := hstamps hf
      rcases hr with hr | rfl
      · cases hsend : f.lsaSendStatus with
        | false =>
          rw [hsend, if_neg (by decide)] at hafter
          rw [hafter.2, horig] at hr
          exact Or.inl (Or.inl hr)
        | true =>
          rw [hsend, if_pos rfl] at hafter
          rw [hafter.2, horig] at hr
          rcases List.mem_append.mp hr with hr | hr
          · exact Or.inl (Or.inl hr)
          · obtain rfl := List.mem_singleton.mp hr
            exact Or.inr ⟨s3.ticks, hticks, by omega, (hsame _).symm⟩
      · exact Or.inr ⟨n, by omega, hlt, hnode.trans (hsame _).symm⟩
    · obtain ⟨hthis, -⟩ := hquiet hf
      obtain ⟨hnode, -⟩ := hkeep hf
      have hsend : f.lsaSendStatus = false := Bool.eq_false_iff.mpr fun h => hf (Or.inl h)
      rw [hsend, if_neg (by decide)] at hafter
      rw [hafter.2, horig, hthis, hnode] at hr
      exact Or.inl hr

/-- A seen entry after an iteration was there before, is the router's own record, or has been brought by
    the event. -/
theorem Steps.entry {ev : Event M} {s s' : Daemon M} {k : Fin maxNodeNum} (h : Steps S s ev s')
    (hl : Linked S s.this) (hseen : ∀ lsa source, ev.active = .routerLsa lsa source →
      lsa.state = .nodeSeen) (hk : (s'.graph k).state = .nodeSeen) :
    ((s.graph k).state = .nodeSeen ∧ s'.graph k = s.graph k) ∨
      (S.id = (k : ℕ) + 1 ∧ s'.graph k = s'.this.node) ∨
        s'.graph k ∈ lsaBrought k ev.active := by
  have huntouched : Untouched (s.graph k) (s'.graph k) →
      (s.graph k).state = .nodeSeen ∧ s'.graph k = s.graph k := by
    intro hu
    have hold : (s.graph k).state = .nodeSeen := by
      by_contra hn
      exact hu.unseen hn hk
    exact ⟨hold, hu.seen hold⟩
  by_cases hlsa : ev.active.IsLsa
  · have hroutes := h.routes
    cases ha : ev.active with
    | routerLsa lsa source =>
      rw [ha] at hroutes
      obtain ⟨⟨u, hm⟩, -⟩ := hroutes
      by_cases hid : lsa.id = (k : ℕ) + 1
      · obtain ⟨j, hj, -, hentry, -, -⟩ := mergeInNode_entries (hseen lsa source ha) hm
        obtain rfl : k = j := Fin.ext (by omega)
        rcases mergedEntry_cases (s.graph k) lsa with hkeep | ⟨htake, -⟩
        · rw [hentry, hkeep] at hk
          exact Or.inl ⟨hk, hentry.trans hkeep⟩
        · rw [hentry, htake]
          exact Or.inr (Or.inr (by simp [lsaBrought, hid]))
      · exact Or.inl (huntouched (mergeInNode_untouched hid hm))
    | networkLsa others =>
      rw [ha] at hroutes
      obtain ⟨⟨u, hm⟩, -⟩ := hroutes
      rcases mergeInGraph_cases hm k with ⟨hkeep, -⟩ | ⟨htake, -⟩
      · rw [hkeep] at hk
        exact Or.inl ⟨hk, hkeep⟩
      · rw [htake] at hk
        exact Or.inr (Or.inr (by simp [lsaBrought, htake, hk]))
    | _ =>
      rw [ha] at hlsa
      exact hlsa.elim
  · by_cases hid : S.id = (k : ℕ) + 1
    · rcases h.own (hl.id.trans hid) hl.seen hlsa with ⟨hsame, -, -⟩ | ⟨-, hown, -⟩
      · rw [hsame] at hk
        exact Or.inl ⟨hk, hsame⟩
      · exact Or.inr (Or.inl ⟨hid, hown⟩)
    · exact Or.inl (huntouched (h.others hlsa k fun h => hid (hl.id.symm.trans h)))

end Iteration

/-! ### Records of all routers -/

section Fleet
variable {ι M : Type} [DecidableEq ι] [Field M] [LinearOrder M] [FloorRing M] [Libm M]
  {S : ι → Setup M}

/-- The record of entry `k` that a message carries. -/
def Message.carries {M : Type} (k : Fin maxNodeNum) : Message M → Option (Node M)
  | .routerLsa lsa => if lsa.id = (k : ℕ) + 1 then some lsa else none
  | .networkLsa graph => if (graph k).state = .nodeSeen then some (graph k) else none
  | .networkLsaRequest => none

/-- `r` is a seen record of entry `k`, in a database or in a message. -/
inductive Held (net : ι → Daemon M) (k : Fin maxNodeNum) (r : Node M) : Prop where
  | stored (i : ι) (seen : ((net i).graph k).state = .nodeSeen) (entry : (net i).graph k = r)
  | sent (i : ι) (m : Ip × Message M) (mem : m ∈ (net i).sent) (carried : r ∈ m.2.carries k)

/-- Router `j` has sent `r` as its own LSA, or an iteration or start-up has left `r` as its record. -/
inductive Issued (tr : List (Trace.Step (ι → Daemon M) (ι × Event M))) (net : ι → Daemon M) (j : ι)
    (r : Node M) : Prop where
  | lsa (mem : r ∈ (net j).originated)
  | own (node : r = (net j).this.node)
  | earlier (st : Trace.Step (ι → Daemon M) (ι × Event M)) (mem : st ∈ tr)
      (node : r = (st.before j).this.node)

omit [DecidableEq ι] [Field M] [LinearOrder M] [FloorRing M] [Libm M] in
theorem WasSent.held {net : ι → Daemon M} {a : Active M} {k : Fin maxNodeNum} {r : Node M}
    (h : WasSent net a) (hr : r ∈ lsaBrought k a) : Held net k r := by
  cases a with
  | routerLsa lsa source =>
    obtain ⟨i, m, hm, hlsa⟩ := h
    exact .sent i m hm (by rw [hlsa]; exact hr)
  | networkLsa others =>
    obtain ⟨i, m, hm, hothers⟩ := h
    exact .sent i m hm (by rw [hothers]; exact hr)
  | _ => cases hr

omit [DecidableEq ι] [Field M] [LinearOrder M] [FloorRing M] [Libm M] in
/-- What has been issued stays issued. -/
theorem Issued.step {tr : List (Trace.Step (ι → Daemon M) (ι × Event M))} {net net' : ι → Daemon M}
    {a : ι × Event M} {j : ι} {r : Node M} (h : Issued tr net j r)
    (horig : (net j).originated ⊆ (net' j).originated) :
    Issued (tr ++ [{ before := net, event := a, after := net' }]) net' j r := by
  cases h with
  | lsa mem => exact .lsa (horig mem)
  | own node => exact .earlier _ (List.mem_append_right _ (List.mem_singleton_self _)) node
  | earlier st mem node => exact .earlier st (List.mem_append_left _ mem) node

/-- What a step of the fleet does: one router makes an iteration, with what some router has sent. -/
theorem FleetRun.stepped {net net' : ι → Daemon M} {v : ι} {ev : Event M}
    (h : FleetAllowed S net (v, ev) ∧ fleetStep S (v, ev) net = .ok net') :
    Steps (S v) (net v) ev (net' v) ∧ WasSent net ev.active ∧ ∀ j ≠ v, net' j = net j := by
  obtain ⟨⟨hen, hsent⟩, hstep⟩ := h
  obtain ⟨s', hs', hstep⟩ := bind_ok_iff.mp hstep
  cases hstep
  refine ⟨⟨hen, ?_⟩, hsent, fun j hj => Function.update_of_ne hj _ _⟩
  simpa only [Function.update_self] using hs'

/-- The steps of router `j` in a run of the fleet. -/
def stepsOf (j : ι) (tr : List (Trace.Step (ι → Daemon M) (ι × Event M))) :
    List (Trace.Step (Daemon M) (Event M)) :=
  tr.filterMap fun st => if st.event.1 = j then
    some { before := st.before j, event := st.event.2, after := st.after j } else none

/-- In a run of the fleet each router makes a run of its own. -/
theorem FleetRun.alone {tr : List (Trace.Step (ι → Daemon M) (ι × Event M))} {net : ι → Daemon M}
    (hrun : FleetRun S tr net) (j : ι) : Run (S j) (stepsOf j tr) (net j) := by
  refine hrun.invariant (I := fun tr net => Run (S j) (stepsOf j tr) (net j))
    (fun net h0 => .start (h0 j)) ?_
  rintro tr net ⟨v, ev⟩ net' - ih h
  obtain ⟨hstep, -, hother⟩ := FleetRun.stepped h
  unfold stepsOf at ih ⊢
  rw [List.filterMap_append]
  by_cases hj : v = j
  · subst hj
    simpa using ih.step hstep
  · rw [hother j (Ne.symm hj)]
    simpa [hj] using ih

/-- Every router is sound in every state of a run. -/
theorem FleetRun.sound {tr : List (Trace.Step (ι → Daemon M) (ι × Event M))} {net : ι → Daemon M}
    (hrun : FleetRun S tr net) : ∀ j, Sound (S j) (net j) := by
  refine hrun.invariant (I := fun _ net => ∀ j, Sound (S j) (net j))
    (fun net h0 j => startUp_sound (h0 j)) ?_
  rintro tr net ⟨v, ev⟩ net' - hnet h j
  obtain ⟨hstep, hsent, hother⟩ := FleetRun.stepped h
  by_cases hj : j = v
  · subst hj
    exact Sound.step hnet hsent hstep
  · rw [hother j hj]
    exact hnet j

/-- The invariant: what is held has been issued by the router of that id. -/
def Genuine (S : ι → Setup M) (tr : List (Trace.Step (ι → Daemon M) (ι × Event M)))
    (net : ι → Daemon M) : Prop :=
  ∀ k r, Held net k r → ∃ j, (S j).id = (k : ℕ) + 1 ∧ Issued tr net j r

omit [DecidableEq ι] [LinearOrder M] [FloorRing M] in
theorem startUp_genuine {net : ι → Daemon M} (h0 : ∀ i, startUp (S i) = .ok (net i)) :
    Genuine S [] net := by
  intro k r hr
  cases hr with
  | stored i seen entry =>
    have hid : (S i).id = (k : ℕ) + 1 := by
      by_contra hn
      exact startUp_untouched hn (h0 i) seen
    refine ⟨i, hid, .own ?_⟩
    obtain ⟨t, ht, h⟩ := bind_ok_iff.mp (h0 i)
    obtain ⟨⟨g, t'⟩, hg, h⟩ := bind_ok_iff.mp h
    obtain ⟨-, hti, hseen, -⟩ := localNodeInit_ok ht
    rw [← entry, ← Except.ok.inj h]
    exact (updateGlobalThis_own hseen (hti.trans hid) hg).1
  | sent i m mem carried =>
    obtain ⟨t, -, h⟩ := bind_ok_iff.mp (h0 i)
    obtain ⟨⟨g, t'⟩, -, h⟩ := bind_ok_iff.mp h
    rw [← Except.ok.inj h] at mem
    obtain ⟨ip, -, rfl⟩ := List.mem_map.mp mem
    cases carried

omit [DecidableEq ι] [Field M] [FloorRing M] [Libm M] in
/-- Every record that a message of an iteration carries has been issued by this router, or was held
    before. -/
theorem Sending.held {net : ι → Daemon M} {v : ι} {a : Active M} {s' : Daemon M} {out : Sent M}
    {k : Fin maxNodeNum} {r : Node M} {m : Ip × Message M} (h : Sending a (net v) s' out)
    (hsent : WasSent net a) (hm : m ∈ out) (hr : r ∈ m.2.carries k) :
    (r.id = (k : ℕ) + 1 ∧ r ∈ s'.originated) ∨ Held net k r := by
  cases h with
  | nothing => cases hm
  | own lsa _ originated =>
    rw [mem_sendRouterLsaExcept hm] at hr
    simp only [Message.carries] at hr
    split at hr
    · rename_i hid
      obtain rfl := Option.some.inj hr
      exact Or.inl ⟨hid, by rw [originated]; simp⟩
    · cases hr
  | passedOn lsa source u event =>
    cases u with
    | false => cases hm
    | true =>
      rw [if_pos rfl] at hm
      rw [mem_sendRouterLsaExcept hm] at hr
      exact Or.inr (hsent.held (by rw [event]; exact hr))
  | snapshot source event =>
    unfold sendNetworkLsa at hm
    split at hm
    · obtain rfl := List.mem_singleton.mp hm
      simp only [Message.carries] at hr
      split at hr
      · rename_i hs
        exact Or.inr (.stored v hs (Option.some.inj hr))
      · cases hr
    · cases hm

theorem Genuine.step {tr : List (Trace.Step (ι → Daemon M) (ι × Event M))} {net net' : ι → Daemon M}
    {v : ι} {ev : Event M} (hrun : FleetRun S tr net) (hnet : Genuine S tr net)
    (h : FleetAllowed S net (v, ev) ∧ fleetStep S (v, ev) net = .ok net') :
    Genuine S (tr ++ [{ before := net, event := (v, ev), after := net' }]) net' := by
  obtain ⟨hstep, hsent, hother⟩ := FleetRun.stepped h
  have hsound := hrun.sound
  have horig : ∀ j, (net j).originated ⊆ (net' j).originated := by
    intro j
    by_cases hj : j = v
    · subst hj
      obtain ⟨-, h | ⟨t, now, -, -, -, h⟩⟩ := hstep.originated
      · rw [h]
        exact List.Subset.refl _
      · rw [h]
        exact List.subset_append_left _ _
    · rw [hother j hj]
      exact List.Subset.refl _
  -- what was held before has been issued before
  have hold : ∀ k r, Held net k r → ∃ j, (S j).id = (k : ℕ) + 1 ∧
      Issued (tr ++ [{ before := net, event := (v, ev), after := net' }]) net' j r := by
    intro k r hr
    obtain ⟨j, hj, hiss⟩ := hnet k r hr
    exact ⟨j, hj, hiss.step (horig j)⟩
  intro k r hr
  cases hr with
  | stored i seen entry =>
    by_cases hi : i = v
    · subst hi
      have hlsa : ∀ lsa source, ev.active = .routerLsa lsa source → lsa.state = .nodeSeen := by
        intro lsa source ha
        rw [ha] at hsent
        obtain ⟨j, m, hm, hlsa⟩ := hsent
        have := (hsound j).sent m hm
        rw [hlsa] at this
        exact this
      rcases hstep.entry (hsound i).linked hlsa seen with ⟨hs, hsame⟩ | ⟨hid, hown⟩ | hbrought
      · exact hold k r (.stored i hs (hsame.symm.trans entry))
      · exact ⟨i, hid, .own (entry.symm.trans hown)⟩
      · rw [entry] at hbrought
        exact hold k r (hsent.held hbrought)
    · rw [hother i hi] at seen entry
      exact hold k r (.stored i seen entry)
  | sent i m mem carried =>
    by_cases hi : i = v
    · subst hi
      obtain ⟨out, hout, hkind⟩ := hstep.sends
      rw [hout] at mem
      rcases List.mem_append.mp mem with mem | mem
      · exact hold k r (.sent i m mem carried)
      · rcases hkind.held hsent mem carried with ⟨hid, hr⟩ | hr
        · refine ⟨i, ?_, .lsa hr⟩
          obtain ⟨k', hk'⟩ := (hsound i).linked.self
          have hlsas := (FleetRun.alone (hrun.step h) i).sends hk'
          rw [hk', ← hid, (hlsas.lsas r hr).1.id]
        · exact hold k r hr
    · rw [hother i hi] at mem
      exact hold k r (.sent i m mem carried)

theorem FleetRun.genuine {tr : List (Trace.Step (ι → Daemon M) (ι × Event M))} {net : ι → Daemon M}
    (hrun : FleetRun S tr net) : Genuine S tr net := by
  refine hrun.invariant (I := fun tr net => Genuine S tr net) (fun _ h0 => startUp_genuine h0) ?_
  rintro tr net ⟨v, ev⟩ net' hrun hnet h
  exact Genuine.step hrun hnet h

omit [DecidableEq ι] [Field M] [LinearOrder M] [FloorRing M] [Libm M] in
/-- What has been issued after a step was before, or the step has left it. -/
theorem Issued.of_step {tr : List (Trace.Step (ι → Daemon M) (ι × Event M))} {net net' : ι → Daemon M}
    {a : ι × Event M} {j : ι} {r : Node M}
    (h : Issued (tr ++ [{ before := net, event := a, after := net' }]) net' j r) :
    Issued tr net j r ∨ r ∈ (net' j).originated ∨ r = (net' j).this.node := by
  cases h with
  | lsa mem => exact Or.inr (Or.inl mem)
  | own node => exact Or.inr (Or.inr node)
  | earlier st mem node =>
    rcases List.mem_append.mp mem with mem | mem
    · exact Or.inl (.earlier st mem node)
    · obtain rfl := List.mem_singleton.mp mem
      exact Or.inl (.own node)

/-- What a step of the fleet adds to what router `j` has issued. -/
theorem FleetRun.issues {tr : List (Trace.Step (ι → Daemon M) (ι × Event M))} {net net' : ι → Daemon M}
    {v j : ι} {ev : Event M} {r : Node M}
    (h : FleetAllowed S net (v, ev) ∧ fleetStep S (v, ev) net = .ok net')
    (hr : Issued (tr ++ [{ before := net, event := (v, ev), after := net' }]) net' j r) :
    Issued tr net j r ∨ v = j ∧ ∃ n, (net j).ticks ≤ n ∧ n < (net' j).ticks ∧
      r = recordAt (S j) (net' j).this ((S j).clock n) := by
  obtain ⟨hstep, -, hother⟩ := FleetRun.stepped h
  rcases hr.of_step with hr | hr
  · exact Or.inl hr
  · by_cases hj : v = j
    · subst hj
      rcases hstep.issues hr with (hr | hr) | hnew
      · exact Or.inl (.lsa hr)
      · exact Or.inl (.own hr)
      · exact Or.inr ⟨rfl, hnew⟩
    · rw [hother j (Ne.symm hj)] at hr
      rcases hr with hr | hr
      · exact Or.inl (.lsa hr)
      · exact Or.inl (.own hr)

omit [DecidableEq ι] [LinearOrder M] [FloorRing M] in
theorem startUp_issued {net : ι → Daemon M} {j : ι} (h0 : startUp (S j) = .ok (net j)) {r : Node M}
    (hr : Issued [] net j r) : r = (net j).this.node := by
  cases hr with
  | lsa mem => rw [(startUp_started h0).originated] at mem; cases mem
  | own node => exact node
  | earlier st mem => cases mem

/-- What a router has issued carries a reading of its clock. -/
theorem FleetRun.readings {tr : List (Trace.Step (ι → Daemon M) (ι × Event M))} {net : ι → Daemon M}
    (hrun : FleetRun S tr net) {j : ι} {r : Node M} (hr : Issued tr net j r) :
    ∃ n < (net j).ticks, r.timestamp = (S j).clock n := by
  revert hr
  refine hrun.invariant (I := fun tr net => Issued tr net j r →
    ∃ n < (net j).ticks, r.timestamp = (S j).clock n) ?_ ?_
  · intro net h0 hr
    obtain ⟨hrecord, hticks⟩ := startUp_record (h0 j)
    exact ⟨1, by omega, by rw [startUp_issued (h0 j) hr, hrecord, recordAt_timestamp]⟩
  · rintro tr net ⟨v, ev⟩ net' - ih h hr
    rcases FleetRun.issues h hr with hold | ⟨rfl, n, -, hlt, rfl⟩
    · obtain ⟨n, hlt, htime⟩ := ih hold
      obtain ⟨hstep, -, hother⟩ := FleetRun.stepped h
      refine ⟨n, hlt.trans_le ?_, htime⟩
      by_cases hj : j = v
      · subst hj
        exact hstep.originated.1
      · rw [hother j hj]
    · exact ⟨n, hlt, recordAt_timestamp ..⟩

/-- Records are neither forged nor mixed: a seen record, in the database of any router or in a message,
    is one that the router of that id has made, at a reading of its clock. -/
theorem records_genuine {tr : List (Trace.Step (ι → Daemon M) (ι × Event M))} {net : ι → Daemon M}
    (hrun : FleetRun S tr net) {k : Fin maxNodeNum} {r : Node M} (hr : Held net k r) :
    ∃ j, (S j).id = (k : ℕ) + 1 ∧ Issued tr net j r ∧
      ∃ n < (net j).ticks, r.timestamp = (S j).clock n := by
  obtain ⟨j, hj, hissued⟩ := FleetRun.genuine hrun k r hr
  exact ⟨j, hj, hissued, FleetRun.readings hrun hissued⟩

end Fleet

/-! ### Router 2 has heard of router 1 -/

/-- The record of router 1 that router 2 holds is router 1's own, at a reading of its clock. -/
theorem records_genuine_twoLearns : ∃ tr net, FleetRun oneAndTwo tr net ∧
    tr.map Trace.Step.event = twoLearns ∧
      ∃ j, (oneAndTwo j).id = 1 ∧ Issued tr net j ((net true).graph 0) ∧
        ∃ n < (net j).ticks, ((net true).graph 0).timestamp = (oneAndTwo j).clock n := by
  have h0 : ∀ i, startUp (oneAndTwo i) = .ok (fleetStart i) := fun i =>
    ok_of_toOption (Option.some_get _).symm
  have hrun : ∃ tr net, FleetRun oneAndTwo tr net ∧ tr.map Trace.Step.event = twoLearns ∧
      tr.getLast?.any (fun st => ((st.after true).graph 0).state = .nodeSeen) = true :=
    Trace.exists_follow h0 twoLearns (by decide +kernel)
  obtain ⟨tr, net, hrun, hevents, hlast⟩ := hrun
  obtain ⟨st, -, rfl, hst⟩ := hrun.at_end hlast
  exact ⟨tr, _, hrun, hevents, records_genuine hrun (.stored true (of_decide_eq_true hst) rfl)⟩

end Dtlsr
