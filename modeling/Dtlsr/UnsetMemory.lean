import Dtlsr.Database
import Dtlsr.LsrRoutes
import Dtlsr.Visible

/-!
    Two runs of one driver that start in different memory and hear LSAs that differ where nothing may
    be read: they take the same decisions, know the same records and have the same next hops. The runs
    are compared step by step; `Twins` relates their states. -/

namespace Dtlsr
open Checked

/-! ### The two runs -/

section Twins
variable {M : Type}

/-- Two daemons that differ in the graph, where it may not be read, and in what they have sent. -/
def Twins (s1 s2 : Daemon M) : Prop :=
  ∃ g t, AlikeGraphs s1.graph g ∧ s2 = { s1 with graph := g, sent := t }

/-- What the two runs receive: LSAs that cannot be told apart, of which those of one router are seen
    records, or else the same. -/
inductive AlikeActive : Active M → Active M → Prop where
  | other {a : Active M} : ¬a.IsLsa → AlikeActive a a
  | routerLsa {r1 r2 : Node M} (source : Ip) : Alike r1 r2 → r1.state = .nodeSeen →
      AlikeActive (.routerLsa r1 source) (.routerLsa r2 source)
  | networkLsa {o1 o2 : Graph M} : (∀ k, Alike (o1 k) (o2 k)) →
      AlikeActive (.networkLsa o1) (.networkLsa o2)

/-- Two events of the runs, both proper. -/
structure AlikeEvents (Proper : Active M → Prop) (ev1 ev2 : Event M) : Prop where
  arrived : ev1.arrived = ev2.arrived
  active : AlikeActive ev1.active ev2.active
  proper : Proper ev1.active ∧ Proper ev2.active

/-- In a network LSA, entry `k` has id `k + 1`. -/
def OwnIds (a : Active M) : Prop :=
  match a with
  | .networkLsa others => ∀ k : Fin maxNodeNum, (others k).id = (k : ℕ) + 1
  | _ => True

theorem runUpdateRoutingTable_twins {s1 s2 : Daemon M} (h : Twins s1 s2) :
    Relates Twins (runUpdateRoutingTable s1) (runUpdateRoutingTable s2) := by
  obtain ⟨g, t, hg, rfl⟩ := h
  refine Relates.bind_same fun out => ?_
  exact ⟨g, t, hg, rfl⟩

end Twins

/-! ### One iteration -/

section Steps
variable {M : Type} [Field M] {S : Setup M} {s1 s2 : Daemon M}

theorem waitEvent_twins (h : Twins s1 s2) (arrived : List (ℕ × Packet)) :
    Relates Twins (waitEvent S arrived s1) (waitEvent S arrived s2) := by
  obtain ⟨g, t, hg, rfl⟩ := h
  unfold waitEvent
  cases S.build with
  | lsr => exact ⟨g, t, hg, rfl⟩
  | dtlsr =>
    refine Relates.bind_same fun c => ?_
    exact ⟨g, t, hg, rfl⟩

theorem registerHeartbeat_twins (h : Twins s1 s2) (source : Ip) :
    Relates (fun p q => Twins p.1 q.1 ∧ p.2 = q.2) (registerHeartbeat S source s1)
      (registerHeartbeat S source s2) := by
  obtain ⟨g, t, hg, rfl⟩ := h
  unfold registerHeartbeat
  simp only []
  cases risingLink s1.this source with
  | none => exact ⟨⟨g, t, hg, rfl⟩, rfl⟩
  | some i =>
    refine Relates.bind (R := Twins) ?_ fun p q hpq => ⟨hpq, rfl⟩
    unfold linkComesUp
    cases S.build with
    | lsr => exact ⟨g, t, hg, rfl⟩
    | dtlsr =>
      refine Relates.bind_same fun this => ?_
      refine Relates.bind_same fun c => ?_
      exact ⟨g, t, hg, rfl⟩

theorem captureAfter_twins {a1 a2 : Active M} (h : Twins s1 s2) (ha : AlikeActive a1 a2) :
    Relates Twins (captureAfter S a1 s1) (captureAfter S a2 s2) := by
  unfold captureAfter
  cases S.build with
  | lsr => exact h
  | dtlsr =>
    cases ha with
    | routerLsa source hr hs => exact h
    | networkLsa ho => exact h
    | other hlsa =>
      cases a1 with
      | timer i =>
        obtain ⟨g, t, hg, rfl⟩ := h
        unfold startCapturing
        simp only []
        cases linkOfTimer s1.this (s1.this.timers i).fd .linkDown with
        | none => exact ⟨g, t, hg, rfl⟩
        | some j =>
          refine Relates.bind_same fun c => ?_
          exact ⟨g, t, hg, rfl⟩
      | _ => exact h

theorem enabled_twins {a1 a2 : Active M} (h : Twins s1 s2) (ha : AlikeActive a1 a2) :
    Enabled S a1 s1 ↔ Enabled S a2 s2 := by
  obtain ⟨g, t, hg, rfl⟩ := h
  cases ha with
  | routerLsa source hr hs => exact Iff.rfl
  | networkLsa ho => exact Iff.rfl
  | other hlsa => cases a1 <;> exact Iff.rfl

variable [Libm M]

theorem startUp_twins (memory : Graph M) :
    Relates Twins (startUp S) (startUp { S with graph := memory }) := by
  unfold startUp
  refine Relates.bind_same (x := localNodeInit S (S.clock 0)) fun this => ?_
  refine (updateGlobalThis_alike (graphInit_alike S.graph memory)).bind fun p q hpq => ?_
  obtain ⟨g, t⟩ := p
  obtain ⟨g', t'⟩ := q
  obtain ⟨hg, rfl⟩ : AlikeGraphs g g' ∧ t = t' := hpq
  exact ⟨g', _, hg, rfl⟩

theorem timeoutHeartbeat_twins (h : Twins s1 s2) (fd : Fd) :
    Relates (fun p q => Twins p.1 q.1 ∧ p.2 = q.2) (timeoutHeartbeat S fd s1)
      (timeoutHeartbeat S fd s2) := by
  obtain ⟨g, t, hg, rfl⟩ := h
  unfold timeoutHeartbeat
  simp only []
  cases linkOfTimer s1.this fd .linkUp with
  | none => exact ⟨⟨g, t, hg, rfl⟩, rfl⟩
  | some i =>
    refine Relates.bind_same fun this => ?_
    refine (updateGlobalThis_alike hg).bind fun p q hpq => ?_
    exact ⟨⟨q.1, t, hpq.1, by rw [hpq.2]⟩, rfl⟩

variable [LinearOrder M]

theorem handleEvent_twins {a1 a2 : Active M} (h : Twins s1 s2) (ha : AlikeActive a1 a2)
    (h1 : OwnIds a1) : Relates (fun p q => Twins p.1 q.1 ∧ p.2 = q.2) (handleEvent S a1 s1)
      (handleEvent S a2 s2) := by
  cases ha with
  | routerLsa source hr hs =>
    obtain ⟨g, t, hg, rfl⟩ := h
    refine Relates.bind (R := fun p q => AlikeGraphs p.1 q.1) ?_ fun p q hpq =>
      ⟨⟨q.1, _, hpq, rfl⟩, rfl⟩
    exact (mergeInNode_alike hg hr hs).bind fun p q hpq => hpq.1
  | networkLsa ho =>
    obtain ⟨g, t, hg, rfl⟩ := h
    refine (mergeInGraph_alike hg fun k => ⟨ho k, h1 k⟩).bind fun p q hpq => ?_
    exact ⟨⟨q.1, t, hpq.1, rfl⟩, rfl⟩
  | other hlsa =>
    cases a1 with
    | idle => exact ⟨h, rfl⟩
    | heartbeat source =>
      refine (registerHeartbeat_twins h source).bind fun p q hpq => ⟨hpq.1, ?_⟩
      rw [hpq.2]
    | routerLsa lsa source => exact absurd trivial hlsa
    | routerLsaSndTimer => exact ⟨h, rfl⟩
    | networkLsa others => exact absurd trivial hlsa
    | networkLsaRequest source =>
      obtain ⟨g, t, hg, rfl⟩ := h
      exact ⟨⟨g, _, hg, rfl⟩, rfl⟩
    | replayTimer =>
      obtain ⟨g, t, hg, rfl⟩ := h
      unfold handleEvent
      simp only []
      cases s1.upIface with
      | none => rfl
      | some upIface =>
        refine Relates.bind_same fun c => ?_
        refine Relates.bind_same fun c' => ?_
        exact ⟨⟨g, t, hg, rfl⟩, rfl⟩
    | recomputationTimer => exact ⟨h, rfl⟩
    | timer i =>
      have hthis : s2.this = s1.this := by
        obtain ⟨g, t, hg, rfl⟩ := h
        rfl
      unfold handleEvent
      rw [hthis]
      refine (timeoutHeartbeat_twins h _).bind fun p q hpq => ⟨hpq.1, ?_⟩
      rw [hpq.2]

variable [FloorRing M]

theorem recomputeRoutes_twins (h : Twins s1 s2) :
    Relates Twins (recomputeRoutes S s1) (recomputeRoutes S s2) := by
  obtain ⟨g, t, hg, rfl⟩ := h
  unfold recomputeRoutes
  refine (updateGlobalThis_alike hg).bind fun p q hpq => ?_
  obtain ⟨g1, t1⟩ := p
  obtain ⟨g2, t2⟩ := q
  obtain ⟨hg', rfl⟩ : AlikeGraphs g1 g2 ∧ t1 = t2 := hpq
  refine (pathfind_alike hg' t1.node.id).bind fun hops _ hhops => ?_
  subst hhops
  exact ⟨g2, t, hg', rfl⟩

theorem afterEvent_twins (h : Twins s1 s2) (f : Flags) :
    Relates Twins (afterEvent S f s1) (afterEvent S f s2) := by
  have hsend : Twins (if f.lsaSendStatus then sendOwnLsa S s1 else s1)
      (if f.lsaSendStatus then sendOwnLsa S s2 else s2) := by
    obtain ⟨g, t, hg, rfl⟩ := h
    cases f.lsaSendStatus with
    | false => exact ⟨g, t, hg, rfl⟩
    | true => exact ⟨g, _, hg, rfl⟩
  unfold afterEvent
  refine Relates.bind (R := Twins) ?_ fun t1 t2 ht => ?_
  · exact Relates.ite (fun _ => recomputeRoutes_twins hsend) fun _ => hsend
  · exact Relates.ite (fun _ => runUpdateRoutingTable_twins ht) fun _ => ht

theorem iter_twins {ev1 ev2 : Event M} (h : Twins s1 s2) (hev : AlikeEvents OwnIds ev1 ev2) :
    Relates Twins (iter S ev1 s1) (iter S ev2 s2) := by
  have ha := hev.active
  have hids := hev.proper.1
  unfold iter
  rw [← hev.arrived]
  refine (waitEvent_twins h ev1.arrived).bind fun t1 t2 ht => ?_
  generalize ev1.active = a1 at ha hids ⊢
  generalize ev2.active = a2 at ha ⊢
  split
  · cases ha
    exact ht
  · rename_i hidle
    split
    · cases ha
      exact absurd rfl hidle
    · refine (runUpdateRoutingTable_twins ht).bind fun t1 t2 ht => ?_
      refine (handleEvent_twins ht ha hids).bind fun p q hpq => ?_
      obtain ⟨t1, f⟩ := p
      obtain ⟨t2, f'⟩ := q
      obtain ⟨ht, rfl⟩ : Twins t1 t2 ∧ f = f' := hpq
      exact (afterEvent_twins ht f).bind fun t1 t2 ht => captureAfter_twins ht ha

end Steps

/-! ### What a step decides -/

section Flags
variable {M : Type} [LinearOrder M]

/-- The flag that the merge of an LSA returns. -/
def mergeFlag (a : Active M) (graph : Graph M) : Exec Bool := do
  let (_, updated) ← mergeOf a graph
  pure updated

theorem mergeFlag_alike {a1 a2 : Active M} {g1 g2 : Graph M} (hg : AlikeGraphs g1 g2)
    (ha : AlikeActive a1 a2) (h1 : OwnIds a1) : mergeFlag a1 g1 = mergeFlag a2 g2 := by
  unfold mergeFlag
  cases ha with
  | routerLsa source hr hs =>
    exact Relates.eq ((mergeInNode_alike hg hr hs).bind fun p q hpq => hpq.2)
  | networkLsa ho =>
    exact Relates.eq ((mergeInGraph_alike hg fun k => ⟨ho k, h1 k⟩).bind fun p q hpq => hpq.2)
  | other hlsa =>
    cases a1 with
    | routerLsa lsa source => exact absurd trivial hlsa
    | networkLsa others => exact absurd trivial hlsa
    | _ => rfl

variable [Field M] [Libm M] {S : Setup M} {s1 s2 : Daemon M}

/-- The flags with which `handle_event_fd` returns to the loop. -/
def flagsOf (S : Setup M) (ev : Event M) (s : Daemon M) : Exec Flags := do
  let s ← waitEvent S ev.arrived s
  let s ← runUpdateRoutingTable s
  let (_, f) ← handleEvent S ev.active s
  pure f

theorem flagsOf_twins {ev1 ev2 : Event M} (h : Twins s1 s2) (hev : AlikeEvents OwnIds ev1 ev2) :
    flagsOf S ev1 s1 = flagsOf S ev2 s2 := by
  unfold flagsOf
  rw [← hev.arrived]
  refine Relates.eq ((waitEvent_twins h _).bind fun t1 t2 ht => ?_)
  refine (runUpdateRoutingTable_twins ht).bind fun t1 t2 ht => ?_
  exact (handleEvent_twins ht hev.active hev.proper.1).bind fun p q hpq => hpq.2

end Flags

section Outcome
variable {M : Type} [Field M] [LinearOrder M] [FloorRing M] [Libm M] {S : Setup M} {s1 s2 : Daemon M}

/-- Two steps with the same flags, after which the two graphs cannot be told apart, and the next hops
    are the same. -/
structure SameOutcome (S : Setup M) (st1 st2 : Trace.Step (Daemon M) (Event M)) : Prop where
  flags : flagsOf S st1.event st1.before = flagsOf S st2.event st2.before
  merge : mergeFlag st1.event.active st1.before.graph = mergeFlag st2.event.active st2.before.graph
  graph : ∀ k, Alike (st1.after.graph k) (st2.after.graph k)
  nextHops : st1.after.nextHops = st2.after.nextHops

/-- Two steps of twin daemons on events that are alike. -/
theorem Steps.twins {ev1 ev2 : Event M} {s1' s2' : Daemon M} (h : Twins s1 s2)
    (hev : AlikeEvents OwnIds ev1 ev2) (h1 : Steps S s1 ev1 s1') (h2 : Steps S s2 ev2 s2') :
    Twins s1' s2' ∧ SameOutcome S { before := s1, event := ev1, after := s1' }
      { before := s2, event := ev2, after := s2' } := by
  have hafter : Twins s1' s2' := (iter_twins h hev).ok_both h1.2 h2.2
  have hflags := flagsOf_twins (S := S) h hev
  have hmerge : mergeFlag ev1.active s1.graph = mergeFlag ev2.active s2.graph := by
    obtain ⟨g, t, hg, rfl⟩ := h
    exact mergeFlag_alike hg hev.active hev.proper.1
  refine ⟨hafter, ?_⟩
  obtain ⟨g, t, hg, rfl⟩ := hafter
  exact ⟨hflags, hmerge, fun k => (hg k).toAlike, rfl⟩

/-- Two runs that start in different memory, and hear LSAs that differ where nothing may be read, do
    the same at every step, provided that entry `k` of every network LSA has id `k + 1`. -/
theorem unset_memory_unseen (memory : Graph M) {tr1 tr2 : List (Trace.Step (Daemon M) (Event M))}
    (h1 : Run S tr1 s1) (h2 : Run { S with graph := memory } tr2 s2)
    (hev : List.Forall₂ (AlikeEvents OwnIds) (tr1.map Trace.Step.event)
      (tr2.map Trace.Step.event)) : List.Forall₂ (SameOutcome S) tr1 tr2 := by
  refine (h1.forall₂ (R := Twins) (fun s1 s2 hs1 hs2 => ?_) ?_ h2 hev).2
  · exact (startUp_twins memory).ok_both hs1 hs2
  · exact fun s1 ev1 s1' s2 ev2 s2' h hev hs1 hs2 => Steps.twins h hev hs1 hs2

/-- No other memory, and no other bytes that may not be read, stop the driver in a fault. -/
theorem unset_memory_runs (memory : Graph M) {tr1 : List (Trace.Step (Daemon M) (Event M))}
    (h1 : Run S tr1 s1) {evs : List (Event M)}
    (hev : List.Forall₂ (AlikeEvents OwnIds) (tr1.map Trace.Step.event) evs) :
    ∃ tr2 s2, Run { S with graph := memory } tr2 s2 ∧ tr2.map Trace.Step.event = evs := by
  have hstart : ∀ s1, startUp S = .ok s1 →
      ∃ s2, startUp { S with graph := memory } = .ok s2 ∧ Twins s1 s2 := by
    intro s1 hs1
    have h := startUp_twins (S := S) memory
    rw [hs1] at h
    exact h.ok_left
  have hstep : ∀ s1 ev1 s1' s2 ev2, Twins s1 s2 → AlikeEvents OwnIds ev1 ev2 → Steps S s1 ev1 s1' →
      ∃ s2', Steps { S with graph := memory } s2 ev2 s2' ∧ Twins s1' s2' := by
    intro s1 ev1 s1' s2 ev2 h hev hs1
    have hiter := iter_twins (S := S) h hev
    rw [hs1.2] at hiter
    obtain ⟨s2', hs2, h'⟩ := hiter.ok_left
    exact ⟨s2', ⟨(enabled_twins h hev.active).mp hs1.1, hs2⟩, h'⟩
  obtain ⟨tr2, s2, hrun, hevents, -⟩ := h1.follows hstart hstep hev
  exact ⟨tr2, s2, hrun, hevents⟩

end Outcome

/-! ### What a router hears, with memory of others -/

/-- The events of the two runs below are alike if their network LSAs are. -/
theorem alike_events {Proper : Active ℚ → Prop} {o1 o2 : Graph ℚ} {evs : List (Active ℚ)}
    (ho : ∀ k, Alike (o1 k) (o2 k)) (h1 : Proper (.networkLsa o1)) (h2 : Proper (.networkLsa o2))
    (hevs : ∀ a ∈ evs, ¬a.IsLsa ∧ Proper a) :
    List.Forall₂ (AlikeEvents Proper) (quietly (.networkLsa o1) :: evs.map quietly)
      (quietly (.networkLsa o2) :: evs.map quietly) := by
  refine .cons ⟨rfl, .networkLsa ho, h1, h2⟩ ?_
  rw [List.forall₂_map_left_iff, List.forall₂_map_right_iff, List.forall₂_same]
  exact fun a ha => ⟨rfl, .other (hevs a ha).1, (hevs a ha).2, (hevs a ha).2⟩

/-- Router 2, with a link to router 4, is known; the slots that are not in use hold `unset`, and so
    does the count of neighbours of the opaque router 4. -/
def heardFrom (unset : ℤ) : Graph ℚ := fun k =>
  if k = 1 then
    { oneNeighbour 2 4 .linkUp 5 with neighbourIds := fun i => if i = 0 then 4 else unset }
  else if k = 3 then { zeroNode with id := 4, state := .nodeOpaque, nNeighbours := unset }
  else graphInit (fun _ => zeroNode) k

/-- Then the link to router 2 comes up, and that router asks for the graph. -/
def afterHearing : List (Active ℚ) :=
  [.heartbeat (inetAddr 10 0 0 2), .networkLsaRequest (inetAddr 10 0 0 2)]

theorem unset_memory_unseen_heard : ∃ tr1 tr2 s1 s2, Run (twoLinks .lsr id (pure false)) tr1 s1 ∧
    Run { twoLinks .lsr id (pure false) with graph := heardFrom 8 } tr2 s2 ∧
    (tr1.map Trace.Step.event = quietly (.networkLsa (heardFrom 7)) :: afterHearing.map quietly) ∧
    (tr2.map Trace.Step.event = quietly (.networkLsa (heardFrom 9)) :: afterHearing.map quietly) ∧
    List.Forall₂ (SameOutcome (twoLinks .lsr id (pure false))) tr1 tr2 := by
  obtain ⟨tr1, s1, h1, hev1, -⟩ := exists_run (S := twoLinks .lsr id (pure false))
    (quietly (.networkLsa (heardFrom 7)) :: afterHearing.map quietly) (P := fun _ => True)
    (by decide +kernel)
  obtain ⟨tr2, s2, h2, hev2, -⟩ := exists_run
    (S := { twoLinks .lsr id (pure false) with graph := heardFrom 8 })
    (quietly (.networkLsa (heardFrom 9)) :: afterHearing.map quietly) (P := fun _ => True)
    (by decide +kernel)
  refine ⟨tr1, tr2, s1, s2, h1, h2, hev1, hev2, unset_memory_unseen (heardFrom 8) h1 h2 ?_⟩
  rw [hev1, hev2]
  have hids : ∀ unset ∈ [7, 9], OwnIds (.networkLsa (heardFrom unset)) :=
    show ∀ unset ∈ [7, 9], ∀ k : Fin maxNodeNum, (heardFrom unset k).id = (k : ℕ) + 1 by
      decide +kernel
  exact alike_events (by decide +kernel) (hids 7 (by simp)) (hids 9 (by simp))
    (by simp [afterHearing, Active.IsLsa, OwnIds])

/-! ### A record in another's place -/

/-- The ids and the count of a record are in range. -/
structure Node.InRange {M : Type} (r : Node M) : Prop extends r.InBounds where
  id : 1 ≤ r.id ∧ r.id ≤ maxNodeNum
  count : 0 ≤ r.nNeighbours

instance {M : Type} (r : Node M) : Decidable r.InRange :=
  decidable_of_iff (r.InBounds ∧ (1 ≤ r.id ∧ r.id ≤ maxNodeNum) ∧ 0 ≤ r.nNeighbours)
    ⟨fun h => ⟨h.1, h.2.1, h.2.2⟩, fun h => ⟨h.toInBounds, h.id, h.count⟩⟩

/-- All ids and counts that are received are in range, those of records not seen included. -/
def IdsInRange {M : Type} (a : Active M) : Prop :=
  match a with
  | .routerLsa lsa _ => lsa.InRange
  | .networkLsa others => ∀ k, (others k).InRange
  | _ => True

/-- The entry of router 2 has id 5, so that the backtrace looks up a slot of it in the entry of
    router 5, which is opaque. -/
def misplaced (unset : ℚ) : Graph ℚ := fun k =>
  if k = 1 then oneNeighbour 5 4 .linkUp 5
  else if k = 2 then oneNeighbour 2 4 .linkUp 5
  else if k = 3 then { zeroNode with id := 4, state := .nodeOpaque }
  else if k = 4 then
    { zeroNode with id := 5, state := .nodeOpaque, linkMetrics := fun _ => unset }
  else graphInit (fun _ => zeroNode) k

/-- With ids that are only in range, the memory that another router has not set becomes a metric. -/
theorem unset_memory_seen : ¬∀ (S : Setup ℚ) (memory : Graph ℚ)
    (tr1 tr2 : List (Trace.Step (Daemon ℚ) (Event ℚ))) (s1 s2 : Daemon ℚ),
    Run S tr1 s1 → Run { S with graph := memory } tr2 s2 →
    List.Forall₂ (AlikeEvents IdsInRange) (tr1.map Trace.Step.event) (tr2.map Trace.Step.event) →
    List.Forall₂ (SameOutcome S) tr1 tr2 := by
  intro h
  have hrun := fun unset metrics => exists_run (S := twoLinks .lsr id (pure false))
    (quietly (.networkLsa (misplaced unset)) :: [.heartbeat (inetAddr 10 0 1 3)].map quietly)
    (P := fun tr => tr.map (fun st => (st.after.nextHops 3).metric) = metrics)
  obtain ⟨tr1, s1, h1, hev1, hm1⟩ := hrun 1 [0, 2] (by decide +kernel)
  obtain ⟨tr2, s2, h2, hev2, hm2⟩ := hrun 2 [0, 3] (by decide +kernel)
  have hids : ∀ unset ∈ [1, 2], IdsInRange (.networkLsa (misplaced unset)) :=
    show ∀ unset ∈ [1, 2], ∀ k, (misplaced unset k).InRange by decide +kernel
  have hsame := h (twoLinks .lsr id (pure false)) (fun _ => zeroNode) tr1 tr2 s1 s2 h1 h2 (by
    rw [hev1, hev2]
    exact alike_events (by decide +kernel) (hids 1 (by simp)) (hids 2 (by simp))
      (by simp [Active.IsLsa, IdsInRange]))
  have hmetrics : tr1.map (fun st => (st.after.nextHops 3).metric) =
      tr2.map (fun st => (st.after.nextHops 3).metric) := by
    rw [← List.forall₂_eq_eq_eq, List.forall₂_map_left_iff, List.forall₂_map_right_iff]
    exact hsame.imp fun st1 st2 hst => by rw [hst.nextHops]
  rw [hm1, hm2] at hmetrics
  exact absurd hmetrics (by decide)

end Dtlsr
