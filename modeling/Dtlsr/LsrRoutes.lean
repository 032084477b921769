import Dtlsr.Reached

/-!
    When the LSR driver recomputes its routes. `handle_event_fd` reports a change of a link through
    `graph_updated`, but drops the flags that the two merges return, so the next hops are those of the
    graph at the last change of a link. -/

namespace Dtlsr
open Checked

section Changes
variable {M : Type} [LinearOrder M]

/-- The merge that an event makes. -/
def mergeOf (a : Active M) (graph : Graph M) : Exec (Graph M × Bool) :=
  match a with
  | .routerLsa lsa _ => mergeInNode graph lsa
  | .networkLsa others => mergeInGraph graph others
  | _ => pure (graph, false)

/-- The merge made by the step returned `updated = 1`. -/
def MergeUpdated (st : Trace.Step (Daemon M) (Event M)) : Prop :=
  (mergeOf st.event.active st.before.graph).toOption.map Prod.snd = some true

instance (st : Trace.Step (Daemon M) (Event M)) : Decidable (MergeUpdated st) := by
  unfold MergeUpdated; infer_instance

theorem MergeUpdated.isLsa {st : Trace.Step (Daemon M) (Event M)} (h : MergeUpdated st) :
    st.event.active.IsLsa := by
  unfold MergeUpdated mergeOf at h
  cases ha : st.event.active with
  | routerLsa lsa source => trivial
  | networkLsa others => trivial
  | _ => simp [ha, Except.toOption] at h

end Changes

section Routes
variable {M : Type} [Field M] [LinearOrder M] [FloorRing M] (S : Setup M)

/-- The next hops are the result of `pathfind` on the graph, for this router. -/
def UpToDate (s : Daemon M) : Prop := pathfind S.build s.graph s.this.node.id = .ok s.nextHops

/-- The routes at the last change of a link; before the first, the table that `memset` has left. -/
def routesAtLastChange (tr : List (Trace.Step (Daemon M) (Event M))) : Exec HopTable :=
  match (tr.filter fun st => LinksChanged st).getLast? with
  | some st => pathfind S.build st.after.graph S.id
  | none => .ok fun _ => hopZero

/-- The merge leaves the routes as they were at the last change of a link. -/
def MergeKeepsRoutes (tr : List (Trace.Step (Daemon M) (Event M)))
    (st : Trace.Step (Daemon M) (Event M)) : Prop :=
  (mergeOf st.event.active st.before.graph >>= fun out => pathfind S.build out.1 S.id) =
    routesAtLastChange S tr

instance (s : Daemon M) : Decidable (UpToDate S s) := by unfold UpToDate; infer_instance

instance (tr : List (Trace.Step (Daemon M) (Event M))) (st : Trace.Step (Daemon M) (Event M)) :
    Decidable (MergeKeepsRoutes S tr st) := by
  unfold MergeKeepsRoutes; infer_instance

variable {S}

theorem routesAtLastChange_snoc (tr : List (Trace.Step (Daemon M) (Event M)))
    (st : Trace.Step (Daemon M) (Event M)) : routesAtLastChange S (tr ++ [st]) =
      if LinksChanged st then pathfind S.build st.after.graph S.id else routesAtLastChange S tr := by
  unfold routesAtLastChange
  rw [List.filter_append]
  by_cases h : LinksChanged st <;> simp [h]

variable [Libm M]

/-- A merge changes no link, and no next hop. -/
theorem Steps.merge {ev : Event M} {s s' : Daemon M} (h : Steps S s ev s')
    (hlsa : ev.active.IsLsa) : (∃ u, mergeOf ev.active s.graph = .ok (s'.graph, u)) ∧
      s'.nextHops = s.nextHops ∧ s'.this.node.linkStatuses = s.this.node.linkStatuses := by
  have hroutes := h.routes
  have hlinks := h.links.linkStatuses
  cases ha : ev.active with
  | routerLsa lsa source =>
    rw [ha] at hroutes hlinks
    exact ⟨hroutes.1, hroutes.2, hlinks⟩
  | networkLsa others =>
    rw [ha] at hroutes hlinks
    exact ⟨hroutes.1, hroutes.2, hlinks⟩
  | _ => rw [ha] at hlsa; exact hlsa.elim

/-- What an LSR iteration does to the next hops. -/
theorem Steps.lsr_nextHops {ev : Event M} {s s' : Daemon M} (hb : S.build = .lsr)
    (h : Steps S s ev s') :
    (s'.this.node.linkStatuses ≠ s.this.node.linkStatuses → UpToDate S s') ∧
      (s'.this.node.linkStatuses = s.this.node.linkStatuses → s'.nextHops = s.nextHops) := by
  have hroutes := h.routes
  cases ha : ev.active with
  | routerLsa lsa source =>
    obtain ⟨-, h1, h2⟩ := h.merge (by rw [ha]; trivial)
    exact ⟨fun hn => absurd h2 hn, fun _ => h1⟩
  | networkLsa others =>
    obtain ⟨-, h1, h2⟩ := h.merge (by rw [ha]; trivial)
    exact ⟨fun hn => absurd h2 hn, fun _ => h1⟩
  | recomputationTimer =>
    have hen := h.1
    rw [ha] at hen
    rw [show S.build = .dtlsr from hen] at hb
    cases hb
  | _ =>
    rw [ha] at hroutes
    obtain ⟨h1, h2⟩ | ⟨-, h1, h2⟩ := hroutes
    · exact ⟨fun _ => h1, fun hsame => absurd hsame h2⟩
    · exact ⟨fun hn => absurd h2 hn, fun _ => h1⟩

/-- In an LSR run the next hops are the routes at the last change of a link. -/
theorem Run.nextHops {tr : List (Trace.Step (Daemon M) (Event M))} {s : Daemon M}
    (hb : S.build = .lsr) (hrun : Run S tr s) : routesAtLastChange S tr = .ok s.nextHops := by
  refine hrun.invariant (I := fun tr s => routesAtLastChange S tr = .ok s.nextHops) ?_ ?_
  · intro s h0
    rw [(startUp_started h0).nextHops]
    rfl
  · intro tr s ev s' hr hinv hstep
    obtain ⟨hchanged, hkept⟩ := hstep.lsr_nextHops hb
    rw [routesAtLastChange_snoc]
    by_cases h : LinksChanged { before := s, event := ev, after := s' }
    · have hid : s'.this.node.id = S.id := (Run.linked (hr.step hstep)).id
      rw [if_pos h, ← hid]
      exact hchanged h
    · rw [if_neg h, hinv, hkept (not_not.mp h)]

/-- After a merge that returns `updated = 1` the next hops of the LSR driver are those of its graph exactly
    when the merge has not altered the routes since the last change of a link. -/
theorem Run.upToDate_iff (hb : S.build = .lsr) {tr : List (Trace.Step (Daemon M) (Event M))}
    {s : Daemon M} (hrun : Run S tr s) :
    Trace.Along (fun _ st => MergeUpdated st ∨ LinksChanged st → UpToDate S st.after) tr ↔
      Trace.Along (fun pre st => MergeUpdated st → MergeKeepsRoutes S pre st) tr := by
  refine hrun.along_iff (I := fun tr s => Run S tr s) (fun _ h => .start h) ?_
  intro tr st hr hstep
  refine ⟨?_, fun _ => hr.step hstep⟩
  have hlast := hr.nextHops hb
  have hid : st.after.this.node.id = S.id := (Run.linked (hr.step hstep)).id
  -- for a merge that updates the graph the two sides are one equation
  have hmerge : MergeUpdated st → (MergeKeepsRoutes S tr st ↔ UpToDate S st.after) := by
    intro hu
    obtain ⟨⟨u, hgraph⟩, hhops, -⟩ := hstep.merge hu.isLsa
    unfold MergeKeepsRoutes UpToDate
    rw [hgraph, ok_bind, hlast, hid, hhops]
  constructor
  · intro h hu
    exact (hmerge hu).mpr (h (Or.inl hu))
  · rintro h (hu | hl)
    · exact (hmerge hu).mp (h hu)
    · exact (hstep.lsr_nextHops hb).1 hl

/-- The LSR driver has up-to-date routes after every change of its graph in the runs in which no merge
    returns `updated = 1`. -/
theorem lsr_upToDate_of_no_update (hb : S.build = .lsr)
    {tr : List (Trace.Step (Daemon M) (Event M))} {s : Daemon M} (hrun : Run S tr s)
    (hmerges : ∀ st ∈ tr, ¬MergeUpdated st) :
    Trace.Along (fun _ st => MergeUpdated st ∨ LinksChanged st → UpToDate S st.after) tr := by
  refine (Run.upToDate_iff hb hrun).mpr ?_
  rintro pre st post rfl hu
  exact absurd hu (hmerges st (by simp))

end Routes

/-- What router 2 sends: it has links to router 1 and, if `beyond`, to router 4. -/
def lsaOfTwo (beyond : Bool) : Node ℚ :=
  { zeroNode with
    id := 2
    state := .nodeSeen
    nNeighbours := if beyond then 2 else 1
    neighbourIps := fun i => if i = 0 then inetAddr 10 0 0 1 else inetAddr 10 0 2 4
    neighbourIds := fun i => if i = 0 then 1 else 4
    linkStatuses := fun _ => .linkUp
    linkMetrics := fun _ => 1
    timestamp := 5 }

/-- The link to router 2 comes up, and then its LSA arrives. -/
def neighbourFound (beyond : Bool) : List (Event ℚ) :=
  [quietly (.heartbeat (inetAddr 10 0 0 2)),
    quietly (.routerLsa (lsaOfTwo beyond) (inetAddr 10 0 0 2))]

/-- The links come up and the first goes down again, and an LSA comes that shows nothing. -/
def linksOnly : List (Event ℚ) :=
  [quietly (.heartbeat (inetAddr 10 0 0 2)),
    quietly (.routerLsa { lsaOfTwo false with state := .nodeUnseen } (inetAddr 10 0 0 2)),
    quietly (.heartbeat (inetAddr 10 0 1 3)), quietly (.timer 0)]

/-- The next hops are recomputed three times. -/
theorem lsr_upToDate_of_no_update_linksOnly : ∃ tr s, Run (twoLinks .lsr id (pure false)) tr s ∧
    tr.map Trace.Step.event = linksOnly ∧ (tr.filter fun st => LinksChanged st).length = 3 ∧
    Trace.Along (fun _ st => MergeUpdated st ∨ LinksChanged st →
      UpToDate (twoLinks .lsr id (pure false)) st.after) tr := by
  obtain ⟨tr, s, hrun, hevents, hthree, hmerges⟩ := exists_run (S := twoLinks .lsr id (pure false))
    linksOnly (P := fun tr => (tr.filter fun st => LinksChanged st).length = 3 ∧
      ∀ st ∈ tr, ¬MergeUpdated st) (by decide +kernel)
  exact ⟨tr, s, hrun, hevents, hthree, lsr_upToDate_of_no_update rfl hrun hmerges⟩

/-- The condition is not needed: an LSA that shows no further router makes `updated = 1`, and leaves the
    routes as they are. -/
example : ∃ tr s, Run (twoLinks .lsr id (pure false)) tr s ∧
    (∃ st ∈ tr, MergeUpdated st) ∧
    Trace.Along (fun _ st => MergeUpdated st ∨ LinksChanged st →
      UpToDate (twoLinks .lsr id (pure false)) st.after) tr := by
  obtain ⟨tr, s, hrun, -, hkeeps, hupdated⟩ := exists_run (S := twoLinks .lsr id (pure false))
    (neighbourFound false) (P := fun tr => Trace.Along (fun pre st => MergeUpdated st →
      MergeKeepsRoutes (twoLinks .lsr id (pure false)) pre st) tr ∧ ∃ st ∈ tr, MergeUpdated st)
    (by decide +kernel)
  exact ⟨tr, s, hrun, hupdated, (Run.upToDate_iff rfl hrun).mpr hkeeps⟩

/-- Router 2 shows router 4, to which the driver then has no route. -/
theorem lsr_misses_merge : ¬∀ (S : Setup ℚ) (tr : List (Trace.Step (Daemon ℚ) (Event ℚ)))
    (s : Daemon ℚ), S.build = .lsr → Run S tr s →
      Trace.Along (fun _ st => MergeUpdated st ∨ LinksChanged st → UpToDate S st.after) tr := by
  intro h
  obtain ⟨tr, s, hrun, -, hmiss⟩ := exists_run (S := twoLinks .lsr id (pure false))
    (neighbourFound true) (P := fun tr => ¬Trace.Along (fun _ st => MergeUpdated st ∨ LinksChanged st →
      UpToDate (twoLinks .lsr id (pure false)) st.after) tr) (by decide +kernel)
  exact hmiss (h _ tr s rfl hrun)

end Dtlsr
