import Dtlsr.InOrder

/-!
    A router's own record comes back to it, in LSAs of its own that have travelled around a cycle and in
    the network LSAs of its neighbours. The entry that the router keeps of itself is stamped at every
    change of a link; a copy that is later than the entry was stamped after the last change, so taking
    it changes nothing that matters. -/

namespace Dtlsr
open Checked

section Echoes
variable {M : Type}

/-- The records list the same neighbours, with the same statuses. -/
structure SameStatuses (n1 n2 : Node M) : Prop where
  nNeighbours : n1.nNeighbours = n2.nNeighbours
  neighbourIds : n1.neighbourIds = n2.neighbourIds
  linkStatuses : n1.linkStatuses = n2.linkStatuses

theorem SameStatuses.refl (n : Node M) : SameStatuses n n := ⟨rfl, rfl, rfl⟩

theorem SameStatuses.trans {n1 n2 n3 : Node M} (h : SameStatuses n1 n2) (h' : SameStatuses n2 n3) :
    SameStatuses n1 n3 :=
  ⟨h.nNeighbours.trans h'.nNeighbours, h.neighbourIds.trans h'.neighbourIds,
    h.linkStatuses.trans h'.linkStatuses⟩

variable [Field M]

/-- `r` is what an iteration can send as the router's own LSA or copy into the router's entry: it has
    the statuses that the event left, and the time of one of the iteration's readings of the clock. -/
def Stamped (S : Setup M) (st : Trace.Step (Daemon M) (Event M)) (r : Node M) : Prop :=
  SameStatuses r st.after.this.node ∧
    ∃ now, st.before.ticks ≤ now ∧ now < st.after.ticks ∧ r.timestamp = S.clock now

/-- `r` is from start-up or before (as is every record from before a restart), or from an earlier
    iteration. -/
def OwnEcho (S : Setup M) (pre : List (Trace.Step (Daemon M) (Event M))) (r : Node M) : Prop :=
  r.timestamp ≤ S.clock 1 ∨ ∃ st ∈ pre, Stamped S st r

/-- The records of entry `k` that an event brings are echoes. -/
def BringsEchoes (S : Setup M) (k : Fin maxNodeNum)
    (pre : List (Trace.Step (Daemon M) (Event M))) (st : Trace.Step (Daemon M) (Event M)) : Prop :=
  ∀ r ∈ lsaBrought k st.event.active, r.state = .nodeSeen ∧ OwnEcho S pre r

variable {S : Setup M}

theorem OwnEcho.append {pre : List (Trace.Step (Daemon M) (Event M))} {r : Node M}
    (h : OwnEcho S pre r) (st : Trace.Step (Daemon M) (Event M)) : OwnEcho S (pre ++ [st]) r := by
  rcases h with h | ⟨st', hst', h⟩
  · exact Or.inl h
  · exact Or.inr ⟨st', List.mem_append_left _ hst', h⟩

end Echoes

/-- Entry `k` is seen, and has the neighbours and the statuses of the router's record. -/
def OwnCurrent {M : Type} (k : Fin maxNodeNum) (s : Daemon M) : Prop :=
  (s.graph k).state = .nodeSeen ∧ SameStatuses (s.graph k) s.this.node

section Runs
variable {M : Type} [Field M] [LinearOrder M] [FloorRing M] [Libm M] {S : Setup M}
  {k : Fin maxNodeNum}

/-- What an LSA does to a seen entry: it keeps it, or puts a later record of the node in its place. -/
theorem Steps.keepsOrTakes {ev : Event M} {s s' : Daemon M} (h : Steps S s ev s')
    (hlsa : ev.active.IsLsa) (hs : (s.graph k).state = .nodeSeen)
    (hseen : ∀ r ∈ lsaBrought k ev.active, r.state = .nodeSeen) :
    s'.graph k = s.graph k ∨ ∃ r ∈ lsaBrought k ev.active, s'.graph k = r ∧
      (s.graph k).timestamp < r.timestamp := by
  have hroutes := h.routes
  cases ha : ev.active with
  | routerLsa lsa source =>
    rw [ha] at hroutes
    obtain ⟨⟨u, hm⟩, -⟩ := hroutes
    by_cases hid : lsa.id = (k : ℕ) + 1
    · have hbrought : lsa ∈ lsaBrought k ev.active := by simp [ha, lsaBrought, hid]
      obtain ⟨j, hj, -, hentry, -, -⟩ := mergeInNode_entries (hseen lsa hbrought) hm
      obtain rfl : k = j := Fin.ext (by omega)
      rcases mergedEntry_cases (s.graph k) lsa with hkeep | ⟨htake, hadv⟩
      · exact Or.inl (hentry.trans hkeep)
      · rcases later_of_renewed (Or.inr hadv) hs with heq | hlt
        · exact Or.inl (by rw [hentry, htake, heq])
        · exact Or.inr ⟨lsa, ha ▸ hbrought, hentry.trans htake, hlt⟩
    · exact Or.inl ((mergeInNode_untouched hid hm).seen hs)
  | networkLsa others =>
    rw [ha] at hroutes
    obtain ⟨⟨u, hm⟩, -⟩ := hroutes
    rcases mergeInGraph_cases hm k with ⟨hkeep, -⟩ | ⟨htake, hadv⟩
    · exact Or.inl hkeep
    · have hother : (others k).state = .nodeSeen := hadv.notBack.seen hs
      rcases later_of_renewed (Or.inr hadv) hs with heq | hlt
      · exact Or.inl (by rw [htake, heq])
      · exact Or.inr ⟨others k, by simp [lsaBrought, hother], htake, hlt⟩
  | _ =>
    rw [ha] at hlsa
    exact hlsa.elim

/-- The invariant: the entry is current, and whatever was stamped later than it has the statuses that
    the links still have. The entry, which the router sends out in network LSAs, is an echo too. -/
structure EchoProof (S : Setup M) (k : Fin maxNodeNum)
    (tr : List (Trace.Step (Daemon M) (Event M))) (s : Daemon M) : Prop where
  current : OwnCurrent k s
  since : S.clock 1 ≤ (s.graph k).timestamp
  started : 2 ≤ s.ticks
  ticks : ∀ st ∈ tr, st.after.ticks ≤ s.ticks
  echo : OwnEcho S tr (s.graph k)
  later : ∀ st ∈ tr, ∀ now < st.after.ticks, (s.graph k).timestamp < S.clock now →
    st.before.ticks ≤ now → SameStatuses st.after.this.node s.this.node

omit [LinearOrder M] [FloorRing M] in
theorem startUp_echoProof {s : Daemon M} (hk : S.id = (k : ℕ) + 1) (h : startUp S = .ok s) :
    EchoProof S k [] s := by
  obtain ⟨t, ht, h⟩ := bind_ok_iff.mp h
  obtain ⟨⟨g, t'⟩, hg, h⟩ := bind_ok_iff.mp h
  cases h
  obtain ⟨-, hid, hseen, -⟩ := localNodeInit_ok ht
  obtain ⟨hown, ht'⟩ := updateGlobalThis_own hseen (hid.trans hk) hg
  refine ⟨⟨?_, ?_⟩, ?_, le_rfl, by simp, Or.inl ?_, by simp⟩ <;> dsimp only <;> rw [hown]
  · rw [ht']
    exact hseen
  · exact .refl _
  · rw [ht']
    exact le_rfl
  · rw [ht']
    exact le_rfl

/-- The links of a router are configured once. -/
theorem Steps.sameStatuses {ev : Event M} {s s' : Daemon M} (h : Steps S s ev s')
    (hst : s'.this.node.linkStatuses = s.this.node.linkStatuses) :
    SameStatuses s.this.node s'.this.node where
  nNeighbours := by rw [h.links.nNeighbours, linkEffect_nNeighbours]
  neighbourIds := by rw [h.links.neighbourIds, linkEffect_neighbourIds]
  linkStatuses := hst.symm

/-- An iteration keeps the invariant, if the records of its own that the router receives are echoes. -/
theorem EchoProof.step {tr : List (Trace.Step (Daemon M) (Event M))} {s s' : Daemon M} {ev : Event M}
    (hk : S.id = (k : ℕ) + 1) (hclock : Monotone S.clock) (hl : Linked S s.this)
    (hinv : EchoProof S k tr s) (hstep : Steps S s ev s')
    (hecho : BringsEchoes S k tr { before := s, event := ev, after := s' }) :
    EchoProof S k (tr ++ [{ before := s, event := ev, after := s' }]) s' := by
  have hticks := hstep.originated.1
  have hstarted := hinv.started.trans hticks
  have hbefore : ∀ st ∈ tr ++ [{ before := s, event := ev, after := s' }],
      st.after.ticks ≤ s'.ticks := by
    intro st hst
    rcases List.mem_append.mp hst with hst | hst
    · exact (hinv.ticks st hst).trans hticks
    · rw [List.mem_singleton.mp hst]
  -- where the links stay as they are, an entry that is no earlier keeps the invariant
  have hkeep : s'.this.node.linkStatuses = s.this.node.linkStatuses →
      (s.graph k).timestamp ≤ (s'.graph k).timestamp → (s'.graph k).state = .nodeSeen →
      SameStatuses (s'.graph k) s.this.node → OwnEcho S tr (s'.graph k) →
      EchoProof S k (tr ++ [{ before := s, event := ev, after := s' }]) s' := by
    intro hst hle hs hsame hown
    have hthis := hstep.sameStatuses hst
    refine ⟨⟨hs, hsame.trans hthis⟩, hinv.since.trans hle, hstarted, hbefore,
      hown.append _, fun st hmem now hnow hlt hge => ?_⟩
    rcases List.mem_append.mp hmem with hmem | hmem
    · exact (hinv.later st hmem now hnow (hle.trans_lt hlt) hge).trans hthis
    · rw [List.mem_singleton.mp hmem]
      exact .refl _
  obtain ⟨hcur, hsame⟩ := hinv.current
  by_cases hlsa : ev.active.IsLsa
  · have hst : s'.this.node.linkStatuses = s.this.node.linkStatuses := by
      rw [hstep.links.linkStatuses]
      cases ha : ev.active <;> rw [ha] at hlsa <;> first | rfl | exact hlsa.elim
    rcases hstep.keepsOrTakes hlsa hcur fun r hr => (hecho r hr).1 with hentry | ⟨r, hr, hentry, hlt⟩
    · exact hkeep hst (by rw [hentry]) (by rw [hentry]; exact hcur) (by rw [hentry]; exact hsame)
        (by rw [hentry]; exact hinv.echo)
    · have hechoed := (hecho r hr).2
      obtain ⟨hseen, hold | ⟨st, hmem, hstatuses, now, hge, hnow, hstamp⟩⟩ := hecho r hr
      · -- nothing from before is later than the entry
        exact absurd (hinv.since.trans_lt hlt) (Nat.not_lt.mpr hold)
      · refine hkeep hst (by rw [hentry]; exact hlt.le) (by rw [hentry]; exact hseen) ?_
          (by rw [hentry]; exact hechoed)
        rw [hentry]
        exact hstatuses.trans (hinv.later st hmem now hnow (hstamp ▸ hlt) hge)
  · rcases hstep.own (hl.id.trans hk) hl.seen hlsa with ⟨hentry, hst, -⟩ | ⟨hread, hentry, hstamp⟩
    · exact hkeep hst (by rw [hentry]) (by rw [hentry]; exact hcur) (by rw [hentry]; exact hsame)
        (by rw [hentry]; exact hinv.echo)
    · -- the entry carries the last reading of the clock
      have hl' : Linked S s'.this := (hl.linkEffect ev.active).of_sameLinks hstep.links
      have hcur' : OwnCurrent k s' := ⟨by rw [hentry]; exact hl'.seen, by rw [hentry]; exact .refl _⟩
      refine ⟨hcur', ?_, hstarted, hbefore,
        Or.inr ⟨_, List.mem_append_right _ (List.mem_singleton_self _), ?_⟩, ?_⟩
      · rw [hentry, hstamp]
        exact hclock (by omega)
      · exact ⟨by rw [hentry]; exact .refl _, s'.ticks - 1, by dsimp only; omega, by dsimp only; omega,
          by rw [hentry, hstamp]⟩
      · intro st hmem now hnow hlt
        rw [hentry, hstamp] at hlt
        have hle : now ≤ s'.ticks - 1 := by
          have := hbefore st hmem
          omega
        exact absurd hlt (Nat.not_lt.mpr (hclock hle))

/-- A router's own record survives echoes: at the end of every iteration its entry is seen, with the
    neighbours and the statuses that its links have. -/
theorem own_record_survives (hk : S.id = (k : ℕ) + 1) (hclock : Monotone S.clock)
    {tr : List (Trace.Step (Daemon M) (Event M))} {s : Daemon M} (hrun : Run S tr s)
    (hecho : Trace.Along (BringsEchoes S k) tr) :
    Trace.Along (fun _ st => OwnCurrent k st.after) tr := by
  suffices h : Trace.Along (BringsEchoes S k) tr →
      EchoProof S k tr s ∧ Trace.Along (fun _ st => OwnCurrent k st.after) tr from (h hecho).2
  refine hrun.invariant (I := fun tr s => Trace.Along (BringsEchoes S k) tr →
    EchoProof S k tr s ∧ Trace.Along (fun _ st => OwnCurrent k st.after) tr) ?_ ?_
  · exact fun s h0 _ => ⟨startUp_echoProof hk h0, Trace.along_nil⟩
  · intro tr s ev s' hr ih hstep hall
    obtain ⟨hbefore, hlast⟩ := Trace.along_snoc.mp hall
    obtain ⟨hinv, hcurrent⟩ := ih hbefore
    have hnext := hinv.step hk hclock (Run.linked hr) hstep hlast
    exact ⟨hnext, Trace.along_snoc.mpr ⟨hcurrent, hnext.current⟩⟩

/-- What the router sends as its own is stamped by the iteration that sends it: when it comes back later,
    it is an echo. -/
theorem Steps.stamped {ev : Event M} {s s' : Daemon M} (h : Steps S s ev s') :
    ∀ r ∈ s'.originated, r ∈ s.originated ∨
      Stamped S { before := s, event := ev, after := s' } r := by
  intro r hr
  obtain ⟨-, horig | ⟨t, now, hlinks, hge, hlt, horig⟩⟩ := h.originated
  · exact Or.inl (horig ▸ hr)
  · rw [horig] at hr
    rcases List.mem_append.mp hr with hr | hr
    · exact Or.inl hr
    · obtain rfl := List.mem_singleton.mp hr
      refine Or.inr ⟨⟨?_, ?_, ?_⟩, now, hge, hlt, rfl⟩ <;> dsimp only
      · rw [h.links.nNeighbours, ← hlinks.nNeighbours]; rfl
      · rw [h.links.neighbourIds, ← hlinks.neighbourIds]; rfl
      · rw [h.links.linkStatuses, ← hlinks.linkStatuses]; rfl

end Runs

/-! ### An LSA that comes back late -/

instance {M : Type} (n1 n2 : Node M) : Decidable (SameStatuses n1 n2) :=
  decidable_of_iff (n1.nNeighbours = n2.nNeighbours ∧ n1.neighbourIds = n2.neighbourIds ∧
      n1.linkStatuses = n2.linkStatuses)
    ⟨fun ⟨h1, h2, h3⟩ => ⟨h1, h2, h3⟩, fun h => ⟨h.nNeighbours, h.neighbourIds, h.linkStatuses⟩⟩

instance (S : Setup ℚ) (st : Trace.Step (Daemon ℚ) (Event ℚ)) (r : Node ℚ) :
    Decidable (Stamped S st r) :=
  decidable_of_iff (SameStatuses r st.after.this.node ∧ ∃ now < st.after.ticks,
      st.before.ticks ≤ now ∧ r.timestamp = S.clock now)
    ⟨fun ⟨h, now, h1, h2, h3⟩ => ⟨h, now, h2, h1, h3⟩, fun ⟨h, now, h2, h1, h3⟩ => ⟨h, now, h1, h2, h3⟩⟩

instance (S : Setup ℚ) (pre : List (Trace.Step (Daemon ℚ) (Event ℚ))) (r : Node ℚ) :
    Decidable (OwnEcho S pre r) := by
  unfold OwnEcho; infer_instance

instance (S : Setup ℚ) (k : Fin maxNodeNum) (pre : List (Trace.Step (Daemon ℚ) (Event ℚ)))
    (st : Trace.Step (Daemon ℚ) (Event ℚ)) : Decidable (BringsEchoes S k pre st) := by
  unfold BringsEchoes; infer_instance

/-- The LSA that a router with two links sends when the first of them comes up. -/
def firstLsa : List (Node ℚ) :=
  ((runEvents (twoLinks .dtlsr id (pure false))
    [quietly (.heartbeat (inetAddr 10 0 0 2))]).bind List.getLast?).elim []
    fun st => st.after.originated

/-- It comes back before the second link comes up, and again after that. -/
def firstLsaReturns : List (Event ℚ) :=
  [quietly (.heartbeat (inetAddr 10 0 0 2))] ++
    firstLsa.map (fun lsa => quietly (.routerLsa lsa (inetAddr 10 0 0 2))) ++
    [quietly (.heartbeat (inetAddr 10 0 1 3))] ++
    firstLsa.map (fun lsa => quietly (.routerLsa lsa (inetAddr 10 0 1 3)))

theorem own_record_survives_returns : ∃ tr s, Run (twoLinks .dtlsr id (pure false)) tr s ∧
    tr.map Trace.Step.event = firstLsaReturns ∧ (delivered 0 tr).length = 2 ∧
    Trace.Along (fun _ st => OwnCurrent 0 st.after) tr := by
  obtain ⟨tr, s, hrun, hevents, htwo, hecho⟩ := exists_run (S := twoLinks .dtlsr id (pure false))
    firstLsaReturns
    (P := fun tr => (delivered 0 tr).length = 2 ∧
      Trace.Along (BringsEchoes (twoLinks .dtlsr id (pure false)) 0) tr) (by decide +kernel)
  exact ⟨tr, s, hrun, hevents, htwo,
    own_record_survives (S := twoLinks .dtlsr id (pure false)) rfl monotone_id hrun hecho⟩

end Dtlsr
