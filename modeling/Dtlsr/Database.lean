import Dtlsr.LocalGraph
import Dtlsr.Lib.Trace

/-!
    What the three writers of the link-state database do to an entry in the course of a run. A merge
    either leaves the entry, or advances it: to a state that is further up in unseen, opaque, seen, or
    to a later record of a node that is seen. `update_global_this` rewrites the router's own entry, for
    which it relies on the clock. -/

namespace Dtlsr
open Checked

def NodeState.rank : NodeState → ℕ
  | .nodeUnseen => 0
  | .nodeOpaque => 1
  | .nodeSeen => 2

section Entries
variable {M : Type}

/-- `new` knows more of the node than `old`, or the same of a later time. -/
def Advances (old new : Node M) : Prop :=
  old.state.rank < new.state.rank ∨
    (old.state = .nodeSeen ∧ new.state = .nodeSeen ∧ old.timestamp < new.timestamp)

/-- The state does not move down, and a seen record does not get older. -/
structure NotBack (old new : Node M) : Prop where
  state : old.state.rank ≤ new.state.rank
  timestamp : old.state = .nodeSeen → old.timestamp ≤ new.timestamp

theorem NotBack.refl (n : Node M) : NotBack n n := ⟨le_rfl, fun _ => le_rfl⟩

theorem rank_injective {s s' : NodeState} (h : s.rank = s'.rank) : s = s' := by
  cases s <;> cases s' <;> simp [NodeState.rank] at h <;> rfl

theorem rank_eq_two {s : NodeState} : s.rank = 2 ↔ s = .nodeSeen := by
  cases s <;> simp [NodeState.rank]

theorem rank_le_two (s : NodeState) : s.rank ≤ 2 := by cases s <;> simp [NodeState.rank]

theorem NotBack.seen {old new : Node M} (h : NotBack old new) (hs : old.state = .nodeSeen) :
    new.state = .nodeSeen := by
  have h1 := h.state
  have h2 := rank_le_two new.state
  rw [rank_eq_two.mpr hs] at h1
  exact rank_eq_two.mp (by omega)

theorem Advances.notBack {old new : Node M} (h : Advances old new) : NotBack old new := by
  rcases h with hlt | ⟨hs, hs', hlt⟩
  · refine ⟨hlt.le, fun hs => ?_⟩
    have := rank_le_two new.state
    rw [rank_eq_two.mpr hs] at hlt
    omega
  · exact ⟨by rw [hs, hs'], fun _ => hlt.le⟩

/-- What advances a seen record is seen, and later. -/
theorem Advances.later {old new : Node M} (h : Advances old new) (hs : old.state = .nodeSeen) :
    new.state = .nodeSeen ∧ old.timestamp < new.timestamp := by
  rcases h with hlt | ⟨-, hs', hlt⟩
  · have := rank_le_two new.state
    rw [rank_eq_two.mpr hs] at hlt
    omega
  · exact ⟨hs', hlt⟩

theorem Advances.asymm {n1 n2 : Node M} (h : Advances n1 n2) : ¬Advances n2 n1 := by
  rintro (hlt' | ⟨hs, hs', hlt'⟩)
  · exact absurd hlt' (Nat.not_lt.mpr h.notBack.state)
  · exact absurd hlt' (Nat.not_lt.mpr (h.notBack.timestamp hs'))

/-- Of two records one advances the other, unless they agree in state, and in time if they are seen. -/
theorem advances_or (n1 n2 : Node M) : Advances n1 n2 ∨ Advances n2 n1 ∨
    (n1.state = n2.state ∧ (n1.state = .nodeSeen → n1.timestamp = n2.timestamp)) := by
  rcases Nat.lt_trichotomy n1.state.rank n2.state.rank with hlt | heq | hlt
  · exact Or.inl (Or.inl hlt)
  · have hstate := rank_injective heq
    by_cases hs : n1.state = .nodeSeen
    · rcases Nat.lt_trichotomy n1.timestamp n2.timestamp with hlt | ht | hlt
      · exact Or.inl (Or.inr ⟨hs, hstate ▸ hs, hlt⟩)
      · exact Or.inr (Or.inr ⟨hstate, fun _ => ht⟩)
      · exact Or.inr (Or.inl (Or.inr ⟨hstate ▸ hs, hs, hlt⟩))
    · exact Or.inr (Or.inr ⟨hstate, fun h => absurd h hs⟩)
  · exact Or.inr (Or.inl (Or.inl hlt))

theorem notBack_of_renewed {old new : Node M} (h : new = old ∨ Advances old new) :
    NotBack old new := by
  rcases h with rfl | h
  · exact .refl _
  · exact h.notBack

/-- A seen record that has changed at all has become later. -/
theorem later_of_renewed {old new : Node M} (h : new = old ∨ Advances old new)
    (hs : old.state = .nodeSeen) : new = old ∨ old.timestamp < new.timestamp :=
  h.imp_right fun hadv => (hadv.later hs).2

theorem markedEntry_renewed (r : Node M) (k : Fin maxNodeNum) (old : Node M) :
    markedEntry r k old = old ∨ Advances old (markedEntry r k old) := by
  unfold markedEntry
  split
  · rename_i h
    exact Or.inr (Or.inl (by rw [h.1]; simp [NodeState.rank]))
  · exact Or.inl rfl

/-- A record that is seen after marking has not been marked. -/
theorem markedEntry_seen {r old : Node M} {k : Fin maxNodeNum}
    (h : (markedEntry r k old).state = .nodeSeen) : markedEntry r k old = old := by
  unfold markedEntry at h ⊢
  split
  · rename_i hm
    rw [if_pos hm] at h
    cases h
  · rfl

theorem Takes.advances {old other : Node M} (h : Takes old other) : Advances old other := by
  rcases h with ⟨hs, hold | ⟨hlt, -⟩⟩ | ⟨hun, ho⟩
  · refine Or.inl ?_
    have hne : old.state.rank ≠ 2 := fun h => hold (rank_eq_two.mp h)
    have hle := rank_le_two old.state
    rw [rank_eq_two.mpr hs]
    omega
  · by_cases hold : old.state = .nodeSeen
    · exact Or.inr ⟨hold, hs, hlt⟩
    · have hne : old.state.rank ≠ 2 := fun h => hold (rank_eq_two.mp h)
      have hle := rank_le_two old.state
      exact Or.inl (by rw [rank_eq_two.mpr hs]; omega)
  · refine Or.inl ?_
    rw [hun]
    cases hs : other.state with
    | nodeUnseen => exact absurd hs ho
    | _ => simp [NodeState.rank]

section Merges
variable [DecidableEq M]

theorem mergedEntry_cases (old other : Node M) : mergedEntry old other = old ∨
    mergedEntry old other = other ∧ Advances old other := by
  unfold mergedEntry
  split
  · rename_i h
    exact Or.inr ⟨rfl, h.advances⟩
  · exact Or.inl rfl

/-- What `merge_in_node` of a seen record makes of its own entry, which is then seen, and of others. -/
theorem mergeInNode_entries {graph g : Graph M} {r : Node M} {u : Bool} (hs : r.state = .nodeSeen)
    (h : mergeInNode graph r = .ok (g, u)) : ∃ k : Fin maxNodeNum, r.id = (k : ℕ) + 1 ∧
      u = decide (Supersedes (graph k) r) ∧ g k = mergedEntry (graph k) r ∧
      (g k).state = .nodeSeen ∧ ∀ j ≠ k, g j = markedEntry r j (graph j) := by
  obtain ⟨hr, k, hid⟩ := mergeInNode_inBounds (by simp [hs]) h
  rw [mergeInNode_eq hs hid hr] at h
  cases h
  have hseen : (mergedEntry (graph k) r).state = .nodeSeen := by
    unfold mergedEntry
    split
    · exact hs
    · rename_i hn
      by_contra hold
      exact hn (Or.inl ⟨hs, Or.inl hold⟩)
  have hself : markedEntry r k (mergedEntry (graph k) r) = mergedEntry (graph k) r := by
    rw [markedEntry, if_neg fun hc => by rw [hseen] at hc; cases hc.1]
  refine ⟨k, hid, rfl, ?_, ?_, fun j hj => ?_⟩
  · simp only [Function.update_self, hself]
  · simp only [Function.update_self, hself, hseen]
  · simp only [Function.update_of_ne hj]

/-- `merge_in_node` of a seen record leaves or advances every entry. -/
theorem mergeInNode_renewed {graph g : Graph M} {r : Node M} {u : Bool} (hs : r.state = .nodeSeen)
    (h : mergeInNode graph r = .ok (g, u)) (j : Fin maxNodeNum) :
    g j = graph j ∨ Advances (graph j) (g j) := by
  obtain ⟨k, -, -, hk, -, hother⟩ := mergeInNode_entries hs h
  by_cases hjk : j = k
  · rw [hjk, hk]
    rcases mergedEntry_cases (graph k) r with hkeep | ⟨htake, hadv⟩
    · exact Or.inl hkeep
    · exact Or.inr (by rw [htake]; exact hadv)
  · rw [hother j hjk]
    exact markedEntry_renewed r j _

/-- The last test of the merges keeps the stored record, or takes a later one of a seen node. What it
    keeps although the other is later has the same content. -/
theorem replaceNewer_cases {this other : Node M} {b : Bool} {out : Node M × Bool}
    (h : replaceNewer this other b = .ok out) :
    (out.1 = this ∧ (other.state = .nodeSeen → this.timestamp < other.timestamp →
      SameContent this other)) ∨
    (out.1 = other ∧ other.state = .nodeSeen ∧ this.timestamp < other.timestamp) := by
  unfold replaceNewer at h
  split at h
  · rename_i hc
    obtain ⟨eq, heq, h⟩ := bind_ok_iff.mp h
    cases eq with
    | true => cases h; exact Or.inl ⟨rfl, fun _ _ => nodesEq_true heq⟩
    | false => cases h; exact Or.inr ⟨rfl, hc⟩
  · rename_i hc
    cases h
    exact Or.inl ⟨rfl, fun hs hlt => absurd ⟨hs, hlt⟩ hc⟩

/-- A round of `merge_in_graph`, whatever the records hold, leaves or advances the entry; and it leaves
    the entry although the other record is an advance only if both are seen, with the same content. -/
theorem mergeEntry_cases {this other : Node M} {out : Node M × Bool}
    (h : mergeEntry this other = .ok out) :
    (out.1 = this ∧ (Advances this other → this.state = .nodeSeen ∧ other.state = .nodeSeen ∧
      SameContent this other)) ∨
    (out.1 = other ∧ Advances this other) := by
  have hkeep : other.state.rank ≤ this.state.rank → this.state ≠ .nodeSeen →
      ¬Advances this other := by
    rintro hle hs (hlt | ⟨hs', -⟩)
    · exact absurd hlt (Nat.not_lt.mpr hle)
    · exact hs hs'
  have htake : this.state.rank < other.state.rank → Advances this other := Or.inl
  unfold mergeEntry at h
  cases ho : other.state with
  | nodeUnseen =>
    rw [if_pos ho] at h
    cases h
    refine Or.inl ⟨rfl, fun hadv => ?_⟩
    rcases hadv with hlt | ⟨-, hs, -⟩
    · rw [ho] at hlt
      exact absurd hlt (Nat.not_lt_zero _)
    · rw [ho] at hs
      cases hs
  | nodeOpaque =>
    cases ht : this.state with
    | nodeUnseen =>
      simp [ho, ht, replaceNewer] at h
      rw [← h]
      exact Or.inr ⟨rfl, htake (by simp [ht, ho, NodeState.rank])⟩
    | nodeOpaque =>
      simp [ho, ht, replaceNewer] at h
      rw [← h]
      exact Or.inl ⟨rfl, fun hadv => absurd hadv (hkeep (by rw [ho, ht]) (by simp [ht]))⟩
    | nodeSeen =>
      simp [ho, ht, replaceNewer] at h
      rw [← h]
      refine Or.inl ⟨rfl, fun hadv => ?_⟩
      rcases hadv with hlt | ⟨-, hs, -⟩
      · simp [ho, ht, NodeState.rank] at hlt
      · rw [ho] at hs
        cases hs
  | nodeSeen =>
    cases ht : this.state with
    | nodeUnseen =>
      simp [ho, ht, replaceNewer_self] at h
      rw [← h]
      exact Or.inr ⟨rfl, htake (by simp [ht, ho, NodeState.rank])⟩
    | nodeOpaque =>
      simp [ho, ht, replaceNewer_self] at h
      rw [← h]
      exact Or.inr ⟨rfl, htake (by simp [ht, ho, NodeState.rank])⟩
    | nodeSeen =>
      simp only [ho, ht, reduceCtorEq, if_false, false_and] at h
      rcases replaceNewer_cases h with ⟨hthis, hsame⟩ | ⟨hother, hs, hlt⟩
      · refine Or.inl ⟨hthis, fun hadv => ⟨rfl, rfl, ?_⟩⟩
        rcases hadv with hlt | ⟨-, -, hlt⟩
        · rw [ho, ht] at hlt
          exact absurd hlt (lt_irrefl _)
        · exact hsame ho hlt
      · exact Or.inr ⟨hother, Or.inr ⟨ht, hs, hlt⟩⟩

/-- A round of `merge_in_graph` leaves the entry, or takes the other record. -/
theorem mergeEntry_takes {this other : Node M} {out : Node M × Bool}
    (h : mergeEntry this other = .ok out) : out.1 = this ∨ out.1 = other ∧ Takes this other := by
  rcases mergeEntry_cases h with ⟨hkeep, -⟩ | ⟨htake, hlt | ⟨hs, ho, hlt⟩⟩
  · exact Or.inl hkeep
  · refine Or.inr ⟨htake, ?_⟩
    cases hs : this.state <;> cases ho : other.state <;>
      simp_all [Takes, Supersedes, NodeState.rank]
  · have hne : other.state ≠ .nodeUnseen := by simp [ho]
    rw [mergeEntry, if_neg hne] at h
    simp only [hs, reduceCtorEq, if_false, false_and] at h
    rw [replaceNewer, if_pos ⟨ho, hlt⟩] at h
    obtain ⟨eq, heq, h⟩ := bind_ok_iff.mp h
    cases eq with
    | true =>
      cases h
      exact Or.inl rfl
    | false =>
      refine Or.inr ⟨htake, Or.inl ⟨ho, Or.inr ⟨hlt, fun hsame => ?_⟩⟩⟩
      exact nodesEq_false heq hsame.1 (hs.trans ho.symm) hsame.2

/-- What `merge_in_graph` makes of entry `k`. -/
theorem mergeInGraph_cases {graph others g : Graph M} {u : Bool}
    (h : mergeInGraph graph others = .ok (g, u)) (k : Fin maxNodeNum) :
    (g k = graph k ∧ (Advances (graph k) (others k) → (graph k).state = .nodeSeen ∧
      (others k).state = .nodeSeen ∧ SameContent (graph k) (others k))) ∨
    (g k = others k ∧ Advances (graph k) (others k)) := by
  obtain ⟨out, hout, h⟩ := bind_ok_iff.mp h
  cases h
  exact mergeEntry_cases (fill_ok_iff.mp hout k)

theorem mergeInGraph_renewed {graph others g : Graph M} {u : Bool}
    (h : mergeInGraph graph others = .ok (g, u)) (k : Fin maxNodeNum) :
    g k = graph k ∨ Advances (graph k) (g k) := by
  rcases mergeInGraph_cases h k with ⟨hkeep, -⟩ | ⟨htake, hadv⟩
  · exact Or.inl hkeep
  · exact Or.inr (by rw [htake]; exact hadv)

end Merges

end Entries

/-! ### The router's own record -/

section Own
variable {M : Type} [Field M] [Libm M] {b : Build} {p : HistParams M}
  {g g' : Graph M} {t t' : LocalNode M} {now : ℕ} {j : Fin maxNodeNum}

/-- The router's own entry becomes its record. -/
theorem updateGlobalThis_own (hs : t.node.state = .nodeSeen) (hj : t.node.id = (j : ℕ) + 1)
    (h : updateGlobalThis b p g t now = .ok (g', t')) :
    g' j = t'.node ∧ t' = localNodeUpdateMetrics b p t now := by
  rw [updateGlobalThis_eq hj (updateGlobalThis_bounds h).2] at h
  cases h
  simp [hs]

/-- Every other entry is left, or becomes opaque. -/
theorem updateGlobalThis_other (hj : t.node.id ≠ (j : ℕ) + 1)
    (h : updateGlobalThis b p g t now = .ok (g', t')) : g' j = g j ∨ Advances (g j) (g' j) := by
  obtain ⟨⟨k, hk⟩, hb⟩ := updateGlobalThis_bounds h
  rw [updateGlobalThis_eq hk hb] at h
  cases h
  have hjk : j ≠ k := fun h => hj (by rw [h, hk])
  simp only [Function.update_of_ne hjk]
  split
  · rename_i hc
    exact Or.inr (Or.inl (by simp [hc.1, NodeState.rank]))
  · exact Or.inl rfl

end Own

/-! ### Runs -/

/-- What one router stores, and the time that `get_now` returns. -/
structure Store (M : Type) where
  graph : Graph M
  this : LocalNode M
  clock : ℕ

/-- The calls that write the database, and what happens between them. -/
inductive Change (M : Type) where
  | mergeInNode (lsa : Node M)
  | mergeInGraph (others : Graph M)
  | updateGlobalThis
  /-- statuses, histories and timers of the links change -/
  | links (this : LocalNode M)
  /-- time goes on -/
  | tick (now : ℕ)

/-- The configuration, which links do not change. -/
structure SameRouter {M : Type} (t t' : LocalNode M) : Prop where
  id : t'.node.id = t.node.id
  state : t'.node.state = t.node.state
  nNeighbours : t'.node.nNeighbours = t.node.nNeighbours
  neighbourIps : t'.node.neighbourIps = t.node.neighbourIps
  neighbourIds : t'.node.neighbourIds = t.node.neighbourIds

instance {M : Type} (t t' : LocalNode M) : Decidable (SameRouter t t') :=
  decidable_of_iff (t'.node.id = t.node.id ∧ t'.node.state = t.node.state ∧
      t'.node.nNeighbours = t.node.nNeighbours ∧ t'.node.neighbourIps = t.node.neighbourIps ∧
        t'.node.neighbourIds = t.node.neighbourIds)
    ⟨fun ⟨h1, h2, h3, h4, h5⟩ => ⟨h1, h2, h3, h4, h5⟩,
      fun h => ⟨h.id, h.state, h.nNeighbours, h.neighbourIps, h.neighbourIds⟩⟩

/-- A router that has been set up, with an empty database. -/
def Store.Fresh {M : Type} (s : Store M) : Prop :=
  s.this.node.state = .nodeSeen ∧ ∃ memory, s.graph = graphInit memory

/-- The router is set up, and its own record is not from the future. -/
structure Store.Timely {M : Type} (s : Store M) : Prop where
  seen : s.this.node.state = .nodeSeen
  own : ∀ k : Fin maxNodeNum, s.this.node.id = (k : ℕ) + 1 → (s.graph k).state = .nodeSeen →
    (s.graph k).timestamp ≤ s.clock

theorem Store.Fresh.timely {M : Type} {s : Store M} (h : s.Fresh) : s.Timely := by
  obtain ⟨hs, memory, hg⟩ := h
  refine ⟨hs, fun k _ hk => ?_⟩
  rw [hg] at hk
  cases hk

/-- What a change does to the database: the entries of other routers are left or advance, and the
    router's own does not go back. -/
structure Store.Moves {M : Type} (s s' : Store M) : Prop where
  router : SameRouter s.this s'.this
  clock : s.clock ≤ s'.clock
  own : ∀ k : Fin maxNodeNum, s.this.node.id = (k : ℕ) + 1 → NotBack (s.graph k) (s'.graph k)
  others : ∀ k : Fin maxNodeNum, s.this.node.id ≠ (k : ℕ) + 1 →
    s'.graph k = s.graph k ∨ Advances (s.graph k) (s'.graph k)

theorem SameRouter.refl {M : Type} (t : LocalNode M) : SameRouter t t := ⟨rfl, rfl, rfl, rfl, rfl⟩

theorem SameRouter.symm {M : Type} {t t' : LocalNode M} (h : SameRouter t t') : SameRouter t' t :=
  ⟨h.id.symm, h.state.symm, h.nNeighbours.symm, h.neighbourIps.symm, h.neighbourIds.symm⟩

theorem SameRouter.trans {M : Type} {t t' t'' : LocalNode M} (h : SameRouter t t')
    (h' : SameRouter t' t'') : SameRouter t t'' :=
  ⟨h'.id.trans h.id, h'.state.trans h.state, h'.nNeighbours.trans h.nNeighbours,
    h'.neighbourIps.trans h.neighbourIps, h'.neighbourIds.trans h.neighbourIds⟩

theorem Store.Moves.refl {M : Type} (s : Store M) : s.Moves s :=
  ⟨.refl _, le_rfl, fun _ _ => .refl _, fun _ _ => Or.inl rfl⟩

theorem Store.Moves.notBack {M : Type} {s s' : Store M} (h : s.Moves s') (k : Fin maxNodeNum) :
    NotBack (s.graph k) (s'.graph k) := by
  by_cases hk : s.this.node.id = (k : ℕ) + 1
  · exact h.own k hk
  · exact notBack_of_renewed (h.others k hk)

/-- No entry goes backwards: its state does not move down, a seen record does not get older, and that
    of another router stays as it is or becomes a later one. -/
def NeverBack {M : Type} (st : Trace.Step (Store M) (Change M)) : Prop :=
  ∀ k : Fin maxNodeNum, (st.before.graph k).state.rank ≤ (st.after.graph k).state.rank ∧
    ((st.before.graph k).state = .nodeSeen →
      (st.after.graph k).state = .nodeSeen ∧
      (st.before.graph k).timestamp ≤ (st.after.graph k).timestamp ∧
      (st.before.this.node.id ≠ (k : ℕ) + 1 → st.after.graph k = st.before.graph k ∨
        (st.before.graph k).timestamp < (st.after.graph k).timestamp))

section Runs
variable {M : Type} [Field M] [DecidableEq M] [Libm M] (b : Build) (p : HistParams M)

def Change.apply (c : Change M) (s : Store M) : Exec (Store M) :=
  match c with
  | .mergeInNode lsa => do
    let (graph, _) ← Dtlsr.mergeInNode s.graph lsa
    pure { s with graph }
  | .mergeInGraph others => do
    let (graph, _) ← Dtlsr.mergeInGraph s.graph others
    pure { s with graph }
  | .updateGlobalThis => do
    let (graph, this) ← Dtlsr.updateGlobalThis b p s.graph s.this s.clock
    pure { s with graph, this }
  | .links this => pure { s with this }
  | .tick now => pure { s with clock := now }

/-- What can come next: LSAs are seen records, a record of the router's own id is not from the future,
    and the clock does not go back. -/
def Change.Allowed (c : Change M) (s : Store M) : Prop :=
  match c with
  | .mergeInNode lsa => lsa.state = .nodeSeen ∧ (lsa.id = s.this.node.id → lsa.timestamp ≤ s.clock)
  | .mergeInGraph others => ∀ k : Fin maxNodeNum, s.this.node.id = (k : ℕ) + 1 →
      (others k).state = .nodeSeen → (others k).timestamp ≤ s.clock
  | .updateGlobalThis => True
  | .links this => SameRouter s.this this
  | .tick now => s.clock ≤ now

instance (c : Change M) (s : Store M) : Decidable (c.Allowed s) := by
  unfold Change.Allowed
  cases c <;> infer_instance

/-- The runs of one router's database. -/
abbrev StoreRun : List (Trace.Step (Store M) (Change M)) → Store M → Prop :=
  Trace.Run Store.Fresh fun s c s' => c.Allowed s ∧ c.apply b p s = .ok s'

variable {b p}

theorem Change.moves {c : Change M} {s s' : Store M} (hs : s.Timely) (hc : c.Allowed s)
    (h : c.apply b p s = .ok s') : s.Moves s' := by
  cases c with
  | mergeInNode lsa =>
    obtain ⟨⟨g, u⟩, hg, h⟩ := bind_ok_iff.mp h
    cases h
    have hren := mergeInNode_renewed hc.1 hg
    exact ⟨.refl _, le_rfl, fun k _ => notBack_of_renewed (hren k), fun k _ => hren k⟩
  | mergeInGraph others =>
    obtain ⟨⟨g, u⟩, hg, h⟩ := bind_ok_iff.mp h
    cases h
    have hren := mergeInGraph_renewed hg
    exact ⟨.refl _, le_rfl, fun k _ => notBack_of_renewed (hren k), fun k _ => hren k⟩
  | updateGlobalThis =>
    obtain ⟨⟨g, t⟩, hg, h⟩ := bind_ok_iff.mp h
    cases h
    obtain ⟨⟨k, hk⟩, -⟩ := updateGlobalThis_bounds hg
    obtain ⟨-, ht⟩ := updateGlobalThis_own hs.seen hk hg
    refine ⟨by rw [ht]; exact ⟨rfl, rfl, rfl, rfl, rfl⟩, le_rfl, fun j hj => ?_, fun j hj =>
      updateGlobalThis_other hj hg⟩
    -- the new record is stamped with the clock
    obtain ⟨hown, ht⟩ := updateGlobalThis_own hs.seen hj hg
    have hseen : (g j).state = .nodeSeen := by rw [hown, ht]; exact hs.seen
    refine ⟨by rw [hseen]; exact rank_le_two _, fun hold => ?_⟩
    dsimp only
    rw [hown, ht]
    exact hs.own j hj hold
  | links t =>
    cases h
    exact ⟨hc, le_rfl, fun k _ => .refl _, fun k _ => Or.inl rfl⟩
  | tick now =>
    cases h
    exact ⟨.refl _, hc, fun k _ => .refl _, fun k _ => Or.inl rfl⟩

theorem Change.timely {c : Change M} {s s' : Store M} (hs : s.Timely) (hc : c.Allowed s)
    (h : c.apply b p s = .ok s') : s'.Timely := by
  have hmoves := Change.moves hs hc h
  refine ⟨hmoves.router.state.trans hs.seen, fun k hk hseen => ?_⟩
  rw [hmoves.router.id] at hk
  cases c with
  | mergeInNode lsa =>
    obtain ⟨⟨g, u⟩, hg, h⟩ := bind_ok_iff.mp h
    cases h
    obtain ⟨j, hid, -, hj, -, hother⟩ := mergeInNode_entries hc.1 hg
    dsimp only at hseen ⊢
    by_cases hkj : k = j
    · rw [hkj, hj] at hseen ⊢
      rcases mergedEntry_cases (s.graph j) lsa with hkeep | ⟨htake, -⟩
      · rw [hkeep] at hseen ⊢
        exact hs.own j (hkj ▸ hk) hseen
      · rw [htake]
        exact hc.2 (by rw [hid, hk, hkj])
    · rw [hother k hkj] at hseen ⊢
      have hkeep := markedEntry_seen hseen
      rw [hkeep] at hseen ⊢
      exact hs.own k hk hseen
  | mergeInGraph others =>
    obtain ⟨⟨g, u⟩, hg, h⟩ := bind_ok_iff.mp h
    cases h
    dsimp only at hseen ⊢
    rcases mergeInGraph_cases hg k with ⟨hkeep, -⟩ | ⟨htake, -⟩
    · rw [hkeep] at hseen ⊢
      exact hs.own k hk hseen
    · rw [htake] at hseen ⊢
      exact hc k hk hseen
  | updateGlobalThis =>
    obtain ⟨⟨g, t⟩, hg, h⟩ := bind_ok_iff.mp h
    cases h
    obtain ⟨hown, ht⟩ := updateGlobalThis_own hs.seen hk hg
    dsimp only
    rw [hown, ht]
    exact le_rfl
  | links t =>
    cases h
    exact hs.own k hk hseen
  | tick now =>
    cases h
    exact (hs.own k hk hseen).trans hc

/-- Stored records never go backwards, in any run. -/
theorem stored_never_back {tr : List (Trace.Step (Store M) (Change M))} {s : Store M}
    (hrun : StoreRun b p tr s) : Trace.Along (fun _ st => NeverBack st) tr := by
  refine (hrun.along (I := fun _ s => s.Timely) (fun s h0 => h0.timely) ?_).1
  rintro tr s c s' hs ⟨hc, happly⟩
  refine ⟨fun k => ?_, Change.timely hs hc happly⟩
  have hmoves := Change.moves hs hc happly
  have hback := hmoves.notBack k
  exact ⟨hback.state, fun hseen => ⟨hback.seen hseen, hback.timestamp hseen, fun hk =>
    later_of_renewed (hmoves.others k hk) hseen⟩⟩

end Runs

/-! ### Two routers -/

/-- The record of a router with one neighbour. -/
def oneNeighbour (id neighbour : ℤ) (status : LinkState) (timestamp : ℕ) : Node ℚ :=
  { zeroNode with
    id
    state := .nodeSeen
    nNeighbours := 1
    neighbourIds := fun _ => neighbour
    linkStatuses := fun _ => status
    linkMetrics := fun _ => 1
    timestamp }

/-- Router 1, whose neighbour is router 2. -/
def storeOne : Store ℚ where
  graph := graphInit fun _ => zeroNode
  this := { zeroLocalNode with node := oneNeighbour 1 2 .linkDown 0 }
  clock := 3

/-- Router 2 is heard of, and then sends LSAs of which the third is late. -/
def neighbourHeard : List (Change ℚ) :=
  [.updateGlobalThis, .mergeInNode (oneNeighbour 2 1 .linkDown 4),
    .mergeInNode (oneNeighbour 2 3 .linkUp 6), .tick 7, .mergeInNode (oneNeighbour 2 1 .linkUp 5),
    .mergeInGraph (graphInit fun _ => zeroNode), .updateGlobalThis]

theorem stored_never_back_heard : ∃ tr s, StoreRun .lsr {} tr s ∧
    tr.map Trace.Step.event = neighbourHeard ∧ Trace.Along (fun _ st => NeverBack st) tr := by
  have hfresh : storeOne.Fresh := ⟨rfl, fun _ => zeroNode, rfl⟩
  obtain ⟨tr, s, hrun, hevents, -⟩ := Trace.exists_follow (A := fun s c => c.Allowed s)
    (f := Change.apply .lsr {}) hfresh neighbourHeard (P := fun _ => True) (by decide +kernel)
  exact ⟨tr, s, hrun, hevents, stored_never_back hrun⟩

end Dtlsr
