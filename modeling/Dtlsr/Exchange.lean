import Dtlsr.Database

/-!
    Two routers that merge each other's databases agree. A merge takes the other record where it
    advances the stored one; of two records at most one advances the other, and where neither does, the
    two agree in state, and in time when they are seen. At the end the two merges are compared with each
    other, and the update flag of `merge_in_graph` with what it has changed. -/

namespace Dtlsr
open Checked

section Exchange
variable {M : Type} [DecidableEq M] {A B : Graph M}

/-- The entries agree in state and, when they are seen, in content. -/
def Agree (n1 n2 : Node M) : Prop :=
  n1.state = n2.state ∧ (n1.state = .nodeSeen → SameContent n1 n2)

omit [DecidableEq M] in
theorem Agree.refl (n : Node M) : Agree n n := ⟨rfl, fun _ => .refl n⟩

/-- A round of `merge_in_graph` returns if one of two seen records has its count within bounds. -/
theorem mergeEntry_returns {this other : Node M}
    (h : this.state = .nodeSeen → other.state = .nodeSeen → this.FanOk ∨ other.FanOk) :
    ∃ out, mergeEntry this other = .ok out := by
  by_cases hboth : this.state = .nodeSeen ∧ other.state = .nodeSeen
  · exact ⟨_, mergeEntry_eq fun _ => h hboth.1 hboth.2⟩
  · unfold mergeEntry
    cases ho : other.state <;> cases ht : this.state <;>
      simp [ho, ht, replaceNewer]
    exact (hboth ⟨ht, ho⟩).elim

theorem mergeInGraph_returns {these others : Graph M}
    (h : ∀ k, (these k).state = .nodeSeen → (others k).state = .nodeSeen →
      (these k).FanOk ∨ (others k).FanOk) : ∃ out, mergeInGraph these others = .ok out := by
  choose out hout using fun k => mergeEntry_returns (h k)
  refine ⟨_, bind_ok_iff.mpr ⟨out, fill_ok_iff.mpr hout, rfl⟩⟩

/-- Exchanging databases brings agreement. The merges return when the counts of seen records are within
    bounds; and whenever they return, the two databases agree on every node. -/
theorem exchange_agrees (hsame : ∀ k, (A k).state = .nodeSeen → (B k).state = .nodeSeen →
      (A k).timestamp = (B k).timestamp → SameContent (A k) (B k)) :
    ((∀ k, (A k).state = .nodeSeen → (B k).state = .nodeSeen →
        (A k).FanOk ∨ (B k).FanOk) →
      ∃ outA outB, mergeInGraph A B = .ok outA ∧ mergeInGraph B A = .ok outB) ∧
    ∀ newA newB uA uB, mergeInGraph A B = .ok (newA, uA) →
      mergeInGraph B A = .ok (newB, uB) → ∀ k, Agree (newA k) (newB k) := by
  constructor
  · intro hfan
    obtain ⟨outA, hA⟩ := mergeInGraph_returns hfan
    obtain ⟨outB, hB⟩ := mergeInGraph_returns
      fun k hb ha => (hfan k ha hb).symm
    exact ⟨outA, outB, hA, hB⟩
  · intro newA newB uA uB hA hB k
    rcases mergeInGraph_cases hA k with ⟨hkeepA, hlikeA⟩ | ⟨htakeA, hadvA⟩ <;>
      rcases mergeInGraph_cases hB k with ⟨hkeepB, hlikeB⟩ | ⟨htakeB, hadvB⟩
    · -- both keep their own record
      rw [hkeepA, hkeepB]
      rcases advances_or (A k) (B k) with hadv | hadv | ⟨hstate, htime⟩
      · obtain ⟨ha, hb, hc⟩ := hlikeA hadv
        exact ⟨ha.trans hb.symm, fun _ => hc⟩
      · obtain ⟨hb, ha, hc⟩ := hlikeB hadv
        exact ⟨ha.trans hb.symm, fun _ => hc.symm⟩
      · exact ⟨hstate, fun ha => hsame k ha (hstate ▸ ha) (htime ha)⟩
    · rw [hkeepA, htakeB]
      exact .refl _
    · rw [htakeA, hkeepB]
      exact .refl _
    · exact absurd hadvB hadvA.asymm

end Exchange

/-! ### A router that has restarted -/

/-- After a restart router 1 knows its neighbour 2 opaquely. -/
def restarted : Graph ℚ := fun k =>
  if k = 0 then oneNeighbour 1 2 .linkUp 9
  else if k = 1 then { graphInit (fun _ => zeroNode) k with state := .nodeOpaque }
  else graphInit (fun _ => zeroNode) k

/-- Router 2 has an old record of router 1, and its own. -/
def longRunning : Graph ℚ := fun k =>
  if k = 0 then oneNeighbour 1 2 .linkDown 4
  else if k = 1 then oneNeighbour 2 1 .linkUp 8
  else graphInit (fun _ => zeroNode) k

theorem exchange_agrees_restarted : ∃ newA newB uA uB,
    mergeInGraph restarted longRunning = .ok (newA, uA) ∧
      mergeInGraph longRunning restarted = .ok (newB, uB) ∧ ∀ k, Agree (newA k) (newB k) := by
  obtain ⟨hreturn, hagree⟩ := exchange_agrees (A := restarted) (B := longRunning)
    (by decide +kernel)
  obtain ⟨⟨newA, uA⟩, ⟨newB, uB⟩, hA, hB⟩ := hreturn (by decide +kernel)
  exact ⟨newA, newB, uA, uB, hA, hB, hagree newA newB uA uB hA hB⟩

/-! ### Merging one record -/

section Record
variable {M : Type} {graph others : Graph M} {r : Node M} {k : Fin maxNodeNum}

/-- `others` has the record `r` in entry `k`, and apart from it only `r`'s neighbours, opaquely. -/
structure HoldsOnly (k : Fin maxNodeNum) (r : Node M) (others : Graph M) : Prop where
  own : others k = r
  neighbours : ∀ j, j ≠ k → r.Lists j → (others j).state = .nodeOpaque ∧ (others j).timestamp = 0
  rest : ∀ j, j ≠ k → ¬r.Lists j → (others j).state = .nodeUnseen

variable [DecidableEq M]

/-- Of a node that is not seen in the other graph, `merge_in_graph` takes the entry if it is news. -/
theorem mergeEntry_notSeen {this other : Node M} (ho : other.state ≠ .nodeSeen) :
    mergeEntry this other =
      .ok (if this.state = .nodeUnseen ∧ other.state ≠ .nodeUnseen then (other, true)
        else (this, false)) := by
  unfold mergeEntry
  cases hstate : other.state with
  | nodeSeen => exact absurd hstate ho
  | nodeUnseen => simp
  | nodeOpaque => cases ht : this.state <;> simp [ht, hstate, replaceNewer]

/-- The two merges agree: `merge_in_node` does with a record what `merge_in_graph` does with a graph that
    holds the record and knows its neighbours opaquely. -/
theorem merges_agree (hzero : ∀ j, (graph j).state = .nodeUnseen → (graph j).timestamp = 0)
    (hs : r.state = .nodeSeen) (hid : r.id = (k : ℕ) + 1) (hr : r.InBounds)
    (honly : HoldsOnly k r others) :
    ∃ byNode byGraph u u', mergeInNode graph r = .ok (byNode, u) ∧
      mergeInGraph graph others = .ok (byGraph, u') ∧
      ∀ j, (byNode j).state = (byGraph j).state ∧ (byNode j).timestamp = (byGraph j).timestamp ∧
        ((byNode j).state = .nodeSeen → byNode j = byGraph j) := by
  have hother : ∀ j, j ≠ k → (others j).state ≠ .nodeSeen := by
    intro j hj
    by_cases hl : r.Lists j
    · rw [(honly.neighbours j hj hl).1]
      simp
    · rw [honly.rest j hj hl]
      simp
  obtain ⟨⟨byGraph, u'⟩, hgraph⟩ : ∃ out, mergeInGraph graph others = .ok out := by
    refine mergeInGraph_returns fun j _ hj => Or.inr ?_
    obtain rfl : j = k := by
      by_contra hjk
      exact hother j hjk hj
    rw [honly.own]
    exact hr.fan
  have hnode : mergeInNode graph r = _ := mergeInNode_eq hs hid hr
  refine ⟨_, byGraph, _, u', hnode, hgraph, fun j => ?_⟩
  by_cases hjk : j = k
  · -- both merge the record into its own entry, which is seen then
    subst hjk
    have hseen : (mergedEntry (graph j) r).state = .nodeSeen := by
      unfold mergedEntry
      split
      · exact hs
      · rename_i hnot
        by_contra hn
        exact hnot (Or.inl ⟨hs, Or.inl hn⟩)
    have hentry : byGraph j = mergedEntry (graph j) r := by
      rw [mergeInGraph_entry (by rw [honly.own]; exact hr.fan) hgraph, honly.own]
    have hmark : markedEntry r j (mergedEntry (graph j) r) = mergedEntry (graph j) r :=
      if_neg fun h => by rw [hseen] at h; cases h.1
    rw [Function.update_self, hmark, hentry]
    exact ⟨rfl, rfl, fun _ => rfl⟩
  · -- the others are the neighbours, which become opaque, and the rest
    have hentry : byGraph j =
        if (graph j).state = .nodeUnseen ∧ (others j).state ≠ .nodeUnseen then others j
        else graph j := by
      obtain ⟨out, hout, h⟩ := bind_ok_iff.mp hgraph
      cases h
      have hround := fill_ok_iff.mp hout j
      rw [mergeEntry_notSeen (hother j hjk)] at hround
      dsimp only
      rw [← Except.ok.inj hround]
      split <;> rfl
    rw [Function.update_of_ne hjk, hentry, markedEntry]
    by_cases hun : (graph j).state = .nodeUnseen
    · by_cases hl : r.Lists j
      · obtain ⟨ho, ht⟩ := honly.neighbours j hjk hl
        simp [hun, hl, ho, ht, hzero j hun]
      · simp [hun, hl, honly.rest j hjk hl]
    · simp [hun]

end Record

/-- What router 2 has sent, as a graph. -/
def onlyTwo : Graph ℚ := fun k =>
  if k = 0 then { graphInit (fun _ => zeroNode) k with state := .nodeOpaque }
  else if k = 1 then oneNeighbour 2 1 .linkUp 8
  else graphInit (fun _ => zeroNode) k

theorem merges_agree_two : ∃ byNode byGraph u u',
    mergeInNode (graphInit fun _ => zeroNode) (oneNeighbour 2 1 .linkUp 8) = .ok (byNode, u) ∧
      mergeInGraph (graphInit fun _ => zeroNode) onlyTwo = .ok (byGraph, u') ∧
      ∀ j, (byNode j).state = (byGraph j).state ∧
        ((byNode j).state = .nodeSeen → byNode j = byGraph j) := by
  obtain ⟨byNode, byGraph, u, u', hnode, hgraph, hagree⟩ :=
    @merges_agree ℚ (graphInit fun _ => zeroNode) onlyTwo (oneNeighbour 2 1 .linkUp 8) 1 _
      (by decide) (by decide) (by decide) (by decide +kernel)
      ⟨by decide +kernel, by decide +kernel, by decide +kernel⟩
  exact ⟨byNode, byGraph, u, u', hnode, hgraph, fun j => ⟨(hagree j).1, (hagree j).2.2⟩⟩

/-! ### The update flag -/

section Flag
variable {M : Type} {these others g : Graph M} {u : Bool}

/-- The records have the same state, number of neighbours, neighbour ids, link statuses and link
    metrics. -/
structure SameFields (n1 n2 : Node M) : Prop where
  state : n1.state = n2.state
  count : n1.nNeighbours = n2.nNeighbours
  ids : n1.neighbourIds = n2.neighbourIds
  statuses : n1.linkStatuses = n2.linkStatuses
  metrics : n1.linkMetrics = n2.linkMetrics

/-- The fields cover the content that a merge compares. -/
theorem SameFields.content {n1 n2 : Node M} (h : SameFields n1 n2) : SameContent n1 n2 :=
  ⟨h.count, fun i _ => ⟨congrFun h.ids i, congrFun h.statuses i, congrFun h.metrics i⟩⟩

variable [DecidableEq M]

/-- A merge of a record into its own copy leaves it, without the flag. -/
theorem mergeEntry_self (r : Node M) : mergeEntry r r = .ok (r, false) := by
  unfold mergeEntry
  cases hs : r.state <;> simp [hs, replaceNewer_self]

/-- A round of `merge_in_graph` leaves the entry without the flag, or takes the other record with the
    flag, and then the state or the content changes. -/
theorem mergeEntry_flag {this other r : Node M} (hid : this.id = other.id)
    (h : mergeEntry this other = .ok (r, u)) :
    (u = false ∧ r = this) ∨
      (u = true ∧ r = other ∧ (this.state ≠ other.state ∨ ¬SameContent this other)) := by
  unfold mergeEntry at h
  cases ho : other.state with
  | nodeUnseen =>
    simp [ho] at h
    exact Or.inl ⟨h.2, h.1.symm⟩
  | nodeOpaque =>
    cases ht : this.state <;> simp [ho, ht, replaceNewer] at h
    · exact Or.inr ⟨h.2, h.1.symm, Or.inl (by simp)⟩
    · exact Or.inl ⟨h.2, h.1.symm⟩
    · exact Or.inl ⟨h.2, h.1.symm⟩
  | nodeSeen =>
    cases ht : this.state with
    | nodeUnseen =>
      simp [ho, ht, replaceNewer_self] at h
      exact Or.inr ⟨h.2, h.1.symm, Or.inl (by simp)⟩
    | nodeOpaque =>
      simp [ho, ht, replaceNewer_self] at h
      exact Or.inr ⟨h.2, h.1.symm, Or.inl (by simp)⟩
    | nodeSeen =>
      simp only [ho, ht, reduceCtorEq, if_false, false_and] at h
      unfold replaceNewer at h
      split at h
      · obtain ⟨eq, heq, h⟩ := bind_ok_iff.mp h
        cases eq with
        | true =>
          cases h
          exact Or.inl ⟨rfl, rfl⟩
        | false =>
          cases h
          exact Or.inr ⟨rfl, rfl, Or.inr (nodesEq_false heq hid (ht.trans ho.symm))⟩
      · cases h
        exact Or.inl ⟨rfl, rfl⟩

/-- A second round with the same record leaves what the first has made of the entry. -/
theorem mergeEntry_again {this other r : Node M} (hid : this.id = other.id)
    (h : mergeEntry this other = .ok (r, u)) : mergeEntry r other = .ok (r, false) := by
  rcases mergeEntry_flag hid h with ⟨rfl, rfl⟩ | ⟨-, rfl, -⟩
  · exact h
  · exact mergeEntry_self r

/-- The rounds of a merge, and its flag. -/
theorem mergeInGraph_rounds (h : mergeInGraph these others = .ok (g, u)) :
    ∃ flags : Fin maxNodeNum → Bool, (∀ i, mergeEntry (these i) (others i) = .ok (g i, flags i)) ∧
      (u = true ↔ ∃ i, flags i = true) := by
  obtain ⟨out, hout, h⟩ := bind_ok_iff.mp h
  cases h
  exact ⟨fun i => (out i).2, fun i => fill_ok_iff.mp hout i, by simp⟩

/-- The update flag is exact and merging is idempotent. A merge of graphs with their ids in place
    returns where of two seen records one has its count within bounds; and whenever it returns, the flag
    says whether some entry has changed, an entry that has not stays as it was, each entry is the old one
    or the other graph's, and a second merge with the same graph changes nothing. -/
theorem mergeInGraph_flag_exact (hthese : ∀ i, (these i).id = (i : ℕ) + 1)
    (hothers : ∀ i, (others i).id = (i : ℕ) + 1) :
    ((∀ k, (these k).state = .nodeSeen → (others k).state = .nodeSeen →
        (these k).FanOk ∨ (others k).FanOk) → ∃ out, mergeInGraph these others = .ok out) ∧
    ∀ g u, mergeInGraph these others = .ok (g, u) →
      (u = true ↔ ∃ i, ¬SameFields (these i) (g i)) ∧
      (u = true ↔ ∃ i, (these i).state ≠ (g i).state ∨ ¬SameContent (these i) (g i)) ∧
      (u = false → g = these) ∧
      (∀ i, g i = these i ∨ g i = others i) ∧
      mergeInGraph g others = .ok (g, false) := by
  refine ⟨mergeInGraph_returns, fun g u h => ?_⟩
  have hid : ∀ i, (these i).id = (others i).id := fun i => (hthese i).trans (hothers i).symm
  obtain ⟨flags, hround, hu⟩ := mergeInGraph_rounds h
  have hflag : ∀ i, (flags i = false ∧ g i = these i) ∨ (flags i = true ∧ g i = others i ∧
      ((these i).state ≠ (others i).state ∨ ¬SameContent (these i) (others i))) :=
    fun i => mergeEntry_flag (hid i) (hround i)
  have hnone : u = false → g = these := by
    intro huf
    funext i
    rcases hflag i with ⟨-, hi⟩ | ⟨hi, -⟩
    · exact hi
    · exact absurd (hu.mpr ⟨i, hi⟩) (by simp [huf])
  have hcontent : u = true → ∃ i, (these i).state ≠ (g i).state ∨ ¬SameContent (these i) (g i) := by
    intro hut
    obtain ⟨i, hi⟩ := hu.mp hut
    rcases hflag i with ⟨hf, -⟩ | ⟨-, htake, hdiff⟩
    · rw [hi] at hf
      cases hf
    · exact ⟨i, by rw [htake]; exact hdiff⟩
  have hfields : (∃ i, (these i).state ≠ (g i).state ∨ ¬SameContent (these i) (g i)) →
      ∃ i, ¬SameFields (these i) (g i) := by
    rintro ⟨i, hdiff⟩
    exact ⟨i, fun hsame => hdiff.elim (fun hne => hne hsame.state) fun hne => hne hsame.content⟩
  have hchanged : (∃ i, ¬SameFields (these i) (g i)) → u = true := by
    rintro ⟨i, hdiff⟩
    by_contra hut
    rw [hnone (by simpa using hut)] at hdiff
    exact hdiff ⟨rfl, rfl, rfl, rfl, rfl⟩
  refine ⟨⟨fun hut => hfields (hcontent hut), hchanged⟩,
    ⟨hcontent, fun hdiff => hchanged (hfields hdiff)⟩, hnone, fun i => ?_, ?_⟩
  · rcases hflag i with ⟨-, hi⟩ | ⟨-, hi, -⟩
    · exact Or.inl hi
    · exact Or.inr hi
  · refine bind_ok_iff.mpr ⟨fun i => (g i, false), fill_ok_iff.mpr fun i => ?_, by simp⟩
    exact mergeEntry_again (hid i) (hround i)

end Flag

theorem mergeInGraph_flag_exact_restarted : ∃ g u, mergeInGraph restarted longRunning = .ok (g, u) ∧
    (u = true ↔ ∃ i, ¬SameFields (restarted i) (g i)) ∧
    mergeInGraph g longRunning = .ok (g, false) := by
  obtain ⟨hreturns, hflag⟩ := @mergeInGraph_flag_exact ℚ restarted longRunning _
    (by decide +kernel) (by decide +kernel)
  obtain ⟨⟨g, u⟩, h⟩ := hreturns (by decide +kernel)
  obtain ⟨hu, -, -, -, hagain⟩ := hflag g u h
  exact ⟨g, u, h, hu, hagain⟩

end Dtlsr
