import Dtlsr.Node

/-!
    `algorithm/ls_graph.c`: the link-state database, a table with one record per possible node, and the
    two ways a received LSA is merged into it. The specification lemmas say, for each merge, what
    becomes of every entry; nothing after this module unfolds the merges again. -/

namespace Dtlsr
open Checked

abbrev Graph (M : Type) := Fin maxNodeNum → Node M

variable {M : Type}

/-- `graph_init` sets three fields of each entry; the others keep what the memory held. -/
def graphInit (graph : Graph M) : Graph M := fun i =>
  { graph i with id := i + 1, state := .nodeUnseen, timestamp := 0 }

section Merge
variable [DecidableEq M]

/-- The last test of both merges: `other` is a seen node, and a more recent version. -/
def replaceNewer (this other : Node M) (updated : Bool) : Exec (Node M × Bool) :=
  if other.state = .nodeSeen ∧ other.timestamp > this.timestamp then do
    if ← nodesEq this other then pure (this, updated) else pure (other, true)
  else pure (this, updated)

/-- One round of the loop of `merge_in_graph`. -/
def mergeEntry (this other : Node M) : Exec (Node M × Bool) :=
  if other.state = .nodeUnseen then pure (this, false)
  else
    -- other knows of a node that we have never encountered
    let (this, updated) := if this.state = .nodeUnseen then (other, true) else (this, false)
    -- other is a seen node that we only know of opaquely
    let (this, updated) :=
      if this.state = .nodeOpaque ∧ other.state = .nodeSeen then (other, true) else (this, updated)
    replaceNewer this other updated

def mergeInGraph (these others : Graph M) : Exec (Graph M × Bool) := do
  let out ← fill maxNodeNum fun i => mergeEntry (these i) (others i)
  pure (fun i => (out i).1, decide (∃ i, (out i).2 = true))

/-- Mark neighbour `i` of the new node as opaque if we haven't already seen it. -/
def markNeighbour (other : Node M) (i : ℕ) (graph : Graph M) : Exec (Graph M) := do
  let id ← read other.neighbourIds i
  let n ← read graph (id - 1)
  if n.state = .nodeUnseen then write graph (id - 1) { n with state := .nodeOpaque }
  else pure graph

def markNeighbours (graph : Graph M) (other : Node M) : Exec (Graph M) :=
  forUpto other.nNeighbours graph (markNeighbour other)

def mergeInNode (graph : Graph M) (other : Node M) : Exec (Graph M × Bool) :=
  if other.state = .nodeUnseen then pure (graph, false)
  else do
    let this ← read graph (other.id - 1)
    let first :=
      if this.state = .nodeUnseen ∨ (this.state = .nodeOpaque ∧ other.state = .nodeSeen) then
        (other, true)
      else (this, false)
    let merged ← replaceNewer first.1 other first.2
    let graph ← write graph (other.id - 1) merged.1
    let graph ← markNeighbours graph other
    pure (graph, merged.2)

/-! ### What a merge does to one entry -/

instance (n1 n2 : Node M) : Decidable (SameContent n1 n2) :=
  decidable_of_iff (n1.nNeighbours = n2.nNeighbours ∧ ∀ i : Fin maxNodeFan,
      ((i : ℕ) : ℤ) < n1.nNeighbours → n1.neighbourIds i = n2.neighbourIds i ∧
        n1.linkStatuses i = n2.linkStatuses i ∧ n1.linkMetrics i = n2.linkMetrics i)
    ⟨fun h => ⟨h.1, h.2⟩, fun h => ⟨h.count, h.links⟩⟩

/-- `other` supersedes the stored record: it is seen, and the store has nothing seen, or an older
    record whose id or content differs. -/
def Supersedes (this other : Node M) : Prop :=
  other.state = .nodeSeen ∧ (this.state ≠ .nodeSeen ∨
    this.timestamp < other.timestamp ∧ ¬(this.id = other.id ∧ SameContent this other))

instance (this other : Node M) : Decidable (Supersedes this other) := by
  unfold Supersedes; infer_instance

/-- A merge takes the incoming record: it supersedes the stored one, or it is the first news of a node
    of which nothing at all is stored. -/
def Takes (this other : Node M) : Prop :=
  Supersedes this other ∨ (this.state = .nodeUnseen ∧ other.state ≠ .nodeUnseen)

instance (this other : Node M) : Decidable (Takes this other) := by
  unfold Takes; infer_instance

/-- The record a merge leaves in the entry. -/
def mergedEntry (this other : Node M) : Node M := if Takes this other then other else this

/-- A record and its copy are never newer than each other, so the last test is idle after a copy. -/
theorem replaceNewer_self (r : Node M) (b : Bool) : replaceNewer r r b = .ok (r, b) := by
  simp [replaceNewer]

/-- The last test of the merges, on a stored record that is seen. -/
theorem replaceNewer_seen {this other : Node M} (b : Bool) (hs : this.state = .nodeSeen)
    (hfan : this.FanOk ∨ other.FanOk) :
    replaceNewer this other b =
      .ok (if Supersedes this other then (other, true) else (this, b)) := by
  obtain ⟨eq, heq, hiff⟩ := nodesEq_spec hfan
  rw [replaceNewer]
  by_cases hc : other.state = .nodeSeen ∧ other.timestamp > this.timestamp
  · rw [if_pos hc, heq, ok_bind]
    have hsup : Supersedes this other ↔ eq = false := by
      rw [← Bool.not_eq_true, hiff, Supersedes]
      simp only [hs, hc.1, ne_eq, not_true_eq_false, false_or, true_and]
      exact ⟨fun h h' => h.2 ⟨h'.1, h'.2⟩, fun h => ⟨hc.2, h⟩⟩
    cases eq with
    | true => simp [hsup]
    | false => simp [hsup]
  · rw [if_neg hc, if_neg]
    · rfl
    · rintro ⟨h1, h2 | h2⟩
      · exact h2 hs
      · exact hc ⟨h1, h2.1⟩

/-- On records within their arrays, a round of `merge_in_graph` returns the merged entry, and the flag
    says whether the incoming record was taken. -/
theorem mergeEntry_eq {this other : Node M}
    (hfan : this.state = .nodeSeen → this.FanOk ∨ other.FanOk) :
    mergeEntry this other = .ok (mergedEntry this other, decide (Takes this other)) := by
  unfold mergeEntry mergedEntry
  cases ho : other.state with
  | nodeUnseen => simp [Takes, Supersedes, ho]
  | nodeOpaque => cases ht : this.state <;> simp [Takes, Supersedes, replaceNewer, ho, ht]
  | nodeSeen =>
    cases ht : this.state with
    | nodeUnseen => simp [Takes, Supersedes, ho, ht, replaceNewer_self]
    | nodeOpaque => simp [Takes, Supersedes, ho, ht, replaceNewer_self]
    | nodeSeen =>
      have htakes : Takes this other ↔ Supersedes this other := by simp [Takes, ht]
      simp only [ht, reduceCtorEq, if_false, false_and]
      rw [replaceNewer_seen false ht (hfan ht)]
      by_cases hsup : Supersedes this other <;> simp [htakes, hsup]

end Merge

/-! ### Marking neighbours -/

/-- Reading a record's first `n_neighbours` slots stays in its arrays, and each neighbour id there is
    the id of an entry of the graph. -/
structure Node.InBounds (r : Node M) : Prop where
  fan : r.FanOk
  ids : ∀ i : Fin maxNodeFan, ((i : ℕ) : ℤ) < r.nNeighbours →
    1 ≤ r.neighbourIds i ∧ r.neighbourIds i ≤ maxNodeNum

instance (r : Node M) : Decidable r.InBounds :=
  decidable_of_iff (r.nNeighbours ≤ maxNodeFan ∧ ∀ i : Fin maxNodeFan,
      ((i : ℕ) : ℤ) < r.nNeighbours → 1 ≤ r.neighbourIds i ∧ r.neighbourIds i ≤ maxNodeNum)
    ⟨fun h => ⟨h.1, h.2⟩, fun h => ⟨h.fan, h.ids⟩⟩

/-- `r` lists the node of entry `k` as a neighbour. -/
def Node.Lists (r : Node M) (k : Fin maxNodeNum) : Prop :=
  ∃ i : Fin maxNodeFan, ((i : ℕ) : ℤ) < r.nNeighbours ∧ r.neighbourIds i = (k : ℕ) + 1

instance (r : Node M) (k : Fin maxNodeNum) : Decidable (r.Lists k) := by
  unfold Node.Lists; infer_instance

/-- What marking `r`'s neighbours makes of the record in entry `k`. -/
def markedEntry (r : Node M) (k : Fin maxNodeNum) (old : Node M) : Node M :=
  if old.state = .nodeUnseen ∧ r.Lists k then { old with state := .nodeOpaque } else old

theorem markNeighbour_eq {graph : Graph M} {r : Node M} {i : Fin maxNodeFan} {k : Fin maxNodeNum}
    (hk : r.neighbourIds i = (k : ℕ) + 1) :
    markNeighbour r i graph = .ok (Function.update graph k
      (if (graph k).state = .nodeUnseen then { graph k with state := .nodeOpaque }
        else graph k)) := by
  rw [markNeighbour, read_of_lt _ i.isLt, ok_bind, read_of_eq graph k (by simp [hk]), ok_bind]
  by_cases hun : (graph k).state = .nodeUnseen
  · rw [if_pos hun, if_pos hun, write_of_eq graph k (by simp [hk])]
  · rw [if_neg hun, if_neg hun, Function.update_eq_self, pure_eq_ok]

/-- A loop over the neighbours of `r` whose rounds mark an unseen neighbour by `mk`, and leave every
    other entry, marks the unseen neighbours. -/
theorem forUpto_mark {r : Node M} (hr : r.InBounds) (mk : Fin maxNodeNum → Node M → Node M)
    (hmk : ∀ k n, (mk k n).state ≠ .nodeUnseen) {f : ℕ → Graph M → Exec (Graph M)}
    (hf : ∀ (i : Fin maxNodeFan) (k : Fin maxNodeNum) (graph : Graph M),
      r.neighbourIds i = (k : ℕ) + 1 → f i graph = .ok (Function.update graph k
        (if (graph k).state = .nodeUnseen then mk k (graph k) else graph k))) (graph : Graph M) :
    forUpto r.nNeighbours graph f = .ok fun k =>
      if (graph k).state = .nodeUnseen ∧ r.Lists k then mk k (graph k) else graph k := by
  -- after `i` rounds the first `i` neighbours are marked
  let Done (i : ℕ) (k : Fin maxNodeNum) : Prop :=
    ∃ j : Fin maxNodeFan, (j : ℕ) < i ∧ r.neighbourIds j = (k : ℕ) + 1
  have hloop : Ensures (forUpto r.nNeighbours graph f) fun g : Graph M => ∀ k,
      (Done r.nNeighbours.toNat k → (graph k).state = .nodeUnseen → g k = mk k (graph k)) ∧
      (¬(Done r.nNeighbours.toNat k ∧ (graph k).state = .nodeUnseen) → g k = graph k) := by
    refine forUpto_ensures (fun i (g : Graph M) => ∀ k,
      (Done i k → (graph k).state = .nodeUnseen → g k = mk k (graph k)) ∧
      (¬(Done i k ∧ (graph k).state = .nodeUnseen) → g k = graph k)) ?_ ?_
    · exact fun k => ⟨fun ⟨j, hj, _⟩ => absurd hj (by omega), fun _ => rfl⟩
    · intro i g hi hg
      have hi6 := hr.fan.lt hi
      obtain ⟨h1, h2⟩ := hr.ids ⟨i, hi6⟩ hi
      obtain ⟨k, hk⟩ : ∃ k : Fin maxNodeNum, r.neighbourIds ⟨i, hi6⟩ = (k : ℕ) + 1 :=
        ⟨⟨(r.neighbourIds ⟨i, hi6⟩ - 1).toNat, by omega⟩, by simp only; omega⟩
      have hsucc : ∀ k', Done (i + 1) k' ↔ Done i k' ∨ k' = k := by
        intro k'
        constructor
        · rintro ⟨j, hj, hjk⟩
          rcases Nat.lt_succ_iff_lt_or_eq.mp hj with hlt | rfl
          · exact Or.inl ⟨j, hlt, hjk⟩
          · exact Or.inr (Fin.ext (by rw [hk] at hjk; omega))
        · rintro (⟨j, hj, hjk⟩ | rfl)
          · exact ⟨j, by omega, hjk⟩
          · exact ⟨⟨i, hi6⟩, by simp, hk⟩
      rw [show f i g = _ from hf ⟨i, hi6⟩ k g hk]
      refine Ensures.ok fun k' => ?_
      rw [hsucc]
      obtain ⟨hmark, hkeep⟩ := hg k'
      by_cases hkk : k' = k
      · subst hkk
        rw [Function.update_self]
        by_cases hun : (graph k').state = .nodeUnseen
        · refine ⟨fun _ _ => ?_, fun hn => absurd ⟨Or.inr rfl, hun⟩ hn⟩
          by_cases hd : Done i k'
          · rw [hmark hd hun, if_neg (hmk k' _)]
          · rw [hkeep fun h => hd h.1, if_pos hun]
        · refine ⟨fun _ h => absurd h hun, fun _ => ?_⟩
          rw [hkeep fun h => hun h.2, if_neg hun]
      · rw [Function.update_of_ne hkk]
        simp only [hkk, or_false]
        exact ⟨hmark, hkeep⟩
  obtain ⟨g, hok, hg⟩ := hloop
  rw [hok]
  congr 1
  funext k
  have hlists : Done r.nNeighbours.toNat k ↔ r.Lists k := by
    constructor
    · rintro ⟨j, hj, hjk⟩; exact ⟨j, by omega, hjk⟩
    · rintro ⟨j, hj, hjk⟩; exact ⟨j, by omega, hjk⟩
  obtain ⟨hmark, hkeep⟩ := hg k
  rw [hlists] at hmark hkeep
  by_cases hc : (graph k).state = .nodeUnseen ∧ r.Lists k
  · rw [if_pos hc]; exact hmark hc.2 hc.1
  · rw [if_neg hc]; exact hkeep fun h => hc ⟨h.2, h.1⟩

/-- Marking the neighbours changes the state of the unseen ones, and nothing else. -/
theorem markNeighbours_eq {graph : Graph M} {r : Node M} (hr : r.InBounds) :
    markNeighbours graph r = .ok fun k => markedEntry r k (graph k) :=
  forUpto_mark hr (fun _ n => { n with state := .nodeOpaque }) (fun _ _ => by simp)
    (fun _ _ _ hk => markNeighbour_eq hk) graph

/-- Marking returns only for a record whose neighbours are all entries of the graph. -/
theorem markNeighbours_inBounds {graph g : Graph M} {r : Node M}
    (h : markNeighbours graph r = .ok g) : r.InBounds := by
  have hround : ∀ i : ℕ, (i : ℤ) < r.nNeighbours → ∃ hi : i < maxNodeFan,
      1 ≤ r.neighbourIds ⟨i, hi⟩ ∧ r.neighbourIds ⟨i, hi⟩ ≤ maxNodeNum := by
    intro i hi
    obtain ⟨t, t', ht⟩ := forUpto_round h i hi
    rw [markNeighbour] at ht
    obtain ⟨id, hid, ht⟩ := bind_ok_iff.mp ht
    obtain ⟨k, hk, rfl⟩ := read_ok_iff.mp hid
    obtain ⟨n, hn, -⟩ := bind_ok_iff.mp ht
    obtain ⟨k', hk', -⟩ := read_ok_iff.mp hn
    have hik : i = k := by omega
    subst hik
    exact ⟨k.isLt, show 1 ≤ r.neighbourIds k by omega, show r.neighbourIds k ≤ maxNodeNum by omega⟩
  refine ⟨?_, fun i hi => ?_⟩
  · by_contra hfan
    obtain ⟨hi, -⟩ := hround maxNodeFan (by unfold Node.FanOk at hfan; omega)
    omega
  · obtain ⟨_, hids⟩ := hround i hi
    exact hids

/-! ### Other entries -/

/-- A seen record stays as it is, and one that is not seen does not become seen. -/
structure Untouched (old new : Node M) : Prop where
  seen : old.state = .nodeSeen → new = old
  unseen : old.state ≠ .nodeSeen → new.state ≠ .nodeSeen

theorem Untouched.refl (n : Node M) : Untouched n n := ⟨fun _ => rfl, id⟩

theorem Untouched.trans {n1 n2 n3 : Node M} (h : Untouched n1 n2) (h' : Untouched n2 n3) :
    Untouched n1 n3 where
  seen hs := by
    have h12 := h.seen hs
    rw [h'.seen (by rw [h12]; exact hs), h12]
  unseen hs := h'.unseen (h.unseen hs)

/-- A loop whose rounds leave an entry untouched does so. -/
theorem forUpto_untouched {n : ℤ} {graph g : Graph M} {f : ℕ → Graph M → Exec (Graph M)}
    {k : Fin maxNodeNum} (h : forUpto n graph f = .ok g)
    (hround : ∀ i g1 g2, f i g1 = .ok g2 → Untouched (g1 k) (g2 k)) : Untouched (graph k) (g k) :=
  forUpto_ok (fun _ (g : Graph M) => Untouched (graph k) (g k)) (.refl _) h
    fun i t t' _ hI ht => hI.trans (hround i t t' ht)

/-- An unseen entry becomes opaque, and is thereby left untouched. -/
theorem untouched_of_mark {graph g : Graph M} {j : ℤ} {n n' : Node M} (hn : read graph j = .ok n)
    (hmark : (if n.state = .nodeUnseen then write graph j n' else .ok graph) = .ok g)
    (hn' : n'.state = .nodeOpaque) (k : Fin maxNodeNum) : Untouched (graph k) (g k) := by
  obtain ⟨i, hi, rfl⟩ := read_ok_iff.mp hn
  split at hmark
  · rename_i hun
    obtain ⟨i', hi', rfl⟩ := write_ok_iff.mp hmark
    obtain rfl : i = i' := Fin.ext (by omega)
    by_cases hk : k = i
    · subst hk
      rw [Function.update_self]
      exact ⟨fun hs => absurd (hun.symm.trans hs) (by simp), fun _ => by rw [hn']; simp⟩
    · rw [Function.update_of_ne hk]
      exact .refl _
  · cases hmark
    exact .refl _

theorem markNeighbours_untouched {graph g : Graph M} {r : Node M}
    (h : markNeighbours graph r = .ok g) (k : Fin maxNodeNum) : Untouched (graph k) (g k) := by
  refine forUpto_untouched h fun i g1 g2 hround => ?_
  obtain ⟨id, -, hround⟩ := bind_ok_iff.mp hround
  obtain ⟨n, hn, hround⟩ := bind_ok_iff.mp hround
  exact untouched_of_mark hn hround rfl k

/-! ### The whole merge -/

variable [DecidableEq M]

theorem mergeInNode_untouched {graph g : Graph M} {u : Bool} {r : Node M} {k : Fin maxNodeNum}
    (hk : r.id ≠ (k : ℕ) + 1) (h : mergeInNode graph r = .ok (g, u)) :
    Untouched (graph k) (g k) := by
  unfold mergeInNode at h
  split at h
  · cases h; exact .refl _
  · obtain ⟨this, -, h⟩ := bind_ok_iff.mp h
    obtain ⟨merged, -, h⟩ := bind_ok_iff.mp h
    obtain ⟨g1, hg1, h⟩ := bind_ok_iff.mp h
    obtain ⟨g2, hg2, h⟩ := bind_ok_iff.mp h
    cases h
    obtain ⟨j, hj, rfl⟩ := write_ok_iff.mp hg1
    have hmark := markNeighbours_untouched hg2 k
    rwa [Function.update_of_ne fun hkj => hk (by rw [hkj]; omega)] at hmark

/-- Without a seen record for an entry, `merge_in_graph` leaves it untouched. -/
theorem mergeInGraph_untouched {graph others g : Graph M} {u : Bool} {k : Fin maxNodeNum}
    (hk : (others k).state ≠ .nodeSeen) (h : mergeInGraph graph others = .ok (g, u)) :
    Untouched (graph k) (g k) := by
  obtain ⟨out, hout, h⟩ := bind_ok_iff.mp h
  cases h
  have hround := fill_ok_iff.mp hout k
  unfold mergeEntry at hround
  dsimp only
  cases ho : (others k).state with
  | nodeSeen => exact absurd ho hk
  | nodeUnseen => rw [if_pos ho] at hround; rw [← Except.ok.inj hround]; exact .refl _
  | nodeOpaque =>
    cases ht : (graph k).state <;> simp [replaceNewer, ho, ht] at hround <;> rw [← hround]
    · exact ⟨fun hs => absurd (ht.symm.trans hs) (by simp), fun _ => hk⟩
    · exact .refl _
    · exact .refl _

/-- A seen record is merged into its entry. -/
theorem mergeInGraph_entry {graph others g : Graph M} {u : Bool} {k : Fin maxNodeNum}
    (hfan : (others k).FanOk) (h : mergeInGraph graph others = .ok (g, u)) :
    g k = mergedEntry (graph k) (others k) := by
  obtain ⟨out, hout, h⟩ := bind_ok_iff.mp h
  cases h
  have hround := fill_ok_iff.mp hout k
  rw [mergeEntry_eq fun _ => Or.inr hfan] at hround
  dsimp only
  rw [← Except.ok.inj hround]

/-- `merge_in_node` of a record from node `k`: the merged record goes into the entry of `k`, and then the
    neighbours are marked. -/
theorem mergeInNode_takes {graph : Graph M} {r : Node M} {k : Fin maxNodeNum}
    (hs : r.state ≠ .nodeUnseen) (hid : r.id = (k : ℕ) + 1)
    (hfan : (graph k).state = .nodeSeen → (graph k).FanOk ∨ r.FanOk) :
    mergeInNode graph r = (do
      let g ← markNeighbours (Function.update graph k (mergedEntry (graph k) r)) r
      pure (g, decide (Takes (graph k) r))) := by
  generalize hfirst : (if (graph k).state = .nodeUnseen ∨
      ((graph k).state = .nodeOpaque ∧ r.state = .nodeSeen) then (r, true)
    else (graph k, false)) = first
  have hentry : replaceNewer first.1 r first.2 =
      .ok (mergedEntry (graph k) r, decide (Takes (graph k) r)) := by
    subst hfirst
    unfold mergedEntry
    cases ht : (graph k).state with
    | nodeUnseen => simp [Takes, hs, ht, replaceNewer_self]
    | nodeOpaque =>
      cases ho : r.state with
      | nodeUnseen => exact absurd ho hs
      | nodeOpaque => simp [Takes, Supersedes, replaceNewer, ho, ht]
      | nodeSeen => simp [Takes, Supersedes, ho, ht, replaceNewer_self]
    | nodeSeen =>
      have htakes : Takes (graph k) r ↔ Supersedes (graph k) r := by simp [Takes, ht]
      simp only [reduceCtorEq, false_and, or_self, if_false]
      rw [replaceNewer_seen false ht (hfan ht)]
      by_cases hsup : Supersedes (graph k) r <;> simp [htakes, hsup]
  unfold mergeInNode
  rw [if_neg hs, read_of_eq graph k (by omega), ok_bind]
  simp only [hfirst]
  rw [hentry, ok_bind, write_of_eq graph k (by omega), ok_bind]

/-- `merge_in_node` of a seen record from node `k`: the entry of `k` holds the merged record, the
    neighbours are marked, and the flag says whether the record superseded the stored one. -/
theorem mergeInNode_eq {graph : Graph M} {r : Node M} {k : Fin maxNodeNum} (hs : r.state = .nodeSeen)
    (hid : r.id = (k : ℕ) + 1) (hr : r.InBounds) :
    mergeInNode graph r = .ok
      (fun j => markedEntry r j (Function.update graph k (mergedEntry (graph k) r) j),
        decide (Supersedes (graph k) r)) := by
  have htakes : Takes (graph k) r ↔ Supersedes (graph k) r := by
    refine ⟨fun h => h.elim id fun h => ?_, Or.inl⟩
    exact ⟨hs, Or.inl (by rw [h.1]; simp)⟩
  rw [mergeInNode_takes (by rw [hs]; simp) hid fun _ => Or.inr hr.fan, markNeighbours_eq hr, ok_bind,
    pure_eq_ok]
  simp only [htakes]

/-- `merge_in_node` of a record that is not unseen returns only within bounds. -/
theorem mergeInNode_inBounds {graph : Graph M} {r : Node M} {out : Graph M × Bool}
    (hs : r.state ≠ .nodeUnseen) (h : mergeInNode graph r = .ok out) :
    r.InBounds ∧ ∃ k : Fin maxNodeNum, r.id = (k : ℕ) + 1 := by
  unfold mergeInNode at h
  rw [if_neg hs] at h
  obtain ⟨this, hthis, h⟩ := bind_ok_iff.mp h
  obtain ⟨k, hk, -⟩ := read_ok_iff.mp hthis
  obtain ⟨merged, _, h⟩ := bind_ok_iff.mp h
  obtain ⟨graph', _, h⟩ := bind_ok_iff.mp h
  obtain ⟨g, hg, -⟩ := bind_ok_iff.mp h
  exact ⟨markNeighbours_inBounds hg, k, by omega⟩

/-- What `merge_in_node` of such a record leaves, whatever else the record holds. -/
theorem mergeInNode_merged {graph g : Graph M} {r : Node M} {u : Bool} (hs : r.state ≠ .nodeUnseen)
    (h : mergeInNode graph r = .ok (g, u)) : ∃ k : Fin maxNodeNum, r.id = (k : ℕ) + 1 ∧
      ∀ j, g j = markedEntry r j (Function.update graph k (mergedEntry (graph k) r) j) := by
  obtain ⟨hr, k, hid⟩ := mergeInNode_inBounds hs h
  rw [mergeInNode_takes hs hid fun _ => Or.inr hr.fan, markNeighbours_eq hr, ok_bind] at h
  cases h
  exact ⟨k, hid, fun _ => rfl⟩

end Dtlsr
