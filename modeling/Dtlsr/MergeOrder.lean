import Mathlib.Algebra.Order.Ring.Int
import Dtlsr.LsGraph
import Dtlsr.Lib.Register

/-!
    Several LSAs of one origin merged one after the other. The graph's entry for the origin is the
    register of `Lib/Register`: the time stamp orders the versions, and `nodes_eq` is the content test
    that makes a merge skip a newer record together with its time stamp. -/

namespace Dtlsr
open Checked Register

variable {M : Type} [DecidableEq M]

/-- `merge_in_node` for each of the LSAs, in order. -/
def mergeAll (graph : Graph M) (lsas : List (Node M)) : Exec (Graph M) :=
  lsas.foldlM (fun graph other => do
    let out ← mergeInNode graph other
    pure out.1) graph

/-- `r` is a seen record of the node of entry `k`. -/
structure LsaOf (k : Fin maxNodeNum) (r : Node M) : Prop where
  state : r.state = .nodeSeen
  id : r.id = (k : ℕ) + 1

omit [DecidableEq M] in
theorem sameContent_equivalence : Equivalence (SameContent (M := M)) :=
  ⟨SameContent.refl, SameContent.symm, SameContent.trans⟩

theorem mergeAll_cons (graph : Graph M) (r : Node M) (l : List (Node M)) :
    mergeAll graph (r :: l) = mergeInNode graph r >>= fun out => mergeAll out.1 l := by
  simp only [mergeAll, List.foldlM_cons, bind_assoc, pure_bind]

/-- What a merge makes of entry `k` and an LSA of node `k`: a copy if nothing seen was stored, else
    what the register makes of the offer. -/
theorem mergedEntry_lsa {old r : Node M} {k : Fin maxNodeNum} (hr : LsaOf k r) :
    (old.state ≠ .nodeSeen → mergedEntry old r = r) ∧
      (LsaOf k old → mergedEntry old r = offer SameContent Node.timestamp old r) := by
  constructor
  · intro hst
    exact if_pos (Or.inl ⟨hr.state, Or.inl hst⟩)
  · intro hst
    have hiff : Takes old r ↔ old.timestamp < r.timestamp ∧ ¬SameContent old r := by
      simp [Takes, Supersedes, hr.state, hst.state, hr.id, hst.id]
    rw [mergedEntry, offer]
    exact if_congr hiff rfl rfl

/-- Marking neighbours after a merge of an LSA leaves the merged record. -/
theorem mergeInNode_entry {graph g : Graph M} {u : Bool} {r : Node M} {k : Fin maxNodeNum}
    (hr : LsaOf k r) (h : mergeInNode graph r = .ok (g, u)) : g k = mergedEntry (graph k) r := by
  rw [mergeInNode_eq hr.state hr.id (mergeInNode_inBounds (by simp [hr.state]) h).1] at h
  cases h
  simp only [Function.update_self]
  refine if_neg fun hmark => ?_
  -- the merged record is seen: it is `r`, or one that `r` does not supersede
  unfold mergedEntry at hmark
  split at hmark
  · rw [hr.state] at hmark
    cases hmark.1
  · rename_i hnot
    exact hnot (Or.inl ⟨hr.state, Or.inl (by rw [hmark.1]; simp)⟩)

/-- Merging LSAs of node `k` into a graph that holds one offers them to the register. -/
theorem mergeAll_register {k : Fin maxNodeNum} : ∀ {l : List (Node M)} {graph : Graph M},
    LsaOf k (graph k) → (∀ r ∈ l, LsaOf k r ∧ r.InBounds) →
    ∃ g, mergeAll graph l = .ok g ∧ g k = l.foldl (offer SameContent Node.timestamp) (graph k) := by
  intro l
  induction l with
  | nil =>
    intro graph _ _
    exact ⟨graph, rfl, rfl⟩
  | cons r l ih =>
    intro graph hg hl
    obtain ⟨hr, hb⟩ := hl r List.mem_cons_self
    obtain ⟨⟨g, u⟩, hok⟩ : ∃ out, mergeInNode graph r = .ok out :=
      ⟨_, mergeInNode_eq hr.state hr.id hb⟩
    have hentry := (mergeInNode_entry hr hok).trans ((mergedEntry_lsa hr).2 hg)
    have hlsa : LsaOf k (g k) := by
      rw [hentry]
      rcases offer_choice (R := SameContent) (t := Node.timestamp) (graph k) r with hc | hc <;>
        rw [hc]
      · exact hg
      · exact hr
    obtain ⟨g', hok', hentry'⟩ := ih hlsa fun s hs => hl s (List.mem_cons_of_mem _ hs)
    refine ⟨g', ?_, ?_⟩
    · rw [mergeAll_cons, hok, ok_bind, hok']
    · rw [hentry', hentry, List.foldl_cons]

/-- From a graph without a seen record of `k`, the first LSA is copied and the rest are offered. -/
theorem mergeAll_fresh {k : Fin maxNodeNum} {r : Node M} {l : List (Node M)} {graph : Graph M}
    (hg : (graph k).state ≠ .nodeSeen) (hl : ∀ s ∈ r :: l, LsaOf k s ∧ s.InBounds) :
    ∃ g, mergeAll graph (r :: l) = .ok g ∧
      g k = l.foldl (offer SameContent Node.timestamp) r := by
  obtain ⟨hr, hb⟩ := hl r List.mem_cons_self
  obtain ⟨⟨g, u⟩, hok⟩ : ∃ out, mergeInNode graph r = .ok out :=
    ⟨_, mergeInNode_eq hr.state hr.id hb⟩
  have hentry := (mergeInNode_entry hr hok).trans ((mergedEntry_lsa hr).1 hg)
  obtain ⟨g', hok', hentry'⟩ := mergeAll_register (l := l)
    (show LsaOf k (g k) by rw [hentry]; exact hr) fun s hs => hl s (List.mem_cons_of_mem _ hs)
  refine ⟨g', ?_, by rw [hentry', hentry]⟩
  rw [mergeAll_cons, hok, ok_bind, hok']

/-- An LSA that merges without a fault, wherever it stands in the sequence, is within bounds. -/
theorem mergeAll_inBounds {k : Fin maxNodeNum} : ∀ {l : List (Node M)} {graph g : Graph M},
    (∀ r ∈ l, LsaOf k r) → mergeAll graph l = .ok g → ∀ r ∈ l, r.InBounds := by
  intro l
  induction l with
  | nil =>
    intro _ _ _ _
    simp
  | cons r l ih =>
    intro graph g hl h
    rw [mergeAll_cons, bind_ok_iff] at h
    obtain ⟨out, hout, h⟩ := h
    intro s hs
    rcases List.mem_cons.mp hs with rfl | hs
    · exact (mergeInNode_inBounds (by simp [(hl s List.mem_cons_self).state]) hout).1
    · exact ih (fun q hq => hl q (List.mem_cons_of_mem _ hq)) h s hs

/-- The LSAs in `l` are seen records of node `k` within bounds. -/
def LsasOf (k : Fin maxNodeNum) (l : List (Node M)) : Prop := ∀ r ∈ l, LsaOf k r ∧ r.InBounds

theorem held_lsaOf {k : Fin maxNodeNum} {l : List (Node M)}
    (hl : LsasOf k l) :
    ∀ r ∈ held SameContent Node.timestamp l, LsaOf k r := by
  cases l with
  | nil => intro r hr; cases hr
  | cons x l =>
    intro r hr
    cases hr
    exact foldl_offer_induct (P := LsaOf k) (hl x List.mem_cons_self).1
      fun y hy => (hl y (List.mem_cons_of_mem _ hy)).1

/-! ### Order of delivery -/

/-- However the LSAs in `S` are delivered, each at least once, the entry of `k` ends with the content
    of `newest`. -/
def NewestWins (k : Fin maxNodeNum) (S : List (Node M)) (newest : Node M) (graph : Graph M) : Prop :=
  ∀ l, Delivers l S → ∃ g, mergeAll graph l = .ok g ∧ SameContent (g k) newest

/-- Delivery order does not matter exactly when no LSA that shares the newest content is older than an
    LSA with another content: such an LSA, stored first, hides the newest one's time stamp. (An LSA
    that is out of bounds makes the merge leave its tables.) -/
theorem newestWins_iff {k : Fin maxNodeNum} {S : List (Node M)} {newest : Node M} {graph : Graph M}
    (hS : ∀ r ∈ S, LsaOf k r)
    (hdistinct : ∀ r ∈ S, ∀ s ∈ S, r.timestamp = s.timestamp → r = s)
    (hnewest : newest ∈ S ∧ ∀ r ∈ S, r.timestamp ≤ newest.timestamp)
    (hgraph : (graph k).state = .nodeUnseen ∨ (graph k).state = .nodeOpaque) :
    NewestWins k S newest graph ↔ (∀ r ∈ S, r.InBounds) ∧
      ∀ r ∈ S, ∀ s ∈ S, SameContent r newest → ¬SameContent s newest →
        s.timestamp < r.timestamp := by
  classical
  have hg : (graph k).state ≠ .nodeSeen := by rcases hgraph with h | h <;> rw [h] <;> simp
  have hfresh : (∀ r ∈ S, r.InBounds) → (NewestWins k S newest graph ↔ ∀ r l, Delivers (r :: l) S →
      SameContent (l.foldl (offer SameContent Node.timestamp) r) newest) := by
    intro hb
    have hend : ∀ r l, Delivers (r :: l) S → ∃ g, mergeAll graph (r :: l) = .ok g ∧
        g k = l.foldl (offer SameContent Node.timestamp) r := fun r l hd =>
      mergeAll_fresh hg fun s hs => ⟨hS s (hd.sub s hs), hb s (hd.sub s hs)⟩
    constructor
    · intro h r l hd
      obtain ⟨g, hok, hsame⟩ := h _ hd
      obtain ⟨g', hok', hentry⟩ := hend r l hd
      cases hok.symm.trans hok'
      rwa [← hentry]
    · intro h l hd
      cases l with
      | nil => exact absurd (hd.all newest hnewest.1) (by simp)
      | cons r l =>
        obtain ⟨g, hok, hentry⟩ := hend r l hd
        exact ⟨g, hok, hentry ▸ h r l hd⟩
  constructor
  · intro h
    have hb : ∀ r ∈ S, r.InBounds := by
      obtain ⟨g, hok, -⟩ := h S ⟨fun _ h => h, fun _ h => h⟩
      exact mergeAll_inBounds hS hok
    exact ⟨hb, (newest_wins_iff sameContent_equivalence hdistinct hnewest.1).mp ((hfresh hb).mp h)⟩
  · rintro ⟨hb, hA⟩
    exact (hfresh hb).mpr ((newest_wins_iff sameContent_equivalence hdistinct hnewest.1).mpr hA)

/-- A router with one link to node 2 that is up at times 1 and 3 and down at time 2. -/
def flap (status : LinkState) (timestamp : ℕ) : Node ℤ where
  id := 1
  state := .nodeSeen
  nNeighbours := 1
  sourceIps := fun _ => inetAddr 10 0 0 1
  neighbourIps := fun _ => inetAddr 10 0 0 2
  neighbourIds := fun _ => 2
  linkStatuses := fun _ => status
  linkMetrics := fun _ => 1
  timestamp := timestamp

/-- Two changes of content in a row: the later one wins however they arrive. -/
theorem newestWins_change : NewestWins 0 [flap .linkUp 1, flap .linkDown 2] (flap .linkDown 2)
    (graphInit fun _ => flap .linkDown 0) := by
  refine (newestWins_iff ?_ ?_ ?_ (Or.inl rfl)).mpr ⟨?_, ?_⟩ <;>
    simp only [List.mem_cons, List.not_mem_nil, or_false]
  · rintro r (rfl | rfl) <;> exact ⟨rfl, rfl⟩
  · rintro r (rfl | rfl) s (rfl | rfl) ht <;> first | rfl | cases ht
  · simp [flap]
  · rintro r (rfl | rfl) <;> decide
  · rintro r (rfl | rfl) s (rfl | rfl) <;> decide

/-- The flap is delivered as 1, 3, 2: the graph ends with the link down. -/
theorem flap_loses_newest : ¬∀ (k : Fin maxNodeNum) (S : List (Node ℤ)) (newest : Node ℤ)
    (graph : Graph ℤ), (∀ r ∈ S, LsaOf k r) →
      (∀ r ∈ S, ∀ s ∈ S, r.timestamp = s.timestamp → r = s) →
      (newest ∈ S ∧ ∀ r ∈ S, r.timestamp ≤ newest.timestamp) →
      ((graph k).state = .nodeUnseen ∨ (graph k).state = .nodeOpaque) →
      NewestWins k S newest graph := by
  intro h
  obtain ⟨g, hok, hsame⟩ := h 0 [flap .linkUp 1, flap .linkUp 3, flap .linkDown 2] (flap .linkUp 3)
    (graphInit fun _ => flap .linkDown 0)
    (by simp only [List.mem_cons, List.not_mem_nil, or_false]
        rintro r (rfl | rfl | rfl) <;> exact ⟨rfl, rfl⟩)
    (by simp only [List.mem_cons, List.not_mem_nil, or_false]
        rintro r (rfl | rfl | rfl) s (rfl | rfl | rfl) ht <;> first | rfl | cases ht)
    (by simp [flap])
    (Or.inl rfl) _ ⟨fun _ h => h, fun _ h => h⟩
  have hrun : ((mergeAll (graphInit fun _ => flap .linkDown 0)
      [flap .linkUp 1, flap .linkUp 3, flap .linkDown 2]).toOption.map
        fun g => decide (SameContent (g 0) (flap .linkUp 3))) = some false := by
    decide +kernel
  rw [hok] at hrun
  simp [Except.toOption, hsame] at hrun

end Dtlsr
