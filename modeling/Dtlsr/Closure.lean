import Mathlib.Data.Fintype.Pi
import Dtlsr.Flooding
import Dtlsr.HopSources
import Dtlsr.InOrder

/-!
    The link-state database stays closed: entry `i` has id `i + 1`, and the neighbours of a seen record
    are not unseen. `merge_in_node` and `update_global_this` mark the neighbours of what they write, but
    `merge_in_graph` does not: there the sender's graph has to be closed too. So the invariant is about
    all routers and all messages at once. -/

namespace Dtlsr
open Checked

/-! ### What an iteration writes and sends -/

section Writes
variable {M : Type} [Field M] [LinearOrder M] [Libm M] {S : Setup M}

/-- One call that an iteration for the event `a` makes on the graph, where `t` is the local node after
    the event; or none. -/
inductive GraphWrite (S : Setup M) (a : Active M) (t : LocalNode M) (g : Graph M) : Graph M → Prop where
  | same : GraphWrite S a t g g
  | own (t1 t2 : LocalNode M) (now : ℕ) (g' : Graph M) (links : SameLinks t t1)
      (call : updateGlobalThis S.build S.hist g t1 now = .ok (g', t2)) : GraphWrite S a t g g'
  | node (lsa : Node M) (source : Ip) (u : Bool) (g' : Graph M) (event : a = .routerLsa lsa source)
      (call : mergeInNode g lsa = .ok (g', u)) : GraphWrite S a t g g'
  | graph (others : Graph M) (u : Bool) (g' : Graph M) (event : a = .networkLsa others)
      (call : mergeInGraph g others = .ok (g', u)) : GraphWrite S a t g g'

/-- What an iteration for the event `a` can send. -/
inductive CanSend (S : Setup M) (a : Active M) (t : LocalNode M) (g : Graph M) : Message M → Prop where
  | own (t1 : LocalNode M) (now : ℕ) (links : SameLinks t t1) :
      CanSend S a t g (.routerLsa (localNodeUpdateMetrics S.build S.hist t1 now).node)
  | passedOn (lsa : Node M) (source : Ip) (event : a = .routerLsa lsa source) :
      CanSend S a t g (.routerLsa lsa)
  | snapshot : CanSend S a t g (.networkLsa g)
  | request : CanSend S a t g .networkLsaRequest

theorem handleEvent_writes {a : Active M} {s s' : Daemon M} {f : Flags}
    (h : handleEvent S a s = .ok (s', f)) :
    GraphWrite S a (linkEffect a s.this) s.graph s'.graph ∧
      ∀ m ∈ s'.sent, m ∈ s.sent ∨ CanSend S a (linkEffect a s.this) s.graph m.2 := by
  cases handleEvent_handles h with
  | routerLsa lsa source g u call =>
    refine ⟨.node lsa source _ _ rfl call, fun m hmem => ?_⟩
    rcases List.mem_append.mp hmem with hmem | hmem
    · exact Or.inl hmem
    · cases u with
      | false => cases hmem
      | true =>
        rw [mem_sendRouterLsaExcept hmem]
        exact Or.inr (.passedOn lsa source rfl)
  | networkLsa others g u call => exact ⟨.graph others u _ rfl call, fun m hm => Or.inl hm⟩
  | networkLsaRequest source =>
    refine ⟨.same, fun m hmem => ?_⟩
    rcases List.mem_append.mp hmem with hmem | hmem
    · exact Or.inl hmem
    · unfold sendNetworkLsa at hmem
      split at hmem
      · obtain rfl := List.mem_singleton.mp hmem
        exact Or.inr .snapshot
      · cases hmem
  | timeout i j t t' g link history call =>
    refine ⟨.own _ _ _ _ ?_ call, fun m hm => Or.inl hm⟩
    have hlinks := timeout_sameLinks link history call
    rw [updateGlobalThis_this call] at hlinks
    exact hlinks.trans (localNodeUpdateMetrics_sameLinks _ _).symm
  | _ => exact ⟨.same, fun m hm => Or.inl hm⟩

variable [FloorRing M]

theorem afterEvent_writes {a : Active M} {f : Flags} {s s' : Daemon M}
    (h : afterEvent S f s = .ok s') (hrouting : f.updateRouting = false) :
    GraphWrite S a s.this s.graph s'.graph ∧
      ∀ m ∈ s'.sent, m ∈ s.sent ∨ CanSend S a s.this s.graph m.2 := by
  unfold afterEvent at h
  obtain ⟨s1, h1, h⟩ := bind_ok_iff.mp h
  rw [hrouting] at h
  cases h
  generalize hs0 : (if f.lsaSendStatus then sendOwnLsa S s else s) = s0 at h1
  have hsend : s0.graph = s.graph ∧ SameLinks s.this s0.this ∧
      ∀ m ∈ s0.sent, m ∈ s.sent ∨ CanSend S a s.this s.graph m.2 := by
    rw [← hs0]
    split
    · refine ⟨rfl, rfl, fun m hm => ?_⟩
      rcases List.mem_append.mp hm with hm | hm
      · exact Or.inl hm
      · rw [mem_sendRouterLsaExcept hm]
        exact Or.inr (.own _ _ (.refl _))
    · exact ⟨rfl, .refl _, fun m hm => Or.inl hm⟩
  obtain ⟨hgraph, hthis, hsent⟩ := hsend
  split at h1
  · obtain ⟨⟨g, t⟩, hg, h1⟩ := bind_ok_iff.mp h1
    obtain ⟨hops, -, h1⟩ := bind_ok_iff.mp h1
    cases h1
    rw [hgraph] at hg
    exact ⟨.own _ _ _ _ (hthis.trans (localNodeUpdateMetrics_sameLinks _ _)) hg, hsent⟩
  · cases h1
    rw [hgraph]
    exact ⟨.same, hsent⟩

/-- An iteration makes at most two calls that write the graph, and sends what it has or receives. -/
theorem Steps.writes {ev : Event M} {s s' : Daemon M} (h : Steps S s ev s') :
    ∃ t g, SameLinks (linkEffect ev.active s.this) t ∧
      GraphWrite S ev.active (linkEffect ev.active s.this) s.graph g ∧
      GraphWrite S ev.active t g s'.graph ∧
      ∀ m ∈ s'.sent, m ∈ s.sent ∨ CanSend S ev.active (linkEffect ev.active s.this) s.graph m.2 ∨
        CanSend S ev.active t g m.2 := by
  obtain ⟨c, -, ⟨ha, rfl⟩ | ⟨_, _, s3, f, s4, h3, h4, h5⟩⟩ := h.calls
  · rw [ha]
    exact ⟨s.this, s.graph, .refl _, .same, .same, fun m hm => Or.inl hm⟩
  · rw [(captureAfter_ok h5).1]
    have hH := handleEvent_ok h3
    obtain ⟨hg3, hs3⟩ := handleEvent_writes h3
    obtain ⟨hg4, hs4⟩ := afterEvent_writes h4 hH.updateRouting
    refine ⟨s3.this, s3.graph, hH.links, hg3, hg4, fun m hm => ?_⟩
    rcases hs4 m hm with hm | hm
    · exact (hs3 m hm).imp_right Or.inl
    · exact Or.inr (Or.inr hm)

end Writes

/-! ### Closed graphs -/

/-- Entry `i` has id `i + 1`, and the neighbours of a seen record are entries that are not unseen. -/
structure Closed {M : Type} (g : Graph M) : Prop where
  id : ∀ k, (g k).id = (k : ℕ) + 1
  bounds : ∀ k, (g k).state = .nodeSeen → (g k).InBounds
  neighbours : ∀ k, (g k).state = .nodeSeen → ∀ j, (g k).Lists j → (g j).state ≠ .nodeUnseen

section Closed
variable {M : Type} {g g' : Graph M}

theorem graphInit_closed (memory : Graph M) : Closed (graphInit memory) where
  id _ := rfl
  bounds _ h := by cases h
  neighbours _ h := by cases h

theorem NotBack.notUnseen {old new : Node M} (h : NotBack old new) (hold : old.state ≠ .nodeUnseen) :
    new.state ≠ .nodeUnseen := by
  intro hnew
  have hle := h.state
  rw [hnew] at hle
  exact hold (rank_injective (Nat.le_zero.mp hle))

/-- A graph that grows stays closed, if the neighbours of each record that is new are not unseen. -/
theorem Closed.grow (hg : Closed g) (hup : ∀ k, (g k).state ≠ .nodeUnseen → (g' k).state ≠ .nodeUnseen)
    (hid : ∀ k, (g' k).id = (k : ℕ) + 1)
    (hnew : ∀ k, (g' k).state = .nodeSeen → g' k = g k ∨
      ((g' k).InBounds ∧ ∀ j, (g' k).Lists j → (g' j).state ≠ .nodeUnseen)) : Closed g' where
  id := hid
  bounds k hs := by
    rcases hnew k hs with hold | ⟨hb, -⟩
    · rw [hold] at hs ⊢
      exact hg.bounds k hs
    · exact hb
  neighbours k hs j hj := by
    rcases hnew k hs with hold | ⟨-, hn⟩
    · rw [hold] at hs hj
      exact hup j (hg.neighbours k hs j hj)
    · exact hn j hj

theorem markedEntry_id (r : Node M) (k : Fin maxNodeNum) (old : Node M) :
    (markedEntry r k old).id = old.id := by
  unfold markedEntry
  split <;> rfl

theorem markedEntry_notUnseen {r old : Node M} {k : Fin maxNodeNum} (h : r.Lists k) :
    (markedEntry r k old).state ≠ .nodeUnseen := by
  unfold markedEntry
  split
  · simp
  · rename_i hn
    exact fun hun => hn ⟨hun, h⟩

/-- `merge_in_node` marks the neighbours of what it writes. -/
theorem Closed.mergeInNode [DecidableEq M] {r : Node M} {u : Bool} (hg : Closed g)
    (hs : r.state = .nodeSeen) (h : mergeInNode g r = .ok (g', u)) : Closed g' := by
  have hr := (mergeInNode_inBounds (by simp [hs]) h).1
  have hup : ∀ k, (g k).state ≠ .nodeUnseen → (g' k).state ≠ .nodeUnseen := fun k =>
    (notBack_of_renewed (mergeInNode_renewed hs h k)).notUnseen
  obtain ⟨k, hid, -, hk, hseen, hother⟩ := mergeInNode_entries hs h
  refine hg.grow hup (fun j => ?_) (fun j hj => ?_)
  · by_cases hjk : j = k
    · rw [hjk, hk]
      rcases mergedEntry_cases (g k) r with hkeep | ⟨htake, -⟩
      · rw [hkeep, hg.id]
      · rw [htake, hid]
    · rw [hother j hjk, markedEntry_id, hg.id]
  · by_cases hjk : j = k
    · rw [hjk, hk]
      rcases mergedEntry_cases (g k) r with hkeep | ⟨htake, -⟩
      · exact Or.inl hkeep
      · rw [htake]
        refine Or.inr ⟨hr, fun i hi => ?_⟩
        by_cases hik : i = k
        · rw [hik, hseen]
          simp
        · rw [hother i hik]
          exact markedEntry_notUnseen hi
    · rw [hother j hjk] at hj ⊢
      exact Or.inl (markedEntry_seen hj)

/-- `merge_in_graph` relies on the sender's graph. -/
theorem Closed.mergeInGraph [DecidableEq M] {others : Graph M} {u : Bool} (hg : Closed g)
    (ho : Closed others) (h : mergeInGraph g others = .ok (g', u)) : Closed g' := by
  have hup : ∀ k, (g k).state ≠ .nodeUnseen → (g' k).state ≠ .nodeUnseen := fun k =>
    (notBack_of_renewed (mergeInGraph_renewed h k)).notUnseen
  -- what the sender knows of, the receiver knows of afterwards
  have hfrom : ∀ k, (others k).state ≠ .nodeUnseen → (g' k).state ≠ .nodeUnseen := by
    intro k hk
    by_cases hun : (g k).state = .nodeUnseen
    · rcases mergeInGraph_cases h k with ⟨-, hlike⟩ | ⟨htake, -⟩
      · have hadv : Advances (g k) (others k) := by
          left
          rw [hun]
          cases hs : (others k).state with
          | nodeUnseen => exact absurd hs hk
          | _ => simp [NodeState.rank]
        have hseen := (hlike hadv).1
        rw [hun] at hseen
        cases hseen
      · rw [htake]
        exact hk
    · exact hup k hun
  refine hg.grow hup (fun k => ?_) (fun k hs => ?_)
  · rcases mergeInGraph_cases h k with ⟨hkeep, -⟩ | ⟨htake, -⟩
    · rw [hkeep, hg.id]
    · rw [htake, ho.id]
  · rcases mergeInGraph_cases h k with ⟨hkeep, -⟩ | ⟨htake, -⟩
    · exact Or.inl hkeep
    · rw [htake] at hs ⊢
      exact Or.inr ⟨ho.bounds k hs, fun j hj => hfrom j (ho.neighbours k hs j hj)⟩

/-- `update_global_this` marks the router's neighbours. -/
theorem Closed.updateGlobalThis [Field M] [Libm M] {b : Build} {p : HistParams M} {t t' : LocalNode M}
    {now : ℕ} (hg : Closed g) (hs : t.node.state = .nodeSeen)
    (h : updateGlobalThis b p g t now = .ok (g', t')) : Closed g' := by
  obtain ⟨⟨k, hk⟩, hb⟩ := updateGlobalThis_bounds h
  obtain ⟨hown, ht⟩ := updateGlobalThis_own hs hk h
  have hother : ∀ j ≠ k, g' j = if (g j).state = .nodeUnseen ∧ t.node.Lists j then
      { g j with id := (j : ℕ) + 1, state := .nodeOpaque } else g j := by
    intro j hj
    rw [updateGlobalThis_eq hk hb] at h
    cases h
    simp only [Function.update_of_ne hj]
  have hseen : (g' k).state = .nodeSeen := by rw [hown, ht]; exact hs
  have hmark : ∀ j, t.node.Lists j → (g' j).state ≠ .nodeUnseen := by
    intro j hj
    by_cases hjk : j = k
    · rw [hjk, hseen]
      simp
    · rw [hother j hjk]
      split
      · simp
      · rename_i hn
        exact fun hun => hn ⟨hun, hj⟩
  refine hg.grow (fun j hj => ?_) (fun j => ?_) (fun j hj => ?_)
  · by_cases hjk : j = k
    · rw [hjk, hseen]
      simp
    · rw [hother j hjk, if_neg fun h => hj h.1]
      exact hj
  · by_cases hjk : j = k
    · rw [hjk, hown, ht]
      exact hk
    · rw [hother j hjk]
      split
      · rfl
      · exact hg.id j
  · by_cases hjk : j = k
    · rw [hjk, hown, ht]
      exact Or.inr ⟨⟨hb.fan, hb.ids⟩, fun i hi => hmark i hi⟩
    · rw [hother j hjk] at hj ⊢
      split
      · rename_i hm
        rw [if_pos hm] at hj
        cases hj
      · exact Or.inl rfl

end Closed

/-! ### What `dijkstra` reaches -/

section Reached
variable {M : Type} [Ring M] [LinearOrder M] {graph : Graph M}

/-- The array copies the states and, of seen records only, the neighbours; and a node with a
    predecessor is a neighbour of a seen record. -/
structure ReachedBySeen (graph : Graph M) (nodes : DijkstraNodes M) : Prop where
  state : ∀ k, (nodes k).state = (graph k).state
  slots : ∀ k, (graph k).state = .nodeSeen → (nodes k).nNeighbours = (graph k).nNeighbours ∧
    (nodes k).neighbourIds = (graph k).neighbourIds
  noSlots : ∀ k, (graph k).state ≠ .nodeSeen → (nodes k).nNeighbours = 0
  reached : ∀ k, (nodes k).prevId ≠ -1 → ∃ v, (graph v).state = .nodeSeen ∧ (graph v).Lists k

omit [LinearOrder M] in
theorem dijkstraInit_reached (srcId : ℤ) : ReachedBySeen graph (dijkstraInit graph srcId) := by
  refine ⟨fun k => ?_, fun k hs => ?_, fun k hs => ?_, fun k h => ?_⟩ <;>
    unfold dijkstraInit dijkstraCopy at *
  · split <;> rfl
  · rw [if_pos hs]
    exact ⟨rfl, rfl⟩
  · rw [if_neg hs]
  · split at h <;> exact absurd rfl h

omit [Ring M] [LinearOrder M] in
/-- A neighbour of a seen record may be given another distance and predecessor. -/
theorem ReachedBySeen.relabel {nodes : DijkstraNodes M} {k : Fin maxNodeNum}
    (hs : ReachedBySeen graph nodes) (tentDist : M) (prevId : ℤ)
    (hk : ∃ v, (graph v).state = .nodeSeen ∧ (graph v).Lists k) :
    ReachedBySeen graph (Function.update nodes k { nodes k with prevId, tentDist }) := by
  have hsame : ∀ j, (Function.update nodes k { nodes k with prevId, tentDist } j).state =
      (nodes j).state ∧
      (Function.update nodes k { nodes k with prevId, tentDist } j).nNeighbours =
        (nodes j).nNeighbours ∧
      (Function.update nodes k { nodes k with prevId, tentDist } j).neighbourIds =
        (nodes j).neighbourIds := by
    intro j
    by_cases hj : j = k
    · subst hj
      simp only [Function.update_self, and_self]
    · simp only [Function.update_of_ne hj, and_self]
  refine ⟨fun j => ?_, fun j hj => ?_, fun j hj => ?_, fun j hj => ?_⟩
  · rw [(hsame j).1, hs.state]
  · rw [(hsame j).2.1, (hsame j).2.2]
    exact hs.slots j hj
  · rw [(hsame j).2.1]
    exact hs.noSlots j hj
  · by_cases hjk : j = k
    · exact hjk ▸ hk
    · rw [Function.update_of_ne hjk] at hj
      exact hs.reached j hj

theorem relaxNeighbour_reached {b : Build} {curr : Fin maxNodeNum} {i : ℕ}
    {s s' : DijkstraNodes M × MinHeap (Fin maxNodeNum)} (hi : (i : ℤ) < (s.1 curr).nNeighbours)
    (hs : ReachedBySeen graph s.1) (h : relaxNeighbour b curr i s = .ok s') :
    ReachedBySeen graph s'.1 := by
  rcases relaxNeighbour_cases h with hsame | ⟨j, k, rfl, hid, -, hk⟩
  · rw [hsame]
    exact hs
  · -- a node that is not seen has no slots
    have hseen : (graph curr).state = .nodeSeen := by
      by_contra hn
      rw [hs.noSlots curr hn] at hi
      omega
    obtain ⟨hcount, hids⟩ := hs.slots curr hseen
    rw [hcount] at hi
    rw [hids] at hid
    rw [hk]
    exact hs.relabel _ _ ⟨curr, hseen, j, hi, hid⟩

theorem dijkstra_reached {b : Build} {srcId : ℤ} {nodes : DijkstraNodes M}
    (h : dijkstra b graph srcId = .ok nodes) : ReachedBySeen graph nodes := by
  obtain ⟨heap, -, h⟩ := bind_ok_iff.mp h
  exact dijkstraLoop_keeps (ReachedBySeen graph)
    (fun _ _ _ _ hi hI hround => relaxNeighbour_reached hi hI hround) (dijkstraInit_reached srcId) h

end Reached

/-! ### All routers -/

section Fleet
variable {ι M : Type} [DecidableEq ι] [Field M] [LinearOrder M] [FloorRing M] [Libm M]

/-- What a router receives has been sent by some router. -/
def WasSent (net : ι → Daemon M) : Active M → Prop
  | .routerLsa lsa _ => ∃ i, ∃ m ∈ (net i).sent, m.2 = .routerLsa lsa
  | .networkLsa others => ∃ i, ∃ m ∈ (net i).sent, m.2 = .networkLsa others
  | _ => True

variable (S : ι → Setup M)

def FleetAllowed (net : ι → Daemon M) (a : ι × Event M) : Prop :=
  Enabled (S a.1) a.2.active (net a.1) ∧ WasSent net a.2.active

def fleetStep (a : ι × Event M) (net : ι → Daemon M) : Exec (ι → Daemon M) := do
  let s ← iter (S a.1) a.2 (net a.1)
  pure (Function.update net a.1 s)

/-- The runs of all routers together, from where each has been started: at each step one of them makes
    an iteration. -/
abbrev FleetRun : List (Trace.Step (ι → Daemon M) (ι × Event M)) → (ι → Daemon M) → Prop :=
  Trace.Run (fun net => ∀ i, startUp (S i) = .ok (net i))
    fun net a net' => FleetAllowed S net a ∧ fleetStep S a net = .ok net'

/-- A message that does no harm: a router LSA is a seen record, a network LSA is a closed graph. -/
def Message.Sound {M : Type} : Message M → Prop
  | .routerLsa lsa => lsa.state = .nodeSeen
  | .networkLsa graph => Closed graph
  | .networkLsaRequest => True

structure Sound (S : Setup M) (s : Daemon M) : Prop where
  linked : Linked S s.this
  closed : Closed s.graph
  sent : ∀ m ∈ s.sent, m.2.Sound

variable {S}

omit [LinearOrder M] [FloorRing M] in
theorem startUp_sound {S : Setup M} {s : Daemon M} (h : startUp S = .ok s) : Sound S s := by
  have hl := (startUp_linked h).1
  obtain ⟨t, ht, h⟩ := bind_ok_iff.mp h
  obtain ⟨⟨g, t'⟩, hg, h⟩ := bind_ok_iff.mp h
  cases h
  refine ⟨hl, (graphInit_closed _).updateGlobalThis (localNodeInit_ok ht).2.2.1 hg, fun m hm => ?_⟩
  obtain ⟨ip, -, rfl⟩ := List.mem_map.mp hm
  trivial

omit [FloorRing M] in
/-- A write keeps the graph closed, if the message received is sound. -/
theorem GraphWrite.closed {S : Setup M} {a : Active M} {t : LocalNode M} {g g' : Graph M}
    (h : GraphWrite S a t g g') (hl : Linked S t) (hg : Closed g)
    (hnode : ∀ lsa source, a = .routerLsa lsa source → lsa.state = .nodeSeen)
    (hgraph : ∀ others, a = .networkLsa others → Closed others) : Closed g' := by
  cases h with
  | same => exact hg
  | own t1 t2 now _ links call => exact hg.updateGlobalThis (hl.of_sameLinks links).seen call
  | node lsa source u _ event call => exact hg.mergeInNode (hnode lsa source event) call
  | graph others u _ event call => exact hg.mergeInGraph (hgraph others event) call

omit [LinearOrder M] [FloorRing M] in
theorem CanSend.sound {S : Setup M} {a : Active M} {t : LocalNode M} {g : Graph M} {m : Message M}
    (h : CanSend S a t g m) (hl : Linked S t) (hg : Closed g)
    (hnode : ∀ lsa source, a = .routerLsa lsa source → lsa.state = .nodeSeen) : m.Sound := by
  cases h with
  | own t1 now links => exact (hl.of_sameLinks links).seen
  | passedOn lsa source event => exact hnode lsa source event
  | snapshot => exact hg
  | request => trivial

omit [DecidableEq ι] in
theorem Sound.step {net : ι → Daemon M} {i : ι} {ev : Event M} {s' : Daemon M}
    (hnet : ∀ j, Sound (S j) (net j)) (hsent : WasSent net ev.active)
    (hstep : Steps (S i) (net i) ev s') : Sound (S i) s' := by
  have hnode : ∀ lsa source, ev.active = .routerLsa lsa source → lsa.state = .nodeSeen := by
    intro lsa source ha
    rw [ha] at hsent
    obtain ⟨j, m, hm, hlsa⟩ := hsent
    have hsound := (hnet j).sent m hm
    rw [hlsa] at hsound
    exact hsound
  have hgraph : ∀ others, ev.active = .networkLsa others → Closed others := by
    intro others ha
    rw [ha] at hsent
    obtain ⟨j, m, hm, hothers⟩ := hsent
    have hsound := (hnet j).sent m hm
    rw [hothers] at hsound
    exact hsound
  obtain ⟨t, g, hlinks, hw1, hw2, hnew⟩ := hstep.writes
  have hl := (hnet i).linked.linkEffect ev.active
  have hl' := hl.of_sameLinks hlinks
  have hg := hw1.closed hl (hnet i).closed hnode hgraph
  refine ⟨hl.of_sameLinks hstep.links, hw2.closed hl' hg hnode hgraph, fun m hm => ?_⟩
  rcases hnew m hm with hm | hm | hm
  · exact (hnet i).sent m hm
  · exact hm.sound hl (hnet i).closed hnode
  · exact hm.sound hl' hg hnode

/-- The databases of all routers, and those on their way in network LSAs, stay closed; and so every
    node that `dijkstra` gives a predecessor is one that `get_next_hops` looks at. -/
theorem database_closed {tr : List (Trace.Step (ι → Daemon M) (ι × Event M))} {net : ι → Daemon M}
    (hrun : FleetRun S tr net) (i : ι) : Closed (net i).graph ∧
      (∀ m ∈ (net i).sent, ∀ graph, m.2 = .networkLsa graph → Closed graph) ∧
      ∀ nodes, dijkstra (S i).build (net i).graph (net i).this.node.id = .ok nodes →
        ∀ k, (nodes k).prevId ≠ -1 → (nodes k).state ≠ .nodeUnseen := by
  have hnet : ∀ j, Sound (S j) (net j) := by
    refine hrun.invariant (I := fun _ net => ∀ j, Sound (S j) (net j))
      (fun net h0 j => startUp_sound (h0 j)) ?_
    rintro tr net ⟨v, ev⟩ net' - hnet ⟨⟨hen, hsent⟩, hstep⟩ j
    obtain ⟨s', hs', hstep⟩ := bind_ok_iff.mp hstep
    cases hstep
    by_cases hj : j = v
    · subst hj
      rw [Function.update_self]
      exact Sound.step hnet hsent ⟨hen, hs'⟩
    · simp only [Function.update_of_ne hj]
      exact hnet j
  refine ⟨(hnet i).closed, fun m hm graph hgraph => ?_, fun nodes hnodes k hk => ?_⟩
  · have hsound := (hnet i).sent m hm
    rw [hgraph] at hsound
    exact hsound
  · have hreached := dijkstra_reached hnodes
    obtain ⟨v, hv, hlists⟩ := hreached.reached k hk
    rw [hreached.state]
    exact (hnet i).closed.neighbours v hv k hlists

end Fleet

/-! ### Routers 1 and 2 -/

instance (net : Bool → Daemon ℚ) (a : Active ℚ) : Decidable (WasSent net a) := by
  unfold WasSent
  split <;> infer_instance

instance (S : Bool → Setup ℚ) (net : Bool → Daemon ℚ) (a : Bool × Event ℚ) :
    Decidable (FleetAllowed S net a) := by
  unfold FleetAllowed; infer_instance

def oneAndTwo (second : Bool) : Setup ℚ :=
  if second then routerTwo else twoLinks .lsr id (pure false)

/-- The graph of router 1 when both its links have come up. -/
def snapshotOfOne : Graph ℚ :=
  ((runEvents (twoLinks .lsr id (pure false)) bothRise).bind List.getLast?).elim
    (fun _ => zeroNode) fun st => st.after.graph

/-- Both links of router 1 come up, and router 2 receives the LSAs, and then the database that it has
    asked for. -/
def twoLearns : List (Bool × Event ℚ) :=
  bothRise.map (fun ev => (false, ev)) ++ (receivedByTwo id).map (fun ev => (true, ev)) ++
    [(false, quietly (.networkLsaRequest (inetAddr 10 0 0 2))),
      (true, quietly (.networkLsa snapshotOfOne))]

theorem fleet_starts (i : Bool) : (startUp (oneAndTwo i)).toOption.isSome = true := by
  revert i
  decide +kernel

/-- Both routers at the start of their loops. -/
def fleetStart (i : Bool) : Daemon ℚ :=
  (startUp (oneAndTwo i)).toOption.get (fleet_starts i)

theorem database_closed_twoLearns : ∃ tr net, FleetRun oneAndTwo tr net ∧
    tr.map Trace.Step.event = twoLearns ∧ ∀ i, Closed (net i).graph := by
  have h0 : ∀ i, startUp (oneAndTwo i) = .ok (fleetStart i) := fun i =>
    ok_of_toOption (Option.some_get _).symm
  have hrun : ∃ tr net, FleetRun oneAndTwo tr net ∧ tr.map Trace.Step.event = twoLearns ∧ True :=
    Trace.exists_follow h0 twoLearns (P := fun _ => True) (by decide +kernel)
  obtain ⟨tr, net, hrun, hevents, -⟩ := hrun
  exact ⟨tr, net, hrun, hevents, fun i => (database_closed hrun i).1⟩

end Dtlsr
