import Dtlsr.Capture
import Dtlsr.RouteControl

/-!
    `algorithm/local_graph.c` and the part of `algorithm/ls_graph.c` that deals with messages: how a
    router keeps its own record and entry of the graph up to date, and what it sends. A message is sent
    to the address of a neighbour, and sending it means adding it to the list of what has been sent. -/

namespace Dtlsr
open Checked

inductive Message (M : Type) where
  | routerLsa (lsa : Node M)
  | networkLsa (graph : Graph M)
  | networkLsaRequest
  deriving DecidableEq

/-- Messages with the addresses they are sent to. -/
abbrev Sent (M : Type) := List (Ip × Message M)

section Metrics
variable {M : Type} [Field M] [Libm M] (b : Build) (p : HistParams M)

/-- For DTLSR the metric of the link's history; for LSR the path cost is the hop count. -/
def linkMetric (this : LocalNode M) (now : ℕ) (i : Fin maxNodeFan) : M :=
  match b with
  | .dtlsr => tsComputeMetric p (this.lsTimeSeries i) now
  | .lsr => 1

/-- The loop writes the slots in use; `node_init` has checked that there are not too many. -/
def localNodeUpdateMetrics (this : LocalNode M) (now : ℕ) : LocalNode M :=
  { this with
    node :=
      { this.node with
        timestamp := now
        linkMetrics := fun i =>
          if ((i : ℕ) : ℤ) < this.node.nNeighbours then linkMetric b p this now i
          else this.node.linkMetrics i } }

/-- One round of the loop of `update_global_this`. -/
def markOpaque (this : Node M) (i : ℕ) (graph : Graph M) : Exec (Graph M) := do
  let id ← read this.neighbourIds i
  let n ← read graph (id - 1)
  if n.state = .nodeUnseen then write graph (id - 1) { n with id, state := .nodeOpaque }
  else pure graph

/-- `now` is what `get_now` returns. -/
def updateGlobalThis (graph : Graph M) (this : LocalNode M) (now : ℕ) :
    Exec (Graph M × LocalNode M) := do
  let this := localNodeUpdateMetrics b p this now
  let graph ← write graph (this.node.id - 1) this.node
  let graph ← forUpto this.node.nNeighbours graph (markOpaque this.node)
  pure (graph, this)

end Metrics

section Messages
variable {M : Type}

/-- The neighbour addresses in use. -/
def neighbourAddrs (this : Node M) : List Ip :=
  ((List.finRange maxNodeFan).filter fun i : Fin maxNodeFan =>
    ((i : ℕ) : ℤ) < this.nNeighbours).map
    this.neighbourIps

/-- Send router LSA to all neighbours except one. -/
def sendRouterLsaExcept (this lsa : Node M) (sourceAddr : Ip) : Sent M :=
  ((neighbourAddrs this).filter fun ip => ip ≠ sourceAddr).map fun ip => (ip, .routerLsa lsa)

/-- Send router LSA to all neighbours: the address 0.0.0.0 matches none. -/
def sendRouterLsa (this lsa : Node M) : Sent M := sendRouterLsaExcept this lsa 0

def receiveRouterLsa [DecidableEq M] (graph : Graph M) (this : LocalNode M) (lsa : Node M)
    (source : Ip) : Exec (Graph M × Bool × Sent M) := do
  let (graph, updated) ← mergeInNode graph lsa
  pure (graph, updated, if updated then sendRouterLsaExcept this.node lsa source else [])

def receiveNetworkLsa [DecidableEq M] (graph others : Graph M) : Exec (Graph M × Bool) :=
  mergeInGraph graph others

/-- Send the graph to the neighbour that asked for it. -/
def sendNetworkLsa (graph : Graph M) (this : LocalNode M) (destAddr : Ip) : Sent M :=
  if destAddr ∈ neighbourAddrs this.node then [(destAddr, .networkLsa graph)] else []

/-- Send network LSA request to every neighbour. -/
def requestNetworkLsa (this : LocalNode M) : Sent M :=
  (neighbourAddrs this.node).map fun ip => (ip, .networkLsaRequest)

end Messages

/-! ### The router's own entry -/

section Mark
variable {M : Type}

theorem markOpaque_eq {graph : Graph M} {r : Node M} {i : Fin maxNodeFan} {k : Fin maxNodeNum}
    (hk : r.neighbourIds i = (k : ℕ) + 1) :
    markOpaque r i graph = .ok (Function.update graph k
      (if (graph k).state = .nodeUnseen then { graph k with id := (k : ℕ) + 1, state := .nodeOpaque }
        else graph k)) := by
  rw [markOpaque, read_of_lt _ i.isLt, ok_bind, hk, read_of_eq graph k (by simp), ok_bind]
  by_cases hun : (graph k).state = .nodeUnseen
  · rw [if_pos hun, if_pos hun, write_of_eq graph k (by simp)]
  · rw [if_neg hun, if_neg hun, Function.update_eq_self, pure_eq_ok]

/-- A round returns only where the neighbour's id is that of an entry. -/
theorem markOpaque_round {graph g : Graph M} {r : Node M} {i : ℕ} (h : markOpaque r i graph = .ok g) :
    ∃ hi : i < maxNodeFan, 1 ≤ r.neighbourIds ⟨i, hi⟩ ∧ r.neighbourIds ⟨i, hi⟩ ≤ maxNodeNum := by
  rw [markOpaque] at h
  obtain ⟨id, hid, h⟩ := bind_ok_iff.mp h
  obtain ⟨j, hj, rfl⟩ := read_ok_iff.mp hid
  obtain ⟨n, hn, -⟩ := bind_ok_iff.mp h
  obtain ⟨m, hm, -⟩ := read_ok_iff.mp hn
  obtain rfl : i = j := by omega
  exact ⟨j.isLt, show 1 ≤ r.neighbourIds j by omega, show r.neighbourIds j ≤ maxNodeNum by omega⟩

end Mark

section Own
variable {M : Type} [Field M] [Libm M] {b : Build} {p : HistParams M}

@[simp] theorem localNodeUpdateMetrics_id (this : LocalNode M) (now : ℕ) :
    (localNodeUpdateMetrics b p this now).node.id = this.node.id := rfl

@[simp] theorem localNodeUpdateMetrics_state (this : LocalNode M) (now : ℕ) :
    (localNodeUpdateMetrics b p this now).node.state = this.node.state := rfl

@[simp] theorem localNodeUpdateMetrics_timestamp (this : LocalNode M) (now : ℕ) :
    (localNodeUpdateMetrics b p this now).node.timestamp = now := rfl

/-- `update_global_this` writes the router's own record, and marks its unseen neighbours. -/
theorem updateGlobalThis_eq {g : Graph M} {t : LocalNode M} {now : ℕ} {k : Fin maxNodeNum}
    (hid : t.node.id = (k : ℕ) + 1) (ht : t.node.InBounds) :
    updateGlobalThis b p g t now = .ok (fun j =>
      let entry := Function.update g k (localNodeUpdateMetrics b p t now).node j
      if entry.state = .nodeUnseen ∧ t.node.Lists j then
        { entry with id := (j : ℕ) + 1, state := .nodeOpaque }
      else entry, localNodeUpdateMetrics b p t now) := by
  have hb : (localNodeUpdateMetrics b p t now).node.InBounds := ⟨ht.fan, ht.ids⟩
  have hmark := forUpto_mark hb
    (fun j n => { n with id := (j : ℕ) + 1, state := .nodeOpaque }) (fun _ _ => by simp)
    (fun _ _ _ hk => markOpaque_eq hk)
    (Function.update g k (localNodeUpdateMetrics b p t now).node)
  rw [updateGlobalThis, localNodeUpdateMetrics_id, write_of_eq g k (by omega), ok_bind, hmark,
    ok_bind]
  rfl

/-- `update_global_this` returns only if the router's id and those of its neighbours are entries of
    the graph. -/
theorem updateGlobalThis_bounds {g : Graph M} {t : LocalNode M} {now : ℕ} {out : Graph M × LocalNode M}
    (h : updateGlobalThis b p g t now = .ok out) :
    (∃ k : Fin maxNodeNum, t.node.id = (k : ℕ) + 1) ∧ t.node.InBounds := by
  obtain ⟨g1, hg1, h⟩ := bind_ok_iff.mp h
  obtain ⟨g2, hg2, -⟩ := bind_ok_iff.mp h
  obtain ⟨k, hk, -⟩ := write_ok_iff.mp hg1
  rw [localNodeUpdateMetrics_id] at hk
  have hround : ∀ i : ℕ, (i : ℤ) < t.node.nNeighbours → ∃ hi : i < maxNodeFan,
      1 ≤ t.node.neighbourIds ⟨i, hi⟩ ∧ t.node.neighbourIds ⟨i, hi⟩ ≤ maxNodeNum := by
    intro i hi
    obtain ⟨g3, g4, hround⟩ := forUpto_round hg2 i hi
    exact markOpaque_round hround
  refine ⟨⟨k, by omega⟩, ?_, fun i hi => ?_⟩
  · by_contra hfan
    obtain ⟨hi, -⟩ := hround maxNodeFan (by unfold Node.FanOk at hfan; omega)
    omega
  · obtain ⟨_, hids⟩ := hround i hi
    exact hids

/-- `update_global_this` writes the router's own entry, and leaves every other untouched. -/
theorem updateGlobalThis_untouched {g g' : Graph M} {t t' : LocalNode M} {now : ℕ}
    {k : Fin maxNodeNum} (hk : t.node.id ≠ (k : ℕ) + 1)
    (h : updateGlobalThis b p g t now = .ok (g', t')) : Untouched (g k) (g' k) := by
  obtain ⟨g1, hg1, h⟩ := bind_ok_iff.mp h
  obtain ⟨g2, hg2, h⟩ := bind_ok_iff.mp h
  cases h
  obtain ⟨j, hj, rfl⟩ := write_ok_iff.mp hg1
  have hloop := forUpto_untouched (k := k) hg2 fun i g1 g2 hround => by
    obtain ⟨id, -, hround⟩ := bind_ok_iff.mp hround
    obtain ⟨n, hn, hround⟩ := bind_ok_iff.mp hround
    exact untouched_of_mark hn hround rfl k
  rw [localNodeUpdateMetrics_id] at hj
  rwa [Function.update_of_ne fun hkj => hk (by rw [hkj]; omega)] at hloop

end Own

end Dtlsr
