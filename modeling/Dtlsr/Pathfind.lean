import Mathlib.Algebra.Order.Floor.Ring
import Mathlib.Algebra.Order.Ring.Defs
import Mathlib.Tactic.NormNum
import Dtlsr.Heap
import Dtlsr.LsGraph
import Dtlsr.Lib.Walks

/-!
    `algorithm/pathfind.c`: Dijkstra's algorithm on the link-state graph, and the backtrace that turns
    its tree into a table of next hops. A pointer into the array of Dijkstra nodes is an index, so the
    heap holds indices and reads the distances from the array as it is at that moment. -/

namespace Dtlsr
open Checked

/-- The two programs that the sources build: `DTLSR` is defined in one and not in the other. -/
inductive Build where | lsr | dtlsr
  deriving DecidableEq, Repr

structure DijkstraNode (M : Type) where
  id : ℤ
  state : NodeState
  tentDist : M
  nNeighbours : ℤ
  neighbourIds : Fin maxNodeFan → ℤ
  linkStatuses : Fin maxNodeFan → LinkState
  linkMetrics : Fin maxNodeFan → M
  prevId : ℤ

abbrev DijkstraNodes (M : Type) := Fin maxNodeNum → DijkstraNode M

/-- `struct hop_dest` -/
structure HopDest where
  nextHop : ℤ
  destIp : Ip
  metric : ℤ
  /-- is the link to the next hop down? -/
  nextHopState : LinkState
  deriving DecidableEq

/-- The array that `pathfind` fills. -/
abbrev HopTable := Fin maxNodeNum → HopDest

section Dijkstra
variable {M : Type} [Ring M] [LinearOrder M]

/-- Large number approximating infinity; just needs to be bigger than a series of max-metric links. -/
def infiniteDist : M := 65565 * 65565

/-- One entry of `dijkstra_init`: only the neighbours of a seen node are copied. -/
def dijkstraCopy (graph : Graph M) (srcId : ℤ) (i : Fin maxNodeNum) : DijkstraNode M :=
  if (graph i).state = .nodeSeen then
    { id := (graph i).id
      state := (graph i).state
      tentDist := if ((i : ℕ) : ℤ) + 1 = srcId then 0 else infiniteDist
      nNeighbours := (graph i).nNeighbours
      neighbourIds := (graph i).neighbourIds
      linkStatuses := (graph i).linkStatuses
      linkMetrics := (graph i).linkMetrics
      prevId := -1 }
  else
    { id := (graph i).id
      state := (graph i).state
      tentDist := infiniteDist
      nNeighbours := 0
      neighbourIds := fun _ => 0
      linkStatuses := fun _ => .linkDown
      linkMetrics := fun _ => 0
      prevId := -1 }

def dijkstraInit (graph : Graph M) (srcId : ℤ) : DijkstraNodes M := dijkstraCopy graph srcId

/-- The distances that the heap compares. -/
def tentDists (nodes : DijkstraNodes M) (i : Fin maxNodeNum) : M := (nodes i).tentDist

def heapInit (nodes : DijkstraNodes M) : Exec (MinHeap (Fin maxNodeNum)) :=
  forAll maxNodeNum (minheapAlloc maxNodeNum) fun i h =>
    if (nodes i).state = .nodeSeen then minheapInsert (tentDists nodes) h i else pure h

/-- Slot `i` of the node `curr` that was popped; only LSR discards neighbours behind down links. -/
def relaxNeighbour (b : Build) (curr : Fin maxNodeNum) (i : ℕ)
    (s : DijkstraNodes M × MinHeap (Fin maxNodeNum)) :
    Exec (DijkstraNodes M × MinHeap (Fin maxNodeNum)) := do
  let (nodes, h) := s
  let currNode := nodes curr
  let status ← read currNode.linkStatuses i
  if b = .lsr ∧ status = .linkDown then pure s
  else do
    let neighbourIndex := (← read currNode.neighbourIds i) - 1
    let neighbour ← read nodes neighbourIndex
    let alt := currNode.tentDist + (← read currNode.linkMetrics i)
    if alt < neighbour.tentDist then do
      let nodes ← write nodes neighbourIndex { neighbour with prevId := currNode.id, tentDist := alt }
      let h ← minheapBuildHeap (tentDists nodes) h
      pure (nodes, h)
    else pure s

/-- The body of the main loop, for the node that was popped. -/
def relaxNeighbours (b : Build) (curr : Fin maxNodeNum)
    (s : DijkstraNodes M × MinHeap (Fin maxNodeNum)) :
    Exec (DijkstraNodes M × MinHeap (Fin maxNodeNum)) :=
  if (s.1 curr).state = .nodeOpaque then pure s
  else forUpto (s.1 curr).nNeighbours s (relaxNeighbour b curr)

/-- `while (h.size > 0)`; each round pops one node. -/
def dijkstraLoop (b : Build) : ℕ → DijkstraNodes M × MinHeap (Fin maxNodeNum) →
    Exec (DijkstraNodes M)
  | 0, _ => .error .outOfFuel
  | fuel + 1, (nodes, h) =>
    if 0 < h.size then do
      let (curr, h) ← minheapPop (tentDists nodes) h
      dijkstraLoop b fuel (← relaxNeighbours b curr (nodes, h))
    else pure nodes

def dijkstra (b : Build) (graph : Graph M) (srcId : ℤ) : Exec (DijkstraNodes M) := do
  let nodes := dijkstraInit graph srcId
  let h ← heapInit nodes
  dijkstraLoop b (maxNodeNum + 1) (nodes, h)

end Dijkstra

section Backtrace
variable {M : Type} [Ring M] [LinearOrder M] [FloorRing M]

/-- What a number becomes in a `short`. -/
def toShort (x : ℤ) : ℤ := x.bmod (2 ^ 16)

/-- What a conversion to an integer type keeps of a double: it rounds towards zero. -/
def truncate (d : M) : ℤ := if 0 ≤ d then ⌊d⌋ else ⌈d⌉

theorem truncate_of_nonneg {d : M} (hd : 0 ≤ d) : truncate d = ⌊d⌋ := if_pos hd

/-- Add short and double without risk of overflowing short. `UINT16_MAX` is `-1` as a short. -/
def sDSafeAdd (s : ℤ) (d : M) : ℤ :=
  if d ≥ 65535 ∨ s ≥ 65535 then toShort 65535
  else
    let ds := toShort (truncate d)
    let res := toShort (ds + s)
    if res < s then toShort 65535 else res

/-- The local variables of `get_next_hop`; `next` and `next_hop_state` start out unset. -/
structure Trace (M : Type) where
  this : DijkstraNode M
  next : Option (DijkstraNode M)
  metric : ℤ
  nextHopState : Option LinkState

/-- The first slot at which `this` lists the node `id`. -/
def slotOf (this : DijkstraNode M) (id : ℤ) : Exec (Option ℕ) :=
  firstIdx this.nNeighbours fun i => do pure (decide (id = (← read this.neighbourIds i)))

/-- Backtrace the route, keeping track of the `next` hop. -/
def backtrace (graph : Graph M) (nodes : DijkstraNodes M) : ℕ → Trace M → Exec (Trace M)
  | 0, _ => .error .outOfFuel
  | fuel + 1, t =>
    if t.this.prevId = -1 then pure t
    else do
      let next := t.this
      let this ← read nodes (next.prevId - 1)
      match ← slotOf this next.id with
      | some i => do
        let state ← read this.linkStatuses i
        let metric ← read (← read graph (this.id - 1)).linkMetrics i
        backtrace graph nodes fuel
          { this, next := some next, metric := sDSafeAdd t.metric metric
            nextHopState := some state }
      | none => backtrace graph nodes fuel { t with this, next := some next }

/-- `get_next_hop`, which does not read its `src_id`. The trace carries `metric` and
    `next_hop_state`, which the C function writes through pointers. -/
def getNextHop (graph : Graph M) (nodes : DijkstraNodes M) (dstId : ℤ) : Exec (ℤ × Trace M) := do
  let this ← read nodes (dstId - 1)
  let t ← backtrace graph nodes (maxNodeNum + 1)
    { this, next := none, metric := 1, nextHopState := none }
  if t.this.id = dstId then pure (-1, t)
  else match t.next with
    | some next => pure (next.id, t)
    | none => .error .uninit

def getDstIp (graph : Graph M) (nodes : DijkstraNodes M) (dstId : ℤ) : Exec Ip := do
  let dest ← read nodes (dstId - 1)
  let prev ← read nodes (dest.prevId - 1)
  match ← slotOf prev dest.id with
  | some i => do read (← read graph (prev.id - 1)).neighbourIps i
  | none => .error .abort

/-- Entry `i` of `get_next_hops`. -/
def hopDest (graph : Graph M) (nodes : DijkstraNodes M) (i : Fin maxNodeNum) : Exec HopDest :=
  if (nodes i).state ≠ .nodeUnseen ∧ (nodes i).prevId ≠ -1 then do
    let (nextHop, t) ← getNextHop graph nodes ((i : ℕ) + 1)
    let destIp ← getDstIp graph nodes ((i : ℕ) + 1)
    match t.nextHopState with
    | some nextHopState => pure { nextHop, destIp, metric := t.metric, nextHopState }
    | none => .error .uninit
  else pure { nextHop := -1, destIp := 0, metric := 0, nextHopState := .linkDown }

def getNextHops (graph : Graph M) (nodes : DijkstraNodes M) : Exec HopTable :=
  fill maxNodeNum (hopDest graph nodes)

def pathfind (b : Build) (graph : Graph M) (srcId : ℤ) : Exec HopTable := do
  getNextHops graph (← dijkstra b graph srcId)

end Backtrace

end Dtlsr
