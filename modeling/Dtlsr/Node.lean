import Mathlib.Data.UInt
import Dtlsr.LinkHist

/-!
    `algorithm/node.h`, `algorithm/node.c` and `process/fd_event.c`: the record of one network node,
    the local node with its heartbeat timers, and content equality of records. A field that no part of
    the model reads (`if_arena_ptr`, the interval of a timer, which is always 0) is left out. -/

namespace Dtlsr
open Checked

/-- `MAX_NODE_NUM` -/
abbrev maxNodeNum : ℕ := 12

/-- `MAX_NODE_FAN` -/
abbrev maxNodeFan : ℕ := 6

instance : NeZero maxNodeNum := ⟨by decide⟩

instance : NeZero maxNodeFan := ⟨by decide⟩

inductive NodeState where
  /-- not encountered at all -/
  | nodeUnseen
  /-- only seen as a neighbour -/
  | nodeOpaque
  /-- known from its LSA -/
  | nodeSeen
  deriving DecidableEq, Repr

/-- An IPv4 address in network byte order, as a little-endian host reads it. -/
abbrev Ip := UInt32

/-- `inet_addr("a.b.c.d")` -/
def inetAddr (a b c d : ℕ) : Ip := UInt32.ofNat (a + b * 2 ^ 8 + c * 2 ^ 16 + d * 2 ^ 24)

/-- `inet_addr("255.255.255.0")` -/
def netmask : Ip := inetAddr 255 255 255 0

/-- Logical representation of a network node in the graph. -/
structure Node (M : Type) where
  id : ℤ
  state : NodeState
  nNeighbours : ℤ
  sourceIps : Fin maxNodeFan → Ip
  neighbourIps : Fin maxNodeFan → Ip
  neighbourIds : Fin maxNodeFan → ℤ
  linkStatuses : Fin maxNodeFan → LinkState
  linkMetrics : Fin maxNodeFan → M
  timestamp : ℕ
  deriving DecidableEq

/-- The descriptors that `event_wait` can return, by what they stand for: the kernel gives out
    distinct numbers and the code only compares them. -/
inductive Fd where
  | hbSock | routerLsaRecSock | routerLsaSndTimer | networkLsaRecSock | networkLsaRecRequestSock
  | replayTimer | recomputationTimer
  | timer (i : Fin maxNodeFan)
  deriving DecidableEq, Repr

/-- A timer and the value it was last set to. -/
structure Timer where
  fd : Fd
  sec : ℕ
  nsec : ℕ
  deriving DecidableEq, Repr

/-- `DISARM_T`, in seconds: a timer set to it does not expire. -/
def disarmT : ℕ := 2 ^ 63 - 1

def eventTimerArm (t : Timer) (sec nsec : ℕ) : Timer := { t with sec, nsec }

def eventTimerDisarm (t : Timer) : Timer := eventTimerArm t disarmT 0

/-- `event_timer_append`, for the descriptor that `timerfd_create` returned. -/
def eventTimerAppend (fd : Fd) (sec nsec : ℕ) : Timer := { fd, sec, nsec }

def Timer.armed (t : Timer) : Bool := t.sec ≠ disarmT

@[simp] theorem eventTimerArm_fd (t : Timer) (sec nsec : ℕ) : (eventTimerArm t sec nsec).fd = t.fd :=
  rfl

@[simp] theorem eventTimerDisarm_fd (t : Timer) : (eventTimerDisarm t).fd = t.fd := rfl

@[simp] theorem eventTimerArm_armed (t : Timer) (nsec : ℕ) : (eventTimerArm t 0 nsec).armed = true := by
  simp [Timer.armed, eventTimerArm, disarmT]

@[simp] theorem eventTimerDisarm_armed (t : Timer) : (eventTimerDisarm t).armed = false := by
  simp [Timer.armed, eventTimerDisarm, eventTimerArm]

/-- `HEARTBEAT_TIMEOUT` (500 ms), `LSA_SEND_T` (200 ms), `METRIC_RECOMPUTATION_T` and `REPLAY_DELAY_T`
    (50 ms), in nanoseconds. -/
def heartbeatTimeout : ℕ := 500000000
def lsaSendT : ℕ := 200000000
def metricRecomputationT : ℕ := 50000000
def replayDelayT : ℕ := 50000000

structure LocalNode (M : Type) where
  node : Node M
  timers : Fin maxNodeFan → Timer
  /-- kept in the DTLSR build only -/
  lsTimeSeries : Fin maxNodeFan → LSTimeSeries
  interfaces : Fin maxNodeFan → String

variable {M : Type}

def nodeInit (node : Node M) (n : ℤ) : Exec (Node M) :=
  if n > maxNodeFan then .error .abort
  else .ok { node with state := .nodeSeen, nNeighbours := n, timestamp := 0 }

/-- `nodes_eq`: equal id, state, and for each neighbour equal id, link status and link metric. -/
def nodesEq [DecidableEq M] (n1 n2 : Node M) : Exec Bool :=
  if n1.id = n2.id ∧ n1.state = n2.state ∧ n1.nNeighbours = n2.nNeighbours then do
    let differs ← firstIdx n1.nNeighbours fun i => do
      let sameId := (← read n1.neighbourIds i) = (← read n2.neighbourIds i)
      let sameStatus := (← read n1.linkStatuses i) = (← read n2.linkStatuses i)
      let sameMetric := (← read n1.linkMetrics i) = (← read n2.linkMetrics i)
      pure (!(sameId && sameStatus && sameMetric))
    pure differs.isNone
  else pure false

/-- The content of a record: its neighbours with the status and the metric of each link. -/
structure SameContent (n1 n2 : Node M) : Prop where
  count : n1.nNeighbours = n2.nNeighbours
  links : ∀ i : Fin maxNodeFan, ((i : ℕ) : ℤ) < n1.nNeighbours →
    n1.neighbourIds i = n2.neighbourIds i ∧ n1.linkStatuses i = n2.linkStatuses i ∧
      n1.linkMetrics i = n2.linkMetrics i

theorem SameContent.refl (n : Node M) : SameContent n n := ⟨rfl, fun _ _ => ⟨rfl, rfl, rfl⟩⟩

theorem SameContent.symm {n1 n2 : Node M} (h : SameContent n1 n2) : SameContent n2 n1 :=
  ⟨h.count.symm, fun i hi =>
    let ⟨h1, h2, h3⟩ := h.links i (h.count ▸ hi)
    ⟨h1.symm, h2.symm, h3.symm⟩⟩

theorem SameContent.trans {n1 n2 n3 : Node M} (h : SameContent n1 n2) (h' : SameContent n2 n3) :
    SameContent n1 n3 :=
  ⟨h.count.trans h'.count, fun i hi =>
    let ⟨h1, h2, h3⟩ := h.links i hi
    let ⟨h1', h2', h3'⟩ := h'.links i (h.count ▸ hi)
    ⟨h1.trans h1', h2.trans h2', h3.trans h3'⟩⟩

/-- No read of the record's first `n_neighbours` slots leaves its arrays. -/
def Node.FanOk (n : Node M) : Prop := n.nNeighbours ≤ maxNodeFan

instance (n : Node M) : Decidable n.FanOk := by unfold Node.FanOk; infer_instance

theorem Node.FanOk.lt {n : Node M} (h : n.FanOk) {i : ℕ} (hi : (i : ℤ) < n.nNeighbours) :
    i < maxNodeFan := by
  unfold Node.FanOk at h
  omega

/-- On records within their arrays `nodes_eq` returns, and decides id, state and content. -/
theorem nodesEq_spec [DecidableEq M] {n1 n2 : Node M} (hfan : n1.FanOk ∨ n2.FanOk) :
    ∃ b, nodesEq n1 n2 = .ok b ∧
      (b = true ↔ n1.id = n2.id ∧ n1.state = n2.state ∧ SameContent n1 n2) := by
  unfold nodesEq
  by_cases hc : n1.id = n2.id ∧ n1.state = n2.state ∧ n1.nNeighbours = n2.nNeighbours
  · rw [if_pos hc]
    have hn : n1.nNeighbours ≤ maxNodeFan := by
      rcases hfan with h | h
      · exact h
      · rw [hc.2.2]; exact h
    generalize hp : (fun i : ℕ => (do
      let sameId := (← read n1.neighbourIds i) = (← read n2.neighbourIds i)
      let sameStatus := (← read n1.linkStatuses i) = (← read n2.linkStatuses i)
      let sameMetric := (← read n1.linkMetrics i) = (← read n2.linkMetrics i)
      pure (!(sameId && sameStatus && sameMetric)) : Exec Bool)) = p
    have hprobe : ∀ (i : ℕ) (hi : (i : ℤ) < n1.nNeighbours), p i = .ok
        (!(decide (n1.neighbourIds ⟨i, by omega⟩ = n2.neighbourIds ⟨i, by omega⟩) &&
          decide (n1.linkStatuses ⟨i, by omega⟩ = n2.linkStatuses ⟨i, by omega⟩) &&
          decide (n1.linkMetrics ⟨i, by omega⟩ = n2.linkMetrics ⟨i, by omega⟩))) := by
      intro i hi
      subst hp
      have hi6 : i < maxNodeFan := by omega
      simp only [read_of_lt _ hi6, ok_bind, pure_eq_ok]
    obtain ⟨r, hr⟩ := firstIdx_ensures (n := n1.nNeighbours) (p := p) fun i hi => ⟨_, hprobe i hi⟩
    rw [hr, ok_bind]
    refine ⟨r.isNone, rfl, ?_⟩
    cases r with
    | none =>
      have hall := firstIdx_none hr
      simp only [Option.isNone_none, true_iff]
      refine ⟨hc.1, hc.2.1, hc.2.2, fun i hi => ?_⟩
      have := (hprobe i hi).symm.trans (hall i hi)
      simpa [and_assoc] using this
    | some j =>
      obtain ⟨hj, hjt, -⟩ := firstIdx_some hr
      simp only [Option.isNone_some, Bool.false_eq_true, false_iff]
      rintro ⟨-, -, hsame⟩
      have hlinks := hsame.links ⟨j, by omega⟩ hj
      have := (hprobe j hj).symm.trans hjt
      simp [hlinks] at this
  · rw [if_neg hc]
    refine ⟨false, rfl, ?_⟩
    simp only [Bool.false_eq_true, false_iff]
    rintro ⟨h1, h2, h3⟩
    exact hc ⟨h1, h2, h3.count⟩

/-- `nodes_eq`, whenever it returns, says yes to records of equal content only. -/
theorem nodesEq_true [DecidableEq M] {n1 n2 : Node M} (h : nodesEq n1 n2 = .ok true) :
    SameContent n1 n2 := by
  unfold nodesEq at h
  split at h
  · rename_i hc
    obtain ⟨differs, hd, h⟩ := bind_ok_iff.mp h
    cases differs with
    | some j => cases h
    | none =>
      refine ⟨hc.2.2, fun i hi => ?_⟩
      have hprobe := firstIdx_none hd i hi
      simp only [read_of_lt _ i.isLt, ok_bind, pure_eq_ok] at hprobe
      simpa [and_assoc] using hprobe
  · cases h

/-- `nodes_eq`, whenever it returns, says no to records of one node and state only if their contents
    differ. -/
theorem nodesEq_false [DecidableEq M] {n1 n2 : Node M} (h : nodesEq n1 n2 = .ok false)
    (hid : n1.id = n2.id) (hstate : n1.state = n2.state) : ¬SameContent n1 n2 := by
  intro hsame
  unfold nodesEq at h
  rw [if_pos ⟨hid, hstate, hsame.count⟩] at h
  obtain ⟨differs, hd, h⟩ := bind_ok_iff.mp h
  cases differs with
  | none => cases h
  | some j =>
    obtain ⟨hj, hprobe, -⟩ := firstIdx_some hd
    obtain ⟨id, hread, hprobe⟩ := bind_ok_iff.mp hprobe
    obtain ⟨i, hi, rfl⟩ := read_ok_iff.mp hread
    obtain rfl : (i : ℕ) = j := by omega
    simp [read_of_lt _ i.isLt, hsame.links i hj] at hprobe

/-- Memory that holds zeros. -/
def zeroNode : Node ℚ :=
  { id := 0, state := .nodeUnseen, nNeighbours := 0, sourceIps := fun _ => 0,
    neighbourIps := fun _ => 0, neighbourIds := fun _ => 0, linkStatuses := fun _ => .linkDown,
    linkMetrics := fun _ => 0, timestamp := 0 }

def zeroLocalNode : LocalNode ℚ :=
  { node := zeroNode
    timers := fun _ => { fd := .hbSock, sec := 0, nsec := 0 }
    lsTimeSeries := fun _ =>
      { timestamps := fun _ => 0, front := 0, nStates := 0, full := false,
        currLinkState := .linkDown }
    interfaces := fun _ => "" }

end Dtlsr
