import Dtlsr.DriverSteps

/-!
    The states that a run of the driver reaches: the router keeps its id and its links as they were
    configured, and the timer of a link is armed exactly while the link is up. At the end a router
    with two links, whose runs can be computed. -/

namespace Dtlsr
open Checked

/-- The local node `t` is one that `S` set up. -/
structure Linked {M : Type} [Field M] (S : Setup M) (t : LocalNode M) : Prop where
  id : t.node.id = S.id
  seen : t.node.state = .nodeSeen
  count : t.node.nNeighbours = S.links.length
  self : ∃ k : Fin maxNodeNum, S.id = (k : ℕ) + 1
  bounds : t.node.InBounds
  interfaces : ∀ (i : Fin maxNodeFan) (h : (i : ℕ) < S.links.length),
    t.interfaces i = S.links[(i : ℕ)].interface
  fd : ∀ i : Fin maxNodeFan, (i : ℕ) < S.links.length → (t.timers i).fd = .timer i
  armed : ∀ i : Fin maxNodeFan, (i : ℕ) < S.links.length →
    ((t.timers i).armed = true ↔ t.node.linkStatuses i = .linkUp)

section Links
variable {M : Type} [Field M] {S : Setup M} {t t' : LocalNode M}

theorem Linked.of_sameLinks (h : Linked S t) (hsame : SameLinks t t') : Linked S t' where
  id := hsame.id.trans h.id
  seen := hsame.state.trans h.seen
  count := hsame.nNeighbours.trans h.count
  self := h.self
  bounds := ⟨by unfold Node.FanOk; rw [hsame.nNeighbours]; exact h.bounds.fan,
    by rw [hsame.nNeighbours, hsame.neighbourIds]; exact h.bounds.ids⟩
  interfaces := by rw [hsame.interfaces]; exact h.interfaces
  fd := by rw [hsame.timers]; exact h.fd
  armed := by rw [hsame.timers, hsame.linkStatuses]; exact h.armed

theorem Linked.linkEffect (h : Linked S t) (a : Active M) : Linked S (linkEffect a t) where
  id := by rw [linkEffect_id, h.id]
  seen := by rw [linkEffect_state, h.seen]
  count := by rw [linkEffect_nNeighbours, h.count]
  self := h.self
  bounds := ⟨by unfold Node.FanOk; rw [linkEffect_nNeighbours]; exact h.bounds.fan,
    by rw [linkEffect_nNeighbours, linkEffect_neighbourIds]; exact h.bounds.ids⟩
  interfaces := by rw [linkEffect_interfaces]; exact h.interfaces
  fd i hi := by rw [(linkEffect_eq a t).2 i, h.fd i hi]
  armed i hi := linkEffect_armed (h.armed i hi)

/-- The descriptor of link `i`'s timer belongs to no other link. -/
theorem Linked.linkOfTimer (h : Linked S t) {i : Fin maxNodeFan} (hi : (i : ℕ) < S.links.length)
    (st : LinkState) : linkOfTimer t (t.timers i).fd st =
      if t.node.linkStatuses i = st then some i else none := by
  have honly : ∀ j : Fin maxNodeFan, (j : ℕ) < S.links.length → (t.timers j).fd = (t.timers i).fd →
      j = i := by
    intro j hj heq
    rw [h.fd i hi, h.fd j hj] at heq
    exact Fd.timer.inj heq
  cases hl : Dtlsr.linkOfTimer t (t.timers i).fd st with
  | some j =>
    obtain ⟨h1, h2, h3⟩ := linkOfTimer_some hl
    obtain rfl := honly j (by rw [h.count] at h1; omega) h2
    rw [if_pos h3]
  | none =>
    have hnone := List.find?_eq_none.mp hl i (List.mem_finRange i)
    rw [if_neg]
    intro hst
    rw [h.count] at hnone
    simp [hst, hi] at hnone

/-! ### Start-up -/

theorem localNodeInit_ok {now : ℕ} (h : localNodeInit S now = .ok t) :
    S.links.length ≤ maxNodeFan ∧ t.node.id = S.id ∧ t.node.state = .nodeSeen ∧
      t.node.nNeighbours = S.links.length ∧ ∀ (i : Fin maxNodeFan) (h : (i : ℕ) < S.links.length),
        t.interfaces i = S.links[(i : ℕ)].interface ∧ (t.timers i).fd = .timer i ∧
          (t.timers i).armed = false ∧ t.node.linkStatuses i = .linkDown := by
  obtain ⟨n, hn, h⟩ := bind_ok_iff.mp h
  obtain ⟨-, -, h⟩ := bind_ok_iff.mp h
  obtain ⟨ts, -, h⟩ := bind_ok_iff.mp h
  unfold nodeInit at hn
  split at hn
  · cases hn
  · cases hn
    cases h
    refine ⟨by omega, rfl, rfl, rfl, fun i hi => ?_⟩
    simp [hi, eventTimerAppend]

theorem localNodeInit_neighbourIds {now : ℕ} (h : localNodeInit S now = .ok t) (i : Fin maxNodeFan)
    (hi : (i : ℕ) < S.links.length) : t.node.neighbourIds i = S.links[(i : ℕ)].dstId := by
  obtain ⟨n, -, h⟩ := bind_ok_iff.mp h
  obtain ⟨-, -, h⟩ := bind_ok_iff.mp h
  obtain ⟨series, -, h⟩ := bind_ok_iff.mp h
  cases h
  simp [hi]

theorem localNodeInit_neighbourIps {now : ℕ} (h : localNodeInit S now = .ok t) (i : Fin maxNodeFan)
    (hi : (i : ℕ) < S.links.length) : t.node.neighbourIps i = S.links[(i : ℕ)].dstAddr := by
  obtain ⟨n, -, h⟩ := bind_ok_iff.mp h
  obtain ⟨_, -, h⟩ := bind_ok_iff.mp h
  obtain ⟨series, -, h⟩ := bind_ok_iff.mp h
  cases h
  simp [hi]

/-- The histories of the links are begun. -/
theorem localNodeInit_series {now : ℕ} (hb : S.build = .dtlsr) (h : localNodeInit S now = .ok t)
    {i : Fin maxNodeFan} (hi : (i : ℕ) < S.links.length) :
    tsInit (S.this.lsTimeSeries i) .linkDown now = .ok (t.lsTimeSeries i) := by
  obtain ⟨n, -, h⟩ := bind_ok_iff.mp h
  obtain ⟨_, -, h⟩ := bind_ok_iff.mp h
  obtain ⟨series, hseries, h⟩ := bind_ok_iff.mp h
  cases h
  have hinit := fill_ok_iff.mp hseries i
  rwa [if_pos ⟨hb, hi⟩] at hinit

/-- The names of the links fit their slots. -/
theorem localNodeInit_names {now : ℕ} (h : localNodeInit S now = .ok t) :
    ∀ row ∈ S.links, row.interface.toList.length < ifaceStrMaxLen := by
  obtain ⟨n, -, h⟩ := bind_ok_iff.mp h
  obtain ⟨_, hnames, -⟩ := bind_ok_iff.mp h
  unfold copyNames at hnames
  split at hnames
  · assumption
  · cases hnames

end Links

section Runs
variable {M : Type} [Field M] [Libm M] {S : Setup M}

/-- The variables with which the loop starts, apart from those of the graph and the local node. -/
structure Started (S : Setup M) (s : Daemon M) : Prop where
  nextHops : s.nextHops = fun _ => hopZero
  upIface : s.upIface = none
  capture : s.capture = captureInit s.this S.files
  currRoutes : s.currRoutes = fun _ => SimpleRt.zero
  originated : s.originated = []

theorem startUp_started {s : Daemon M} (h : startUp S = .ok s) : Started S s := by
  obtain ⟨t, -, h⟩ := bind_ok_iff.mp h
  obtain ⟨⟨g, t'⟩, -, h⟩ := bind_ok_iff.mp h
  cases h
  exact ⟨rfl, rfl, rfl, rfl, rfl⟩

theorem startUp_linked {s : Daemon M} (h : startUp S = .ok s) : Linked S s.this ∧
    ∀ i : Fin maxNodeFan, (i : ℕ) < S.links.length → s.this.node.linkStatuses i = .linkDown := by
  obtain ⟨t, ht, h⟩ := bind_ok_iff.mp h
  obtain ⟨⟨g, t'⟩, hg, h⟩ := bind_ok_iff.mp h
  cases h
  obtain ⟨hlen, hid, hseen, hcount, hlinks⟩ := localNodeInit_ok ht
  obtain ⟨hself, hbounds⟩ := updateGlobalThis_bounds hg
  have hsame : SameLinks t t' := by rw [updateGlobalThis_this hg]; rfl
  refine ⟨Linked.of_sameLinks ⟨hid, hseen, hcount, hid ▸ hself, hbounds, fun i hi => (hlinks i hi).1,
    fun i hi => (hlinks i hi).2.1, fun i hi => ?_⟩ hsame, fun i hi => ?_⟩
  · rw [(hlinks i hi).2.2.1, (hlinks i hi).2.2.2]; simp
  · rw [show t'.node.linkStatuses = t.node.linkStatuses from hsame.linkStatuses]
    exact (hlinks i hi).2.2.2

/-- At start-up no other router has been seen. -/
theorem startUp_untouched {s : Daemon M} {k : Fin maxNodeNum}
    (hk : S.id ≠ (k : ℕ) + 1) (h : startUp S = .ok s) :
    (s.graph k).state ≠ .nodeSeen := by
  obtain ⟨t, ht, h⟩ := bind_ok_iff.mp h
  obtain ⟨⟨g, t'⟩, hg, h⟩ := bind_ok_iff.mp h
  cases h
  have hid : t.node.id ≠ (k : ℕ) + 1 := by rw [(localNodeInit_ok ht).2.1]; exact hk
  exact (updateGlobalThis_untouched hid hg).unseen (by simp [graphInit])

variable [LinearOrder M] [FloorRing M]

/-- In every state of a run the links are the configured ones. -/
theorem Run.linked {tr : List (Trace.Step (Daemon M) (Event M))} {s : Daemon M} (h : Run S tr s) :
    Linked S s.this :=
  Trace.Run.invariant (I := fun _ s => Linked S s.this) (fun _ h0 => (startUp_linked h0).1)
    (fun _ _ e _ _ hinv hstep => (hinv.linkEffect e.active).of_sameLinks hstep.links) h

end Runs

/-! ### Changes of links -/

def LinksChanged {M : Type} (st : Trace.Step (Daemon M) (Event M)) : Prop :=
  st.after.this.node.linkStatuses ≠ st.before.this.node.linkStatuses

instance {M : Type} (st : Trace.Step (Daemon M) (Event M)) : Decidable (LinksChanged st) := by
  unfold LinksChanged; infer_instance

/-! ### A router with two links -/

/-- Router 1 with links to routers 2 and 3. -/
def twoLinks (build : Build) (clock : ℕ → ℕ) (strcmpNull : Exec Bool) : Setup ℚ where
  build
  id := 1
  links :=
    [{ interface := "eth0", srcAddr := inetAddr 10 0 0 1, dstAddr := inetAddr 10 0 0 2, dstId := 2 },
      { interface := "eth1", srcAddr := inetAddr 10 0 1 1, dstAddr := inetAddr 10 0 1 3, dstId := 3 }]
  hist := default
  clock
  strcmpNull
  graph := fun _ => zeroNode
  this := zeroLocalNode
  files := fun _ => none

/-- An event for which no packet arrives. -/
def quietly (active : Active ℚ) : Event ℚ := { arrived := [], active }

end Dtlsr
