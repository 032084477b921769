import Dtlsr.Closure
import Dtlsr.Gateways
import Dtlsr.LsrRoutes

/-!
    Where the installed routes come from, over whole runs. A table of `pathfind` names neighbours and
    listed addresses only, and the subnets of its routes stay known: those of the router's own links are
    configured, and a record of another router is only replaced by one that lists them too. But
    `next_hops` starts out as `memset` has left it, and its 0 is neither the -1 of no route nor the id of
    a neighbour: until the first path-finding every call installs a route whose fields are 0. -/

namespace Dtlsr
open Checked

/-! ### Subnets -/

section Subnets
variable {M : Type}

/-- The record lists a neighbour in the subnet `net`. -/
def HasSubnet (r : Node M) (net : Ip) : Prop :=
  ∃ i : Fin maxNodeFan, ((i : ℕ) : ℤ) < r.nNeighbours ∧ r.neighbourIps i &&& netmask = net

instance (r : Node M) (net : Ip) : Decidable (HasSubnet r net) := by
  unfold HasSubnet; infer_instance

/-- `new` lists a neighbour in every subnet that `old` does. -/
def Covers (old new : Node M) : Prop :=
  ∀ i : Fin maxNodeFan, ((i : ℕ) : ℤ) < old.nNeighbours →
    HasSubnet new (old.neighbourIps i &&& netmask)

instance (old new : Node M) : Decidable (Covers old new) := by unfold Covers; infer_instance

theorem Covers.hasSubnet {old new : Node M} {net : Ip} (h : Covers old new) (hold : HasSubnet old net) :
    HasSubnet new net := by
  obtain ⟨i, hi, rfl⟩ := hold
  exact h i hi

theorem Covers.refl (r : Node M) : Covers r r := fun i hi => ⟨i, hi, rfl⟩

theorem Covers.trans {r r' r'' : Node M} (h : Covers r r') (h' : Covers r' r'') : Covers r r'' :=
  fun i hi => h'.hasSubnet (h i hi)

theorem SameRouter.covers {t t' : LocalNode M} (h : SameRouter t t') : Covers t.node t'.node :=
  fun i hi => ⟨i, by rw [h.nNeighbours]; exact hi, by rw [h.neighbourIps]⟩

/-- A /24 prefix taken from a seen record of the graph. -/
def ListedSubnet (g : Graph M) (net : Ip) : Prop :=
  ∃ k, (g k).state = .nodeSeen ∧ HasSubnet (g k) net

/-- A route through a neighbour, to a subnet that the graph lists. -/
structure GoodRoute (s : Daemon M) (dst gateway : Ip) : Prop where
  gateway : gateway ∈ neighbourAddrs s.this.node
  dst : ListedSubnet s.graph dst

/-- Every route that the step passes to `SIOCADDRT`, and every entry of `curr_routes` after it, is a route
    through a neighbour, to a subnet that the graph lists. -/
structure RoutesOk (st : Trace.Step (Daemon M) (Event M)) : Prop where
  added : ∀ rt, .addRt rt ∈ st.after.ioctls.drop st.before.ioctls.length →
    GoodRoute st.before rt.dst rt.gateway
  current : ∀ i, (st.after.currRoutes i).rtExists = true →
    GoodRoute st.after (st.after.currRoutes i).dst (st.after.currRoutes i).gateway

/-- What a record that is taken into entry `k` has to satisfy: it has the id of that entry, no negative
    metric if it is another router's, and if it replaces a seen record it lists the same subnets. -/
structure Acceptable (this : LocalNode M) (k : Fin maxNodeNum) (old r : Node M) [Zero M] [LE M] :
    Prop where
  id : r.id = (k : ℕ) + 1
  nonneg : this.node.id ≠ (k : ℕ) + 1 → r.state = .nodeSeen → ∀ i : Fin maxNodeFan,
    ((i : ℕ) : ℤ) < r.nNeighbours → 0 ≤ r.linkMetrics i
  covers : old.state = .nodeSeen → Covers old r

instance [Zero M] [LE M] [DecidableLE M] (this : LocalNode M) (k : Fin maxNodeNum) (old r : Node M) :
    Decidable (Acceptable this k old r) :=
  decidable_of_iff (r.id = (k : ℕ) + 1 ∧ (this.node.id ≠ (k : ℕ) + 1 → r.state = .nodeSeen →
      ∀ i : Fin maxNodeFan, ((i : ℕ) : ℤ) < r.nNeighbours → 0 ≤ r.linkMetrics i) ∧
      (old.state = .nodeSeen → Covers old r))
    ⟨fun ⟨h1, h2, h3⟩ => ⟨h1, h2, h3⟩, fun h => ⟨h.id, h.nonneg, h.covers⟩⟩

/-- The records that the merge takes from the LSA of a step are acceptable. -/
def LsaAcceptable [Zero M] [LE M] (st : Trace.Step (Daemon M) (Event M)) : Prop :=
  match st.event.active with
  | .routerLsa lsa _ => ∀ k : Fin maxNodeNum, lsa.id = (k : ℕ) + 1 → Takes (st.before.graph k) lsa →
      Acceptable st.before.this k (st.before.graph k) lsa
  | .networkLsa others => ∀ k, Takes (st.before.graph k) (others k) →
      Acceptable st.before.this k (st.before.graph k) (others k)
  | _ => True

instance [Zero M] [LE M] [DecidableLE M] [DecidableEq M] (st : Trace.Step (Daemon M) (Event M)) :
    Decidable (LsaAcceptable st) := by
  unfold LsaAcceptable; split <;> infer_instance

end Subnets

/-! ### Derived routes -/

section Derived
variable {M : Type} {this : LocalNode M}

/-- A next hop that is a neighbour gives a route through an address of that neighbour. -/
theorem deriveRtentry_gateway {hop : HopDest} {rt : RtEntry} (h : deriveRtentry this hop = .ok rt)
    (hne : hop.nextHop ≠ -1) (hnb : ∃ i : Fin maxNodeFan, ((i : ℕ) : ℤ) < this.node.nNeighbours ∧
      this.node.neighbourIds i = hop.nextHop) :
    rt.dst = hop.destIp ∧ rt.gateway ∈ neighbourAddrs this.node := by
  rw [deriveRtentry, if_neg hne] at h
  obtain ⟨slot, hslot, h⟩ := bind_ok_iff.mp h
  cases slot with
  | none =>
    obtain ⟨i, hi, hid⟩ := hnb
    have hprobe := firstIdx_none hslot i hi
    rw [read_of_lt _ i.isLt, ok_bind, hid] at hprobe
    simp at hprobe
  | some i =>
    obtain ⟨hi, -, -⟩ := firstIdx_some hslot
    obtain ⟨gateway, hgateway, h⟩ := bind_ok_iff.mp h
    obtain ⟨j, hj, rfl⟩ := read_ok_iff.mp hgateway
    cases h
    refine ⟨rfl, List.mem_map_of_mem (List.mem_filter.mpr ⟨List.mem_finRange j, ?_⟩)⟩
    simp only [decide_eq_true_eq]
    omega

/-- A next hop that is no neighbour, and not the marker of no route, gives a route of zeros. -/
theorem deriveRtentry_zero {hop : HopDest} {rt : RtEntry} (h : deriveRtentry this hop = .ok rt)
    (hnb : ∀ i : Fin maxNodeFan, ((i : ℕ) : ℤ) < this.node.nNeighbours →
      this.node.neighbourIds i ≠ hop.nextHop) : rt = .zero := by
  unfold deriveRtentry at h
  split at h
  · exact (Except.ok.inj h).symm
  · obtain ⟨slot, hslot, h⟩ := bind_ok_iff.mp h
    cases slot with
    | none => exact (Except.ok.inj h).symm
    | some i =>
      obtain ⟨hi, hprobe, -⟩ := firstIdx_some hslot
      obtain ⟨id, hid, hprobe⟩ := bind_ok_iff.mp hprobe
      obtain ⟨j, hj, rfl⟩ := read_ok_iff.mp hid
      exact absurd (by simpa using hprobe) (hnb j (by omega))

theorem mem_derivedRoutes {hops : HopTable} {derived : List KernelRoute}
    (h : derivedRoutes this hops = .ok derived) {r : KernelRoute} : r ∈ derived ↔
      ∃ i rt, (filterNextHops hops i).nextHop ≠ -1 ∧
        deriveRtentry this (filterNextHops hops i) = .ok rt ∧ rt.route = r := by
  obtain ⟨routes, hroutes, h⟩ := bind_ok_iff.mp h
  cases h
  have hroute := fill_ok_iff.mp hroutes
  simp only [routed, List.mem_map, List.mem_filter, List.mem_finRange, true_and, decide_eq_true_eq]
  constructor
  · rintro ⟨i, hi, rfl⟩
    exact ⟨i, routes i, hi, hroute i, rfl⟩
  · rintro ⟨i, rt, hi, hrt, rfl⟩
    exact ⟨i, hi, by rw [Except.ok.inj ((hroute i).symm.trans hrt)]⟩

/-- The calls that add routes add the derived ones. -/
theorem added_derived {hops : HopTable} {curr curr' : CurrRoutes} {calls : List Ioctl}
    {derived : List KernelRoute} (h : updateRoutingTable this hops curr = .ok (curr', calls))
    (hderived : derivedRoutes this hops = .ok derived) {rt : RtEntry} (hrt : .addRt rt ∈ calls) :
    rt.route ∈ derived := by
  obtain ⟨routes, all, hroutes, -, -, rfl⟩ := updateRoutingTable_calls h
  rcases List.mem_append.mp hrt with hrt | hrt
  · obtain ⟨i, hi, hadd⟩ := List.mem_map.mp hrt
    cases hadd
    rw [derivedRoutes, hroutes] at hderived
    cases hderived
    exact List.mem_map_of_mem hi
  · obtain ⟨i, -, hdel⟩ := List.mem_map.mp hrt
    cases hdel

end Derived

/-! ### What the graph keeps -/

section Known
variable {M : Type} [Zero M] [LE M] {this this' : LocalNode M} {own k : Fin maxNodeNum}
  {g g' : Graph M} {old new : Node M}

/-- Entry `k` has id `k + 1`, no other router's record has a negative metric, and the router's own entry
    lists its neighbours. -/
structure GraphSound (this : LocalNode M) (own : Fin maxNodeNum) (g : Graph M) : Prop where
  id : ∀ k, (g k).id = (k : ℕ) + 1
  nonneg : ∀ k ≠ own, (g k).state = .nodeSeen → ∀ i : Fin maxNodeFan,
    ((i : ℕ) : ℤ) < (g k).nNeighbours → 0 ≤ (g k).linkMetrics i
  seen : (g own).state = .nodeSeen
  covers : Covers this.node (g own)

/-- Every other router's subnets stay listed. -/
def StaysListed (own : Fin maxNodeNum) (g g' : Graph M) : Prop :=
  ∀ k ≠ own, (g k).state = .nodeSeen → (g' k).state = .nodeSeen ∧ Covers (g k) (g' k)

/-- A subnet of the router's own links, or one that another router's record lists. -/
def KnownSubnet (this : LocalNode M) (own : Fin maxNodeNum) (g : Graph M) (net : Ip) : Prop :=
  HasSubnet this.node net ∨ ∃ k ≠ own, (g k).state = .nodeSeen ∧ HasSubnet (g k) net

/-- What becomes of entry `k`: it stays, it is marked as opaque, or a received record replaces it. -/
inductive EntryWritten (this : LocalNode M) (k : Fin maxNodeNum) (old : Node M) : Node M → Prop where
  | same : EntryWritten this k old old
  | marked (new : Node M) (hold : old.state ≠ .nodeSeen) (hnew : new.state ≠ .nodeSeen)
      (id : new.id = old.id) : EntryWritten this k old new
  | taken (new : Node M) (takes : Takes old new) (ok : Acceptable this k old new) :
      EntryWritten this k old new

omit [Zero M] [LE M] in
theorem StaysListed.trans {g'' : Graph M} (h : StaysListed own g g') (h' : StaysListed own g' g'') :
    StaysListed own g g'' := by
  intro k hk hs
  obtain ⟨hs', hcovers⟩ := h k hk hs
  exact (h' k hk hs').imp_right hcovers.trans

omit [Zero M] [LE M] in
/-- A known subnet is listed, and stays known. -/
theorem KnownSubnet.stays {net : Ip} (h : KnownSubnet this own g net) (ht : SameRouter this this')
    (hg : StaysListed own g g') : KnownSubnet this' own g' net := by
  rcases h with h | ⟨k, hk, hs, h⟩
  · exact Or.inl (ht.covers.hasSubnet h)
  · obtain ⟨hs', hcovers⟩ := hg k hk hs
    exact Or.inr ⟨k, hk, hs', hcovers.hasSubnet h⟩

theorem KnownSubnet.listed {net : Ip} (h : KnownSubnet this own g net) (hg : GraphSound this own g) :
    ListedSubnet g net := by
  rcases h with h | ⟨k, -, hs, h⟩
  · exact ⟨own, hg.seen, hg.covers.hasSubnet h⟩
  · exact ⟨k, hs, h⟩

theorem GraphSound.of_sameRouter (hg : GraphSound this own g) (ht : SameRouter this this') :
    GraphSound this' own g :=
  ⟨hg.id, hg.nonneg, hg.seen, ht.symm.covers.trans hg.covers⟩

theorem EntryWritten.id (h : EntryWritten this k old new) (hold : old.id = (k : ℕ) + 1) :
    new.id = (k : ℕ) + 1 := by
  cases h with
  | same => exact hold
  | marked _ _ _ hid => exact hid.trans hold
  | taken _ _ ok => exact ok.id

theorem EntryWritten.seen (h : EntryWritten this k old new) (hold : old.state = .nodeSeen) :
    new.state = .nodeSeen ∧ Covers old new := by
  cases h with
  | same => exact ⟨hold, .refl _⟩
  | marked _ hnot => exact absurd hold hnot
  | taken _ takes ok => exact ⟨(takes.advances.later hold).1, ok.covers hold⟩

theorem EntryWritten.nonneg (h : EntryWritten this k old new) (hk : this.node.id ≠ (k : ℕ) + 1)
    (hold : old.state = .nodeSeen → ∀ i : Fin maxNodeFan, ((i : ℕ) : ℤ) < old.nNeighbours →
      0 ≤ old.linkMetrics i) (hs : new.state = .nodeSeen) (i : Fin maxNodeFan)
    (hi : ((i : ℕ) : ℤ) < new.nNeighbours) : 0 ≤ new.linkMetrics i := by
  cases h with
  | same => exact hold hs i hi
  | marked _ _ hnot => exact absurd hs hnot
  | taken _ _ ok => exact ok.nonneg hk hs i hi

/-- A write of the graph that gives the router's own entry its links keeps the graph sound. -/
theorem GraphSound.write (hg : GraphSound this own g) (hid : this.node.id = (own : ℕ) + 1)
    (hown : (g' own).id = (own : ℕ) + 1 ∧ (g' own).state = .nodeSeen ∧ Covers this.node (g' own))
    (hother : ∀ k ≠ own, EntryWritten this k (g k) (g' k)) :
    GraphSound this own g' ∧ StaysListed own g g' := by
  refine ⟨⟨fun k => ?_, fun k hk hs => ?_, hown.2.1, hown.2.2⟩, fun k hk hs => (hother k hk).seen hs⟩
  · rcases eq_or_ne k own with rfl | hk
    · exact hown.1
    · exact (hother k hk).id (hg.id k)
  · refine (hother k hk).nonneg ?_ (hg.nonneg k hk) hs
    rw [hid]
    exact fun heq => hk (Fin.ext (by omega))

/-- Where every entry is written so, the router's own keeps its links. -/
theorem GraphSound.merge (hg : GraphSound this own g) (hid : this.node.id = (own : ℕ) + 1)
    (h : ∀ k, EntryWritten this k (g k) (g' k)) : GraphSound this own g' ∧ StaysListed own g g' := by
  obtain ⟨hseen, hcovers⟩ := (h own).seen hg.seen
  exact hg.write hid ⟨(h own).id (hg.id own), hseen, hg.covers.trans hcovers⟩ fun k _ => h k

end Known

section Writes
variable {M : Type} [Field M] [LinearOrder M] {this : LocalNode M} {own : Fin maxNodeNum}
  {g g' : Graph M}

theorem markedEntry_written (r : Node M) (k : Fin maxNodeNum) (old : Node M) :
    EntryWritten this k old (markedEntry r k old) := by
  by_cases hc : old.state = .nodeUnseen ∧ r.Lists k
  · rw [markedEntry, if_pos hc]
    exact .marked _ (by simp [hc.1]) (by simp) rfl
  · rw [markedEntry, if_neg hc]
    exact .same

theorem mergeInNode_written {r : Node M} {u : Bool} (hr : ∀ k : Fin maxNodeNum,
      r.id = (k : ℕ) + 1 → Takes (g k) r → Acceptable this k (g k) r)
    (h : mergeInNode g r = .ok (g', u)) (j : Fin maxNodeNum) : EntryWritten this j (g j) (g' j) := by
  by_cases hs : r.state = .nodeUnseen
  · rw [mergeInNode, if_pos hs] at h
    cases h
    exact .same
  · obtain ⟨k, hid, hg'⟩ := mergeInNode_merged hs h
    rw [hg' j]
    rcases eq_or_ne j k with rfl | hjk
    · rw [Function.update_self]
      by_cases htakes : Takes (g j) r
      · rw [mergedEntry, if_pos htakes, markedEntry, if_neg fun hc => hs hc.1]
        exact .taken r htakes (hr j hid htakes)
      · rw [mergedEntry, if_neg htakes]
        exact markedEntry_written r j (g j)
    · rw [Function.update_of_ne hjk]
      exact markedEntry_written r j (g j)

theorem mergeInGraph_written {others : Graph M} {u : Bool}
    (hr : ∀ k, Takes (g k) (others k) → Acceptable this k (g k) (others k))
    (h : mergeInGraph g others = .ok (g', u)) (k : Fin maxNodeNum) :
    EntryWritten this k (g k) (g' k) := by
  obtain ⟨out, hout, h⟩ := bind_ok_iff.mp h
  cases h
  dsimp only
  rcases mergeEntry_takes (fill_ok_iff.mp hout k) with hkeep | ⟨htake, htakes⟩
  · rw [hkeep]
    exact .same
  · rw [htake]
    exact .taken _ htakes (hr k htakes)

variable [Libm M]

theorem updateGlobalThis_written {b : Build} {p : HistParams M} {t t' : LocalNode M} {now : ℕ}
    {k : Fin maxNodeNum} (hk : t.node.id ≠ (k : ℕ) + 1) (hid : (g k).id = (k : ℕ) + 1)
    (h : updateGlobalThis b p g t now = .ok (g', t')) : EntryWritten this k (g k) (g' k) := by
  obtain ⟨⟨j, hj⟩, hb⟩ := updateGlobalThis_bounds h
  rw [updateGlobalThis_eq hj hb] at h
  cases h
  have hkj : k ≠ j := fun heq => hk (by rw [heq, hj])
  simp only [Function.update_of_ne hkj]
  split
  · rename_i hc
    exact .marked _ (by simp [hc.1]) (by simp) hid.symm
  · exact .same

theorem GraphSound.updateGlobalThis {b : Build} {p : HistParams M} {t t' : LocalNode M} {now : ℕ}
    (hg : GraphSound this own g) (hid : this.node.id = (own : ℕ) + 1) (ht : SameRouter this t)
    (hs : this.node.state = .nodeSeen) (h : updateGlobalThis b p g t now = .ok (g', t')) :
    GraphSound this own g' ∧ StaysListed own g g' := by
  have hself : t.node.id = (own : ℕ) + 1 := ht.id.trans hid
  obtain ⟨hown, ht'⟩ := updateGlobalThis_own (ht.state.trans hs) hself h
  refine hg.write hid ⟨?_, ?_, ?_⟩ fun k hk => ?_
  · rw [hown, ht', localNodeUpdateMetrics_id, hself]
  · rw [hown, ht', localNodeUpdateMetrics_state, ht.state, hs]
  · rw [hown, ht']
    exact (ht.trans (localNodeUpdateMetrics_sameLinks t now).sameRouter).covers
  · refine updateGlobalThis_written (fun heq => hk (Fin.ext ?_)) (hg.id k) h
    rw [hself] at heq
    omega

variable {S : Setup M}

/-- A write of an iteration without an LSA. -/
theorem GraphWrite.sound {a : Active M} {t : LocalNode M} (hw : GraphWrite S a t g g')
    (hlsa : ¬a.IsLsa) (hg : GraphSound this own g) (hid : this.node.id = (own : ℕ) + 1)
    (ht : SameRouter this t) (hs : this.node.state = .nodeSeen) :
    GraphSound this own g' ∧ StaysListed own g g' := by
  cases hw with
  | same => exact ⟨hg, fun k _ hk => ⟨hk, .refl _⟩⟩
  | own t1 t2 now _ links call => exact hg.updateGlobalThis hid (ht.trans links.sameRouter) hs call
  | node lsa source u _ event => exact absurd (by rw [event]; trivial) hlsa
  | graph others u _ event => exact absurd (by rw [event]; trivial) hlsa

variable [FloorRing M]

/-- An iteration that receives an acceptable LSA, or none, keeps the graph sound. -/
theorem Steps.graphSound {ev : Event M} {s s' : Daemon M} (h : Steps S s ev s')
    (hid : s.this.node.id = (own : ℕ) + 1) (hs : s.this.node.state = .nodeSeen)
    (hlsa : LsaAcceptable { before := s, event := ev, after := s' })
    (hg : GraphSound s.this own s.graph) :
    GraphSound s'.this own s'.graph ∧ StaysListed own s.graph s'.graph := by
  refine And.imp_left (fun hg' => GraphSound.of_sameRouter hg' h.sameRouter) ?_
  have hroutes := h.routes
  by_cases hev : ev.active.IsLsa
  · unfold LsaAcceptable at hlsa
    cases ha : ev.active with
    | routerLsa lsa source =>
      rw [ha] at hroutes hlsa
      obtain ⟨⟨u, hm⟩, -⟩ := hroutes
      exact hg.merge hid (mergeInNode_written hlsa hm)
    | networkLsa others =>
      rw [ha] at hroutes hlsa
      obtain ⟨⟨u, hm⟩, -⟩ := hroutes
      exact hg.merge hid (mergeInGraph_written hlsa hm)
    | _ => rw [ha] at hev; exact hev.elim
  · obtain ⟨t, g, hlinks, hw1, hw2, -⟩ := h.writes
    have heffect := linkEffect_sameRouter ev.active s.this
    obtain ⟨hg1, hstays1⟩ := hw1.sound hev hg hid heffect hs
    obtain ⟨hg2, hstays2⟩ := hw2.sound hev hg1 hid (heffect.trans hlinks.sameRouter) hs
    exact ⟨hg2, hstays1.trans hstays2⟩

end Writes

/-! ### Tables -/

section Tables
variable {M : Type} {this this' : LocalNode M} {own : Fin maxNodeNum} {g g' : Graph M}
  {hops : HopTable} {derived : List KernelRoute}

/-- Every next hop of the table is a neighbour, and its route goes to a known subnet. -/
def TableGood (this : LocalNode M) (own : Fin maxNodeNum) (g : Graph M) (hops : HopTable) : Prop :=
  ∀ d, (hops d).nextHop ≠ -1 →
    (∃ i : Fin maxNodeFan, ((i : ℕ) : ℤ) < this.node.nNeighbours ∧
      this.node.neighbourIds i = (hops d).nextHop) ∧
    KnownSubnet this own g ((hops d).destIp &&& netmask)

/-- A route through a neighbour to a known subnet. -/
structure KnownRoute (this : LocalNode M) (own : Fin maxNodeNum) (g : Graph M) (r : KernelRoute) :
    Prop where
  gateway : r.gateway ∈ neighbourAddrs this.node
  dst : KnownSubnet this own g r.dst

def zeroRoute : KernelRoute := { dst := 0, gateway := 0, metric := 0 }

theorem TableGood.stays (h : TableGood this own g hops) (ht : SameRouter this this')
    (hg : StaysListed own g g') : TableGood this' own g' hops := by
  intro d hd
  obtain ⟨hnb, hknown⟩ := h d hd
  rw [ht.nNeighbours, ht.neighbourIds]
  exact ⟨hnb, hknown.stays ht hg⟩

theorem KnownRoute.stays {r : KernelRoute} (h : KnownRoute this own g r) (ht : SameRouter this this')
    (hg : StaysListed own g g') : KnownRoute this' own g' r :=
  ⟨by rw [ht.addrs]; exact h.gateway, h.dst.stays ht hg⟩

theorem KnownRoute.good [Zero M] [LE M] {s : Daemon M} {r : KernelRoute}
    (h : KnownRoute s.this own s.graph r) (hg : GraphSound s.this own s.graph) :
    GoodRoute s r.dst r.gateway :=
  ⟨h.gateway, h.dst.listed hg⟩

/-- The routes that are derived from a good table. -/
theorem TableGood.knownRoute (h : TableGood this own g hops) (hd : derivedRoutes this hops = .ok derived)
    {r : KernelRoute} (hr : r ∈ derived) : KnownRoute this own g r := by
  obtain ⟨i, rt, hne, hrt, rfl⟩ := (mem_derivedRoutes hd).mp hr
  obtain ⟨hne', hleft⟩ := filterNextHops_of_ne hne
  obtain ⟨hnb, hknown⟩ := h i hne'
  rw [hleft] at hrt
  obtain ⟨hdst, hgateway⟩ := deriveRtentry_gateway hrt hne' hnb
  refine ⟨hgateway, ?_⟩
  rw [show rt.route.dst = _ from hdst]
  exact hknown

/-- The table that `memset` leaves gives one route, with all its fields 0. -/
theorem derivedRoutes_hopZero (hids : ∀ i : Fin maxNodeFan, ((i : ℕ) : ℤ) < this.node.nNeighbours →
      1 ≤ this.node.neighbourIds i) (hd : derivedRoutes this (fun _ => hopZero) = .ok derived) :
    zeroRoute ∈ derived ∧ ∀ r ∈ derived, r = zeroRoute := by
  have hzero : ∀ i rt, (filterNextHops (fun _ => hopZero) i).nextHop ≠ -1 →
      deriveRtentry this (filterNextHops (fun _ => hopZero) i) = .ok rt → rt.route = zeroRoute := by
    intro i rt hne hrt
    rw [(filterNextHops_of_ne hne).2] at hrt
    rw [deriveRtentry_zero hrt fun j hj heq => ?_]
    · rfl
    · have := hids j hj
      rw [heq] at this
      exact absurd this (by decide)
  obtain ⟨routes, hroutes, -⟩ := bind_ok_iff.mp hd
  have hfirst : (filterNextHops (fun _ => hopZero) 0).nextHop ≠ -1 := by decide
  have hroute := fill_ok_iff.mp hroutes 0
  refine ⟨(mem_derivedRoutes hd).mpr ⟨0, routes 0, hfirst, hroute, hzero 0 _ hfirst hroute⟩, ?_⟩
  intro r hr
  obtain ⟨i, rt, hne, hrt, rfl⟩ := (mem_derivedRoutes hd).mp hr
  exact hzero i rt hne hrt

/-- A path-finding from the router's own entry fills in a good table. -/
theorem pathfind_good [Field M] [LinearOrder M] [FloorRing M] [IsStrictOrderedRing M] {b : Build}
    (hg : GraphSound this own g) (hown : g own = this.node)
    (h : pathfind b g ((own : ℕ) + 1) = .ok hops) : TableGood this own g hops := by
  intro d hd
  obtain ⟨⟨x, hx, i, hi, hid⟩, k, j, hs, hj, hip⟩ :=
    pathfind_sources ⟨hg.id, hg.seen, hg.nonneg⟩ h d hd
  rw [hown] at hi hid
  refine ⟨⟨i, hi, by rw [hid, hx]⟩, ?_⟩
  have hsub : HasSubnet (g k) ((hops d).destIp &&& netmask) := ⟨j, hj, by rw [hip]⟩
  rcases eq_or_ne k own with rfl | hk
  · rw [hown] at hsub
    exact Or.inl hsub
  · exact Or.inr ⟨k, hk, hs, hsub⟩

end Tables

/-! ### Runs -/

section Runs
variable {M : Type}

def Active.IsIdle : Active M → Prop
  | .idle => True
  | _ => False

instance (a : Active M) : Decidable a.IsIdle :=
  match a with
  | .idle => .isTrue trivial
  | .heartbeat _ | .routerLsa _ _ | .routerLsaSndTimer | .networkLsa _ | .networkLsaRequest _
  | .replayTimer | .recomputationTimer | .timer _ => .isFalse id

theorem Active.isIdle_iff {a : Active M} : a.IsIdle ↔ a = .idle := by cases a <;> simp [IsIdle]

/-- The step recomputes the next hops: the recomputation timer has expired, or the event changes the
    status of a link. -/
def Recomputes (st : Trace.Step (Daemon M) (Event M)) : Prop :=
  match st.event.active with
  | .recomputationTimer => True
  | a => (linkEffect a st.before.this).node.linkStatuses ≠ st.before.this.node.linkStatuses

instance (st : Trace.Step (Daemon M) (Event M)) : Decidable (Recomputes st) := by
  unfold Recomputes; split <;> infer_instance

/-- The last call of `update_routing_table` was given the table that `memset` has left: there was no
    recomputation before that step. -/
def InitialTable (tr : List (Trace.Step (Daemon M) (Event M))) : Prop :=
  Trace.Since (fun pre st => ¬st.event.active.IsIdle ∧ ∀ before ∈ pre, ¬Recomputes before)
    (fun st => ¬st.event.active.IsIdle) tr

instance (tr : List (Trace.Step (Daemon M) (Event M))) : Decidable (InitialTable tr) := by
  unfold InitialTable; infer_instance

theorem initialTable_idle {tr : List (Trace.Step (Daemon M) (Event M))}
    {st : Trace.Step (Daemon M) (Event M)} (h : st.event.active.IsIdle) :
    InitialTable (tr ++ [st]) ↔ InitialTable tr := by
  unfold InitialTable
  rw [Trace.since_snoc]
  simp [h]

theorem initialTable_call {tr : List (Trace.Step (Daemon M) (Event M))}
    {st : Trace.Step (Daemon M) (Event M)} (h : ¬st.event.active.IsIdle) :
    InitialTable (tr ++ [st]) ↔ ∀ before ∈ tr, ¬Recomputes before := by
  unfold InitialTable
  rw [Trace.since_snoc]
  simp [h]

variable [Field M] [LinearOrder M] [FloorRing M] [Libm M] {S : Setup M} {own : Fin maxNodeNum}
  {tr : List (Trace.Step (Daemon M) (Event M))} {s s' : Daemon M} {ev : Event M}

/-- What a step does to the next hops: a recomputation finds paths from the router's own record, and any
    other step leaves them. -/
theorem Steps.nextHops (h : Steps S s ev s') (hid : s.this.node.id = (own : ℕ) + 1)
    (hs : s.this.node.state = .nodeSeen) :
    (Recomputes { before := s, event := ev, after := s' } →
      pathfind S.build s'.graph ((own : ℕ) + 1) = .ok s'.nextHops ∧ s'.graph own = s'.this.node) ∧
    (¬Recomputes { before := s, event := ev, after := s' } → s'.nextHops = s.nextHops) := by
  have hroutes := h.routes
  have hlinks := h.links.linkStatuses
  have hid' : s'.this.node.id = (own : ℕ) + 1 := h.sameRouter.id.trans hid
  have hown := h.own hid hs
  unfold Recomputes
  rw [hid'] at hroutes
  cases ha : ev.active with
  | routerLsa lsa source =>
    rw [ha] at hroutes
    exact ⟨fun hne => absurd rfl hne, fun _ => hroutes.2⟩
  | networkLsa others =>
    rw [ha] at hroutes
    exact ⟨fun hne => absurd rfl hne, fun _ => hroutes.2⟩
  | recomputationTimer =>
    rw [ha] at hroutes hown
    rcases hown id with ⟨-, -, hne⟩ | ⟨-, hentry, -⟩
    · exact absurd rfl hne
    · exact ⟨fun _ => ⟨hroutes, hentry⟩, fun hn => absurd trivial hn⟩
  | _ =>
    rw [ha] at hroutes hlinks hown
    dsimp only
    rw [← hlinks]
    rcases hroutes with ⟨hpath, hchange⟩ | ⟨-, hsame, hkeep⟩
    · rcases hown id with ⟨-, hkeep, -⟩ | ⟨-, hentry, -⟩
      · exact absurd hkeep hchange
      · exact ⟨fun _ => ⟨hpath, hentry⟩, fun hn => absurd hchange hn⟩
    · exact ⟨fun hne => absurd hkeep hne, fun _ => hsame⟩

/-- The route tables in a run: until the first recomputation no route but that of zeros is installed, and
    afterwards only known ones are added. -/
structure RouteInv (own : Fin maxNodeNum) (tr : List (Trace.Step (Daemon M) (Event M)))
    (s : Daemon M) : Prop where
  sound : GraphSound s.this own s.graph
  noDup : NoDuplicates s.currRoutes
  table : ((∀ st ∈ tr, ¬Recomputes st) ∧ s.nextHops = (fun _ => hopZero) ∧
      ∀ r ∈ heldRoutes s.currRoutes, r = zeroRoute) ∨
    (∃ st ∈ tr, Recomputes st) ∧ TableGood s.this own s.graph s.nextHops
  initial : InitialTable tr → zeroRoute ∈ heldRoutes s.currRoutes
  held : ¬InitialTable tr → ∀ r ∈ heldRoutes s.currRoutes, KnownRoute s.this own s.graph r

omit [FloorRing M] [Libm M] in
/-- What a call of `update_routing_table` installs under the invariant. -/
theorem RouteInv.call (hinv : RouteInv own tr s) (hl : Linked S s.this) {curr : CurrRoutes}
    {calls : List Ioctl} (h : updateRoutingTable s.this s.nextHops s.currRoutes = .ok (curr, calls)) :
    NoDuplicates curr ∧
    ((∀ st ∈ tr, ¬Recomputes st) → zeroRoute ∈ heldRoutes curr ∧
      ∀ r ∈ heldRoutes curr, r = zeroRoute) ∧
    ((∃ st ∈ tr, Recomputes st) → (∀ r ∈ heldRoutes curr, KnownRoute s.this own s.graph r) ∧
      ∀ rt, .addRt rt ∈ calls → KnownRoute s.this own s.graph rt.route) := by
  obtain ⟨derived, hderived, hdup, hheld, -⟩ := updateRoutingTable_spec hinv.noDup h
  rw [hheld]
  simp only [Memory.mem_round]
  refine ⟨hdup, fun hnone => ?_, fun hsome => ?_⟩
  · rcases hinv.table with ⟨-, hhops, hzero⟩ | ⟨⟨st, hst, hrec⟩, -⟩
    · rw [hhops] at hderived
      obtain ⟨hmem, hall⟩ := derivedRoutes_hopZero (fun i hi => (hl.bounds.ids i hi).1) hderived
      refine ⟨⟨?_, hmem⟩, fun r hr => hall r hr.2⟩
      have hcard : (heldRoutes s.currRoutes).card ≤ 1 :=
        Finset.card_le_one.mpr fun r hr r' hr' => (hzero r hr).trans (hzero r' hr').symm
      cases derived with
      | nil => cases hmem
      | cons r rest =>
        rw [hall r List.mem_cons_self]
        exact Memory.mem_enterAll_cons (hcard.trans_lt (by decide))
    · exact absurd hrec (hnone st hst)
  · rcases hinv.table with ⟨hnone, -⟩ | ⟨-, hgood⟩
    · obtain ⟨st, hst, hrec⟩ := hsome
      exact absurd hrec (hnone st hst)
    · exact ⟨fun r hr => hgood.knownRoute hderived hr.2,
        fun rt hrt => hgood.knownRoute hderived (added_derived h hderived hrt)⟩

variable [IsStrictOrderedRing M]

/-- The invariant is kept, and what a step adds is known unless it is given the initial table. -/
theorem RouteInv.step (hinv : RouteInv own tr s) (hl : Linked S s.this)
    (hown : S.id = (own : ℕ) + 1) (h : Steps S s ev s')
    (hlsa : LsaAcceptable { before := s, event := ev, after := s' }) :
    RouteInv own (tr ++ [{ before := s, event := ev, after := s' }]) s' ∧
    (¬InitialTable (tr ++ [{ before := s, event := ev, after := s' }]) →
      ∀ rt, .addRt rt ∈ s'.ioctls.drop s.ioctls.length → KnownRoute s.this own s.graph rt.route) := by
  have hid : s.this.node.id = (own : ℕ) + 1 := hl.id.trans hown
  obtain ⟨hsound, hstays⟩ := h.graphSound hid hl.seen hlsa hinv.sound
  obtain ⟨hpath, hkeep⟩ := h.nextHops hid hl.seen
  -- the table after the step, given what is installed by then
  have htable : ((∀ st ∈ tr, ¬Recomputes st) → ∀ r ∈ heldRoutes s'.currRoutes, r = zeroRoute) →
      ((∀ st ∈ tr ++ [{ before := s, event := ev, after := s' }], ¬Recomputes st) ∧
        s'.nextHops = (fun _ => hopZero) ∧ ∀ r ∈ heldRoutes s'.currRoutes, r = zeroRoute) ∨
      (∃ st ∈ tr ++ [{ before := s, event := ev, after := s' }], Recomputes st) ∧
        TableGood s'.this own s'.graph s'.nextHops := by
    intro hzero
    by_cases hrec : Recomputes { before := s, event := ev, after := s' }
    · obtain ⟨hp, hentry⟩ := hpath hrec
      exact Or.inr ⟨⟨_, by simp, hrec⟩, pathfind_good hsound hentry hp⟩
    · rw [hkeep hrec]
      rcases hinv.table with ⟨hnone, hhops, -⟩ | ⟨⟨st, hst, hsome⟩, hgood⟩
      · refine Or.inl ⟨fun st hst => ?_, hhops, hzero hnone⟩
        rcases List.mem_append.mp hst with hst | hst
        · exact hnone st hst
        · rw [List.mem_singleton.mp hst]
          exact hrec
      · exact Or.inr ⟨⟨st, by simp [hst], hsome⟩, hgood.stays h.sameRouter hstays⟩
  rcases h.routing with ⟨hidle, hroutes, hioctls⟩ | ⟨hcall, calls, hupdate, hioctls⟩
  · have hsame : InitialTable (tr ++ [{ before := s, event := ev, after := s' }]) ↔
        InitialTable tr := initialTable_idle (Active.isIdle_iff.mpr hidle)
    refine ⟨⟨hsound, ?_, htable ?_, ?_, ?_⟩, fun _ rt hrt => ?_⟩
    · rw [hroutes]
      exact hinv.noDup
    · intro hnone
      rw [hroutes]
      rcases hinv.table with ⟨-, -, hzero⟩ | ⟨⟨st, hst, hrec⟩, -⟩
      · exact hzero
      · exact absurd hrec (hnone st hst)
    · rw [hsame, hroutes]
      exact hinv.initial
    · rw [hsame, hroutes]
      exact fun hn r hr => (hinv.held hn r hr).stays h.sameRouter hstays
    · rw [hioctls, List.drop_length] at hrt
      cases hrt
  · obtain ⟨hdup, hinitial, hlater⟩ := hinv.call hl hupdate
    rw [initialTable_call (fun hi => hcall (Active.isIdle_iff.mp hi))]
    have hsome : ¬(∀ st ∈ tr, ¬Recomputes st) → ∃ st ∈ tr, Recomputes st := fun hn => by
      simpa using hn
    refine ⟨⟨hsound, hdup, htable fun hnone => (hinitial hnone).2, ?_, ?_⟩, fun hn rt hrt => ?_⟩
    · rw [initialTable_call (fun hi => hcall (Active.isIdle_iff.mp hi))]
      exact fun hnone => (hinitial hnone).1
    · rw [initialTable_call (fun hi => hcall (Active.isIdle_iff.mp hi))]
      exact fun hn r hr => ((hlater (hsome hn)).1 r hr).stays h.sameRouter hstays
    · rw [hioctls, List.drop_left] at hrt
      exact (hlater (hsome hn)).2 rt hrt

omit [FloorRing M] [IsStrictOrderedRing M] in
theorem startUp_graphSound (hown : S.id = (own : ℕ) + 1) (h : startUp S = .ok s) :
    GraphSound s.this own s.graph := by
  have hother := fun k (hk : S.id ≠ ((k : Fin maxNodeNum) : ℕ) + 1) => startUp_untouched hk h
  obtain ⟨t, ht, h⟩ := bind_ok_iff.mp h
  obtain ⟨⟨g, t'⟩, hg, h⟩ := bind_ok_iff.mp h
  cases h
  obtain ⟨-, hid, hseen, -⟩ := localNodeInit_ok ht
  obtain ⟨hentry, ht'⟩ := updateGlobalThis_own hseen (hid.trans hown) hg
  have hne : ∀ k ≠ own, S.id ≠ (k : ℕ) + 1 := fun k hk heq => hk (Fin.ext (by omega))
  refine ⟨fun k => ?_, fun k hk hs => absurd hs (hother k (hne k hk)), ?_, ?_⟩
  · rcases eq_or_ne k own with rfl | hk
    · exact (congrArg Node.id hentry).trans (by rw [ht', localNodeUpdateMetrics_id, hid, hown])
    · have hwritten : EntryWritten t k (graphInit S.graph k) (g k) :=
        updateGlobalThis_written (hid ▸ hne k hk) rfl hg
      exact hwritten.id rfl
  · exact (congrArg Node.state hentry).trans (by rw [ht', localNodeUpdateMetrics_state, hseen])
  · exact hentry ▸ Covers.refl t'.node

omit [FloorRing M] [IsStrictOrderedRing M] in
theorem startUp_routeInv (hown : S.id = (own : ℕ) + 1) (h : startUp S = .ok s) :
    RouteInv own [] s := by
  obtain ⟨hhops, -, -, hroutes, -⟩ := startUp_started h
  have hempty : ∀ r, r ∉ heldRoutes s.currRoutes := by
    intro r hr
    rw [hroutes] at hr
    obtain ⟨i, hi, -⟩ := mem_held.mp hr
    cases hi
  exact ⟨startUp_graphSound hown h, fun i j hi => (by rw [hroutes] at hi; cases hi),
    Or.inl ⟨by simp, hhops, fun r hr => absurd hr (hempty r)⟩,
    fun hinit => absurd hinit Trace.not_since_nil, fun _ r hr => absurd hr (hempty r)⟩

/-- The gateways and destinations of the routes, over every run that receives acceptable LSAs: they are
    right in every state, except from a call that was given the initial table up to the next call. -/
theorem routes_through_neighbours (hrun : Run S tr s)
    (hlsa : Trace.Along (fun _ st => LsaAcceptable st) tr) :
    Trace.Along (fun pre st => (¬InitialTable (pre ++ [st]) → RoutesOk st) ∧
      (0 ∉ neighbourAddrs st.after.this.node → RoutesOk st → ¬InitialTable (pre ++ [st]))) tr := by
  obtain ⟨own, hown⟩ := hrun.linked.self
  refine (Trace.Run.invariant (I := fun tr s => Trace.Along (fun _ st => LsaAcceptable st) tr →
    RouteInv own tr s ∧ Trace.Along (fun pre st => (¬InitialTable (pre ++ [st]) → RoutesOk st) ∧
      (0 ∉ neighbourAddrs st.after.this.node → RoutesOk st → ¬InitialTable (pre ++ [st]))) tr)
    ?_ ?_ hrun hlsa).2
  · exact fun s h0 _ => ⟨startUp_routeInv hown h0, Trace.along_nil⟩
  · intro tr s ev s' hr ih hstep hlsa
    obtain ⟨hbefore, hlast⟩ := Trace.along_snoc.mp hlsa
    obtain ⟨hinv, hall⟩ := ih hbefore
    obtain ⟨hinv', hadded⟩ := hinv.step (Run.linked hr) hown hstep hlast
    refine ⟨hinv', Trace.along_snoc.mpr ⟨hall, fun hn => ⟨fun rt hrt => ?_, fun i hi => ?_⟩, ?_⟩⟩
    · exact (hadded hn rt hrt).good hinv.sound
    · exact (hinv'.held hn _ (mem_held.mpr ⟨i, hi, rfl⟩)).good hinv'.sound
    · intro hzero hok hinit
      obtain ⟨i, hi, hroute⟩ := mem_held.mp (hinv'.initial hinit)
      have hgateway := (hok.current i hi).gateway
      rw [show (s'.currRoutes i).gateway = 0 from congrArg KernelRoute.gateway hroute] at hgateway
      exact hzero hgateway

end Runs

/-- When the LSA of router 2 arrives, the routes are those found when the link came up. -/
theorem routes_through_neighbours_found : ∃ tr s, Run (twoLinks .lsr id (pure false)) tr s ∧
    tr.map Trace.Step.event = neighbourFound true ∧ ∃ pre st, tr = pre ++ [st] ∧ RoutesOk st := by
  obtain ⟨tr, s, hrun, hevents, hlsa, hinit⟩ := exists_run (S := twoLinks .lsr id (pure false))
    (neighbourFound true) (P := fun tr => Trace.Along (fun _ st => LsaAcceptable st) tr ∧
      ¬InitialTable tr) (by decide +kernel)
  refine ⟨tr, s, hrun, hevents, ?_⟩
  rcases List.eq_nil_or_concat tr with rfl | ⟨pre, st, rfl⟩
  · cases hevents
  · rw [List.concat_eq_append] at *
    exact ⟨pre, st, rfl, (routes_through_neighbours hrun hlsa pre st [] rfl).1 hinit⟩

/-- The first event of a run installs the route of zeros. -/
theorem routes_from_unset_table : ¬∀ (S : Setup ℚ) (tr : List (Trace.Step (Daemon ℚ) (Event ℚ)))
    (s : Daemon ℚ), Run S tr s → Trace.Along (fun _ st => RoutesOk st) tr := by
  intro h
  obtain ⟨tr, s, hrun, -, st, hst, hexists, hgateway⟩ :=
    exists_run (S := twoLinks .lsr id (pure false)) [quietly (.heartbeat (inetAddr 10 0 0 2))]
      (P := fun tr => ∃ st ∈ tr, (st.after.currRoutes 0).rtExists = true ∧
        (st.after.currRoutes 0).gateway ∉ neighbourAddrs st.after.this.node) (by decide +kernel)
  obtain ⟨pre, post, rfl⟩ := List.append_of_mem hst
  exact hgateway ((h _ _ s hrun pre st post rfl).current 0 hexists).gateway

end Dtlsr
