import Dtlsr.Backtrace
import Dtlsr.KernelRoutes

/-!
    The routes that `update_routing_table` installs after a path-finding. A destination is addressed by
    the subnet of the last link of its path, and the predecessors are a tree: no link is the last one of
    the paths to both of its ends. So where each link has a subnet of its own, each subnet is the
    destination of one entry. -/

namespace Dtlsr
open Checked Walks

/-- Two addresses of neighbours are in one /24 only if they belong to one link: to the same neighbour in the
    same record, or to the two ends that name each other. -/
def LinkSubnets {M : Type} (graph : Graph M) : Prop :=
  ∀ k l, (graph k).state = .nodeSeen → (graph l).state = .nodeSeen → ∀ i j : Fin maxNodeFan,
    ((i : ℕ) : ℤ) < (graph k).nNeighbours → ((j : ℕ) : ℤ) < (graph l).nNeighbours →
      (graph k).neighbourIps i &&& netmask = (graph l).neighbourIps j &&& netmask →
        k = l ∧ (graph k).neighbourIds i = (graph l).neighbourIds j ∨
          (graph k).neighbourIds i = (l : ℕ) + 1 ∧ (graph l).neighbourIds j = (k : ℕ) + 1

/-! ### The gateway of an entry -/

/-- The route through the first slot that lists the next hop. -/
theorem deriveRtentry_of_first {M : Type} {this : LocalNode M} {graph : Graph M}
    {src x : Fin maxNodeNum} {i : Fin maxNodeFan} {hop : HopDest} (hthis : graph src = this.node)
    (hi : ListsFirst graph src x i) (hhop : hop.nextHop = (x : ℕ) + 1) :
    deriveRtentry this hop = .ok { dst := hop.destIp, gateway := this.node.neighbourIps i
                                   genmask := netmask, metric := hop.metric } := by
  obtain ⟨hused, hid, hfirst⟩ := hi
  rw [hthis] at hused hid hfirst
  have hfound := firstIdx_eq_some (n := this.node.nNeighbours)
    (p := fun i => do pure (decide ((← read this.node.neighbourIds i) = hop.nextHop))) hused
    (by rw [read_of_lt _ i.isLt, ok_bind, hid, hhop]; simp) fun m hm => by
      have hm6 : m < maxNodeFan := hm.trans i.isLt
      rw [read_of_lt _ hm6, ok_bind, hhop]
      simp [hfirst ⟨m, hm6⟩ (Fin.mk_lt_of_lt_val hm)]
  rw [deriveRtentry, if_neg (by rw [hhop]; omega), hfound, ok_bind]
  dsimp only
  rw [read_of_lt _ i.isLt]
  rfl

/-! ### One gateway per subnet -/

section Gateways
variable {M : Type} [Ring M] [LinearOrder M] [FloorRing M] [IsStrictOrderedRing M]

/-- After a path-finding no two routes have one destination and different gateways, and every gateway is
    the address of the neighbour that is the next hop. -/
theorem one_gateway_per_subnet (b : Build) {graph : Graph M} {src : Fin maxNodeNum}
    {this : LocalNode M} (hg : PathInput graph) (hlinks : LinkSubnets graph)
    (hsrc : (graph src).state = .nodeSeen) (hthis : graph src = this.node) :
    ∃ hops routes, pathfind b graph this.node.id = .ok hops ∧
      deriveRtentries this (filterNextHops hops) = .ok routes ∧
      (∀ d, (filterNextHops hops d).nextHop ≠ -1 →
        (routes d).dst = (hops d).destIp &&& netmask ∧ ∃ i : Fin maxNodeFan,
          ((i : ℕ) : ℤ) < this.node.nNeighbours ∧
          this.node.neighbourIds i = (filterNextHops hops d).nextHop ∧
          (routes d).gateway = this.node.neighbourIps i) ∧
      ∀ d d', (filterNextHops hops d).nextHop ≠ -1 → (filterNextHops hops d').nextHop ≠ -1 →
        (routes d).dst = (routes d').dst → (routes d).gateway = (routes d').gateway := by
  obtain ⟨nodes, hops, done, -, htable, h, -, htraced, hnone⟩ := pathfind_tree b hg hsrc
  have hfan : this.node.FanOk := hthis ▸ (hg.bounds src hsrc).fan
  choose routes hroutes using fun d => deriveRtentry_returns hfan (filterNextHops hops d)
  -- an entry that is left is traced along its chain
  have hentry : ∀ d, (filterNextHops hops d).nextHop ≠ -1 → ∃ p l x, predOf nodes d = some p ∧
      Chain (predOf nodes) src l d ∧ TracedHop graph src d (hops d) l x p := by
    intro d hd
    have hne := (filterNextHops_of_ne hd).1
    have hst : (graph d).state ≠ .nodeUnseen := by
      intro hun
      rw [hnone d (Or.inl hun)] at hne
      exact hne rfl
    cases hp : predOf nodes d with
    | none => rw [hnone d (Or.inr hp)] at hne; exact absurd rfl hne
    | some p =>
      obtain ⟨l, hch, hnd, -⟩ := h.labels.chain d (Or.inr (by rw [hp]; rfl))
      obtain ⟨x, hhop⟩ := htraced d p hst hp l hch hnd
      exact ⟨p, l, x, rfl, hch, hhop⟩
  have hroute : ∀ d, (filterNextHops hops d).nextHop ≠ -1 →
      (routes d).dst = (hops d).destIp &&& netmask ∧ ∃ i : Fin maxNodeFan,
        ((i : ℕ) : ℤ) < this.node.nNeighbours ∧
        this.node.neighbourIds i = (filterNextHops hops d).nextHop ∧
        (routes d).gateway = this.node.neighbourIps i := by
    intro d hd
    obtain ⟨p, l, x, hp, hch, hhop⟩ := hentry d hd
    have hleft := (filterNextHops_of_ne hd).2
    obtain ⟨rest, hl⟩ := hhop.head
    have hlist := h.links hg hch
    rw [hl, List.isChain_cons_cons] at hlist
    obtain ⟨⟨-, -, i, -, hi⟩, -⟩ := hlist
    have hnext : (filterNextHops hops d).nextHop = (x : ℕ) + 1 := by rw [hleft]; exact hhop.nextHop
    have hok := (hroutes d).symm.trans (deriveRtentry_of_first hthis hi hnext)
    rw [Except.ok.inj hok]
    refine ⟨by rw [hleft], i, ?_, ?_, rfl⟩
    · rw [← hthis]; exact hi.used
    · rw [← hthis, hi.id, hnext]
  refine ⟨hops, routes, ?_, fill_ok_iff.mpr hroutes, hroute, fun d d' hd hd' hdst => ?_⟩
  · rw [← hthis, hg.ids src]
    exact htable
  · obtain ⟨p, l, x, hp, hch, hhop⟩ := hentry d hd
    obtain ⟨p', l', x', hp', -, hhop'⟩ := hentry d' hd'
    obtain ⟨i, hi, hip⟩ := hhop.destIp
    obtain ⟨i', hi', hip'⟩ := hhop'.destIp
    rw [(hroute d hd).1, (hroute d' hd').1, hip, hip'] at hdst
    obtain ⟨⟨w, e, -⟩, -⟩ := h.labels.step d p hp
    obtain ⟨⟨w', e', -⟩, -⟩ := h.labels.step d' p' hp'
    rcases hlinks p p' e.seen e'.seen i i' hi.used hi'.used hdst with ⟨-, hsame⟩ | ⟨hto, hback⟩
    · have : d = d' := by
        rw [hi.id, hi'.id] at hsame
        exact Fin.ext (by omega)
      rw [this]
    · -- the link would be the last one in both directions
      have h1 : d = p' := by rw [hi.id] at hto; exact Fin.ext (by omega)
      have h2 : d' = p := by rw [hi'.id] at hback; exact Fin.ext (by omega)
      subst h1 h2
      exact absurd hp' (hch.pred_asymm hp)

end Gateways

theorem pentagon_links : LinkSubnets pentagon := by unfold LinkSubnets; decide +kernel

/-- The router that is node 1 of the pentagon. -/
def pentagonRouter : LocalNode ℤ :=
  { node := pentagon 0, timers := zeroLocalNode.timers, lsTimeSeries := zeroLocalNode.lsTimeSeries
    interfaces := zeroLocalNode.interfaces }

theorem one_gateway_pentagon : ∃ hops routes, pathfind .dtlsr pentagon 1 = .ok hops ∧
    deriveRtentries pentagonRouter (filterNextHops hops) = .ok routes ∧
    ∀ d d', (filterNextHops hops d).nextHop ≠ -1 → (filterNextHops hops d').nextHop ≠ -1 →
      (routes d).dst = (routes d').dst → (routes d).gateway = (routes d').gateway := by
  obtain ⟨hops, routes, htable, hroutes, -, hone⟩ := one_gateway_per_subnet .dtlsr
    pentagon_input pentagon_links (show (pentagon 0).state = .nodeSeen by decide)
    (show pentagon 0 = pentagonRouter.node from rfl)
  exact ⟨hops, routes, htable, hroutes, hone⟩

end Dtlsr
