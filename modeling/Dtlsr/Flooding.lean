import Mathlib.Algebra.BigOperators.Fin
import Mathlib.Algebra.Order.BigOperators.Group.Finset
import Dtlsr.Database

/-!
    Flooding stops. A network of routers, each with its database and its clock, exchanges router LSAs
    that may be lost, delayed, reordered and delivered any number of times, and merges network LSAs. A
    router that has passed on an LSA holds a seen record of its origin that is at least as late, and
    keeps such a record from then on; so it never passes on that LSA again. -/

namespace Dtlsr
open Checked

/-- The routers of a network, the copies of router LSAs sent so far, and what is not in the program:
    the LSAs that their origins sent, the records produced (those, and the entries that
    `update_global_this` wrote), and for each LSA passed on the router with the LSA's id and time. -/
structure Network (M : Type) where
  store : Fin maxNodeNum → Store M
  sent : Sent M
  originated : List (Node M)
  produced : List (Node M)
  refloods : List (Fin maxNodeNum × ℤ × ℕ)

/-- What a router can do. -/
inductive Act (M : Type) where
  /-- it sends its own LSA -/
  | originate
  | receiveRouterLsa (lsa : Node M) (source : Ip)
  | receiveNetworkLsa (others : Graph M)
  | updateGlobalThis
  | links (this : LocalNode M)
  | tick (now : ℕ)

section Steps
variable {M : Type} [Field M] [DecidableEq M] [Libm M] (b : Build) (p : HistParams M)

def Act.apply (a : Fin maxNodeNum × Act M) (net : Network M) : Exec (Network M) :=
  let v := a.1
  let s := net.store v
  match a.2 with
  | .originate =>
    let this := localNodeUpdateMetrics b p s.this s.clock
    pure
      { net with
        store := Function.update net.store v { s with this }
        sent := net.sent ++ sendRouterLsa this.node this.node
        originated := net.originated ++ [this.node]
        produced := net.produced ++ [this.node] }
  | .receiveRouterLsa lsa source => do
    let (graph, updated, out) ← Dtlsr.receiveRouterLsa s.graph s.this lsa source
    pure
      { net with
        store := Function.update net.store v { s with graph }
        sent := net.sent ++ out
        refloods :=
          if updated then net.refloods ++ [(v, lsa.id, lsa.timestamp)] else net.refloods }
  | .receiveNetworkLsa others => do
    let (graph, _) ← Dtlsr.receiveNetworkLsa s.graph others
    pure { net with store := Function.update net.store v { s with graph } }
  | .updateGlobalThis => do
    let (graph, this) ← Dtlsr.updateGlobalThis b p s.graph s.this s.clock
    pure
      { net with
        store := Function.update net.store v { s with graph, this }
        produced := net.produced ++ [this.node] }
  | .links this => pure { net with store := Function.update net.store v { s with this } }
  | .tick now => pure { net with store := Function.update net.store v { s with clock := now } }

/-- A router LSA that is received has been sent, a seen record of a network LSA has been produced by
    its origin, and a clock does not go back. -/
def Act.Allowed (net : Network M) (a : Fin maxNodeNum × Act M) : Prop :=
  match a.2 with
  | .originate => True
  | .receiveRouterLsa lsa _ => ∃ m ∈ net.sent, m.2 = .routerLsa lsa
  | .receiveNetworkLsa others => ∀ k, (others k).state = .nodeSeen →
      others k ∈ net.produced ∧ (others k).id = (k : ℕ) + 1
  | .updateGlobalThis => True
  | .links this => SameRouter (net.store a.1).this this
  | .tick now => (net.store a.1).clock ≤ now

/-- Every router has been set up, and nothing has been sent. -/
structure Network.Fresh (net : Network M) : Prop where
  router : ∀ v, (net.store v).Fresh ∧ (net.store v).this.node.id = (v : ℕ) + 1
  sent : net.sent = []
  originated : net.originated = []
  produced : net.produced = []
  refloods : net.refloods = []

/-- The runs of a network. -/
abbrev NetworkRun : List (Trace.Step (Network M) (Fin maxNodeNum × Act M)) → Network M → Prop :=
  Trace.Run Network.Fresh fun net a net' => Act.Allowed net a ∧ Act.apply b p a net = .ok net'

end Steps

/-! ### Counting copies -/

section Counting
variable {M : Type}

/-- The number of links of router `v`. -/
def Network.degree (net : Network M) (v : Fin maxNodeNum) : ℕ :=
  (neighbourAddrs (net.store v).this.node).length

theorem sendRouterLsaExcept_length (this lsa : Node M) (source : Ip) :
    (sendRouterLsaExcept this lsa source).length ≤ (neighbourAddrs this).length := by
  rw [sendRouterLsaExcept, List.length_map]
  exact List.length_filter_le _ _

theorem mem_sendRouterLsaExcept {this lsa : Node M} {source : Ip} {m : Ip × Message M}
    (h : m ∈ sendRouterLsaExcept this lsa source) : m.2 = .routerLsa lsa := by
  rw [sendRouterLsaExcept, List.mem_map] at h
  obtain ⟨ip, -, rfl⟩ := h
  rfl

theorem SameRouter.addrs {t t' : LocalNode M} (h : SameRouter t t') :
    neighbourAddrs t'.node = neighbourAddrs t.node := by
  rw [neighbourAddrs, neighbourAddrs, h.nNeighbours, h.neighbourIps]

/-- Pairwise different pairs, with second components from a list of `m`: a weight of the first
    components sums up to at most `m` times its sum over all of them. -/
theorem sum_weights_le {α κ : Type} [Fintype α] [DecidableEq α] [DecidableEq κ] {l : List (α × κ)}
    {keys : List κ} (hnd : l.Nodup) (hkeys : ∀ e ∈ l, e.2 ∈ keys) (w : α → ℕ) :
    (l.map fun e => w e.1).sum ≤ keys.length * ∑ a, w a := by
  have hsub : l.toFinset ⊆ Finset.univ ×ˢ keys.toFinset := by
    intro e he
    rw [Finset.mem_product]
    exact ⟨Finset.mem_univ _, List.mem_toFinset.mpr (hkeys e (List.mem_toFinset.mp he))⟩
  calc (l.map fun e => w e.1).sum = ∑ e ∈ l.toFinset, w e.1 := (List.sum_toFinset _ hnd).symm
    _ ≤ ∑ e ∈ Finset.univ ×ˢ keys.toFinset, w e.1 := Finset.sum_le_sum_of_subset hsub
    _ = keys.toFinset.card * ∑ a, w a := by
      rw [Finset.sum_product]
      simp only [Finset.sum_const, smul_eq_mul, Finset.mul_sum]
    _ ≤ keys.length * ∑ a, w a := Nat.mul_le_mul_right _ (List.toFinset_card_le keys)

end Counting

/-! ### The invariant -/

section Invariant
variable {M : Type} {net net' : Network M} {v : Fin maxNodeNum}

/-- A record's id and time. -/
def lsaKey (r : Node M) : ℤ × ℕ := (r.id, r.timestamp)

/-- `r` has been produced by a router of its id, and is not from that router's future. -/
def Network.Genuine (net : Network M) (r : Node M) : Prop :=
  r.state = .nodeSeen ∧
    ∃ v : Fin maxNodeNum, r.id = (v : ℕ) + 1 ∧ r.timestamp ≤ (net.store v).clock

structure Network.Flooded (net : Network M) : Prop where
  id : ∀ v, (net.store v).this.node.id = (v : ℕ) + 1
  timely : ∀ v, (net.store v).Timely
  sent : ∀ m ∈ net.sent, ∃ r ∈ net.originated, m.2 = .routerLsa r
  originated : ∀ r ∈ net.originated, net.Genuine r
  produced : ∀ r ∈ net.produced, net.Genuine r
  /-- a router that has passed on an LSA has a record that is as late -/
  passedOn : ∀ e ∈ net.refloods, ∃ k : Fin maxNodeNum, e.2.1 = (k : ℕ) + 1 ∧
    ((net.store e.1).graph k).state = .nodeSeen ∧ e.2.2 ≤ ((net.store e.1).graph k).timestamp
  keys : ∀ e ∈ net.refloods, e.2 ∈ net.originated.map lsaKey
  once : net.refloods.Nodup
  copies : net.sent.length ≤ net.originated.length * ∑ v, net.degree v +
    (net.refloods.map fun e => net.degree e.1).sum

theorem Network.Fresh.flooded (h : net.Fresh) : net.Flooded where
  id v := (h.router v).2
  timely v := (h.router v).1.timely
  sent := by simp [h.sent]
  originated := by simp [h.originated]
  produced := by simp [h.produced]
  passedOn := by simp [h.refloods]
  keys := by simp [h.refloods]
  once := by simp [h.refloods]
  copies := by simp [h.sent]

/-- An LSA in flight has been produced by its origin. -/
theorem Network.Flooded.genuine (hnet : net.Flooded) {m : Ip × Message M} (hm : m ∈ net.sent)
    {lsa : Node M} (hlsa : m.2 = .routerLsa lsa) : lsa ∈ net.originated ∧ net.Genuine lsa := by
  obtain ⟨r, hr, hmr⟩ := hnet.sent m hm
  rw [hlsa] at hmr
  cases hmr
  exact ⟨hr, hnet.originated _ hr⟩

theorem Network.Genuine.own {r : Node M} (h : net.Genuine r) (hid : r.id = (v : ℕ) + 1) :
    r.timestamp ≤ (net.store v).clock := by
  obtain ⟨-, w, hw, ht⟩ := h
  obtain rfl : w = v := Fin.ext (by omega)
  exact ht

theorem Network.Genuine.mono {r : Node M} (h : net.Genuine r)
    (hclock : ∀ w, (net.store w).clock ≤ (net'.store w).clock) : net'.Genuine r := by
  obtain ⟨hs, w, hw, ht⟩ := h
  exact ⟨hs, w, hw, ht.trans (hclock w)⟩

/-- The databases move forward; what a router holds of an origin whose LSA it has passed on only gets
    later. -/
theorem Network.Flooded.moved (hnet : net.Flooded) {store : Fin maxNodeNum → Store M}
    (hmoves : ∀ w, (net.store w).Moves (store w) ∧ (store w).Timely) :
    Network.Flooded { net with store } where
  id w := (hmoves w).1.router.id.trans (hnet.id w)
  timely w := (hmoves w).2
  sent := hnet.sent
  originated r hr := (hnet.originated r hr).mono fun w => (hmoves w).1.clock
  produced r hr := (hnet.produced r hr).mono fun w => (hmoves w).1.clock
  passedOn e he := by
    obtain ⟨k, hk, hs, ht⟩ := hnet.passedOn e he
    have hback := (hmoves e.1).1.notBack k
    exact ⟨k, hk, hback.seen hs, ht.trans (hback.timestamp hs)⟩
  keys := hnet.keys
  once := hnet.once
  copies := by
    have hdegree : Network.degree { net with store } = net.degree := by
      funext w
      rw [Network.degree, Network.degree, (hmoves w).1.router.addrs]
    rw [hdegree]
    exact hnet.copies

theorem Network.Flooded.produce (hnet : net.Flooded) {r : Node M} (hr : net.Genuine r) :
    Network.Flooded { net with produced := net.produced ++ [r] } where
  id := hnet.id
  timely := hnet.timely
  sent := hnet.sent
  originated := hnet.originated
  produced r' hr' := by
    rcases List.mem_append.mp hr' with hr' | hr'
    · exact hnet.produced r' hr'
    · obtain rfl := List.mem_singleton.mp hr'
      exact hr
  passedOn := hnet.passedOn
  keys := hnet.keys
  once := hnet.once
  copies := hnet.copies

/-- A router sends an LSA of its own, over each of its links at most once. -/
theorem Network.Flooded.originate (hnet : net.Flooded) {r : Node M} (hr : net.Genuine r)
    {out : Sent M} (hout : ∀ m ∈ out, m.2 = .routerLsa r) (hlen : out.length ≤ net.degree v) :
    Network.Flooded { net with originated := net.originated ++ [r], sent := net.sent ++ out } where
  id := hnet.id
  timely := hnet.timely
  sent m hm := by
    rcases List.mem_append.mp hm with hm | hm
    · obtain ⟨r', hr', hmr⟩ := hnet.sent m hm
      exact ⟨r', List.mem_append_left _ hr', hmr⟩
    · exact ⟨r, List.mem_append_right _ (List.mem_singleton_self r), hout m hm⟩
  originated r' hr' := by
    rcases List.mem_append.mp hr' with hr' | hr'
    · exact hnet.originated r' hr'
    · obtain rfl := List.mem_singleton.mp hr'
      exact hr
  produced := hnet.produced
  passedOn := hnet.passedOn
  keys e he := by
    rw [List.map_append]
    exact List.mem_append_left _ (hnet.keys e he)
  once := hnet.once
  copies := by
    have hcopies := hnet.copies
    have hlinks : net.degree v ≤ ∑ w, net.degree w :=
      Finset.single_le_sum (fun _ _ => Nat.zero_le _) (Finset.mem_univ v)
    rw [List.length_append, List.length_append, List.length_singleton, Nat.add_mul, Nat.one_mul]
    change _ ≤ net.originated.length * (∑ w, net.degree w) + (∑ w, net.degree w) +
      (net.refloods.map fun e => net.degree e.1).sum
    omega

/-- A router passes on an LSA for the first time, and has a record of the origin that is as late. -/
theorem Network.Flooded.passOn (hnet : net.Flooded) {lsa : Node M} (hlsa : lsa ∈ net.originated)
    (hnew : (v, lsaKey lsa) ∉ net.refloods) {k : Fin maxNodeNum} (hk : lsa.id = (k : ℕ) + 1)
    (hs : ((net.store v).graph k).state = .nodeSeen)
    (ht : lsa.timestamp ≤ ((net.store v).graph k).timestamp)
    {out : Sent M} (hout : ∀ m ∈ out, m.2 = .routerLsa lsa) (hlen : out.length ≤ net.degree v) :
    Network.Flooded
      { net with refloods := net.refloods ++ [(v, lsaKey lsa)], sent := net.sent ++ out } where
  id := hnet.id
  timely := hnet.timely
  sent m hm := by
    rcases List.mem_append.mp hm with hm | hm
    · exact hnet.sent m hm
    · exact ⟨lsa, hlsa, hout m hm⟩
  originated := hnet.originated
  produced := hnet.produced
  passedOn e he := by
    rcases List.mem_append.mp he with he | he
    · exact hnet.passedOn e he
    · obtain rfl := List.mem_singleton.mp he
      exact ⟨k, hk, hs, ht⟩
  keys e he := by
    rcases List.mem_append.mp he with he | he
    · exact hnet.keys e he
    · obtain rfl := List.mem_singleton.mp he
      exact List.mem_map_of_mem hlsa
  once := List.nodup_append.mpr ⟨hnet.once, List.nodup_singleton _, fun e he e' he' heq => by
    obtain rfl := List.mem_singleton.mp he'
    exact hnew (heq ▸ he)⟩
  copies := by
    have hcopies := hnet.copies
    rw [List.length_append, List.map_append, List.sum_append]
    change _ ≤ net.originated.length * (∑ w, net.degree w) +
      ((net.refloods.map fun e => net.degree e.1).sum + (net.degree v + 0))
    omega

end Invariant

/-! ### One step -/

/-- A router passes on an LSA that is later than all it had of the origin, and then has that LSA. -/
theorem passes_on {M : Type} [DecidableEq M] {g g' : Graph M} {r : Node M} (hs : r.state = .nodeSeen)
    (h : mergeInNode g r = .ok (g', true)) : ∃ k : Fin maxNodeNum, r.id = (k : ℕ) + 1 ∧
      ((g k).state = .nodeSeen → (g k).timestamp < r.timestamp) ∧ g' k = r := by
  obtain ⟨k, hid, hu, hk, -, -⟩ := mergeInNode_entries hs h
  have hsup : Supersedes (g k) r := by simpa using hu
  refine ⟨k, hid, fun hold => ?_, by rw [hk]; exact if_pos (Or.inl hsup)⟩
  rcases hsup.2 with hn | ⟨hlt, -⟩
  · exact absurd hold hn
  · exact hlt

section Step
variable {M : Type} [Field M] [DecidableEq M] [Libm M] {b : Build} {p : HistParams M}

/-- What an act does to the database of the router. -/
def Act.change (b : Build) (p : HistParams M) (a : Act M) (s : Store M) : Change M :=
  match a with
  | .originate => .links (localNodeUpdateMetrics b p s.this s.clock)
  | .receiveRouterLsa lsa _ => .mergeInNode lsa
  | .receiveNetworkLsa others => .mergeInGraph others
  | .updateGlobalThis => .updateGlobalThis
  | .links this => .links this
  | .tick now => .tick now

variable {net net' : Network M} {v : Fin maxNodeNum} {a : Act M}

theorem Act.apply_store (h : Act.apply b p (v, a) net = .ok net') : ∃ s',
    (a.change b p (net.store v)).apply b p (net.store v) = .ok s' ∧
      net'.store = Function.update net.store v s' := by
  cases a with
  | receiveRouterLsa lsa source =>
    obtain ⟨⟨g, u, out⟩, hout, h⟩ := bind_ok_iff.mp h
    obtain ⟨⟨g', u'⟩, hm, hout⟩ := bind_ok_iff.mp hout
    cases hout
    cases h
    refine ⟨{ net.store v with graph := g }, ?_, rfl⟩
    simp only [Act.change, Change.apply, hm, ok_bind, pure_eq_ok]
  | receiveNetworkLsa others =>
    obtain ⟨⟨g, u⟩, hm, h⟩ := bind_ok_iff.mp h
    cases h
    refine ⟨{ net.store v with graph := g }, ?_, rfl⟩
    rw [Dtlsr.receiveNetworkLsa] at hm
    simp only [Act.change, Change.apply, hm, ok_bind, pure_eq_ok]
  | updateGlobalThis =>
    obtain ⟨⟨g, t⟩, hm, h⟩ := bind_ok_iff.mp h
    cases h
    refine ⟨{ net.store v with graph := g, this := t }, ?_, rfl⟩
    simp only [Act.change, Change.apply, hm, ok_bind, pure_eq_ok]
  | originate | links _ | tick _ =>
    cases h
    exact ⟨_, rfl, rfl⟩

omit [DecidableEq M] in
theorem Act.allowed_change (hnet : net.Flooded) (hA : Act.Allowed net (v, a)) :
    (a.change b p (net.store v)).Allowed (net.store v) := by
  cases a with
  | originate => exact ⟨rfl, rfl, rfl, rfl, rfl⟩
  | receiveRouterLsa lsa source =>
    obtain ⟨m, hm, hlsa⟩ := hA
    obtain ⟨-, hgen⟩ := hnet.genuine hm hlsa
    exact ⟨hgen.1, fun hid => hgen.own (hid.trans (hnet.id v))⟩
  | receiveNetworkLsa others =>
    intro k hk hs
    obtain ⟨hprod, hid⟩ := hA k hs
    exact (hnet.produced _ hprod).own (by rw [hid, ← hk, hnet.id v])
  | updateGlobalThis => trivial
  | links this => exact hA
  | tick now => exact hA

/-- A step moves the databases of all routers forward. -/
theorem Act.moves (hnet : net.Flooded) (hA : Act.Allowed net (v, a))
    (h : Act.apply b p (v, a) net = .ok net') (w : Fin maxNodeNum) :
    (net.store w).Moves (net'.store w) ∧ (net'.store w).Timely := by
  obtain ⟨s', hs', hstore⟩ := Act.apply_store h
  have hallowed := Act.allowed_change (b := b) (p := p) hnet hA
  rw [hstore]
  by_cases hw : w = v
  · subst hw
    rw [Function.update_self]
    exact ⟨Change.moves (hnet.timely w) hallowed hs', Change.timely (hnet.timely w) hallowed hs'⟩
  · rw [Function.update_of_ne hw]
    exact ⟨.refl _, hnet.timely w⟩

/-- What a step of router `v` adds to the lists. -/
inductive Adds (v : Fin maxNodeNum) (net net' : Network M) : Prop where
  | nothing (originated : net'.originated = net.originated) (produced : net'.produced = net.produced)
      (refloods : net'.refloods = net.refloods) (sent : net'.sent = net.sent)
  /-- the router's own LSA -/
  | own (r : Node M) (id : r.id = ((v : ℕ) : ℤ) + 1) (seen : r.state = .nodeSeen)
      (timestamp : r.timestamp = (net.store v).clock)
      (originated : net'.originated = net.originated ++ [r])
      (produced : net'.produced = net.produced ++ [r]) (refloods : net'.refloods = net.refloods)
      (sent : net'.sent = net.sent ++ sendRouterLsa (net.store v).this.node r)
  /-- the router's own entry -/
  | entry (r : Node M) (id : r.id = ((v : ℕ) : ℤ) + 1) (seen : r.state = .nodeSeen)
      (timestamp : r.timestamp = (net.store v).clock) (originated : net'.originated = net.originated)
      (produced : net'.produced = net.produced ++ [r]) (refloods : net'.refloods = net.refloods)
      (sent : net'.sent = net.sent)
  /-- an LSA that the router passes on -/
  | passedOn (lsa : Node M) (source : Ip) (origin : lsa ∈ net.originated) (seen : lsa.state = .nodeSeen)
      (merge : mergeInNode (net.store v).graph lsa = .ok ((net'.store v).graph, true))
      (originated : net'.originated = net.originated) (produced : net'.produced = net.produced)
      (refloods : net'.refloods = net.refloods ++ [(v, lsaKey lsa)])
      (sent : net'.sent = net.sent ++ sendRouterLsaExcept (net.store v).this.node lsa source)

theorem Act.adds (hnet : net.Flooded) (hA : Act.Allowed net (v, a))
    (h : Act.apply b p (v, a) net = .ok net') : Adds v net net' := by
  have hid := hnet.id v
  have hseen := (hnet.timely v).seen
  cases a with
  | originate =>
    cases h
    exact .own (localNodeUpdateMetrics b p (net.store v).this (net.store v).clock).node hid hseen rfl
      rfl rfl rfl rfl
  | receiveRouterLsa lsa source =>
    obtain ⟨m, hm, hlsa⟩ := hA
    obtain ⟨horig, hgen⟩ := hnet.genuine hm hlsa
    obtain ⟨⟨g, u, out⟩, hout, h⟩ := bind_ok_iff.mp h
    obtain ⟨⟨g', u'⟩, hmerge, hout⟩ := bind_ok_iff.mp hout
    cases hout
    cases h
    cases u with
    | false => exact .nothing rfl rfl rfl (List.append_nil _)
    | true =>
      refine .passedOn lsa source horig hgen.1 ?_ rfl rfl rfl rfl
      simp only [Function.update_self]
      exact hmerge
  | receiveNetworkLsa others =>
    obtain ⟨⟨g, u⟩, -, h⟩ := bind_ok_iff.mp h
    cases h
    exact .nothing rfl rfl rfl rfl
  | updateGlobalThis =>
    obtain ⟨⟨g, t⟩, hg, h⟩ := bind_ok_iff.mp h
    cases h
    obtain ⟨-, rfl⟩ := updateGlobalThis_own hseen hid hg
    exact .entry (localNodeUpdateMetrics b p (net.store v).this (net.store v).clock).node hid hseen
      rfl rfl rfl rfl rfl
  | links _ | tick _ =>
    cases h
    exact .nothing rfl rfl rfl rfl

/-- The invariant is kept: the databases move forward, and then the lists grow. -/
theorem Network.Flooded.step (hnet : net.Flooded) (hA : Act.Allowed net (v, a))
    (h : Act.apply b p (v, a) net = .ok net') : net'.Flooded := by
  have hmoves := Act.moves hnet hA h
  have hadds := Act.adds hnet hA h
  obtain ⟨store, sent, originated, produced, refloods⟩ := net'
  have hmoved := hnet.moved hmoves
  have hdegree : Network.degree { net with store } v = net.degree v := by
    rw [Network.degree, Network.degree, (hmoves v).1.router.addrs]
  have hown : ∀ r : Node M, r.id = ((v : ℕ) : ℤ) + 1 → r.state = .nodeSeen →
      r.timestamp = (net.store v).clock → Network.Genuine { net with store } r :=
    fun r hid hs ht => ⟨hs, v, hid, by rw [ht]; exact (hmoves v).1.clock⟩
  cases hadds with
  | nothing horig hprod hre hsent =>
    cases horig; cases hprod; cases hre; cases hsent
    exact hmoved
  | own r hr hs ht horig hprod hre hsent =>
    cases horig; cases hprod; cases hre; cases hsent
    refine (hmoved.originate (v := v) (hown r hr hs ht) (fun m hm => mem_sendRouterLsaExcept hm)
      ?_).produce (hown r hr hs ht)
    rw [hdegree]
    exact sendRouterLsaExcept_length _ _ _
  | entry r hr hs ht horig hprod hre hsent =>
    cases horig; cases hprod; cases hre; cases hsent
    exact hmoved.produce (hown r hr hs ht)
  | passedOn lsa source hlsa hs hmerge horig hprod hre hsent =>
    cases horig; cases hprod; cases hre; cases hsent
    obtain ⟨k, hk, hlater, htaken⟩ := passes_on hs hmerge
    -- a router that had passed it on before would hold a record as late as the LSA
    have hnew : (v, lsaKey lsa) ∉ net.refloods := by
      intro he
      obtain ⟨k', hk', hold, hle⟩ := hnet.passedOn _ he
      obtain rfl : k = k' := Fin.ext (by simp only [lsaKey] at hk'; omega)
      exact absurd (hlater hold) (Nat.not_lt.mpr hle)
    refine hmoved.passOn (v := v) hlsa hnew hk (by rw [htaken]; exact hs) (by rw [htaken])
      (fun m hm => mem_sendRouterLsaExcept hm) ?_
    rw [hdegree]
    exact sendRouterLsaExcept_length _ _ _

/-- Flooding stops: no router passes on the LSA of one origin and time twice, and so the routers send
    at most `2 * m` copies over each of their links because of `m` LSAs. -/
theorem flooding_stops {tr : List (Trace.Step (Network M) (Fin maxNodeNum × Act M))}
    (hrun : NetworkRun b p tr net) : net.refloods.Nodup ∧
      net.sent.length ≤ 2 * net.originated.length * ∑ v, net.degree v := by
  have hnet : net.Flooded := by
    refine hrun.invariant (I := fun _ net => net.Flooded) (fun _ h0 => h0.flooded) ?_
    rintro _ _ ⟨v, a⟩ _ _ hnet ⟨hA, h⟩
    exact hnet.step hA h
  refine ⟨hnet.once, ?_⟩
  have hpassed := sum_weights_le hnet.once hnet.keys net.degree
  rw [List.length_map] at hpassed
  have hcopies := hnet.copies
  rw [Nat.mul_assoc, Nat.two_mul]
  omega

end Step

/-! ### A triangle of routers -/

instance (net : Network ℚ) (a : Fin maxNodeNum × Act ℚ) : Decidable (Act.Allowed net a) := by
  unfold Act.Allowed
  split <;> infer_instance

/-- Routers 1, 2 and 3 are neighbours of each other; the others have the same neighbours, and nothing
    to do. -/
def triangle : Network ℚ where
  store v :=
    { graph := graphInit fun _ => zeroNode
      this :=
        { zeroLocalNode with
          node :=
            { zeroNode with
              id := (v : ℕ) + 1
              state := .nodeSeen
              nNeighbours := 2
              neighbourIps := fun i => inetAddr 10 0 0 ((v + i + 1) % 3 + 1)
              neighbourIds := fun i => ((((v : ℕ) + i + 1) % 3 : ℕ) : ℤ) + 1 } }
      clock := 1 }
  sent := []
  originated := []
  produced := []
  refloods := []

def lsaOfOne : Node ℚ := (localNodeUpdateMetrics .lsr default (triangle.store 0).this 1).node

/-- The LSA of router 1 goes round the triangle both ways, and comes back to it. -/
def aroundTriangle : List (Fin maxNodeNum × Act ℚ) :=
  [(0, .originate), (1, .receiveRouterLsa lsaOfOne (inetAddr 10 0 0 1)),
    (2, .receiveRouterLsa lsaOfOne (inetAddr 10 0 0 2)),
    (2, .receiveRouterLsa lsaOfOne (inetAddr 10 0 0 1)), (0, .tick 3), (0, .updateGlobalThis),
    (1, .receiveRouterLsa lsaOfOne (inetAddr 10 0 0 3)),
    (0, .receiveRouterLsa lsaOfOne (inetAddr 10 0 0 3))]

theorem flooding_stops_triangle : ∃ tr net, NetworkRun .lsr {} tr net ∧
    tr.map Trace.Step.event = aroundTriangle ∧ net.refloods.Nodup ∧
      net.sent.length ≤ 2 * net.originated.length * ∑ v, net.degree v := by
  have hfresh : triangle.Fresh := ⟨fun v => ⟨⟨rfl, fun _ => zeroNode, rfl⟩, rfl⟩, rfl, rfl, rfl, rfl⟩
  obtain ⟨tr, net, hrun, hevents, -⟩ := Trace.exists_follow (A := Act.Allowed) (f := Act.apply .lsr {})
    hfresh aroundTriangle (P := fun _ => True) (by decide +kernel)
  exact ⟨tr, net, hrun, hevents, flooding_stops hrun⟩

end Dtlsr
