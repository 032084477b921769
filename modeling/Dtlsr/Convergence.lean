import Dtlsr.Lib.Flood
import Dtlsr.Stamps

/-!
    Routers on links that keep the order and lose nothing: what each sends over a link is received over
    it one after another. Then flooding converges, for every interleaving: as soon as no LSA of a router
    is on its way, all routers to which a path leads have its last LSA, with the present statuses of its
    links. The LSAs of one router run the protocol of `Lib/Flood`, with the clock as the stamp. A network
    LSA is not passed on, so one that brings news spoils this. -/

namespace Dtlsr
open Checked

/-! ### Routers and links -/

section Wired
variable {ι M : Type} [DecidableEq ι] [Field M] [LinearOrder M] [FloorRing M] [Libm M]

/-- The addresses of the neighbours in the configuration. -/
def Setup.dstAddrs {M : Type} [Field M] (S : Setup M) : List Ip := S.links.map LinkRow.dstAddr

/-- Which router has an address, and the address from which a router sends to one. -/
structure Wiring (ι : Type) where
  owner : Ip → ι
  via : ι → Ip → Ip

/-- The routers, and the router LSAs on their way from a router to an address. -/
structure Wired (ι M : Type) where
  net : ι → Daemon M
  wire : ι × Ip → List (Node M)

/-- An iteration of `router`; if it receives a router LSA, then from `link`. -/
structure Arrival (ι M : Type) where
  router : ι
  event : Event M
  link : ι × Ip

/-- The router LSAs among the messages that go to an address. -/
def lsasTo {M : Type} (ip : Ip) (out : Sent M) : List (Node M) :=
  out.filterMap fun m => match m.2 with
    | .routerLsa lsa => if m.1 = ip then some lsa else none
    | _ => none

/-- The links when the LSA has been taken off that has been received. -/
def afterReceipt {M : Type} (e : Arrival ι M) (wire : ι × Ip → List (Node M)) :
    ι × Ip → List (Node M) :=
  match e.event.active with
  | .routerLsa _ _ => Function.update wire e.link (wire e.link).tail
  | _ => wire

variable (S : ι → Setup M) (W : Wiring ι)

/-- What an event brings has been sent, and a router LSA is the next one on its link. -/
def WiredAllowed (s : Wired ι M) (e : Arrival ι M) : Prop :=
  Enabled (S e.router) e.event.active (s.net e.router) ∧
    match e.event.active with
    | .routerLsa lsa source => e.link.2 ∈ (S e.link.1).dstAddrs ∧ W.owner e.link.2 = e.router ∧
        W.via e.link.1 e.link.2 = source ∧ (s.wire e.link).head? = some lsa
    | a => WasSent s.net a

def wiredStep (e : Arrival ι M) (s : Wired ι M) : Exec (Wired ι M) := do
  let d ← iter (S e.router) e.event (s.net e.router)
  let out := d.sent.drop (s.net e.router).sent.length
  pure
    { net := Function.update s.net e.router d
      wire := fun l => afterReceipt e s.wire l ++ if l.1 = e.router then lsasTo l.2 out else [] }

/-- Each router has been started, and nothing is on its way. -/
def WiredStart (s : Wired ι M) : Prop :=
  (∀ i, startUp (S i) = .ok (s.net i)) ∧ s.wire = fun _ => []

/-- The runs of the routers, from where each has been started. -/
abbrev WiredRun : List (Trace.Step (Wired ι M) (Arrival ι M)) → Wired ι M → Prop :=
  Trace.Run (WiredStart S) fun s e s' => WiredAllowed S W s e ∧ wiredStep S e s = .ok s'

/-- A neighbour's address is not 0.0.0.0, and it can answer to the address from which it is sent to. -/
structure Wiring.Sound (W : Wiring ι) (S : ι → Setup M) : Prop where
  proper : ∀ i, ∀ ip ∈ (S i).dstAddrs, ip ≠ 0
  back : ∀ i, ∀ ip ∈ (S i).dstAddrs, W.owner (W.via i ip) = i

/-! ### What is sent -/

omit [DecidableEq ι] [Field M] [LinearOrder M] [FloorRing M] [Libm M] in
theorem mem_lsasTo {ip : Ip} {out : Sent M} {lsa : Node M} :
    lsa ∈ lsasTo ip out ↔ (ip, .routerLsa lsa) ∈ out := by
  unfold lsasTo
  rw [List.mem_filterMap]
  constructor
  · rintro ⟨⟨a, m⟩, hm, h⟩
    cases m with
    | routerLsa lsa' =>
      dsimp only at h
      split at h
      · rename_i ha
        rw [← ha, ← Option.some.inj h]
        exact hm
      · cases h
    | _ => cases h
  · intro h
    exact ⟨_, h, if_pos rfl⟩

omit [DecidableEq ι] [Field M] [LinearOrder M] [FloorRing M] [Libm M] in
theorem mem_sendRouterLsaExcept_iff {t lsa : Node M} {source ip : Ip} :
    (ip, .routerLsa lsa) ∈ sendRouterLsaExcept t lsa source ↔ ip ∈ neighbourAddrs t ∧ ip ≠ source := by
  unfold sendRouterLsaExcept
  simp

variable {S W}

/-- What a step does: an iteration of one router, whose messages go on the links. -/
theorem WiredRun.stepped {s s' : Wired ι M} {e : Arrival ι M}
    (h : WiredAllowed S W s e ∧ wiredStep S e s = .ok s') :
    Steps (S e.router) (s.net e.router) e.event (s'.net e.router) ∧
      (∀ j ≠ e.router, s'.net j = s.net j) ∧
      ∃ out, (s'.net e.router).sent = (s.net e.router).sent ++ out ∧
        Sending e.event.active (s.net e.router) (s'.net e.router) out ∧
        s'.wire = fun l => afterReceipt e s.wire l ++ if l.1 = e.router then lsasTo l.2 out else [] := by
  obtain ⟨⟨hen, -⟩, hstep⟩ := h
  obtain ⟨d, hd, hstep⟩ := bind_ok_iff.mp hstep
  obtain ⟨out, hout, hkind⟩ := Steps.sends ⟨hen, hd⟩
  cases hstep
  simp only [Function.update_self, hout, List.drop_left]
  exact ⟨⟨hen, hd⟩, fun j hj => Function.update_of_ne hj _ _, out, rfl, hkind, rfl⟩

/-- The same step, without the links. -/
def Trace.Step.routers {ι M : Type} (st : Trace.Step (Wired ι M) (Arrival ι M)) :
    Trace.Step (ι → Daemon M) (ι × Event M) where
  before := st.before.net
  event := (st.event.router, st.event.event)
  after := st.after.net

omit [Field M] [LinearOrder M] [FloorRing M] [Libm M] in
/-- One more step of all routers, as router `j` sees it. -/
theorem stepsOf_routers_snoc {tr : List (Trace.Step (Wired ι M) (Arrival ι M))} {s s' : Wired ι M}
    {e : Arrival ι M} (j : ι) :
    stepsOf j ((tr ++ [Trace.Step.mk s e s']).map Trace.Step.routers) =
      stepsOf j (tr.map Trace.Step.routers) ++
        if e.router = j then [{ before := s.net j, event := e.event, after := s'.net j }] else [] := by
  rw [List.map_append]
  exact stepsOf_snoc j

/-- What is on a link has been sent by the router at its beginning. -/
def Wired.AllSent {ι M : Type} (s : Wired ι M) : Prop :=
  ∀ l, ∀ lsa ∈ s.wire l, (l.2, .routerLsa lsa) ∈ (s.net l.1).sent

omit [Field M] [LinearOrder M] [FloorRing M] [Libm M] in
theorem afterReceipt_lsa {e : Arrival ι M} {lsa : Node M} {source : Ip}
    (h : e.event.active = .routerLsa lsa source) (wire : ι × Ip → List (Node M)) :
    afterReceipt e wire = Function.update wire e.link (wire e.link).tail := by
  simp only [afterReceipt, h]

omit [Field M] [LinearOrder M] [FloorRing M] [Libm M] in
theorem afterReceipt_other {e : Arrival ι M} (h : e.event.active.NoRouterLsa)
    (wire : ι × Ip → List (Node M)) : afterReceipt e wire = wire := by
  unfold afterReceipt
  cases ha : e.event.active with
  | routerLsa lsa source => exact absurd ha (h lsa source)
  | _ => rfl

omit [Field M] [LinearOrder M] [FloorRing M] [Libm M] in
theorem mem_of_afterReceipt {e : Arrival ι M} {wire : ι × Ip → List (Node M)} {l : ι × Ip}
    {lsa : Node M} (h : lsa ∈ afterReceipt e wire l) : lsa ∈ wire l := by
  by_cases ha : e.event.active.NoRouterLsa
  · rwa [afterReceipt_other ha] at h
  · simp only [Active.NoRouterLsa, not_forall, not_not] at ha
    obtain ⟨lsa', source, ha⟩ := ha
    rw [afterReceipt_lsa ha] at h
    by_cases hl : l = e.link
    · rw [hl, Function.update_self] at h
      rw [hl]
      exact List.mem_of_mem_tail h
    · rwa [Function.update_of_ne hl] at h

theorem WiredRun.allSent {tr : List (Trace.Step (Wired ι M) (Arrival ι M))} {s : Wired ι M}
    (hrun : WiredRun S W tr s) : s.AllSent := by
  refine hrun.invariant (I := fun _ s => s.AllSent) ?_ ?_
  · intro s h0 l lsa hlsa
    rw [h0.2] at hlsa
    cases hlsa
  · intro tr s e s' _ hs h l lsa hlsa
    obtain ⟨-, hother, out, hout, -, hwire⟩ := WiredRun.stepped h
    rw [hwire] at hlsa
    have hkeep : ∀ m ∈ (s.net l.1).sent, m ∈ (s'.net l.1).sent := by
      intro m hm
      by_cases hl : l.1 = e.router
      · rw [hl] at hm ⊢
        rw [hout]
        exact List.mem_append_left _ hm
      · rwa [hother _ hl]
    rcases List.mem_append.mp hlsa with hlsa | hlsa
    · exact hkeep _ (hs l lsa (mem_of_afterReceipt hlsa))
    · split at hlsa
      · rename_i hl
        rw [hl, hout]
        exact List.mem_append_right _ (mem_lsasTo.mp hlsa)
      · cases hlsa

/-- Without the links it is a run of the fleet. -/
theorem WiredRun.fleet {tr : List (Trace.Step (Wired ι M) (Arrival ι M))} {s : Wired ι M}
    (hrun : WiredRun S W tr s) : FleetRun S (tr.map Trace.Step.routers) s.net := by
  refine hrun.invariant (I := fun tr s => FleetRun S (tr.map Trace.Step.routers) s.net)
    (fun s h0 => .start h0.1) ?_
  intro tr s e s' hr ih h
  rw [List.map_append]
  have hsent : WasSent s.net e.event.active := by
    obtain ⟨⟨-, hbrings⟩, -⟩ := h
    cases ha : e.event.active with
    | routerLsa lsa source =>
      rw [ha] at hbrings
      exact ⟨e.link.1, _, WiredRun.allSent hr e.link lsa (List.mem_of_mem_head? hbrings.2.2.2), rfl⟩
    | _ =>
      rw [ha] at hbrings
      exact hbrings
  obtain ⟨⟨hen, -⟩, hstep⟩ := h
  refine ih.step ⟨⟨hen, hsent⟩, ?_⟩
  obtain ⟨d, hd, hstep⟩ := bind_ok_iff.mp hstep
  cases hstep
  simp only [fleetStep, hd, ok_bind, pure_eq_ok]

/-! ### The addresses -/

omit [DecidableEq ι] [Field M] [LinearOrder M] [FloorRing M] [Libm M] in
theorem mem_neighbourAddrs {t : Node M} {ip : Ip} : ip ∈ neighbourAddrs t ↔
    ∃ i : Fin maxNodeFan, ((i : ℕ) : ℤ) < t.nNeighbours ∧ t.neighbourIps i = ip := by
  simp [neighbourAddrs]

omit [DecidableEq ι] [LinearOrder M] [FloorRing M] [Libm M] in
theorem localNodeInit_addrs {S : Setup M} {t : LocalNode M} {now : ℕ}
    (h : localNodeInit S now = .ok t) (ip : Ip) : ip ∈ neighbourAddrs t.node ↔ ip ∈ S.dstAddrs := by
  have hfan := (localNodeInit_ok h).1
  have hcount := (localNodeInit_ok h).2.2.2.1
  rw [mem_neighbourAddrs, hcount, Setup.dstAddrs, List.mem_map]
  constructor
  · rintro ⟨i, hi, rfl⟩
    have hlt : (i : ℕ) < S.links.length := by omega
    exact ⟨S.links[(i : ℕ)], List.getElem_mem hlt, (localNodeInit_neighbourIps h i hlt).symm⟩
  · rintro ⟨row, hrow, rfl⟩
    obtain ⟨i, hi, rfl⟩ := List.mem_iff_getElem.mp hrow
    exact ⟨⟨i, by omega⟩, by simpa using hi, localNodeInit_neighbourIps h ⟨i, by omega⟩ hi⟩

/-- The neighbours' addresses are the configured ones throughout a run. -/
theorem Run.addrs {S : Setup M} {tr : List (Trace.Step (Daemon M) (Event M))} {s : Daemon M}
    (hrun : Run S tr s) (ip : Ip) : ip ∈ neighbourAddrs s.this.node ↔ ip ∈ S.dstAddrs := by
  refine hrun.invariant (I := fun _ s => ip ∈ neighbourAddrs s.this.node ↔ ip ∈ S.dstAddrs) ?_ ?_
  · intro s h0
    obtain ⟨t, ht, h⟩ := bind_ok_iff.mp h0
    obtain ⟨⟨g, t'⟩, hg, h⟩ := bind_ok_iff.mp h
    cases h
    rw [← localNodeInit_addrs ht ip, mem_neighbourAddrs, mem_neighbourAddrs]
    dsimp only
    rw [updateGlobalThis_this hg]
    rfl
  · intro tr s ev s' _ ih hstep
    rw [← ih, mem_neighbourAddrs, mem_neighbourAddrs, hstep.sameRouter.nNeighbours,
      hstep.sameRouter.neighbourIps]

/-! ### The LSAs of one router -/

/-- The links of the configuration: a router, and the address of a neighbour. -/
abbrev Channel (S : ι → Setup M) := { l : ι × Ip // l.2 ∈ (S l.1).dstAddrs }

/-- Where a link begins, and where it ends. -/
def Channel.src (l : Channel S) : ι := l.1.1

def Wiring.dst (W : Wiring ι) (l : Channel S) : ι := W.owner l.1.2

/-- The seen record in an entry. -/
def seenRecord {M : Type} (n : Node M) : Option (Node M) := if n.state = .nodeSeen then some n else none

/-- The LSAs of node `k` among others. -/
def ofNode {M : Type} (k : Fin maxNodeNum) (l : List (Node M)) : List (Node M) :=
  l.filter fun lsa => lsa.id = (k : ℕ) + 1

/-- The flooding of the LSAs of router `o`, which is node `k` and has started with the record `r0`. -/
def Wired.flood (S : ι → Setup M) (o : ι) (k : Fin maxNodeNum) (r0 : Node M) (s : Wired ι M) :
    Flood.State ι (Channel S) (Node M) where
  published := r0 :: (s.net o).originated
  held z := if z = o then none else seenRecord ((s.net z).graph k)
  queue l := ofNode k (s.wire l.1)

section Records
omit [DecidableEq ι] [Field M] [LinearOrder M] [FloorRing M] [Libm M]

theorem Untouched.seenRecord {n n' : Node M} (h : Untouched n n') :
    seenRecord n' = Dtlsr.seenRecord n := by
  unfold Dtlsr.seenRecord
  by_cases hs : n.state = .nodeSeen
  · rw [h.seen hs]
  · rw [if_neg hs, if_neg (h.unseen hs)]

theorem ofNode_append (k : Fin maxNodeNum) (l l' : List (Node M)) :
    ofNode k (l ++ l') = ofNode k l ++ ofNode k l' := List.filter_append ..

theorem ofNode_nil {k : Fin maxNodeNum} {l : List (Node M)} (h : ∀ lsa ∈ l, lsa.id ≠ (k : ℕ) + 1) :
    ofNode k l = [] := by
  refine List.filter_eq_nil_iff.mpr fun lsa hlsa hid => h lsa hlsa (of_decide_eq_true hid)

theorem mem_ofNode {k : Fin maxNodeNum} {l : List (Node M)} {lsa : Node M} :
    lsa ∈ ofNode k l ↔ lsa ∈ l ∧ lsa.id = (k : ℕ) + 1 := by
  simp [ofNode]

/-- All messages are copies of one router LSA. -/
theorem eq_of_mem_lsasTo {ip : Ip} {t lsa r : Node M} {source : Ip}
    (h : r ∈ lsasTo ip (sendRouterLsaExcept t lsa source)) : r = lsa := by
  have := mem_sendRouterLsaExcept (mem_lsasTo.mp h)
  exact Message.routerLsa.inj this

theorem lsasTo_sendNetworkLsa {ip source : Ip} {g : Graph M} {t : LocalNode M} :
    lsasTo ip (sendNetworkLsa g t source) = [] := by
  unfold sendNetworkLsa
  split <;> rfl

end Records

/-- A router keeps what it has of another unless it receives an LSA of it. -/
theorem Steps.untouched {S : Setup M} {s s' : Daemon M} {ev : Event M} {k : Fin maxNodeNum}
    (h : Steps S s ev s') (hl : Linked S s.this) (hk : S.id ≠ (k : ℕ) + 1)
    (hlsa : ∀ lsa source, ev.active = .routerLsa lsa source → lsa.id ≠ (k : ℕ) + 1)
    (hnews : ∀ others, ev.active = .networkLsa others → Untouched (s.graph k) (s'.graph k)) :
    Untouched (s.graph k) (s'.graph k) := by
  have hroutes := h.routes
  cases ha : ev.active with
  | routerLsa lsa source =>
    rw [ha] at hroutes
    obtain ⟨⟨u, hm⟩, -⟩ := hroutes
    exact mergeInNode_untouched (hlsa lsa source ha) hm
  | networkLsa others => exact hnews others ha
  | _ => exact h.others (by rw [ha]; exact id) k (by rw [hl.id]; exact hk)

/-- No network LSA brings a router news of node `k`, which is router `o`, but for the record `r0`. -/
def NoNews (o : ι) (k : Fin maxNodeNum) (r0 : Node M) (st : Trace.Step (Wired ι M) (Arrival ι M)) :
    Prop :=
  st.event.router ≠ o → ∀ others, st.event.event.active = .networkLsa others →
    Untouched ((st.before.net st.event.router).graph k) ((st.after.net st.event.router).graph k) ∨
      ((st.before.net st.event.router).graph k).state ≠ .nodeSeen ∧
        (st.after.net st.event.router).graph k = r0

variable {o : ι} {k : Fin maxNodeNum} {r0 : Node M} {s s' : Wired ι M} {e : Arrival ι M}

omit [LinearOrder M] [FloorRing M] [Libm M] in
/-- An LSA of another node that is taken off a link changes nothing for node `k`. -/
theorem WiredAllowed.ofNode_afterReceipt (h : WiredAllowed S W s e)
    (hlsa : ∀ lsa source, e.event.active = .routerLsa lsa source → lsa.id ≠ (k : ℕ) + 1)
    (l : ι × Ip) : ofNode k (afterReceipt e s.wire l) = ofNode k (s.wire l) := by
  by_cases hn : e.event.active.NoRouterLsa
  · rw [afterReceipt_other hn]
  · simp only [Active.NoRouterLsa, not_forall, not_not] at hn
    obtain ⟨lsa, source, ha⟩ := hn
    rw [afterReceipt_lsa ha]
    obtain ⟨-, hbrings⟩ := h
    rw [ha] at hbrings
    by_cases hl : l = e.link
    · obtain ⟨rest, hrest⟩ := List.head?_eq_some_iff.mp hbrings.2.2.2
      rw [hl, Function.update_self, hrest, List.tail_cons, ofNode, ofNode,
        List.filter_cons_of_neg (by simpa using hlsa lsa source ha)]
    · rw [Function.update_of_ne hl]

omit [Field M] [LinearOrder M] [FloorRing M] [Libm M] [DecidableEq ι] in
theorem mem_ite_lsasTo {p : Prop} [Decidable p] {ip : Ip} {out : Sent M} {lsa : Node M}
    (h : lsa ∈ if p then lsasTo ip out else []) : p ∧ lsa ∈ lsasTo ip out := by
  split at h
  · exact ⟨‹p›, h⟩
  · cases h

omit [Field M] [FloorRing M] [Libm M] [DecidableEq ι] in
/-- An iteration that receives no LSA of node `k` sends none, unless it is one of its own. -/
theorem Sending.silent_or_own {a : Active M} {d d' : Daemon M} {out : Sent M}
    (h : Sending a d d' out) (hlsa : ∀ lsa source, a = .routerLsa lsa source → lsa.id ≠ (k : ℕ) + 1) :
    (d'.originated = d.originated ∧ ∀ ip, ∀ lsa ∈ lsasTo ip out, lsa.id ≠ (k : ℕ) + 1) ∨
      ∃ r, d'.originated = d.originated ++ [r] ∧ out = sendRouterLsa d.this.node r := by
  cases h with
  | nothing event originated => exact Or.inl ⟨originated, fun ip lsa hm => by cases hm⟩
  | own r event originated => exact Or.inr ⟨r, originated, rfl⟩
  | snapshot source event originated =>
    refine Or.inl ⟨originated, fun ip lsa hm => ?_⟩
    rw [lsasTo_sendNetworkLsa] at hm
    cases hm
  | passedOn lsa source u event call originated =>
    refine Or.inl ⟨originated, fun ip lsa' hm => ?_⟩
    cases u with
    | false => cases hm
    | true =>
      rw [if_pos rfl] at hm
      rw [eq_of_mem_lsasTo hm]
      exact hlsa lsa source event

/-- What an iteration adds to the LSAs of node `k` on the links. -/
def added (S : ι → Setup M) (k : Fin maxNodeNum) (v : ι) (out : Sent M) (l : Channel S) :
    List (Node M) :=
  ofNode k (if l.1.1 = v then lsasTo l.1.2 out else [])

omit [LinearOrder M] [FloorRing M] [Libm M] in
theorem added_nil {v : ι} {out : Sent M}
    (h : ∀ ip, ∀ lsa ∈ lsasTo ip out, lsa.id ≠ (k : ℕ) + 1) (l : Channel S) :
    added S k v out l = [] :=
  ofNode_nil fun lsa hm => h _ lsa (mem_ite_lsasTo hm).2

omit [LinearOrder M] [FloorRing M] [Libm M] in
/-- The LSA that a router sends goes on its links only. -/
theorem added_sends {v : ι} {t lsa : Node M} {source : Ip} :
    Flood.Sends Channel.src v lsa (added S k v (sendRouterLsaExcept t lsa source)) where
  copies _ _ hy := eq_of_mem_lsasTo (mem_ite_lsasTo (mem_ofNode.mp hy).1).2
  from_here _ hl := ofNode_nil fun _ hy => absurd (mem_ite_lsasTo hy).1 hl

omit [DecidableEq ι] in
/-- What a router sends as its own has been stamped since it started. -/
theorem Run.since {S : Setup M} {tr : List (Trace.Step (Daemon M) (Event M))} {d : Daemon M}
    (hclock : Monotone S.clock) (hrun : Run S tr d) :
    2 ≤ d.ticks ∧ ∀ r ∈ d.originated, S.clock 1 ≤ r.timestamp := by
  refine hrun.invariant (I := fun _ d => 2 ≤ d.ticks ∧ ∀ r ∈ d.originated, S.clock 1 ≤ r.timestamp) ?_ ?_
  · intro d h0
    rw [(startUp_started h0).originated]
    exact ⟨(startUp_record h0).2.ge, fun r hr => by cases hr⟩
  · rintro tr d ev d' - ⟨hticks, ih⟩ h
    obtain ⟨hle, horig | ⟨t, now, -, hnow, -, horig⟩⟩ := h.originated
    · rw [horig]
      exact ⟨hticks.trans hle, ih⟩
    · rw [horig]
      refine ⟨hticks.trans hle, fun r hr => ?_⟩
      rcases List.mem_append.mp hr with hr | hr
      · exact ih r hr
      · rw [List.mem_singleton.mp hr, localNodeUpdateMetrics_timestamp]
        exact hclock (by omega)

omit [DecidableEq ι] in
/-- What a router sends as its own is no earlier than what it has sent, and the record with which it has
    started. -/
theorem Run.sorted {S : Setup M} {tr : List (Trace.Step (Daemon M) (Event M))} {d0 d : Daemon M}
    (ho : S.id = (k : ℕ) + 1) (hclock : Monotone S.clock) (h0 : startUp S = .ok d0) (hrun : Run S tr d) :
    (d0.this.node :: d.originated).Pairwise fun x y => x.timestamp ≤ y.timestamp := by
  refine List.pairwise_cons.mpr ⟨fun r hr => ?_, (hrun.sends ho).sorted hclock⟩
  rw [(startUp_record h0).1, recordAt_timestamp]
  exact (Run.since hclock hrun).2 r hr

omit [DecidableEq ι] in
/-- An LSA of its own that a router sends is later than all that it has sent, and than the record with
    which it has started; or it is the last one of them again. -/
theorem Steps.later {S : Setup M} (ho : S.id = (k : ℕ) + 1)
    {tr : List (Trace.Step (Daemon M) (Event M))} {d0 d d' : Daemon M} {ev : Event M} {r : Node M}
    (hclock : ClockMoves S (tr ++ [{ before := d, event := ev, after := d' }]))
    (h0 : startUp S = .ok d0) (hrun : Run S tr d) (h : Steps S d ev d')
    (hr : d'.originated = d.originated ++ [r]) :
    (∀ y ∈ d0.this.node :: d.originated, y.timestamp < r.timestamp) ∨
      (d0.this.node :: d.originated).getLast? = some r := by
  have hstamps := Run.byStamp h0 (hrun.step h) hclock
  have hsorted := Run.sorted ho hclock.mono h0 (hrun.step h)
  rw [hr, ← List.cons_append] at hsorted
  have hmem : ∀ y ∈ d0.this.node :: d.originated, y ∈ d0.this.node :: d'.originated := by
    intro y hy
    rw [hr, ← List.cons_append]
    exact List.mem_append_left _ hy
  obtain ⟨l, last, hlast⟩ : ∃ l last, d0.this.node :: d.originated = l ++ [last] :=
    ⟨_, _, (List.dropLast_append_getLast (List.cons_ne_nil _ _)).symm⟩
  rw [hlast] at hsorted hmem ⊢
  have hle : ∀ y ∈ l ++ [last], y.timestamp ≤ r.timestamp := fun y hy =>
    (List.pairwise_append.mp hsorted).2.2 y hy r (List.mem_singleton_self r)
  by_cases heq : last.timestamp = r.timestamp
  · right
    have hrmem : r ∈ d0.this.node :: d'.originated := by
      rw [hr]
      simp
    have hsame := hstamps.same last r (Or.inl (hmem last (by simp))) (Or.inl hrmem) heq
    rw [List.getLast?_concat, hsame]
  · left
    intro y hy
    have hmax : y.timestamp ≤ last.timestamp := by
      rcases List.mem_append.mp hy with hy | hy
      · exact (List.pairwise_append.mp (List.pairwise_append.mp hsorted).1).2.2 y hy last
          (List.mem_singleton_self last)
      · rw [List.mem_singleton.mp hy]
    have := hle last (by simp)
    omega

/-- The origin makes an iteration in which it receives no LSA of its own. -/
theorem Wired.flood_origin (ho : (S o).id = (k : ℕ) + 1) (hW : W.Sound S) {d0 : Daemon M}
    (h0 : startUp (S o) = .ok d0) {tr : List (Trace.Step (Wired ι M) (Arrival ι M))}
    (hclock : ClockMoves (S o)
      (stepsOf o ((tr ++ [Trace.Step.mk s e s']).map Trace.Step.routers)))
    (hrun : WiredRun S W tr s)
    (h : WiredAllowed S W s e ∧ wiredStep S e s = .ok s') (hu : e.router = o)
    (hlsa : ∀ lsa source, e.event.active = .routerLsa lsa source → lsa.id ≠ (k : ℕ) + 1) :
    s'.flood S o k d0.this.node = s.flood S o k d0.this.node ∨
      Flood.Step Channel.src W.dst o SameContent Node.timestamp (s.flood S o k d0.this.node)
        (s'.flood S o k d0.this.node) := by
  have hrec := h.1.ofNode_afterReceipt hlsa
  have hrun' := hrun.step h
  obtain ⟨hstep, hother, out, -, hkind, hwire⟩ := WiredRun.stepped h
  subst hu
  have hheld : (s'.flood S e.router k d0.this.node).held = (s.flood S e.router k d0.this.node).held := by
    funext z
    unfold Wired.flood
    dsimp only
    by_cases hz : z = e.router
    · rw [if_pos hz, if_pos hz]
    · rw [if_neg hz, if_neg hz, hother z hz]
  have hflood : s'.flood S e.router k d0.this.node =
      { published := d0.this.node :: (s'.net e.router).originated
        held := (s.flood S e.router k d0.this.node).held
        queue := fun l => (s.flood S e.router k d0.this.node).queue l ++ added S k e.router out l } := by
    rw [← hheld]
    unfold Wired.flood
    simp only [hwire, ofNode_append, hrec, added]
  rw [hflood]
  rcases hkind.silent_or_own hlsa with ⟨horig, hsilent⟩ | ⟨r, horig, hout⟩
  · left
    simp only [horig, added_nil hsilent, List.append_nil]
    rfl
  · right
    have hr : r.id = (k : ℕ) + 1 := by
      have hlsas := (((WiredRun.fleet hrun').alone e.router).sends ho).lsas
      exact (hlsas r (by rw [horig]; simp)).1.id
    rw [stepsOf_routers_snoc, if_pos rfl] at hclock
    have hlater := hstep.later ho hclock h0 ((WiredRun.fleet hrun).alone e.router) horig
    rw [horig, hout, ← List.cons_append]
    refine .publish r _ hlater added_sends fun l hl => mem_ofNode.mpr ⟨?_, hr⟩
    have hl : l.1.1 = e.router := hl
    rw [if_pos hl, mem_lsasTo, sendRouterLsa, mem_sendRouterLsaExcept_iff,
      ((WiredRun.fleet hrun).alone e.router).addrs]
    exact ⟨hl ▸ l.2, hW.proper _ _ l.2⟩

/-- Another router makes an iteration in which it receives no LSA of node `k`. -/
theorem Wired.flood_other (hid : ∀ z, (S z).id = (k : ℕ) + 1 → z = o)
    {tr : List (Trace.Step (Wired ι M) (Arrival ι M))} (hrun : WiredRun S W tr s)
    (h : WiredAllowed S W s e ∧ wiredStep S e s = .ok s') (hu : e.router ≠ o)
    (hnews : NoNews o k r0 { before := s, event := e, after := s' }) (hr0 : r0.state = .nodeSeen)
    (hlsa : ∀ lsa source, e.event.active = .routerLsa lsa source → lsa.id ≠ (k : ℕ) + 1) :
    s'.flood S o k r0 = s.flood S o k r0 ∨
      Flood.Step Channel.src W.dst o SameContent Node.timestamp (s.flood S o k r0)
        (s'.flood S o k r0) := by
  have hrec := h.1.ofNode_afterReceipt hlsa
  have hrun' := hrun.step h
  obtain ⟨hstep, hother, out, -, hkind, hwire⟩ := WiredRun.stepped h
  have hl := Run.linked ((WiredRun.fleet hrun).alone e.router)
  have hk : (S e.router).id ≠ (k : ℕ) + 1 := fun h => hu (hid _ h)
  have hsilent : ∀ ip, ∀ lsa ∈ lsasTo ip out, lsa.id ≠ (k : ℕ) + 1 := by
    rcases hkind.silent_or_own hlsa with ⟨-, hsilent⟩ | ⟨r, horig, hout⟩
    · exact hsilent
    · obtain ⟨j, hj⟩ := hl.self
      have hlsas := (((WiredRun.fleet hrun').alone e.router).sends hj).lsas
      intro ip lsa hm
      rw [hout] at hm
      rw [eq_of_mem_lsasTo hm, (hlsas r (by rw [horig]; simp)).1.id, ← hj]
      exact hk
  have hflood : s'.flood S o k r0 =
      { s.flood S o k r0 with
        held := Function.update (s.flood S o k r0).held e.router
          (seenRecord ((s'.net e.router).graph k)) } := by
    unfold Wired.flood
    have hqueue : (fun l : Channel S => ofNode k (s'.wire l.1)) = fun l => ofNode k (s.wire l.1) := by
      funext l
      rw [hwire]
      dsimp only
      rw [ofNode_append, hrec]
      exact (congrArg _ (added_nil hsilent l)).trans (List.append_nil _)
    rw [hqueue, hother o (Ne.symm hu)]
    refine congrArg (fun held => Flood.State.mk _ held _) (funext fun z => ?_)
    by_cases hz : z = e.router
    · rw [hz, Function.update_self, if_neg hu]
    · rw [Function.update_of_ne hz, hother z hz]
  have hhere : (s.flood S o k r0).held e.router = seenRecord ((s.net e.router).graph k) := if_neg hu
  have hcases : Untouched ((s.net e.router).graph k) ((s'.net e.router).graph k) ∨
      ((s.net e.router).graph k).state ≠ .nodeSeen ∧ (s'.net e.router).graph k = r0 := by
    by_cases hn : ∃ others, e.event.active = .networkLsa others
    · obtain ⟨others, ha⟩ := hn
      exact hnews hu others ha
    · exact Or.inl (hstep.untouched hl hk hlsa fun others ha => absurd ⟨others, ha⟩ hn)
  rcases hcases with hunt | ⟨hnot, hnew⟩
  · left
    rw [hflood, hunt.seenRecord, ← hhere, Function.update_eq_self]
  · right
    have hrecord : seenRecord ((s'.net e.router).graph k) = some r0 := by
      rw [hnew]
      exact if_pos hr0
    rw [hflood, hrecord]
    exact .learn e.router r0 hu rfl (hhere.trans (if_neg hnot))

omit [DecidableEq ι] [FloorRing M] [Libm M] [LinearOrder M] [Field M] in
/-- `merge_in_node` of an LSA of node `k` on an entry of node `k` is the register of the flooding. -/
theorem mergeInNode_take [DecidableEq M] {g g' : Graph M} {lsa : Node M} {u : Bool}
    (hg : (g k).id = (k : ℕ) + 1) (hid : lsa.id = (k : ℕ) + 1) (hs : lsa.state = .nodeSeen)
    (h : mergeInNode g lsa = .ok (g', u)) :
    (u = true ↔ Flood.Takes SameContent Node.timestamp (seenRecord (g k)) lsa) ∧
      seenRecord (g' k) = Flood.take SameContent Node.timestamp (seenRecord (g k)) lsa := by
  obtain ⟨j, hj, hu, hentry, hseen, -⟩ := mergeInNode_entries hs h
  obtain rfl : k = j := Fin.ext (by omega)
  have hlsa : LsaOf k lsa := ⟨hs, hid⟩
  have htakes : Supersedes (g k) lsa ↔
      Flood.Takes SameContent Node.timestamp (seenRecord (g k)) lsa := by
    unfold Supersedes Flood.Takes seenRecord
    by_cases hold : (g k).state = .nodeSeen
    · simp [hs, hold, hg, hid]
    · simp [hs, hold]
  refine ⟨by rw [hu, decide_eq_true_eq, htakes], ?_⟩
  have hnew : seenRecord (g' k) = some (g' k) := if_pos hseen
  rw [hnew, hentry]
  by_cases hold : (g k).state = .nodeSeen
  · rw [(mergedEntry_lsa hlsa).2 ⟨hold, hg⟩, seenRecord, if_pos hold]
    rfl
  · rw [(mergedEntry_lsa hlsa).1 hold, seenRecord, if_neg hold]
    rfl

omit [Field M] [FloorRing M] [Libm M] [DecidableEq ι] in
/-- A router LSA that a router receives is passed on if it brings news. -/
theorem Sending.received {d d' : Daemon M} {out : Sent M} {lsa : Node M} {source : Ip}
    (h : Sending (.routerLsa lsa source) d d' out) :
    ∃ u, mergeInNode d.graph lsa = .ok (d'.graph, u) ∧ d'.originated = d.originated ∧
      out = if u then sendRouterLsaExcept d.this.node lsa source else [] := by
  cases h with
  | nothing event => exact absurd rfl (event lsa source)
  | own r event => exact absurd rfl (event lsa source)
  | passedOn lsa' source' u event call originated =>
    cases event
    exact ⟨u, call, originated, rfl⟩
  | snapshot source' event => cases event

/-- Router `e.router` receives an LSA of node `k`, which it passes on if `u`. -/
structure Receives (S : ι → Setup M) (W : Wiring ι) (k : Fin maxNodeNum) (s s' : Wired ι M)
    (e : Arrival ι M) (lsa : Node M) (rest : List (Node M)) (u : Bool) : Prop where
  onLink : e.link.2 ∈ (S e.link.1).dstAddrs
  owner : W.owner e.link.2 = e.router
  lsaOf : LsaOf k lsa
  queued : s.wire e.link = lsa :: rest
  call : mergeInNode (s.net e.router).graph lsa = .ok ((s'.net e.router).graph, u)
  originated : ∀ z, (s'.net z).originated = (s.net z).originated
  others : ∀ z ≠ e.router, s'.net z = s.net z
  wire : s'.wire = fun l => Function.update s.wire e.link rest l ++ if l.1 = e.router then
    lsasTo l.2 (if u then
      sendRouterLsaExcept (s.net e.router).this.node lsa (W.via e.link.1 e.link.2) else []) else []

theorem Wired.receives {tr : List (Trace.Step (Wired ι M) (Arrival ι M))} (hrun : WiredRun S W tr s)
    (h : WiredAllowed S W s e ∧ wiredStep S e s = .ok s') {lsa : Node M} {source : Ip}
    (ha : e.event.active = .routerLsa lsa source) (hlsa : lsa.id = (k : ℕ) + 1) :
    ∃ rest u, Receives S W k s s' e lsa rest u := by
  obtain ⟨-, hother, out, -, hkind, hwire⟩ := WiredRun.stepped h
  obtain ⟨⟨-, hbrings⟩, -⟩ := h
  rw [ha] at hbrings hkind
  obtain ⟨hmem, howner, hvia, hhead⟩ := hbrings
  obtain ⟨rest, hrest⟩ := List.head?_eq_some_iff.mp hhead
  obtain ⟨u, call, horig, hout⟩ := hkind.received
  have hseen : lsa.state = .nodeSeen := by
    have hsent := WiredRun.allSent hrun e.link lsa (by rw [hrest]; exact List.mem_cons_self)
    exact ((WiredRun.fleet hrun).sound e.link.1).sent _ hsent
  refine ⟨rest, u, hmem, howner, ⟨hseen, hlsa⟩, hrest, call, fun z => ?_, hother, ?_⟩
  · by_cases hz : z = e.router
    · rw [hz, horig]
    · rw [hother z hz]
  · rw [hwire, afterReceipt_lsa ha, hrest, List.tail_cons, hout, hvia]

section Receives
variable {lsa : Node M} {rest : List (Node M)} {u : Bool}

/-- The link over which the LSA has come. -/
def Receives.channel (h : Receives S W k s s' e lsa rest u) : Channel S := ⟨e.link, h.onLink⟩

/-- The messages with which the receiver passes the LSA on. -/
def passedOn (W : Wiring ι) (s : Wired ι M) (e : Arrival ι M) (lsa : Node M) (u : Bool) : Sent M :=
  if u then sendRouterLsaExcept (s.net e.router).this.node lsa (W.via e.link.1 e.link.2) else []

omit [FloorRing M] [Libm M] in
/-- The LSA is the next one of node `k` on its link. -/
theorem Receives.head (h : Receives S W k s s' e lsa rest u) :
    (s.flood S o k r0).queue h.channel = lsa :: ofNode k rest := by
  change ofNode k (s.wire e.link) = _
  rw [h.queued]
  exact List.filter_cons_of_pos (by simpa using h.lsaOf.id)

omit [FloorRing M] [Libm M] in
/-- A receipt changes what the receiver holds, and the links. -/
theorem Receives.flood (h : Receives S W k s s' e lsa rest u) :
    s'.flood S o k r0 =
      { published := (s.flood S o k r0).published
        held := (s'.flood S o k r0).held
        queue := fun l => Function.update (s.flood S o k r0).queue h.channel (ofNode k rest) l ++
          added S k e.router (passedOn W s e lsa u) l } := by
  unfold Wired.flood
  refine congrArg₂ (fun published queue => Flood.State.mk published _ queue) ?_ (funext fun l => ?_)
  · rw [h.originated o]
  · rw [h.wire]
    dsimp only
    rw [ofNode_append]
    refine congrArg (· ++ added S k e.router (passedOn W s e lsa u) l) ?_
    by_cases hl : l = h.channel
    · rw [hl, Function.update_self, Receives.channel, Function.update_self]
    · have hl' : l.1 ≠ e.link := fun heq => hl (Subtype.ext heq)
      rw [Function.update_of_ne hl', Function.update_of_ne hl]

omit [LinearOrder M] [FloorRing M] [Libm M] in
theorem passedOn_sends :
    Flood.Sends Channel.src e.router lsa (added S k e.router (passedOn W s e lsa u)) := by
  cases u with
  | true => exact added_sends
  | false =>
    have hnil : ∀ l : Channel S, added S k e.router (passedOn W s e lsa false) l = [] :=
      added_nil fun ip x hx => by cases hx
    exact ⟨fun l y hy => absurd hy (by simp [hnil]), fun l _ => hnil l⟩

omit [FloorRing M] [Libm M] in
/-- The LSA has come back to its origin. -/
theorem Receives.echo (h : Receives S W k s s' e lsa rest u) (hu : e.router = o) :
    Flood.Step Channel.src W.dst o SameContent Node.timestamp (s.flood S o k r0) (s'.flood S o k r0) := by
  have hheld : (s'.flood S o k r0).held = (s.flood S o k r0).held := by
    funext z
    unfold Wired.flood
    dsimp only
    by_cases hz : z = o
    · rw [if_pos hz, if_pos hz]
    · rw [if_neg hz, if_neg hz, h.others z (hu ▸ hz)]
  have horigin : W.dst h.channel = o := h.owner.trans hu
  rw [h.flood, hheld]
  exact .echo h.channel lsa (ofNode k rest) _ horigin h.head (hu ▸ passedOn_sends)

omit [FloorRing M] [Libm M] in
/-- What another router holds is the register of the flooding. -/
theorem Receives.held (h : Receives S W k s s' e lsa rest u) (hu : e.router ≠ o)
    (hg : ((s.net e.router).graph k).id = (k : ℕ) + 1) :
    (u = true ↔ Flood.Takes SameContent Node.timestamp ((s.flood S o k r0).held e.router) lsa) ∧
      (s'.flood S o k r0).held = Function.update (s.flood S o k r0).held e.router
        (Flood.take SameContent Node.timestamp ((s.flood S o k r0).held e.router) lsa) := by
  have hhere : (s.flood S o k r0).held e.router = seenRecord ((s.net e.router).graph k) := if_neg hu
  obtain ⟨htakes, htake⟩ := mergeInNode_take hg h.lsaOf.id h.lsaOf.state h.call
  refine ⟨hhere ▸ htakes, funext fun z => ?_⟩
  by_cases hz : z = e.router
  · rw [hz, Function.update_self, hhere, ← htake]
    exact if_neg hu
  · rw [Function.update_of_ne hz]
    unfold Wired.flood
    dsimp only
    rw [h.others z hz]

/-- The LSA arrives at another router. -/
theorem Receives.deliver (hW : W.Sound S) {tr : List (Trace.Step (Wired ι M) (Arrival ι M))}
    (hrun : WiredRun S W tr s) (h : Receives S W k s s' e lsa rest u) (hu : e.router ≠ o) :
    Flood.Step Channel.src W.dst o SameContent Node.timestamp (s.flood S o k r0) (s'.flood S o k r0) := by
  have hsound := (WiredRun.fleet hrun).sound
  obtain ⟨htakes, hheld⟩ : (u = true ↔ Flood.Takes SameContent Node.timestamp
      ((s.flood S o k r0).held e.router) lsa) ∧ _ := h.held hu ((hsound e.router).closed.id k)
  have hsends : Flood.Sends Channel.src e.router lsa (added S k e.router (passedOn W s e lsa u)) :=
    passedOn_sends
  have hdst : W.dst h.channel = e.router := h.owner
  rw [h.flood, hheld]
  rw [← hdst] at htakes hu
  refine hdst ▸ .deliver h.channel lsa (ofNode k rest) _ hu h.head (hdst ▸ hsends)
    (fun ht l hl hback => ?_) fun ht => ?_
  · have hl : l.1.1 = e.router := hl.trans hdst
    refine mem_ofNode.mpr ⟨?_, h.lsaOf.id⟩
    rw [if_pos (hl.trans hdst.symm), passedOn, htakes.mpr ht, if_pos rfl, mem_lsasTo,
      mem_sendRouterLsaExcept_iff, ((WiredRun.fleet hrun).alone e.router).addrs]
    refine ⟨hl ▸ l.2, fun heq => hback ?_⟩
    -- the address that is left out is that of the sender
    change W.owner l.1.2 = e.link.1
    rw [heq]
    exact hW.back _ _ h.onLink
  · obtain rfl : u = false := Bool.eq_false_iff.mpr fun h => ht (htakes.mp h)
    exact added_nil fun ip x hx => by cases hx

end Receives

/-- An LSA of node `k` arrives: it is a delivery of the flooding. -/
theorem Wired.flood_receives (hW : W.Sound S)
    {tr : List (Trace.Step (Wired ι M) (Arrival ι M))} (hrun : WiredRun S W tr s)
    (h : WiredAllowed S W s e ∧ wiredStep S e s = .ok s') {lsa : Node M} {source : Ip}
    (ha : e.event.active = .routerLsa lsa source) (hlsa : lsa.id = (k : ℕ) + 1) :
    Flood.Step Channel.src W.dst o SameContent Node.timestamp (s.flood S o k r0) (s'.flood S o k r0) := by
  obtain ⟨rest, u, hreceives⟩ := Wired.receives hrun h ha hlsa
  by_cases hu : e.router = o
  · exact hreceives.echo hu
  · exact hreceives.deliver hW hrun hu

/-! ### Convergence -/

/-- Every step leaves the flooding of the LSAs of node `k` as it is, or is a step of it. -/
theorem Wired.flood_step (ho : (S o).id = (k : ℕ) + 1) (hid : ∀ z, (S z).id = (k : ℕ) + 1 → z = o)
    (hW : W.Sound S) {d0 : Daemon M} (h0 : startUp (S o) = .ok d0)
    {tr : List (Trace.Step (Wired ι M) (Arrival ι M))}
    (hclock : ClockMoves (S o)
      (stepsOf o ((tr ++ [Trace.Step.mk s e s']).map Trace.Step.routers)))
    (hrun : WiredRun S W tr s)
    (h : WiredAllowed S W s e ∧ wiredStep S e s = .ok s')
    (hnews : NoNews o k d0.this.node { before := s, event := e, after := s' }) :
    s'.flood S o k d0.this.node = s.flood S o k d0.this.node ∨
      Flood.Step Channel.src W.dst o SameContent Node.timestamp (s.flood S o k d0.this.node)
        (s'.flood S o k d0.this.node) := by
  by_cases hlsa : ∀ lsa source, e.event.active = .routerLsa lsa source → lsa.id ≠ (k : ℕ) + 1
  · by_cases hu : e.router = o
    · exact Wired.flood_origin ho hW h0 hclock hrun h hu hlsa
    · exact Wired.flood_other hid hrun h hu hnews (startUp_linked h0).1.seen hlsa
  · simp only [not_forall, not_not] at hlsa
    obtain ⟨lsa, source, ha, hlsa⟩ := hlsa
    exact Or.inr (Wired.flood_receives hW hrun h ha hlsa)

/-- In every state the LSAs of node `k` are as the flooding leads them. -/
theorem WiredRun.led (ho : (S o).id = (k : ℕ) + 1) (hid : ∀ z, (S z).id = (k : ℕ) + 1 → z = o)
    (hW : W.Sound S) {d0 : Daemon M} (h0 : startUp (S o) = .ok d0)
    {tr : List (Trace.Step (Wired ι M) (Arrival ι M))} (hrun : WiredRun S W tr s) :
    ClockMoves (S o) (stepsOf o (tr.map Trace.Step.routers)) →
    (∀ st ∈ tr, NoNews o k d0.this.node st) → ∃ φ, Flood.Led Channel.src W.dst o SameContent
      Node.timestamp (s.flood S o k d0.this.node) φ := by
  refine hrun.invariant (I := fun tr s => ClockMoves (S o) (stepsOf o (tr.map Trace.Step.routers)) →
    (∀ st ∈ tr, NoNews o k d0.this.node st) →
    ∃ φ, Flood.Led Channel.src W.dst o SameContent Node.timestamp (s.flood S o k d0.this.node) φ) ?_ ?_
  · rintro s ⟨hstart, hwire⟩ - -
    have hflood : s.flood S o k d0.this.node = Flood.State.start d0.this.node := by
      unfold Wired.flood Flood.State.start
      simp only [hwire, (startUp_started (hstart o)).originated]
      refine congrArg (fun held => Flood.State.mk _ held _) (funext fun z => ?_)
      by_cases hz : z = o
      · exact if_pos hz
      · rw [if_neg hz]
        exact if_neg (startUp_untouched (fun h => hz (hid z h)) (hstart z))
    rw [hflood]
    exact ⟨_, Flood.start_led sameContent_equivalence _⟩
  · intro tr s e s' hrun ih h hclock hnews
    have hbefore : ClockMoves (S o) (stepsOf o (tr.map Trace.Step.routers)) := by
      rw [stepsOf_routers_snoc] at hclock
      exact hclock.before
    have hnews' : NoNews o k d0.this.node { before := s, event := e, after := s' } :=
      hnews _ (List.mem_append_right _ (List.mem_singleton_self _))
    have hled := ih hbefore fun st hst => hnews st (List.mem_append_left _ hst)
    rcases Wired.flood_step ho hid hW h0 hclock hrun h hnews' with hsame | hstep
    · rw [hsame]
      exact hled
    · exact hstep.led sameContent_equivalence hled

omit [DecidableEq ι] in
/-- The last LSA that a router has sent shows the present statuses of its links. -/
theorem Run.announced {S : Setup M} {tr : List (Trace.Step (Daemon M) (Event M))} {d : Daemon M}
    (hrun : Run S tr d) : ∀ r ∈ d.originated.getLast?, SameStatuses r d.this.node := by
  refine hrun.invariant (I := fun _ d => ∀ r ∈ d.originated.getLast?, SameStatuses r d.this.node) ?_ ?_
  · intro d h0 r hr
    rw [(startUp_started h0).originated] at hr
    cases hr
  · intro tr d ev d' _ ih h r hr
    obtain ⟨-, horig | ⟨t, now, hlinks, -, -, horig⟩⟩ := h.originated
    · rw [horig] at hr
      exact (ih r hr).trans (h.sameStatuses (h.still horig))
    · rw [horig, List.getLast?_concat] at hr
      rw [← Option.some.inj hr]
      have hsame := (hlinks.symm.trans h.links).sameRouter
      exact ⟨hsame.nNeighbours.symm, hsame.neighbourIds.symm,
        (hlinks.symm.trans h.links).linkStatuses.symm⟩

/-- No LSA of node `k` is on its way from router `v` to router `w`. -/
def Delivered (S : ι → Setup M) (W : Wiring ι) (k : Fin maxNodeNum) (s : Wired ι M) (v w : ι) : Prop :=
  ∃ ip ∈ (S v).dstAddrs, W.owner ip = w ∧ ∀ lsa ∈ s.wire (v, ip), lsa.id ≠ (k : ℕ) + 1

/-- Flooding converges: whatever the interleaving, where no LSA of router `o` is on its way along a path,
    the router at its end has the content of the last one, with the present statuses of the links of
    `o`. -/
theorem flooding_converges (ho : (S o).id = (k : ℕ) + 1) (hid : ∀ z, (S z).id = (k : ℕ) + 1 → z = o)
    (hW : W.Sound S) {d0 : Daemon M} (h0 : startUp (S o) = .ok d0)
    {tr : List (Trace.Step (Wired ι M) (Arrival ι M))} (hrun : WiredRun S W tr s)
    (hclock : ClockMoves (S o) (stepsOf o (tr.map Trace.Step.routers)))
    (hnews : ∀ st ∈ tr, NoNews o k d0.this.node st) {z : ι} (hz : z ≠ o)
    (hpath : Relation.ReflTransGen (Delivered S W k s) o z)
    (hchange : ∃ r ∈ (s.net o).originated, ¬SameContent d0.this.node r) :
    ((s.net z).graph k).state = .nodeSeen ∧
      (∀ last ∈ (s.net o).originated.getLast?, SameContent ((s.net z).graph k) last) ∧
      ∀ i : Fin maxNodeFan, ((i : ℕ) : ℤ) < ((s.net z).graph k).nNeighbours →
        ((s.net z).graph k).linkStatuses i = (s.net o).this.node.linkStatuses i := by
  obtain ⟨φ, hled⟩ := WiredRun.led ho hid hW h0 hrun hclock hnews
  obtain ⟨r, hr, hne⟩ := hchange
  obtain ⟨last, hlast⟩ : ∃ last, (s.net o).originated.getLast? = some last := by
    cases hl : (s.net o).originated.getLast? with
    | none => rw [List.getLast?_eq_none_iff.mp hl] at hr; cases hr
    | some last => exact ⟨last, rfl⟩
  have hidle : Relation.ReflTransGen (Flood.Idle Channel.src W.dst (s.flood S o k d0.this.node)) o z := by
    refine Relation.ReflTransGen.mono (fun v w hvw => ?_) _ _ hpath
    obtain ⟨ip, hip, howner, hnone⟩ := hvw
    exact ⟨⟨(v, ip), hip⟩, rfl, howner, ofNode_nil hnone⟩
  have hpublished : (s.flood S o k d0.this.node).published.getLast? = some last := by
    rw [← hlast]
    exact List.getLast?_cons_of_ne_nil (List.ne_nil_of_mem hr)
  obtain ⟨x, hx, hcontent⟩ :=
    hled.settles sameContent_equivalence hz hidle rfl hpublished ⟨r, List.mem_cons_of_mem _ hr, hne⟩
  have hentry : ((s.net z).graph k).state = .nodeSeen ∧ (s.net z).graph k = x := by
    have hheld : seenRecord ((s.net z).graph k) = some x := by
      rw [← hx]
      exact (if_neg hz).symm
    unfold seenRecord at hheld
    split at hheld
    · exact ⟨‹_›, Option.some.inj hheld⟩
    · cases hheld
  rw [hentry.2]
  refine ⟨hentry.2 ▸ hentry.1, fun r hr => ?_, fun i hi => ?_⟩
  · rw [← Option.some.inj (hlast.symm.trans hr)]
    exact hcontent
  · have hstatus := (Run.announced ((WiredRun.fleet hrun).alone o) last hlast).linkStatuses
    rw [(hcontent.links i hi).2.1, hstatus]

end Wired

/-! ### Three routers in a row -/

/-- Router 1 is linked to router 2, and router 2 to router 3. -/
def inRow (i : Fin 3) : Setup ℚ :=
  let row (src dst : Ip) (dstId : ℤ) : LinkRow :=
    { interface := "eth0", srcAddr := src, dstAddr := dst, dstId }
  { twoLinks .lsr (coarse 3) (pure false) with
    id := (i : ℕ) + 1
    links := match i with
      | 0 => [row (inetAddr 10 0 0 1) (inetAddr 10 0 0 2) 2]
      | 1 => [row (inetAddr 10 0 0 2) (inetAddr 10 0 0 1) 1,
          row (inetAddr 10 0 1 2) (inetAddr 10 0 1 3) 3]
      | 2 => [row (inetAddr 10 0 1 3) (inetAddr 10 0 1 2) 2] }

def rowWiring : Wiring (Fin 3) where
  owner ip := if ip = inetAddr 10 0 0 1 then 0 else if ip = inetAddr 10 0 1 3 then 2 else 1
  via i ip := ((inRow i).links.find? fun row => row.dstAddr = ip).elim 0 LinkRow.srcAddr

theorem rowWiring_sound : rowWiring.Sound inRow := by
  have hall : ∀ i, ((inRow i).dstAddrs.all fun ip =>
      ip ≠ 0 ∧ rowWiring.owner (rowWiring.via i ip) = i) = true := by decide
  have hlink : ∀ i, ∀ ip ∈ (inRow i).dstAddrs, ip ≠ 0 ∧ rowWiring.owner (rowWiring.via i ip) = i :=
    fun i ip hip => of_decide_eq_true (List.all_eq_true.mp (hall i) ip hip)
  exact ⟨fun i ip hip => (hlink i ip hip).1, fun i ip hip => (hlink i ip hip).2⟩

theorem inRow_starts (i : Fin 3) : (startUp (inRow i)).toOption.isSome = true := by
  revert i
  decide +kernel

def rowStart (i : Fin 3) : Daemon ℚ := (startUp (inRow i)).toOption.get (inRow_starts i)

def rowAtStart : Wired (Fin 3) ℚ where
  net := rowStart
  wire _ := []

/-- What router 1 sends when its link comes up. -/
def lsaOfFirst : Node ℚ :=
  ((runEvents (inRow 0) [quietly (.heartbeat (inetAddr 10 0 0 2))]).bind List.getLast?).elim zeroNode
    fun st => st.after.originated.headD zeroNode

/-- The link of router 1 comes up, and its LSA travels to router 3. -/
def downTheRow : List (Arrival (Fin 3) ℚ) :=
  [{ router := 0, event := quietly (.heartbeat (inetAddr 10 0 0 2)), link := (0, 0) },
    { router := 1
      event := quietly (.routerLsa lsaOfFirst (inetAddr 10 0 0 1))
      link := (0, inetAddr 10 0 0 2) },
    { router := 2
      event := quietly (.routerLsa lsaOfFirst (inetAddr 10 0 1 2))
      link := (1, inetAddr 10 0 1 3) }]

instance {ι : Type} [Fintype ι] (net : ι → Daemon ℚ) : (a : Active ℚ) → Decidable (WasSent net a)
  | .routerLsa lsa _ => inferInstanceAs (Decidable (∃ i, ∃ m ∈ (net i).sent, m.2 = .routerLsa lsa))
  | .networkLsa others =>
    inferInstanceAs (Decidable (∃ i, ∃ m ∈ (net i).sent, m.2 = .networkLsa others))
  | .idle | .heartbeat _ | .routerLsaSndTimer | .networkLsaRequest _ | .replayTimer
  | .recomputationTimer | .timer _ => .isTrue trivial

instance (s : Wired (Fin 3) ℚ) (e : Arrival (Fin 3) ℚ) : Decidable (WiredAllowed inRow rowWiring s e) := by
  unfold WiredAllowed
  split <;> infer_instance

theorem flooding_converges_inRow : ∃ tr s, WiredRun inRow rowWiring tr s ∧
    tr.map Trace.Step.event = downTheRow ∧ ((s.net 2).graph 0).state = .nodeSeen ∧
      ∀ i : Fin maxNodeFan, ((i : ℕ) : ℤ) < ((s.net 2).graph 0).nNeighbours →
        ((s.net 2).graph 0).linkStatuses i = (s.net 0).this.node.linkStatuses i := by
  have h0 : ∀ i, startUp (inRow i) = .ok (rowStart i) := fun i =>
    ok_of_toOption (Option.some_get _).symm
  have hstart : WiredStart inRow rowAtStart := ⟨h0, rfl⟩
  have hrun : ∃ tr s, WiredRun inRow rowWiring tr s ∧ tr.map Trace.Step.event = downTheRow ∧
      tr.getLast?.any (fun st => (∀ lsa ∈ st.after.wire (0, inetAddr 10 0 0 2), lsa.id ≠ 1) ∧
        (∀ lsa ∈ st.after.wire (1, inetAddr 10 0 1 3), lsa.id ≠ 1) ∧
        ∃ r ∈ (st.after.net 0).originated, ¬SameContent (rowStart 0).this.node r) = true ∧
      ∀ st ∈ stepsOf 0 (tr.map Trace.Step.routers), LinksChanged st →
        coarse 3 (st.before.ticks - 1) < coarse 3 st.before.ticks :=
    Trace.exists_follow hstart downTheRow (by decide +kernel)
  obtain ⟨tr, s, hrun, hevents, hlast, hmoves⟩ := hrun
  obtain ⟨last, -, hs, hend⟩ := hrun.at_end hlast
  rw [hs] at hend
  obtain ⟨hone, htwo, hchange⟩ := of_decide_eq_true hend
  have hnews : ∀ st ∈ tr, NoNews 0 0 (rowStart 0).this.node st := by
    intro st hst _ others hn
    have hmem : st.event ∈ downTheRow := hevents ▸ List.mem_map_of_mem hst
    simp only [downTheRow, List.mem_cons, List.not_mem_nil, or_false] at hmem
    rcases hmem with h | h | h <;> rw [h] at hn <;> cases hn
  have hpath : Relation.ReflTransGen (Delivered inRow rowWiring 0 s) 0 2 :=
    .tail (.single ⟨inetAddr 10 0 0 2, by decide, by decide, hone⟩)
      ⟨inetAddr 10 0 1 3, by decide, by decide, htwo⟩
  obtain ⟨hseen, -, hstatus⟩ := flooding_converges (S := inRow) (W := rowWiring) (o := 0) (k := 0)
    rfl (by decide) rowWiring_sound (h0 0) hrun ⟨coarse_mono 3, hmoves⟩ hnews (z := 2) (by decide) hpath
    hchange
  exact ⟨tr, s, hrun, hevents, hseen, hstatus⟩

end Dtlsr
