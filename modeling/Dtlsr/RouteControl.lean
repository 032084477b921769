import Dtlsr.Pathfind

/-!
    `process/route_control.c`: the next hops are reduced to one route per gateway and subnet, and the
    kernel's table is brought up to date by a mark and sweep over the routes installed so far. What the
    kernel answers to an `ioctl` is ignored by the code, so the model records the calls only. -/

namespace Dtlsr
open Checked

/-- The fields of `struct rtentry` that the code sets. -/
structure RtEntry where
  dst : Ip
  gateway : Ip
  genmask : Ip
  metric : ℤ
  deriving DecidableEq

/-- A route entry as `memset` leaves it. -/
def RtEntry.zero : RtEntry := { dst := 0, gateway := 0, genmask := 0, metric := 0 }

structure SimpleRt where
  dst : Ip
  gateway : Ip
  metric : ℤ
  seen : Bool
  rtExists : Bool
  deriving DecidableEq

def SimpleRt.zero : SimpleRt :=
  { dst := 0, gateway := 0, metric := 0, seen := false, rtExists := false }

/-- `curr_routes` -/
abbrev CurrRoutes := Fin maxNodeNum → SimpleRt

inductive Ioctl where
  /-- `SIOCADDRT` -/
  | addRt (rt : RtEntry)
  /-- `SIOCDELRT` -/
  | delRt (rt : RtEntry)
  deriving DecidableEq

def getSimpleRt (rt : RtEntry) : SimpleRt :=
  { dst := rt.dst, gateway := rt.gateway, metric := rt.metric, seen := true, rtExists := true }

def simpleRtEq (rt1 rt2 : SimpleRt) : Bool :=
  rt1.dst = rt2.dst && rt1.gateway = rt2.gateway && rt1.metric = rt2.metric

def markRoutesUnseen (routes : CurrRoutes) : CurrRoutes := fun i => { routes i with seen := false }

/-- Nothing is added to a full table. -/
def addToCurrRoutes (routes : CurrRoutes) (rt : SimpleRt) : CurrRoutes :=
  match (List.finRange maxNodeNum).find? fun i => !(routes i).rtExists with
  | some i => Function.update routes i rt
  | none => routes

/-- Mark route seen if it is, and if it isn't add it to `curr_routes`. -/
def markRouteSeen (routes : CurrRoutes) (rt : RtEntry) : CurrRoutes :=
  match (List.finRange maxNodeNum).find? fun i =>
      (routes i).rtExists && simpleRtEq (routes i) (getSimpleRt rt) with
  | some i => Function.update routes i { routes i with seen := true }
  | none => addToCurrRoutes routes (getSimpleRt rt)

def setAddrs (route : RtEntry) (gatewayIp destIp : Ip) : RtEntry :=
  { route with gateway := gatewayIp, dst := destIp, genmask := netmask }

/-- The sweep: the routes that exist and were not seen. -/
def stale (rt : SimpleRt) : Bool := rt.rtExists && !rt.seen

def removeMarkedRoutes (routes : CurrRoutes) : CurrRoutes × List Ioctl :=
  (fun i => if stale (routes i) then SimpleRt.zero else routes i,
    ((List.finRange maxNodeNum).filter fun i => stale (routes i)).map fun i =>
      .delRt { setAddrs RtEntry.zero (routes i).gateway (routes i).dst with
        metric := (routes i).metric })

def reduceRoutesToSubnets (nextHops : HopTable) : HopTable := fun i =>
  if (nextHops i).nextHop ≠ -1 then
    { nextHops i with destIp := (nextHops i).destIp &&& netmask }
  else nextHops i

/-- The loops of `remove_duplicates`: each entry is compared with those before it, as the loop has left
    them. -/
def dropDuplicates : List HopDest → List HopDest → List HopDest
  | done, [] => done
  | done, hop :: rest =>
    let duplicate := done.any fun e => hop.nextHop = e.nextHop && hop.destIp = e.destIp
    dropDuplicates (done ++ [if duplicate then { hop with nextHop := -1 } else hop]) rest

def removeDuplicates (nextHops : HopTable) : HopTable := fun i =>
  (dropDuplicates [] (List.ofFn nextHops))[(i : ℕ)]?.getD (nextHops i)

def filterNextHops (nextHops : HopTable) : HopTable :=
  removeDuplicates (reduceRoutesToSubnets nextHops)

section Derive
variable {M : Type}

/-- The route of one hop: through the first neighbour that is the next hop. -/
def deriveRtentry (this : LocalNode M) (hop : HopDest) : Exec RtEntry :=
  if hop.nextHop = -1 then pure RtEntry.zero
  else do
    let nb ← firstIdx this.node.nNeighbours fun i => do
      pure (decide ((← read this.node.neighbourIds i) = hop.nextHop))
    match nb with
    | some i => do
      let gateway ← read this.node.neighbourIps i
      pure { setAddrs RtEntry.zero gateway hop.destIp with metric := hop.metric }
    | none => pure RtEntry.zero

def deriveRtentries (this : LocalNode M) (nextHops : HopTable) :
    Exec (Fin maxNodeNum → RtEntry) :=
  fill maxNodeNum fun i => deriveRtentry this (nextHops i)

/-- The entries that hold a route, in order. -/
def routed (nextHops : HopTable) : List (Fin maxNodeNum) :=
  (List.finRange maxNodeNum).filter fun i => (nextHops i).nextHop ≠ -1

def addRoutes (nextHops : HopTable) (routes : Fin maxNodeNum → RtEntry) : List Ioctl :=
  (routed nextHops).map fun i => .addRt (routes i)

/-- The new `curr_routes`, and the calls made. -/
def updateRoutingTable (this : LocalNode M) (nextHops : HopTable) (curr : CurrRoutes) :
    Exec (CurrRoutes × List Ioctl) := do
  let nhCpy := filterNextHops nextHops
  let routes ← deriveRtentries this nhCpy
  let added := addRoutes nhCpy routes
  let marked := (routed nhCpy).foldl (fun curr i => markRouteSeen curr (routes i))
    (markRoutesUnseen curr)
  let (curr, deleted) := removeMarkedRoutes marked
  pure (curr, added ++ deleted)

end Derive

/-! ### Duplicates -/

/-- Some entry before `i` has the next hop and the destination of entry `i`. -/
def Duplicate (nextHops : HopTable) (i : Fin maxNodeNum) : Prop :=
  ∃ j < i, (nextHops i).nextHop = (nextHops j).nextHop ∧ (nextHops i).destIp = (nextHops j).destIp

instance (nextHops : HopTable) (i : Fin maxNodeNum) : Decidable (Duplicate nextHops i) := by
  unfold Duplicate; infer_instance

/-- What `remove_duplicates` makes of entry `i`: the first entry of each kind stays. -/
def deduplicated (nextHops : HopTable) (i : Fin maxNodeNum) : HopDest :=
  if Duplicate nextHops i then { nextHops i with nextHop := -1 } else nextHops i

theorem deduplicated_destIp (t : HopTable) (i : Fin maxNodeNum) :
    (deduplicated t i).destIp = (t i).destIp := by
  unfold deduplicated
  split <;> rfl

/-- Of the entries that share a next hop and a destination with `i`, the first is no duplicate. -/
theorem exists_first (t : HopTable) (i : Fin maxNodeNum) : ∃ j ≤ i, ¬Duplicate t j ∧
    (t i).nextHop = (t j).nextHop ∧ (t i).destIp = (t j).destIp := by
  induction i using WellFoundedLT.induction with
  | ind i ih =>
    by_cases hd : Duplicate t i
    · obtain ⟨j, hji, h1, h2⟩ := hd
      obtain ⟨k, hkj, hk, h3, h4⟩ := ih j hji
      exact ⟨k, hkj.trans hji.le, hk, h1.trans h3, h2.trans h4⟩
    · exact ⟨i, le_rfl, hd, rfl, rfl⟩

/-- That the loop sees the earlier entries without their duplicates changes nothing: of each kind of
    route the first entry is still there. -/
theorem deduplicated_eq (t : HopTable) (i : Fin maxNodeNum) :
    deduplicated t i = if ∃ j < i, (t i).nextHop = (deduplicated t j).nextHop ∧
      (t i).destIp = (deduplicated t j).destIp then { t i with nextHop := -1 } else t i := by
  by_cases hnone : (t i).nextHop = -1
  · have hsame : { t i with nextHop := -1 } = t i := by rw [← hnone]
    rw [deduplicated, hsame, ite_self, ite_self]
  · have hiff : Duplicate t i ↔ ∃ j < i, (t i).nextHop = (deduplicated t j).nextHop ∧
        (t i).destIp = (deduplicated t j).destIp := by
      constructor
      · rintro ⟨j, hj, h1, h2⟩
        obtain ⟨k, hk, hfirst, h3, h4⟩ := exists_first t j
        refine ⟨k, hk.trans_lt hj, ?_⟩
        rw [deduplicated, if_neg hfirst]
        exact ⟨h1.trans h3, h2.trans h4⟩
      · rintro ⟨j, hj, h1, h2⟩
        refine ⟨j, hj, ?_, by rw [h2, deduplicated_destIp]⟩
        unfold deduplicated at h1
        split at h1
        · exact absurd h1 hnone
        · exact h1
    rw [deduplicated]
    exact if_congr hiff rfl rfl

theorem dropDuplicates_eq (t : HopTable) : ∀ {rest : List HopDest} {k : ℕ},
    rest = (List.ofFn t).drop k → k ≤ maxNodeNum →
    dropDuplicates ((List.ofFn (deduplicated t)).take k) rest = List.ofFn (deduplicated t) := by
  intro rest
  induction rest with
  | nil =>
    intro k hrest hk
    have hlen := congrArg List.length hrest
    simp only [List.length_nil, List.length_drop, List.length_ofFn] at hlen
    rw [dropDuplicates, List.take_of_length_le (by rw [List.length_ofFn]; omega)]
  | cons hop rest ih =>
    intro k hrest hk
    have hlen := congrArg List.length hrest
    simp only [List.length_cons, List.length_drop, List.length_ofFn] at hlen
    have hk' : k < maxNodeNum := by omega
    rw [List.drop_eq_getElem_cons (by rw [List.length_ofFn]; exact hk'), List.getElem_ofFn] at hrest
    obtain ⟨rfl, htail⟩ := List.cons.inj hrest
    have hany : (((List.ofFn (deduplicated t)).take k).any fun e =>
        (t ⟨k, hk'⟩).nextHop = e.nextHop && (t ⟨k, hk'⟩).destIp = e.destIp) = true ↔
        ∃ j < (⟨k, hk'⟩ : Fin maxNodeNum), (t ⟨k, hk'⟩).nextHop = (deduplicated t j).nextHop ∧
          (t ⟨k, hk'⟩).destIp = (deduplicated t j).destIp := by
      simp only [List.any_eq_true, List.mem_take_iff_getElem, List.length_ofFn, List.getElem_ofFn,
        Bool.and_eq_true, decide_eq_true_eq]
      constructor
      · rintro ⟨_, ⟨j, hj, rfl⟩, h⟩
        exact ⟨⟨j, by omega⟩, Fin.mk_lt_mk.mpr (by omega), h⟩
      · rintro ⟨j, hj, h⟩
        exact ⟨_, ⟨j, by have := Fin.lt_def.mp hj; simp only at this; omega, rfl⟩, h⟩
    have hentry := deduplicated_eq t ⟨k, hk'⟩
    simp only [← hany] at hentry
    rw [dropDuplicates]
    rw [← hentry]
    have htake : (List.ofFn (deduplicated t)).take k ++ [deduplicated t ⟨k, hk'⟩] =
        (List.ofFn (deduplicated t)).take (k + 1) := by
      rw [List.take_succ_eq_append_getElem (by rw [List.length_ofFn]; exact hk'), List.getElem_ofFn]
    rw [htake]
    exact ih htail hk'

/-- `remove_duplicates` keeps the first entry of each kind of route. -/
theorem removeDuplicates_eq (t : HopTable) : removeDuplicates t = deduplicated t := by
  funext i
  have h := dropDuplicates_eq t (k := 0) (List.drop_zero (l := List.ofFn t)).symm (Nat.zero_le _)
  rw [List.take_zero] at h
  rw [removeDuplicates, h, List.getElem?_eq_getElem (by rw [List.length_ofFn]; exact i.isLt),
    List.getElem_ofFn]
  rfl

/-- `remove_duplicates` loses no kind of route, and invents none. -/
theorem mem_removeDuplicates {t : HopTable} {hop : ℤ} {ip : Ip} (hhop : hop ≠ -1) :
    (∃ i, (removeDuplicates t i).nextHop = hop ∧ (removeDuplicates t i).destIp = ip) ↔
      ∃ i, (t i).nextHop = hop ∧ (t i).destIp = ip := by
  rw [removeDuplicates_eq]
  constructor
  · rintro ⟨i, h1, h2⟩
    rw [deduplicated_destIp] at h2
    refine ⟨i, ?_, h2⟩
    unfold deduplicated at h1
    split at h1
    · exact absurd h1.symm hhop
    · exact h1
  · rintro ⟨i, rfl, rfl⟩
    obtain ⟨j, -, hfirst, h1, h2⟩ := exists_first t i
    refine ⟨j, ?_, ?_⟩ <;> rw [deduplicated, if_neg hfirst]
    · exact h1.symm
    · exact h2.symm

/-- Filtering loses no gateway and subnet, and invents none. -/
theorem mem_filterNextHops {t : HopTable} {hop : ℤ} {net : Ip} (hhop : hop ≠ -1) :
    (∃ i, (filterNextHops t i).nextHop = hop ∧ (filterNextHops t i).destIp = net) ↔
      ∃ i, (t i).nextHop = hop ∧ (t i).destIp &&& netmask = net := by
  rw [filterNextHops, mem_removeDuplicates hhop]
  refine exists_congr fun i => ?_
  unfold reduceRoutesToSubnets
  by_cases hi : (t i).nextHop = -1
  · rw [if_neg (not_not.mpr hi), hi]
    simp [hhop.symm]
  · rw [if_pos hi]

/-- The subnets that the filtered table has a route to. -/
theorem filterNextHops_subnet {t : HopTable} {net : Ip} :
    (∃ i, (filterNextHops t i).nextHop ≠ -1 ∧ (filterNextHops t i).destIp = net) ↔
      ∃ i, (t i).nextHop ≠ -1 ∧ (t i).destIp &&& netmask = net := by
  constructor
  · rintro ⟨i, h1, h2⟩
    obtain ⟨j, h3, h4⟩ := (mem_filterNextHops h1).mp ⟨i, rfl, h2⟩
    exact ⟨j, by rw [h3]; exact h1, h4⟩
  · rintro ⟨i, h1, h2⟩
    obtain ⟨j, h3, h4⟩ := (mem_filterNextHops h1).mpr ⟨i, rfl, h2⟩
    exact ⟨j, by rw [h3]; exact h1, h4⟩

/-! ### One entry per gateway and subnet -/

@[simp] theorem reduceRoutesToSubnets_nextHop (t : HopTable) (i : Fin maxNodeNum) :
    (reduceRoutesToSubnets t i).nextHop = (t i).nextHop := by
  unfold reduceRoutesToSubnets
  split <;> rfl

theorem reduceRoutesToSubnets_of_routed {t : HopTable} {i : Fin maxNodeNum}
    (hi : (t i).nextHop ≠ -1) :
    reduceRoutesToSubnets t i = { t i with destIp := (t i).destIp &&& netmask } := if_pos hi

theorem deduplicated_of_ne {t : HopTable} {i : Fin maxNodeNum} (hi : (deduplicated t i).nextHop ≠ -1) :
    ¬Duplicate t i ∧ deduplicated t i = t i := by
  unfold deduplicated at hi ⊢
  split at hi
  · exact absurd rfl hi
  · rename_i hd
    exact ⟨hd, if_neg hd⟩

/-- An entry that still has a next hop is the entry that was there, reduced to its subnet. -/
theorem filterNextHops_of_ne {t : HopTable} {i : Fin maxNodeNum}
    (hi : (filterNextHops t i).nextHop ≠ -1) : (t i).nextHop ≠ -1 ∧
      filterNextHops t i = { t i with destIp := (t i).destIp &&& netmask } := by
  rw [filterNextHops, removeDuplicates_eq] at hi ⊢
  obtain ⟨-, heq⟩ := deduplicated_of_ne hi
  rw [heq, reduceRoutesToSubnets_nextHop] at hi
  exact ⟨hi, by rw [heq, reduceRoutesToSubnets_of_routed hi]⟩

/-- No entry before one that stays has its gateway and subnet. -/
theorem filterNextHops_first {t : HopTable} {i j : Fin maxNodeNum}
    (hi : (filterNextHops t i).nextHop ≠ -1) (hj : j < i) (hhop : (t j).nextHop = (t i).nextHop) :
    (t j).destIp &&& netmask ≠ (t i).destIp &&& netmask := by
  intro hnet
  have hne := (filterNextHops_of_ne hi).1
  rw [filterNextHops, removeDuplicates_eq] at hi
  refine (deduplicated_of_ne hi).1 ⟨j, hj, by simp [hhop], ?_⟩
  rw [reduceRoutesToSubnets_of_routed hne, reduceRoutesToSubnets_of_routed (hhop ▸ hne)]
  exact hnet.symm

/-- Of the entries that stay, no two have the same gateway and subnet. -/
theorem filterNextHops_inj {t : HopTable} {i j : Fin maxNodeNum}
    (hi : (filterNextHops t i).nextHop ≠ -1)
    (hhop : (filterNextHops t i).nextHop = (filterNextHops t j).nextHop)
    (hdest : (filterNextHops t i).destIp = (filterNextHops t j).destIp) : i = j := by
  have hj : (filterNextHops t j).nextHop ≠ -1 := hhop ▸ hi
  rw [(filterNextHops_of_ne hi).2, (filterNextHops_of_ne hj).2] at hhop hdest
  rcases lt_trichotomy i j with hlt | rfl | hlt
  · exact absurd hdest (filterNextHops_first hj hlt hhop)
  · rfl
  · exact absurd hdest.symm (filterNextHops_first hi hlt hhop.symm)

theorem netmask_idem (ip : Ip) : ip &&& netmask &&& netmask = ip &&& netmask := by
  rw [UInt32.and_assoc, UInt32.and_self]

theorem reduceRoutesToSubnets_filterNextHops (t : HopTable) :
    reduceRoutesToSubnets (filterNextHops t) = filterNextHops t := by
  funext i
  by_cases hi : (filterNextHops t i).nextHop = -1
  · exact if_neg (not_not.mpr hi)
  · rw [reduceRoutesToSubnets_of_routed hi, (filterNextHops_of_ne hi).2]
    simp only [netmask_idem]

/-- A second filtering changes nothing. -/
theorem filterNextHops_idem (t : HopTable) :
    filterNextHops (filterNextHops t) = filterNextHops t := by
  rw [filterNextHops, reduceRoutesToSubnets_filterNextHops, removeDuplicates_eq]
  funext i
  rw [deduplicated, ite_eq_right_iff]
  rintro ⟨j, hj, hhop, hdest⟩
  by_cases hi : (filterNextHops t i).nextHop = -1
  · rw [← hi]
  · exact absurd (filterNextHops_inj hi hhop hdest) hj.ne'

/-- Filtering keeps one entry per gateway and subnet and loses none: the first of each, unchanged but for
    its destination, and filtering again changes nothing. -/
theorem filterNextHops_keeps_first (t : HopTable) :
    (∀ i j, (filterNextHops t i).nextHop ≠ -1 → (filterNextHops t j).nextHop ≠ -1 → i ≠ j →
      ((filterNextHops t i).nextHop, (filterNextHops t i).destIp) ≠
        ((filterNextHops t j).nextHop, (filterNextHops t j).destIp)) ∧
    {p : ℤ × Ip | ∃ i, (filterNextHops t i).nextHop ≠ -1 ∧
        p = ((filterNextHops t i).nextHop, (filterNextHops t i).destIp)} =
      {p : ℤ × Ip | ∃ i, (t i).nextHop ≠ -1 ∧
        p = ((t i).nextHop, (t i).destIp &&& netmask)} ∧
    (∀ i, (filterNextHops t i).nextHop ≠ -1 →
      filterNextHops t i = { t i with destIp := (t i).destIp &&& netmask } ∧
      ∀ j < i, ((t j).nextHop, (t j).destIp &&& netmask) ≠
        ((filterNextHops t i).nextHop, (filterNextHops t i).destIp)) ∧
    filterNextHops (filterNextHops t) = filterNextHops t := by
  refine ⟨fun i j hi _ hij heq => ?_, ?_, fun i hi => ?_, filterNextHops_idem t⟩
  · exact hij (filterNextHops_inj hi (congrArg Prod.fst heq) (congrArg Prod.snd heq))
  · ext ⟨hop, net⟩
    constructor
    · rintro ⟨i, hi, heq⟩
      cases heq
      obtain ⟨j, hhop, hnet⟩ := (mem_filterNextHops hi).mp ⟨i, rfl, rfl⟩
      exact ⟨j, by rw [hhop]; exact hi, by rw [hhop, hnet]⟩
    · rintro ⟨i, hi, heq⟩
      cases heq
      obtain ⟨j, hhop, hnet⟩ := (mem_filterNextHops hi).mpr ⟨i, rfl, rfl⟩
      exact ⟨j, by rw [hhop]; exact hi, by rw [hhop, hnet]⟩
  · obtain ⟨-, heq⟩ := filterNextHops_of_ne hi
    refine ⟨heq, fun j hj hpair => ?_⟩
    rw [heq] at hpair
    exact filterNextHops_first hi hj (congrArg Prod.fst hpair) (congrArg Prod.snd hpair)

end Dtlsr
